import MeatySkeleton.Gui.Compositor
import MeatySkeleton.Gui.Drawing
import MeatySkeleton.Gui.Terminal
import MeatySkeleton.Gui.Window

/-!
# The scene

`desktop.c` draws the whole scene again: the desktop, the normal windows from the bottom to the
top, the bars and an open menu. It is called when the focus changes. `terminal_session.c` shows
new output without it: it draws the surface of the terminal and composites this one window.
-/

namespace MeatySkeleton.Gui

open Device

/-! ## Windows -/

/-- The loops of `gui_window_composite`. -/
def Window.composited (window : Window) (surface : Surface) (clipped : Rect) : List Edit :=
  clipped.cells.flatMap fun (x, y) =>
    (imageInk (surface.pixels (x - window.x) (y - window.y))).map fun ink => ⟨x, y, ink⟩

namespace Compositor

/-- Draw on the backbuffer. -/
def draw (c : Compositor) (edits : List Edit) : Compositor :=
  { c with backbuffer := c.backbuffer.draw edits }

/-- `gui_window_composite`. -/
def composite (c : Compositor) (window : Window) : Option Compositor :=
  match window.surface with
  | none => some c
  | some surface =>
    if !window.visible || !c.initialized then some c
    else
      match window.bounds.intersect c.screenRect with
      | none => some c
      | some clipped => (c.draw (window.composited surface clipped)).addDamage clipped

/-- Windows, one after the other. -/
def compositeAll (c : Compositor) (windows : List Window) : Option Compositor :=
  windows.foldlM composite c

end Compositor

/-! ## The desktop -/

/-- `gui_wallpaper_mode_t`. -/
inductive WallpaperMode
  | stretch
  | fit
  | fill
  | center

/-- `desktop.c`, with the colours of its theme. -/
structure Desktop where
  initialized : Bool
  gradientTop : Color
  gradientBottom : Color
  wallpaper : Option Surface
  wallpaperMode : WallpaperMode

namespace Desktop

/-- `gui_desktop_nonzero_dimension`. -/
def nonzeroDimension (value : Nat) : Nat :=
  if value = 0 then 1 else if 2 ^ 32 - 1 < value then 2 ^ 32 - 1 else value

/-- A rectangle of this size in the middle of the screen. -/
def centered (screen : Rect) (width height : Nat) : Rect :=
  ⟨(toI32 (toI32 screen.width - toI32 width)).tdiv 2,
    (toI32 (toI32 screen.height - toI32 height)).tdiv 2, width, height⟩

/-- `gui_desktop_wallpaper_rect`. -/
def wallpaperRect (screen : Rect) (wallpaper : Surface) (mode : WallpaperMode) : Rect :=
  if screen.isEmpty || wallpaper.rect.isEmpty then screen
  else
    let imageCross := wallpaper.width * screen.height
    let screenCross := screen.width * wallpaper.height
    match mode with
    | .stretch => screen
    | .center => centered screen wallpaper.width wallpaper.height
    | .fit =>
      if screenCross < imageCross then
        centered screen screen.width
          (nonzeroDimension (wallpaper.height * screen.width / wallpaper.width))
      else
        centered screen (nonzeroDimension (wallpaper.width * screen.height / wallpaper.height))
          screen.height
    | .fill =>
      if screenCross < imageCross then
        centered screen (nonzeroDimension
          ((wallpaper.width * screen.height + wallpaper.height - 1) / wallpaper.height))
          screen.height
      else
        centered screen screen.width (nonzeroDimension
          ((wallpaper.height * screen.width + wallpaper.width - 1) / wallpaper.width))

/-- What `gui_desktop_render` draws below the windows. -/
def background (desktop : Desktop) (screen : Rect) : List Edit :=
  fillVerticalGradient screen screen desktop.gradientTop desktop.gradientBottom ++
    match desktop.wallpaper with
    | none => []
    | some wallpaper =>
      drawScaled screen wallpaper (wallpaperRect screen wallpaper desktop.wallpaperMode)

end Desktop

/-- `gui_topbar_popup_t`. -/
inductive Popup
  | none
  | start
  | power

/-- The windows of `topbar.c` and `taskbar.c`. -/
structure Shell where
  topbarInitialized : Bool
  topbarWindow : Window
  startMenuWindow : Window
  powerMenuWindow : Window
  activePopup : Popup
  taskbarInitialized : Bool
  taskbarWindow : Window

namespace Shell

/-- What `gui_topbar_composite` composites. -/
def topbar (shell : Shell) : List Window :=
  if !shell.topbarInitialized then []
  else
    match shell.activePopup with
    | .none => [shell.topbarWindow]
    | .start => [shell.topbarWindow, shell.startMenuWindow]
    | .power => [shell.topbarWindow, shell.powerMenuWindow]

/-- What `gui_taskbar_composite` composites. -/
def taskbar (shell : Shell) : List Window :=
  if !shell.taskbarInitialized then [] else [shell.taskbarWindow]

end Shell

/-! ## Terminals -/

/-- `gui_terminal_session_t`, without the keys that wait for the shell. -/
structure TerminalSession (W : Type) where
  used : Bool
  window : W
  text : Session

/-- The loop of `gui_terminal_session_write`. -/
def Session.write (text : Session) (buffer : List UInt8) : Option Session :=
  buffer.foldlM (Session.putchar 4) text

/-- A row of the view without the blanks at its end. -/
def Session.trimmed (text : Session) (row : Nat) : List UInt8 :=
  (((List.range terminalColumns).map (text.visible row)).reverse.dropWhile (· == 0x20)).reverse

/-- Texts are drawn one after the other, until one fails. -/
def drawAll : List (Bool × List Edit) → Bool × List Edit
  | [] => (true, [])
  | (false, edits) :: _ => (false, edits)
  | (true, edits) :: texts => ((drawAll texts).1, edits ++ (drawAll texts).2)

/-- The background of a terminal. -/
def terminalFrame (bounds : Rect) : List Edit :=
  fillRect bounds bounds (.rgb 248 250 253) ++
    fillRect bounds ⟨0, 0, bounds.width, 34⟩ (.rgb 232 236 242) ++
    fillRect bounds ⟨0, 34 - 1, bounds.width, 1⟩ (.rgb 202 208 218)

/-- "Terminal". -/
def titleText : List UInt8 := [0x54, 0x65, 0x72, 0x6D, 0x69, 0x6E, 0x61, 0x6C]

def terminalTitle (font : Font) : Bool × List Edit :=
  drawText font 14 8 15 titleText (.rgb 25 30 38)

/-- A row as a string, which ends before its first NUL. -/
def Session.rowText (text : Session) (row : Nat) : List UInt8 :=
  (text.trimmed row).takeWhile (· != 0)

/-- The rows of the view that have text. -/
def terminalView (font : Font) (text : Session) : Bool × List Edit :=
  drawAll <| (List.range text.visibleCount).filterMap fun (row : Nat) =>
    if text.trimmed row = [] then none
    else some (drawText font 14 (34 + 10 + row * 16) 15 (text.rowText row) (.rgb 26 31 39))

/-- `gui_terminal_render`, with a font and a surface. -/
def terminalRender (font : Font) (surface : Surface) (text : Session) :
    Bool × Surface × Session :=
  let surface := surface.draw (terminalFrame surface.rect ++ (terminalTitle font).2)
  if !(terminalTitle font).1 then (false, surface, text)
  else
    let text := text.clampScrollOffset
    ((terminalView font text).1, surface.draw (terminalView font text).2, text)

/-! ## The scene -/

/-- The windows, the terminals and what is on the screen. -/
structure Scene (W : Type) where
  registry : Registry W
  sessions : Fin 4 → TerminalSession W
  desktop : Desktop
  shell : Shell
  compositor : Compositor
  screen : Screen

namespace Scene

variable {W : Type} [DecidableEq W]

section

variable (s : Scene W)

/-- The normal windows, from the bottom to the top. -/
def normal : List Window := s.registry.normalWindows.map s.registry.windows

/-- `gui_compositor_present`. -/
def present (fb : Framebuffer) (c : Compositor) : Scene W :=
  { s with compositor := (c.present fb s.screen).1, screen := (c.present fb s.screen).2 }

/-- `gui_desktop_render`. -/
def desktopRender (fb : Framebuffer) : Option (Scene W) :=
  if !s.desktop.initialized || !s.compositor.initialized then some s
  else do
    let c := s.compositor.draw (s.desktop.background s.compositor.screenRect)
    let c ← c.compositeAll s.normal
    let c ← c.compositeAll s.shell.topbar
    let c ← c.compositeAll s.shell.taskbar
    return s.present fb c.damageAll

def setText (session : Fin 4) (text : Session) : Scene W :=
  { s with sessions := Function.update s.sessions session { s.sessions session with text } }

/-- Write to the surface of a window. -/
def setSurface (window : W) (surface : Surface) : Scene W :=
  let v := { s.registry.windows window with surface := some surface }
  { s with registry := s.registry.put window v }

/-- The state behind `gui_terminal_render`. -/
def rendered (session : Fin 4) (r : Bool × Surface × Session) : Scene W :=
  (s.setSurface (s.sessions session).window r.2.1).setText session r.2.2

/-- `gui_terminal_present`; `font` is `gui_font_default`. -/
def terminalPresent (fb : Framebuffer) (session : Fin 4) (font : Option Font) :
    Option (Scene W) :=
  let window := (s.sessions session).window
  if !(s.sessions session).used then some s
  else
    match (s.registry.windows window).surface, font with
    | some surface, some font =>
      let r := terminalRender font surface (s.sessions session).text
      let s := s.rendered session r
      if !r.1 then some s
      else do
        let c ← s.compositor.composite (s.registry.windows window)
        return s.present fb c
    | _, _ => some s

/-- `gui_terminal_session_write`. -/
def sessionWrite (fb : Framebuffer) (session : Fin 4) (buffer : List UInt8)
    (font : Option Font) : Option (Scene W) :=
  if buffer = [] then some s
  else do
    let text ← (s.sessions session).text.write buffer
    (s.setText session text).terminalPresent fb session font

/-- The terminal whose window is active. -/
def activeSession : Option (Fin 4) := do
  let active ← s.registry.activeNormalWindow
  (List.finRange 4).find? fun i => (s.sessions i).used && (s.sessions i).window == active

end

/-- The keys that move the view of a terminal. -/
inductive ViewKey
  | pageUp
  | pageDown
  /-- A character for the shell. -/
  | character

/-- What they do to it. -/
def ViewKey.scroll : ViewKey → Session → Session
  | .pageUp, text => text.scrollViewUp terminalPageScroll
  | .pageDown, text => text.scrollViewDown terminalPageScroll
  | .character, text => { text with scrollOffset := 0 }

/-- `gui_terminal_session_handle_keyboard`, for these keys. -/
def handleKeyboard (s : Scene W) (fb : Framebuffer) (key : ViewKey) (font : Option Font) :
    Option (Scene W) :=
  match s.activeSession with
  | none => some s
  | some session =>
    let text := (s.sessions session).text
    let scrolled := s.setText session (key.scroll text)
    if (key.scroll text).scrollOffset ≠ text.scrollOffset then
      scrolled.terminalPresent fb session font
    else some scrolled

/-- `gui_desktop_render` when the focus has changed. -/
def refocus (s : Scene W) (fb : Framebuffer) (r : Bool × Registry W) : Option (Scene W) :=
  if r.1 then { s with registry := r.2 }.desktopRender fb else some { s with registry := r.2 }

inductive Op (W : Type)
  | write (session : Fin 4) (buffer : List UInt8) (font : Option Font)
  | key (key : ViewKey) (font : Option Font)
  /-- Alt and tab. -/
  | focusNext
  /-- Alt, shift and tab. -/
  | focusPrevious
  /-- The left button, where neither bar takes it. -/
  | press (x y : Int)
  /-- The window of a new terminal. -/
  | launch (window : W)

def step (fb : Framebuffer) (s : Scene W) : Op W → Option (Scene W)
  | .write session buffer font => s.sessionWrite fb session buffer font
  | .key key font => s.handleKeyboard fb key font
  | .focusNext => s.refocus fb s.registry.focusNext
  | .focusPrevious => s.refocus fb s.registry.focusPrevious
  | .press x y => s.refocus fb (s.registry.focusAtPoint x y)
  | .launch window => { s with registry := (s.registry.focus window).2 }.desktopRender fb

end Scene

end MeatySkeleton.Gui
