import MeatySkeleton.Device.Screen

/-!
# The software mouse cursor

`mouse_cursor.c`: the cursor is drawn over the picture and keeps the words of the pixels under
it, which it puts back before it moves and while the framebuffer is being updated. The geometry
of the framebuffer does not change here, so the raw pixels it reads and writes are the pixels of
the picture. Each function runs under the lock of the cursor.
-/

namespace MeatySkeleton.Device

/-- `MOUSE_CURSOR_WIDTH`. -/
def mouseCursorWidth : Nat := 12
/-- `MOUSE_CURSOR_HEIGHT`. -/
def mouseCursorHeight : Nat := 18

/-- `mouse_cursor_shape`. -/
def mouseCursorShape : List String := [ "B...........", "BB..........", "BWB.........",
  "BWWB........",
  "BWWWB.......",
  "BWWWWB......",
  "BWWWWWB.....",
  "BWWWWWWB....",
  "BWWWWWWWB...",
  "BWWWWBBBB...",
  "BWWBWB......",
  "BWB.BWB.....",
  "BB..BWB.....",
  "B....BWB....",
  ".....BWB....",
  ".....BWB....",
  ".....BB.....",
  "............"]

/-- The variables of `mouse_cursor.c`. The number of updates in progress counts calls that have
not ended, so it does not reach the bound of its type. -/
structure MouseCursor where
  initialized : Bool
  visible : Bool
  framebufferUpdates : Nat
  x : Nat
  y : Nat
  /-- By row and column. -/
  backing : Nat → Nat → UInt32
  backingWidth : Nat
  backingHeight : Nat
  backingX : Nat
  backingY : Nat
  backingPitch : Nat
  backingBase : Option Nat

/-- The variables at boot. -/
def MouseCursor.zero : MouseCursor := ⟨false, false, 0, 0, 0, fun _ _ => 0, 0, 0, 0, 0, 0, none⟩

/-- A cursor on a framebuffer. -/
structure Overlay where
  fb : Framebuffer
  cursor : MouseCursor
  screen : Screen

namespace Overlay

section

variable (o : Overlay)

/-- `mouse_cursor_framebuffer_base`. -/
def framebufferBase : Nat :=
  framebufferVirtualBase + o.fb.physicalAddress % framebufferPageSize

/-- `mouse_cursor_restore_locked`. -/
def restore : Overlay :=
  if !o.cursor.visible then o
  else if o.cursor.backingBase.isNone then { o with cursor := { o.cursor with visible := false } }
  else
    { o with
      screen := o.screen.paint (Framebuffer.block o.cursor.backingX o.cursor.backingY
        o.cursor.backingWidth o.cursor.backingHeight o.cursor.backing)
      cursor := { o.cursor with visible := false } }

/-- `mouse_cursor_capture_locked`. -/
def capture : Overlay :=
  let cursor := { o.cursor with backingWidth := 0, backingHeight := 0, backingBase := none }
  if !o.fb.available || o.fb.bpp != 32 || o.fb.width == 0 || o.fb.height == 0 then { o with cursor }
  else if o.fb.width ≤ cursor.x ∨ o.fb.height ≤ cursor.y then { o with cursor }
  else
    { o with cursor := { cursor with
      backingWidth := min (o.fb.width - cursor.x) mouseCursorWidth
      backingHeight := min (o.fb.height - cursor.y) mouseCursorHeight
      backingX := cursor.x
      backingY := cursor.y
      backingPitch := o.fb.pitch
      backingBase := some o.framebufferBase
      backing := fun row column => o.screen (cursor.x + column) (cursor.y + row) } }

/-- The writes of `mouse_cursor_draw_locked`. -/
def shapeWrites : List PixelWrite :=
  (List.range o.cursor.backingHeight).flatMap fun row =>
    (List.range o.cursor.backingWidth).flatMap fun column =>
      let pixel := ((mouseCursorShape.getD row "").toList).getD column '.'
      if pixel = '.' then []
      else
        let color := if pixel = 'W' then 0xFFFFFF else 0x000000
        o.fb.putPixel (o.cursor.x + column) (o.cursor.y + row) color

/-- `mouse_cursor_draw_locked`. -/
def draw : Overlay :=
  if !o.cursor.initialized then o
  else if o.cursor.framebufferUpdates ≠ 0 then o
  else if !o.fb.available then o
  else if o.fb.bpp ≠ 32 then o
  else
    let o := o.capture
    if o.cursor.backingBase.isNone then o
    else { o with screen := o.screen.paint o.shapeWrites, cursor := { o.cursor with visible := true } }

/-- `mouse_cursor_apply_movement_locked`. -/
def applyMovement (dx dy : Int) : Overlay :=
  let width := o.fb.width
  let height := o.fb.height
  if width = 0 ∨ height = 0 then o
  else
    let o := o.restore
    let newX := min (max (o.cursor.x + dx) 0) (width - 1)
    let newY := min (max (o.cursor.y + dy) 0) (height - 1)
    let o := { o with cursor := { o.cursor with x := newX.toNat, y := newY.toNat } }
    if o.cursor.framebufferUpdates = 0 then o.draw else o

/-- `mouse_cursor_initialize`. -/
def initializeCursor (mouseInitialized : Bool) : Bool × Overlay :=
  if o.cursor.initialized then (true, o)
  else if !mouseInitialized || !o.fb.available || o.fb.bpp != 32 then (false, o)
  else if o.fb.width = 0 ∨ o.fb.height = 0 then (false, o)
  else
    (true, draw { o with cursor := { o.cursor with
      x := o.fb.width / 2
      y := o.fb.height / 2
      backingWidth := 0
      backingHeight := 0
      backingBase := none
      visible := false
      framebufferUpdates := 0
      initialized := true } })

/-- `mouse_cursor_begin_framebuffer_update`. -/
def beginFramebufferUpdate : Overlay :=
  let o := { o with cursor := { o.cursor with
    framebufferUpdates := o.cursor.framebufferUpdates + 1 } }
  if o.cursor.visible then o.restore else o

/-- `mouse_cursor_end_framebuffer_update`. -/
def endFramebufferUpdate : Overlay :=
  let o :=
    if o.cursor.framebufferUpdates ≠ 0 then
      { o with cursor := { o.cursor with
        framebufferUpdates := o.cursor.framebufferUpdates - 1 } }
    else o
  if o.cursor.initialized && o.cursor.framebufferUpdates == 0 && !o.cursor.visible then o.draw
  else o

end

end Overlay

end MeatySkeleton.Device
