import MeatySkeleton.Gui.Surface
import Mathlib.Logic.Function.Basic

/-!
# Windows

`window.c`: windows, of which the normal ones are kept in a registry from the bottom of their
stack to its top, and one of them is active. The windows are known by their addresses, of type
`W`.
-/

namespace MeatySkeleton.Gui

/-- `gui_z_class_t`. -/
inductive ZClass
  | desktop
  | normal
  | topmost
  | taskbar
  | popup
  | overlay
  | cursor
  deriving DecidableEq

/-- `gui_window_t`; the surface is `none` while it has no pixels. -/
structure Window where
  x : Int
  y : Int
  zClass : ZClass
  visible : Bool
  surface : Option Surface

namespace Window

/-- A window after `memset`. -/
def zero : Window := ⟨0, 0, .desktop, false, none⟩

/-- `gui_window_bounds`. -/
def bounds (window : Window) : Rect :=
  match window.surface with
  | none => ⟨window.x, window.y, 0, 0⟩
  | some surface => ⟨window.x, window.y, surface.width, surface.height⟩

/-- `gui_window_point_inside`. -/
def pointInside (window : Window) (x y : Int) : Bool :=
  window.visible && decide (window.bounds.Has x y)

end Window

/-- `GUI_NORMAL_WINDOW_CAPACITY`. -/
def normalWindowCapacity : Nat := 64

/-- The windows, `normal_windows` up to `normal_window_count`, and `active_normal_window`. -/
structure Registry (W : Type) where
  windows : W → Window
  normalWindows : List W
  activeNormalWindow : Option W

namespace Registry

variable {W : Type} [DecidableEq W]

/-- Before the first call. -/
def start : Registry W := ⟨fun _ => .zero, [], none⟩

section

variable (s : Registry W)

/-- Write to a window. -/
def put (window : W) (v : Window) : Registry W :=
  { s with windows := Function.update s.windows window v }

/-! ## The registry -/

/-- `gui_window_registry_add`. -/
def registryAdd (window : W) : Bool × Registry W :=
  if (s.windows window).zClass ≠ .normal then (true, s)
  else if normalWindowCapacity ≤ s.normalWindows.length then (false, s)
  else
    (true, { s with
      normalWindows := s.normalWindows ++ [window], activeNormalWindow := some window })

/-- The loop that looks for the next active window, from the top. -/
def elect : Option W := s.normalWindows.reverse.find? fun w => (s.windows w).visible

/-- What `gui_window_registry_remove` and `gui_window_set_visible` do about an active window. -/
def resign (window : W) : Registry W :=
  if s.activeNormalWindow = some window then { s with activeNormalWindow := s.elect } else s

/-- `gui_window_registry_remove`. -/
def registryRemove (window : W) : Registry W :=
  if window ∈ s.normalWindows then
    resign { s with normalWindows := s.normalWindows.erase window } window
  else s

/-- `gui_window_focus_index_locked`. -/
def focusIndexLocked (index : Nat) : Bool × Registry W :=
  match s.normalWindows[index]? with
  | none => (false, s)
  | some window =>
    if !(s.windows window).visible then (false, s)
    else if s.activeNormalWindow = some window ∧ index + 1 = s.normalWindows.length then (false, s)
    else
      (true, { s with
        normalWindows := s.normalWindows.eraseIdx index ++ [window]
        activeNormalWindow := some window })

/-! ## Lifecycle -/

/-- `gui_window_create`. -/
def create (window : W) (x y : Int) (width height : Nat) (zClass : ZClass)
    (allocated : Bool) : Bool × Registry W :=
  if width = 0 ∨ height = 0 then (false, s)
  else
    match Surface.create width height allocated with
    | none => (false, s.put window .zero)
    | some surface =>
      let (added, s) := registryAdd (s.put window ⟨x, y, zClass, true, some surface⟩) window
      if added then (true, s) else (false, s.put window .zero)

/-- `gui_window_destroy`. -/
def destroy (window : W) : Registry W := (s.registryRemove window).put window .zero

/-- `gui_window_set_visible`. -/
def setVisible (window : W) (visible : Bool) : Registry W :=
  let s := s.put window { s.windows window with visible }
  if visible || (s.windows window).zClass ≠ .normal then s else s.resign window

/-! ## Focus -/

/-- `gui_window_focus`. -/
def focus (window : W) : Bool × Registry W :=
  if (s.windows window).zClass ≠ .normal ∨ !(s.windows window).visible then (false, s)
  else s.focusIndexLocked (s.normalWindows.idxOf window)

/-- The first of these positions whose window meets `p`. -/
def firstIndex (p : W → Bool) (positions : List Nat) : Option Nat :=
  positions.find? fun i => s.normalWindows[i]?.any p

/-- `gui_window_focus_at_point`. -/
def focusAtPoint (x y : Int) : Bool × Registry W :=
  let count := s.normalWindows.length
  let found := s.firstIndex (fun w => (s.windows w).pointInside x y) (List.range count).reverse
  s.focusIndexLocked (found.getD count)

/-- The position of the active window, the number of windows if there is none. -/
def activeIndex : Nat :=
  match s.activeNormalWindow with
  | none => s.normalWindows.length
  | some window => s.normalWindows.idxOf window

/-- The search of `gui_window_focus_next` and `gui_window_focus_previous`: the position looked
at in each step, from the first step on. -/
def focusCandidate (candidate : Nat → Nat) : Bool × Registry W :=
  if s.normalWindows.length < 2 then (false, s)
  else
    let positions := (List.range s.normalWindows.length).map fun i => candidate (i + 1)
    let found := s.firstIndex
      (fun w => (s.windows w).visible && s.activeNormalWindow != some w) positions
    s.focusIndexLocked (found.getD s.activeIndex)

/-- `gui_window_focus_next`. -/
def focusNext : Bool × Registry W :=
  let count := s.normalWindows.length
  s.focusCandidate fun i =>
    if s.activeIndex = count then i - 1 else (s.activeIndex + i) % count

/-- `gui_window_focus_previous`. -/
def focusPrevious : Bool × Registry W :=
  let count := s.normalWindows.length
  s.focusCandidate fun i =>
    if s.activeIndex = count then count - i else (s.activeIndex + count - i % count) % count

end

/-! ## Calls -/

inductive Op (W : Type)
  | create (window : W) (x y : Int) (width height : Nat) (zClass : ZClass) (allocated : Bool)
  | destroy (window : W)
  | setVisible (window : W) (visible : Bool)
  | focus (window : W)
  | focusAtPoint (x y : Int)
  | focusNext
  | focusPrevious

/-- One call. -/
def call (s : Registry W) : Op W → Registry W
  | .create window x y width height zClass allocated =>
    (s.create window x y width height zClass allocated).2
  | .destroy window => s.destroy window
  | .setVisible window visible => s.setVisible window visible
  | .focus window => (s.focus window).2
  | .focusAtPoint x y => (s.focusAtPoint x y).2
  | .focusNext => s.focusNext.2
  | .focusPrevious => s.focusPrevious.2

def step (s : Registry W) (op : Op W) : Option (Registry W) := some (s.call op)

end Registry

end MeatySkeleton.Gui
