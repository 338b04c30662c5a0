import MeatySkeleton.Gui.Rect
import Mathlib.Logic.Function.Basic

/-!
# Widgets

`widget.c`: widgets that hold the links of their tree in themselves. There are `n` of them,
each initialised once; `σ` is what a render callback draws on. A walk along the links is
given the number of steps it may take, and is `none` when they do not suffice.
-/

namespace MeatySkeleton.Gui

/-- `gui_widget_render_fn`: bounds and clip, and whether it succeeded. -/
abbrev Render (σ : Type) := Rect → Rect → σ → Bool × σ

/-- `gui_widget_t`; a widget without a callback has no operations, or none that renders. -/
structure Widget (n : Nat) (σ : Type) where
  bounds : Rect
  visible : Bool
  enabled : Bool
  parent : Option (Fin n)
  firstChild : Option (Fin n)
  lastChild : Option (Fin n)
  previousSibling : Option (Fin n)
  nextSibling : Option (Fin n)
  render : Option (Render σ)

variable {n : Nat} {σ : Type}

/-- A widget after `memset`. -/
def Widget.zero : Widget n σ := ⟨⟨0, 0, 0, 0⟩, false, false, none, none, none, none, none, none⟩

/-- `gui_widget_initialize`. -/
def Widget.initialize (bounds : Rect) (render : Option (Render σ)) : Widget n σ :=
  { (Widget.zero : Widget n σ) with bounds, visible := true, enabled := true, render }

/-- The widgets of a program. -/
abbrev Widgets (n : Nat) (σ : Type) := Fin n → Widget n σ

namespace Widgets

/-- Write to a widget. -/
def edit (w : Widgets n σ) (x : Fin n) (f : Widget n σ → Widget n σ) : Widgets n σ :=
  Function.update w x (f (w x))

/-! ## The tree -/

/-- The loop of `gui_widget_is_ancestor`. -/
def isAncestorFrom (w : Widgets n σ) (possibleAncestor : Fin n) : Nat → Option (Fin n) → Option Bool
  | _, none => some false
  | 0, some _ => none
  | fuel + 1, some current =>
    if current = possibleAncestor then some true
    else isAncestorFrom w possibleAncestor fuel (w current).parent

section

variable (w : Widgets n σ)

/-- `gui_widget_is_ancestor`. -/
def isAncestor (possibleAncestor widget : Fin n) : Option Bool :=
  isAncestorFrom w possibleAncestor n (w widget).parent

/-- `gui_widget_detach`. -/
def detach (widget : Fin n) : Widgets n σ :=
  match (w widget).parent with
  | none => w
  | some parent =>
    let w :=
      match (w widget).previousSibling with
      | some previous => w.edit previous fun p => { p with nextSibling := (w widget).nextSibling }
      | none => w.edit parent fun p => { p with firstChild := (w widget).nextSibling }
    let w :=
      match (w widget).nextSibling with
      | some next => w.edit next fun x => { x with previousSibling := (w widget).previousSibling }
      | none => w.edit parent fun p => { p with lastChild := (w widget).previousSibling }
    w.edit widget fun x => { x with parent := none, previousSibling := none, nextSibling := none }

/-- The part of `gui_widget_add_child` behind its checks. -/
def append (parent child : Fin n) : Widgets n σ :=
  let w := w.detach child
  let last := (w parent).lastChild
  let w := w.edit child fun c =>
    { c with parent := some parent, previousSibling := last, nextSibling := none }
  let w :=
    match (w parent).lastChild with
    | some last => w.edit last fun l => { l with nextSibling := some child }
    | none => w.edit parent fun p => { p with firstChild := some child }
  w.edit parent fun p => { p with lastChild := some child }

/-- `gui_widget_add_child`. -/
def addChild (parent child : Fin n) : Option (Bool × Widgets n σ) :=
  if parent = child then some (false, w)
  else do
    let cycle ← w.isAncestor child parent
    if cycle then return (false, w)
    else if (w child).parent = some parent then return (true, w)
    else return (true, w.append parent child)

/-- `gui_widget_remove_child`. -/
def removeChild (parent child : Fin n) : Widgets n σ :=
  if (w child).parent ≠ some parent then w else w.detach child

end

/-- The loop over the children in `gui_widget_reset`. -/
def releaseFrom : Nat → Option (Fin n) → Widgets n σ → Option (Widgets n σ)
  | _, none, w => some w
  | 0, some _, _ => none
  | fuel + 1, some child, w =>
    releaseFrom fuel (w child).nextSibling
      (w.edit child fun c => { c with parent := none, previousSibling := none, nextSibling := none })

/-- `gui_widget_reset`. -/
def reset (w : Widgets n σ) (widget : Fin n) : Option (Widgets n σ) := do
  let w := w.detach widget
  let w ← releaseFrom n (w widget).firstChild w
  return w.edit widget fun _ => .zero

inductive Op (n : Nat) where
  | addChild (parent child : Fin n)
  | removeChild (parent child : Fin n)
  | detach (widget : Fin n)
  | reset (widget : Fin n)

/-- A call, and the result of `gui_widget_add_child`; none where a walk does not end. -/
def step (w : Widgets n σ) : Op n → Option (Bool × Widgets n σ)
  | .addChild parent child => w.addChild parent child
  | .removeChild parent child => some (true, w.removeChild parent child)
  | .detach widget => some (true, w.detach widget)
  | .reset widget => (w.reset widget).map fun w => (true, w)

/-! ## Coordinates -/

/-- The loop of `gui_widget_absolute_bounds`. -/
def absoluteFrom (w : Widgets n σ) : Nat → Option (Fin n) → Int × Int → Option (Int × Int)
  | _, none, position => some position
  | 0, some _, _ => none
  | fuel + 1, some parent, (x, y) =>
    absoluteFrom w fuel (w parent).parent (x + (w parent).bounds.x, y + (w parent).bounds.y)

/-- Clamped to the range of `int32_t`. -/
def clampI32 (v : Int) : Int :=
  if v < -(2 ^ 31) then -(2 ^ 31) else if 2 ^ 31 - 1 < v then 2 ^ 31 - 1 else v

/-- `gui_widget_absolute_bounds`. -/
def absoluteBounds (w : Widgets n σ) (widget : Fin n) : Option Rect := do
  let bounds := (w widget).bounds
  let (x, y) ← absoluteFrom w n (w widget).parent (bounds.x, bounds.y)
  return ⟨clampI32 x, clampI32 y, bounds.width, bounds.height⟩

/-- `gui_widget_point_in_rect`. -/
def pointInRect (r : Rect) (x y : Int) : Bool := !r.isEmpty && decide (r.Has x y)

/-! ## Hit testing -/

mutual

/-- `gui_widget_hit_test_internal`: the widget that is hit, if there is one. -/
def hitTestInternal (w : Widgets n σ) : Nat → Fin n → Rect → Int → Int → Option (Option (Fin n))
  | 0, _, _, _, _ => none
  | fuel + 1, widget, clip, x, y =>
    if ¬(w widget).visible ∨ ¬(w widget).enabled then some none
    else do
      let bounds ← w.absoluteBounds widget
      match clip.intersect bounds with
      | none => return none
      | some visible =>
        if ¬pointInRect visible x y then return none
        else
          let hit ← hitChildren w fuel (w widget).lastChild visible x y
          return some (hit.getD widget)

/-- Its loop over the children, the last one first. -/
def hitChildren (w : Widgets n σ) :
    Nat → Option (Fin n) → Rect → Int → Int → Option (Option (Fin n))
  | _, none, _, _, _ => some none
  | 0, some _, _, _, _ => none
  | fuel + 1, some child, visible, x, y => do
    match ← hitTestInternal w fuel child visible x y with
    | some hit => return some hit
    | none => hitChildren w fuel (w child).previousSibling visible x y

end

/-- `gui_widget_hit_test`. -/
def hitTest (w : Widgets n σ) (fuel : Nat) (root : Fin n) (x y : Int) : Option (Option (Fin n)) :=
  if ¬(w root).visible ∨ ¬(w root).enabled then some none
  else do
    let bounds ← w.absoluteBounds root
    hitTestInternal w fuel root bounds x y

/-! ## Rendering -/

mutual

/-- `gui_widget_render_internal`. -/
def renderInternal (w : Widgets n σ) : Nat → Fin n → Rect → σ → Option (Bool × σ)
  | 0, _, _, _ => none
  | fuel + 1, widget, parentClip, destination =>
    if ¬(w widget).visible then some (true, destination)
    else do
      let bounds ← w.absoluteBounds widget
      match parentClip.intersect bounds with
      | none => return (true, destination)
      | some clip =>
        match (w widget).render with
        | none => renderChildren w fuel (w widget).firstChild clip destination
        | some render =>
          match render bounds clip destination with
          | (false, destination) => return (false, destination)
          | (true, destination) => renderChildren w fuel (w widget).firstChild clip destination

/-- Its loop over the children, the first one first. -/
def renderChildren (w : Widgets n σ) : Nat → Option (Fin n) → Rect → σ → Option (Bool × σ)
  | _, none, _, destination => some (true, destination)
  | 0, some _, _, _ => none
  | fuel + 1, some child, clip, destination => do
    match ← renderInternal w fuel child clip destination with
    | (false, destination) => return (false, destination)
    | (true, destination) => renderChildren w fuel (w child).nextSibling clip destination

end

/-- `gui_widget_render_tree` on a surface of that size. -/
def renderTree (w : Widgets n σ) (fuel : Nat) (root : Fin n) (width height : Nat)
    (destination : σ) : Option (Bool × σ) :=
  let surfaceBounds : Rect := ⟨0, 0, width, height⟩
  if surfaceBounds.isEmpty then some (false, destination)
  else renderInternal w fuel root surfaceBounds destination

end Widgets

end MeatySkeleton.Gui
