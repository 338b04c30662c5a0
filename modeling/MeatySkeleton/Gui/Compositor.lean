import MeatySkeleton.Device.Screen
import MeatySkeleton.Gui.Surface

/-!
# The compositor

`compositor.c`: a surface of the size of the screen, the rectangles in which it has to be
shown again, and how they are transferred to the framebuffer. The picture is the one under the
software cursor, which hides while pixels are transferred.
-/

namespace MeatySkeleton.Gui

open Device

/-- `GUI_COMPOSITOR_MAX_DAMAGE_RECTS`. -/
def maxDamageRects : Nat := 32

/-- `gui_compositor_state_t`. -/
structure Compositor where
  initialized : Bool
  backbuffer : Surface
  damage : List Rect
  fullDamage : Bool

namespace Compositor

/-- Before `gui_compositor_initialize`. -/
def zero : Compositor := ⟨false, ⟨0, 0, fun _ _ => 0⟩, [], false⟩

/-- `gui_compositor_initialize`. -/
def initializeFor (fb : Framebuffer) (allocated : Bool) (c : Compositor) : Bool × Compositor :=
  if !fb.available || fb.bpp != 32 || fb.width == 0 || fb.height == 0 then (false, c)
  else if c.initialized then
    (c.backbuffer.width == fb.width && c.backbuffer.height == fb.height, c)
  else
    match Surface.create fb.width fb.height allocated with
    | none => (false, c)
    | some surface => (true, ⟨true, { surface with pixels := fun _ _ => 0xFF000000 }, [], false⟩)

/-- `gui_compositor_screen_rect`. -/
def screenRect (c : Compositor) : Rect := c.backbuffer.rect

/-! ## Damage -/

/-- `gui_compositor_damage_all`. -/
def damageAll (c : Compositor) : Compositor :=
  if !c.initialized then c else { c with fullDamage := true, damage := [] }

/-- The `for` loop of `gui_compositor_damage`: the first rectangle to merge with, and the two
combined. -/
def firstMerge (clipped : Rect) (damage : List Rect) : Option (Nat × Rect) :=
  (List.range damage.length).findSome? fun index => do
    let r ← damage[index]?
    if !clipped.touchOrOverlap r then none
    else
      let combined ← clipped.union r
      return (index, combined)

/-- The last rectangle takes the place of this one. -/
def swapRemove (damage : List Rect) (index : Nat) : List Rect :=
  match damage.getLast? with
  | none => []
  | some last => (damage.set index last).dropLast

/-- The `do` loop of `gui_compositor_damage`; `none` when the passes do not suffice. -/
def mergeLoop : (passes : Nat) → (clipped : Rect) → (damage : List Rect) → Option (Rect × List Rect)
  | 0, _, _ => none
  | passes + 1, clipped, damage =>
    match firstMerge clipped damage with
    | none => some (clipped, damage)
    | some (index, combined) => mergeLoop passes combined (swapRemove damage index)

/-- `gui_compositor_damage`. -/
def addDamage (c : Compositor) (rect : Rect) : Option Compositor :=
  if !c.initialized || c.fullDamage then some c
  else
    match rect.intersect c.screenRect with
    | none => some c
    | some clipped => do
      let (clipped, damage) ← mergeLoop (c.damage.length + 1) clipped c.damage
      if maxDamageRects ≤ damage.length then
        return { c with fullDamage := true, damage := [] }
      else
        return { c with damage := damage ++ [clipped] }

/-! ## Presentation -/

/-- The transfer of one rectangle. -/
def blit (c : Compositor) (fb : Framebuffer) (r : Rect) : List PixelWrite :=
  let x := Rect.toU32 r.x
  let y := Rect.toU32 r.y
  let source := y * c.backbuffer.pitch + x * 4
  fb.blitRgb32 x y r.width r.height (some fun offset => c.backbuffer.word (source + offset))
    c.backbuffer.pitch

/-- What `gui_compositor_present` transfers. -/
def transfers (c : Compositor) (fb : Framebuffer) : List PixelWrite :=
  if c.fullDamage then
    fb.blitRgb32 0 0 c.screenRect.width c.screenRect.height (some c.backbuffer.word)
      c.backbuffer.pitch
  else c.damage.flatMap (c.blit fb)

/-- `gui_compositor_present`. -/
def present (c : Compositor) (fb : Framebuffer) (screen : Screen) : Compositor × Screen :=
  if !c.initialized then (c, screen)
  else ({ c with fullDamage := false, damage := [] }, screen.paint (c.transfers fb))

end Compositor

end MeatySkeleton.Gui
