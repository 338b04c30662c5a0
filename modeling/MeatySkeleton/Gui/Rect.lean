import Mathlib.Algebra.Group.Int.Defs
import Mathlib.Algebra.Group.Nat.Defs

/-!
# Rectangles of pixels

`gui_rect_t`: a position of type `int32_t` and a size of type `uint32_t`, kept as integers.
The edges are computed in 64 bits, so only the sizes of a union can be too large for their
type. A rectangle stands for the pixels it has (`Rect.Has`).
-/

namespace MeatySkeleton.Gui

/-- `gui_rect_t`. -/
structure Rect where
  x : Int
  y : Int
  width : Nat
  height : Nat
  deriving DecidableEq

namespace Rect

/-- `gui_rect_is_empty`. -/
def isEmpty (r : Rect) : Bool := r.width == 0 || r.height == 0

def right (r : Rect) : Int := r.x + r.width

def bottom (r : Rect) : Int := r.y + r.height

/-- Conversion to `uint32_t`. -/
def toU32 (n : Int) : Nat := (n % 2 ^ 32).toNat

/-- `gui_rect_intersect`. -/
def intersect (first second : Rect) : Option Rect :=
  if first.isEmpty || second.isEmpty then none
  else
    let left := max first.x second.x
    let top := max first.y second.y
    let right := min first.right second.right
    let bottom := min first.bottom second.bottom
    if right ≤ left ∨ bottom ≤ top then none
    else some ⟨left, top, (right - left).toNat, (bottom - top).toNat⟩

/-- `gui_rect_union`; `none` is the result false. -/
def union (first second : Rect) : Option Rect :=
  if first.isEmpty then (if second.isEmpty then none else some second)
  else if second.isEmpty then some first
  else
    let left := min first.x second.x
    let top := min first.y second.y
    let right := max first.right second.right
    let bottom := max first.bottom second.bottom
    if right ≤ left ∨ bottom ≤ top then none
    else some ⟨left, top, toU32 (right - left), toU32 (bottom - top)⟩

/-- `gui_rects_touch_or_overlap`. -/
def touchOrOverlap (first second : Rect) : Bool :=
  !first.isEmpty && !second.isEmpty &&
  (first.x ≤ second.right && second.x ≤ first.right &&
    first.y ≤ second.bottom && second.y ≤ first.bottom)

/-- The pixel at these coordinates is one of the rectangle's. -/
def Has (r : Rect) (px py : Int) : Prop := r.x ≤ px ∧ px < r.right ∧ r.y ≤ py ∧ py < r.bottom

instance (r : Rect) (px py : Int) : Decidable (r.Has px py) :=
  inferInstanceAs (Decidable (_ ∧ _ ∧ _ ∧ _))

/-- All pixels of `r` are pixels of `s`. -/
def Inside (r s : Rect) : Prop := s.x ≤ r.x ∧ r.right ≤ s.right ∧ s.y ≤ r.y ∧ r.bottom ≤ s.bottom

variable {r s t : Rect} {px py : Int}

theorem Inside.refl (r : Rect) : r.Inside r :=
  ⟨Int.le_refl _, Int.le_refl _, Int.le_refl _, Int.le_refl _⟩

theorem Inside.trans (h : r.Inside s) (h' : s.Inside t) : r.Inside t := by
  unfold Inside at *
  omega

theorem Inside.has (h : r.Inside s) (hp : r.Has px py) : s.Has px py := by
  unfold Inside at h
  unfold Has at *
  omega

theorem isEmpty_iff : r.isEmpty = true ↔ r.width = 0 ∨ r.height = 0 := by
  unfold isEmpty
  rw [Bool.or_eq_true, beq_iff_eq, beq_iff_eq]

theorem not_has_of_isEmpty (h : r.isEmpty = true) : ¬r.Has px py := by
  rw [isEmpty_iff] at h
  unfold Has right bottom
  omega

/-- The edges of an intersection. -/
structure IsIntersection (r s t : Rect) : Prop where
  x : t.x = max r.x s.x
  y : t.y = max r.y s.y
  right : t.right = min r.right s.right
  bottom : t.bottom = min r.bottom s.bottom
  width : 0 < t.width
  height : 0 < t.height

theorem intersect_some (h : intersect r s = some t) : IsIntersection r s t := by
  unfold intersect at h
  split at h
  next => exact nomatch h
  next =>
    dsimp only at h
    split at h
    next => exact nomatch h
    next hsize =>
      obtain rfl := Option.some.inj h
      constructor
      · rfl
      · rfl
      · show max r.x s.x + ((min r.right s.right - max r.x s.x).toNat : Int) = _
        omega
      · show max r.y s.y + ((min r.bottom s.bottom - max r.y s.y).toNat : Int) = _
        omega
      · show 0 < (min r.right s.right - max r.x s.x).toNat
        omega
      · show 0 < (min r.bottom s.bottom - max r.y s.y).toNat
        omega

/-- The pixels of an intersection are the common ones. -/
theorem intersect_has (h : intersect r s = some t) : t.Has px py ↔ r.Has px py ∧ s.Has px py := by
  obtain ⟨hx, hy, hright, hbottom, -, -⟩ := intersect_some h
  unfold Has
  omega

theorem intersect_none (h : intersect r s = none) : ¬(r.Has px py ∧ s.Has px py) := by
  intro ⟨hr, hs⟩
  unfold intersect at h
  split at h
  next hempty =>
    rw [Bool.or_eq_true] at hempty
    obtain hempty | hempty := hempty
    · exact not_has_of_isEmpty hempty hr
    · exact not_has_of_isEmpty hempty hs
  next =>
    dsimp only at h
    split at h
    next hsize =>
      unfold Has at hr hs
      omega
    next => exact nomatch h

theorem intersect_inside_right (h : intersect r s = some t) : t.Inside s := by
  obtain ⟨hx, hy, hright, hbottom, -, -⟩ := intersect_some h
  unfold Inside
  omega

end Rect

end MeatySkeleton.Gui
