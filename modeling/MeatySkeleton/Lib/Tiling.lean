import Mathlib.Algebra.Group.Nat.Defs

/-!
# Tilings

A range of places that is filled by entries of different lengths, each behind the one
before (`Tiles`). What stands at a place is a function `entry` of the place, so that one
tiling can be compared with another after a change of what is stored.
-/

namespace MeatySkeleton.Lib

variable {ε : Type}

/-- From `place` on the entries of `l` follow each other, up to `stop`. -/
inductive Tiles (entry : Nat → ε) (length : ε → Nat) (stop : Nat) : Nat → List ε → Prop
  | nil : Tiles entry length stop stop []
  | cons {place : Nat} {l : List ε} (hle : place + length (entry place) ≤ stop)
      (hrest : Tiles entry length stop (place + length (entry place)) l) :
      Tiles entry length stop place (entry place :: l)

namespace Tiles

variable {entry entry' : Nat → ε} {length : ε → Nat} {stop place : Nat} {e : ε} {l : List ε}

/-- An entry that is known. -/
theorem cons_of_eq (he : entry place = e) (hle : place + length e ≤ stop)
    (hrest : Tiles entry length stop (place + length e) l) :
    Tiles entry length stop place (e :: l) := by
  subst he
  exact .cons hle hrest

/-- A tiling depends on what stands at its own places only. -/
theorem congr {P : ε → Prop} (h : Tiles entry length stop place l) (hP : ∀ e ∈ l, P e)
    (heq : ∀ p, place ≤ p → p + length (entry p) ≤ stop → P (entry p) → entry' p = entry p) :
    Tiles entry' length stop place l := by
  induction h with
  | nil => exact .nil
  | @cons place l hle hrest ih =>
    have hsame := heq place (Nat.le_refl _) hle (hP _ List.mem_cons_self)
    refine cons_of_eq hsame hle (ih (fun e he => hP e (List.mem_cons_of_mem _ he)) ?_)
    exact fun p hp => heq p (Nat.le_trans (Nat.le_add_right _ _) hp)

/-- Before its end a tiling has a first entry. -/
theorem exists_cons (h : Tiles entry length stop place l) (hlt : place < stop) :
    ∃ l', l = entry place :: l' ∧ place + length (entry place) ≤ stop ∧
      Tiles entry length stop (place + length (entry place)) l' := by
  cases h with
  | nil => exact absurd hlt (Nat.lt_irrefl _)
  | cons hle hrest => exact ⟨_, rfl, hle, hrest⟩

end Tiles

end MeatySkeleton.Lib
