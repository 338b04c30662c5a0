import Mathlib.Algebra.BigOperators.Group.List.Basic
import Mathlib.Algebra.GroupWithZero.Nat

/-!
# Tallies: the total weight of a bag of things

`tally w l` adds up the weight `w a` of every entry of `l`. With the entries a
bag of pending obligations and `w` the number of references each of them holds,
it is the number of outstanding references; an edit of the bag is then an
equation between two tallies, and a balance of several edits is linear
arithmetic.
-/

namespace MeatySkeleton.Lib

variable {α : Type}

def tally (w : α → Nat) (l : List α) : Nat := (l.map w).sum

/-- The weight of exactly one thing. -/
def one (a b : Nat) : Nat := if a = b then 1 else 0

@[simp] theorem one_self (a : Nat) : one a a = 1 := if_pos rfl

theorem one_ne {a b : Nat} (h : a ≠ b) : one a b = 0 := if_neg h

@[simp] theorem tally_nil (w : α → Nat) : tally w [] = 0 := rfl

@[simp] theorem tally_cons (w : α → Nat) (a : α) (l : List α) :
    tally w (a :: l) = w a + tally w l := by
  simp [tally]

@[simp] theorem tally_append (w : α → Nat) (l m : List α) :
    tally w (l ++ m) = tally w l + tally w m := by
  simp [tally]

variable {l : List α}

/-- Taking an entry out takes its weight out. -/
theorem tally_erase [DecidableEq α] (w : α → Nat) {a : α} (h : a ∈ l) :
    w a + tally w (l.erase a) = tally w l :=
  List.sum_map_erase w h

theorem le_tally (w : α → Nat) {a : α} (h : a ∈ l) : w a ≤ tally w l := by
  classical exact Nat.le.intro (tally_erase w h)

theorem tally_eq_zero {w : α → Nat} : tally w l = 0 ↔ ∀ a ∈ l, w a = 0 :=
  List.sum_eq_zero_iff_forall_eq_nat.trans List.forall_mem_map

theorem exists_of_tally_pos {w : α → Nat} (h : 0 < tally w l) : ∃ a ∈ l, 0 < w a := by
  obtain ⟨x, hx, hpos⟩ := List.sum_pos_iff_exists_pos_nat.mp h
  obtain ⟨a, ha, rfl⟩ := List.mem_map.mp hx
  exact ⟨a, ha, hpos⟩

theorem tally_congr {w w' : α → Nat} (h : ∀ a ∈ l, w a = w' a) :
    tally w l = tally w' l := by
  rw [tally, tally, List.map_congr_left h]

/-- Changing the weight of one entry of a duplicate-free list. -/
theorem tally_update [DecidableEq α] (w w' : α → Nat) {a : α} (hn : l.Nodup)
    (ha : a ∈ l) (h : ∀ b ∈ l, b ≠ a → w' b = w b) :
    tally w' l + w a = tally w l + w' a := by
  have hrest : tally w' (l.erase a) = tally w (l.erase a) := by
    apply tally_congr
    intro b hb
    have hmem := (List.Nodup.mem_erase_iff hn).mp hb
    exact h b hmem.2 hmem.1
  have h1 := tally_erase w ha
  have h2 := tally_erase w' ha
  omega

end MeatySkeleton.Lib
