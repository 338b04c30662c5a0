import MeatySkeleton.Lib.Tally

/-!
# Reference counts and their holders

`object i` is the object the `i`-th of `n` holders refers to, if any. The reference count
of an object is then the tally of `holder object a` over the holders: `takeUp` and `letGo`
are the two edits of a count, and the lemmas here are the matching edits of the tally. An
immortal object counts no references.
-/

namespace MeatySkeleton.Lib

open Function

variable {i : Nat}

theorem tally_range_succ (w w' : Nat → Nat) {n : Nat} (h : ∀ i, i ≠ n → w' i = w i) :
    tally w' (List.range (n + 1)) = tally w (List.range n) + w' n := by
  have hlt : tally w' (List.range n) = tally w (List.range n) :=
    tally_congr fun i hi => h i (Nat.ne_of_lt (List.mem_range.mp hi))
  rw [List.range_succ, tally_append, hlt, tally_cons, tally_nil, Nat.add_zero]

theorem tally_range_update (w w' : Nat → Nat) {n id : Nat} (hid : id < n)
    (h : ∀ i, i ≠ id → w' i = w i) :
    tally w' (List.range n) + w id = tally w (List.range n) + w' id :=
  tally_update w w' List.nodup_range (List.mem_range.mpr hid) fun i _ hi => h i hi

def holder (object : Nat → Option Nat) (a i : Nat) : Nat := if object i = some a then 1 else 0

theorem holder_update_self (object : Nat → Option Nat) (id a : Nat) (v : Option Nat) :
    holder (update object id v) a id = if v = some a then 1 else 0 := by
  rw [holder, update_self]

theorem holder_update_ne (object : Nat → Option Nat) (a : Nat) (v : Option Nat) {id : Nat} (h : i ≠ id) :
    holder (update object id v) a i = holder object a i := by
  rw [holder, update_of_ne h, holder]

/-- A task that lets go of what it held. -/
theorem tally_holder_none (object : Nat → Option Nat) {n id : Nat} (hid : id < n) (a : Nat) :
    tally (holder (update object id none) a) (List.range n) + holder object a id =
      tally (holder object a) (List.range n) := by
  have hupdate := tally_range_update _ _ hid fun i hi => holder_update_ne object a none hi
  rw [holder_update_self, if_neg nofun, Nat.add_zero] at hupdate
  exact hupdate

/-- The weight of a task whose object is known. -/
theorem tally_holder_pos {object : Nat → Option Nat} {n id a : Nat} (hid : id < n)
    (h : object id = some a) : 1 ≤ tally (holder object a) (List.range n) := by
  have hle := le_tally (holder object a) (List.mem_range.mpr hid)
  rw [holder, if_pos h] at hle
  exact hle

/-- One reference less for the object, if there is one and it counts references. -/
def letGo (immortal : Nat → Bool) (refs : Nat → Nat) : Option Nat → Nat → Nat
  | none => refs
  | some a => if immortal a then refs else update refs a (refs a - 1)

theorem letGo_apply {immortal : Nat → Bool} {refs : Nat → Nat} {a : Nat} (object : Option Nat)
    (h : immortal a = false) :
    letGo immortal refs object a = refs a - if object = some a then 1 else 0 := by
  cases object with
  | none => rfl
  | some b =>
    rw [letGo]
    by_cases hb : b = a
    · subst hb
      rw [h, if_neg Bool.false_ne_true, if_pos rfl, update_self]
    · rw [if_neg fun he => hb (Option.some.inj he)]
      split
      · rfl
      · exact update_of_ne (Ne.symm hb) ..

def takeUp (immortal : Nat → Bool) (refs : Nat → Nat) (a : Nat) : Nat → Nat :=
  if immortal a then refs else update refs a (refs a + 1)

theorem takeUp_apply {immortal : Nat → Bool} {refs : Nat → Nat} {a : Nat} (b : Nat)
    (h : immortal a = false) :
    takeUp immortal refs b a = refs a + if some b = some a then 1 else 0 := by
  rw [takeUp]
  by_cases hb : b = a
  · subst hb
    rw [h, if_neg Bool.false_ne_true, if_pos rfl, update_self]
  · rw [if_neg fun he => hb (Option.some.inj he)]
    split
    · rfl
    · exact update_of_ne (Ne.symm hb) ..

theorem holder_succ (object : Nat → Option Nat) (n : Nat) (v : Option Nat) (a : Nat) :
    tally (holder (update object n v) a) (List.range (n + 1)) =
      tally (holder object a) (List.range n) + if v = some a then 1 else 0 := by
  rw [tally_range_succ _ _ fun i hi => holder_update_ne object a v hi, holder_update_self]

end MeatySkeleton.Lib
