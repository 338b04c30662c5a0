import Mathlib.Data.List.Basic
import Mathlib.Data.Nat.ModEq

/-!
# Rings of a fixed capacity

A ring keeps the newest `cap` values of a growing list in `cap` slots: entry `i`,
counted from the oldest one kept, is in slot `(start + i) % cap`. `RingHolds` says
so for the list with the newest value first. A push into a full ring takes the slot
of the oldest entry, and every other entry stays where it is.

`RingQueue` is a ring that refuses instead: it holds a list with the oldest value
first, one shorter than the ring at most, so that an empty one and a full one differ.
-/

namespace MeatySkeleton.Lib

open Function List

variable {α : Type} {cap start count : Nat} {slots : Nat → α} {l : List α} {a b : α}

/-- The slot of entry `i`. -/
def ringSlot (cap start i : Nat) : Nat := (start + i) % cap

theorem ringSlot_inj {i j : Nat} (hi : i < cap) (hj : j < cap)
    (h : ringSlot cap start i = ringSlot cap start j) : i = j := by
  have hmod : i % cap = j % cap := Nat.ModEq.add_left_cancel' start h
  rwa [Nat.mod_eq_of_lt hi, Nat.mod_eq_of_lt hj] at hmod

/-- Dropping the oldest entry renumbers the others. -/
theorem ringSlot_succ (cap start i : Nat) :
    ringSlot cap ((start + 1) % cap) i = ringSlot cap start (i + 1) := by
  rw [ringSlot, ringSlot, Nat.mod_add_mod, Nat.add_assoc, Nat.add_comm 1 i]

/-- The slots hold the newest `cap` values of `l`, which has the newest one first. -/
structure RingHolds (cap : Nat) (slots : Nat → α) (start count : Nat) (l : List α) : Prop where
  count_eq : count = min cap l.length
  slot : ∀ k < count, l[k]? = some (slots (ringSlot cap start (count - 1 - k)))

theorem RingHolds.le (h : RingHolds cap slots start count l) : count ≤ cap :=
  h.count_eq ▸ Nat.min_le_left ..

theorem RingHolds.singleton (cap : Nat) (hcap : 0 < cap) (slots : Nat → α) :
    RingHolds cap slots 0 1 [slots 0] where
  count_eq := by
    rw [length_singleton]
    omega
  slot := by
    intro k hk
    obtain rfl : k = 0 := by omega
    rw [ringSlot, Nat.zero_add, Nat.mod_eq_of_lt (by omega)]
    rfl

theorem RingHolds.push_room (h : RingHolds cap slots start count l) (hroom : count < cap) (a : α) :
    RingHolds cap (update slots (ringSlot cap start count) a) start (count + 1)
      (a :: l) where
  count_eq := by
    have hcount := h.count_eq
    rw [length_cons]
    omega
  slot := by
    intro k hk
    cases k with
    | zero =>
      rw [getElem?_cons_zero, Nat.add_sub_cancel, Nat.sub_zero, update_self]
    | succ k =>
      have hindex : count + 1 - 1 - (k + 1) = count - 1 - k := by omega
      have hne : ringSlot cap start (count - 1 - k) ≠ ringSlot cap start count := fun he => by
        have hsame := ringSlot_inj (by omega) hroom he
        omega
      rw [getElem?_cons_succ, hindex, update_of_ne hne]
      exact h.slot k (by omega)

theorem RingHolds.push_full (h : RingHolds cap slots start cap l) (hcap : 0 < cap) (a : α) :
    RingHolds cap (update slots (ringSlot cap ((start + 1) % cap) (cap - 1)) a)
      ((start + 1) % cap) cap (a :: l) where
  count_eq := by
    have hcount := h.count_eq
    rw [length_cons]
    omega
  slot := by
    intro k hk
    cases k with
    | zero => rw [getElem?_cons_zero, Nat.sub_zero, update_self]
    | succ k =>
      have hindex : cap - 1 - (k + 1) + 1 = cap - 1 - k := by omega
      have hne : ringSlot cap ((start + 1) % cap) (cap - 1 - (k + 1)) ≠
          ringSlot cap ((start + 1) % cap) (cap - 1) := fun he => by
        have hsame := ringSlot_inj (by omega) (by omega) he
        omega
      rw [getElem?_cons_succ, update_of_ne hne, ringSlot_succ, hindex]
      exact h.slot k (by omega)

/-- Rewriting the newest entry. -/
theorem RingHolds.setNewest (h : RingHolds cap slots start count (a :: l)) (b : α) :
    RingHolds cap (update slots (ringSlot cap start (count - 1)) b) start count
      (b :: l) where
  count_eq := h.count_eq
  slot := by
    have hle := h.le
    intro k hk
    cases k with
    | zero => rw [getElem?_cons_zero, Nat.sub_zero, update_self]
    | succ k =>
      have hne : ringSlot cap start (count - 1 - (k + 1)) ≠ ringSlot cap start (count - 1) :=
        fun he => by
          have hsame := ringSlot_inj (by omega) (by omega) he
          omega
      rw [getElem?_cons_succ, update_of_ne hne]
      exact h.slot (k + 1) hk

/-- The contents of the ring, the newest entry first. -/
theorem RingHolds.content (h : RingHolds cap slots start count l) :
    (List.range count).map (fun k => slots (ringSlot cap start (count - 1 - k))) =
      l.take cap := by
  apply ext_getElem?
  intro k
  rw [getElem?_map, getElem?_take]
  have hcount := h.count_eq
  by_cases hk : k < count
  · rw [getElem?_range hk, if_pos (by omega), h.slot k hk]
    rfl
  · rw [getElem?_eq_none (by rw [length_range]; omega), Option.map_none]
    split
    · exact (getElem?_eq_none (by omega)).symm
    · rfl

/-! ## Queues -/

/-- The slots from `start` on hold the entries, the oldest one first. -/
structure RingQueue (cap : Nat) (slots : Nat → α) (start : Nat) (l : List α) : Prop where
  start_lt : start < cap
  room : l.length < cap
  slot : ∀ i < l.length, l[i]? = some (slots (ringSlot cap start i))

theorem RingQueue.empty (slots : Nat → α) {start : Nat} (h : start < cap) :
    RingQueue cap slots start [] :=
  ⟨h, Nat.zero_lt_of_lt h, nofun⟩

/-- The slot behind the newest entry is the oldest one's only if there are no entries. -/
theorem RingQueue.empty_iff (h : RingQueue cap slots start l) :
    start = ringSlot cap start l.length ↔ l = [] := by
  constructor
  · intro he
    have hzero : ringSlot cap start 0 = ringSlot cap start l.length := by
      rw [← he, ringSlot, Nat.add_zero, Nat.mod_eq_of_lt h.start_lt]
    exact length_eq_zero_iff.mp (ringSlot_inj (Nat.zero_lt_of_lt h.room) h.room hzero).symm
  · rintro rfl
    exact (Nat.mod_eq_of_lt h.start_lt).symm

/-- The slot after it is the oldest one's only if there is no room. -/
theorem RingQueue.full_iff (h : RingQueue cap slots start l) :
    ringSlot cap start (l.length + 1) = start ↔ l.length + 1 = cap := by
  have hroom := h.room
  constructor
  · intro he
    by_contra hne
    have hzero : ringSlot cap start (l.length + 1) = ringSlot cap start 0 := by
      rw [he, ringSlot, Nat.add_zero, Nat.mod_eq_of_lt h.start_lt]
    exact absurd (ringSlot_inj (by omega) (Nat.zero_lt_of_lt hroom) hzero) nofun
  · intro he
    rw [he, ringSlot, Nat.add_mod_right, Nat.mod_eq_of_lt h.start_lt]

theorem RingQueue.push (h : RingQueue cap slots start l) (hroom : l.length + 1 < cap) (a : α) :
    RingQueue cap (update slots (ringSlot cap start l.length) a) start (l ++ [a]) where
  start_lt := h.start_lt
  room := by rwa [length_append]
  slot := by
    intro i hi
    rw [length_append, length_singleton] at hi
    obtain hlt | rfl := Nat.lt_succ_iff_lt_or_eq.mp hi
    · have hne : ringSlot cap start i ≠ ringSlot cap start l.length := fun he =>
        Nat.ne_of_lt hlt (ringSlot_inj (by omega) h.room he)
      rw [getElem?_append_left hlt, update_of_ne hne]
      exact h.slot i hlt
    · rw [getElem?_append_right (Nat.le_refl _), Nat.sub_self, update_self]
      rfl

theorem RingQueue.pop (h : RingQueue cap slots start (a :: l)) :
    slots start = a ∧ RingQueue cap slots ((start + 1) % cap) l := by
  have hroom : l.length + 1 < cap := h.room
  refine ⟨?_, Nat.mod_lt _ (Nat.zero_lt_of_lt hroom), Nat.lt_of_succ_lt hroom, fun i hi => ?_⟩
  · have hfirst := h.slot 0 (Nat.succ_pos _)
    rw [ringSlot, Nat.add_zero, Nat.mod_eq_of_lt h.start_lt] at hfirst
    exact (Option.some.inj hfirst).symm
  · rw [ringSlot_succ]
    exact h.slot (i + 1) (Nat.succ_lt_succ hi)

/-- Rewriting the newest entry. -/
theorem RingQueue.setLast (h : RingQueue cap slots start (l ++ [a])) (b : α) :
    RingQueue cap (update slots (ringSlot cap start l.length) b) start (l ++ [b]) where
  start_lt := h.start_lt
  room := by
    have hroom := h.room
    rwa [length_append] at hroom ⊢
  slot := by
    have hroom := h.room
    rw [length_append, length_singleton] at hroom
    intro i hi
    rw [length_append, length_singleton] at hi
    obtain hlt | rfl := Nat.lt_succ_iff_lt_or_eq.mp hi
    · have hne : ringSlot cap start i ≠ ringSlot cap start l.length := fun he =>
        Nat.ne_of_lt hlt (ringSlot_inj (by omega) (by omega) he)
      have hslot := h.slot i (by rw [length_append]; omega)
      rw [getElem?_append_left hlt] at hslot ⊢
      rw [update_of_ne hne]
      exact hslot
    · rw [getElem?_append_right (Nat.le_refl _), Nat.sub_self, update_self]
      rfl

/-- The newest entry. -/
theorem RingQueue.last (h : RingQueue cap slots start (l ++ [a])) :
    slots (ringSlot cap start l.length) = a := by
  have hslot := h.slot l.length (by rw [length_append]; exact Nat.lt_succ_self _)
  rw [getElem?_append_right (Nat.le_refl _), Nat.sub_self] at hslot
  exact (Option.some.inj hslot).symm

end MeatySkeleton.Lib
