import MeatySkeleton.Lib.Ring

/-!
# Rings that drop what does not fit

A ring with a read and a write index and a step function for both. A push into a full ring is
refused, and one slot stays free, so that equal indices mean an empty ring. `Holds` ties the
ring to the list of its entries, the oldest first.

`Traffic` records what a ring has taken in and what was read from it: whatever the order of
pushes and reads, the entries are what was taken in and not read yet (`Traffic.Fifo`). A batch
of pushes that reads come between need not be taken in whole; `takesAll` and `takesNone` say
when it is and when none of it is.
-/

namespace MeatySkeleton.Lib

open List

variable {α : Type}

structure DropRing (α : Type) where
  slots : Nat → α
  readIndex : Nat
  writeIndex : Nat

namespace DropRing

/-- Whether there was room, and the ring after the push. -/
def push (next : Nat → Nat) (r : DropRing α) (a : α) : Bool × DropRing α :=
  if next r.writeIndex = r.readIndex then (false, r)
  else (true, { r with
    slots := Function.update r.slots r.writeIndex a, writeIndex := next r.writeIndex })

/-- The oldest entry, if there is one. -/
def pop (next : Nat → Nat) (r : DropRing α) : Option (α × DropRing α) :=
  if r.readIndex = r.writeIndex then none
  else some (r.slots r.readIndex, { r with readIndex := next r.readIndex })

structure Holds (cap : Nat) (r : DropRing α) (l : List α) : Prop where
  ring : RingQueue cap r.slots r.readIndex l
  write : r.writeIndex = ringSlot cap r.readIndex l.length

/-- The entries, the oldest first. -/
def contents (cap : Nat) (r : DropRing α) : List α :=
  (List.range ((r.writeIndex + cap - r.readIndex) % cap)).map fun i =>
    r.slots (ringSlot cap r.readIndex i)

variable {cap : Nat} {next : Nat → Nat} {r : DropRing α} {l : List α} {a : α}

theorem Holds.contents_eq (h : Holds cap r l) : r.contents cap = l := by
  have hstart := h.ring.start_lt
  have hroom := h.ring.room
  have hlength : (r.writeIndex + cap - r.readIndex) % cap = l.length := by
    have hwrap : r.writeIndex = (r.readIndex + l.length) % cap := h.write
    rcases Nat.lt_or_ge (r.readIndex + l.length) cap with hlt | hge
    · rw [hwrap, Nat.mod_eq_of_lt hlt, Nat.add_assoc, Nat.add_sub_cancel_left,
        Nat.add_mod_right, Nat.mod_eq_of_lt hroom]
    · have hback : r.writeIndex = r.readIndex + l.length - cap := by
        rw [hwrap, Nat.mod_eq_sub_mod hge, Nat.mod_eq_of_lt (by omega)]
      have hdistance : r.writeIndex + cap - r.readIndex = l.length := by omega
      rw [hdistance, Nat.mod_eq_of_lt hroom]
  apply ext_getElem?
  intro i
  unfold contents
  rw [getElem?_map, hlength]
  by_cases hi : i < l.length
  · rw [getElem?_range hi, h.ring.slot i hi]
    rfl
  · rw [getElem?_eq_none (by rw [length_range]; exact Nat.le_of_not_lt hi),
      getElem?_eq_none (Nat.le_of_not_lt hi)]
    rfl

theorem Holds.empty (hcap : 0 < cap) (slots : Nat → α) : Holds cap ⟨slots, 0, 0⟩ [] where
  ring := .empty slots hcap
  write := (Nat.mod_eq_of_lt hcap).symm

theorem Holds.room (h : Holds cap r l) : l.length < cap := h.ring.room

theorem Holds.empty_iff (h : Holds cap r l) : r.readIndex = r.writeIndex ↔ l = [] := by
  rw [h.write]
  exact h.ring.empty_iff

/-- Rewriting the newest entry. -/
theorem Holds.setLast (h : Holds cap r (l ++ [a])) (b : α) :
    Holds cap { r with slots := Function.update r.slots (ringSlot cap r.readIndex l.length) b }
      (l ++ [b]) where
  ring := h.ring.setLast b
  write := by
    have hwrite := h.write
    rw [length_append] at hwrite ⊢
    exact hwrite

section Steps

variable (hnext : ∀ i, next i = (i + 1) % cap)
include hnext

theorem Holds.next_write (h : Holds cap r l) :
    next r.writeIndex = ringSlot cap r.readIndex (l.length + 1) := by
  rw [hnext, h.write]
  exact Nat.mod_add_mod ..

theorem Holds.push_room (h : Holds cap r l) (hroom : l.length + 1 < cap) (a : α) :
    ∃ r', r.push next a = (true, r') ∧ Holds cap r' (l ++ [a]) := by
  have hne : next r.writeIndex ≠ r.readIndex := by
    intro he
    rw [h.next_write hnext] at he
    exact Nat.ne_of_lt hroom (h.ring.full_iff.mp he)
  refine ⟨_, if_neg hne, ?_, ?_⟩
  · show RingQueue _ (Function.update r.slots r.writeIndex a) _ _
    rw [h.write]
    exact h.ring.push hroom a
  · rw [length_append]
    exact h.next_write hnext

theorem Holds.push_full (h : Holds cap r l) (hfull : l.length + 1 = cap) (a : α) :
    r.push next a = (false, r) := by
  refine if_pos ?_
  rw [h.next_write hnext]
  exact h.ring.full_iff.mpr hfull

theorem Holds.pop_cons (h : Holds cap r (a :: l)) :
    ∃ r', r.pop next = some (a, r') ∧ Holds cap r' l := by
  have hne : r.readIndex ≠ r.writeIndex := fun he => absurd (h.empty_iff.mp he) nofun
  obtain ⟨hfirst, hring⟩ := h.ring.pop
  refine ⟨{ r with readIndex := next r.readIndex }, ?_, ?_, ?_⟩
  · rw [pop, if_neg hne, hfirst]
  · exact hnext r.readIndex ▸ hring
  · show r.writeIndex = ringSlot _ (next r.readIndex) _
    rw [hnext, ringSlot_succ]
    exact h.write

/-- Of a batch of pushes, as many as there is room for. -/
theorem Holds.pushAll (h : Holds cap r l) (as : List α) :
    Holds cap (as.foldl (fun r a => (r.push next a).2) r)
      (l ++ as.take (cap - 1 - l.length)) := by
  induction as generalizing r l with
  | nil => rwa [take_nil, append_nil]
  | cons a as ih =>
    have hroom := h.room
    rw [foldl_cons]
    by_cases hfull : l.length + 1 = cap
    · have hzero : cap - 1 - l.length = 0 := by omega
      rw [h.push_full hnext hfull a]
      have hrest := ih h
      rw [hzero, take_zero] at hrest ⊢
      exact hrest
    · have hlt : l.length + 1 < cap := by omega
      obtain ⟨r', he, hholds⟩ := h.push_room hnext hlt a
      have hsucc : cap - 1 - l.length = cap - 1 - (l ++ [a]).length + 1 := by
        rw [length_append, length_singleton]
        omega
      have hrest := ih hholds
      rw [append_assoc, singleton_append] at hrest
      rw [he, hsucc, take_succ_cons]
      exact hrest

end Steps

theorem Holds.pop_nil (h : Holds cap r []) (next : Nat → Nat) : r.pop next = none :=
  if_pos (h.empty_iff.mpr rfl)

end DropRing

/-! ## What goes in and what comes out -/

/-- A ring, all the entries it has taken in and all that were read, the oldest first. -/
structure Traffic (α : Type) where
  ring : DropRing α
  appended : List α
  received : List α

namespace Traffic

def push (next : Nat → Nat) (t : Traffic α) (a : α) : Traffic α :=
  let (accepted, ring) := t.ring.push next a
  { t with ring, appended := if accepted then t.appended ++ [a] else t.appended }

def pop (next : Nat → Nat) (t : Traffic α) : Traffic α :=
  match t.ring.pop next with
  | none => t
  | some (a, ring) => { t with ring, received := t.received ++ [a] }

/-- Up to `count` entries are read. -/
def read (next : Nat → Nat) : Nat → Traffic α → Traffic α
  | 0, t => t
  | count + 1, t => read next count (t.pop next)

/-- A batch of pushes; up to so many entries are read in front of each. -/
def feed (next : Nat → Nat) : List (Nat × α) → Traffic α → Traffic α
  | [], t => t
  | (count, a) :: batch, t => feed next batch ((t.read next count).push next a)

/-- An empty ring that nothing has gone through. -/
def start (slots : Nat → α) : Traffic α := ⟨⟨slots, 0, 0⟩, [], []⟩

/-- What was read is what was taken in, in the same order, less what is still queued. -/
def InOrder (cap : Nat) (t : Traffic α) : Prop := t.received ++ t.ring.contents cap = t.appended

/-- The entries of the ring are those that were taken in and not read yet. -/
structure Fifo (cap : Nat) (t : Traffic α) (l : List α) : Prop where
  holds : t.ring.Holds cap l
  order : t.received ++ l = t.appended

variable {cap : Nat} {next : Nat → Nat} {t : Traffic α} {l : List α}

theorem Fifo.inOrder (h : Fifo cap t l) : t.InOrder cap := by
  rw [InOrder, h.holds.contents_eq]
  exact h.order

theorem start_fifo (hcap : 0 < cap) (slots : Nat → α) : Fifo cap (start slots) [] where
  holds := .empty hcap slots
  order := rfl

section Steps

variable (hnext : ∀ i, next i = (i + 1) % cap)
include hnext

theorem Fifo.push_room (h : Fifo cap t l) (hroom : l.length + 1 < cap) (a : α) :
    Fifo cap (t.push next a) (l ++ [a]) ∧ (t.push next a).appended = t.appended ++ [a] := by
  obtain ⟨r', he, hholds⟩ := h.holds.push_room hnext hroom a
  rw [push, he]
  refine ⟨⟨hholds, ?_⟩, rfl⟩
  show t.received ++ (l ++ [a]) = t.appended ++ [a]
  rw [← append_assoc, h.order]

theorem Fifo.push_full (h : Fifo cap t l) (hfull : l.length + 1 = cap) (a : α) :
    t.push next a = t := by
  rw [push, h.holds.push_full hnext hfull a]
  rfl

theorem Fifo.pop (h : Fifo cap t l) :
    Fifo cap (t.pop next) l.tail ∧ (t.pop next).appended = t.appended := by
  cases l with
  | nil =>
    rw [Traffic.pop, h.holds.pop_nil next]
    exact ⟨h, rfl⟩
  | cons a l =>
    obtain ⟨r', he, hholds⟩ := h.holds.pop_cons hnext
    rw [Traffic.pop, he]
    refine ⟨⟨hholds, ?_⟩, rfl⟩
    show t.received ++ [a] ++ l = t.appended
    rw [append_assoc, singleton_append, h.order]

theorem Fifo.read (h : Fifo cap t l) (count : Nat) :
    Fifo cap (t.read next count) (l.drop count) ∧ (t.read next count).appended = t.appended := by
  induction count generalizing t l with
  | zero => exact ⟨h, rfl⟩
  | succ count ih =>
    obtain ⟨hpop, hsame⟩ := h.pop hnext
    obtain ⟨hread, happended⟩ := ih hpop
    rw [Traffic.read]
    refine ⟨?_, happended.trans hsame⟩
    rwa [← drop_one, drop_drop, Nat.add_comm] at hread

end Steps

/-- All of a batch is taken in, when the ring holds `count` entries and so many are read in front
of each push. -/
def takesAll (cap : Nat) : Nat → List Nat → Prop
  | _, [] => True
  | count, reads :: rest => count - reads + 1 < cap ∧ takesAll cap (count - reads + 1) rest

/-- None of it is. -/
def takesNone (cap : Nat) : Nat → List Nat → Prop
  | _, [] => True
  | count, reads :: rest => count - reads + 1 = cap ∧ takesNone cap (count - reads) rest

section Steps

variable (hnext : ∀ i, next i = (i + 1) % cap)
include hnext

/-- What a batch comes to: some of its entries are taken in, in their order. -/
theorem Fifo.feed (h : Fifo cap t l) (batch : List (Nat × α)) :
    ∃ l' taken, Fifo cap (t.feed next batch) l' ∧
      (t.feed next batch).appended = t.appended ++ taken ∧
      taken.Sublist (batch.map Prod.snd) ∧
      (taken = batch.map Prod.snd ↔ takesAll cap l.length (batch.map Prod.fst)) ∧
      (taken = [] ↔ takesNone cap l.length (batch.map Prod.fst)) := by
  induction batch generalizing t l with
  | nil => exact ⟨l, [], h, (append_nil _).symm, .slnil, by simp [takesAll], by simp [takesNone]⟩
  | cons entry batch ih =>
    obtain ⟨count, a⟩ := entry
    obtain ⟨hread, hsame⟩ := h.read hnext count
    have hroom := hread.holds.room
    rw [Traffic.feed]
    simp only [map_cons, takesAll, takesNone]
    rw [length_drop] at hroom
    by_cases hfull : l.length - count + 1 = cap
    · -- the first entry is refused
      have hrefused := hread.push_full hnext (by rwa [length_drop]) a
      obtain ⟨l', taken, hfifo, happended, hsub, -, hnone⟩ := ih hread
      rw [hrefused]
      rw [length_drop] at hnone
      refine ⟨l', taken, hfifo, by rw [happended, hsame], hsub.cons _, ?_, ?_⟩
      · constructor
        · intro he
          rw [he] at hsub
          have hlength := hsub.length_le
          rw [length_cons] at hlength
          omega
        · intro ⟨hlt, _⟩
          omega
      · rw [hnone]
        exact ⟨fun hrest => ⟨hfull, hrest⟩, And.right⟩
    · have hlt : l.length - count + 1 < cap := by omega
      obtain ⟨hpush, htaken⟩ := hread.push_room hnext (by rwa [length_drop]) a
      obtain ⟨l', taken, hfifo, happended, hsub, hall, -⟩ := ih hpush
      rw [length_append, length_drop, length_singleton] at hall
      refine ⟨l', a :: taken, hfifo, ?_, hsub.cons_cons a, ?_, ?_⟩
      · rw [happended, htaken, hsame, append_assoc, singleton_append]
      · rw [List.cons.injEq, eq_self, true_and, hall]
        exact ⟨fun hrest => ⟨hlt, hrest⟩, And.right⟩
      · exact ⟨nofun, fun hno => absurd hno.1 hfull⟩

/-- When a batch is taken in whole or not at all. -/
theorem Fifo.whole_iff (h : Fifo cap t l) (batch : List (Nat × α)) :
    ((t.feed next batch).appended = t.appended ++ batch.map Prod.snd ∨
      (t.feed next batch).appended = t.appended) ↔
    takesAll cap l.length (batch.map Prod.fst) ∨ takesNone cap l.length (batch.map Prod.fst) := by
  obtain ⟨l', taken, -, happended, -, hall, hnone⟩ := h.feed hnext batch
  rw [happended, append_cancel_left_eq, append_right_eq_self, hall, hnone]

end Steps

/-- With no reads in between there must be room for all of it, or none at all. -/
theorem takesAll_replicate (cap : Nat) : ∀ {count n : Nat}, count < cap →
    (takesAll cap count (List.replicate n 0) ↔ count + n < cap)
  | count, 0, h => by simpa [takesAll] using h
  | count, n + 1, h => by
    rw [replicate_succ, takesAll, Nat.sub_zero]
    constructor
    · intro ⟨hlt, hrest⟩
      have hle := (takesAll_replicate cap hlt).mp hrest
      omega
    · intro hle
      have hlt : count + 1 < cap := by omega
      exact ⟨hlt, (takesAll_replicate cap hlt).mpr (by omega)⟩

theorem takesNone_replicate (cap count n : Nat) :
    takesNone cap count (List.replicate (n + 1) 0) ↔ count + 1 = cap := by
  induction n with
  | zero => simp [takesNone]
  | succ n ih =>
    rw [replicate_succ, takesNone, Nat.sub_zero, ih, and_self]

theorem takes_replicate (cap : Nat) {count : Nat} (n : Nat) (h : count < cap) :
    takesAll cap count (List.replicate n 0) ∨ takesNone cap count (List.replicate n 0) ↔
      count + n < cap ∨ count + 1 = cap := by
  cases n with
  | zero => exact iff_of_true (.inl trivial) (.inl h)
  | succ n => rw [takesAll_replicate cap h, takesNone_replicate]

end Traffic

end MeatySkeleton.Lib
