import MeatySkeleton.Lib.DropRing
import MeatySkeleton.Lib.Run

/-!
# The characters of the keyboard

What the decoder of `keyboard.c` does with a key: it appends the key's character to a queue, or
one by one the characters of an escape sequence, from the interrupt handler. A semaphore counts
them, and a reader takes a permit before it takes a character, in two steps.
-/

namespace MeatySkeleton.Device

open List Lib

/-- The keys of `keyboard_key_t` that have a sequence or move the view of a terminal; `other` is
any other key. -/
inductive KeyboardKey where
  | arrowUp
  | arrowDown
  | arrowRight
  | arrowLeft
  | home
  | «end»
  | delete
  | pageUp
  | pageDown
  | other
  deriving DecidableEq

/-- `keyboard_event_t`; the character is `'\0'` if the event has none. -/
structure KeyboardEvent where
  key : KeyboardKey
  pressed : Bool
  character : UInt8

/-- The escape sequences: `ESC [` and a letter, or `ESC [ 3 ~`. -/
def KeyboardKey.sequence : KeyboardKey → List UInt8
  | .arrowUp => [0x1b, 0x5b, 0x41]
  | .arrowDown => [0x1b, 0x5b, 0x42]
  | .arrowRight => [0x1b, 0x5b, 0x43]
  | .arrowLeft => [0x1b, 0x5b, 0x44]
  | .home => [0x1b, 0x5b, 0x48]
  | .end => [0x1b, 0x5b, 0x46]
  | .delete => [0x1b, 0x5b, 0x33, 0x7e]
  | _ => []

/-- `KEYBOARD_CHARACTER_BUFFER_SIZE`. -/
def keyboardCharacterBufferSize : Nat := 128

/-- The character queue, its semaphore `character_available` and the readers that have a permit
and have not taken their character yet. -/
structure Keyboard where
  characters : Traffic UInt8
  characterDropCount : Nat
  available : Nat
  holding : Nat

namespace Keyboard

/-- `character_next_index`. -/
def characterNextIndex (index : Nat) : Nat := (index + 1) &&& (keyboardCharacterBufferSize - 1)

/-- `keyboard_character_push`. -/
def characterPush (k : Keyboard) (character : UInt8) : Keyboard :=
  if character = 0 then k
  else if (k.characters.ring.push characterNextIndex character).1 then
    { k with
      characters := k.characters.push characterNextIndex character
      available := k.available + 1 }
  else { k with characterDropCount := (k.characterDropCount + 1) % 2 ^ 32 }

/-- `keyboard_character_push_sequence`. -/
def characterPushSequence (k : Keyboard) (sequence : List UInt8) : Keyboard :=
  sequence.foldl characterPush k

/-- `keyboard_publish_terminal_key`. -/
def publishTerminalKey (k : Keyboard) (key : KeyboardKey) : Keyboard :=
  k.characterPushSequence key.sequence

/-- The end of `keyboard_decode_scancode`; `consumed` is what the filter of the GUI says. -/
def publish (k : Keyboard) (event : KeyboardEvent) (consumed : Bool) : Keyboard :=
  if consumed then k
  else if event.character ≠ 0 then k.characterPush event.character
  else if event.pressed then k.publishTerminalKey event.key
  else k

/-- The permit of `keyboard_read_character` and `keyboard_wait_character`. -/
def takePermit (k : Keyboard) : Option Keyboard :=
  if k.available = 0 then none
  else some { k with available := k.available - 1, holding := k.holding + 1 }

/-- `keyboard_character_pop_unlocked`, by a reader that has a permit. -/
def characterPop (k : Keyboard) : Option Keyboard :=
  if k.holding = 0 then none
  else some { k with
    characters := k.characters.pop characterNextIndex, holding := k.holding - 1 }

/-! ## Runs -/

inductive Label where
  | key (event : KeyboardEvent) (consumed : Bool)
  | takePermit
  | pop

def step (k : Keyboard) : Label → Option Keyboard
  | .key event consumed => some (k.publish event consumed)
  | .takePermit => k.takePermit
  | .pop => k.characterPop

def start (slots : Nat → UInt8) : Keyboard := ⟨.start slots, 0, 0, 0⟩

/-- The characters of a key. -/
def output (event : KeyboardEvent) (consumed : Bool) : List UInt8 :=
  if consumed then []
  else if event.character ≠ 0 then [event.character]
  else if event.pressed then event.key.sequence else []

/-- All the characters of the key are appended, or none. -/
def Whole (k : Keyboard) : Label → Prop
  | .key event consumed =>
    (k.publish event consumed).characters.appended =
        k.characters.appended ++ output event consumed ∨
      (k.publish event consumed).characters.appended = k.characters.appended
  | _ => True

/-- The number of characters in the queue. -/
def queued (k : Keyboard) : Nat :=
  (k.characters.ring.contents keyboardCharacterBufferSize).length

/-- The queue has room for all of them, or is full. -/
def Fits (k : Keyboard) : Label → Prop
  | .key event consumed => k.queued + (output event consumed).length < keyboardCharacterBufferSize ∨
      k.queued + 1 = keyboardCharacterBufferSize
  | _ => True

variable {k k' : Keyboard} {l : List UInt8}

theorem characterNextIndex_eq (index : Nat) :
    characterNextIndex index = (index + 1) % keyboardCharacterBufferSize :=
  Nat.and_two_pow_sub_one_eq_mod _ 7

/-- Each queued character has a permit in the semaphore or with a reader. -/
structure Inv (k : Keyboard) (l : List UInt8) : Prop where
  fifo : k.characters.Fifo keyboardCharacterBufferSize l
  permits : k.available + k.holding = l.length

theorem start_inv (slots : Nat → UInt8) : (start slots).Inv [] :=
  ⟨Traffic.start_fifo (by decide) slots, rfl⟩

theorem Inv.queued (h : k.Inv l) : k.queued = l.length := by
  rw [Keyboard.queued, h.fifo.holds.contents_eq]

/-- A push goes through the queue, which may refuse it. -/
theorem Inv.push (h : k.Inv l) {character : UInt8} (hne : character ≠ 0) :
    (k.characterPush character).characters = k.characters.push characterNextIndex character ∧
      ∃ l', (k.characterPush character).Inv l' := by
  have hroom := h.fifo.holds.room
  rw [characterPush, if_neg hne]
  by_cases hfull : l.length + 1 = keyboardCharacterBufferSize
  · rw [h.fifo.holds.push_full characterNextIndex_eq hfull character, if_neg nofun]
    exact ⟨(h.fifo.push_full characterNextIndex_eq hfull character).symm, l, h.fifo, h.permits⟩
  · have hlt : l.length + 1 < keyboardCharacterBufferSize := by omega
    obtain ⟨_, he, -⟩ := h.fifo.holds.push_room characterNextIndex_eq hlt character
    rw [he, if_pos rfl]
    refine ⟨rfl, l ++ [character], (h.fifo.push_room characterNextIndex_eq hlt character).1, ?_⟩
    have hpermits := h.permits
    rw [length_append, length_singleton, ← hpermits]
    show k.available + 1 + k.holding = _
    omega

/-- A sequence is a batch with no reads in between. -/
theorem Inv.pushSequence (h : k.Inv l) {sequence : List UInt8} (hne : ∀ c ∈ sequence, c ≠ 0) :
    (k.characterPushSequence sequence).characters =
        k.characters.feed characterNextIndex (sequence.map fun c => (0, c)) ∧
      ∃ l', (k.characterPushSequence sequence).Inv l' := by
  induction sequence generalizing k l with
  | nil => exact ⟨rfl, l, h⟩
  | cons c sequence ih =>
    obtain ⟨hpush, l', h'⟩ := h.push (hne c (mem_cons_self ..))
    obtain ⟨hrest, hinv⟩ := ih h' fun c hc => hne c (mem_cons_of_mem _ hc)
    refine ⟨?_, hinv⟩
    rw [map_cons, Traffic.feed, Traffic.read, ← hpush]
    exact hrest

theorem sequence_ne_zero (key : KeyboardKey) : ∀ c ∈ key.sequence, c ≠ 0 := by
  cases key <;> simp [KeyboardKey.sequence]

theorem output_ne_zero (event : KeyboardEvent) (consumed : Bool) :
    ∀ c ∈ output event consumed, c ≠ 0 := by
  unfold output
  split
  · nofun
  · split
    case isTrue hne =>
      intro c hc
      rw [mem_singleton.mp hc]
      exact hne
    · split
      · exact sequence_ne_zero event.key
      · nofun

theorem publish_eq (k : Keyboard) (event : KeyboardEvent) (consumed : Bool) :
    k.publish event consumed = k.characterPushSequence (output event consumed) := by
  unfold publish output
  split
  · rfl
  · split
    · rfl
    · split <;> rfl

theorem Inv.step (h : k.Inv l) {label : Label} (hs : k.step label = some k') :
    ∃ l', k'.Inv l' := by
  cases label with
  | key event consumed =>
    obtain rfl := Option.some.inj hs
    rw [publish_eq]
    exact (h.pushSequence (output_ne_zero event consumed)).2
  | takePermit =>
    change (if k.available = 0 then none else _) = _ at hs
    rw [Option.ite_none_left_eq_some] at hs
    obtain ⟨hpos, hs⟩ := hs
    obtain rfl := Option.some.inj hs
    have hpermits := h.permits
    refine ⟨l, h.fifo, ?_⟩
    show k.available - 1 + (k.holding + 1) = l.length
    omega
  | pop =>
    change (if k.holding = 0 then none else _) = _ at hs
    rw [Option.ite_none_left_eq_some] at hs
    obtain ⟨hpos, hs⟩ := hs
    obtain rfl := Option.some.inj hs
    have hpermits := h.permits
    refine ⟨l.tail, (h.fifo.pop characterNextIndex_eq).1, ?_⟩
    show k.available + (k.holding - 1) = l.tail.length
    rw [length_tail]
    omega

theorem Inv.whole_iff (h : k.Inv l) (label : Label) : k.Whole label ↔ k.Fits label := by
  cases label with
  | key event consumed =>
    have hfirst : ((output event consumed).map fun c => (0, c)).map Prod.fst =
        List.replicate (output event consumed).length 0 := by
      rw [map_map]
      exact map_const' ..
    have hsecond : ((output event consumed).map fun c => (0, c)).map Prod.snd =
        output event consumed := by
      rw [map_map]
      exact map_id' _
    have hwhole := h.fifo.whole_iff characterNextIndex_eq
      ((output event consumed).map fun c => (0, c))
    rw [← (h.pushSequence (output_ne_zero event consumed)).1, ← publish_eq, hfirst, hsecond,
      Traffic.takes_replicate _ _ h.fifo.holds.room, ← h.queued] at hwhole
    exact hwhole
  | takePermit => exact Iff.rfl
  | pop => exact Iff.rfl

/-- A run in which every key is appended whole or not at all is one in which the queue always has
room for the whole of it, or none. -/
theorem run_whole_iff (slots : Nat → UInt8) (labels : List Label) (k : Keyboard) :
    RunWhere step Whole (start slots) labels k ↔ RunWhere step Fits (start slots) labels k :=
  RunWhere.congr (I := fun k => ∃ l, Inv k l) ⟨[], start_inv slots⟩
    (fun _ _ _ ⟨_, h⟩ _ hs => h.step hs) fun _ label ⟨_, h⟩ => h.whole_iff label

/-- A reader that has a permit finds a character. -/
def Served (k : Keyboard) : Prop := k.available + k.holding = k.queued

/-- Whatever the order of keys and reads. -/
theorem run_inOrder (slots : Nat → UInt8) {labels : List Label} {k : Keyboard}
    (hr : Run step (start slots) labels k) :
    k.characters.InOrder keyboardCharacterBufferSize ∧ k.Served := by
  obtain ⟨l, h⟩ := hr.invariant (I := fun k => ∃ l, Inv k l) ⟨[], start_inv slots⟩
    fun _ _ _ ⟨_, h⟩ _ hs => h.step hs
  refine ⟨h.fifo.inOrder, ?_⟩
  rw [Served, h.queued]
  exact h.permits

end Keyboard

end MeatySkeleton.Device
