import MeatySkeleton.Device.KeyboardCharacters

/-!
# The input of a terminal session

`terminal_session.c`: the dispatcher appends the characters of a key to the ring of the session
in front, each under the lock of the session, and a program reads from the ring. Between two
characters of an escape sequence the lock is free, so reads may come between them. The shell
reads the sequences whole; `run_sequences_iff` says when both queues deliver them so.
-/

namespace MeatySkeleton.Gui

open Lib Device

/-- `GUI_TERMINAL_INPUT_CAPACITY`. -/
def guiTerminalInputCapacity : Nat := 256

/-- The ring of a session: `input`, `input_read` and `input_write`. -/
abbrev SessionInput := Traffic UInt8

namespace SessionInput

/-- `gui_terminal_input_next`. -/
def inputNext (index : Nat) : Nat := (index + 1) % guiTerminalInputCapacity

/-- `gui_terminal_input_push`. -/
def inputPush (t : SessionInput) (character : UInt8) : Bool × SessionInput :=
  if character = 0 then (false, t)
  else ((t.ring.push inputNext character).1, t.push inputNext character)

/-- `gui_terminal_input_sequence`, with the number of characters that are read in front of each
push. -/
def inputSequence (t : SessionInput) : List (Nat × UInt8) → SessionInput
  | [] => t
  | (count, character) :: sequence =>
    inputSequence (inputPush (t.read inputNext count) character).2 sequence

/-- The characters of a sequence and the reads in front of them. -/
def interleave (reads : Nat → Nat) (sequence : List UInt8) : List (Nat × UInt8) :=
  sequence.zipIdx.map fun (c, i) => (reads i, c)

/-- `gui_terminal_session_handle_keyboard`; the session is the one in front if `routed`. Moving
the view is left out. -/
def handleKeyboard (t : SessionInput) (event : KeyboardEvent) (routed : Bool) (reads : Nat → Nat) :
    Bool × SessionInput :=
  if event.pressed = false ∨ routed = false then (false, t)
  else if event.key = .pageUp ∨ event.key = .pageDown then (true, t)
  else if event.character ≠ 0 then inputPush t event.character
  else if event.key.sequence = [] then (false, t)
  else (true, t.inputSequence (interleave reads event.key.sequence))

/-- `gui_terminal_session_read`. -/
def sessionRead (t : SessionInput) (capacity : Nat) : SessionInput := t.read inputNext capacity

/-! ## Runs -/

inductive Label where
  | key (event : KeyboardEvent) (routed : Bool) (reads : Nat → Nat)
  | read (capacity : Nat)

def step (t : SessionInput) : Label → Option SessionInput
  | .key event routed reads => some (t.handleKeyboard event routed reads).2
  | .read capacity => some (t.sessionRead capacity)

/-- The characters of a key, with the reads in front of each. -/
def batch (event : KeyboardEvent) (routed : Bool) (reads : Nat → Nat) : List (Nat × UInt8) :=
  if event.pressed = false ∨ routed = false then []
  else if event.key = .pageUp ∨ event.key = .pageDown then []
  else if event.character ≠ 0 then [(0, event.character)]
  else interleave reads event.key.sequence

/-- All the characters of the key are appended, or none. -/
def Whole (t : SessionInput) : Label → Prop
  | .key event routed reads =>
    (t.handleKeyboard event routed reads).2.appended =
        t.appended ++ (batch event routed reads).map Prod.snd ∨
      (t.handleKeyboard event routed reads).2.appended = t.appended
  | .read _ => True

/-- Each of them finds room, or each finds the ring full. -/
def Fits (t : SessionInput) : Label → Prop
  | .key event routed reads =>
    Traffic.takesAll guiTerminalInputCapacity (t.ring.contents guiTerminalInputCapacity).length
        ((batch event routed reads).map Prod.fst) ∨
      Traffic.takesNone guiTerminalInputCapacity (t.ring.contents guiTerminalInputCapacity).length
        ((batch event routed reads).map Prod.fst)
  | .read _ => True

variable {t t' : SessionInput} {l : List UInt8}

theorem inputNext_eq (index : Nat) : inputNext index = (index + 1) % guiTerminalInputCapacity := rfl

theorem inputPush_snd {character : UInt8} (hne : character ≠ 0) :
    (inputPush t character).2 = t.push inputNext character := by
  rw [inputPush, if_neg hne]

theorem inputSequence_eq {sequence : List (Nat × UInt8)} (hne : ∀ p ∈ sequence, p.2 ≠ 0) :
    t.inputSequence sequence = t.feed inputNext sequence := by
  induction sequence generalizing t with
  | nil => rfl
  | cons p sequence ih =>
    obtain ⟨count, character⟩ := p
    rw [inputSequence, Traffic.feed, inputPush_snd (hne _ (List.mem_cons_self ..))]
    exact ih fun p hp => hne p (List.mem_cons_of_mem _ hp)

theorem interleave_snd (reads : Nat → Nat) (sequence : List UInt8) :
    (interleave reads sequence).map Prod.snd = sequence := by
  rw [interleave, List.map_map]
  exact List.zipIdx_map_fst ..

/-- A key is a batch of pushes. -/
theorem handleKeyboard_eq (t : SessionInput) (event : KeyboardEvent) (routed : Bool)
    (reads : Nat → Nat) :
    (t.handleKeyboard event routed reads).2 = t.feed inputNext (batch event routed reads) := by
  unfold handleKeyboard batch
  split
  · rfl
  · split
    · rfl
    · split
      case isTrue hne => exact inputPush_snd hne
      · split
        case isTrue hnil =>
          rw [hnil]
          rfl
        · apply inputSequence_eq
          intro p hp
          apply Keyboard.sequence_ne_zero event.key
          rw [← interleave_snd reads event.key.sequence]
          exact List.mem_map_of_mem hp

section

variable (h : t.Fifo guiTerminalInputCapacity l)

include h

theorem key_fifo (event : KeyboardEvent) (routed : Bool)
    (reads : Nat → Nat) :
    ∃ l', (t.handleKeyboard event routed reads).2.Fifo guiTerminalInputCapacity l' := by
  rw [handleKeyboard_eq]
  obtain ⟨l', -, h', -⟩ := h.feed inputNext_eq (batch event routed reads)
  exact ⟨l', h'⟩

theorem step_fifo {label : Label}
    (hs : t.step label = some t') : ∃ l', t'.Fifo guiTerminalInputCapacity l' := by
  cases label with
  | key event routed reads =>
    obtain rfl := Option.some.inj hs
    exact key_fifo h event routed reads
  | read capacity =>
    obtain rfl := Option.some.inj hs
    exact ⟨l.drop capacity, (h.read inputNext_eq capacity).1⟩

theorem whole_iff (label : Label) :
    t.Whole label ↔ t.Fits label := by
  cases label with
  | key event routed reads =>
    rw [Whole, Fits, handleKeyboard_eq, h.holds.contents_eq]
    exact h.whole_iff inputNext_eq (batch event routed reads)
  | read capacity => exact Iff.rfl

end

theorem run_whole_iff (slots : Nat → UInt8) (labels : List Label) (t : SessionInput) :
    RunWhere step Whole (Traffic.start slots) labels t ↔
      RunWhere step Fits (Traffic.start slots) labels t :=
  RunWhere.congr (I := fun t => ∃ l, t.Fifo guiTerminalInputCapacity l)
    ⟨[], Traffic.start_fifo (by decide) slots⟩ (fun _ _ _ ⟨_, h⟩ _ hs => step_fifo h hs)
    fun _ label ⟨_, h⟩ => whole_iff h label

theorem run_inOrder (slots : Nat → UInt8) {labels : List Label} {t : SessionInput}
    (hr : Run step (Traffic.start slots) labels t) : t.InOrder guiTerminalInputCapacity := by
  obtain ⟨l, h⟩ := hr.invariant (I := fun t => ∃ l, t.Fifo guiTerminalInputCapacity l)
    ⟨[], Traffic.start_fifo (by decide) slots⟩ fun _ _ _ ⟨_, h⟩ _ hs => step_fifo h hs
  exact h.inOrder

end SessionInput

/-- When the sequences of the keys are appended whole or not at all, to the queue of the keyboard
and to the ring of a session; what is read from either is what was appended, in the same order,
in every run. -/
theorem run_sequences_iff (slots : Nat → UInt8) :
    (∀ labels k, RunWhere Keyboard.step Keyboard.Whole (Keyboard.start slots) labels k ↔
      RunWhere Keyboard.step Keyboard.Fits (Keyboard.start slots) labels k) ∧
    (∀ labels k, Run Keyboard.step (Keyboard.start slots) labels k →
      k.characters.InOrder keyboardCharacterBufferSize ∧ k.Served) ∧
    (∀ labels t, RunWhere SessionInput.step SessionInput.Whole (Traffic.start slots) labels t ↔
      RunWhere SessionInput.step SessionInput.Fits (Traffic.start slots) labels t) ∧
    ∀ labels t, Run SessionInput.step (Traffic.start slots) labels t →
      t.InOrder guiTerminalInputCapacity :=
  ⟨Keyboard.run_whole_iff slots, fun _ _ => Keyboard.run_inOrder slots,
    SessionInput.run_whole_iff slots, fun _ _ => SessionInput.run_inOrder slots⟩

/-- With one free place in the queue of the keyboard, only the escape character of an arrow key is
appended. -/
theorem truncated_sequence : ∃ k k', Run Keyboard.step (Keyboard.start fun _ => 0)
      (List.replicate 126 (.key ⟨.other, true, 97⟩ false)) k ∧
    k.step (.key ⟨.arrowUp, true, 0⟩ false) = some k' ∧
    k'.characters.appended = k.characters.appended ++ [0x1b] := by
  have hrun : (exec Keyboard.step (fun _ _ => True) (Keyboard.start fun _ => 0)
      (List.replicate 126 (.key ⟨.other, true, 97⟩ false))).any (fun k =>
        (k.publish ⟨.arrowUp, true, 0⟩ false).characters.appended ==
          k.characters.appended ++ [0x1b]) := by decide +kernel
  obtain ⟨k, hk, happended⟩ := (Option.any_eq_true _ _).mp hrun
  exact ⟨k, _, run_of_exec hk, rfl, eq_of_beq happended⟩

end MeatySkeleton.Gui
