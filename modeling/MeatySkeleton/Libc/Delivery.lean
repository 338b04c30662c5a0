import MeatySkeleton.Lib.Run
import MeatySkeleton.Libc.Stream

/-!
# Output and a descriptor that fails

`fwrite`, `fputc` and `fflush` on a stream of a regular file, where any `kernel_fd_write` may
take only a part of what it is given, or nothing, or fail. What the stream has accepted is to be
what the descriptor has taken and after it what is still in the buffer. A flush that fails keeps
the whole buffer, also the part that the descriptor has taken by then, and so the next flush
writes that part again. `run_delivered_iff` says that nothing else can go wrong.
-/

namespace MeatySkeleton.Libc.Delivery

open List Option Lib

/-- What a `kernel_fd_write` does: it fails, or it takes up to so many bytes. -/
inductive Answer where
  | error
  | takes (n : Nat)

/-- The descriptor: what it will answer, and all the bytes it has taken. -/
structure Descriptor where
  answers : Nat → Answer
  taken : List UInt8

/-- The part of a `FILE` that is about output; `write_buffer` is `NULL` where the size is zero. -/
structure Output where
  descriptor : Descriptor
  /-- `_IO_WRITE`. -/
  writable : Bool
  /-- `_IO_ERROR`. -/
  error : Bool
  bufferSize : Nat
  /-- The used part of `write_buffer`. -/
  buffered : List UInt8
  buffering : Buffering
  /-- All the bytes the stream has taken over from its callers. -/
  accepted : List UInt8

/-- `kernel_fd_write`: the count it reports, or an error. -/
def kernelFdWrite (d : Descriptor) (bytes : List UInt8) : Option Nat × Descriptor :=
  match d.answers 0 with
  | .error => (none, { d with answers := fun i => d.answers (i + 1) })
  | .takes n =>
    (some (min n bytes.length),
      { answers := fun i => d.answers (i + 1), taken := d.taken ++ bytes.take n })

/-- The loop around `kernel_fd_write`: how many bytes were written before it failed, or all. -/
def writeAll : Nat → Descriptor → List UInt8 → Option (Nat × Descriptor)
  | _, d, [] => some (0, d)
  | 0, _, _ :: _ => none
  | fuel + 1, d, b :: bytes =>
    match kernelFdWrite d (b :: bytes) with
    | (none, d) => some (0, d)
    | (some written, d) =>
      if written = 0 then some (0, d)
      else (writeAll fuel d ((b :: bytes).drop written)).map fun (n, d) => (written + n, d)

/-- `fflush`. -/
def fflush (o : Output) : Option (Int × Output) :=
  if o.writable = false then some (eof, { o with error := true })
  else if o.buffered = [] then some (0, o)
  else (writeAll o.buffered.length o.descriptor o.buffered).map fun (n, descriptor) =>
    if n < o.buffered.length then (eof, { o with descriptor, error := true })
    else (0, { o with descriptor, buffered := [] })

/-- More bytes in `write_buffer`. -/
def Output.put (o : Output) (bytes : List UInt8) : Output :=
  { o with buffered := o.buffered ++ bytes, accepted := o.accepted ++ bytes }

/-- A round of the loop of `fwrite`, when there is room in the buffer; `fill` are the rounds after
it. -/
def fillRoom (fill : Output → List UInt8 → Option (Nat × Output)) (o : Output) (c : UInt8)
    (rest : List UInt8) : Option (Nat × Output) :=
  if o.buffering = .line then
    let o := o.put [c]
    (if c = 10 ∨ o.buffered.length = o.bufferSize then fflush o
      else some (0, o)).bind fun (status, o) =>
    if status = eof then some (1, o)
    else (fill o rest).map fun (n, o) => (1 + n, o)
  else
    let chunk := min (c :: rest).length (o.bufferSize - o.buffered.length)
    (fill (o.put ((c :: rest).take chunk)) ((c :: rest).drop chunk)).map fun (n, o) =>
      (chunk + n, o)

/-- The loop of `fwrite` on a buffered stream: `consumed`, at the end or when a flush fails. -/
def fillBuffer : Nat → Output → List UInt8 → Option (Nat × Output)
  | _, o, [] => some (0, o)
  | 0, _, _ :: _ => none
  | fuel + 1, o, c :: rest =>
    (if o.bufferSize - o.buffered.length = 0 then fflush o else some (0, o)).bind fun (status, o) =>
    if status = eof then some (0, o) else fillRoom (fillBuffer fuel) o c rest

/-- What lies at `ptr`. -/
def argument (size nmemb : Nat) : Option (Nat → UInt8) → List UInt8
  | none => []
  | some data => (List.range (size * nmemb)).map data

/-- `fwrite`; `data` is the memory from `ptr` on, unless that is NULL. -/
def fwrite (o : Output) (size nmemb : Nat) (data : Option (Nat → UInt8)) :
    Option (Nat × Output) :=
  if size = 0 ∨ nmemb = 0 then some (0, o)
  else if data.isNone then some (0, { o with error := true })
  else if o.writable = false then some (0, { o with error := true })
  else if (2 ^ 32 - 1) / size < nmemb then some (0, { o with error := true })
  else
    let bytes := argument size nmemb data
    if o.bufferSize ≠ 0 then
      (fillBuffer bytes.length o bytes).map fun (consumed, o) =>
        (if consumed < bytes.length then consumed / size else nmemb, o)
    else
      (writeAll bytes.length o.descriptor bytes).map fun (consumed, descriptor) =>
        (if consumed < bytes.length then consumed / size else nmemb,
          { o with
            descriptor
            accepted := o.accepted ++ bytes.take consumed
            error := o.error || consumed < bytes.length })

/-- `fputc`. -/
def fputc (o : Output) (ic : Int) : Option (Int × Output) :=
  if o.writable = false then some (eof, { o with error := true })
  else (fwrite o 1 1 (some fun _ => UInt8.ofInt ic)).map fun (count, o) =>
    if count ≠ 1 then (eof, { o with error := true }) else ((UInt8.ofInt ic).toNat, o)

inductive Call where
  | fwrite (size nmemb : Nat) (data : Option (Nat → UInt8))
  | fputc (ic : Int)
  | fflush

def call (o : Output) : Call → Option (Int × Output)
  | .fwrite size nmemb data => (fwrite o size nmemb data).map fun (count, o) => (count, o)
  | .fputc ic => fputc o ic
  | .fflush => fflush o

def step (o : Output) (c : Call) : Option Output := (call o c).map Prod.snd

/-! ## Delivery -/

/-- What has been taken over and not written yet is in the buffer. -/
def Delivered (o : Output) : Prop := o.descriptor.taken ++ o.buffered = o.accepted

/-- What a call says of the bytes it has taken over. -/
def Reports (o : Output) (result : Int) (o' : Output) : Call → Prop
  | .fwrite size nmemb data => ∃ consumed ≤ (argument size nmemb data).length,
      o'.accepted = o.accepted ++ (argument size nmemb data).take consumed ∧
        result = (consumed / size : Nat)
  | .fputc ic =>
      (result = (UInt8.ofInt ic).toNat ∧ o'.accepted = o.accepted ++ [UInt8.ofInt ic]) ∨
        (result = eof ∧ o'.accepted = o.accepted)
  | .fflush => o'.accepted = o.accepted ∧ (result = 0 → o'.descriptor.taken = o'.accepted)

/-- The call returns and says what it has done, and what is not written yet is in the buffer. -/
def Delivers (o : Output) (c : Call) : Prop :=
  ∃ result o', call o c = some (result, o') ∧ Reports o result o' c ∧ Delivered o'

/-! ## When nothing is written twice -/

/-- How many of `count` bytes the descriptor takes before it fails, and its answers after that. -/
def takes : Nat → (Nat → Answer) → Nat → Nat × (Nat → Answer)
  | 0, answers, _ => (0, answers)
  | fuel + 1, answers, count =>
    if count = 0 then (0, answers)
    else match answers 0 with
      | .error => (0, fun i => answers (i + 1))
      | .takes n =>
        if min n count = 0 then (0, fun i => answers (i + 1))
        else
          let (m, answers) := takes fuel (fun i => answers (i + 1)) (count - min n count)
          (min n count + m, answers)

/-- Of buffers of these sizes, written out one after the other, the first that the descriptor does
not take whole it does not take at all. -/
def Unbroken : (Nat → Answer) → List Nat → Prop
  | _, [] => True
  | answers, size :: sizes =>
    (takes size answers size).1 = 0 ∨
      ((takes size answers size).1 = size ∧ Unbroken (takes size answers size).2 sizes)

/-- The sizes that the buffer has each time it is written out, while bytes are added to `used`
others. -/
def flushSizes (buffering : Buffering) (bufferSize : Nat) : Nat → List UInt8 → List Nat
  | _, [] => []
  | used, c :: rest =>
    let room := if used = bufferSize then 0 else used
    (if used = bufferSize then [bufferSize] else []) ++
      if buffering = .line ∧ (c = 10 ∨ room + 1 = bufferSize) then
        (room + 1) :: flushSizes buffering bufferSize 0 rest
      else flushSizes buffering bufferSize (room + 1) rest

/-- The sizes at which a call writes the buffer out. -/
def Output.flushes (o : Output) : Call → List Nat
  | .fwrite size nmemb data =>
    if o.writable = false ∨ (2 ^ 32 - 1) / size < nmemb ∨ o.bufferSize = 0 then []
    else flushSizes o.buffering o.bufferSize o.buffered.length (argument size nmemb data)
  | .fputc ic =>
    if o.writable = false ∨ o.bufferSize = 0 then []
    else flushSizes o.buffering o.bufferSize o.buffered.length [UInt8.ofInt ic]
  | .fflush => if o.writable = false ∨ o.buffered = [] then [] else [o.buffered.length]

/-- No flush of the call fails between two parts of the buffer. -/
def Clean (o : Output) (c : Call) : Prop := Unbroken o.descriptor.answers (o.flushes c)

variable {o o' o₁ : Output} {d : Descriptor} {bytes data rest : List UInt8} {fuel : Nat}

/-! ## Writing out -/

/-- The loop writes what the descriptor takes. -/
theorem writeAll_eq (hfuel : bytes.length ≤ fuel) :
    (takes fuel d.answers bytes.length).1 ≤ bytes.length ∧
    writeAll fuel d bytes = some ((takes fuel d.answers bytes.length).1,
      { answers := (takes fuel d.answers bytes.length).2
        taken := d.taken ++ bytes.take (takes fuel d.answers bytes.length).1 }) := by
  induction fuel generalizing d bytes with
  | zero =>
    obtain rfl := eq_nil_of_length_eq_zero (Nat.le_zero.mp hfuel)
    simp [takes, writeAll]
  | succ fuel ih =>
    cases bytes with
    | nil => simp [takes, writeAll]
    | cons b bytes =>
      rw [length_cons] at hfuel
      rw [writeAll, kernelFdWrite, takes, if_neg (by simp)]
      cases hanswer : d.answers 0 with
      | error => simp
      | takes n =>
        dsimp only
        by_cases hzero : min n (b :: bytes).length = 0
        · have hn : n = 0 := by
            rw [length_cons] at hzero
            omega
          rw [if_pos hzero, if_pos hzero, hn]
          simp
        · rw [if_neg hzero, if_neg hzero]
          have hdropped : ((b :: bytes).drop (min n (b :: bytes).length)).length ≤ fuel := by
            rw [length_drop, length_cons] at *
            omega
          obtain ⟨hle, hrest⟩ := ih
            (d := ⟨fun i => d.answers (i + 1), d.taken ++ (b :: bytes).take n⟩) hdropped
          rw [length_drop] at hle hrest
          rw [hrest]
          generalize takes fuel _ _ = t at hle ⊢
          have htake : (b :: bytes).take n = (b :: bytes).take (min n (b :: bytes).length) := by
            rw [take_eq_take_min]
          refine ⟨by dsimp only; omega, ?_⟩
          simp only [map_some, some.injEq, Prod.mk.injEq, true_and]
          rw [htake, append_assoc, ← take_add]

theorem put_buffered (o : Output) (bytes : List UInt8) :
    (o.put bytes).buffered = o.buffered ++ bytes := rfl

theorem Delivered.put (h : Delivered o) (bytes : List UInt8) : Delivered (o.put bytes) := by
  show o.descriptor.taken ++ (o.buffered ++ bytes) = o.accepted ++ bytes
  rw [← append_assoc, h]

/-- After `fflush` of a buffer of which the descriptor takes `n` bytes. -/
def Output.flushed (o : Output) (n : Nat) (answers : Nat → Answer) : Output :=
  if n < o.buffered.length then
    { o with descriptor := ⟨answers, o.descriptor.taken ++ o.buffered.take n⟩, error := true }
  else { o with descriptor := ⟨answers, o.descriptor.taken ++ o.buffered⟩, buffered := [] }

theorem fflush_eq (hw : o.writable = true) (hne : o.buffered ≠ []) :
    ∃ n answers, takes o.buffered.length o.descriptor.answers o.buffered.length = (n, answers) ∧
      n ≤ o.buffered.length ∧
      fflush o = some (if n < o.buffered.length then eof else 0, o.flushed n answers) := by
  obtain ⟨hle, hwrite⟩ := writeAll_eq (d := o.descriptor) (Nat.le_refl o.buffered.length)
  refine ⟨_, _, rfl, hle, ?_⟩
  rw [fflush, if_neg (by simp [hw]), if_neg hne, hwrite, Output.flushed]
  generalize takes _ _ _ = t at hle ⊢
  by_cases hlt : t.1 < o.buffered.length
  · simp [hlt]
  · have hall : t.1 = o.buffered.length := by omega
    simp [hall]

theorem zero_ne_eof : (0 : Int) ≠ eof := by decide

/-- After a flush the rest is in the buffer, unless it failed in the middle. -/
theorem Delivered.flushed_iff (h : Delivered o) (n : Nat) (answers : Nat → Answer) :
    Delivered (o.flushed n answers) ↔ n = 0 ∨ o.buffered.length ≤ n := by
  rw [Output.flushed]
  split
  case isTrue hlt =>
    constructor
    · intro hdelivered
      change o.descriptor.taken ++ o.buffered.take n ++ o.buffered = o.accepted at hdelivered
      rw [← h, append_left_inj] at hdelivered
      have hlength := congrArg List.length hdelivered
      rw [length_append, length_take] at hlength
      omega
    · intro hor
      obtain rfl : n = 0 := by omega
      change o.descriptor.taken ++ o.buffered.take 0 ++ o.buffered = o.accepted
      rw [take_zero, append_nil]
      exact h
  case isFalse hge =>
    refine iff_of_true ?_ (.inr (Nat.le_of_not_lt hge))
    change o.descriptor.taken ++ o.buffered ++ [] = o.accepted
    rw [append_nil]
    exact h

/-- A stream whose buffer is used as it should be. -/
structure Fillable (o : Output) : Prop where
  writable : o.writable = true
  pos : 0 < o.bufferSize
  room : o.buffered.length ≤ o.bufferSize
  delivered : Delivered o

/-- The stream after `consumed` bytes of `data`; `sizes` are those at which the buffer is written
out on the way. -/
structure Filled (o : Output) (data : List UInt8) (sizes : List Nat) (consumed : Nat)
    (o' : Output) : Prop where
  le : consumed ≤ data.length
  accepted : o'.accepted = o.accepted ++ data.take consumed
  room : o'.buffered.length ≤ o'.bufferSize
  delivered : Delivered o' ↔ Unbroken o.descriptor.answers sizes

theorem Filled.prepend {chunk : List UInt8} {sizes sizes1 : List Nat} {n : Nat}
    (h : Filled o₁ rest sizes1 n o') (haccepted : o₁.accepted = o.accepted ++ chunk)
    (hsizes : Unbroken o₁.descriptor.answers sizes1 ↔ Unbroken o.descriptor.answers sizes) :
    Filled o (chunk ++ rest) sizes (chunk.length + n) o' := by
  refine ⟨?_, ?_, h.room, h.delivered.trans hsizes⟩
  · rw [length_append]
    exact Nat.add_le_add_left h.le _
  · rw [h.accepted, haccepted, take_length_add_append, append_assoc]

/-- A flush in the loop: it ends the loop, or the loop goes on with an empty buffer. -/
theorem Fillable.flush (h : Fillable o) (hne : o.buffered ≠ []) (sizes : List Nat) :
    (∃ o₁, fflush o = some (eof, o₁) ∧ o₁.accepted = o.accepted ∧
      o₁.buffered.length ≤ o₁.bufferSize ∧
      (Delivered o₁ ↔ Unbroken o.descriptor.answers (o.buffered.length :: sizes))) ∨
    (∃ o₁, fflush o = some (0, o₁) ∧ Fillable o₁ ∧ o₁.accepted = o.accepted ∧
      o₁.buffered = [] ∧ o₁.bufferSize = o.bufferSize ∧ o₁.buffering = o.buffering ∧
      (Unbroken o₁.descriptor.answers sizes ↔
        Unbroken o.descriptor.answers (o.buffered.length :: sizes))) := by
  obtain ⟨n, answers, htakes, hle, hflush⟩ := fflush_eq h.writable hne
  have hpos : 0 < o.buffered.length := length_pos_of_ne_nil hne
  have hiff := h.delivered.flushed_iff n answers
  rw [Unbroken, htakes, hflush]
  dsimp only
  by_cases hlt : n < o.buffered.length
  · refine .inl ⟨_, by rw [if_pos hlt], ?_, ?_, ?_⟩
    · rw [Output.flushed, if_pos hlt]
    · rw [Output.flushed, if_pos hlt]
      exact h.room
    · rw [hiff]
      constructor
      · intro hor
        exact .inl (by omega)
      · intro hor
        exact .inl (by omega)
  · have hall : n = o.buffered.length := by omega
    refine .inr ⟨_, by rw [if_neg hlt], ?_⟩
    have hdelivered := hiff.mpr (.inr (Nat.le_of_eq hall.symm))
    rw [Output.flushed, if_neg hlt] at hdelivered ⊢
    refine ⟨⟨h.writable, h.pos, Nat.zero_le _, hdelivered⟩, rfl, rfl, rfl, rfl, ?_⟩
    constructor
    · intro hrest
      exact .inr ⟨hall, hrest⟩
    · intro hor
      rcases hor with hzero | ⟨-, hrest⟩
      · omega
      · exact hrest

/-- Bytes that leave room in a fully buffered stream. -/
theorem flushSizes_chunk {buffering : Buffering} (hline : buffering ≠ .line) {bufferSize : Nat}
    (chunk rest : List UInt8) {used : Nat} (hroom : used + chunk.length ≤ bufferSize) :
    flushSizes buffering bufferSize used (chunk ++ rest) =
      flushSizes buffering bufferSize (used + chunk.length) rest := by
  induction chunk generalizing used with
  | nil => rfl
  | cons c chunk ih =>
    rw [length_cons] at hroom ⊢
    have hne : used ≠ bufferSize := by omega
    rw [cons_append, flushSizes]
    simp only [hne, hline, if_false, false_and, nil_append]
    rw [ih (by omega)]
    congr 1
    omega

section Rounds

variable {fill : Output → List UInt8 → Option (Nat × Output)}
  (hfill : ∀ {o data}, Fillable o → data.length ≤ fuel → ∃ n o', fill o data = some (n, o') ∧
    Filled o data (flushSizes o.buffering o.bufferSize o.buffered.length data) n o')
include hfill

/-- A round of the loop, by what is known of the later rounds. -/
theorem fillRoom_spec (h : Fillable o) (hroom : o.buffered.length < o.bufferSize) (c : UInt8)
    (hfuel : rest.length ≤ fuel) :
    ∃ n o', fillRoom fill o c rest = some (n, o') ∧
      Filled o (c :: rest) (flushSizes o.buffering o.bufferSize o.buffered.length (c :: rest))
        n o' := by
  have hne : o.buffered.length ≠ o.bufferSize := Nat.ne_of_lt hroom
  rw [fillRoom]
  by_cases hline : o.buffering = .line
  · have hput : Fillable (o.put [c]) := by
      refine ⟨h.writable, h.pos, ?_, h.delivered.put [c]⟩
      rw [put_buffered, length_append, length_singleton]
      exact hroom
    have hlength : (o.put [c]).buffered.length = o.buffered.length + 1 := by
      rw [put_buffered, length_append, length_singleton]
    rw [if_pos hline, flushSizes]
    simp only [hne, hline, if_false, nil_append, true_and]
    rw [hlength]
    have haccepted : (o.put [c]).accepted = o.accepted ++ [c] := rfl
    by_cases hnow : c = 10 ∨ o.buffered.length + 1 = o.bufferSize
    · -- the buffer is written out behind the byte
      rw [if_pos hnow, if_pos (show c = 10 ∨ _ = (o.put [c]).bufferSize from hnow)]
      have hne' : (o.put [c]).buffered ≠ [] := by
        rw [put_buffered]
        simp
      rcases hput.flush hne' (flushSizes .line o.bufferSize 0 rest) with
        ⟨o1, hflush, hacc1, hroom1, hdelivered⟩ |
        ⟨o1, hflush, hfill1, hacc1, hempty, hsize, hmode, hsizes⟩
      · rw [hflush, bind_some, if_pos rfl]
        rw [hlength] at hdelivered
        refine ⟨1, o1, rfl, Nat.succ_pos _, ?_, hroom1, hdelivered⟩
        rw [hacc1, haccepted]
        rfl
      · obtain ⟨n, o', hrest, hfilled⟩ := hfill hfill1 hfuel
        rw [hflush, bind_some, if_neg zero_ne_eof, hrest]
        have hmode' : o1.buffering = .line := hmode.trans hline
        rw [hempty, hsize, hmode', length_nil] at hfilled
        rw [hlength] at hsizes
        exact ⟨_, o', rfl, hfilled.prepend (hacc1.trans haccepted) hsizes⟩
    · rw [if_neg hnow, if_neg (show ¬(c = 10 ∨ _ = (o.put [c]).bufferSize) from hnow),
        bind_some, if_neg zero_ne_eof]
      obtain ⟨n, o', hrest, hfilled⟩ := hfill hput hfuel
      rw [hrest]
      rw [hlength, show (o.put [c]).buffering = .line from hline] at hfilled
      exact ⟨_, o', rfl, hfilled.prepend haccepted Iff.rfl⟩
  · -- as many bytes as there is room for
    rw [if_neg hline]
    dsimp only
    generalize hchunk : min (c :: rest).length (o.bufferSize - o.buffered.length) = chunk
    have htake : ((c :: rest).take chunk).length = chunk := by
      rw [length_take]
      omega
    have hlength : (o.put ((c :: rest).take chunk)).buffered.length = o.buffered.length + chunk := by
      rw [put_buffered, length_append, htake]
    have hput : Fillable (o.put ((c :: rest).take chunk)) := by
      refine ⟨h.writable, h.pos, ?_, h.delivered.put _⟩
      rw [hlength]
      show _ ≤ o.bufferSize
      omega
    have hdrop : ((c :: rest).drop chunk).length ≤ fuel := by
      rw [length_cons] at hchunk
      rw [length_drop, length_cons]
      omega
    obtain ⟨n, o', hrest, hfilled⟩ := hfill hput hdrop
    rw [hrest]
    refine ⟨_, o', rfl, ?_⟩
    have hfits : o.buffered.length + ((c :: rest).take chunk).length ≤ o.bufferSize := by omega
    have hsizes := flushSizes_chunk hline ((c :: rest).take chunk) ((c :: rest).drop chunk) hfits
    rw [take_append_drop, htake] at hsizes
    rw [hlength] at hfilled
    have haccepted : (o.put ((c :: rest).take chunk)).accepted =
        o.accepted ++ (c :: rest).take chunk := rfl
    have hwhole := hfilled.prepend (o := o) haccepted Iff.rfl
    rw [take_append_drop, htake] at hwhole
    rw [hsizes]
    exact hwhole

end Rounds

/-- A full buffer is written out in front of the next byte. -/
theorem flushSizes_full (buffering : Buffering) {bufferSize : Nat} (hpos : 0 < bufferSize)
    (c : UInt8) (rest : List UInt8) : flushSizes buffering bufferSize bufferSize (c :: rest) =
      bufferSize :: flushSizes buffering bufferSize 0 (c :: rest) := by
  have hne : 0 ≠ bufferSize := Nat.ne_of_lt hpos
  rw [flushSizes, flushSizes]
  simp only [hne, if_true, if_false, singleton_append, nil_append]

theorem fillBuffer_spec (h : Fillable o) (hfuel : data.length ≤ fuel) :
    ∃ n o', fillBuffer fuel o data = some (n, o') ∧
      Filled o data (flushSizes o.buffering o.bufferSize o.buffered.length data) n o' := by
  induction fuel generalizing o data with
  | zero =>
    obtain rfl := eq_nil_of_length_eq_zero (Nat.le_zero.mp hfuel)
    exact ⟨0, o, rfl, Nat.le_refl 0, (append_nil _).symm, h.room, iff_of_true h.delivered trivial⟩
  | succ fuel ih =>
    cases data with
    | nil =>
      exact ⟨0, o, rfl, Nat.le_refl 0, (append_nil _).symm, h.room, iff_of_true h.delivered trivial⟩
    | cons c rest =>
      have hrest : rest.length ≤ fuel := Nat.le_of_succ_le_succ hfuel
      have hpos := h.pos
      have hle := h.room
      rw [fillBuffer]
      by_cases hfull : o.buffered.length = o.bufferSize
      · have hne : o.buffered ≠ [] := by
          intro hnil
          rw [hnil, length_nil] at hfull
          omega
        rw [if_pos (by omega), hfull, flushSizes_full o.buffering hpos]
        rcases h.flush hne (flushSizes o.buffering o.bufferSize 0 (c :: rest)) with
          ⟨o1, hflush, haccepted, hroom, hdelivered⟩ |
          ⟨o1, hflush, hfill, haccepted, hempty, hsize, hmode, hsizes⟩
        · rw [hflush, bind_some]
          dsimp only
          rw [if_pos rfl]
          rw [hfull] at hdelivered
          exact ⟨0, o1, rfl, Nat.zero_le _, haccepted.trans (append_nil _).symm, hroom, hdelivered⟩
        · have hroom : o1.buffered.length < o1.bufferSize := by
            rw [hempty, hsize]
            exact hpos
          obtain ⟨n, o', hround, hfilled⟩ := fillRoom_spec ih hfill hroom c hrest
          rw [hflush, bind_some]
          dsimp only
          rw [if_neg zero_ne_eof, hround]
          rw [hempty, hsize, hmode, length_nil] at hfilled
          rw [hfull] at hsizes
          have hnone : o1.accepted = o.accepted ++ [] := by
            rw [haccepted, append_nil]
          have hwhole := hfilled.prepend hnone hsizes
          rw [nil_append, length_nil, Nat.zero_add] at hwhole
          exact ⟨n, o', rfl, hwhole⟩
      · rw [if_neg (by omega), bind_some]
        dsimp only
        rw [if_neg zero_ne_eof]
        exact fillRoom_spec ih h (by omega) c hrest

/-! ## One call -/

/-- Between two calls. -/
structure Inv (o : Output) : Prop where
  room : o.buffered.length ≤ o.bufferSize
  delivered : Delivered o

/-- The outcome of a call. -/
def Spec (o : Output) (c : Call) : Prop :=
  ∃ result o', call o c = some (result, o') ∧ Reports o result o' c ∧
    o'.buffered.length ≤ o'.bufferSize ∧ (Delivered o' ↔ Clean o c)

theorem argument_length (size nmemb : Nat) {data : Option (Nat → UInt8)} (h : ¬data.isNone) :
    (argument size nmemb data).length = size * nmemb := by
  cases data with
  | none => exact absurd rfl h
  | some data => rw [argument, length_map, length_range]

/-- A call that takes nothing over. -/
theorem Inv.refused (h : Inv o) {size nmemb : Nat} {data : Option (Nat → UInt8)}
    (hflushes : o.flushes (.fwrite size nmemb data) = []) (ho : o' = o ∨ o' = { o with error := true })
    (hcall : fwrite o size nmemb data = some (0, o')) : Spec o (.fwrite size nmemb data) := by
  have hsame : o'.accepted = o.accepted ∧ o'.buffered.length ≤ o'.bufferSize ∧ Delivered o' := by
    rcases ho with rfl | rfl
    · exact ⟨rfl, h.room, h.delivered⟩
    · exact ⟨rfl, h.room, h.delivered⟩
  refine ⟨0, o', by rw [call, hcall]; rfl, ⟨0, Nat.zero_le _, ?_, by simp⟩, hsame.2.1, ?_⟩
  · rw [take_zero, append_nil]
    exact hsame.1
  · rw [Clean, hflushes]
    exact iff_of_true hsame.2.2 trivial

theorem Inv.fwrite (h : Inv o) (size nmemb : Nat) (data : Option (Nat → UInt8)) :
    Spec o (.fwrite size nmemb data) := by
  have hnone (hnil : argument size nmemb data = []) : o.flushes (.fwrite size nmemb data) = [] := by
    rw [Output.flushes, hnil, flushSizes, ite_self]
  by_cases hnull : data.isNone
  · have hnil : argument size nmemb data = [] := Option.isNone_iff_eq_none.mp hnull ▸ rfl
    by_cases hzero : size = 0 ∨ nmemb = 0
    · exact h.refused (hnone hnil) (.inl rfl) (if_pos hzero)
    · refine h.refused (hnone hnil) (.inr rfl) ?_
      rw [Delivery.fwrite, if_neg hzero, if_pos hnull]
  have hlength := argument_length size nmemb hnull
  by_cases hzero : size = 0 ∨ nmemb = 0
  · refine h.refused (hnone (eq_nil_of_length_eq_zero ?_)) (.inl rfl) (if_pos hzero)
    exact hlength.trans (Nat.mul_eq_zero.mpr hzero)
  by_cases hw : o.writable = false
  · refine h.refused (if_pos (.inl hw)) (.inr rfl) ?_
    rw [Delivery.fwrite, if_neg hzero, if_neg hnull, if_pos hw]
  by_cases hover : (2 ^ 32 - 1) / size < nmemb
  · refine h.refused (if_pos (.inr (.inl hover))) (.inr rfl) ?_
    rw [Delivery.fwrite, if_neg hzero, if_neg hnull, if_neg hw, if_pos hover]
  have hcount : ∀ consumed ≤ (argument size nmemb data).length,
      (if consumed < (argument size nmemb data).length then consumed / size else nmemb) =
        consumed / size := by
    intro consumed hle
    split
    · rfl
    · have hall : consumed = size * nmemb := by omega
      rw [hall, Nat.mul_div_cancel_left nmemb (by omega)]
  by_cases hbuffer : o.bufferSize = 0
  · -- the bytes go to the descriptor at once
    have hempty : o.buffered = [] := by
      apply eq_nil_of_length_eq_zero
      have hroom := h.room
      omega
    obtain ⟨hle, hwrite⟩ := writeAll_eq (d := o.descriptor)
      (Nat.le_refl (argument size nmemb data).length)
    have hdelivered := h.delivered
    rw [Delivered, hempty, append_nil] at hdelivered
    have hflushes : o.flushes (.fwrite size nmemb data) = [] := if_pos (.inr (.inr hbuffer))
    rw [Spec, call, Delivery.fwrite, if_neg hzero, if_neg hnull, if_neg hw, if_neg hover,
      if_neg (not_not.mpr hbuffer), hwrite, Clean, hflushes]
    generalize takes _ _ _ = t at hle ⊢
    have hresult := hcount t.1 hle
    refine ⟨_, _, rfl, ⟨t.1, hle, rfl, congrArg Nat.cast hresult⟩, h.room, iff_of_true ?_ trivial⟩
    show o.descriptor.taken ++ (argument size nmemb data).take t.1 ++ o.buffered =
      o.accepted ++ (argument size nmemb data).take t.1
    rw [hempty, append_nil, hdelivered]
  · have hfill : Fillable o :=
      ⟨by simpa using hw, Nat.pos_of_ne_zero hbuffer, h.room, h.delivered⟩
    obtain ⟨consumed, o', hloop, hfilled⟩ :=
      fillBuffer_spec hfill (Nat.le_refl (argument size nmemb data).length)
    have hflushes : o.flushes (.fwrite size nmemb data) =
        flushSizes o.buffering o.bufferSize o.buffered.length (argument size nmemb data) := by
      apply if_neg
      rintro (hnot | hnot | hnot)
      exacts [hw hnot, hover hnot, hbuffer hnot]
    rw [Spec, call, Delivery.fwrite, if_neg hzero, if_neg hnull, if_neg hw, if_neg hover,
      if_pos hbuffer, hloop, Clean, hflushes]
    refine ⟨_, o', rfl, ⟨consumed, hfilled.le, hfilled.accepted, ?_⟩, hfilled.room,
      hfilled.delivered⟩
    rw [hcount consumed hfilled.le]

theorem Inv.fputc (h : Inv o) (ic : Int) : Spec o (.fputc ic) := by
  by_cases hw : o.writable = false
  · refine ⟨eof, { o with error := true }, if_pos hw, .inr ⟨rfl, rfl⟩, h.room, ?_⟩
    have hflushes : o.flushes (.fputc ic) = [] := if_pos (.inl hw)
    rw [Clean, hflushes]
    exact iff_of_true h.delivered trivial
  · obtain ⟨result, o', hcall, ⟨consumed, hle, haccepted, rfl⟩, hroom, hdelivered⟩ :=
      h.fwrite 1 1 (some fun _ => UInt8.ofInt ic)
    have hargument : argument 1 1 (some fun _ => UInt8.ofInt ic) = [UInt8.ofInt ic] := rfl
    have hflushes : o.flushes (.fputc ic) =
        o.flushes (.fwrite 1 1 (some fun _ => UInt8.ofInt ic)) := by
      simp [Output.flushes, hargument]
    rw [hargument] at hle haccepted
    rw [Clean, ← hflushes] at hdelivered
    obtain ⟨⟨count, o1⟩, hwrite, hpair⟩ := map_eq_some_iff.mp hcall
    obtain ⟨hcount, rfl⟩ := Prod.mk.inj hpair
    obtain rfl : count = consumed := by
      rw [Nat.div_one] at hcount
      exact Int.ofNat.inj hcount
    rw [Spec, call, Delivery.fputc, if_neg hw, hwrite, map_some]
    rw [length_singleton] at hle
    rcases Nat.le_one_iff_eq_zero_or_eq_one.mp hle with rfl | rfl
    · refine ⟨_, _, rfl, .inr ⟨rfl, ?_⟩, hroom, hdelivered⟩
      rwa [take_zero, append_nil] at haccepted
    · exact ⟨_, _, rfl, .inl ⟨rfl, haccepted⟩, hroom, hdelivered⟩

theorem Inv.fflush (h : Inv o) : Spec o .fflush := by
  by_cases hw : o.writable = false
  · have hflushes : o.flushes .fflush = [] := if_pos (.inl hw)
    refine ⟨eof, { o with error := true }, if_pos hw, ⟨rfl, nofun⟩, h.room, ?_⟩
    rw [Clean, hflushes]
    exact iff_of_true h.delivered trivial
  by_cases hempty : o.buffered = []
  · have hflushes : o.flushes .fflush = [] := if_pos (.inr hempty)
    refine ⟨0, o, ?_, ⟨rfl, fun _ => ?_⟩, h.room, ?_⟩
    · rw [call, Delivery.fflush, if_neg hw, if_pos hempty]
    · have hdelivered := h.delivered
      rwa [Delivered, hempty, append_nil] at hdelivered
    · rw [Clean, hflushes]
      exact iff_of_true h.delivered trivial
  · have hflushes : o.flushes .fflush = [o.buffered.length] := if_neg (by simp [hw, hempty])
    obtain ⟨n, answers, htakes, hle, hflush⟩ := fflush_eq (by simpa using hw) hempty
    have hiff := h.delivered.flushed_iff n answers
    refine ⟨_, _, hflush, ⟨?_, ?_⟩, ?_, ?_⟩
    · rw [Output.flushed]
      split <;> rfl
    · intro hzero
      have hall : ¬n < o.buffered.length := by
        intro hlt
        rw [if_pos hlt] at hzero
        cases hzero
      have hdelivered := hiff.mpr (.inr (Nat.le_of_not_lt hall))
      rw [Output.flushed, if_neg hall] at hdelivered ⊢
      rwa [Delivered, append_nil] at hdelivered
    · rw [Output.flushed]
      split
      · exact h.room
      · exact Nat.zero_le _
    · rw [hiff, Clean, hflushes, Unbroken, Unbroken, htakes]
      constructor
      · intro hor
        exact hor.imp id fun hge => ⟨Nat.le_antisymm hle hge, trivial⟩
      · intro hor
        exact hor.imp id fun hall => Nat.le_of_eq hall.1.symm

theorem Inv.call (h : Inv o) (c : Call) : Spec o c := by
  cases c with
  | fwrite size nmemb data => exact h.fwrite size nmemb data
  | fputc ic => exact h.fputc ic
  | fflush => exact h.fflush

/-- Nothing goes wrong in a call exactly if no flush of it fails between two parts of the buffer. -/
theorem Inv.delivers_iff (h : Inv o) (c : Call) : Delivers o c ↔ Clean o c := by
  obtain ⟨result, o', hcall, hreports, -, hiff⟩ := h.call c
  rw [← hiff]
  constructor
  · intro ⟨_, _, hcall1, _, hdelivered⟩
    obtain ⟨-, rfl⟩ := Prod.mk.inj (some.inj (hcall.symm.trans hcall1))
    exact hdelivered
  · intro hdelivered
    exact ⟨result, o', hcall, hreports, hdelivered⟩

theorem Inv.step (h : Inv o) {c : Call} (hdelivers : Delivers o c) (hs : step o c = some o') :
    Inv o' := by
  obtain ⟨result, o1, hcall, -, hroom, -⟩ := h.call c
  obtain ⟨result2, o2, hcall2, -, hdelivered⟩ := hdelivers
  obtain ⟨-, rfl⟩ := Prod.mk.inj (some.inj (hcall.symm.trans hcall2))
  rw [Delivery.step, hcall] at hs
  obtain rfl := some.inj hs
  exact ⟨hroom, hdelivered⟩

/-! ## Runs -/

/-- A stream that has not been written to. -/
def fresh (answers : Nat → Answer) (writable error : Bool) (bufferSize : Nat)
    (buffering : Buffering) : Output :=
  ⟨⟨answers, []⟩, writable, error, bufferSize, [], buffering, []⟩

theorem fresh_inv (answers : Nat → Answer) (writable error : Bool) (bufferSize : Nat)
    (buffering : Buffering) : Inv (fresh answers writable error bufferSize buffering) :=
  ⟨Nat.zero_le _, rfl⟩

/-- Whatever the descriptor does, a run in which nothing is lost and nothing is written twice is
one in which no flush fails between two parts of the buffer. -/
theorem run_delivered_iff (answers : Nat → Answer) (writable error : Bool) (bufferSize : Nat)
    (buffering : Buffering) (calls : List Call) (o : Output) :
    RunWhere step Delivers (fresh answers writable error bufferSize buffering) calls o ↔
      RunWhere step Clean (fresh answers writable error bufferSize buffering) calls o :=
  RunWhere.congr (I := Inv) (fresh_inv ..) (fun _ _ _ h hok hs => h.step hok hs)
    fun _ c h => h.delivers_iff c

/-- The descriptor takes one of two bytes and then fails; the flush after that writes the first
byte once more. -/
theorem written_twice : ∃ o₁ o₂ o3,
    fputc (fresh (fun i => if i = 1 then .error else .takes (i + 1)) true false 4 .full) 97 =
      some (97, o₁) ∧
    ∃ o', fputc o₁ 98 = some (98, o') ∧ fflush o' = some (eof, o₂) ∧ fflush o₂ = some (0, o3) ∧
      o3.accepted = [97, 98] ∧ o3.descriptor.taken = [97, 97, 98] :=
  ⟨_, _, _, rfl, _, rfl, rfl, rfl, rfl, rfl⟩

end MeatySkeleton.Libc.Delivery
