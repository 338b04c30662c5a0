import MeatySkeleton.Libc.Positioned

/-!
# The write buffer

`Stream.view` is the positioned file a stream stands for: the descriptor's file with the
pending output written, at its offset, less the byte that is pushed back. Writing out the
buffer leaves the view as it is, and output adds to it wherever the bytes go (`Wrote`).
-/

namespace MeatySkeleton.Libc

open List Lib

/-! ## The positioned file of a stream -/

def Positioned.ofFile (file : ByteFile) (readable writable : Bool) : Positioned :=
  ⟨file.contents, file.offset, none, file.append, readable, writable⟩

open Positioned (ofFile)

def Stream.view (s : Stream) : Positioned where
  contents := (s.file.write s.buffered).contents
  position := (s.file.write s.buffered).offset - if s.hasPushback then 1 else 0
  pushed := if s.hasPushback then some (UInt8.ofInt s.pushback) else none
  append := s.file.append
  readable := s.readable
  writable := s.writable

variable {s s' : Stream} {file : ByteFile} {readable writable : Bool}

theorem view_eq_ofFile (h : s.hasPushback = false) :
    s.view = .ofFile (s.file.write s.buffered) s.readable s.writable := by
  rw [Stream.view, ofFile, h, ByteFile.append_write]
  simp

theorem ofFile_putByte (b : UInt8) : (ofFile file readable writable).putByte b =
    .ofFile (file.put b) readable writable := by
  rw [Positioned.putByte, ofFile, ofFile, ByteFile.put]
  simp

theorem ofFile_putBytes (bytes : List UInt8) :
    (ofFile file readable writable).putBytes bytes =
      .ofFile (file.write bytes) readable writable := by
  induction bytes generalizing file with
  | nil => rfl
  | cons b bytes ih =>
    rw [ByteFile.write_cons, ← ih, ← ofFile_putByte]
    rfl

theorem ofFile_getByte : (ofFile file readable writable).getByte =
    file.get.map fun r => (r.1, .ofFile r.2 readable writable) := by
  rw [Positioned.getByte, ByteFile.get, Option.map_map]
  rfl

theorem ofFile_getBytes (n : Nat) : (ofFile file readable writable).getBytes n =
    ((file.read n).1, .ofFile (file.read n).2 readable writable) := by
  induction n generalizing file with
  | zero => rfl
  | succ n ih =>
    rw [Positioned.getBytes, ByteFile.read, ofFile_getByte]
    cases file.get with
    | none => rfl
    | some r =>
      dsimp only [Option.map_some]
      rw [ih]

/-! ## Writing out the buffer -/

/-- The descriptor takes at least one byte of each write. -/
def Accepts (accepts : ByteFile → List UInt8 → Nat) : Prop :=
  ∀ file bytes, bytes ≠ [] → 0 < accepts file bytes ∧ accepts file bytes ≤ bytes.length

variable {accepts : ByteFile → List UInt8 → Nat}

/-- However the descriptor splits a write, all of it is written. -/
theorem writeAll_eq (haccepts : Accepts accepts) {fuel : Nat} {bytes : List UInt8}
    (hfuel : bytes.length ≤ fuel) : writeAll accepts fuel file bytes = some (file.write bytes) := by
  induction fuel generalizing file bytes with
  | zero =>
    obtain rfl := eq_nil_of_length_eq_zero (Nat.le_zero.mp hfuel)
    rfl
  | succ fuel ih =>
    cases bytes with
    | nil => rfl
    | cons b bytes =>
      obtain ⟨hpos, hle⟩ := haccepts file (b :: bytes) nofun
      rw [writeAll, if_neg (Nat.ne_of_gt hpos), ih ?_, ← ByteFile.write_append, take_append_drop]
      rw [length_drop]
      omega

/-- The stream with its buffer written out. -/
def Stream.flushed (s : Stream) : Stream := { s with file := s.file.write s.buffered, buffered := [] }

theorem flushed_view (s : Stream) : s.flushed.view = s.view := by
  rw [Stream.view, Stream.view, Stream.flushed, ByteFile.write_nil, ByteFile.append_write]

theorem flushed_of_nil (h : s.buffered = []) : s.flushed = s := by
  rw [Stream.flushed, h, ByteFile.write_nil, ← h]

/-- `fflush` of a stream that may have output pending only if it is open for writing. -/
theorem fflush_eq (haccepts : Accepts accepts) (h : s.buffered ≠ [] → s.writable = true) :
    fflush accepts s = some (if s.writable then 0 else eof, s.flushed) := by
  rw [fflush]
  by_cases hw : s.writable = true
  · rw [if_neg (by simp [hw]), if_pos hw]
    by_cases hnil : s.buffered = []
    · rw [if_pos hnil, flushed_of_nil hnil]
    · rw [if_neg hnil, writeAll_eq haccepts (Nat.le_refl _)]
      rfl
  · have hnil : s.buffered = [] := by
      by_contra hne
      exact hw (h hne)
    rw [if_pos (by simpa using hw), if_neg hw, flushed_of_nil hnil]

/-- `s'` is `s` after some output, a part of which may be in the buffer. -/
structure Wrote (s : Stream) (data : List UInt8) (s' : Stream) : Prop where
  file : s'.file.write s'.buffered = (s.file.write s.buffered).write data
  room : s'.buffered.length ≤ s'.bufferSize
  same : s' = { s with file := s'.file, buffered := s'.buffered }

theorem Wrote.trans {s₁ : Stream} {data more : List UInt8} (h : Wrote s data s₁)
    (h' : Wrote s₁ more s') : Wrote s (data ++ more) s' where
  file := by rw [h'.file, h.file, ByteFile.write_append]
  room := h'.room
  same := by
    have hsame := h'.same
    rw [h.same] at hsame
    exact hsame

theorem Wrote.flushed {data : List UInt8} (h : Wrote s data s') : Wrote s data s'.flushed where
  file := h.file
  room := Nat.zero_le _
  same := by
    have hsame := h.same
    rw [Stream.flushed, hsame]

theorem Wrote.buffer (data : List UInt8) (h : s.buffered.length + data.length ≤ s.bufferSize) :
    Wrote s data (s.buffer data) where
  file := ByteFile.write_append ..
  room := by rwa [Stream.buffer, length_append]
  same := rfl

theorem Wrote.refl (h : s.buffered.length ≤ s.bufferSize) : Wrote s [] s := ⟨rfl, h, rfl⟩

/-- The loop of `fwrite`: every pass takes at least one byte. -/
theorem fillBuffer_wrote (haccepts : Accepts accepts) {fuel : Nat} {data : List UInt8}
    (hfuel : data.length ≤ fuel) (hw : s.writable = true) (hsize : s.bufferSize ≠ 0)
    (hroom : s.buffered.length ≤ s.bufferSize) :
    ∃ s', fillBuffer accepts fuel s data = some s' ∧ Wrote s data s' := by
  induction fuel generalizing s data with
  | zero =>
    obtain rfl := eq_nil_of_length_eq_zero (Nat.le_zero.mp hfuel)
    exact ⟨s, rfl, .refl hroom⟩
  | succ fuel ih =>
    cases data with
    | nil => exact ⟨s, rfl, .refl hroom⟩
    | cons c rest =>
      -- the buffer with room for a byte
      obtain ⟨s1, hs1, hwrote, hfree⟩ : ∃ s1,
          (if s.bufferSize - s.buffered.length = 0 then (fflush accepts s).map Prod.snd
            else some s) = some s1 ∧ Wrote s [] s1 ∧ s1.buffered.length < s1.bufferSize := by
        by_cases hfull : s.bufferSize - s.buffered.length = 0
        · rw [if_pos hfull, fflush_eq haccepts fun _ => hw]
          exact ⟨_, rfl, (Wrote.refl hroom).flushed, Nat.pos_of_ne_zero hsize⟩
        · rw [if_neg hfull]
          exact ⟨s, rfl, .refl hroom, by omega⟩
      have hw1 : s1.writable = true := by
        rw [hwrote.same]
        exact hw
      have hsize1 : s1.bufferSize ≠ 0 := by omega
      rw [fillBuffer, hs1, Option.bind_some]
      by_cases hline : s1.buffering = .line
      · rw [if_pos hline]
        have hone : Wrote s [c] (s1.buffer [c]) := hwrote.trans (.buffer [c] hfree)
        have hfuel' : rest.length ≤ fuel := Nat.le_of_succ_le_succ hfuel
        dsimp only
        split
        next =>
          rw [fflush_eq haccepts fun _ => show (s1.buffer [c]).writable = true from hw1]
          obtain ⟨s', hs', hrest⟩ :=
            ih (s := (s1.buffer [c]).flushed) hfuel' hw1 hsize1 (Nat.zero_le _)
          exact ⟨s', hs', hone.flushed.trans hrest⟩
        next =>
          obtain ⟨s', hs', hrest⟩ := ih (s := s1.buffer [c]) hfuel' hw1 hsize1 hone.room
          exact ⟨s', hs', hone.trans hrest⟩
      · rw [if_neg hline]
        generalize hchunk : min (c :: rest).length (s1.bufferSize - s1.buffered.length) = chunk
        have hpos : 0 < chunk := by
          rw [length_cons] at hchunk
          omega
        have htake : ((c :: rest).take chunk).length = chunk := by
          rw [length_take]
          omega
        have hpart : Wrote s ((c :: rest).take chunk) (s1.buffer ((c :: rest).take chunk)) :=
          hwrote.trans (.buffer _ (by omega))
        have hfuel' : ((c :: rest).drop chunk).length ≤ fuel := by
          rw [length_drop]
          omega
        obtain ⟨s', hs', hrest⟩ :=
          ih (s := s1.buffer ((c :: rest).take chunk)) hfuel' hw1 hsize1 hpart.room
        refine ⟨s', hs', ?_⟩
        have hall := hpart.trans hrest
        rwa [take_append_drop] at hall

end MeatySkeleton.Libc
