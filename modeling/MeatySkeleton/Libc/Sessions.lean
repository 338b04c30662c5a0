import MeatySkeleton.Libc.Buffering
import MeatySkeleton.Lib.Refinement

/-!
# Streams refine positioned files

Each call on a stream is the same call on the positioned file it stands for, so that no
result shows where the position is kept: in the descriptor, the write buffer or the byte
that is pushed back.

The callers keep the C rule (`Session.Obeys`): between a write and a read lies an `fflush`
or a successful `fseek`, between a read and a write a successful `fseek`. By this rule only
one of the buffer and the pushback is in use (`Session.Inv`).

Two kinds of calls come with a condition (`Stream.Plain`). `ftell` adds the pending output
to the descriptor's offset, but in append mode the output goes to the end of the file.
`ungetc` keeps its argument as it is, and `fgetc` then returns what need not be a byte.
-/

namespace MeatySkeleton.Libc

open Lib
open Positioned (requested settable opened)

/-! ## Callers -/

/-- What a stream was used for since a call that separates. -/
inductive Last where
  | free | reading | writing
  deriving DecidableEq

def Last.after (last : Last) (op : Op) (outcome : Outcome) : Last :=
  match op with
  | .fread .. | .fgetc | .ungetc _ => .reading
  | .fwrite .. | .fputc _ => .writing
  | .fseek .. => if outcome = .value 0 then .free else last
  | .fflush => if last = .writing then .free else last
  | .ftell | .setvbuf .. => last

structure Session where
  stream : Stream
  last : Last

namespace Session

def step (accepts : ByteFile → List UInt8 → Nat) (s : Session) (op : Op) :
    Option (Outcome × Session) :=
  (s.stream.step accepts op).map fun (outcome, stream) =>
    (outcome, ⟨stream, s.last.after op outcome⟩)

/-- The C rule. -/
def Obeys (s : Session) : Op → Prop
  | .fread .. | .fgetc | .ungetc _ => s.last ≠ .writing
  | .fwrite .. | .fputc _ => s.last ≠ .reading
  | _ => True

def view (s : Session) : Positioned := s.stream.view

end Session

/-- The pending output goes where the descriptor is, and the offset behind it fits `size_t`. -/
def Stream.Settled (s : Stream) : Prop :=
  s.buffered = [] ∨
    (s.file.append = true → s.file.offset = s.file.contents.length) ∧
      s.file.offset + s.buffered.length < 2 ^ 32

/-- `ftell` of a settled stream, and `ungetc` of a byte. -/
def Stream.Plain (s : Stream) : Op → Prop
  | .ftell => s.Settled
  | .ungetc c => s.readable = true → s.hasPushback = false → c = eof ∨ 0 ≤ c ∧ c < 256
  | _ => True

structure Session.Inv (s : Session) : Prop where
  room : s.stream.buffered.length ≤ s.stream.bufferSize
  output : s.stream.buffered ≠ [] → s.last = .writing ∧ s.stream.writable = true
  pushback : s.stream.hasPushback = true →
    s.last = .reading ∧ 0 ≤ s.stream.pushback ∧ s.stream.pushback < 256

variable {s : Session} {accepts : ByteFile → List UInt8 → Nat}

theorem Session.Inv.nothing_buffered (h : s.Inv) (hlast : s.last ≠ .writing) :
    s.stream.buffered = [] := by
  by_contra hne
  exact hlast (h.output hne).1

theorem Session.Inv.no_pushback (h : s.Inv) (hlast : s.last ≠ .reading) :
    s.stream.hasPushback = false := by
  by_contra hne
  exact hlast (h.pushback (by simpa using hne)).1

/-- By the C rule. -/
theorem Session.Inv.one_in_use (h : s.Inv) (hp : s.stream.hasPushback = true) :
    s.stream.buffered = [] := by
  refine h.nothing_buffered ?_
  rw [(h.pushback hp).1]
  nofun

theorem Session.Inv.reading {s : Stream} (hbuffered : s.buffered = [])
    (hpushback : s.hasPushback = true → 0 ≤ s.pushback ∧ s.pushback < 256) :
    Session.Inv ⟨s, .reading⟩ where
  room := by
    rw [hbuffered]
    exact Nat.zero_le _
  output := fun hne => absurd hbuffered hne
  pushback := fun hp => ⟨rfl, hpushback hp⟩

/-- What a call has to do: it returns, keeps the invariant and is the call on the view. -/
def Simulated (accepts : ByteFile → List UInt8 → Nat) (s : Session) (op : Op) : Prop :=
  ∃ outcome s', s.step accepts op = some (outcome, s') ∧ s'.Inv ∧ s.view.step op = (outcome, s'.view)

theorem Simulated.intro {op : Op} (outcome : Outcome) (stream : Stream)
    (hstep : s.stream.step accepts op = some (outcome, stream))
    (hinv : Session.Inv ⟨stream, s.last.after op outcome⟩)
    (hview : s.stream.view.step op = (outcome, stream.view)) : Simulated accepts s op := by
  refine ⟨outcome, ⟨stream, s.last.after op outcome⟩, ?_, hinv, hview⟩
  rw [Session.step, hstep]
  rfl

/-! ## Reading -/

section
variable {s : Stream}

section

variable (hbuffered : s.buffered = [])

include hbuffered

/-- A stream that is read has no output pending: it stands for the descriptor's file, or
for that file one byte before. -/
theorem view_file (h : s.hasPushback = false) :
    s.view = .ofFile s.file s.readable s.writable := by
  rw [view_eq_ofFile h, hbuffered, ByteFile.write_nil]

theorem view_consumed (file : ByteFile) :
    { s with file, hasPushback := false }.view = .ofFile file s.readable s.writable :=
  view_file hbuffered rfl

theorem view_getByte (h : s.hasPushback = true) :
    s.view.getByte = some (UInt8.ofInt s.pushback, { s with hasPushback := false }.view) := by
  rw [Stream.view, Stream.view, hbuffered, h]
  simp [Positioned.getByte]

theorem view_getBytes {n : Nat} (hn : 0 < n) :
    s.view.getBytes n = (s.pushed ++ (s.file.read (n - s.pushed.length)).1,
      { s with file := (s.file.read (n - s.pushed.length)).2, hasPushback := false }.view) := by
  rw [view_consumed hbuffered]
  cases hpushback : s.hasPushback with
  | false =>
    rw [view_file hbuffered hpushback, ofFile_getBytes, Stream.pushed, hpushback]
    rfl
  | true =>
    obtain ⟨k, rfl⟩ : ∃ k, n = k + 1 := ⟨n - 1, by omega⟩
    rw [Positioned.getBytes, view_getByte hbuffered hpushback, Stream.pushed, hpushback]
    dsimp only
    rw [view_consumed hbuffered, ofFile_getBytes]
    rfl

end

end

theorem toNat_ofInt {c : Int} (h : 0 ≤ c ∧ c < 256) : ((UInt8.ofInt c).toNat : Int) = c := by
  obtain ⟨n, rfl⟩ := Int.eq_ofNat_of_zero_le h.1
  rw [UInt8.ofInt, UInt8.toNat_ofNat']
  omega

theorem fgetc_simulated (h : s.Inv) (hobeys : s.Obeys .fgetc) : Simulated accepts s .fgetc := by
  obtain ⟨stream, last⟩ := s
  have hbuffered : stream.buffered = [] := h.nothing_buffered hobeys
  by_cases hread : stream.readable = true
  · by_cases hpushback : stream.hasPushback = true
    · have hbyte := (h.pushback hpushback).2
      refine .intro (.value stream.pushback) { stream with hasPushback := false } ?_
        (.reading hbuffered fun h => by cases h) ?_
      · rw [Stream.step, fgetc, if_neg (by simp [hread]), if_pos hpushback]
      · rw [Positioned.step, if_pos (show stream.view.readable = true from hread),
          view_getByte hbuffered hpushback]
        simp only [toNat_ofInt hbyte]
    · have hnone : stream.hasPushback = false := by simpa using hpushback
      have hview := view_file hbuffered hnone
      cases hget : stream.file.get with
      | none =>
        refine .intro (.value eof) stream ?_ (.reading hbuffered fun hp => (h.pushback hp).2) ?_
        · rw [Stream.step, fgetc, if_neg (by simp [hread]), if_neg hpushback, ByteFile.read, hget]
        · rw [Positioned.step, if_pos (show stream.view.readable = true from hread), hview,
            ofFile_getByte, hget]
          rfl
      | some r =>
        obtain ⟨c, file⟩ := r
        refine .intro (.value c.toNat) { stream with file } ?_
          (.reading hbuffered fun hp => absurd hp hpushback) ?_
        · rw [Stream.step, fgetc, if_neg (by simp [hread]), if_neg hpushback, ByteFile.read, hget]
          rfl
        · rw [Positioned.step, if_pos (show stream.view.readable = true from hread), hview,
            ofFile_getByte, hget, view_file (s := { stream with file }) hbuffered hnone]
          rfl
  · refine .intro (.value eof) stream ?_ (.reading hbuffered fun hp => (h.pushback hp).2) ?_
    · rw [Stream.step, fgetc, if_pos (by simpa using hread)]
    · rw [Positioned.step, if_neg (show ¬stream.view.readable = true from hread)]

theorem requested_cases (size nmemb : Nat) :
    requested size nmemb = 0 ∧ (size = 0 ∨ nmemb = 0 ∨ (2 ^ 32 - 1) / size < nmemb) ∨
      0 < requested size nmemb ∧ requested size nmemb = size * nmemb ∧
        ¬(size = 0 ∨ nmemb = 0) ∧ ¬(2 ^ 32 - 1) / size < nmemb := by
  unfold requested
  split
  next h => exact .inl ⟨rfl, h⟩
  next h =>
    rw [not_or, not_or] at h
    exact .inr ⟨Nat.mul_pos (Nat.pos_of_ne_zero h.1) (Nat.pos_of_ne_zero h.2.1), rfl,
      not_or.mpr ⟨h.1, h.2.1⟩, h.2.2⟩

variable {size nmemb : Nat}

theorem fread_eq {s : Stream} (hread : s.readable = true)
    (hn : 0 < requested size nmemb) :
    fread s size nmemb =
      let r := s.file.read (requested size nmemb - s.pushed.length)
      ((s.pushed ++ r.1, (s.pushed ++ r.1).length / size),
        { s with file := r.2, hasPushback := false }) := by
  obtain ⟨hzero, -⟩ | ⟨-, htotal, hsome, hfits⟩ := requested_cases size nmemb
  · omega
  rw [fread, if_neg hsome, if_neg (by simp [hread]), if_neg hfits, htotal]
  dsimp only
  split
  next hall =>
    rw [hall, Nat.sub_self, ByteFile.read, List.append_nil]
    rw [hall]
  next => rfl

theorem fread_simulated (h : s.Inv) (hobeys : s.Obeys (.fread size nmemb)) :
    Simulated accepts s (.fread size nmemb) := by
  obtain ⟨stream, last⟩ := s
  have hbuffered : stream.buffered = [] := h.nothing_buffered hobeys
  by_cases hnothing : stream.readable = false ∨ requested size nmemb = 0
  · have hzero : (if stream.readable then requested size nmemb else 0) = 0 := by
      split
      next hread => exact hnothing.resolve_left (by simp [hread])
      next => rfl
    refine .intro (.read [] 0) stream ?_ (.reading hbuffered fun hp => (h.pushback hp).2) ?_
    · have hresult : fread stream size nmemb = (([], 0), stream) := by
        unfold fread
        split
        next => rfl
        next hsome =>
          split
          next => rfl
          next hread =>
            obtain ⟨-, hcause⟩ | ⟨hpos, -⟩ := requested_cases size nmemb
            · rw [if_pos (by simpa only [← or_assoc, hsome, false_or] using hcause)]
            · exact absurd (hnothing.resolve_left hread) (Nat.ne_of_gt hpos)
      rw [Stream.step, hresult]
    · rw [Positioned.step]
      dsimp only
      rw [show stream.view.readable = stream.readable from rfl, hzero, Positioned.getBytes]
      simp
  · rw [not_or] at hnothing
    have hread : stream.readable = true := by simpa using hnothing.1
    have hn := Nat.pos_of_ne_zero hnothing.2
    have hresult := fread_eq hread hn
    have hview := view_getBytes hbuffered hn
    cases hr : stream.file.read (requested size nmemb - stream.pushed.length) with
    | mk bytes file =>
      rw [hr] at hresult hview
      refine .intro (.read (stream.pushed ++ bytes) ((stream.pushed ++ bytes).length / size))
        { stream with file, hasPushback := false } ?_ (.reading hbuffered fun h => by cases h) ?_
      · rw [Stream.step, hresult]
      · rw [Positioned.step, if_pos (show stream.view.readable = true from hread), hview]

theorem ungetc_simulated (h : s.Inv) {c : Int} (hobeys : s.Obeys (.ungetc c))
    (hplain : s.stream.Plain (.ungetc c)) : Simulated accepts s (.ungetc c) := by
  obtain ⟨stream, last⟩ := s
  have hbuffered : stream.buffered = [] := h.nothing_buffered hobeys
  have hpushed : stream.view.pushed.isSome = stream.hasPushback := by
    rw [Stream.view]
    cases stream.hasPushback with
    | false => rfl
    | true => rfl
  by_cases hrefused : c = eof ∨ stream.readable = false ∨ stream.hasPushback = true
  · refine .intro (.value eof) stream ?_ (.reading hbuffered fun hp => (h.pushback hp).2) ?_
    · have hresult : ungetc stream c = (eof, stream) := by
        unfold ungetc
        obtain hc | hread | hpushback := hrefused
        · rw [if_pos hc]
        · rw [if_pos hread, ite_self]
        · rw [if_pos hpushback, ite_self, ite_self]
      rw [Stream.step, hresult]
    · rw [Positioned.step, if_pos]
      rw [hpushed]
      exact hrefused
  · have hbyte : 0 ≤ c ∧ c < 256 := by
      rw [not_or, not_or] at hrefused
      obtain ⟨hc, hread, hpushback⟩ := hrefused
      exact (hplain (by simpa using hread) (by simpa using hpushback)).resolve_left hc
    refine .intro (.value c) { stream with pushback := c, hasPushback := true } ?_
      (.reading hbuffered fun _ => hbyte) ?_
    · rw [Stream.step, ungetc]
      rw [not_or, not_or] at hrefused
      rw [if_neg hrefused.1, if_neg hrefused.2.1, if_neg hrefused.2.2]
    · rw [Positioned.step, if_neg (by rw [hpushed]; exact hrefused), toNat_ofInt hbyte]
      rw [not_or, not_or] at hrefused
      simp [Stream.view, hrefused.2.2]

/-! ## Writing -/

theorem Session.Inv.writing {s : Stream} (hroom : s.buffered.length ≤ s.bufferSize)
    (hwritable : s.buffered ≠ [] → s.writable = true) (hpushback : s.hasPushback = false) :
    Session.Inv ⟨s, .writing⟩ where
  room := hroom
  output := fun hne => ⟨rfl, hwritable hne⟩
  pushback := fun hp => absurd hp (by simp [hpushback])

variable {data : List UInt8}

theorem view_wrote {s s' : Stream} (h : Wrote s data s')
    (hpushback : s.hasPushback = false) : s'.view = s.view.putBytes data := by
  have hpushback' : s'.hasPushback = false := by
    rw [h.same]
    exact hpushback
  rw [view_eq_ofFile hpushback, view_eq_ofFile hpushback', ofFile_putBytes, h.file, h.same]

/-- Output through the buffer or past it. -/
theorem fwrite_wrote (haccepts : Accepts accepts) {s : Stream} (hw : s.writable = true)
    (hroom : s.buffered.length ≤ s.bufferSize)
    (hn : 0 < requested size nmemb) (data : List UInt8) :
    ∃ s', fwrite accepts s size nmemb data = some (nmemb, s') ∧
      Wrote s (data.take (requested size nmemb)) s' := by
  obtain ⟨hzero, -⟩ | ⟨-, htotal, hsome, hfits⟩ := requested_cases size nmemb
  · omega
  rw [fwrite, if_neg hsome, if_neg (by simp [hw]), if_neg hfits, htotal]
  dsimp only
  split
  next hsize =>
    obtain ⟨s', hs', hwrote⟩ := fillBuffer_wrote haccepts (Nat.le_refl _) hw hsize hroom
    exact ⟨s', by rw [hs']; rfl, hwrote⟩
  next hsize =>
    have hbuffered : s.buffered = [] := List.eq_nil_of_length_eq_zero (by omega)
    rw [writeAll_eq haccepts (Nat.le_refl _)]
    exact ⟨_, rfl, by rw [hbuffered]; rfl, hroom, rfl⟩

theorem Wrote.inv {s s' : Stream} (h : Wrote s data s')
    (hw : s.writable = true) (hpushback : s.hasPushback = false) : Session.Inv ⟨s', .writing⟩ :=
  .writing h.room (fun _ => by rw [h.same]; exact hw) (by rw [h.same]; exact hpushback)

theorem fwrite_simulated (haccepts : Accepts accepts) (h : s.Inv)
    (hobeys : s.Obeys (.fwrite size nmemb data)) :
    Simulated accepts s (.fwrite size nmemb data) := by
  obtain ⟨stream, last⟩ := s
  have hpushback : stream.hasPushback = false := h.no_pushback hobeys
  by_cases hnothing : stream.writable = false ∨ requested size nmemb = 0
  · have hzero : (if stream.writable then requested size nmemb else 0) = 0 := by
      split
      next hw => exact hnothing.resolve_left (by simp [hw])
      next => rfl
    refine .intro (.value 0) stream ?_ (.writing h.room (fun hne => (h.output hne).2) hpushback) ?_
    · have hresult : fwrite accepts stream size nmemb data = some (0, stream) := by
        unfold fwrite
        split
        next => rfl
        next hsome =>
          split
          next => rfl
          next hw =>
            obtain ⟨-, hcause⟩ | ⟨hpos, -⟩ := requested_cases size nmemb
            · rw [if_pos (by simpa only [← or_assoc, hsome, false_or] using hcause)]
            · exact absurd (hnothing.resolve_left hw) (Nat.ne_of_gt hpos)
      rw [Stream.step, hresult]
      rfl
    · rw [Positioned.step]
      dsimp only
      rw [show stream.view.writable = stream.writable from rfl, hzero, List.take_zero]
      rfl
  · rw [not_or] at hnothing
    have hw : stream.writable = true := by simpa using hnothing.1
    obtain ⟨stream', hresult, hwrote⟩ :=
      fwrite_wrote haccepts hw h.room (Nat.pos_of_ne_zero hnothing.2) data
    refine .intro (.value nmemb) stream' ?_ (hwrote.inv hw hpushback) ?_
    · rw [Stream.step, hresult]
      rfl
    · rw [Positioned.step, if_pos (show stream.view.writable = true from hw),
        view_wrote hwrote hpushback]
      dsimp only
      rw [if_neg hnothing.2]

theorem fputc_simulated (haccepts : Accepts accepts) (h : s.Inv) {c : Int}
    (hobeys : s.Obeys (.fputc c)) : Simulated accepts s (.fputc c) := by
  obtain ⟨stream, last⟩ := s
  have hpushback : stream.hasPushback = false := h.no_pushback hobeys
  by_cases hw : stream.writable = true
  · obtain ⟨stream', hresult, hwrote⟩ :=
      fwrite_wrote haccepts hw h.room (show 0 < requested 1 1 by decide) [UInt8.ofInt c]
    refine .intro (.value (UInt8.ofInt c).toNat) stream' ?_ (hwrote.inv hw hpushback) ?_
    · rw [Stream.step, fputc, if_neg (by simp [hw]), hresult]
      rfl
    · rw [Positioned.step, if_pos (show stream.view.writable = true from hw),
        view_wrote hwrote hpushback]
      rfl
  · refine .intro (.value eof) stream ?_ (.writing h.room (fun hne => (h.output hne).2) hpushback) ?_
    · rw [Stream.step, fputc, if_pos (by simpa using hw)]
      rfl
    · rw [Positioned.step, if_neg (show ¬stream.view.writable = true from hw)]

/-! ## Positions -/

/-- The buffer written out where a call needs it. -/
theorem flush_if {s : Stream} (haccepts : Accepts accepts)
    (hw : s.buffered ≠ [] → s.writable = true) {P : Prop} [Decidable P]
    (hP : s.buffered ≠ [] → P) :
    (if P then (fflush accepts s).map Prod.snd else some s) = some s.flushed := by
  split
  next =>
    rw [fflush_eq haccepts hw]
    rfl
  next h =>
    have hbuffered : s.buffered = [] := by
      by_contra hne
      exact h (hP hne)
    rw [flushed_of_nil hbuffered]

theorem seekTo_view {s : Stream} (offset : Int) (whence : Whence) :
    seekTo s.flushed.file.offset s.flushed.file.contents.length
        (if whence = .cur ∧ s.hasPushback then offset - 1 else offset) whence =
      seekTo s.view.position s.view.contents.length offset whence := by
  cases whence with
  | set => rfl
  | fromEnd => rfl
  | other => rfl
  | cur =>
    unfold seekTo
    dsimp only [Stream.view, Stream.flushed]
    cases s.hasPushback with
    | false => simp
    | true =>
      have hsum (a : Int) : a + (offset - 1) = a - 1 + offset := by omega
      simp [hsum]

theorem fseek_simulated (haccepts : Accepts accepts) (h : s.Inv) {offset : Int} {whence : Whence} :
    Simulated accepts s (.fseek offset whence) := by
  obtain ⟨stream, last⟩ := s
  by_cases hother : whence = .other
  · subst hother
    exact .intro (.value (-1)) stream rfl h rfl
  · have hfseek : fseek accepts stream offset whence =
        (seekTo stream.view.position stream.view.contents.length offset whence).elim
          (some (-1, stream.flushed)) fun position => some (0, stream.flushed.moveTo position) := by
      rw [fseek, if_neg hother]
      dsimp only
      rw [flush_if haccepts (fun hne => (h.output hne).2) fun hne => ⟨(h.output hne).2, hne⟩,
        Option.bind_some, seekTo_view]
      dsimp only
      cases seekTo stream.view.position stream.view.contents.length offset whence <;> rfl
    cases hseek : seekTo stream.view.position stream.view.contents.length offset whence with
    | none =>
      rw [hseek] at hfseek
      refine .intro (.value (-1)) stream.flushed ?_ ?_ ?_
      · rw [Stream.step, hfseek]
        rfl
      · exact ⟨Nat.zero_le _, fun hne => absurd rfl hne, h.pushback⟩
      · rw [Positioned.step, hseek, flushed_view]
    | some position =>
      rw [hseek] at hfseek
      refine .intro (.value 0) (stream.flushed.moveTo position) ?_ ?_ ?_
      · rw [Stream.step, hfseek]
        rfl
      · exact ⟨Nat.zero_le _, fun hne => absurd rfl hne, fun h => by cases h⟩
      · rw [Positioned.step, hseek]
        simp [Stream.view, Stream.moveTo, Stream.flushed, ByteFile.append_write]

theorem seekTo_here (n size : Nat) :
    seekTo n size 0 .cur = if n < 2 ^ 32 then some n else none := by
  unfold seekTo
  dsimp only
  split
  next h => rw [if_neg (by omega)]
  next h =>
    rw [if_pos (by omega)]
    simp

theorem ftell_view {s : Stream} (hsettled : s.Settled)
    (hone : s.hasPushback = true → s.buffered = []) : ftell s = s.view.tell := by
  have hposition : s.view.position =
      ((s.file.offset + s.buffered.length : Nat) : Int) - if s.hasPushback then 1 else 0 := by
    rw [Stream.view]
    dsimp only
    obtain hbuffered | ⟨hend, -⟩ := hsettled
    · rw [hbuffered]
      rfl
    · rw [ByteFile.offset_write hend]
  have hfits : s.buffered = [] ∨ s.file.offset + s.buffered.length < 2 ^ 32 :=
    hsettled.imp_right And.right
  have hempty : s.hasPushback = true → s.buffered.length = 0 := fun hp => by rw [hone hp]; rfl
  rw [← List.length_eq_zero_iff] at hfits
  unfold ftell Positioned.tell longMax
  rw [seekTo_here, hposition]
  generalize s.buffered.length = pending at hfits hempty
  generalize s.file.offset = offset at hfits
  by_cases hoffset : offset < 2 ^ 32
  · rw [if_pos hoffset]
    dsimp only
    cases hp : s.hasPushback with
    | false =>
      simp only [Bool.false_eq_true, false_and, if_false]
      omega
    | true =>
      obtain rfl := hempty hp
      simp only [true_and, if_true]
      omega
  · rw [if_neg hoffset]
    dsimp only
    rw [if_neg]
    split
    · omega
    · omega

theorem ftell_simulated (h : s.Inv) (hplain : s.stream.Plain .ftell) :
    Simulated accepts s .ftell := by
  refine .intro (.value (ftell s.stream)) s.stream rfl h ?_
  rw [ftell_view hplain h.one_in_use]
  rfl

theorem fflush_simulated (haccepts : Accepts accepts) (h : s.Inv) : Simulated accepts s .fflush := by
  obtain ⟨stream, last⟩ := s
  refine .intro (.flushed (if stream.writable then 0 else eof) stream.flushed.file.contents)
    stream.flushed ?_ ?_ ?_
  · rw [Stream.step, fflush_eq haccepts fun hne => (h.output hne).2]
    rfl
  · refine ⟨Nat.zero_le _, fun hne => absurd rfl hne, fun hp => ?_⟩
    obtain ⟨hreading, hbyte⟩ := h.pushback hp
    refine ⟨?_, hbyte⟩
    show (if last = .writing then Last.free else last) = .reading
    rw [if_neg (by rw [show last = .reading from hreading]; nofun)]
    exact hreading
  · rw [Positioned.step, flushed_view]
    rfl

theorem setvbuf_simulated (haccepts : Accepts accepts) (h : s.Inv) {mode : Option Buffering}
    {size : Nat} {block : Bool} : Simulated accepts s (.setvbuf mode size block) := by
  obtain ⟨stream, last⟩ := s
  have hflush := flush_if haccepts (fun hne => (h.output hne).2) (P := stream.buffered ≠ []) id
  have hflushed : Session.Inv ⟨stream.flushed, last⟩ :=
    ⟨Nat.zero_le _, fun hne => absurd rfl hne, h.pushback⟩
  by_cases hw : stream.writable = true
  · cases mode with
    | none =>
      refine .intro (.value (-1)) stream ?_ h ?_
      · rw [Stream.step, setvbuf, if_neg (by simp [hw])]
        rfl
      · rw [Positioned.step, if_neg (by simp [settable])]
    | some mode =>
      by_cases hsize : mode ≠ .none ∧ size = 0
      · refine .intro (.value (-1)) stream ?_ h ?_
        · rw [Stream.step, setvbuf, if_neg (by simp [hw])]
          dsimp only
          rw [if_pos hsize]
          rfl
        · rw [Positioned.step, if_neg (by simp [settable, hsize.1, hsize.2])]
      · by_cases hblock : mode ≠ .none ∧ block = false
        · refine .intro (.value (-1)) stream.flushed ?_ hflushed ?_
          · rw [Stream.step, setvbuf, if_neg (by simp [hw])]
            dsimp only
            rw [if_neg hsize, hflush, Option.bind_some, if_pos hblock]
            rfl
          · rw [Positioned.step, flushed_view, if_neg (by simp [settable, hblock.1, hblock.2])]
        · have hsettable : settable (some mode) size block = true := by
            rw [settable]
            by_cases hmode : mode = .none
            · simp [hmode]
            · have hnonzero : size ≠ 0 := fun hz => hsize ⟨hmode, hz⟩
              have hgiven : block = true := by simpa [hmode] using hblock
              simp [hnonzero, hgiven]
          refine .intro (.value 0)
            { stream.flushed with
              bufferSize := if mode = .none then 0 else size
              buffered := []
              buffering := mode } ?_ ⟨Nat.zero_le _, fun hne => absurd rfl hne, h.pushback⟩ ?_
          · rw [Stream.step, setvbuf, if_neg (by simp [hw])]
            dsimp only
            rw [if_neg hsize, hflush, Option.bind_some, if_neg hblock]
            rfl
          · rw [Positioned.step, ← flushed_view,
              if_pos ⟨show stream.flushed.view.writable = true from hw, hsettable⟩]
            rfl
  · refine .intro (.value (-1)) stream ?_ h ?_
    · have hresult : setvbuf accepts stream mode size block = some (-1, stream) := by
        unfold setvbuf
        rw [if_pos (by simpa using hw)]
      rw [Stream.step, hresult]
      rfl
    · rw [Positioned.step, if_neg fun hp => hw hp.1]

/-! ## Runs -/

/-- The calls the refinement is about. -/
def Session.Admits (s : Session) (op : Op) : Prop := s.Obeys op ∧ s.stream.Plain op

/-- A call on the positioned file. -/
def Positioned.Steps (p : Positioned) (op : Op) (outcome : Outcome) (p' : Positioned) : Prop :=
  p.step op = (outcome, p')

theorem session_refines (haccepts : Accepts accepts) :
    Refines (Session.step accepts) Positioned.Steps Session.Inv Session.Admits Session.view := by
  intro s op h hadmits
  obtain ⟨hobeys, hplain⟩ := hadmits
  cases op with
  | fread size nmemb => exact fread_simulated h hobeys
  | fwrite size nmemb data => exact fwrite_simulated haccepts h hobeys
  | fgetc => exact fgetc_simulated h hobeys
  | fputc c => exact fputc_simulated haccepts h hobeys
  | ungetc c => exact ungetc_simulated h hobeys hplain
  | fseek offset whence => exact fseek_simulated haccepts h
  | ftell => exact ftell_simulated h hplain
  | fflush => exact fflush_simulated haccepts h
  | setvbuf mode size block => exact setvbuf_simulated haccepts h

theorem kernelFdOpen_file {flags : ModeFlags} {existing : Option (List UInt8)} {file : ByteFile}
    (h : kernelFdOpen flags existing = some file) :
    file.offset = 0 ∧ file.append = flags.append := by
  unfold kernelFdOpen at h
  split at h
  next =>
    cases h
    exact ⟨rfl, rfl⟩
  next =>
    split at h
    next =>
      cases h
      exact ⟨rfl, rfl⟩
    next => exact nomatch h

/-- An opened stream stands for the opened file. -/
theorem fopen_view {mode : List Char} {existing : Option (List UInt8)} {block : Bool}
    {stream : Stream} (hopen : fopen accepts mode existing block = some stream) :
    opened mode existing = some stream.view ∧ Session.Inv ⟨stream, .free⟩ := by
  simp only [fopen, Option.bind_eq_bind, Option.bind_eq_some_iff] at hopen
  obtain ⟨flags, hflags, file, hfile, hstream⟩ := hopen
  obtain ⟨hoffset, happend⟩ := kernelFdOpen_file hfile
  have hopened : opened mode existing = some (.ofFile file flags.read flags.write) := by
    rw [opened, hflags]
    show (kernelFdOpen flags existing).bind _ = _
    rw [hfile, Positioned.ofFile, hoffset, happend]
    rfl
  rw [hopened]
  obtain ⟨read, write, create, truncate, append⟩ := flags
  cases write with
  | false =>
    obtain rfl : _ = stream := Option.some.inj hstream
    exact ⟨by rw [view_file rfl rfl], Nat.zero_le _, fun hne => absurd rfl hne, fun h => by cases h⟩
  | true =>
    -- the only way to fail is that there is no buffer
    cases block with
    | false => cases hstream
    | true =>
      obtain rfl : _ = stream := Option.some.inj hstream
      exact ⟨by rw [view_file rfl rfl], Nat.zero_le _, fun hne => absurd rfl hne, fun h => by cases h⟩

/-- Whatever is buffered, a stream answers as a file with a position does. -/
theorem stream_refines_positioned (haccepts : Accepts accepts) {mode : List Char}
    {existing : Option (List UInt8)} {block : Bool} {stream : Stream} {ops : List Op}
    (hopen : fopen accepts mode existing block = some stream)
    (hops : Admitted (Session.step accepts) Session.Admits ⟨stream, .free⟩ ops) :
    ∃ outcomes s p, runAll (Session.step accepts) ⟨stream, .free⟩ ops = some (outcomes, s) ∧
      Positioned.opened mode existing = some p ∧
      Follows Positioned.Steps p ops outcomes s.view ∧
      (s.stream.Settled → ∃ status flushed,
        fflush accepts s.stream = some (status, flushed) ∧ ftell flushed = ftell s.stream) := by
  obtain ⟨hview, hinv⟩ := fopen_view hopen
  obtain ⟨outcomes, s, hrun, h, hfollows⟩ := (session_refines haccepts).run hinv hops
  refine ⟨outcomes, s, stream.view, hrun, hview, hfollows, fun hsettled => ?_⟩
  refine ⟨_, s.stream.flushed, fflush_eq haccepts fun hne => (h.output hne).2, ?_⟩
  rw [ftell_view hsettled h.one_in_use, ftell_view (.inl rfl) fun _ => rfl, flushed_view]

/-- A descriptor that takes every write in one piece. -/
def takesAll (_ : ByteFile) (bytes : List UInt8) : Nat := bytes.length

theorem takesAll_accepts : Accepts takesAll :=
  fun _ _ hne => ⟨List.length_pos_of_ne_nil hne, Nat.le_refl _⟩

/-- A byte is read and replaced. -/
theorem stream_refines_positioned_update :
    let stream : Stream := ⟨⟨[1, 2, 3], 0, false⟩, true, true, 0, false, bufsiz, [], .full⟩
    ∃ outcomes s p, runAll (Session.step takesAll) ⟨stream, .free⟩
        [.fgetc, .fseek (-1) .cur, .fputc 7, .ftell] = some (outcomes, s) ∧
      Positioned.opened ['r', '+'] (some [1, 2, 3]) = some p ∧
      Follows Positioned.Steps p [.fgetc, .fseek (-1) .cur, .fputc 7, .ftell] outcomes s.view ∧
      (s.stream.Settled → ∃ status flushed,
        fflush takesAll s.stream = some (status, flushed) ∧ ftell flushed = ftell s.stream) := by
  refine stream_refines_positioned takesAll_accepts
    (show fopen takesAll ['r', '+'] (some [1, 2, 3]) true = _ from rfl) ?_
  refine .cons ⟨nofun, trivial⟩ rfl (.cons ⟨trivial, trivial⟩ rfl
    (.cons ⟨nofun, trivial⟩ rfl (.cons ⟨trivial, ?_⟩ rfl trivial)))
  exact .inr ⟨nofun, by decide⟩

/-- Three bytes appended to a file of four: `ftell` says three before the `fflush` and seven
after it. -/
theorem append_position_moves :
    let stream : Stream := ⟨⟨[0, 0, 0, 0], 0, true⟩, false, true, 0, false, bufsiz, [], .full⟩
    let ops : List Op := [.fwrite 1 3 [1, 2, 3], .ftell, .fflush, .ftell]
    let outcomes : List Outcome :=
      [.value 3, .value 3, .flushed 0 [0, 0, 0, 0, 1, 2, 3], .value 7]
    fopen takesAll ['a'] (some [0, 0, 0, 0]) true = some stream ∧
      Admitted (Session.step takesAll) Session.Obeys ⟨stream, .free⟩ ops ∧
      (runAll (Session.step takesAll) ⟨stream, .free⟩ ops).map Prod.fst = some outcomes ∧
      ∀ p q, Positioned.opened ['a'] (some [0, 0, 0, 0]) = some p →
        ¬Follows Positioned.Steps p ops outcomes q := by
  refine ⟨rfl, ?_, rfl, ?_⟩
  · exact .cons nofun rfl (.cons trivial rfl (.cons trivial rfl (.cons trivial rfl trivial)))
  · intro p q hp hfollows
    obtain rfl := Option.some.inj hp
    cases hfollows with
    | cons hwrite hrest =>
      cases hrest with
      | cons htell hrest =>
        -- the positioned file is at seven
        obtain ⟨-, rfl⟩ := Prod.mk.inj hwrite
        exact absurd (Prod.mk.inj htell).1 (by decide)

end MeatySkeleton.Libc
