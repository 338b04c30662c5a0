import MeatySkeleton.Libc.FileObjects
import MeatySkeleton.Fs.Offsets

/-!
# What `fclose` gives back

From `fopen` on, the machine differs from what it was in the three things that the stream holds
(`Holds`), and every call on the stream keeps it so. `fclose` gives all three back, if it gets to
it: it flushes first, and `fflush` refuses a stream that was not opened for writing. So a stream
opened for reading only can never be closed (`descriptors_balanced_iff`).
-/

namespace MeatySkeleton.Libc.FileObjects

open Function List Lib Stdio
open Effect (Keeps Meets bind_done meets_bind meets_mono)

variable {φ α : Type} {fs : Fs.FileSystem φ} {m t base : Machine φ} {stream object : Nat}
  {file file' : File}

/-! ## What is held -/

/-- The buffers in use, with one that a stream owns. -/
def withOwned (buffers : Nat → Bool) : Option Nat → Nat → Bool
  | none => buffers
  | some buffer => update buffers buffer true

/-- What calls other than `setvbuf` leave alone. -/
structure Shape where
  fd : Nat
  writable : Bool
  owned : Option Nat
  bufferSize : Nat

def File.shape (file : File) : Shape :=
  ⟨file.fd, file.writable, file.owned, file.writeBufferSize⟩

/-- A descriptor, a file object and a `FILE` that are not in use. -/
structure Vacant (base : Machine φ) (fd object stream : Nat) : Prop where
  valid : Fs.kernelFdValid fd = true
  entry : base.system.fdTable fd = none
  object : base.system.files object = none
  stream : base.streams stream = none

/-- The machine is as `base`, and there is the stream, which holds what it has to. -/
structure Holds (base : Machine φ) (stream object : Nat) (file : File) (m : Machine φ) : Prop where
  stream : m.streams = update base.streams stream (some file)
  table : m.system.fdTable = update base.system.fdTable file.fd (some object)
  object : ∃ f, m.system.files = update base.system.files object (some f)
  buffers : m.buffers = withOwned base.buffers file.owned
  fresh : ∀ buffer, file.owned = some buffer → base.buffers buffer = false

/-- The same for a stream of which the shape is known. -/
def Open (base : Machine φ) (stream object : Nat) (shape : Shape) (m : Machine φ) : Prop :=
  ∃ file, file.shape = shape ∧ Holds base stream object file m

/-- The same for a stream that may have got another buffer. -/
def Kept (base : Machine φ) (stream object fd : Nat) (writable : Bool) (m : Machine φ) : Prop :=
  ∃ file, (file.fd = fd ∧ file.writable = writable) ∧ Holds base stream object file m

section

variable (h : Holds base stream object file m)

include h

theorem Holds.streams_self :
    m.streams stream = some file := by
  rw [h.stream]
  exact update_self ..

theorem Holds.store (hshape : file'.shape = file.shape) :
    Holds base stream object file'
      { m with streams := update m.streams stream (some file') } := by
  have hfd : file'.fd = file.fd := congrArg Shape.fd hshape
  have howned : file'.owned = file.owned := congrArg Shape.owned hshape
  refine ⟨?_, ?_, h.object, ?_, ?_⟩
  · show update m.streams stream (some file') = _
    rw [h.stream, update_idem]
  · rw [hfd]
    exact h.table
  · rw [howned]
    exact h.buffers
  · rw [howned]
    exact h.fresh

theorem Holds.opened {shape : Shape}
    (hshape : file.shape = shape) : Open base stream object shape m := ⟨file, hshape, h⟩

/-! ## The descriptor -/

theorem Holds.lookup (hv : Vacant base file.fd object stream) :
    Fs.fdLookup m.system file.fd = some object := by
  unfold Fs.fdLookup
  rw [if_pos hv.valid, h.table]
  exact update_self ..

theorem Holds.files_self :
    ∃ f, m.system.files object = some f := by
  obtain ⟨f, hf⟩ := h.object
  refine ⟨f, ?_⟩
  rw [hf]
  exact update_self ..

theorem Holds.fileOnly {s : Fs.System φ}
    (hs : Fs.FileOnly m.system s object) : Holds base stream object file { m with system := s } := by
  refine ⟨h.stream, hs.table.trans h.table, ?_, h.buffers, h.fresh⟩
  obtain ⟨f, hf⟩ := h.object
  obtain ⟨f1, hf1⟩ := h.files_self
  obtain ⟨f2, hf2, -⟩ := hs.object f1 hf1
  refine ⟨f2, ?_⟩
  funext x
  by_cases hx : x = object
  · subst hx
    rw [update_self]
    exact hf2
  · rw [update_of_ne hx]
    show s.files x = _
    rw [hs.others x hx, hf, update_of_ne hx]

end

/-- A call on a descriptor that returns and works on the file object alone. -/
def Tame (call : Fs.System φ → Option (Option α × Fs.System φ)) (fd object : Nat) : Prop :=
  ∀ s f, Fs.fdLookup s fd = some object → s.files object = some f →
    ∃ r s', call s = some (r, s') ∧ Fs.FileOnly s s' object

variable {fd : Nat}

theorem Tame.withFile {op : Fs.System φ → Nat → Option (Option α × Fs.System φ)}
    (hop : ∀ s f, s.files object = some f → ∃ r s', op s object = some (r, s') ∧
      Fs.FileOnly s s' object) : Tame (fun s => Fs.withFile s fd op) fd object := by
  intro s f hlookup hf
  obtain ⟨r, s', hend, hs⟩ := hop s f hf
  refine ⟨r, s', ?_, hs⟩
  dsimp only [Fs.withFile]
  rw [hlookup]
  exact hend

theorem tame_read (fd size : Nat) : Tame (fun s => Fs.kernelFdRead fs s fd size) fd object := by
  refine Tame.withFile fun s f hf => ?_
  have hread := @Fs.vfsRead_eq φ fs s object f hf size
  exact ⟨_, _, hread, Fs.vfsRead_fileOnly hread⟩

theorem tame_write (fd : Nat) (bytes : List UInt8) :
    Tame (fun s => Fs.kernelFdWrite fs s fd bytes) fd object := by
  refine Tame.withFile fun s f hf => ?_
  have hwrite := @Fs.vfsWrite_eq φ fs s object f hf bytes
  exact ⟨_, _, hwrite, Fs.vfsWrite_fileOnly hwrite⟩

theorem tame_seek (fd : Nat) (offset : Int) (whence : Fs.Whence) :
    Tame (fun s => Fs.kernelFdSeek fs s fd offset whence) fd object := by
  refine Tame.withFile fun s f hf => ?_
  have hseek : ∃ r s', Fs.vfsSeek fs s object offset whence = some (r, s') := by
    unfold Fs.vfsSeek
    rw [hf]
    dsimp only [Option.bind_eq_bind, Option.bind_some]
    split
    next => exact ⟨_, _, rfl⟩
    next => exact ⟨_, _, rfl⟩
  obtain ⟨r, s', hseek⟩ := hseek
  cases whence with
  | other => exact ⟨none, s, rfl, .same⟩
  | _ => exact ⟨r, s', hseek, Fs.vfsSeek_fileOnly hseek⟩

theorem kernel_keeps (hv : Vacant base file.fd object stream)
    {call : Fs.System φ → Option (Option α × Fs.System φ)} (hcall : Tame call file.fd object) :
    Keeps (Holds base stream object file) (kernel call) fun _ => True := by
  intro m hm
  obtain ⟨f, hf⟩ := hm.files_self
  obtain ⟨r, s', hend, hs⟩ := hcall m.system f (hm.lookup hv) hf
  unfold kernel
  rw [hend]
  cases r with
  | none => exact hm.fileOnly hs
  | some a => exact ⟨hm.fileOnly hs, trivial⟩

theorem load_bind {f : File → Stdio φ α} (h : m.streams stream = some file) :
    (load stream >>= f) m = f file m := by
  refine bind_done ?_
  unfold load
  rw [h]

theorem refuse_eq (h : m.streams stream = some file) : (refuse stream : Stdio φ α) m = .failed
    { m with streams := update m.streams stream (some { file with error := true }) } := by
  unfold refuse setError
  rw [Effect.bind_bind_eq, load_bind h]
  rfl

section
variable {shape : Shape} {Q : α → Prop}

theorem load_keeps :
    Keeps (Open base stream object shape) (load stream) fun file => file.shape = shape := by
  rintro m ⟨file, hshape, h⟩
  unfold load
  rw [h.streams_self]
  exact ⟨⟨file, hshape, h⟩, hshape⟩

theorem store_keeps (h : file.shape = shape) :
    Keeps (Open base stream object shape) (store stream file) fun _ => True := by
  refine Keeps.modify ?_
  rintro m ⟨file0, hshape, hm⟩
  exact ⟨file, h, hm.store (h.trans hshape.symm)⟩

theorem setError_keeps :
    Keeps (Open base stream object shape) (setError stream) fun _ => True :=
  load_keeps.bind fun _ h => store_keeps h

theorem refuse_keeps :
    Keeps (Open base stream object shape) (refuse stream : Stdio φ α) Q :=
  setError_keeps.bind fun _ _ => .fail

theorem call_keeps (hv : Vacant base shape.fd object stream)
    {call : Fs.System φ → Option (Option α × Fs.System φ)} (hcall : Tame call shape.fd object) :
    Keeps (Open base stream object shape) (Effect.attempt (kernel call)) fun _ => True := by
  have hkeeps : Keeps (Open base stream object shape) (kernel call) fun _ => True := by
    refine .exists fun file hshape => ?_
    subst hshape
    exact kernel_keeps hv hcall
  exact hkeeps.attempt.mono fun _ _ => trivial

end

/-! ### Output -/

theorem writeAll_meets (hv : Vacant base file.fd object stream) {fuel : Nat} {bytes : List UInt8}
    (hfuel : bytes.length ≤ fuel) : Meets (Holds base stream object file)
      (writeAll fs file.fd fuel bytes)
      (fun written m => Holds base stream object file m ∧
        (written < bytes.length → m.writeFailed = true)) fun _ => False := by
  induction fuel generalizing bytes with
  | zero =>
    obtain rfl := eq_nil_of_length_eq_zero (Nat.le_zero.mp hfuel)
    intro m hm
    unfold writeAll
    exact ⟨hm, fun h => absurd h (Nat.not_lt_zero _)⟩
  | succ fuel ih =>
    cases bytes with
    | nil =>
      intro m hm
      unfold writeAll
      exact ⟨hm, fun h => absurd h (Nat.not_lt_zero _)⟩
    | cons b bytes =>
      unfold writeAll
      have hcall := Meets.mono (kernel_keeps hv (@tame_write φ fs object file.fd (b :: bytes)))
        (fun _ h => h) (fun _ _ h => h.1) fun _ h => h
      refine Meets.bind (Meets.attempt hcall) fun answer => ?_
      dsimp only
      by_cases hzero : answer.getD 0 = 0
      · rw [if_pos hzero]
        intro m hm
        exact ⟨⟨hm.stream, hm.table, hm.object, hm.buffers, hm.fresh⟩, fun _ => rfl⟩
      · rw [if_neg hzero]
        rw [length_cons] at hfuel
        have hdropped : ((b :: bytes).drop (answer.getD 0)).length ≤ fuel := by
          rw [length_drop, length_cons]
          omega
        refine Meets.bind (ih hdropped) fun more => ?_
        rintro m ⟨hm, hfailed⟩
        refine ⟨hm, fun hlt => hfailed ?_⟩
        rw [length_drop]
        omega

/-- `fflush` empties the buffer, or a write has failed. -/
theorem fflush_meets (hv : Vacant base file.fd object stream) (hw : file.writable = true) :
    Meets (Holds base stream object file) (fflush fs stream)
      (fun _ => Holds base stream object { file with buffered := [] })
      fun m => m.writeFailed = true ∧ Holds base stream object { file with error := true } m := by
  intro m hm
  unfold fflush
  rw [load_bind hm.streams_self, if_neg (by simp [hw])]
  by_cases hempty : file.buffered = []
  · rw [if_pos hempty]
    have hsame : { file with buffered := [] } = file := by
      rw [← hempty]
    rw [hsame]
    exact hm
  · rw [if_neg hempty]
    refine meets_bind (meets_mono (writeAll_meets hv (Nat.le_refl _) m hm)
      (fun _ _ h => h) fun _ h => h.elim) fun written t ht => ?_
    obtain ⟨ht, hfailed⟩ := ht
    by_cases hlt : written < file.buffered.length
    · rw [if_pos hlt, refuse_eq ht.streams_self]
      exact ⟨hfailed hlt, ht.store rfl⟩
    · rw [if_neg hlt]
      exact ht.store rfl

/-- `fflush` refuses a stream that was not opened for writing. -/
theorem fflush_refused (h : m.streams stream = some file) (hw : file.writable = false) :
    fflush fs stream m = .failed
      { m with streams := update m.streams stream (some { file with error := true }) } := by
  unfold fflush
  rw [load_bind h, if_pos hw, refuse_eq h]

section
variable {shape : Shape} (hv : Vacant base shape.fd object stream)
include hv

theorem fflush_keeps :
    Keeps (Open base stream object shape) (fflush fs stream) fun _ => True := by
  rintro m ⟨file, rfl, hm⟩
  cases hw : file.writable with
  | false =>
    rw [fflush_refused hm.streams_self hw]
    refine Holds.opened (hm.store ?_) ?_
    · rfl
    · rfl
  | true =>
    exact meets_mono (fflush_meets hv hw m hm)
      (fun _ _ ht => ⟨Holds.opened ht rfl, trivial⟩) fun _ ht => Holds.opened ht.2 rfl

/-- After the `fflush` under the `if` the buffer is empty. -/
theorem flushIf_meets (hw : shape.writable = true) {c : Prop} [Decidable c]
    (hshape : file.shape = shape) : Meets (Holds base stream object file) (flushIf fs stream c)
      (fun flushed m => ∃ file', file'.shape = shape ∧ Holds base stream object file' m ∧
        (flushed = true → (c ∧ file'.buffered = []) ∨ (¬c ∧ file' = file))) fun _ => False := by
  subst hshape
  intro m hm
  unfold flushIf
  by_cases hc : c
  · rw [if_pos hc]
    have hflush : (fflush fs stream m).Meets _ _ := fflush_meets hv hw m hm
    cases hend : fflush fs stream m with
    | done a t =>
      rw [hend] at hflush
      rw [bind_done (Effect.attempt_done hend)]
      refine ⟨{ file with buffered := [] }, rfl, hflush, fun _ => .inl ⟨hc, rfl⟩⟩
    | failed t =>
      rw [hend] at hflush
      rw [bind_done (Effect.attempt_failed hend)]
      exact ⟨{ file with error := true }, rfl, hflush.2, nofun⟩
    | fault =>
      rw [hend] at hflush
      exact hflush.elim
  · rw [if_neg hc]
    exact ⟨file, rfl, hm, fun _ => .inr ⟨hc, rfl⟩⟩

theorem flushIf_keeps (hw : shape.writable = true) {c : Prop} [Decidable c] :
    Keeps (Open base stream object shape) (flushIf fs stream c) fun _ => True := by
  rintro m ⟨file, hshape, hm⟩
  refine meets_mono (flushIf_meets hv hw hshape m hm) ?_ fun _ h => h.elim
  rintro flushed t ⟨file', hshape', ht, -⟩
  exact ⟨⟨file', hshape', ht⟩, trivial⟩

theorem fillBuffer_keeps (hw : shape.writable = true) (hsize : shape.bufferSize ≠ 0) {fuel : Nat}
    {bytes : List UInt8} (hfuel : bytes.length ≤ fuel) :
    Keeps (Open base stream object shape) (fillBuffer fs stream fuel bytes)
      fun _ => True := by
  induction fuel generalizing bytes with
  | zero =>
    obtain rfl := eq_nil_of_length_eq_zero (Nat.le_zero.mp hfuel)
    exact .pure trivial
  | succ fuel ih =>
    cases bytes with
    | nil => exact .pure trivial
    | cons c rest =>
      rw [length_cons] at hfuel
      rintro m ⟨file, hshape, hm⟩
      unfold fillBuffer
      rw [load_bind hm.streams_self]
      refine meets_bind (meets_mono (flushIf_meets hv hw hshape m hm)
        (fun _ _ h => h) fun _ h => h.elim) fun room t ht => ?_
      obtain ⟨file', hshape', ht, hroom⟩ := ht
      by_cases hfull : room = false
      · rw [if_pos hfull]
        exact ⟨⟨file', hshape', ht⟩, trivial⟩
      · rw [if_neg hfull, load_bind ht.streams_self]
        have hopen : Open base stream object shape t := ⟨file', hshape', ht⟩
        by_cases hline : file'.bufferingMode = .line
        · rw [if_pos hline]
          refine (?_ : Keeps (Open base stream object shape) _ fun _ => True) t hopen
          refine .bind (store_keeps hshape') fun _ _ => ?_
          refine (flushIf_keeps hv hw).bind fun flushed _ => ?_
          refine Keeps.ite (fun _ => .pure trivial) fun _ => ?_
          exact (ih (Nat.le_of_succ_le_succ hfuel)).bind fun _ _ => .pure trivial
        · rw [if_neg hline]
          -- there is room, so that at least one byte goes into the buffer
          have hpositive : 0 < file'.writeBufferSize - file'.buffered.length := by
            have hsize' : file'.writeBufferSize ≠ 0 := by
              rw [← hshape'] at hsize
              exact hsize
            rcases hroom (by simpa using hfull) with ⟨-, hempty⟩ | ⟨hc, rfl⟩
            · rw [hempty, length_nil]
              omega
            · omega
          refine (?_ : Keeps (Open base stream object shape) _ fun _ => True) t hopen
          refine .bind (store_keeps hshape') fun _ _ => ?_
          refine (ih ?_).bind fun _ _ => .pure trivial
          rw [length_drop, length_cons]
          omega

theorem fwrite_keeps {data : Option (Nat → UInt8)} {size nmemb : Nat} :
    Keeps (Open base stream object shape) (fwrite fs stream data size nmemb)
      fun _ => True := by
  unfold fwrite
  refine .ite (fun _ => .pure trivial) fun _ => ?_
  cases data with
  | none => exact setError_keeps.bind fun _ _ => .pure trivial
  | some data =>
    refine load_keeps.bind fun file hshape => ?_
    refine .ite (fun _ => setError_keeps.bind fun _ _ => .pure trivial) fun hno => ?_
    refine .ite (fun hbuffer => ?_) fun _ => ?_
    · have hw : shape.writable = true := by
        rw [← hshape]
        exact eq_true_of_ne_false fun hw => hno (.inl hw)
      have hsize : shape.bufferSize ≠ 0 := by
        rw [← hshape]
        exact hbuffer.2
      exact (fillBuffer_keeps hv hw hsize (Nat.le_refl _)).bind fun _ _ => .pure trivial
    · have hwrite : Keeps (Open base stream object shape)
          (writeAll fs file.fd ((List.range (size * nmemb)).map data).length
            ((List.range (size * nmemb)).map data)) fun _ => True := by
        subst hshape
        refine .exists fun file' hshape => ?_
        have hfd : file'.fd = file.fd := congrArg Shape.fd hshape
        rw [← hshape] at hv
        rw [← hfd]
        exact Meets.mono (writeAll_meets hv (Nat.le_refl _)) (fun _ h => h)
          (fun _ _ h => ⟨h.1, trivial⟩) fun _ h => h.elim
      refine hwrite.bind fun consumed _ => ?_
      exact .ite (fun _ => setError_keeps.bind fun _ _ => .pure trivial) fun _ => .pure trivial

theorem fputc_keeps {ic : Int} :
    Keeps (Open base stream object shape) (fputc fs stream ic) fun _ => True := by
  unfold fputc
  refine load_keeps.bind fun file hshape => ?_
  refine .ite (fun _ => setError_keeps.bind fun _ _ => .pure trivial) fun _ => ?_
  refine (fwrite_keeps hv).bind fun count _ => ?_
  exact .ite (fun _ => setError_keeps.bind fun _ _ => .pure trivial) fun _ => .pure trivial

theorem putAll_keeps {string : List UInt8} :
    Keeps (Open base stream object shape) (putAll fs stream string) fun _ => True := by
  induction string with
  | nil => exact .pure trivial
  | cons c rest ih =>
    refine (fputc_keeps hv).bind fun result _ => ?_
    exact .ite (fun _ => .pure trivial) fun _ => ih

theorem fputs_keeps {string : Option (List UInt8)} :
    Keeps (Open base stream object shape) (fputs fs stream string) fun _ => True := by
  cases string with
  | none => exact setError_keeps.bind fun _ _ => .pure trivial
  | some string => exact putAll_keeps hv

/-! ### Input -/

theorem fgetc_keeps :
    Keeps (Open base stream object shape) (fgetc fs stream) fun _ => True := by
  unfold fgetc
  refine load_keeps.bind fun file hshape => ?_
  refine .ite (fun _ => setError_keeps.bind fun _ _ => .pure trivial) fun _ => ?_
  refine .ite (fun _ => .bind (store_keeps hshape) fun _ _ => .pure trivial) fun _ => ?_
  subst hshape
  refine (call_keeps hv (tame_read _ _)).bind fun answer _ => ?_
  match answer with
  | none => exact setError_keeps.bind fun _ _ => .pure trivial
  | some [] => exact .bind (store_keeps rfl) fun _ _ => .pure trivial
  | some (c :: _) => exact .pure trivial

theorem fread_keeps {size nmemb : Nat} :
    Keeps (Open base stream object shape) (fread fs stream size nmemb) fun _ => True := by
  unfold fread
  refine .ite (fun _ => .pure trivial) fun _ => ?_
  refine load_keeps.bind fun file hshape => ?_
  refine .ite (fun _ => setError_keeps.bind fun _ _ => .pure trivial) fun _ => ?_
  refine .bind (store_keeps hshape) fun _ _ => ?_
  refine .ite (fun _ => .pure trivial) fun _ => ?_
  subst hshape
  refine (call_keeps hv (tame_read _ _)).bind fun answer _ => ?_
  match answer with
  | none => exact setError_keeps.bind fun _ _ => .pure trivial
  | some bytes =>
    refine .ite (fun _ => setError_keeps.bind fun _ _ => .pure trivial) fun _ => ?_
    exact .bind (.when fun _ => store_keeps rfl) fun _ _ => .pure trivial

omit hv in
theorem ungetc_keeps {c : Int} :
    Keeps (Open base stream object shape) (ungetc stream c) fun _ => True := by
  unfold ungetc
  refine .ite (fun _ => .pure trivial) fun _ => ?_
  refine load_keeps.bind fun file hshape => ?_
  refine .ite (fun _ => setError_keeps.bind fun _ _ => .pure trivial) fun _ => ?_
  refine .ite (fun _ => .pure trivial) fun _ => ?_
  exact .bind (store_keeps hshape) fun _ _ => .pure trivial

theorem getLine_keeps {room : Nat} :
    Keeps (Open base stream object shape) (getLine fs stream room) fun _ => True := by
  induction room with
  | zero => exact .pure trivial
  | succ room ih =>
    refine (fgetc_keeps hv).bind fun c _ => ?_
    refine .ite (fun _ => .pure trivial) fun _ => ?_
    refine .ite (fun _ => .pure trivial) fun _ => ?_
    exact ih.bind fun _ _ => .pure trivial

theorem fgets_keeps {size : Int} :
    Keeps (Open base stream object shape) (fgets fs stream size) fun _ => True := by
  unfold fgets
  refine .ite (fun _ => .fail) fun _ => ?_
  refine (getLine_keeps hv).bind fun line _ => ?_
  exact .ite (fun _ => .fail) fun _ => .pure trivial

/-! ### Positions -/

theorem fseek_keeps {offset : Int} {whence : Whence} :
    Keeps (Open base stream object shape) (fseek fs stream offset whence)
      fun _ => True := by
  unfold fseek
  refine load_keeps.bind fun file hshape => ?_
  refine .ite (fun _ => refuse_keeps) fun _ => ?_
  subst hshape
  refine (Keeps.when fun _ => fflush_keeps hv).bind fun _ _ => ?_
  refine (call_keeps hv (tame_seek _ _ _)).bind fun answer _ => ?_
  cases answer with
  | none => exact refuse_keeps
  | some position => exact load_keeps.bind fun _ hshape => store_keeps hshape

theorem ftell_keeps :
    Keeps (Open base stream object shape) (ftell fs stream) fun _ => True := by
  unfold ftell
  refine load_keeps.bind fun file hshape => ?_
  subst hshape
  refine (call_keeps hv (tame_seek _ _ _)).bind fun answer _ => ?_
  cases answer with
  | none => exact refuse_keeps
  | some pos =>
    refine .ite (fun _ => refuse_keeps) fun _ => ?_
    refine .ite (fun _ => refuse_keeps) fun _ => ?_
    exact .ite (fun _ => refuse_keeps) fun _ => .pure trivial

omit hv in
theorem clearerr_keeps :
    Keeps (Open base stream object shape) (clearerr stream) fun _ => True :=
  load_keeps.bind fun _ hshape => store_keeps hshape

omit hv in
theorem feof_keeps :
    Keeps (Open base stream object shape) (feof stream) fun _ => True :=
  load_keeps.bind fun _ _ => .pure trivial

omit hv in
theorem ferror_keeps :
    Keeps (Open base stream object shape) (ferror stream) fun _ => True :=
  load_keeps.bind fun _ _ => .pure trivial

theorem rewind_keeps :
    Keeps (Open base stream object shape) (rewind fs stream) fun _ => True := by
  unfold rewind
  exact (fseek_keeps hv).attempt.bind fun sought _ => .when fun _ => clearerr_keeps

end

/-! ## Buffers -/

/-- A buffer that a stream owns is freed once, also when another one has just been allocated. -/
theorem freeOwned_eq {new : Option Nat} (hfresh : ∀ b, file.owned = some b → base.buffers b = false)
    (hnew : ∀ b, new = some b → withOwned base.buffers file.owned b = false)
    (h : m.buffers = withOwned (withOwned base.buffers file.owned) new) :
    freeOwned file m = .done () { m with buffers := withOwned base.buffers new } := by
  unfold freeOwned
  cases howned : file.owned with
  | none =>
    rw [howned] at h
    show Ending.done () m = _
    rw [← show m.buffers = withOwned base.buffers new from h]
  | some buffer =>
    rw [howned] at h hnew
    have hbase := hfresh buffer howned
    have hbuffers : m.buffers buffer = true ∧
        update m.buffers buffer false = withOwned base.buffers new := by
      rw [h]
      cases new with
      | none =>
        refine ⟨update_self .., ?_⟩
        show update (update base.buffers buffer true) buffer false = base.buffers
        rw [update_idem, ← hbase, update_eq_self]
      | some b =>
        have hne : b ≠ buffer := by
          rintro rfl
          have htrue := hnew b rfl
          rw [withOwned, update_self] at htrue
          cases htrue
        constructor
        · show update (update base.buffers buffer true) b true buffer = true
          rw [update_of_ne hne.symm, update_self]
        · show update (update (update base.buffers buffer true) b true)
            buffer false = update base.buffers b true
          rw [update_comm hne, update_idem, ← hbase, update_eq_self]
    dsimp only
    unfold freeBuffer
    rw [if_pos hbuffers.1, hbuffers.2]

/-- The buffer that `setvbuf` allocates is a new one. -/
theorem prepareBuffer_meets {buffer block : Option Nat} {mode : Buffering}
    (hblock : ∀ b, block = some b → m.buffers b = false) : (prepareBuffer buffer mode block m).Meets
      (fun r t => t = { m with buffers := withOwned m.buffers (if r.2 then r.1 else none) } ∧
        ∀ b, (if r.2 then r.1 else none) = some b → m.buffers b = false) fun t => t = m := by
  unfold prepareBuffer
  by_cases hmode : mode = .none
  · rw [if_pos hmode]
    exact ⟨rfl, nofun⟩
  · rw [if_neg hmode]
    cases buffer with
    | some buffer => exact ⟨rfl, nofun⟩
    | none =>
      cases block with
      | none => exact rfl
      | some b => exact ⟨rfl, hblock⟩

/-- The end of `setvbuf`: the old buffer goes, and the new one takes its place. -/
theorem install_meets {bufferOwned : Bool} {writeBuffer : Option Nat} {size : Nat} {mode : Buffering}
    (h : Holds base stream object file m)
    (hnew : ∀ b, (if bufferOwned then writeBuffer else none) = some b → m.buffers b = false) :
    ((do
        let file ← load stream
        freeOwned file
        store stream
          { file with
            bufferOwned, writeBuffer, writeBufferSize := size, buffered := [], bufferingMode := mode } :
        Stdio φ Unit)
      { m with buffers := withOwned m.buffers (if bufferOwned then writeBuffer else none) }).Meets
      (fun _ => Kept base stream object file.fd file.writable) fun _ => False := by
  generalize hallocated : (if bufferOwned then writeBuffer else none) = new at hnew
  rw [h.buffers] at hnew ⊢
  let allocated : Machine φ :=
    { m with buffers := withOwned (withOwned base.buffers file.owned) new }
  have hstream : allocated.streams stream = some file := h.streams_self
  have hfree : freeOwned file allocated =
      .done () { m with buffers := withOwned base.buffers new } := freeOwned_eq h.fresh hnew rfl
  change (Bind.bind (load stream) _ allocated).Meets _ _
  rw [load_bind hstream, bind_done hfree]
  let installed : File :=
    { file with bufferOwned, writeBuffer, writeBufferSize := size, buffered := [], bufferingMode := mode }
  refine ⟨installed, ⟨rfl, rfl⟩, ?_, h.table, h.object, ?_, ?_⟩
  · show update m.streams stream (some installed) = _
    rw [h.stream, update_idem]
  · show withOwned base.buffers new = _
    rw [← hallocated]
    rfl
  · intro b hb
    have hb' : new = some b := by
      rw [← hallocated]
      exact hb
    have hbase := hnew b hb'
    cases howned : file.owned with
    | none =>
      rw [howned] at hbase
      exact hbase
    | some buffer =>
      rw [howned] at hbase
      have hne : b ≠ buffer := by
        rintro rfl
        rw [withOwned, update_self] at hbase
        cases hbase
      rwa [withOwned, update_of_ne hne] at hbase

theorem setvbuf_meets (hv : Vacant base file.fd object stream) {buffer block : Option Nat}
    {mode : Option Buffering} {size : Nat}
    (hblock : ∀ b, block = some b → withOwned base.buffers file.owned b = false) :
    Meets (Holds base stream object file) (setvbuf fs stream buffer mode size block)
      (fun _ => Kept base stream object file.fd file.writable)
      (Open base stream object file.shape) := by
  intro m hm
  unfold setvbuf
  rw [load_bind hm.streams_self]
  by_cases hw : file.writable = false
  · rw [if_pos hw]
    exact hm.opened rfl
  rw [if_neg hw]
  cases mode with
  | none => exact hm.opened rfl
  | some mode =>
    dsimp only
    by_cases hsize : mode ≠ .none ∧ size = 0
    · rw [if_pos hsize]
      exact hm.opened rfl
    rw [if_neg hsize]
    have hflush : Keeps (Open base stream object file.shape)
        (.when (file.buffered ≠ []) (fflush fs stream)) fun _ => True :=
      .when fun _ => fflush_keeps hv
    refine meets_bind (hflush m (hm.opened rfl)) fun _ t ht => ?_
    obtain ⟨⟨file1, hshape, ht⟩, -⟩ := ht
    have hbuffers : t.buffers = withOwned base.buffers file.owned := by
      rw [ht.buffers]
      exact congrArg (withOwned base.buffers) (congrArg Shape.owned hshape)
    rw [← hbuffers] at hblock
    refine meets_bind (meets_mono (prepareBuffer_meets hblock) (fun _ _ h => h)
      fun u hu => ?_) fun r u hu => ?_
    · rw [hu]
      exact ht.opened hshape
    · obtain ⟨rfl, hnew⟩ := hu
      refine meets_mono (install_meets ht hnew) (fun _ u hu => ?_) fun _ h => h.elim
      obtain ⟨file', ⟨hfd, hwritable⟩, hu⟩ := hu
      refine ⟨file', ⟨hfd.trans ?_, hwritable.trans ?_⟩, hu⟩
      · exact congrArg Shape.fd hshape
      · exact congrArg Shape.writable hshape

/-! ## Opening and closing -/

variable {writable : Bool}

theorem call_kept (hv : Vacant base fd object stream)
    (h : Kept base stream object fd writable m) {op : Op} (hfresh : Fresh m op) :
    (call fs stream op m).Meets (fun _ => Kept base stream object fd writable)
      (Kept base stream object fd writable) := by
  obtain ⟨file, ⟨rfl, rfl⟩, h⟩ := h
  have hshaped : ∀ t, Open base stream object file.shape t →
      Kept base stream object file.fd file.writable t := by
    rintro t ⟨file', hshape, ht⟩
    exact ⟨file', ⟨congrArg Shape.fd hshape, congrArg Shape.writable hshape⟩, ht⟩
  have hkept : ∀ {p : Stdio φ Unit},
      Keeps (Open base stream object file.shape) p (fun _ => True) → (p m).Meets
        (fun _ => Kept base stream object file.fd file.writable)
        (Kept base stream object file.fd file.writable) := by
    intro p hp
    exact meets_mono (hp m (h.opened rfl)) (fun _ t ht => hshaped t ht.1) hshaped
  have hv' : Vacant base file.shape.fd object stream := hv
  cases op with
  | fread size nmemb => exact hkept ((fread_keeps hv').bind fun _ _ => .pure trivial)
  | fwrite data size nmemb => exact hkept ((fwrite_keeps hv').bind fun _ _ => .pure trivial)
  | fgetc => exact hkept ((fgetc_keeps hv').bind fun _ _ => .pure trivial)
  | fputc c => exact hkept ((fputc_keeps hv').bind fun _ _ => .pure trivial)
  | ungetc c => exact hkept (ungetc_keeps.bind fun _ _ => .pure trivial)
  | fgets size => exact hkept ((fgets_keeps hv').bind fun _ _ => .pure trivial)
  | fputs string => exact hkept ((fputs_keeps hv').bind fun _ _ => .pure trivial)
  | fseek offset whence => exact hkept (fseek_keeps hv')
  | ftell => exact hkept ((ftell_keeps hv').bind fun _ _ => .pure trivial)
  | rewind => exact hkept (rewind_keeps hv')
  | clearerr => exact hkept clearerr_keeps
  | feof => exact hkept (feof_keeps.bind fun _ _ => .pure trivial)
  | ferror => exact hkept (ferror_keeps.bind fun _ _ => .pure trivial)
  | fflush => exact hkept (fflush_keeps hv')
  | setvbuf buffer mode size block =>
    have hblock : ∀ b, block = some b → withOwned base.buffers file.owned b = false := by
      intro b hb
      rw [← h.buffers]
      exact hfresh b hb
    exact meets_mono (setvbuf_meets hv hblock m h) (fun _ _ ht => ht) hshaped

/-- A call returns and keeps what the stream holds. -/
theorem step_kept (fs : Fs.FileSystem φ)
    (hv : Vacant base fd object stream) (h : Kept base stream object fd writable m) {op : Op}
    (hfresh : Fresh m op) : ∃ t, step fs stream m op = some t ∧ Kept base stream object fd writable t := by
  have hcall : (call fs stream op m).Meets _ _ := call_kept hv h hfresh
  unfold step
  cases hend : call fs stream op m with
  | done a t =>
    rw [hend] at hcall
    exact ⟨t, rfl, hcall⟩
  | failed t =>
    rw [hend] at hcall
    exact ⟨t, rfl, hcall⟩
  | fault =>
    rw [hend] at hcall
    exact hcall.elim

theorem run_kept (hv : Vacant base fd object stream)
    (h : Kept base stream object fd writable m) {ops : List Op}
    (hr : RunWhere (step fs stream) Fresh m ops t) : Kept base stream object fd writable t := by
  refine hr.invariant h fun u op u' hu hfresh hstep => ?_
  obtain ⟨u1, hstep1, hu1⟩ := step_kept fs hv hu hfresh
  obtain rfl := Option.some.inj (hstep.symm.trans hstep1)
  exact hu1

/-- Whether the mode has the stream written to. -/
def Writes (mode : List Char) : Prop := ∀ flags, fopenParseMode mode = some flags → flags.write = true

/-- Nothing is open yet. -/
def boot (x : φ) : Machine φ := ⟨Fs.boot x, fun _ => none, fun _ => false, false⟩

end MeatySkeleton.Libc.FileObjects
