import MeatySkeleton.Fs.FileTable

/-!
# Descriptors over whole runs of system calls

There is one descriptor table, and nothing in it says which process opened an
entry. What a run of system calls by any processes guarantees is therefore about
descriptors alone: from the `open` that returns it until some process closes it, a
descriptor leads to the same file object, for the same vnode and with the same
flags, and only operations on that descriptor change the object's offset. The exit
of a process closes nothing.
-/

namespace MeatySkeleton.Fs

open Function Option Lib

variable {φ : Type} {fs : FileSystem φ} {s s' s₁ s₂ : System φ} {a fd : Nat} {file : File}

/-- Every descriptor in use has a file object of its own. -/
structure TableOk (s : System φ) : Prop where
  live : ∀ fd a, s.fdTable fd = some a → ∃ file, s.files a = some file
  distinct : ∀ fd fd' a, s.fdTable fd = some a → s.fdTable fd' = some a → fd = fd'

/-- An operation on the file object at `a` moves its offset at most. -/
structure FileOnly (s s' : System φ) (a : Nat) : Prop where
  table : s'.fdTable = s.fdTable
  others : ∀ x, x ≠ a → s'.files x = s.files x
  object : ∀ file, s.files a = some file →
    ∃ file', s'.files a = some file' ∧ file'.vnode = file.vnode ∧ file'.flags = file.flags

theorem FileOnly.same {x : φ} : FileOnly s { s with fs := x } a :=
  ⟨rfl, fun _ _ => rfl, fun file h => ⟨file, h, rfl, rfl⟩⟩

theorem FileOnly.setOffset {file' : File} (h : s.files a = some file)
    (hv : file'.vnode = file.vnode) (hf : file'.flags = file.flags) (x : φ) (offset : Nat) :
    FileOnly s (System.setOffset { s with fs := x } a file' offset) a := by
  refine ⟨rfl, fun y hy => update_of_ne hy .., fun file0 h0 => ?_⟩
  obtain rfl := some.inj (h.symm.trans h0)
  exact ⟨_, update_self .., hv, hf⟩

theorem FileOnly.trans (h : FileOnly s s₁ a) (h' : FileOnly s₁ s₂ a) : FileOnly s s₂ a := by
  refine ⟨h'.table.trans h.table, fun x hx => (h'.others x hx).trans (h.others x hx), ?_⟩
  intro file hfile
  obtain ⟨file1, hfile1, hv1, hf1⟩ := h.object file hfile
  obtain ⟨file2, hfile2, hv2, hf2⟩ := h'.object file1 hfile1
  exact ⟨file2, hfile2, hv2.trans hv1, hf2.trans hf1⟩

theorem FileOnly.returned {α : Type} {x y : α} {s1 : System φ} (h : some (x, s1) = some (y, s'))
    (hs : FileOnly s s1 a) : FileOnly s s' a := by
  cases h
  exact hs

theorem vfsRead_fileOnly {size : Nat} {r : Option (List UInt8)}
    (h : vfsRead fs s a size = some (r, s')) : FileOnly s s' a := by
  obtain ⟨file, hfile, h⟩ := bind_eq_some_iff.mp h
  split at h
  · exact .returned h .same
  · split at h
    · exact .returned h .same
    · split at h
      · exact .returned h .same
      · exact .returned h (.setOffset hfile rfl rfl _ _)

theorem vfsWrite_fileOnly {bytes : List UInt8} {r : Option Nat}
    (h : vfsWrite fs s a bytes = some (r, s')) : FileOnly s s' a := by
  obtain ⟨file, hfile, h⟩ := bind_eq_some_iff.mp h
  split at h
  · exact .returned h .same
  · split at h
    · exact .returned h .same
    · -- an append moves the offset before the write
      generalize hmoved : (if file.flags.has vfsOpenAppend then
        { file with offset := fs.size s.fs file.vnode % sizeMax } else file) = moved at h
      have hv : moved.vnode = file.vnode := by
        rw [← hmoved]
        split <;> rfl
      have hf : moved.flags = file.flags := by
        rw [← hmoved]
        split <;> rfl
      have hfirst : FileOnly s (s.setOffset a moved moved.offset) a := .setOffset hfile hv hf s.fs _
      have hnow : (s.setOffset a moved moved.offset).files a = some moved := update_self ..
      dsimp only at h
      split at h
      · exact .returned h (hfirst.trans .same)
      · exact .returned h (hfirst.trans (.setOffset hnow rfl rfl _ _))

theorem vfsReaddir_fileOnly {r : Option (Option (Nat × String))}
    (h : vfsReaddir fs s a = some (r, s')) : FileOnly s s' a := by
  obtain ⟨file, hfile, h⟩ := bind_eq_some_iff.mp h
  split at h
  · exact .returned h .same
  · split at h
    · exact .returned h .same
    · split at h
      · exact .returned h .same
      · split at h
        · exact .returned h .same
        · split at h
          · exact .returned h .same
          · exact .returned h (.setOffset hfile rfl rfl _ _)

theorem vfsSeek_fileOnly {offset : Int} {whence : Whence} {r : Option Nat}
    (h : vfsSeek fs s a offset whence = some (r, s')) : FileOnly s s' a := by
  obtain ⟨file, hfile, h⟩ := bind_eq_some_iff.mp h
  split at h
  · exact .returned h .same
  · exact .returned h (.setOffset hfile rfl rfl s.fs _)

theorem seekChecked_fileOnly {offset : Int} {whence : Whence} {r : Option Nat}
    (h : seekChecked fs s a offset whence = some (r, s')) : FileOnly s s' a := by
  cases whence with
  | other => exact .returned h .same
  | _ => exact vfsSeek_fileOnly h

/-! ## System calls -/

inductive Call where
  | open (path : String) (flags : OpenFlags) (block : Option Nat)
  | read (fd size : Nat)
  | write (fd : Nat) (bytes : List UInt8)
  | readdir (fd : Nat)
  | seek (fd : Nat) (offset : Int) (whence : Whence)
  | close (fd : Nat)
  | exit

/-- The descriptor a call names. -/
def Call.descriptor : Call → Option Nat
  | .read fd _ | .write fd _ | .readdir fd | .seek fd _ _ | .close fd => some fd
  | .open _ _ _ | .exit => none

structure Event where
  pid : Nat
  call : Call

/-- One call. `kmalloc` never hands out a block that is in use; `exit` does not
look at the table. -/
def step (fs : FileSystem φ) (s : System φ) (e : Event) : Option (System φ) :=
  match e.call with
  | .open path flags block =>
    if block.any fun a => (s.files a).isSome then none
    else (kernelFdOpen fs s path flags block).map Prod.snd
  | .read fd size => (kernelFdRead fs s fd size).map Prod.snd
  | .write fd bytes => (kernelFdWrite fs s fd bytes).map Prod.snd
  | .readdir fd => (kernelFdReaddir fs s fd).map Prod.snd
  | .seek fd offset whence => (kernelFdSeek fs s fd offset whence).map Prod.snd
  | .close fd => (kernelFdClose fs s fd).map Prod.snd
  | .exit => some s

def boot (x : φ) : System φ := ⟨x, fun _ => none, fun _ => none⟩

/-- A change of the file object behind `fd`, and of nothing else. -/
def Moves (s s' : System φ) (fd : Nat) : Prop :=
  (s'.fdTable = s.fdTable ∧ s'.files = s.files) ∨ ∃ a, s.fdTable fd = some a ∧ FileOnly s s' a

theorem withFile_moves {α : Type} {op : System φ → Nat → Option (Option α × System φ)}
    {r : Option α} (hop : ∀ {a r s'}, op s a = some (r, s') → FileOnly s s' a)
    (h : withFile s fd op = some (r, s')) : Moves s s' fd := by
  unfold withFile fdLookup at h
  split at h
  · cases h
    exact .inl ⟨rfl, rfl⟩
  case h_2 a hlookup =>
    split at hlookup
    · exact .inr ⟨a, hlookup, hop h⟩
    · cases hlookup

theorem TableOk.fileOnly (h : TableOk s) (hf : FileOnly s s' a) : TableOk s' := by
  refine ⟨fun fd x hx => ?_, fun fd fd' x hx hx' => ?_⟩
  · rw [hf.table] at hx
    obtain ⟨file, hfile⟩ := h.live fd x hx
    by_cases hxa : x = a
    · subst hxa
      obtain ⟨file', hfile', -⟩ := hf.object file hfile
      exact ⟨file', hfile'⟩
    · exact ⟨file, (hf.others x hxa).trans hfile⟩
  · rw [hf.table] at hx hx'
    exact h.distinct fd fd' x hx hx'

theorem TableOk.moves (h : TableOk s) (hm : Moves s s' fd) : TableOk s' := by
  rcases hm with ⟨htable, hfiles⟩ | ⟨a, -, hf⟩
  · refine ⟨fun fd x hx => ?_, fun fd fd' x hx hx' => ?_⟩
    · rw [htable] at hx
      rw [hfiles]
      exact h.live fd x hx
    · rw [htable] at hx hx'
      exact h.distinct fd fd' x hx hx'
  · exact h.fileOnly hf

/-- The outcome of `kernel_fd_open`: no change, or a new object behind a free
descriptor. -/
theorem kernelFdOpen_cases {path : String} {flags : OpenFlags} {block r : Option Nat}
    (hblock : ∀ a, block = some a → s.files a = none)
    (h : kernelFdOpen fs s path flags block = some (r, s')) :
    (r = none ∧ s'.fdTable = s.fdTable ∧ s'.files = s.files) ∨
      ∃ fd a node v, r = some fd ∧ s.fdTable fd = none ∧ s.files a = none ∧ vfsFlags flags = some v ∧
        (vfsResolve fs s.fs path v).1 = some node ∧
        s'.fdTable = update s.fdTable fd (some a) ∧
        s'.files = update s.files a (some ⟨node, 0, v⟩) := by
  unfold kernelFdOpen at h
  split at h
  · cases h
    exact .inl ⟨rfl, rfl, rfl⟩
  case h_2 v hv =>
    split at h
    case h_1 s1 hopen =>
      cases h
      obtain ⟨htable, ⟨-, hfiles⟩ | ⟨a, node, hsome, -⟩⟩ := vfsOpen_cases hopen
      · exact .inl ⟨rfl, htable, hfiles⟩
      · cases hsome
    case h_2 a s1 hopen =>
      obtain ⟨htable, ⟨hnone, -⟩ | ⟨a', node, ha, hba, hnode, hfiles⟩⟩ := vfsOpen_cases hopen
      · cases hnone
      · obtain rfl := some.inj ha
        have hfresh := hblock a hba
        unfold fdPublish at h
        split at h
        case h_1 fd s2 hpublish =>
          split at hpublish
          case h_1 fd' hfree =>
            obtain ⟨hfd, rfl⟩ := Prod.mk.inj hpublish
            obtain rfl := some.inj hfd
            cases h
            have hnone := freeDescriptor_free hfree
            rw [htable] at hnone
            refine .inr ⟨fd', a, node, v, rfl, hnone, hfresh, hv, hnode, ?_, hfiles⟩
            rw [htable]
          case h_2 =>
            cases (Prod.mk.inj hpublish).1
        case h_2 s2 hpublish =>
          split at hpublish
          case h_1 =>
            cases (Prod.mk.inj hpublish).1
          case h_2 =>
            obtain ⟨-, rfl⟩ := Prod.mk.inj hpublish
            obtain ⟨s3, hclose, hr⟩ := map_eq_some_iff.mp h
            obtain ⟨rfl, rfl⟩ := Prod.mk.inj hr
            obtain ⟨file, -, hclose⟩ := bind_eq_some_iff.mp hclose
            obtain rfl := some.inj hclose
            refine .inl ⟨rfl, htable, ?_⟩
            show update s1.files a none = s.files
            rw [hfiles, update_idem, ← hfresh, update_eq_self]

theorem kernelFdClose_cases {r : Bool} (h : kernelFdClose fs s fd = some (r, s')) :
    (s'.fdTable = s.fdTable ∧ s'.files = s.files) ∨ ∃ a, s.fdTable fd = some a ∧
      s'.fdTable = update s.fdTable fd none ∧
      s'.files = update s.files a none := by
  unfold kernelFdClose at h
  split at h
  · cases h
    exact .inl ⟨rfl, rfl⟩
  case h_2 a s1 htake =>
    obtain ⟨a', hlookup, hr⟩ := map_eq_some_iff.mp htake
    obtain ⟨rfl, rfl⟩ := Prod.mk.inj hr
    unfold fdLookup at hlookup
    split at hlookup
    · obtain ⟨s2, hclose, hr'⟩ := map_eq_some_iff.mp h
      obtain ⟨-, rfl⟩ := Prod.mk.inj hr'
      obtain ⟨file, -, hclose⟩ := bind_eq_some_iff.mp hclose
      obtain rfl := some.inj hclose
      exact .inr ⟨a', hlookup, rfl, rfl⟩
    · cases hlookup

/-! ## One call -/

/-- What a call can do to the table and the file objects. -/
inductive Effect (s : System φ) (c : Call) (s' : System φ) : Prop
  | none : s'.fdTable = s.fdTable → s'.files = s.files → Effect s c s'
  | moved {fd a : Nat} : c.descriptor = some fd → s.fdTable fd = some a → FileOnly s s' a → Effect s c s'
  | opened {fd a : Nat} {file : File} : s.fdTable fd = .none → s.files a = .none →
      s'.fdTable = update s.fdTable fd (some a) →
      s'.files = update s.files a (some file) → Effect s c s'
  | closed {fd a : Nat} : c = .close fd → s.fdTable fd = some a →
      s'.fdTable = update s.fdTable fd .none →
      s'.files = update s.files a .none → Effect s c s'

theorem Moves.effect {c : Call} (h : Moves s s' fd) (hc : c.descriptor = some fd) : Effect s c s' := by
  rcases h with ⟨htable, hfiles⟩ | ⟨a, ha, hf⟩
  · exact .none htable hfiles
  · exact .moved hc ha hf

theorem step_effect {e : Event} (h : step fs s e = some s') : Effect s e.call s' := by
  obtain ⟨pid, c⟩ := e
  cases c with
  | «open» path flags block =>
    rw [step, ite_none_left_eq_some] at h
    obtain ⟨⟨r, s1⟩, hopen, rfl⟩ := map_eq_some_iff.mp h.2
    have hblock : ∀ a, block = some a → s.files a = none := by
      rintro a rfl
      have hno := h.1
      rwa [any_some, isSome_iff_ne_none, not_not] at hno
    rcases kernelFdOpen_cases hblock hopen with ⟨-, htable, hfiles⟩ |
      ⟨fd, a, node, v, -, hfd, ha, -, -, htable, hfiles⟩
    · exact .none htable hfiles
    · exact .opened hfd ha htable hfiles
  | read fd size =>
    obtain ⟨⟨r, s1⟩, hop, rfl⟩ := map_eq_some_iff.mp h
    exact (withFile_moves vfsRead_fileOnly hop).effect rfl
  | write fd bytes =>
    obtain ⟨⟨r, s1⟩, hop, rfl⟩ := map_eq_some_iff.mp h
    exact (withFile_moves vfsWrite_fileOnly hop).effect rfl
  | readdir fd =>
    obtain ⟨⟨r, s1⟩, hop, rfl⟩ := map_eq_some_iff.mp h
    exact (withFile_moves vfsReaddir_fileOnly hop).effect rfl
  | seek fd offset whence =>
    obtain ⟨⟨r, s1⟩, hop, rfl⟩ := map_eq_some_iff.mp h
    exact (withFile_moves seekChecked_fileOnly hop).effect rfl
  | close fd =>
    obtain ⟨⟨r, s1⟩, hop, rfl⟩ := map_eq_some_iff.mp h
    rcases kernelFdClose_cases hop with ⟨htable, hfiles⟩ | ⟨a, ha, htable, hfiles⟩
    · exact .none htable hfiles
    · exact .closed rfl ha htable hfiles
  | exit =>
    obtain rfl := some.inj h
    exact .none rfl rfl

theorem Effect.tableOk {c : Call} (h : TableOk s) (he : Effect s c s') : TableOk s' := by
  cases he with
  | none htable hfiles =>
    have hm : Moves s s' 0 := .inl ⟨htable, hfiles⟩
    exact h.moves hm
  | moved _ ha hf => exact h.fileOnly hf
  | @opened fd a file hfd ha htable hfiles =>
    have hne : ∀ d x, s.fdTable d = some x → x ≠ a := by
      rintro d x hx rfl
      obtain ⟨file, hfile⟩ := h.live d x hx
      rw [ha] at hfile
      cases hfile
    refine ⟨fun d x hx => ?_, fun d d' x hx hx' => ?_⟩
    · rw [htable] at hx
      rw [hfiles]
      by_cases hd : d = fd
      · subst hd
        rw [update_self] at hx
        obtain rfl := some.inj hx
        exact ⟨file, update_self ..⟩
      · rw [update_of_ne hd] at hx
        rw [update_of_ne (hne d x hx)]
        exact h.live d x hx
    · rw [htable] at hx hx'
      by_cases hd : d = fd <;> by_cases hd' : d' = fd
      · rw [hd, hd']
      · rw [hd, update_self] at hx
        rw [update_of_ne hd'] at hx'
        exact absurd (some.inj hx).symm (hne d' x hx')
      · rw [hd', update_self] at hx'
        rw [update_of_ne hd] at hx
        exact absurd (some.inj hx').symm (hne d x hx)
      · rw [update_of_ne hd] at hx
        rw [update_of_ne hd'] at hx'
        exact h.distinct d d' x hx hx'
  | @closed fd a _ ha htable hfiles =>
    have hopen : ∀ d x, s'.fdTable d = some x → d ≠ fd ∧ s.fdTable d = some x := by
      intro d x hx
      rw [htable] at hx
      by_cases hd : d = fd
      · rw [hd, update_self] at hx
        cases hx
      · rw [update_of_ne hd] at hx
        exact ⟨hd, hx⟩
    refine ⟨fun d x hx => ?_, fun d d' x hx hx' => ?_⟩
    · obtain ⟨hd, hx⟩ := hopen d x hx
      have hxa : x ≠ a := by
        rintro rfl
        exact hd (h.distinct d fd x hx ha)
      rw [hfiles, update_of_ne hxa]
      exact h.live d x hx
    · exact h.distinct d d' x (hopen d x hx).2 (hopen d' x hx').2

/-- What a descriptor names after a call that does not close it. -/
theorem Effect.kept {c : Call} (h : TableOk s) (he : Effect s c s') (hfd : s.fdTable fd = some a)
    (hfile : s.files a = some file) (hclose : c ≠ .close fd) :
    s'.fdTable fd = some a ∧ ∃ file', s'.files a = some file' ∧ file'.vnode = file.vnode ∧
      file'.flags = file.flags ∧ (c.descriptor ≠ some fd → file' = file) := by
  cases he with
  | none htable hfiles =>
    rw [htable, hfiles]
    exact ⟨hfd, file, hfile, rfl, rfl, fun _ => rfl⟩
  | @moved d x hd hx hf =>
    rw [hf.table]
    refine ⟨hfd, ?_⟩
    by_cases hxa : x = a
    · subst hxa
      obtain ⟨file', hfile', hv, hfl⟩ := hf.object file hfile
      refine ⟨file', hfile', hv, hfl, fun hne => absurd ?_ hne⟩
      rw [hd, h.distinct d fd x hx hfd]
    · exact ⟨file, (hf.others a (Ne.symm hxa)).trans hfile, rfl, rfl, fun _ => rfl⟩
  | @opened d x _ hd hx htable hfiles =>
    have hne : fd ≠ d := by
      rintro rfl
      rw [hd] at hfd
      cases hfd
    have hax : a ≠ x := by
      rintro rfl
      rw [hx] at hfile
      cases hfile
    rw [htable, hfiles, update_of_ne hne, update_of_ne hax]
    exact ⟨hfd, file, hfile, rfl, rfl, fun _ => rfl⟩
  | @closed d x hd hx htable hfiles =>
    have hne : fd ≠ d := by
      rintro rfl
      exact hclose hd
    have hax : a ≠ x := by
      rintro rfl
      exact hne (h.distinct fd d a hfd hx)
    rw [htable, hfiles, update_of_ne hne, update_of_ne hax]
    exact ⟨hfd, file, hfile, rfl, rfl, fun _ => rfl⟩

/-! ## Whole runs -/

theorem boot_tableOk (x : φ) : TableOk (boot x) := ⟨nofun, nofun⟩

theorem run_tableOk {x : φ} {es : List Event} (hr : Run (step fs) (boot x) es s) : TableOk s :=
  hr.invariant (boot_tableOk x) fun _ _ _ h _ hs => (step_effect hs).tableOk h

theorem run_kept {es : List Event} (h : TableOk s) (hr : Run (step fs) s es s')
    (hfd : s.fdTable fd = some a) (hfile : s.files a = some file)
    (hclose : ∀ e ∈ es, e.call ≠ .close fd) : TableOk s' ∧ s'.fdTable fd = some a ∧
      ∃ file', s'.files a = some file' ∧ file'.vnode = file.vnode ∧ file'.flags = file.flags ∧
        ((∀ e ∈ es, e.call.descriptor ≠ some fd) → file' = file) := by
  induction hr with
  | nil => exact ⟨h, hfd, file, hfile, rfl, rfl, fun _ => rfl⟩
  | @snoc es t u e _ _ hs ih =>
    obtain ⟨hok, hfd', file1, hfile1, hv, hf, hsame⟩ := ih fun e' he' =>
      hclose e' (List.mem_append_left _ he')
    have he := step_effect hs
    have hlast : e ∈ es ++ [e] := List.mem_append_right _ (List.mem_singleton.mpr rfl)
    obtain ⟨hfd'', file2, hfile2, hv2, hf2, hsame2⟩ := he.kept hok hfd' hfile1 (hclose e hlast)
    refine ⟨he.tableOk hok, hfd'', file2, hfile2, hv2.trans hv, hf2.trans hf, fun hall => ?_⟩
    rw [hsame2 (hall e hlast), hsame fun e' he' => hall e' (List.mem_append_left _ he')]

/-- From the `open` that returns it until some process closes it, a descriptor
names the file it was opened for; only operations on it change its offset; and
`open` never returns a descriptor that is in use. -/
theorem run_descriptor {x : φ} {es es' : List Event} {path : String} {flags : OpenFlags}
    {block : Option Nat} (hr : Run (step fs) (boot x) es s)
    (hblock : ∀ a, block = some a → s.files a = none)
    (hopen : kernelFdOpen fs s path flags block = some (some fd, s₁))
    (hr' : Run (step fs) s₁ es' s₂) (hclose : ∀ e ∈ es', e.call ≠ .close fd) :
    s.fdTable fd = none ∧ ∃ a file file' v, vfsFlags flags = some v ∧
      (vfsResolve fs s.fs path v).1 = some file.vnode ∧ s₁.fdTable fd = some a ∧
      s₁.files a = some file ∧ s₂.fdTable fd = some a ∧ s₂.files a = some file' ∧
      file'.vnode = file.vnode ∧ file'.flags = file.flags ∧
      ((∀ e ∈ es', e.call.descriptor ≠ some fd) → file' = file) := by
  have hok := run_tableOk hr
  rcases kernelFdOpen_cases hblock hopen with ⟨hnone, -⟩ |
    ⟨d, a, node, v, hd, hfree, ha, hv, hnode, htable, hfiles⟩
  · cases hnone
  · obtain rfl := Option.some.inj hd
    have hfd1 : s₁.fdTable fd = some a := by rw [htable, Function.update_self]
    have hfile₁ : s₁.files a = some ⟨node, 0, v⟩ := by rw [hfiles, Function.update_self]
    have hok1 : TableOk s₁ := Effect.tableOk (c := .exit) hok (.opened hfree ha htable hfiles)
    obtain ⟨-, hfd2, file', hfile', hvnode, hflags, hsame⟩ := run_kept hok1 hr' hfd1 hfile₁ hclose
    exact ⟨hfree, a, _, file', v, hv, hnode, hfd1, hfile₁, hfd2, hfile', hvnode, hflags, hsame⟩

/-- A file system with one empty regular file, vnode 7, whatever the path. -/
def oneFile : FileSystem Unit where
  lookup x _ := (some 7, x)
  lookupParent x _ := (none, x)
  type _ _ := .regular
  size _ _ := 0
  create _ _ := none
  truncate _ _ := none
  read x _ := some fun _ _ => (some [], x)
  write x _ := some fun _ bytes => (some bytes.length, x)
  readdir _ _ := none
  unref x _ := x

/-- Process 1 opens a file; process 2 writes to it through the same descriptor,
and process 1 exits. -/
theorem run_descriptor_shared : ∃ s₁ s₂,
    kernelFdOpen oneFile (boot ()) "/data" 0x3#32 (some 100) = some (some 3, s₁) ∧
      Run (step oneFile) s₁ [⟨2, .write 3 [1, 2]⟩, ⟨1, .exit⟩] s₂ ∧
      ∃ a file, s₂.fdTable 3 = some a ∧ s₂.files a = some file ∧ file.vnode = 7 := by
  have hopen : (kernelFdOpen oneFile (boot ()) "/data" 0x3#32 (some 100)).map Prod.fst =
      some (some 3) := by decide +kernel
  obtain ⟨⟨r, s₁⟩, hopen, rfl⟩ := Option.map_eq_some_iff.mp hopen
  have hrun : ((kernelFdOpen oneFile (boot ()) "/data" 0x3#32 (some 100)).bind fun r =>
      exec (step oneFile) (fun _ _ => True) r.2 [⟨2, .write 3 [1, 2]⟩, ⟨1, .exit⟩]).any
        (fun _ => true) = true := by decide +kernel
  rw [hopen] at hrun
  obtain ⟨s₂, hexec, -⟩ := (Option.any_eq_true _ _).mp hrun
  have hclose : ∀ e ∈ [(⟨2, .write 3 [1, 2]⟩ : Event), ⟨1, .exit⟩], e.call ≠ .close 3 := by
    intro e he
    rcases List.mem_cons.mp he with rfl | he
    · nofun
    · obtain rfl := List.mem_singleton.mp he
      nofun
  obtain ⟨-, a, file, file', v, -, hnode, -, -, hfd, hfile', hv, -, -⟩ :=
    run_descriptor .nil (fun _ _ => rfl) hopen (run_of_exec hexec) hclose
  refine ⟨s₁, s₂, hopen, run_of_exec hexec, a, file', hfd, hfile', ?_⟩
  rw [hv]
  exact (Option.some.inj hnode).symm

/-- A process can lose its descriptor without closing it: process 1 opens a file,
process 2 closes the descriptor. -/
theorem not_run_descriptor : ¬ ∀ (s s₁ s₂ : System Unit) (es es' : List Event) (pid fd : Nat)
    (path : String) (flags : OpenFlags) (block : Option Nat), Run (step oneFile) (boot ()) es s →
      (∀ a, block = some a → s.files a = none) →
      kernelFdOpen oneFile s path flags block = some (some fd, s₁) →
      Run (step oneFile) s₁ es' s₂ → (∀ e ∈ es', e.pid = pid → e.call ≠ .close fd) →
      s₂.fdTable fd = s₁.fdTable fd := by
  intro hall
  have hopen : ((kernelFdOpen oneFile (boot ()) "/data" 0x1#32 (some 100)).bind fun r =>
      (exec (step oneFile) (fun _ _ => True) r.2 [⟨2, .close 3⟩]).map fun s => (r, s)).any
        (fun rs => decide (rs.1.1 = some 3 ∧ rs.1.2.fdTable 3 = some 100 ∧ rs.2.fdTable 3 = none)) =
          true := by decide +kernel
  obtain ⟨⟨⟨r, s₁⟩, s₂⟩, hrun, hends⟩ := (Option.any_eq_true _ _).mp hopen
  obtain ⟨⟨r', s1'⟩, hkernel, hrun⟩ := Option.bind_eq_some_iff.mp hrun
  obtain ⟨s2', hexec, hends'⟩ := Option.map_eq_some_iff.mp hrun
  obtain ⟨hfirst, rfl⟩ := Prod.mk.inj hends'
  obtain ⟨rfl, rfl⟩ := Prod.mk.inj hfirst
  obtain ⟨hr, hbefore, hafter⟩ := of_decide_eq_true hends
  have hr' : r' = some 3 := hr
  rw [hr'] at hkernel
  have hkept := hall _ s1' s2' [] _ 1 3 _ _ _ .nil (fun _ _ => rfl) hkernel (run_of_exec hexec)
    (by
      intro e he hpid
      obtain rfl := List.mem_singleton.mp he
      cases hpid)
  rw [hafter, hbefore] at hkept
  cases hkept

end MeatySkeleton.Fs
