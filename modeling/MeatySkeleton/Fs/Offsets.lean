import MeatySkeleton.Fs.Lifetime

/-!
# The offset of a file object

A read or a write moves the offset of its file object by the count it reports, and a failing
call leaves it where it is: that is what `vfs.c` is after. `run_disciplined_iff` says when a run
of calls keeps to it. There are two ways not to: the sum of offset and count is reduced modulo
the size of `size_t`, and a write that appends has moved the offset to the end of the file before
the driver refuses it. A seek always lands on the exact sum.
-/

namespace MeatySkeleton.Fs

open Option Lib

variable {φ : Type}

/-- A call on the file object at `a`; or the file system moves on by itself. -/
inductive OffsetLabel (φ : Type) where
  | call (a : Nat) (op : FileOp)
  | drive (x : φ)

def offsetStep (fs : FileSystem φ) (s : System φ) : OffsetLabel φ → Option (System φ)
  | .call a op => vfsOperate fs s a op
  | .drive x => some { s with fs := x }

/-! ## What a call should do to the offset -/

/-- Where a write starts. -/
def writeStart (fs : FileSystem φ) (x : φ) (file : File) : Nat :=
  if file.flags.has vfsOpenAppend then fs.size x file.vnode else file.offset

/-- What a seek counts from. -/
def seekBase (fs : FileSystem φ) (x : φ) (file : File) : Whence → Option Int
  | .set => some 0
  | .cur => some file.offset
  | .end => some (fs.size x file.vnode)
  | .other => none

def File.moveTo (file : File) (offset : Nat) : File := { file with offset := offset }

/-- The offset of `file`, the object at `a`, after a call. -/
def MovesOffset (fs : FileSystem φ) (s : System φ) (a : Nat) (file : File) : FileOp → Prop
  | .read size => ∀ r s', vfsRead fs s a size = some (r, s') →
      match r with
      | none => s'.files a = some file
      | some bytes => s'.files a = some (file.moveTo (file.offset + bytes.length))
  | .write bytes => ∀ r s', vfsWrite fs s a bytes = some (r, s') →
      match r with
      | none => s'.files a = some file
      | some count => s'.files a = some (file.moveTo (writeStart fs s.fs file + count))
  | .readdir => ∀ s', vfsReaddir fs s a = some (none, s') → s'.files a = some file
  | .seek offset whence => ∀ r s', vfsSeek fs s a offset whence = some (r, s') →
      match r with
      | none => s'.files a = some file
      | some position => s'.files a = some (file.moveTo position) ∧ position < sizeMax ∧
          ∃ base, seekBase fs s.fs file whence = some base ∧ position = base + offset

def Disciplined (fs : FileSystem φ) (s : System φ) : OffsetLabel φ → Prop
  | .call a op => ∀ file, s.files a = some file → MovesOffset fs s a file op
  | .drive _ => True

/-! ## When it does -/

/-- The offset a write hands to the driver. -/
def writeOffset (fs : FileSystem φ) (x : φ) (file : File) : Nat :=
  if file.flags.has vfsOpenAppend then fs.size x file.vnode % sizeMax else file.offset

/-- The driver's answer to a read, or the refusal of the call. -/
def readAnswer (fs : FileSystem φ) (x : φ) (file : File) (size : Nat) : Option (List UInt8) × φ :=
  if file.flags.has vfsOpenRead = false then (none, x)
  else match fs.read x file.vnode with
    | none => (none, x)
    | some read => read file.offset size

/-- The driver's answer to a write, if it is asked. -/
def writeAnswer (fs : FileSystem φ) (x : φ) (file : File) (bytes : List UInt8) :
    Option (Option Nat × φ) :=
  if file.flags.has vfsOpenWrite = false then none
  else (fs.write x file.vnode).map fun write => write (writeOffset fs x file) bytes

/-- The new offset fits `size_t`, and a driver that refuses to append finds the offset at the end
of the file. -/
def OffsetFits (fs : FileSystem φ) (x : φ) (file : File) : FileOp → Prop
  | .read size => ∀ bytes, (readAnswer fs x file size).1 = some bytes →
      file.offset + bytes.length < sizeMax
  | .write bytes => ∀ r, writeAnswer fs x file bytes = some r →
      match r.1 with
      | none => writeOffset fs x file = file.offset
      | some count => writeStart fs x file + count < sizeMax
  | _ => True

def Fits (fs : FileSystem φ) (s : System φ) : OffsetLabel φ → Prop
  | .call a op => ∀ file, s.files a = some file → OffsetFits fs s.fs file op
  | .drive _ => True

variable {fs : FileSystem φ} {s s' : System φ} {a : Nat} {file : File}

theorem setOffset_files (s : System φ) (a : Nat) (file : File) (offset : Nat) :
    (s.setOffset a file offset).files a = some (file.moveTo offset) := Function.update_self ..

@[simp] theorem moveTo_eq_self {i : Nat} : file.moveTo i = file ↔ i = file.offset := by
  constructor
  · intro h
    exact congrArg File.offset h
  · intro h
    rw [h]
    rfl

@[simp] theorem moveTo_inj {i j : Nat} : file.moveTo i = file.moveTo j ↔ i = j := by
  constructor
  · intro h
    exact congrArg File.offset h
  · intro h
    rw [h]

theorem mod_sizeMax_iff (n : Nat) : n % sizeMax = n ↔ n < sizeMax := by
  unfold sizeMax
  omega

/-! ## One call -/

section

variable (h : s.files a = some file)

include h

theorem vfsRead_eq (size : Nat) : vfsRead fs s a size =
    some ((readAnswer fs s.fs file size).1,
      match readAnswer fs s.fs file size with
      | (none, x) => { s with fs := x }
      | (some bytes, x) =>
        System.setOffset { s with fs := x } a file ((file.offset + bytes.length) % sizeMax)) := by
  simp only [vfsRead, readAnswer, h, bind_eq_bind, bind_some]
  cases hflag : file.flags.has vfsOpenRead with
  | false => rfl
  | true =>
    cases hop : fs.read s.fs file.vnode with
    | none => simp
    | some read =>
      rcases hr : read file.offset size with ⟨_ | bytes, x⟩
      · simp [hr]
      · simp [hr]

theorem read_iff (size : Nat) :
    MovesOffset fs s a file (.read size) ↔ OffsetFits fs s.fs file (.read size) := by
  simp only [MovesOffset, OffsetFits, vfsRead_eq h]
  rcases readAnswer fs s.fs file size with ⟨_ | bytes, x⟩
  · simp [h]
  · simp [setOffset_files, mod_sizeMax_iff]

theorem vfsWrite_eq (bytes : List UInt8) : vfsWrite fs s a bytes =
    some (match writeAnswer fs s.fs file bytes with
      | none => (none, s)
      | some (none, x) =>
        (none, System.setOffset { s with fs := x } a file (writeOffset fs s.fs file))
      | some (some count, x) =>
        (some count, System.setOffset { s with fs := x } a file
          ((writeOffset fs s.fs file + count) % sizeMax))) := by
  simp only [vfsWrite, writeAnswer, h, bind_eq_bind, bind_some]
  cases hflag : file.flags.has vfsOpenWrite with
  | false => rfl
  | true =>
    cases hop : fs.write s.fs file.vnode with
    | none => simp
    | some write =>
      have hoffset : (if file.flags.has vfsOpenAppend = true then
          { file with offset := fs.size s.fs file.vnode % sizeMax } else file) =
          file.moveTo (writeOffset fs s.fs file) := by
        unfold writeOffset
        split <;> rfl
      simp only [hoffset]
      rcases hw : write (writeOffset fs s.fs file) bytes with ⟨_ | count, x⟩
      · simp [File.moveTo, hw, System.setOffset]
      · simp [File.moveTo, hw, System.setOffset]

theorem write_iff (bytes : List UInt8) :
    MovesOffset fs s a file (.write bytes) ↔ OffsetFits fs s.fs file (.write bytes) := by
  simp only [MovesOffset, OffsetFits, vfsWrite_eq h]
  rcases writeAnswer fs s.fs file bytes with _ | ⟨_ | count, x⟩
  · simp [h]
  · simp [setOffset_files]
  · -- the file's size is reduced, then the sum is
    have hmod : (writeOffset fs s.fs file + count) % sizeMax =
        (writeStart fs s.fs file + count) % sizeMax := by
      unfold writeOffset writeStart
      split
      · exact Nat.mod_add_mod ..
      · rfl
    simp [setOffset_files, hmod, mod_sizeMax_iff]

theorem readdir_moves : MovesOffset fs s a file .readdir := by
  intro s' hr
  simp only [vfsReaddir, h, bind_eq_bind, bind_some] at hr
  split at hr
  · cases hr
    exact h
  · split at hr
    · cases hr
      exact h
    · split at hr
      · cases hr
        exact h
      · split at hr
        · cases hr
          exact h
        · -- the driver has an answer
          split at hr
          · cases hr
            exact h
          · cases (Prod.mk.inj (some.inj hr)).1

end

/-- A seek that is accepted lands on the exact sum. -/
theorem seekTarget_some {offset : Int} {whence : Whence} {position : Nat}
    (h : seekTarget fs s.fs file file.vnode offset whence = some position) :
    position < sizeMax ∧
      ∃ base, seekBase fs s.fs file whence = some base ∧ position = base + offset := by
  have hmain : ∀ base : Int,
      (if (0 < offset ∧ 2 ^ 63 - 1 - offset < base) ∨ (offset < 0 ∧ base < -2 ^ 63 - offset) then none
        else if base + offset < 0 then none
        else if (sizeMax : Int) ≤ base + offset then none
        else some (base + offset).toNat) = some position →
      position < sizeMax ∧ position = base + offset := by
    intro base hbase
    unfold sizeMax at *
    split at hbase
    · cases hbase
    · split at hbase
      · cases hbase
      · split at hbase
        · cases hbase
        · obtain rfl := some.inj hbase
          omega
  cases whence with
  | set =>
    obtain ⟨hlt, heq⟩ := hmain 0 h
    exact ⟨hlt, _, rfl, heq⟩
  | cur =>
    obtain ⟨hlt, heq⟩ := hmain file.offset h
    exact ⟨hlt, _, rfl, heq⟩
  | «end» =>
    unfold seekTarget at h
    by_cases hsize : sizeMax ≤ fs.size s.fs file.vnode
    · simp [hsize] at h
    · simp only [hsize, if_false] at h
      obtain ⟨hlt, heq⟩ := hmain _ h
      exact ⟨hlt, _, rfl, heq⟩
  | other => cases h

theorem seek_moves (h : s.files a = some file) (offset : Int) (whence : Whence) :
    MovesOffset fs s a file (.seek offset whence) := by
  intro r s' hr
  simp only [vfsSeek, h, bind_eq_bind, bind_some] at hr
  split at hr
  · cases hr
    exact h
  case h_2 position htarget =>
    cases hr
    exact ⟨setOffset_files .., seekTarget_some htarget⟩

theorem disciplined_iff (fs : FileSystem φ) (s : System φ) (label : OffsetLabel φ) :
    Disciplined fs s label ↔ Fits fs s label := by
  cases label with
  | drive x => exact Iff.rfl
  | call a op =>
    apply forall_congr'
    intro file
    apply imp_congr_right
    intro h
    cases op with
    | read size => exact read_iff h size
    | write bytes => exact write_iff h bytes
    | readdir => exact iff_of_true (readdir_moves h) trivial
    | seek offset whence => exact iff_of_true (seek_moves h offset whence) trivial

/-! ## Runs -/

/-- A run whose calls all move the offsets as they should is one in which the offsets fit. -/
theorem run_disciplined_iff (fs : FileSystem φ) (s : System φ) (labels : List (OffsetLabel φ))
    (t : System φ) :
    RunWhere (offsetStep fs) (Disciplined fs) s labels t ↔
      RunWhere (offsetStep fs) (Fits fs) s labels t :=
  RunWhere.congr (I := fun _ => True) trivial (fun _ _ _ _ _ _ => trivial)
    fun s label _ => disciplined_iff fs s label

/-- A file of ten bytes on a volume that is full. -/
def fullVolume : FileSystem Unit where
  lookup x _ := (some 7, x)
  lookupParent x _ := (none, x)
  type _ _ := .regular
  size _ _ := 10
  create _ _ := none
  truncate _ _ := none
  read x _ := some fun _ _ => (some [], x)
  write x _ := some fun _ _ => (none, x)
  readdir _ _ := none
  unref x _ := x

/-- A write that appends is refused, and the offset has moved to the end of the file. -/
theorem refused_append_moves : ∃ s s' : System Unit,
    s.files 100 = some ⟨7, 0, vfsOpenWrite ||| vfsOpenAppend⟩ ∧
    vfsWrite fullVolume s 100 [1] = some (none, s') ∧
    s'.files 100 = some ⟨7, 10, vfsOpenWrite ||| vfsOpenAppend⟩ :=
  ⟨⟨(), fun _ => some ⟨7, 0, vfsOpenWrite ||| vfsOpenAppend⟩, fun _ => none⟩, _, rfl, rfl, rfl⟩

end MeatySkeleton.Fs
