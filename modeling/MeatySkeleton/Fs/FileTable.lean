import MeatySkeleton.Lib.Run
import Mathlib.Algebra.Group.Int.Defs

/-!
# Open files and the descriptor table

The part of `vfs.c` that works on `file_t` objects and the table of `fd.c`. File
objects live in the kernel heap: `files a` is the object at address `a`, if one
is allocated there. The file systems below `vnode_ops_t` are a parameter
(`FileSystem`), with a state of their own.

An operation that finds its file object gone has no answer (`none`): it would
read freed memory.
-/

namespace MeatySkeleton.Fs

open Function

abbrev OpenFlags := BitVec 32

def vfsOpenRead : OpenFlags := 0x1#32
def vfsOpenWrite : OpenFlags := 0x2#32
def vfsOpenAppend : OpenFlags := 0x4#32
def vfsOpenCreate : OpenFlags := 0x8#32
def vfsOpenTrunc : OpenFlags := 0x10#32

def OpenFlags.has (flags flag : OpenFlags) : Bool := flags &&& flag != 0#32

inductive VnodeType where
  | regular | directory | charDevice | blockDevice | symlink
  deriving DecidableEq

/-- The size of `size_t`. -/
def sizeMax : Nat := 2 ^ 32

structure File where
  vnode : Nat
  offset : Nat
  flags : OpenFlags
  deriving DecidableEq

/-- The operations of the mounted file systems, some of which a vnode may lack. A
missing result is an error. -/
structure FileSystem (φ : Type) where
  /-- `vfs_lookup`. -/
  lookup : φ → String → Option Nat × φ
  /-- `vfs_lookup_parent`, with the last name. -/
  lookupParent : φ → String → Option (Nat × String) × φ
  type : φ → Nat → VnodeType
  size : φ → Nat → Nat
  create : φ → Nat → Option (String → Option Nat × φ)
  truncate : φ → Nat → Option (Nat → Bool × φ)
  read : φ → Nat → Option (Nat → Nat → Option (List UInt8) × φ)
  write : φ → Nat → Option (Nat → List UInt8 → Option Nat × φ)
  /-- The entry, if any is left, and the next offset. -/
  readdir : φ → Nat → Option (Nat → Option (Option (Nat × String) × Nat) × φ)
  /-- `vnode_unref`. -/
  unref : φ → Nat → φ

structure System (φ : Type) where
  fs : φ
  files : Nat → Option File
  /-- `fd_table`. -/
  fdTable : Nat → Option Nat

variable {φ : Type}

/-! ## `vfs.c` -/

/-- The vnode `vfs_open` works on: the one the path names, or a new one. -/
def vfsResolve (fs : FileSystem φ) (x : φ) (path : String) (flags : OpenFlags) : Option Nat × φ :=
  match fs.lookup x path with
  | (some node, x) => (some node, x)
  | (none, x) =>
    if flags.has vfsOpenCreate = false then (none, x)
    else match fs.lookupParent x path with
      | (none, x) => (none, x)
      | (some (parent, name), x) =>
        if fs.type x parent ≠ .directory then (none, fs.unref x parent)
        else match fs.create x parent with
          | none => (none, fs.unref x parent)
          | some create =>
            let (node, x) := create name
            (node, fs.unref x parent)

/-- The checks of `vfs_open` on the vnode, and the truncation it asks for. -/
def vfsPrepare (fs : FileSystem φ) (x : φ) (node : Nat) (flags : OpenFlags) : Bool × φ :=
  if fs.type x node = .directory then
    if flags.has vfsOpenRead = false ∨
        flags.has (vfsOpenWrite ||| vfsOpenAppend ||| vfsOpenCreate ||| vfsOpenTrunc) then
      (false, fs.unref x node)
    else (true, x)
  else if fs.type x node ≠ .regular then (false, fs.unref x node)
  else if flags.has vfsOpenTrunc then
    if flags.has vfsOpenWrite = false then (false, fs.unref x node)
    else match fs.truncate x node with
      | none => (false, fs.unref x node)
      | some truncate =>
        match truncate 0 with
        | (false, x) => (false, fs.unref x node)
        | (true, x) => (true, x)
  else (true, x)

/-- `vfs_open`; `block` is what `kmalloc` returns. -/
def vfsOpen (fs : FileSystem φ) (s : System φ) (path : String) (flags : OpenFlags)
    (block : Option Nat) : Option Nat × System φ :=
  match vfsResolve fs s.fs path flags with
  | (none, x) => (none, { s with fs := x })
  | (some node, x) =>
    match vfsPrepare fs x node flags with
    | (false, x) => (none, { s with fs := x })
    | (true, x) =>
      match block with
      | none => (none, { s with fs := fs.unref x node })
      | some a => (some a, { s with fs := x, files := update s.files a (some ⟨node, 0, flags⟩) })

/-- The outcome of `vfs_open`: nothing, or a new file object for the resolved vnode. -/
theorem vfsOpen_cases {fs : FileSystem φ} {s s' : System φ} {path : String} {flags : OpenFlags} {block r : Option Nat}
    (h : vfsOpen fs s path flags block = (r, s')) : s'.fdTable = s.fdTable ∧
      ((r = none ∧ s'.files = s.files) ∨ ∃ a node, r = some a ∧ block = some a ∧
        (vfsResolve fs s.fs path flags).1 = some node ∧
        s'.files = update s.files a (some ⟨node, 0, flags⟩)) := by
  unfold vfsOpen at h
  split at h
  · obtain ⟨rfl, rfl⟩ := Prod.mk.inj h
    exact ⟨rfl, .inl ⟨rfl, rfl⟩⟩
  case h_2 node x hresolve =>
    split at h
    · obtain ⟨rfl, rfl⟩ := Prod.mk.inj h
      exact ⟨rfl, .inl ⟨rfl, rfl⟩⟩
    · split at h
      · obtain ⟨rfl, rfl⟩ := Prod.mk.inj h
        exact ⟨rfl, .inl ⟨rfl, rfl⟩⟩
      case h_2 a =>
        obtain ⟨rfl, rfl⟩ := Prod.mk.inj h
        exact ⟨rfl, .inr ⟨a, node, rfl, rfl, by rw [hresolve], rfl⟩⟩

/-- `vfs_close`. -/
def vfsClose (fs : FileSystem φ) (s : System φ) (a : Nat) : Option (System φ) := do
  let file ← s.files a
  return { s with fs := fs.unref s.fs file.vnode, files := update s.files a none }

def System.setOffset (s : System φ) (a : Nat) (file : File) (offset : Nat) : System φ :=
  { s with files := update s.files a (some { file with offset := offset }) }

/-- `vfs_read`: the bytes, or an error. -/
def vfsRead (fs : FileSystem φ) (s : System φ) (a size : Nat) :
    Option (Option (List UInt8) × System φ) := do
  let file ← s.files a
  if file.flags.has vfsOpenRead = false then return (none, s)
  else match fs.read s.fs file.vnode with
    | none => return (none, s)
    | some read =>
      match read file.offset size with
      | (none, x) => return (none, { s with fs := x })
      | (some bytes, x) =>
        return (some bytes,
          System.setOffset { s with fs := x } a file ((file.offset + bytes.length) % sizeMax))

/-- `vfs_write`: how many bytes were written, or an error. -/
def vfsWrite (fs : FileSystem φ) (s : System φ) (a : Nat) (bytes : List UInt8) :
    Option (Option Nat × System φ) := do
  let file ← s.files a
  if file.flags.has vfsOpenWrite = false then return (none, s)
  else match fs.write s.fs file.vnode with
    | none => return (none, s)
    | some write =>
      let file := if file.flags.has vfsOpenAppend then
        { file with offset := fs.size s.fs file.vnode % sizeMax } else file
      let s := s.setOffset a file file.offset
      match write file.offset bytes with
      | (none, x) => return (none, { s with fs := x })
      | (some count, x) =>
        return (some count, System.setOffset { s with fs := x } a file ((file.offset + count) % sizeMax))

/-- `vfs_readdir`: the next entry, `none` at the end, or an error. -/
def vfsReaddir (fs : FileSystem φ) (s : System φ) (a : Nat) :
    Option (Option (Option (Nat × String)) × System φ) := do
  let file ← s.files a
  if file.flags.has vfsOpenRead = false then return (none, s)
  else if fs.type s.fs file.vnode ≠ .directory then return (none, s)
  else match fs.readdir s.fs file.vnode with
    | none => return (none, s)
    | some readdir =>
      match readdir file.offset with
      | (none, x) => return (none, { s with fs := x })
      | (some (entry, next), x) =>
        if next < file.offset then return (none, { s with fs := x })
        else return (some entry, System.setOffset { s with fs := x } a file next)

inductive Whence where
  | set | cur | end | other

/-- Where `vfs_seek` moves the offset to. -/
def seekTarget (fs : FileSystem φ) (x : φ) (file : File) (node : Nat) (offset : Int) (whence : Whence) :
    Option Nat :=
  let base : Option Int := match whence with
    | .set => some 0
    | .cur => some file.offset
    | .end => if sizeMax ≤ fs.size x node then none else some (fs.size x node)
    | .other => none
  match base with
  | none => none
  | some base =>
    if (0 < offset ∧ 2 ^ 63 - 1 - offset < base) ∨ (offset < 0 ∧ base < -2 ^ 63 - offset) then none
    else if base + offset < 0 then none
    else if (sizeMax : Int) ≤ base + offset then none
    else some (base + offset).toNat

/-- `vfs_seek`: the new offset, or an error. -/
def vfsSeek (fs : FileSystem φ) (s : System φ) (a : Nat) (offset : Int) (whence : Whence) :
    Option (Option Nat × System φ) := do
  let file ← s.files a
  match seekTarget fs s.fs file file.vnode offset whence with
  | none => return (none, s)
  | some position => return (some position, s.setOffset a file position)

/-! ## `fd.c` -/

def kernelFdFirst : Nat := 3
def kernelFdMax : Nat := 64

def kernelFdReadFlag : OpenFlags := 0x1#32
def kernelFdWriteFlag : OpenFlags := 0x2#32
def kernelFdAppendFlag : OpenFlags := 0x4#32
def kernelFdCreateFlag : OpenFlags := 0x8#32
def kernelFdTruncFlag : OpenFlags := 0x10#32

/-- `kernel_fd_valid`. -/
def kernelFdValid (fd : Nat) : Bool := kernelFdFirst ≤ fd && fd < kernelFdMax

/-- The flags `kernel_fd_open` passes on; `none` where it refuses them. -/
def vfsFlags (flags : OpenFlags) : Option OpenFlags :=
  let add (v src dst : OpenFlags) : OpenFlags := if flags.has src then v ||| dst else v
  let v := add (add 0#32 kernelFdReadFlag vfsOpenRead) kernelFdWriteFlag vfsOpenWrite
  if (flags.has kernelFdAppendFlag && !flags.has kernelFdWriteFlag) ||
      (flags.has kernelFdCreateFlag && !flags.has kernelFdWriteFlag) ||
      (flags.has kernelFdTruncFlag && !flags.has kernelFdWriteFlag) then none
  else
    let v := add (add (add v kernelFdAppendFlag vfsOpenAppend) kernelFdCreateFlag vfsOpenCreate)
      kernelFdTruncFlag vfsOpenTrunc
    if v = 0#32 then none else some v

/-- The first free entry of `fd_table`. -/
def freeDescriptor (fdTable : Nat → Option Nat) : Option Nat :=
  (List.range' kernelFdFirst (kernelFdMax - kernelFdFirst)).find? fun fd => (fdTable fd).isNone

theorem freeDescriptor_free {fdTable : Nat → Option Nat} {fd : Nat}
    (h : freeDescriptor fdTable = some fd) : fdTable fd = none := by
  unfold freeDescriptor at h
  have hempty := List.find?_some h
  exact Option.isNone_iff_eq_none.mp hempty

/-- The region of `kernel_fd_open` under `fd_lock`. -/
def fdPublish (s : System φ) (a : Nat) : Option Nat × System φ :=
  match freeDescriptor s.fdTable with
  | some fd => (some fd, { s with fdTable := update s.fdTable fd (some a) })
  | none => (none, s)

/-- The region of the other operations under `fd_lock`. -/
def fdLookup (s : System φ) (fd : Nat) : Option Nat :=
  if kernelFdValid fd then s.fdTable fd else none

/-- The region of `kernel_fd_close` under `fd_lock`. -/
def fdTake (s : System φ) (fd : Nat) : Option (Nat × System φ) :=
  (fdLookup s fd).map fun a => (a, { s with fdTable := update s.fdTable fd none })

/-- `kernel_fd_open`: a descriptor, or an error. -/
def kernelFdOpen (fs : FileSystem φ) (s : System φ) (path : String) (flags : OpenFlags)
    (block : Option Nat) : Option (Option Nat × System φ) :=
  match vfsFlags flags with
  | none => some (none, s)
  | some v =>
    match vfsOpen fs s path v block with
    | (none, s) => some (none, s)
    | (some a, s) =>
      match fdPublish s a with
      | (some fd, s) => some (some fd, s)
      | (none, s) => (vfsClose fs s a).map fun s => (none, s)

/-- The operations that look a descriptor up and work on its file object. -/
def withFile {α : Type} (s : System φ) (fd : Nat)
    (op : System φ → Nat → Option (Option α × System φ)) : Option (Option α × System φ) :=
  match fdLookup s fd with
  | none => some (none, s)
  | some a => op s a

section

variable (fs : FileSystem φ)

section

variable (s : System φ)

/-- `kernel_fd_read`. -/
def kernelFdRead (fd size : Nat) :
    Option (Option (List UInt8) × System φ) := withFile s fd fun s a => vfsRead fs s a size

/-- `kernel_fd_write`. -/
def kernelFdWrite (fd : Nat) (bytes : List UInt8) :
    Option (Option Nat × System φ) := withFile s fd fun s a => vfsWrite fs s a bytes

/-- `kernel_fd_readdir`. -/
def kernelFdReaddir (fd : Nat) :
    Option (Option (Option (Nat × String)) × System φ) := withFile s fd fun s a => vfsReaddir fs s a

/-- `kernel_fd_seek` behind the look-up, where it checks `whence` first. -/
def seekChecked (a : Nat) (offset : Int) : Whence → Option (Option Nat × System φ)
  | .other => some (none, s)
  | whence => vfsSeek fs s a offset whence

/-- `kernel_fd_seek`. -/
def kernelFdSeek (fd : Nat) (offset : Int) (whence : Whence) :
    Option (Option Nat × System φ) := withFile s fd fun s a => seekChecked fs s a offset whence

/-- `kernel_fd_close`: whether there was something to close. -/
def kernelFdClose (fd : Nat) : Option (Bool × System φ) :=
  match fdTake s fd with
  | none => some (false, s)
  | some (a, s) => (vfsClose fs s a).map fun s => (true, s)

end

end

end MeatySkeleton.Fs
