import MeatySkeleton.Ext2.Files

/-!
# Mounted volumes

A mounted volume with the vnodes that were looked up on it, the root first, and the calls
that the VFS makes on them. The tables of operations have no `read`, `write` and `truncate`
for a directory, and nothing else for a regular file.
-/

namespace MeatySkeleton.Ext2

open Lib Lib.Effect

structure Mounted where
  volume : Volume
  vnodes : List Vnode

inductive Op where
  | lookup (i : Nat) (name : Name)
  | read (i offset : Nat) (buffer : Buffer)
  | readdir (i offset : Nat)
  | write (i offset : Nat) (buffer : Buffer)
  | create (i : Nat) (name : Name)
  | mkdir (i : Nat) (name : Name)
  | truncate (i size : Nat)

namespace Mounted

variable {α : Type}

def onVolume : Effect Volume α → Effect Mounted α :=
  zoom Mounted.volume fun s volume => { s with volume }

/-- A vnode of that type. -/
def vnodeAt (i : Nat) (directory : Bool) : Effect Mounted Vnode := do
  let s ← get
  match s.vnodes[i]? with
  | some node =>
    require (node.directory = directory)
    return node
  | none => fail

/-- A call on a regular file. -/
def onFile (i : Nat) (m : Effect Opened α) : Effect Mounted α := do
  let node ← vnodeAt i false
  zoom (fun s => ⟨s.volume, node⟩) (fun s opened => ⟨opened.volume, s.vnodes.set i opened.vnode⟩) m

/-- A call on a directory that makes a vnode. -/
def inDirectory (i : Nat) (m : Vnode → Effect Volume Vnode) : Effect Mounted Unit := do
  let node ← vnodeAt i true
  let found ← onVolume (m node)
  modify fun s => { s with vnodes := s.vnodes ++ [found] }

def perform : Op → Effect Mounted Unit
  | .lookup i name => inDirectory i fun node => vnodeLookup node.inode name
  | .read i offset buffer => do
    let _ ← onFile i (vnodeRead offset buffer)
  | .readdir i offset => do
    let node ← vnodeAt i true
    let _ ← onVolume (readdir node.inode offset)
  | .write i offset buffer => do
    let _ ← onFile i (vnodeWrite offset buffer)
  | .create i name => inDirectory i fun node => vnodeCreate node.inodeNumber node.inode name
  | .mkdir i name => inDirectory i fun node => vnodeMkdir node.inodeNumber node.inode name
  | .truncate i size => onFile i (vnodeTruncate size)

/-- A call, and whether it succeeded; none for a fault. -/
def step (s : Mounted) (op : Op) : Option (Bool × Mounted) :=
  match perform op s with
  | .done _ s => some (true, s)
  | .failed s => some (false, s)
  | .fault => none

end Mounted

end MeatySkeleton.Ext2
