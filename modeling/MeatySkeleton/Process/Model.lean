import MeatySkeleton.Lib.Run
import MeatySkeleton.Lib.Tally

/-!
# Processes: creation, references, threads and collection

`process.c` as a step system. Every region of code under `process_registry_lock`
or a `process->lock` is one atomic step, and so is everything between two such
regions that only touches the caller's own objects. A call that goes on after a
region leaves the rest of itself in `pending`: a `Region` names the next region
and the processes it holds references to. Pending regions of different callers,
and those of one caller, may be taken in any order, so the runs of this system
include every interleaving of the code.

A `process_t *` is a `ProcPtr`. `allocated` lists the objects `kmalloc` gave out
and `kfree` has not taken back; reading an object that is not in it is the fault
`useAfterFree`. A panic stops the system: `panic` records its text and no step
is taken afterwards. `log` is a history no step reads.

Every reference is held by a thread, a child link or a caller on its own kernel
stack, each of them an object of its own in a 4 GiB address space, so the 32-bit
counters of `process_t` are plain numbers here; `next_process_id`, which only
grows, wraps as in C. Handles, the working directory's text, the accounting
record and the address space are left out: of the first two only the failure of
a copy matters, the others play no part in the lifetime of a process.
-/

namespace MeatySkeleton.Process

open Lib

abbrev ProcPtr := Nat
abbrev Pid := Nat

/-- `process_state_t`. -/
inductive ProcessState
  | new | running | exiting | zombie | dead
  deriving DecidableEq, Repr

/-- `process_termination_reason_t`. -/
inductive TerminationReason
  | none | normal | killed | fault
  deriving DecidableEq, Repr

/-- `process_t`. `children` are the processes of the child links, first link
first. -/
structure Proc where
  id : Pid
  parentId : Pid
  referenceCount : Nat
  immortal : Bool
  state : ProcessState
  terminationReason : TerminationReason
  exitStatus : Int
  liveThreads : Nat
  children : List ProcPtr
  childCount : Nat
  deriving DecidableEq

/-- A task bound to a process: not yet published, able to run, or exited and
waiting for the reaper. -/
inductive Phase
  | unpublished | running | exited
  deriving DecidableEq, Repr

structure Thread where
  process : ProcPtr
  phase : Phase
  deriving DecidableEq

/-- What a caller still has to do, with the processes it holds references to. -/
inductive Region
  /-- `process_create` after registration, before the lookup of the parent. -/
  | acquireParent (p : ProcPtr)
  /-- `process_get_cwd` and `process_set_cwd`. -/
  | inheritCwd (parent p : ProcPtr)
  /-- `process_add_child` up to `process_retain`. -/
  | retainChild (parent p : ProcPtr)
  /-- `process_add_child` under the parent's lock. -/
  | linkChild (parent p : ProcPtr)
  /-- The creator's reference to a process `process_create` has returned. -/
  | created (p : ProcPtr)
  /-- `task_bind_process` between `process_retain` and `process_thread_attach`. -/
  | attach (p : ProcPtr)
  /-- `process_thread_detach` of a task that is being destroyed. -/
  | detach (p : ProcPtr)
  /-- A `process_release` still to come. -/
  | release (p : ProcPtr)
  /-- `process_release` after the last reference was dropped. -/
  | destroy (p : ProcPtr)
  deriving DecidableEq

/-- The kernel panics of `process.c`, and the use of a freed object. -/
inductive Panic
  /-- "PROCESS: PID space exhausted" -/
  | pidExhausted
  /-- "PROCESS: reference-count underflow" -/
  | referenceUnderflow
  /-- "PROCESS: live-process count underflow" -/
  | liveUnderflow
  /-- "PROCESS: destroying process with owned children" -/
  | ownedChildren
  /-- "PROCESS: thread-count underflow" -/
  | threadUnderflow
  /-- "PROCESS: child-count underflow in waitpid" -/
  | childUnderflow
  | useAfterFree
  deriving DecidableEq, Repr

/-- What the history records, by process id. -/
inductive Event
  | created (c parent : Pid)
  | exited (c : Pid) (status : Int)
  | zombie (c : Pid)
  | collected (c parent : Pid) (status : Int)
  deriving DecidableEq

structure System where
  allocated : List ProcPtr
  procs : ProcPtr → Proc
  registry : List ProcPtr
  nextProcessId : Nat
  liveProcesses : Nat
  threads : List Thread
  pending : List Region
  panic : Option Panic
  log : List Event

/-! ## Access to the objects -/

/-- Follow a pointer. -/
def System.load (s : System) (p : ProcPtr) : Except Panic Proc :=
  if p ∈ s.allocated then .ok (s.procs p) else .error .useAfterFree

/-- Write to the object behind a pointer. -/
def System.edit (s : System) (p : ProcPtr) (f : Proc → Proc) : System :=
  { s with procs := Function.update s.procs p (f (s.procs p)) }

/-- Go on from region `r` with the regions `rs`. -/
def System.move (s : System) (r : Region) (rs : List Region) : System :=
  { s with pending := rs ++ s.pending.erase r }

def System.push (s : System) (r : Region) : System :=
  { s with pending := r :: s.pending }

def System.record (s : System) (e : Event) : System :=
  { s with log := e :: s.log }

/-- The first process with id `pid` along a list of pointers, as
`process_registry_find_locked` and the loops over child links search it. -/
def System.findById (s : System) (pid : Pid) : List ProcPtr → Except Panic (Option ProcPtr)
  | [] => .ok none
  | p :: ps => do
    let k ← s.load p
    if k.id = pid then .ok (some p) else s.findById pid ps

def addReference (k : Proc) : Proc := { k with referenceCount := k.referenceCount + 1 }
def dropReference (k : Proc) : Proc := { k with referenceCount := k.referenceCount - 1 }
def dropLast (k : Proc) : Proc := { k with referenceCount := 0, state := .dead }
def attachThread (k : Proc) : Proc :=
  { k with liveThreads := k.liveThreads + 1, state := .running }
def detachThread (k : Proc) : Proc := { k with liveThreads := k.liveThreads - 1 }
def becomeZombie (k : Proc) : Proc :=
  { k with
    state := .zombie
    terminationReason := if k.terminationReason = .none then .normal else k.terminationReason }
def setStatus (status : Int) (k : Proc) : Proc :=
  { k with exitStatus := status, terminationReason := .normal }
def linkFirst (c : ProcPtr) (k : Proc) : Proc :=
  { k with children := c :: k.children, childCount := k.childCount + 1 }
def unlink (c : ProcPtr) (k : Proc) : Proc :=
  { k with children := k.children.erase c, childCount := k.childCount - 1 }

/-! ## The functions of `process.c` -/

/-- The object `process_create` fills in before it takes the registry lock. -/
def newProcess (id parentId : Pid) : Proc :=
  { id := id, parentId := parentId, referenceCount := 1, immortal := false, state := .new,
    terminationReason := .none, exitStatus := 0, liveThreads := 0, children := [], childCount := 0 }

section

variable (s : System)

/-- `process_create` up to the publication in the registry, in the object `p`
that `kmalloc` returned. -/
def processCreate (p : ProcPtr) (parentId : Pid) : Except Panic System :=
  if s.nextProcessId = 0 then .error .pidExhausted
  else .ok
    { s with
      allocated := p :: s.allocated
      procs := Function.update s.procs p (newProcess s.nextProcessId parentId)
      registry := p :: s.registry
      nextProcessId := (s.nextProcessId + 1) % 2 ^ 32
      liveProcesses := s.liveProcesses + 1
      pending := .acquireParent p :: s.pending
      log := .created s.nextProcessId parentId :: s.log }

/-- `process_retain`. -/
def processRetain (p : ProcPtr) : Except Panic (System × Bool) := do
  let k ← s.load p
  if k.immortal then .ok (s, true)
  else if k.referenceCount = 0 ∨ k.state = .dead then .ok (s, false)
  else .ok (s.edit p addReference, true)

/-- The last reference to `p` is gone: no lookup can find it any more. -/
def System.retire (p : ProcPtr) : System :=
  { s.edit p dropLast with
    registry := s.registry.erase p
    liveProcesses := s.liveProcesses - 1 }

/-- `process_release` under the registry lock, and whether the object is to be
destroyed. -/
def processRelease (p : ProcPtr) : Except Panic (System × Bool) := do
  let k ← s.load p
  if k.immortal then .ok (s, false)
  else if k.referenceCount = 0 then .error .referenceUnderflow
  else if k.referenceCount = 1 then
    if s.liveProcesses = 0 then .error .liveUnderflow else .ok (s.retire p, true)
  else .ok (s.edit p dropReference, false)

/-- `process_release` after the registry lock. -/
def processDestroy (p : ProcPtr) : Except Panic System := do
  let k ← s.load p
  if k.children ≠ [] ∨ k.childCount ≠ 0 then .error .ownedChildren
  else .ok { s with allocated := s.allocated.erase p }

/-- `process_acquire_by_id`. -/
def processAcquireById (pid : Pid) : Except Panic (System × Option ProcPtr) :=
  if pid = 0 then .ok (s, none)
  else do
    match ← s.findById pid s.registry with
    | none => .ok (s, none)
    | some q =>
      let k ← s.load q
      if k.state = .dead then .ok (s, none)
      else if k.immortal then .ok (s, some q)
      else if k.referenceCount = 0 then .ok (s, none)
      else .ok (s.edit q addReference, some q)

/-- `process_thread_attach`. -/
def processThreadAttach (p : ProcPtr) : Except Panic (System × Bool) := do
  let k ← s.load p
  if k.state = .new ∨ k.state = .running then .ok (s.edit p attachThread, true)
  else .ok (s, false)

/-- `process_thread_detach`. -/
def processThreadDetach (p : ProcPtr) : Except Panic System := do
  let k ← s.load p
  if k.liveThreads = 0 then .error .threadUnderflow
  else if k.liveThreads = 1 ∧ (k.state = .running ∨ k.state = .exiting) then
    .ok ((s.edit p (becomeZombie ∘ detachThread)).record (.zombie k.id))
  else .ok (s.edit p detachThread)

/-- `process_set_exit_status`. -/
def processSetExitStatus (p : ProcPtr) (status : Int) : Except Panic System := do
  let k ← s.load p
  if k.state = .dead then .ok s
  else .ok ((s.edit p (setStatus status)).record (.exited k.id status))

/-- `process_add_child` before it takes the parent's lock: the checks, the
allocation of the link (`ok` when it succeeds) and the parent's own reference. -/
def processAddChildRetain (parent child : ProcPtr) (ok : Bool) :
    Except Panic (System × Bool) := do
  let k ← s.load parent
  let c ← s.load child
  if parent = child ∨ k.id = 0 ∨ c.parentId ≠ k.id ∨ ok = false then .ok (s, false)
  else processRetain s child

/-- `process_add_child` under the parent's lock. -/
def processAddChildLink (parent child : ProcPtr) : Except Panic (System × Bool) := do
  let k ← s.load parent
  if k.state = .exiting ∨ k.state = .zombie ∨ k.state = .dead then .ok (s, false)
  else do
    let c ← s.load child
    match ← s.findById c.id k.children with
    | some _ => .ok (s, false)
    | none => .ok (s.edit parent (linkFirst child), true)

/-- `process_waitpid` under the parent's lock: the child that was taken out of
the child list, with its status. -/
def processWaitpid (parent : ProcPtr) (pid : Pid) :
    Except Panic (System × Option (ProcPtr × Int)) :=
  if pid = 0 then .ok (s, none)
  else do
    let k ← s.load parent
    match ← s.findById pid k.children with
    | none => .ok (s, none)
    | some c =>
      let kc ← s.load c
      if kc.state ≠ .zombie then .ok (s, none)
      else if k.childCount = 0 then .error .childUnderflow
      else .ok ((s.edit parent (unlink c)).record (.collected kc.id k.id kc.exitStatus),
        some (c, kc.exitStatus))

/-- `process_acquire_zombie_child` under the parent's lock. -/
def processAcquireChild (parent : ProcPtr) (pid : Pid) :
    Except Panic (System × Option ProcPtr) :=
  if pid = 0 then .ok (s, none)
  else do
    let k ← s.load parent
    match ← s.findById pid k.children with
    | none => .ok (s, none)
    | some c =>
      let (s', retained) ← processRetain s c
      .ok (s', if retained then some c else none)

/-! ## The step system -/

/-- One pending region. `ok` says whether the allocation or the copy of a path
that the region may need succeeds. -/
def proceed (r : Region) (ok : Bool) : Except Panic System :=
  match r with
  | .acquireParent p => do
    let k ← s.load p
    match ← processAcquireById s k.parentId with
    | (s, none) => .ok (s.move r [.release p])
    | (s, some q) => .ok (s.move r [.inheritCwd q p])
  | .inheritCwd q p => do
    let _ ← s.load q
    let _ ← s.load p
    .ok (s.move r (if ok then [.retainChild q p] else [.release q, .release p]))
  | .retainChild q p => do
    match ← processAddChildRetain s q p ok with
    | (s, false) => .ok (s.move r [.release q, .release p])
    | (s, true) => .ok (s.move r [.linkChild q p])
  | .linkChild q p => do
    match ← processAddChildLink s q p with
    | (s, false) => .ok (s.move r [.release p, .release q, .release p])
    | (s, true) => .ok (s.move r [.release q, .created p])
  | .attach p => do
    match ← processThreadAttach s p with
    | (s, false) => .ok (s.move r [.release p])
    | (s, true) => .ok { s.move r [] with threads := ⟨p, .unpublished⟩ :: s.threads }
  | .detach p => do
    let s ← processThreadDetach s p
    .ok (s.move r [.release p])
  | .created p | .release p => do
    match ← processRelease s p with
    | (s, false) => .ok (s.move r [])
    | (s, true) => .ok (s.move r [.destroy p])
  | .destroy p => do
    let s ← processDestroy s p
    .ok (s.move r [])

/-- `task_bind_process` up to `process_retain`. -/
def taskBindProcess (p : ProcPtr) : Except Panic System := do
  match ← processRetain s p with
  | (s, false) => .ok s
  | (s, true) => .ok (s.push (.attach p))

end

inductive Label
  /-- `process_create` by a spawn of the kernel (no thread) or of a thread, in
  the object `p`. -/
  | create (creator : Option Thread) (p : ProcPtr)
  | proceed (r : Region) (ok : Bool)
  /-- The creator binds the main task. -/
  | bind (p : ProcPtr)
  /-- `user_thread_create_current`. -/
  | threadCreate (t : Thread)
  /-- `process_acquire_by_id` for a temporary look at any process. -/
  | lookup (pid : Pid)
  | acquireZombieChild (t : Thread) (pid : Pid)
  | setExitStatus (t : Thread) (status : Int)
  /-- `task_exit`. -/
  | exit (t : Thread)
  /-- `task_publish`. -/
  | publish (t : Thread)
  /-- `destroy_unpublished_task` up to `process_thread_detach`. -/
  | destroyUnpublished (t : Thread)
  /-- The reaper up to `process_thread_detach`. -/
  | reap (t : Thread)
  | waitpid (t : Thread) (pid : Pid)
  deriving DecidableEq

/-- `kernel_process`. -/
def kernelProcess : ProcPtr := 0

/-- The thread can execute code now. -/
def System.runs (s : System) (t : Thread) : Prop := t ∈ s.threads ∧ t.phase = .running

instance (s : System) (t : Thread) : Decidable (s.runs t) :=
  inferInstanceAs (Decidable (_ ∧ _))

/-- The action can be taken: who takes it exists. -/
def enabled (s : System) : Label → Prop
  | .create creator p => p ∉ s.allocated ∧ ∀ t ∈ creator, s.runs t
  | .proceed r _ => r ∈ s.pending
  | .bind p => .created p ∈ s.pending
  | .threadCreate t | .setExitStatus t _ | .exit t | .waitpid t _ | .acquireZombieChild t _ =>
    s.runs t
  | .lookup _ => True
  | .publish t | .destroyUnpublished t => t ∈ s.threads ∧ t.phase = .unpublished
  | .reap t => t ∈ s.threads ∧ t.phase = .exited

instance (s : System) : DecidablePred (enabled s)
  | .create creator p =>
    match creator with
    | none => decidable_of_iff (p ∉ s.allocated) (by simp [enabled])
    | some t => decidable_of_iff (p ∉ s.allocated ∧ s.runs t) (by simp [enabled])
  | .proceed r _ => inferInstanceAs (Decidable (r ∈ s.pending))
  | .bind p => inferInstanceAs (Decidable (Region.created p ∈ s.pending))
  | .threadCreate t | .setExitStatus t _ | .exit t | .waitpid t _ | .acquireZombieChild t _ =>
    inferInstanceAs (Decidable (s.runs t))
  | .lookup _ => inferInstanceAs (Decidable True)
  | .publish _ | .destroyUnpublished _ | .reap _ => inferInstanceAs (Decidable (_ ∧ _))

/-- The parent id a spawn passes on: that of the spawning thread's process, or
PID 1. -/
def parentPid (s : System) : Option Thread → Except Panic Pid
  | none => .ok 1
  | some t => do
    let k ← s.load t.process
    .ok k.id

/-- Replace a thread's phase. -/
def System.setPhase (s : System) (t : Thread) (phase : Phase) : System :=
  { s with threads := ⟨t.process, phase⟩ :: s.threads.erase t }

/-- The thread's task is being destroyed. -/
def System.dropThread (s : System) (t : Thread) : System :=
  { s with
    threads := s.threads.erase t
    pending := .detach t.process :: s.pending }

def act (s : System) : Label → Except Panic System
  | .create creator p => do
    let parentId ← parentPid s creator
    processCreate s p parentId
  | .proceed r ok => proceed s r ok
  | .bind p => taskBindProcess s p
  | .threadCreate t => taskBindProcess s t.process
  | .lookup pid => do
    match ← processAcquireById s pid with
    | (s, none) => .ok s
    | (s, some q) => .ok (s.push (.release q))
  | .acquireZombieChild t pid => do
    match ← processAcquireChild s t.process pid with
    | (s, none) => .ok s
    | (s, some c) => .ok (s.push (.release c))
  | .setExitStatus t status => processSetExitStatus s t.process status
  | .exit t => .ok (s.setPhase t .exited)
  | .publish t => .ok (s.setPhase t .running)
  | .destroyUnpublished t | .reap t => .ok (s.dropThread t)
  | .waitpid t pid => do
    match ← processWaitpid s t.process pid with
    | (s, none) => .ok s
    | (s, some (c, _)) => .ok (s.push (.release c))

/-- One step; a panic stops the system where it is. -/
def step (s : System) (l : Label) : Option System :=
  if s.panic = none ∧ enabled s l then
    match act s l with
    | .ok s' => some s'
    | .error e => some { s with panic := some e }
  else none

/-- The state after `process_initialize`. -/
def initial : System :=
  { allocated := [kernelProcess]
    procs := fun _ =>
      { id := 1, parentId := 0, referenceCount := 1, immortal := true, state := .running,
        terminationReason := .none, exitStatus := 0, liveThreads := 0, children := []
        childCount := 0 }
    registry := [kernelProcess]
    nextProcessId := 2
    liveProcesses := 1
    threads := []
    pending := []
    panic := none
    log := [.created 1 0] }

end MeatySkeleton.Process
