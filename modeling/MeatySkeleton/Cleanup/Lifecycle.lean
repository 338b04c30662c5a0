import MeatySkeleton.Lib.LinkedQueue
import MeatySkeleton.Lib.Run
import MeatySkeleton.Scheduler.State

/-!
# Tasks from creation to reaping

`task.c` and the context switches of `scheduler.c` on any number of CPUs. A step is what
is done in one go under `scheduler_lock`, `cleanup_lock` or `task_id_lock`, or one access
outside of the locks. `scheduler_lock` stays held from the choice of the next task to
`scheduler_finish_switch` on the stack of that task, so a switch is one step up to the
release of the lock. What is left of `scheduler_finish_switch` then is the call of
`task_internal_finish_switch`: a `Finish`, which belongs to the stack of the incoming task
(`host`) and goes on whenever that task runs.

The run queues are not part of this machine: any READY task may be dispatched. The
semaphore is its count. Of the reference counts only the references that tasks hold are
counted; the canonical kernel address space and immortal processes count none. Task ids
are never reused, so a task is its id; `pushes` and `reaps` are histories no step reads.
-/

namespace MeatySkeleton.Cleanup

open Function Lib Scheduler

/-- Bootstrap and idle tasks belong to a CPU, `reaper` is `reaper_task`, every other task
has its id. -/
inductive Context where
  | bootstrap (cpu : Nat)
  | idle (cpu : Nat)
  | reaper
  | task (id : Nat)
  deriving DecidableEq

/-- The cleanup queue with `cleanup_pending` and `cleanup_total_reaped`. -/
structure CleanupQueue where
  head : Option Context
  tail : Option Context
  next : Context → Option Context
  pending : Nat
  totalReaped : Nat

/-- `cleanup_queue_push`. -/
def cleanupQueuePush (queue : CleanupQueue) (t : Context) : CleanupQueue :=
  let next := update queue.next t none
  match queue.tail with
  | some last =>
    { queue with
      next := update next last (some t)
      tail := some t
      pending := queue.pending + 1 }
  | none => { queue with next, head := some t, tail := some t, pending := queue.pending + 1 }

/-- `cleanup_queue_pop`. -/
def cleanupQueuePop (queue : CleanupQueue) : CleanupQueue × Option Context :=
  match queue.head with
  | none => (queue, none)
  | some t =>
    let head := queue.next t
    ({ queue with
      head
      tail := if head.isSome then queue.tail else none
      next := update queue.next t none }, some t)

inductive FinishStage where
  /-- About to read the state of the outgoing task. -/
  | check
  | push
  | signal
  deriving DecidableEq

/-- A call of `task_internal_finish_switch` on the stack of `host`. `leftZombie` says
whether `previous` had exited when its stack was left. -/
structure Finish where
  host : Context
  previous : Context
  leftZombie : Bool
  stage : FinishStage
  deriving DecidableEq

/-- Where `task_reaper_thread` is. -/
inductive Reaper where
  /-- In `semaphore_wait`. -/
  | waiting
  | permitted
  | popped (t : Context)
  /-- Detached from its process, whose reference it still holds. -/
  | detached (id : Nat) (process : Option Nat)
  | released (id : Nat) (process : Option Nat)
  | dropped (id : Nat)
  | freed
  /-- About to decrement `cleanup_pending`. -/
  | uncounted
  deriving DecidableEq

structure Lifecycle where
  cpus : Nat
  kernelSpace : Nat
  immortal : Nat → Bool
  processSpace : Nat → Nat
  current : Nat → Context
  state : Context → TaskState
  finishes : List Finish
  queue : CleanupQueue
  /-- The count of `cleanup_semaphore`. -/
  permits : Nat
  reaper : Reaper
  /-- Some CPU is in `task_halt_forever` or panicked. -/
  halted : Bool
  /-- `live_task_count`. -/
  live : Nat
  /-- `next_task_id`. -/
  nextId : Nat
  /-- Whether the `task_t` is allocated. -/
  allocated : Nat → Bool
  space : Nat → Option Nat
  process : Nat → Option Nat
  spaceRefs : Nat → Nat
  processRefs : Nat → Nat
  liveThreads : Nat → Nat
  /-- How often the task was pushed to the cleanup queue. -/
  pushes : Nat → Nat
  /-- How often the `task_t` was freed by the reaper. -/
  reaps : Nat → Nat

section

variable (s : Lifecycle)

def Lifecycle.setState (t : Context) (v : TaskState) : Lifecycle :=
  { s with state := update s.state t v }

/-! ## Creation -/

/-- `address_space_retain`, where it succeeds. -/
def addressSpaceRetain (a : Nat) : Lifecycle :=
  if a = s.kernelSpace then s
  else { s with spaceRefs := update s.spaceRefs a (s.spaceRefs a + 1) }

/-- `address_space_release` and the halt of its callers when it fails. -/
def addressSpaceRelease (a : Nat) : Lifecycle :=
  if a = s.kernelSpace then s
  else if s.spaceRefs a = 0 then { s with halted := true }
  else { s with spaceRefs := update s.spaceRefs a (s.spaceRefs a - 1) }

/-- `process_retain`, where it succeeds. -/
def processRetain (p : Nat) : Lifecycle :=
  if s.immortal p then s
  else { s with processRefs := update s.processRefs p (s.processRefs p + 1) }

/-- `process_release`. -/
def processRelease (p : Nat) : Lifecycle :=
  if s.immortal p then s
  else if s.processRefs p = 0 then { s with halted := true }
  else { s with processRefs := update s.processRefs p (s.processRefs p - 1) }

/-- `process_thread_attach`, where it succeeds. -/
def processThreadAttach (p : Nat) : Lifecycle :=
  { s with liveThreads := update s.liveThreads p (s.liveThreads p + 1) }

/-- `process_thread_detach`. -/
def processThreadDetach (p : Nat) : Lifecycle :=
  if s.liveThreads p = 0 then { s with halted := true }
  else { s with liveThreads := update s.liveThreads p (s.liveThreads p - 1) }

/-- `allocate_task`, where its allocations succeed. -/
def allocateTask (a : Nat) : Lifecycle :=
  let s := addressSpaceRetain s a
  let id := s.nextId
  { s with
    nextId := id + 1
    allocated := update s.allocated id true
    state := update s.state (.task id) .new
    space := update s.space id (some a)
    process := update s.process id none
    live := s.live + 1 }

/-- `destroy_unpublished_task`. -/
def destroyUnpublishedTask (id : Nat) : Lifecycle :=
  let process := s.process id
  let space := s.space id
  let s :=
    { s with process := update s.process id none, space := update s.space id none }
  if s.live = 0 then { s with halted := true }
  else
    let s := { s with live := s.live - 1 }
    let s := process.elim s fun p => processRelease (processThreadDetach s p) p
    let s := space.elim s (addressSpaceRelease s)
    { s with allocated := update s.allocated id false }

/-- `task_bind_process`, where the process takes the thread. -/
def taskBindProcess (id p : Nat) : Lifecycle :=
  if s.state (.task id) ≠ .new ∨ s.process id ≠ none then s
  else if s.space id ≠ some (s.processSpace p) then s
  else
    let s := processThreadAttach (processRetain s p) p
    { s with process := update s.process id (some p) }

end

/-! ## Switching -/

/-- Normal managed tasks: bootstrap contexts have no stack of their own. -/
def Context.managed : Context → Bool
  | .bootstrap _ => false
  | _ => true

/-- `task_is_idle_task`. -/
def Context.isIdle : Context → Bool
  | .idle _ => true
  | _ => false

section

variable (s : Lifecycle)

/-- What `scheduler_pick_next` may return: only READY tasks are queued. -/
def Lifecycle.mayPick (cpu : Nat) (next : Context) : Bool :=
  next = .idle cpu || (s.state next = .ready && !next.isIdle)

/-- From `scheduler_pick_next` to the release of the lock by the incoming task. -/
def switchTo (cpu : Nat) (next : Context) : Lifecycle :=
  let previous := s.current cpu
  let leftZombie := decide (s.state previous = .zombie)
  let s := s.setState next .running
  if next = previous then s
  else
    { s with
      current := update s.current cpu next
      finishes := ⟨next, previous, leftZombie, .check⟩ :: s.finishes }

/-- The current task goes back to the run queue if it can go on. -/
def requeueCurrent (cpu : Nat) : Lifecycle :=
  let t := s.current cpu
  if t.managed ∧ t ≠ .idle cpu ∧ s.state t = .running then s.setState t .ready else s

/-! ## Cleanup -/

/-- The next access of a call of `task_internal_finish_switch`. -/
def finishStep (f : Finish) : Lifecycle :=
  let rest := s.finishes.erase f
  match f.stage with
  | .check =>
    if s.state f.previous ≠ .zombie then { s with finishes := rest }
    else { s with finishes := { f with stage := .push } :: rest }
  | .push =>
    { s with
      queue := cleanupQueuePush s.queue f.previous
      finishes := { f with stage := .signal } :: rest
      pushes := match f.previous with
        | .task id => update s.pushes id (s.pushes id + 1)
        | _ => s.pushes }
  | .signal => { s with permits := s.permits + 1, finishes := rest }

/-- The next region of `task_reaper_thread`; `semaphore_wait` returns with a permit only. -/
def reaperStep : Option Lifecycle :=
  match s.reaper with
  | .waiting =>
    if s.permits = 0 then none
    else some { s with permits := s.permits - 1, reaper := .permitted }
  | .permitted =>
    let (queue, popped) := cleanupQueuePop s.queue
    some { s with queue, reaper := popped.elim .waiting .popped }
  | .popped t =>
    match t with
    | .task id =>
      if s.state t ≠ .zombie then some { s with halted := true }
      else
        let process := s.process id
        let s := { s with process := update s.process id none }
        let s := process.elim s (processThreadDetach s)
        some { s with reaper := .detached id process }
    | _ => some { s with halted := true }
  | .detached id process =>
    match s.space id with
    | none => some { s with halted := true }
    | some a =>
      let s := { s with space := update s.space id none }
      some { addressSpaceRelease s a with reaper := .released id process }
  | .released id process =>
    let s := process.elim s (processRelease s)
    some { s with reaper := .dropped id }
  | .dropped id =>
    some
      { s with
        allocated := update s.allocated id false
        reaper := .freed
        reaps := update s.reaps id (s.reaps id + 1) }
  | .freed => some { s with live := s.live - 1, reaper := .uncounted }
  | .uncounted =>
    let queue :=
      { s.queue with pending := s.queue.pending - 1, totalReaped := s.queue.totalReaped + 1 }
    some { s with queue, reaper := .waiting }

end

/-! ## The machine -/

inductive Label where
  | create (space : Nat)
  | destroy (id : Nat)
  | bind (id process : Nat)
  | publish (id : Nat)
  /-- `scheduler_schedule`. -/
  | schedule (cpu : Nat) (next : Context)
  /-- `scheduler_block_current_wait`. -/
  | block (cpu : Nat) (next : Context) (blockState : TaskState)
  /-- `scheduler_wake`. -/
  | wake (t : Context)
  /-- `task_exit` up to its call of `scheduler_schedule`. -/
  | exit (cpu : Nat)
  | finish (cpu : Nat) (f : Finish)
  | reap (cpu : Nat)

/-- The task a CPU runs is in its own code. -/
def Lifecycle.settled (s : Lifecycle) (t : Context) : Bool :=
  s.state t = .running && s.finishes.all fun f => f.host ≠ t

def Lifecycle.act (s : Lifecycle) : Label → Option Lifecycle
  | .create a => some (allocateTask s a)
  | .destroy id =>
    if s.allocated id ∧ s.state (.task id) = .new then some (destroyUnpublishedTask s id) else none
  | .bind id p => if s.allocated id then some (taskBindProcess s id p) else none
  | .publish id =>
    -- task_publish and scheduler_make_ready
    if s.allocated id ∧ s.state (.task id) = .new then some (s.setState (.task id) .ready) else none
  | .schedule cpu next =>
    let s := requeueCurrent s cpu
    if cpu < s.cpus ∧ s.mayPick cpu next then some (switchTo s cpu next) else none
  | .block cpu next blockState =>
    let t := s.current cpu
    if cpu < s.cpus ∧ s.state t = .running ∧ !t.isIdle ∧
        (blockState = .blocked ∨ blockState = .sleeping) then
      let s := s.setState t blockState
      if s.mayPick cpu next then some (switchTo s cpu next) else none
    else none
  | .wake t =>
    if s.state t = .blocked ∨ s.state t = .sleeping then some (s.setState t .ready) else none
  | .exit cpu =>
    match s.current cpu with
    | .task id =>
      if cpu < s.cpus ∧ s.settled (.task id) then some (s.setState (.task id) .zombie) else none
    | _ => none
  | .finish cpu f =>
    if cpu < s.cpus ∧ s.current cpu = f.host ∧ f ∈ s.finishes then some (finishStep s f) else none
  | .reap cpu =>
    if cpu < s.cpus ∧ s.current cpu = .reaper ∧ s.settled .reaper then reaperStep s else none

/-- A halt is final. -/
def Lifecycle.step (s : Lifecycle) (a : Label) : Option Lifecycle :=
  if s.halted then none else s.act a

/-- After `task_initialize` and `task_initialize_cpu`: every CPU is on its bootstrap
context, and the idle tasks and the reaper are READY. -/
def Lifecycle.start (cpus kernelSpace : Nat) (immortal : Nat → Bool) (processSpace : Nat → Nat) :
    Lifecycle where
  cpus := cpus
  kernelSpace := kernelSpace
  immortal := immortal
  processSpace := processSpace
  current := .bootstrap
  state
    | .bootstrap _ => .running
    | .task _ => .new
    | _ => .ready
  finishes := []
  queue := ⟨none, none, fun _ => none, 0, 0⟩
  permits := 0
  reaper := .waiting
  halted := false
  live := 2 * cpus + 1
  nextId := 0
  allocated := fun _ => false
  space := fun _ => none
  process := fun _ => none
  spaceRefs := fun _ => 0
  processRefs := fun _ => 0
  liveThreads := fun _ => 0
  pushes := fun _ => 0
  reaps := fun _ => 0

end MeatySkeleton.Cleanup
