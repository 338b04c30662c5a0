import MeatySkeleton.Lib.Run
import MeatySkeleton.Scheduler.Core

/-!
# The scheduler as a transition system

`Machine n` is the scheduler state of `n` CPUs with the two facts about tasks
that live outside it: which task objects are allocated (`live`), and which tasks
are on their way to a call of `scheduler_schedule` that they have not made yet
(`leaving`): after the first region of `scheduler_block_current`, and after
`task_exit` stored `TASK_ZOMBIE`. Such a task does nothing else before that call,
though an interrupt may preempt it there.

Each label is one atomic step: one region under `scheduler_lock` (a region that
switches stacks ends when the incoming task drops the lock), or the unlocked
store of `task_exit`, or the allocation and the release of a task object. The
labels of one CPU and of different CPUs interleave freely.

Blocking and exiting are things a task does itself. The idle thread only yields,
and `task_exit` halts on a bootstrap context, so these steps ask for a current
task that is not the idle one, and for a managed one in the case of an exit.
-/

namespace MeatySkeleton.Scheduler

open Function Lib

structure Machine (n : Nat) where
  sched : Sched n
  live : TaskPtr → Bool
  leaving : TaskPtr → Bool

inductive Label (n : Nat)
  | create (t : TaskPtr) (policy : SchedPolicy) (stackBase stackSize : Nat)
  | makeReady (t : TaskPtr)
  | remove (t : TaskPtr)
  | setPolicy (c : Fin n) (t : TaskPtr) (policy : Nat)
  | wake (c : Fin n) (t : TaskPtr)
  | blockCurrent (c : Fin n) (st : TaskState)
  | blockCurrentWait (c : Fin n) (st : TaskState) (waitFlags : Flags)
  | schedule (c : Fin n) (flags : Flags)
  | preempt (c : Fin n) (flags : Flags)
  | tick (c : Fin n)
  | exit (c : Fin n)
  | reap (t : TaskPtr)
  deriving DecidableEq

variable {n : Nat}

namespace Machine

/-- The task is the private idle task of some CPU (`task_is_idle_task`). -/
def Idle (m : Machine n) (t : TaskPtr) : Prop := ∃ c, (m.sched.cpus c).idleTask = some t

instance (m : Machine n) (t : TaskPtr) : Decidable (m.Idle t) :=
  inferInstanceAs (Decidable (∃ _, _))

def Current (m : Machine n) (c : Fin n) (t : TaskPtr) : Prop :=
  (m.sched.cpus c).currentTask = some t

instance (m : Machine n) (c : Fin n) (t : TaskPtr) : Decidable (m.Current c t) :=
  inferInstanceAs (Decidable (_ = _))

/-- The switch is over once the incoming task has run `scheduler_finish_switch`. -/
def afterSwitch (m : Machine n) (c : Fin n) : Dispatch n → Option (Machine n)
  | .halted => none
  | .stayed s => some { m with sched := s }
  | .switched s _ => some { m with sched := (schedulerFinishSwitch s c).1 }

/-- A task that may start an operation of its own on CPU `c`. -/
def acting (m : Machine n) (c : Fin n) : Option TaskPtr :=
  match (m.sched.cpus c).currentTask with
  | none => none
  | some t => if m.Idle t ∨ m.leaving t = true then none else some t

end Machine

/-- One atomic step; `none` when the step cannot be taken. -/
def step (m : Machine n) : Label n → Option (Machine n)
  | .create t policy stackBase stackSize =>
    if m.live t = false ∧ stackBase ≠ 0 ∧ stackSize ≠ 0 then
      some { sched := m.sched.setTask t fun _ =>
               { state := .new, policy, stackBase, stackSize, runtimeTicks := 0,
                 schedPrevious := none, schedNext := none }
             live := update m.live t true
             leaving := update m.leaving t false }
    else none
  | .makeReady t =>
    if m.live t ∧ (m.sched.tasks t).state = .new then
      some { m with sched := schedulerMakeReady m.sched t }
    else none
  | .remove t =>
    if m.live t then some { m with sched := schedulerRemove m.sched t } else none
  | .setPolicy c t policy =>
    if m.live t then some { m with sched := schedulerSetPolicy m.sched c t policy } else none
  | .wake c t =>
    if m.live t then some { m with sched := schedulerWake m.sched c t } else none
  | .blockCurrent c st =>
    match m.acting c with
    | none => none
    | some t =>
      match schedulerBlockCurrent m.sched c st with
      | none => some m
      | some s => some { m with sched := s, leaving := update m.leaving t true }
  | .blockCurrentWait c st waitFlags =>
    match m.acting c with
    | none => none
    | some _ =>
      match schedulerBlockCurrentWait m.sched c st waitFlags with
      | none => some m
      | some d => m.afterSwitch c d
  | .schedule c flags =>
    match (m.sched.cpus c).currentTask with
    | none => none
    | some t =>
      { m with leaving := update m.leaving t false }.afterSwitch c
        (schedulerSchedule m.sched c flags)
  | .preempt c flags =>
    match (m.sched.cpus c).currentTask with
    | none => none
    | some t =>
      -- between the store of `TASK_ZOMBIE` and the call interrupts are off
      if (m.sched.tasks t).state = .zombie then none
      else m.afterSwitch c (schedulerSchedule m.sched c flags)
  | .tick c => some { m with sched := schedulerTick m.sched c }
  | .exit c =>
    match m.acting c with
    | none => none
    | some t =>
      if (m.sched.tasks t).Managed then
        some { m with
          sched := m.sched.setTask t (setState .zombie)
          leaving := update m.leaving t true }
      else none
  | .reap t =>
    if m.live t ∧ (m.sched.tasks t).state = .zombie ∧ ∀ c, ¬ m.Current c t then
      some { m with live := update m.live t false }
    else none

/-! ## Starting states -/

/-- A CPU after `task_initialize` or `task_initialize_cpu`. -/
def startCpu (boot idle : TaskPtr) : CpuLocal :=
  { currentTask := some boot, idleTask := some idle, previousTask := none
    reschedulePending := false, preemptionEnabled := false
    schedulerSwitchFlags := 0, schedulerSwitchLockHeld := false
    schedulerPreemptRestoreFlags := 0 }

/-- After `scheduler_initialize` and the task initialisation of every CPU: each
runs its bootstrap context and owns an idle task, no other task object exists,
and the policies in `bound` got their algorithm. -/
structure Start (m : Machine n) where
  boot : Fin n → TaskPtr
  idle : Fin n → TaskPtr
  bound : SchedPolicy → Bool
  cpus : ∀ c, m.sched.cpus c = startCpu (boot c) (idle c)
  slots : ∀ p, m.sched.slots p = if bound p then some rrCreate else none
  live : ∀ t, m.live t = true ↔ (∃ c, t = boot c) ∨ ∃ c, t = idle c
  leaving : ∀ t, m.leaving t = false
  boot_task : ∀ c, (m.sched.tasks (boot c)).state = .running ∧
    (m.sched.tasks (boot c)).stackBase = 0
  idle_task : ∀ c, (m.sched.tasks (idle c)).state = .ready
  boot_inj : ∀ c c', boot c = boot c' → c = c'
  idle_inj : ∀ c c', idle c = idle c' → c = c'
  boot_idle : ∀ c c', boot c ≠ idle c'

end MeatySkeleton.Scheduler
