import MeatySkeleton.Scheduler.State

/-!
# The scheduler core

The functions of `scheduler.c`, each region under `scheduler_lock` as one
function on `Sched`. `scheduler_schedule` and `scheduler_block_current_wait`
keep the lock across `arch_context_switch`; the task switched to drops it in
`scheduler_finish_switch`. So each of them ends in a `Dispatch` here: the CPU
halts, stays on its task, or leaves its stack for that of `next`, with the lock
still held.

The second half of the file says what a region does to the run queues: `Queues
s ql` reads the lists `ql` off the links, and each operation is an edit of `ql`.
Everything later proofs need of the links is in these lemmas.
-/

namespace MeatySkeleton.Scheduler

open Function Lib

variable {n : Nat}

/-- `policy_order`: highest scheduling requirement first. -/
def policyOrder : List SchedPolicy := [.realtime, .interactive, .normal, .background]

namespace Sched

def setTask (s : Sched n) (t : TaskPtr) (f : Task → Task) : Sched n :=
  { s with tasks := modify s.tasks t f }

def setCpu (s : Sched n) (c : Fin n) (f : CpuLocal → CpuLocal) : Sched n :=
  { s with cpus := update s.cpus c (f (s.cpus c)) }

/-- `slot->algorithm->enqueue(slot->algorithm_state, task)`. -/
def enqueue (s : Sched n) (p : SchedPolicy) (t : TaskPtr) : Sched n :=
  match s.slots p with
  | none => s
  | some q =>
    { s with
      tasks := (rrEnqueue s.tasks q t).1
      slots := update s.slots p (some (rrEnqueue s.tasks q t).2) }

/-- `slot->algorithm->dequeue(slot->algorithm_state, task)`. -/
def dequeue (s : Sched n) (p : SchedPolicy) (t : TaskPtr) : Sched n :=
  match s.slots p with
  | none => s
  | some q =>
    { s with
      tasks := (rrDequeue s.tasks q t).1
      slots := update s.slots p (some (rrDequeue s.tasks q t).2) }

/-- The sequence shared by every path that makes a task runnable: state READY,
links cleared, enqueue under its policy. -/
def publishReady (s : Sched n) (t : TaskPtr) : Sched n :=
  let s := s.setTask t (setState .ready)
  let s := s.setTask t (setPrevious none)
  let s := s.setTask t (setNext none)
  s.enqueue (s.tasks t).policy t

end Sched

/-- A normal task owns an allocated stack; bootstrap contexts do not. -/
def Task.Managed (k : Task) : Prop := k.stackBase ≠ 0 ∧ k.stackSize ≠ 0

instance (k : Task) : Decidable k.Managed := inferInstanceAs (Decidable (_ ∧ _))

/-- `scheduler_make_ready`. -/
def schedulerMakeReady (s : Sched n) (t : TaskPtr) : Sched n :=
  if (s.tasks t).state = .ready then s
  else
    match s.slots (s.tasks t).policy with
    | none => s
    | some _ => s.publishReady t

/-- `scheduler_remove`. -/
def schedulerRemove (s : Sched n) (t : TaskPtr) : Sched n :=
  if (s.tasks t).state ≠ .ready then s
  else
    match s.slots (s.tasks t).policy with
    | none => s
    | some _ => (s.dequeue (s.tasks t).policy t).setTask t (setState .new)

/-- The loop of `scheduler_pick_next` over the remaining policies. -/
def pickFrom (s : Sched n) (c : Fin n) : List SchedPolicy → Sched n × Option TaskPtr
  | [] => (s, (s.cpus c).idleTask)
  | p :: ps =>
    match s.slots p with
    | none => pickFrom s c ps
    | some q =>
      match rrPickNext s.tasks q with
      | (tasks, q', some t) =>
        ({ s with tasks := tasks, slots := update s.slots p (some q') }, some t)
      | (_, _, none) => pickFrom s c ps

/-- `scheduler_pick_next`. -/
def schedulerPickNext (s : Sched n) (c : Fin n) : Sched n × Option TaskPtr :=
  pickFrom s c policyOrder

/-- `scheduler_notify_switch_in`, with `rr_on_switch_in`. -/
def schedulerNotifySwitchIn (s : Sched n) (c : Fin n) (t : TaskPtr) : Sched n :=
  if some t = (s.cpus c).idleTask then s
  else
    match s.slots (s.tasks t).policy with
    | none => s
    | some q =>
      { s with slots :=
          update s.slots (s.tasks t).policy (some { q with elapsedTicks := 0 }) }

/-- How a scheduling operation leaves the CPU. -/
inductive Dispatch (n : Nat)
  | halted
  | stayed (s : Sched n)
  | switched (s : Sched n) (next : TaskPtr)

/-- The flags `scheduler_schedule` stores for the incoming task to restore, and
what is left in `scheduler_preempt_restore_flags`. -/
def scheduleSwitchFlags (k : CpuLocal) (flags : Flags) : Flags × Flags :=
  if !k.schedulerSwitchLockHeld && k.schedulerSwitchFlags != 0 then
    (k.schedulerSwitchFlags, k.schedulerPreemptRestoreFlags)
  else if k.schedulerPreemptRestoreFlags != 0 then (k.schedulerPreemptRestoreFlags, 0)
  else (flags, k.schedulerPreemptRestoreFlags)

/-- The first region of `scheduler_schedule`: a running managed task goes back
to the queue of its policy. -/
def requeueCurrent (s : Sched n) (c : Fin n) : Sched n :=
  match (s.cpus c).currentTask with
  | none => s
  | some t =>
    if (s.tasks t).Managed ∧ some t ≠ (s.cpus c).idleTask ∧ (s.tasks t).state = .running then
      match s.slots (s.tasks t).policy with
      | none => s
      | some _ => s.publishReady t
    else s

/-- `scheduler_schedule` on CPU `c`, entered with `EFLAGS = flags`. -/
def schedulerSchedule (s : Sched n) (c : Fin n) (flags : Flags) : Dispatch n :=
  match schedulerPickNext (requeueCurrent s c) c with
  | (_, none) => .halted
  | (s', some next) =>
    let s' := schedulerNotifySwitchIn (s'.setTask next (setState .running)) c next
    match (s.cpus c).currentTask with
    | none => .halted
    | some current =>
      if next = current then
        .stayed (s'.setCpu c fun k => { k with reschedulePending := false })
      else
        .switched (s'.setCpu c fun k =>
          { k with
            previousTask := some current
            schedulerSwitchFlags := (scheduleSwitchFlags k flags).1
            schedulerPreemptRestoreFlags := (scheduleSwitchFlags k flags).2
            schedulerSwitchLockHeld := true
            currentTask := some next
            reschedulePending := false }) next

/-- `scheduler_finish_switch`: the new state, the flags handed to
`spin_unlock_irqrestore` if the lock was held, and the task that was left. -/
def schedulerFinishSwitch (s : Sched n) (c : Fin n) :
    Sched n × Option Flags × Option TaskPtr :=
  let k := s.cpus c
  if k.schedulerSwitchLockHeld then
    (s.setCpu c fun k =>
      { k with previousTask := none, schedulerSwitchFlags := 0, schedulerSwitchLockHeld := false },
      some k.schedulerSwitchFlags, k.previousTask)
  else (s.setCpu c fun k => { k with previousTask := none }, none, k.previousTask)

/-- `TASK_BLOCKED` and `TASK_SLEEPING` are the only states a task can block in. -/
def blockable (st : TaskState) : Bool := st = .blocked || st = .sleeping

/-- The region of `scheduler_block_current` before its call of
`scheduler_schedule`; `none` when it returns without one. -/
def schedulerBlockCurrent (s : Sched n) (c : Fin n) (st : TaskState) : Option (Sched n) :=
  if blockable st then
    match (s.cpus c).currentTask with
    | none => none
    | some t => if (s.tasks t).state = .running then some (s.setTask t (setState st)) else none
  else none

/-- `scheduler_block_current_wait`; `none` when it only drops the wait lock and
returns. -/
def schedulerBlockCurrentWait (s : Sched n) (c : Fin n) (st : TaskState) (waitFlags : Flags) :
    Option (Dispatch n) :=
  match (s.cpus c).currentTask with
  | none => none
  | some current =>
    if blockable st ∧ (s.tasks current).state = .running then
      match schedulerPickNext (s.setTask current (setState st)) c with
      | (_, none) => some .halted
      | (s', some next) =>
        if next = current then some .halted
        else
          let s' := schedulerNotifySwitchIn (s'.setTask next (setState .running)) c next
          some (.switched (s'.setCpu c fun k =>
            { k with
              previousTask := some current
              schedulerSwitchFlags := waitFlags
              schedulerSwitchLockHeld := true
              currentTask := some next
              reschedulePending := false }) next)
    else none

/-- `scheduler_wake`, called on CPU `c`. -/
def schedulerWake (s : Sched n) (c : Fin n) (t : TaskPtr) : Sched n :=
  if (s.tasks t).state ≠ .blocked ∧ (s.tasks t).state ≠ .sleeping then s
  else
    match s.slots (s.tasks t).policy with
    | none => s
    | some _ => (s.publishReady t).setCpu c fun k => { k with reschedulePending := true }

/-- `scheduler_set_policy`, called on CPU `c`. -/
def schedulerSetPolicy (s : Sched n) (c : Fin n) (t : TaskPtr) (policy : Nat) : Sched n :=
  match policyOfNat policy with
  | none => s
  | some p =>
    if (s.tasks t).policy = p then s
    else
      match s.slots p with
      | none => s
      | some _ =>
        if (s.tasks t).state = .ready then
          match s.slots (s.tasks t).policy with
          | none => s
          | some _ =>
            let s := s.dequeue (s.tasks t).policy t
            let s := s.setTask t (setState .new)
            let s := s.setTask t (setPrevious none)
            let s := s.setTask t (setNext none)
            let s := s.setTask t (setPolicy p)
            (s.publishReady t).setCpu c fun k => { k with reschedulePending := true }
        else
          (s.setTask t (setPolicy p)).setCpu c fun k => { k with reschedulePending := true }

/-- `scheduler_tick` on CPU `c`. -/
def schedulerTick (s : Sched n) (c : Fin n) : Sched n :=
  match (s.cpus c).currentTask with
  | none => s
  | some t =>
    if some t = (s.cpus c).idleTask ∨ (s.tasks t).state ≠ .running then s
    else
      let s := s.setTask t fun k => { k with runtimeTicks := k.runtimeTicks + 1 }
      match s.slots (s.tasks t).policy with
      | none => s
      | some q =>
        let s' := { s with slots := update s.slots (s.tasks t).policy (some (rrTick q).1) }
        if (rrTick q).2 then s'.setCpu c fun k => { k with reschedulePending := true } else s'

/-! ## What the regions leave alone -/

/-- Rewriting a bound slot leaves the same slots bound. -/
theorem bound_update {slots : SchedPolicy → Option RoundRobinState} {p : SchedPolicy}
    {q q' : RoundRobinState} (hq : slots p = some q) (p' : SchedPolicy) :
    (update slots p (some q') p').isSome = (slots p').isSome := by
  by_cases h : p' = p
  · subst h; simp [hq]
  · simp [update_of_ne h]

section frame

variable (s : Sched n) (t u : TaskPtr) (p p' : SchedPolicy) (c : Fin n)

@[simp] theorem setTask_cpus (f) : (s.setTask t f).cpus = s.cpus := rfl
@[simp] theorem setTask_slots (f) : (s.setTask t f).slots = s.slots := rfl
@[simp] theorem setCpu_tasks (f) : (s.setCpu c f).tasks = s.tasks := rfl
@[simp] theorem setCpu_slots (f) : (s.setCpu c f).slots = s.slots := rfl

@[simp] theorem setTask_self (f) : (s.setTask t f).tasks t = f (s.tasks t) := modify_self ..

theorem setTask_setTask (f g : Task → Task) :
    (s.setTask t f).setTask t g = s.setTask t fun k => g (f k) := by
  simp [Sched.setTask, modify]

theorem setTask_core {f : Task → Task} (h : ∀ k, (f k).core = k.core) :
    ((s.setTask t f).tasks u).core = (s.tasks u).core :=
  modify_field (g := Task.core) h u

@[simp] theorem enqueue_cpus : (s.enqueue p t).cpus = s.cpus := by
  unfold Sched.enqueue; split <;> rfl

@[simp] theorem dequeue_cpus : (s.dequeue p t).cpus = s.cpus := by
  unfold Sched.dequeue; split <;> rfl

@[simp] theorem enqueue_core : ((s.enqueue p t).tasks u).core = (s.tasks u).core := by
  unfold Sched.enqueue
  split
  · rfl
  · exact rrEnqueue_core ..

@[simp] theorem dequeue_core : ((s.dequeue p t).tasks u).core = (s.tasks u).core := by
  unfold Sched.dequeue
  split
  · rfl
  · exact rrDequeue_core ..

@[simp] theorem enqueue_bound : ((s.enqueue p t).slots p').isSome = (s.slots p').isSome := by
  unfold Sched.enqueue
  split
  · rfl
  next q hq => exact bound_update hq p'

@[simp] theorem dequeue_bound : ((s.dequeue p t).slots p').isSome = (s.slots p').isSome := by
  unfold Sched.dequeue
  split
  · rfl
  next q hq => exact bound_update hq p'

@[simp] theorem publishReady_cpus : (s.publishReady t).cpus = s.cpus := by
  simp [Sched.publishReady]

@[simp] theorem publishReady_bound :
    ((s.publishReady t).slots p').isSome = (s.slots p').isSome := by
  simp [Sched.publishReady]

@[simp] theorem notifySwitchIn_tasks : (schedulerNotifySwitchIn s c t).tasks = s.tasks := by
  unfold schedulerNotifySwitchIn
  split
  · rfl
  · split <;> rfl

@[simp] theorem notifySwitchIn_cpus : (schedulerNotifySwitchIn s c t).cpus = s.cpus := by
  unfold schedulerNotifySwitchIn
  split
  · rfl
  · split <;> rfl

@[simp] theorem notifySwitchIn_bound :
    ((schedulerNotifySwitchIn s c t).slots p').isSome = (s.slots p').isSome := by
  unfold schedulerNotifySwitchIn
  split
  · rfl
  · split
    · rfl
    next q hq => exact bound_update hq p'

/-- Publishing makes the task READY and touches no other task's core. -/
theorem publishReady_core :
    ((s.publishReady t).tasks u).core =
      if u = t then (.ready, (s.tasks t).policy, (s.tasks t).stackBase, (s.tasks t).stackSize)
      else (s.tasks u).core := by
  simp only [Sched.publishReady, enqueue_core]
  rw [setTask_core _ _ _ (fun k => (rfl : (setNext none k).core = k.core)),
    setTask_core _ _ _ (fun k => (rfl : (setPrevious none k).core = k.core))]
  split
  next h => subst h; rw [setTask_self]; rfl
  next h => exact congrArg Task.core (modify_ne h)

end frame

/-! ## The run queues as lists -/

/-- The lists the run queues of a scheduler state hold. A task is in at most one
of them. -/
structure Queues (s : Sched n) (ql : SchedPolicy → List TaskPtr) : Prop where
  holds : ∀ {p q}, s.slots p = some q → Holds s.tasks q (ql p)
  unbound : ∀ {p}, s.slots p = none → ql p = []
  disj : ∀ {p p' t}, t ∈ ql p → t ∈ ql p' → p = p'

variable {s : Sched n} {ql : SchedPolicy → List TaskPtr} {t : TaskPtr} {p : SchedPolicy}
  {c : Fin n}

section

variable (h : Queues s ql)

include h

theorem Queues.bound (ht : t ∈ ql p) : (s.slots p).isSome := by
  cases hq : s.slots p with
  | none => rw [h.unbound hq] at ht; simp at ht
  | some q => rfl

/-- A write to a task outside every queue, or one that keeps its links, leaves
the lists as they are. -/
theorem Queues.setTask {f : Task → Task}
    (hf : (∀ p, t ∉ ql p) ∨ ∀ k, (f k).schedNext = k.schedNext ∧
      (f k).schedPrevious = k.schedPrevious) : Queues (s.setTask t f) ql := by
  refine ⟨fun {p q} hq => ?_, h.unbound, h.disj⟩
  rcases hf with hout | hkeep
  · refine (h.holds hq).congr (fun u hu => ?_) (fun u hu => ?_)
    · exact congrArg Task.schedNext (modify_ne (fun e => hout p (e ▸ hu)))
    · exact congrArg Task.schedPrevious (modify_ne (fun e => hout p (e ▸ hu)))
  · refine (h.holds hq).congr (fun u _ => ?_) (fun u _ => ?_)
    · exact modify_field (g := Task.schedNext) (fun k => (hkeep k).1) u
    · exact modify_field (g := Task.schedPrevious) (fun k => (hkeep k).2) u

theorem Queues.setState (st : TaskState) :
    Queues (s.setTask t (Scheduler.setState st)) ql :=
  h.setTask (.inr fun _ => ⟨rfl, rfl⟩)

theorem Queues.setCpu (f : CpuLocal → CpuLocal) :
    Queues (s.setCpu c f) ql := ⟨h.holds, h.unbound, h.disj⟩

/-- Queue heads and tails are all a queue record says about its list. -/
theorem Queues.setSlot {q q' : RoundRobinState} (hq : s.slots p = some q)
    (hh : q'.head = q.head) (ht : q'.tail = q.tail) :
    Queues { s with slots := update s.slots p (some q') } ql := by
  refine ⟨fun {p' r} hr => ?_, fun {p'} hr => ?_, h.disj⟩
  · by_cases hp : p' = p
    · subst hp
      have : r = q' := by simpa using hr.symm
      subst this
      unfold Holds
      rw [hh, ht]
      exact h.holds hq
    · exact h.holds (by simpa [update_of_ne hp] using hr)
  · by_cases hp : p' = p
    · subst hp; simp at hr
    · exact h.unbound (by simpa [update_of_ne hp] using hr)

theorem Queues.notifySwitchIn : Queues (schedulerNotifySwitchIn s c t) ql := by
  unfold schedulerNotifySwitchIn
  split
  · exact h
  · split
    · exact h
    next q hq => exact h.setSlot hq rfl rfl

theorem Queues.enqueue (ht : ∀ p, t ∉ ql p) (hb : (s.slots p).isSome) :
    Queues (s.enqueue p t) (update ql p (ql p ++ [t])) := by
  obtain ⟨q, hq⟩ := Option.isSome_iff_exists.mp hb
  unfold Sched.enqueue
  rw [hq]
  refine ⟨fun {p' r} hr => ?_, fun {p'} hr => ?_, fun {p1 p2 u} h1 h2 => ?_⟩
  · by_cases hp : p' = p
    · subst hp
      have : r = (rrEnqueue s.tasks q t).2 := by simpa using hr.symm
      subst this
      rw [update_self]
      exact rrEnqueue_holds (h.holds hq) (ht p')
    · rw [update_of_ne hp]
      refine rrEnqueue_frame (h.holds hq) (h.holds (q := r) ?_) (ht p') ?_
      · simpa [update_of_ne hp] using hr
      · exact fun u hu hu' => hp (h.disj hu' hu)
  · by_cases hp : p' = p
    · subst hp; simp at hr
    · rw [update_of_ne hp]
      exact h.unbound (by simpa [update_of_ne hp] using hr)
  · have hmem : ∀ p', u ∈ update ql p (ql p ++ [t]) p' → u ∈ ql p' ∨ (u = t ∧ p' = p) := by
      intro p' hu
      by_cases hp : p' = p
      · subst hp
        rw [update_self, List.mem_append, List.mem_singleton] at hu
        exact hu.imp_right fun e => ⟨e, rfl⟩
      · rw [update_of_ne hp] at hu
        exact .inl hu
    rcases hmem _ h1 with g1 | ⟨e1, d1⟩ <;> rcases hmem _ h2 with g2 | ⟨e2, d2⟩
    · exact h.disj g1 g2
    · exact absurd g1 (e2 ▸ ht _)
    · exact absurd g2 (e1 ▸ ht _)
    · exact d1.trans d2.symm

theorem Queues.dequeue (ht : t ∈ ql p) :
    Queues (s.dequeue p t) (update ql p ((ql p).erase t)) := by
  obtain ⟨q, hq⟩ := Option.isSome_iff_exists.mp (h.bound ht)
  unfold Sched.dequeue
  rw [hq]
  refine ⟨fun {p' r} hr => ?_, fun {p'} hr => ?_, fun {p1 p2 u} h1 h2 => ?_⟩
  · by_cases hp : p' = p
    · subst hp
      have : r = (rrDequeue s.tasks q t).2 := by simpa using hr.symm
      subst this
      rw [update_self]
      exact rrDequeue_holds (h.holds hq) ht
    · rw [update_of_ne hp]
      refine rrDequeue_frame (h.holds hq) ht (h.holds (q := r) ?_) ?_
      · simpa [update_of_ne hp] using hr
      · exact fun u hu hu' => hp (h.disj hu' hu)
  · by_cases hp : p' = p
    · subst hp; simp at hr
    · rw [update_of_ne hp]
      exact h.unbound (by simpa [update_of_ne hp] using hr)
  · have hmem : ∀ p', u ∈ update ql p ((ql p).erase t) p' → u ∈ ql p' := by
      intro p' hu
      by_cases hp : p' = p
      · subst hp
        rw [update_self] at hu
        exact List.mem_of_mem_erase hu
      · rwa [update_of_ne hp] at hu
    exact h.disj (hmem _ h1) (hmem _ h2)

theorem Queues.nodup (p : SchedPolicy) : (ql p).Nodup := by
  cases hq : s.slots p with
  | none => rw [h.unbound hq]; exact List.nodup_nil
  | some q => exact (h.holds hq).nodup

theorem Queues.publishReady (ht : ∀ p, t ∉ ql p)
    (hb : (s.slots (s.tasks t).policy).isSome) :
    Queues (s.publishReady t)
      (update ql (s.tasks t).policy (ql (s.tasks t).policy ++ [t])) := by
  unfold Sched.publishReady
  dsimp only
  have hp : (((s.setTask t (Scheduler.setState .ready)).setTask t (setPrevious none)).setTask t
      (setNext none)).tasks t = setNext none (setPrevious none
        (Scheduler.setState .ready (s.tasks t))) := by simp
  rw [hp]
  exact ((((h.setState _).setTask (.inl ht)).setTask (.inl ht)).enqueue ht hb)

/-- `scheduler_pick_next` takes the head of some queue, or falls back to the
idle task when every queue is empty. -/
theorem pickNext_cases (c : Fin n) :
    (∃ p t ys, ql p = t :: ys ∧ schedulerPickNext s c = (s.dequeue p t, some t)) ∨
      ((∀ p, ql p = []) ∧ schedulerPickNext s c = (s, (s.cpus c).idleTask)) := by
  have hloop : ∀ ps : List SchedPolicy,
      (∃ p t ys, ql p = t :: ys ∧ pickFrom s c ps = (s.dequeue p t, some t)) ∨
        ((∀ p ∈ ps, ql p = []) ∧ pickFrom s c ps = (s, (s.cpus c).idleTask)) := by
    intro ps
    induction ps with
    | nil => exact .inr ⟨fun p hp => absurd hp (by simp), rfl⟩
    | cons p ps ih =>
      have hskip : ql p = [] → pickFrom s c (p :: ps) = pickFrom s c ps →
          (∃ p' t ys, ql p' = t :: ys ∧ pickFrom s c (p :: ps) = (s.dequeue p' t, some t)) ∨
            ((∀ p' ∈ p :: ps, ql p' = []) ∧
              pickFrom s c (p :: ps) = (s, (s.cpus c).idleTask)) := by
        intro hnil hrec
        rw [hrec]
        refine ih.imp_right fun ⟨hall, he⟩ => ⟨fun p' hp' => ?_, he⟩
        rcases List.mem_cons.mp hp' with rfl | hp'
        · exact hnil
        · exact hall p' hp'
      cases hq : s.slots p with
      | none => exact hskip (h.unbound hq) (by simp [pickFrom, hq])
      | some q =>
        cases hh : q.head with
        | none =>
          have hnil : ql p = [] := by
            have := (h.holds hq).head_eq
            rw [hh] at this
            exact List.head?_eq_none_iff.mp this.symm
          exact hskip hnil (by simp [pickFrom, hq, rrPickNext, hh])
        | some t =>
          obtain ⟨ys, hys⟩ := DList.head_split (h.holds hq) hh
          refine .inl ⟨p, t, ys, hys, ?_⟩
          simp [pickFrom, hq, rrPickNext, hh, Sched.dequeue]
  refine (hloop policyOrder).imp_right fun ⟨hall, he⟩ => ⟨fun p => ?_, he⟩
  exact hall p (by cases p <;> simp [policyOrder])

end

end MeatySkeleton.Scheduler
