import MeatySkeleton.Lib.Chain

/-!
# Scheduler data: tasks, run queues and per-CPU state

The records of `task.h`, `cpu.h` and `round_robin.c` as far as the scheduler
reads and writes them. A `task_t *` is a `TaskPtr`; the task objects are one map
from pointers to records, so that a C assignment through a pointer is a
`Sched.modify`. An optional pointer is the C `NULL`.

`EFLAGS` values are plain numbers; `EFLAGS.IF` is bit 9 (`interrupt_restore`).
-/

namespace MeatySkeleton.Scheduler

open Function List Lib

abbrev TaskPtr := Nat

/-- `task_state_t`. -/
inductive TaskState
  | new | ready | running | blocked | sleeping | zombie
  deriving DecidableEq, Repr

/-- `sched_policy_t`. -/
inductive SchedPolicy
  | realtime | interactive | normal | background
  deriving DecidableEq, Repr

/-- `policy_valid` on a raw policy number, and the policy it denotes. -/
def policyOfNat : Nat → Option SchedPolicy
  | 0 => some .realtime
  | 1 => some .interactive
  | 2 => some .normal
  | 3 => some .background
  | _ => none

/-- The scheduler's part of `task_t`. -/
structure Task where
  state : TaskState
  policy : SchedPolicy
  stackBase : Nat
  stackSize : Nat
  runtimeTicks : Nat
  schedPrevious : Option TaskPtr
  schedNext : Option TaskPtr
  deriving DecidableEq

/-- `round_robin_state_t`. -/
structure RoundRobinState where
  head : Option TaskPtr
  tail : Option TaskPtr
  quantumTicks : Nat
  elapsedTicks : Nat
  deriving DecidableEq

/-- `rr_create`, when its allocation succeeds. -/
def rrCreate : RoundRobinState :=
  { head := none, tail := none, quantumTicks := 5, elapsedTicks := 0 }

abbrev Flags := Nat

/-- The interrupt-enable bit of a saved `EFLAGS`. -/
def interruptFlag (flags : Flags) : Bool := flags.testBit 9

/-- `cpu_local_t`. -/
structure CpuLocal where
  currentTask : Option TaskPtr
  idleTask : Option TaskPtr
  previousTask : Option TaskPtr
  reschedulePending : Bool
  preemptionEnabled : Bool
  schedulerSwitchFlags : Flags
  schedulerSwitchLockHeld : Bool
  schedulerPreemptRestoreFlags : Flags
  deriving DecidableEq

/-- Everything `scheduler_lock` protects, on `n` CPUs. A policy slot is empty
when no algorithm could be bound to it. -/
structure Sched (n : Nat) where
  tasks : TaskPtr → Task
  slots : SchedPolicy → Option RoundRobinState
  cpus : Fin n → CpuLocal

variable {n : Nat}

/-- Write to the record behind a task pointer. -/
def modify (tasks : TaskPtr → Task) (t : TaskPtr) (f : Task → Task) : TaskPtr → Task :=
  update tasks t (f (tasks t))

@[simp] theorem modify_self (tasks : TaskPtr → Task) (t : TaskPtr) (f : Task → Task) :
    modify tasks t f t = f (tasks t) := update_self ..

variable {tasks : TaskPtr → Task} {f : Task → Task}

theorem modify_ne {t u : TaskPtr} (h : u ≠ t) :
    modify tasks t f u = tasks u := update_of_ne h ..

variable {t : TaskPtr}

/-- A field the write does not touch reads as before. -/
theorem modify_field {β : Type} {g : Task → β}
    (h : ∀ k, g (f k) = g k) (u : TaskPtr) :
    g (modify tasks t f u) = g (tasks u) := by
  by_cases hu : u = t
  · subst hu; rw [modify_self, h]
  · rw [modify_ne hu]

def setPrevious (v : Option TaskPtr) (k : Task) : Task := { k with schedPrevious := v }
def setNext (v : Option TaskPtr) (k : Task) : Task := { k with schedNext := v }
def setState (v : TaskState) (k : Task) : Task := { k with state := v }
def setPolicy (v : SchedPolicy) (k : Task) : Task := { k with policy := v }

@[simp] theorem setPrevious_schedPrevious (v k) : (setPrevious v k).schedPrevious = v := rfl
@[simp] theorem setPrevious_schedNext (v k) : (setPrevious v k).schedNext = k.schedNext := rfl
@[simp] theorem setNext_schedNext (v k) : (setNext v k).schedNext = v := rfl
@[simp] theorem setNext_schedPrevious (v k) : (setNext v k).schedPrevious = k.schedPrevious := rfl
@[simp] theorem setState_state (v k) : (setState v k).state = v := rfl
@[simp] theorem setState_schedNext (v k) : (setState v k).schedNext = k.schedNext := rfl
@[simp] theorem setState_schedPrevious (v k) : (setState v k).schedPrevious = k.schedPrevious := rfl
@[simp] theorem setState_policy (v k) : (setState v k).policy = k.policy := rfl
@[simp] theorem setPolicy_policy (v k) : (setPolicy v k).policy = v := rfl
@[simp] theorem setPolicy_state (v k) : (setPolicy v k).state = k.state := rfl

/-- The part of a task no queue operation writes. -/
def Task.core (k : Task) : TaskState × SchedPolicy × Nat × Nat :=
  (k.state, k.policy, k.stackBase, k.stackSize)

/-! ## The round-robin queue -/

/-- `rr_enqueue`. -/
def rrEnqueue (tasks : TaskPtr → Task) (q : RoundRobinState) (t : TaskPtr) :
    (TaskPtr → Task) × RoundRobinState :=
  let tasks := modify tasks t (setPrevious q.tail)
  let tasks := modify tasks t (setNext none)
  match q.tail with
  | some last => (modify tasks last (setNext (some t)), { q with tail := some t })
  | none => (tasks, { q with head := some t, tail := some t })

/-- `rr_dequeue`. -/
def rrDequeue (tasks : TaskPtr → Task) (q : RoundRobinState) (t : TaskPtr) :
    (TaskPtr → Task) × RoundRobinState :=
  let r : (TaskPtr → Task) × RoundRobinState :=
    match (tasks t).schedPrevious with
    | some p => (modify tasks p (setNext (tasks t).schedNext), q)
    | none => (tasks, { q with head := (tasks t).schedNext })
  let tasks := r.1
  let q := r.2
  let r : (TaskPtr → Task) × RoundRobinState :=
    match (tasks t).schedNext with
    | some nx => (modify tasks nx (setPrevious (tasks t).schedPrevious), q)
    | none => (tasks, { q with tail := (tasks t).schedPrevious })
  (modify (modify r.1 t (setPrevious none)) t (setNext none), r.2)

/-- `rr_pick_next`. -/
def rrPickNext (tasks : TaskPtr → Task) (q : RoundRobinState) :
    (TaskPtr → Task) × RoundRobinState × Option TaskPtr :=
  match q.head with
  | none => (tasks, q, none)
  | some t =>
    let r := rrDequeue tasks q t
    (r.1, r.2, some t)

/-- `rr_tick`: does the quantum of the queue end now? -/
def rrTick (q : RoundRobinState) : RoundRobinState × Bool :=
  if q.elapsedTicks + 1 ≥ q.quantumTicks then ({ q with elapsedTicks := 0 }, true)
  else ({ q with elapsedTicks := q.elapsedTicks + 1 }, false)

/-! ## The queue operations are the list edits -/

/-- The links of a task map, as the two maps of an intrusive list. -/
def nextOf (tasks : TaskPtr → Task) (t : TaskPtr) : Option TaskPtr := (tasks t).schedNext
def prevOf (tasks : TaskPtr → Task) (t : TaskPtr) : Option TaskPtr := (tasks t).schedPrevious

theorem nextOf_modify_setNext (tasks : TaskPtr → Task) (t : TaskPtr) (v : Option TaskPtr) :
    nextOf (modify tasks t (setNext v)) = update (nextOf tasks) t v := by
  funext u
  by_cases h : u = t
  · subst h; simp [nextOf]
  · simp [nextOf, modify_ne h, update_of_ne h]

theorem prevOf_modify_setPrevious (tasks : TaskPtr → Task) (t : TaskPtr) (v : Option TaskPtr) :
    prevOf (modify tasks t (setPrevious v)) = update (prevOf tasks) t v := by
  funext u
  by_cases h : u = t
  · subst h; simp [prevOf]
  · simp [prevOf, modify_ne h, update_of_ne h]

theorem nextOf_modify_of
    (h : ∀ k, (f k).schedNext = k.schedNext) : nextOf (modify tasks t f) = nextOf tasks :=
  funext fun u => modify_field (g := Task.schedNext) h u

theorem prevOf_modify_of
    (h : ∀ k, (f k).schedPrevious = k.schedPrevious) : prevOf (modify tasks t f) = prevOf tasks :=
  funext fun u => modify_field (g := Task.schedPrevious) h u

@[simp] theorem nextOf_setPrevious (tasks : TaskPtr → Task) (t : TaskPtr) (v : Option TaskPtr) :
    nextOf (modify tasks t (setPrevious v)) = nextOf tasks := nextOf_modify_of fun _ => rfl

@[simp] theorem prevOf_setNext (tasks : TaskPtr → Task) (t : TaskPtr) (v : Option TaskPtr) :
    prevOf (modify tasks t (setNext v)) = prevOf tasks := prevOf_modify_of fun _ => rfl

@[simp] theorem core_setPrevious (tasks : TaskPtr → Task) (t u : TaskPtr) (v : Option TaskPtr) :
    (modify tasks t (setPrevious v) u).core = (tasks u).core :=
  modify_field (g := Task.core) (f := setPrevious v) (fun _ => rfl) u

@[simp] theorem core_setNext (tasks : TaskPtr → Task) (t u : TaskPtr) (v : Option TaskPtr) :
    (modify tasks t (setNext v) u).core = (tasks u).core :=
  modify_field (g := Task.core) (f := setNext v) (fun _ => rfl) u

/-- The list a round-robin queue holds. -/
def Holds (tasks : TaskPtr → Task) (q : RoundRobinState) (l : List TaskPtr) : Prop :=
  DList (nextOf tasks) (prevOf tasks) q.head q.tail l

theorem rrEnqueue_core (tasks : TaskPtr → Task) (q : RoundRobinState) (t u : TaskPtr) :
    ((rrEnqueue tasks q t).1 u).core = (tasks u).core := by
  unfold rrEnqueue
  split <;> simp

theorem rrDequeue_core (tasks : TaskPtr → Task) (q : RoundRobinState) (t u : TaskPtr) :
    ((rrDequeue tasks q t).1 u).core = (tasks u).core := by
  unfold rrDequeue
  dsimp only
  split <;> split <;> simp

theorem rrEnqueue_links (tasks : TaskPtr → Task) (q : RoundRobinState) (t : TaskPtr) :
    nextOf (rrEnqueue tasks q t).1 =
        link (update (nextOf tasks) t none) q.tail (some t) ∧
      prevOf (rrEnqueue tasks q t).1 = update (prevOf tasks) t q.tail := by
  unfold rrEnqueue
  split
  next last hl =>
    rw [hl]
    constructor
    · simp [nextOf_modify_setNext]
    · simp [prevOf_modify_setPrevious]
  next hl =>
    rw [hl]
    constructor
    · simp [nextOf_modify_setNext]
    · simp [prevOf_modify_setPrevious]

variable {q : RoundRobinState} {l : List TaskPtr}

/-- Enqueueing appends at the tail. -/
theorem rrEnqueue_holds
    (h : Holds tasks q l) (ht : t ∉ l) :
    Holds (rrEnqueue tasks q t).1 (rrEnqueue tasks q t).2 (l ++ [t]) := by
  obtain ⟨hn, hp⟩ := rrEnqueue_links tasks q t
  have hpush := DList.pushBack h ht
  unfold Holds
  rw [hn, hp]
  unfold rrEnqueue
  cases hq : q.tail with
  | none => simpa [hq] using hpush
  | some last => simpa [hq] using hpush

/-- A queue not containing the task keeps its list. -/
theorem rrEnqueue_frame {q q' : RoundRobinState}
    {l l' : List TaskPtr} (h : Holds tasks q l) (h' : Holds tasks q' l')
    (ht : t ∉ l') (hdisj : ∀ u ∈ l, u ∉ l') : Holds (rrEnqueue tasks q t).1 q' l' := by
  obtain ⟨hn, hp⟩ := rrEnqueue_links tasks q t
  refine h'.congr (fun u hu => ?_) (fun u hu => ?_)
  · have hut : u ≠ t := fun e => ht (e ▸ hu)
    rw [hn, link_ne, update_of_ne hut]
    intro e
    exact hdisj u (mem_of_getLast? (h.tail_eq.symm.trans e)) hu
  · have hut : u ≠ t := fun e => ht (e ▸ hu)
    rw [hp, update_of_ne hut]

/-- A node is not its own predecessor. -/
theorem Holds.not_self
    (h : Holds tasks q l) (ht : t ∈ l) : (tasks t).schedPrevious ≠ some t := by
  obtain ⟨xs, ys, rfl⟩ := append_of_mem ht
  obtain ⟨_, hp, _, _⟩ := h.split
  have hnd := h.nodup
  rw [nodup_append] at hnd
  intro e
  exact hnd.2.2 t (mem_of_getLast? (hp.symm.trans e)) t mem_cons_self rfl

theorem rrDequeue_links
    (hp : (tasks t).schedPrevious ≠ some t) :
    (∀ u, u ≠ t → nextOf (rrDequeue tasks q t).1 u =
        link (nextOf tasks) (prevOf tasks t) (nextOf tasks t) u) ∧
      (∀ u, u ≠ t → prevOf (rrDequeue tasks q t).1 u =
        link (prevOf tasks) (nextOf tasks t) (prevOf tasks t) u) ∧
      (rrDequeue tasks q t).2.head = (if (prevOf tasks t).isSome then q.head else nextOf tasks t) ∧
      (rrDequeue tasks q t).2.tail =
        (if (nextOf tasks t).isSome then q.tail else prevOf tasks t) := by
  -- writing the predecessor's record leaves the task's own record alone
  have hkeep : ∀ p, (tasks t).schedPrevious = some p →
      modify tasks p (setNext (tasks t).schedNext) t = tasks t :=
    fun p h => modify_ne (fun e => hp (by rw [h, e]))
  have hnextOf : nextOf tasks t = (tasks t).schedNext := rfl
  have hprevOf : prevOf tasks t = (tasks t).schedPrevious := rfl
  rw [hnextOf, hprevOf]
  unfold rrDequeue
  rcases hpv : (tasks t).schedPrevious with _ | p
  · rcases hnx : (tasks t).schedNext with _ | nx
    · refine ⟨fun u hu => ?_, fun u hu => ?_, by simp [hnx], by simp [hnx, hpv]⟩
      · simp [hnx, nextOf_modify_setNext, update_of_ne hu]
      · simp [hnx, prevOf_modify_setPrevious, update_of_ne hu]
    · refine ⟨fun u hu => ?_, fun u hu => ?_, by simp [hnx], by simp [hnx]⟩
      · simp [hnx, nextOf_modify_setNext, update_of_ne hu]
      · simp [hnx, hpv, prevOf_modify_setPrevious, update_of_ne hu]
  · have hk := hkeep p hpv
    rcases hnx : (tasks t).schedNext with _ | nx
    · rw [hnx] at hk
      refine ⟨fun u hu => ?_, fun u hu => ?_, by simp [hk, hnx], by simp [hk, hnx, hpv]⟩
      · simp [hk, hnx, nextOf_modify_setNext, update_of_ne hu]
      · simp [hk, hnx, prevOf_modify_setPrevious, update_of_ne hu]
    · rw [hnx] at hk
      refine ⟨fun u hu => ?_, fun u hu => ?_, by simp [hk, hnx], by simp [hk, hnx]⟩
      · simp [hk, hnx, nextOf_modify_setNext, update_of_ne hu]
      · simp [hk, hnx, hpv, prevOf_modify_setPrevious, update_of_ne hu]

/-- Dequeueing a member unlinks it. -/
theorem rrDequeue_holds
    (h : Holds tasks q l) (ht : t ∈ l) :
    Holds (rrDequeue tasks q t).1 (rrDequeue tasks q t).2 (l.erase t) := by
  obtain ⟨hnext, hprev, hhead, htail⟩ := rrDequeue_links (q := q) (h.not_self ht)
  obtain ⟨xs, ys, rfl⟩ := append_of_mem ht
  have hxs : t ∉ xs := by
    have hnd := h.nodup
    rw [nodup_append] at hnd
    exact fun hx => hnd.2.2 t hx t mem_cons_self rfl
  rw [erase_append_right _ hxs, erase_cons_head]
  unfold Holds
  rw [hhead, htail]
  exact DList.remove h hnext hprev

/-- Another queue keeps its list. -/
theorem rrDequeue_frame {q q' : RoundRobinState}
    {l l' : List TaskPtr} (h : Holds tasks q l) (ht : t ∈ l)
    (h' : Holds tasks q' l') (hdisj : ∀ u ∈ l, u ∉ l') :
    Holds (rrDequeue tasks q t).1 q' l' := by
  obtain ⟨hnext, hprev, -, -⟩ := rrDequeue_links (q := q) (h.not_self ht)
  obtain ⟨xs, ys, rfl⟩ := append_of_mem ht
  obtain ⟨_, hpx, hnx, _⟩ := h.split
  have hprevMem : ∀ u, prevOf tasks t = some u → u ∉ l' := fun u hu =>
    hdisj u (mem_append_left _ (mem_of_getLast? (hpx.symm.trans hu)))
  have hnextMem : ∀ u, nextOf tasks t = some u → u ∉ l' := fun u hu =>
    hdisj u (mem_append_right _ (mem_cons_of_mem _ (mem_of_head? (hnx.symm.trans hu))))
  refine h'.congr (fun u hu => ?_) (fun u hu => ?_)
  · have hut : u ≠ t := fun e => hdisj t ht (e ▸ hu)
    rw [hnext u hut, link_ne (fun e => hprevMem u e hu)]
  · have hut : u ≠ t := fun e => hdisj t ht (e ▸ hu)
    rw [hprev u hut, link_ne (fun e => hnextMem u e hu)]

end MeatySkeleton.Scheduler
