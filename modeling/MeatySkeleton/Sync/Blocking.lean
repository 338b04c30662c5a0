import MeatySkeleton.Sync.WaitQueue
import MeatySkeleton.Lib.Run

/-!
# Tasks that block on a wait queue

The machine under `mutex.c` and `semaphore.c`: any number of tasks on any number
of CPUs, one object with its wait queue. A step is what a task does in one go
under `waiters.lock` or under `scheduler_lock`, or a scheduling decision. A task
that blocks takes two steps: it enqueues itself and keeps `waiters.lock`
(`blocking`), and then hands over under `scheduler_lock`, which also releases
`waiters.lock`. A task that releases the object takes two steps when it popped a
waiter: `scheduler_wake` comes after `waiters.lock` is released.

The run queues are not part of this machine: any READY task may be dispatched.

What the object is and what its operations decide under the lock is a parameter
(`Primitive`).
-/

namespace MeatySkeleton.Sync

open Function List Option Lib Scheduler

/-- What a pass through the loop of a blocking operation decides. -/
inductive Attempt (κ : Type) where
  | finish (ok : Bool) (obj : κ)
  | wait

structure Primitive (κ : Type) where
  /-- The region of the blocking operation. -/
  attempt : κ → TaskPtr → Attempt κ
  /-- The region of the operation that never blocks, where it succeeds. -/
  tryAcquire : κ → TaskPtr → Option κ
  /-- The region of the releasing operation, where it succeeds. -/
  release : κ → TaskPtr → Option κ

/-- Where a task is. -/
inductive Phase where
  | outside
  /-- At the top of the loop of the blocking operation. -/
  | trying
  /-- In `wait_queue_block_locked`, on the queue and holding `waiters.lock`. -/
  | blocking
  /-- In `scheduler_block_current_wait`, switched out. -/
  | waiting
  /-- About to call `scheduler_wake` for the task it popped. -/
  | waking (w : TaskPtr)
  deriving DecidableEq

/-- A completed operation. -/
inductive Event where
  | acquired (t : TaskPtr)
  | released (t : TaskPtr)
  deriving DecidableEq

structure World (κ : Type) where
  obj : κ
  queue : WaitQueue
  tasks : TaskPtr → Waiter
  phase : TaskPtr → Phase
  /-- Who holds `waiters.lock` between two steps. -/
  lockedBy : Option TaskPtr
  taskCount : Nat
  log : List Event

inductive Label where
  | call (t : TaskPtr)
  | attempt (t : TaskPtr)
  | handOver (t : TaskPtr)
  | tryAcquire (t : TaskPtr)
  | release (t : TaskPtr)
  | wake (t : TaskPtr)
  | dispatch (t : TaskPtr)
  | preempt (t : TaskPtr)

def Label.task : Label → TaskPtr
  | .call t | .attempt t | .handOver t | .tryAcquire t | .release t | .wake t | .dispatch t
  | .preempt t => t

variable {κ : Type}

def World.goto (s : World κ) (t : TaskPtr) (p : Phase) : World κ :=
  { s with phase := update s.phase t p }

def Waiter.inState (v : TaskState) (k : Waiter) : Waiter := { k with state := v }
def Waiter.queued (k : Waiter) : Waiter := { k with waitingOn := true }

def World.setState (s : World κ) (t : TaskPtr) (v : TaskState) : World κ :=
  { s with tasks := edit s.tasks t (Waiter.inState v) }

def World.running (s : World κ) (t : TaskPtr) : Bool := (s.tasks t).state = .running

/-- `wait_queue_block_locked` up to its call of `scheduler_block_current_wait`. -/
def waitQueueBlockLocked (s : World κ) (t : TaskPtr) : World κ :=
  if (s.tasks t).waitingOn then s.goto t .trying
  else
    let tasks := edit s.tasks t Waiter.queued
    let r := waitQueuePushBack tasks s.queue t
    { s with
      tasks := r.1
      queue := r.2
      phase := update s.phase t .blocking
      lockedBy := some t }

/-- `scheduler_block_current_wait` for a queued task. -/
def schedulerBlockCurrentWait (s : World κ) (t : TaskPtr) : World κ :=
  if (s.tasks t).state ≠ .running then { s.goto t .trying with lockedBy := none }
  else { (s.setState t .blocked).goto t .waiting with lockedBy := none }

/-- `scheduler_wake`. -/
def schedulerWake (s : World κ) (w : TaskPtr) : World κ :=
  if (s.tasks w).state ≠ .blocked ∧ (s.tasks w).state ≠ .sleeping then s else s.setState w .ready

/-- The end of the releasing operation: a waiter is popped, if there is one. -/
def popWaiter (s : World κ) (t : TaskPtr) : World κ :=
  let r := waitQueuePopFront s.tasks s.queue
  World.goto { s with tasks := r.1, queue := r.2.1 } t (r.2.2.elim .outside .waking)

def taskStep (p : Primitive κ) (s : World κ) : Label → Option (World κ)
  | .call t =>
    if s.phase t = .outside ∧ s.running t then some (s.goto t .trying) else none
  | .attempt t =>
    if (s.phase t = .trying ∨ s.phase t = .waiting) ∧ s.running t ∧ s.lockedBy = none then
      match p.attempt s.obj t with
      | .finish ok obj =>
        some
          { s.goto t .outside with
            obj := obj
            log := if ok then .acquired t :: s.log else s.log }
      | .wait => some (waitQueueBlockLocked s t)
    else none
  | .handOver t =>
    if s.phase t = .blocking then some (schedulerBlockCurrentWait s t) else none
  | .tryAcquire t =>
    if s.phase t = .outside ∧ s.running t ∧ s.lockedBy = none then
      match p.tryAcquire s.obj t with
      | none => some s
      | some obj => some { s with obj := obj, log := .acquired t :: s.log }
    else none
  | .release t =>
    if s.phase t = .outside ∧ s.running t ∧ s.lockedBy = none then
      match p.release s.obj t with
      | none => some s
      | some obj => some (popWaiter { s with obj := obj, log := .released t :: s.log } t)
    else none
  | .wake t =>
    match s.phase t with
    | .waking w => if s.running t then some ((schedulerWake s w).goto t .outside) else none
    | _ => none
  | .dispatch t => if (s.tasks t).state = .ready then some (s.setState t .running) else none
  | .preempt t =>
    -- interrupts are off while waiters.lock is held
    if s.running t ∧ s.lockedBy ≠ some t then some (s.setState t .ready) else none

def step (p : Primitive κ) (s : World κ) (l : Label) : Option (World κ) :=
  if l.task < s.taskCount then taskStep p s l else none

/-- `n` tasks, all READY and outside, nobody waiting. -/
def start (n : Nat) (obj : κ) : World κ :=
  ⟨obj, waitQueueInitialize, fun _ => ⟨.ready, false, none, none⟩, fun _ => .outside, none, n, []⟩

/-! ## The invariant -/

/-- What the invariant speaks about: phases, states, the queue and its lock. -/
structure View where
  phase : TaskPtr → Phase
  state : TaskPtr → TaskState
  waiters : List TaskPtr
  lockedBy : Option TaskPtr

def Awake (st : TaskState) : Prop := st = .ready ∨ st = .running

/-- Where each task can be. The waiter that a waker popped stays blocked, off the
queue and with this one waker until it is woken. -/
structure ViewOk (v : View) : Prop where
  nodup : v.waiters.Nodup
  awake : ∀ t, v.phase t = .outside ∨ v.phase t = .trying → Awake (v.state t) ∧ t ∉ v.waiters
  blocking : ∀ t, v.phase t = .blocking → v.state t = .running ∧ t ∈ v.waiters ∧ v.lockedBy = some t
  waiting : ∀ t, v.phase t = .waiting →
    (v.state t = .blocked ∧ (t ∈ v.waiters ∨ ∃ u, v.phase u = .waking t)) ∨
      (Awake (v.state t) ∧ t ∉ v.waiters)
  waking : ∀ u w, v.phase u = .waking w → Awake (v.state u) ∧ u ∉ v.waiters ∧
    v.phase w = .waiting ∧ v.state w = .blocked ∧ w ∉ v.waiters
  unique : ∀ u u' w, v.phase u = .waking w → v.phase u' = .waking w → u = u'
  lock : ∀ t, v.lockedBy = some t → v.phase t = .blocking

variable {v : View} {t w : TaskPtr}

section

variable (h : ViewOk v)

include h

/-- A task outside or at the top of the loop moves between the two. -/
theorem ViewOk.moved (hw : v.phase t = .waiting → v.state t = .running)
    (hp : v.phase t = .outside ∨ v.phase t = .trying ∨ v.phase t = .waiting) {p : Phase}
    (hp' : p = .outside ∨ p = .trying) :
    ViewOk { v with phase := update v.phase t p } := by
  obtain ⟨h1, h2, h3, h4, h5, h6, h7⟩ := h
  constructor <;> simp only [update_apply] <;> grind [Awake]

/-- A task enqueues itself and keeps the lock. -/
theorem ViewOk.enqueued (hr : v.state t = .running)
    (hp : v.phase t = .trying ∨ v.phase t = .waiting) (hl : v.lockedBy = none) :
    ViewOk ⟨update v.phase t .blocking, v.state, v.waiters ++ [t], some t⟩ := by
  obtain ⟨h1, h2, h3, h4, h5, h6, h7⟩ := h
  constructor <;> simp only [update_apply] <;> grind [Awake]

/-- A queued task is switched out. -/
theorem ViewOk.handedOver (hp : v.phase t = .blocking) :
    ViewOk ⟨update v.phase t .waiting, update v.state t .blocked, v.waiters, none⟩ := by
  obtain ⟨h1, h2, h3, h4, h5, h6, h7⟩ := h
  constructor <;> simp only [update_apply] <;> grind [Awake]

/-- The first waiter is popped. -/
theorem ViewOk.popped {l : List TaskPtr} (hw : v.waiters = w :: l)
    (hp : v.phase t = .outside) (hl : v.lockedBy = none) :
    ViewOk { v with phase := update v.phase t (.waking w), waiters := l } := by
  have hwl : w ∈ v.waiters := by rw [hw]; exact mem_cons_self
  have hnd := h.nodup
  rw [hw, nodup_cons] at hnd
  have hmem : ∀ u, u ∈ v.waiters ↔ u = w ∨ u ∈ l := fun u => by rw [hw, mem_cons]
  have hwt : w ≠ t := fun he => (h.awake t (.inl hp)).2 (he ▸ hwl)
  -- nobody is blocking, so a task on the queue is switched out
  have hnot : ∀ u, v.phase u ≠ .blocking := fun u hu => by
    have := (h.blocking u hu).2.2
    rw [hl] at this
    cases this
  have hwaiting : v.phase w = .waiting := by
    cases hph : v.phase w with
    | outside => exact absurd hwl (h.awake w (.inl hph)).2
    | trying => exact absurd hwl (h.awake w (.inr hph)).2
    | blocking => exact absurd hph (hnot w)
    | waiting => rfl
    | waking u => exact absurd hwl (h.waking w u hph).2.1
  have hblocked : v.state w = .blocked := by
    rcases h.waiting w hwaiting with h1 | h1
    · exact h1.1
    · exact absurd hwl h1.2
  obtain ⟨h1, h2, h3, h4, h5, h6, h7⟩ := h
  refine ⟨hnd.2, ?_, ?_, ?_, ?_, ?_, ?_⟩ <;> simp only [update_apply]
  · grind
  · grind
  · intro u hu
    by_cases hut : u = t
    · grind
    · grind
  · intro u x hx
    by_cases hut : u = t
    · grind
    · grind
  · grind
  · grind

/-- The popped waiter is made READY. -/
theorem ViewOk.woken (hp : v.phase t = .waking w) :
    ViewOk
      { v with phase := update v.phase t .outside, state := update v.state w .ready } := by
  obtain ⟨h1, h2, h3, h4, h5, h6, h7⟩ := h
  constructor <;> simp only [update_apply] <;> grind [Awake]

/-- A scheduling decision about a task that is not about to block. -/
theorem ViewOk.scheduled (ha : Awake (v.state t)) (hl : v.lockedBy ≠ some t)
    {st : TaskState} (hst : Awake st) :
    ViewOk { v with state := update v.state t st } := by
  obtain ⟨h1, h2, h3, h4, h5, h6, h7⟩ := h
  constructor <;> simp only [update_apply] <;> grind [Awake]

end

/-! ## What one step does -/

def World.states (s : World κ) (t : TaskPtr) : TaskState := (s.tasks t).state

def World.view (s : World κ) (l : List TaskPtr) : View := ⟨s.phase, s.states, l, s.lockedBy⟩

/-- A popped waiter that has not looked at the object again. -/
def World.pending (s : World κ) (t : TaskPtr) : Bool :=
  decide (s.phase t = .waiting) && !(s.tasks t).waitingOn

/-- The invariant of every run; `l` are the tasks on the wait queue. -/
structure BlockingInv (s : World κ) (l : List TaskPtr) : Prop where
  queued : Queued s.tasks s.queue l
  flag : ∀ t, (s.tasks t).waitingOn = true ↔ t ∈ l
  view : ViewOk (s.view l)
  absent : ∀ t, s.taskCount ≤ t → s.phase t = .outside

/-- What a step does to the object, the log, the queue and the pending waiters. -/
inductive Effect (p : Primitive κ) (s : World κ) (l : List TaskPtr) : World κ → List TaskPtr → Prop
  | quiet {s' : World κ} (hobj : s'.obj = s.obj) (hlog : s'.log = s.log)
      (hpending : s'.pending = s.pending) : Effect p s l s' l
  /-- A blocking operation returns without the object. -/
  | refused {s' : World κ} (t : TaskPtr) (ht : t < s.taskCount)
      (h : p.attempt s.obj t = .finish false s'.obj) (hlog : s'.log = s.log)
      (hpending : s'.pending = update s.pending t false) : Effect p s l s' l
  | acquired {s' : World κ} (t : TaskPtr) (ht : t < s.taskCount)
      (h : p.attempt s.obj t = .finish true s'.obj) (hlog : s'.log = .acquired t :: s.log)
      (hpending : s'.pending = update s.pending t false) : Effect p s l s' l
  | taken {s' : World κ} (t : TaskPtr) (h : p.tryAcquire s.obj t = some s'.obj)
      (hlog : s'.log = .acquired t :: s.log) (hpending : s'.pending = s.pending) : Effect p s l s' l
  | enqueued {s' : World κ} (t : TaskPtr) (ht : t < s.taskCount) (h : p.attempt s.obj t = .wait)
      (hobj : s'.obj = s.obj) (hlog : s'.log = s.log)
      (hpending : s'.pending = update s.pending t false) : Effect p s l s' (l ++ [t])
  | released {s' : World κ} (t : TaskPtr) (h : p.release s.obj t = some s'.obj)
      (hlog : s'.log = .released t :: s.log)
      (hpending : s'.pending =
        l.head?.elim s.pending fun w => update s.pending w true) : Effect p s l s' l.tail

variable {s s' : World κ} {l : List TaskPtr} {p : Primitive κ}

theorem states_setState (st : TaskState) :
    (s.setState t st).states = update s.states t st :=
  edit_read (g := Waiter.state) (f := Waiter.inState st) rfl

theorem waitingOn_setState (st : TaskState) (u : TaskPtr) :
    ((s.setState t st).tasks u).waitingOn = (s.tasks u).waitingOn :=
  edit_field (g := Waiter.waitingOn) (f := Waiter.inState st) (fun _ => rfl) u

/-- A change of a task's scheduler state is no change of the queue. -/
theorem Queued.setState (h : Queued s.tasks s.queue l) (st : TaskState) :
    Queued (s.setState t st).tasks s.queue l :=
  h.congr (fun u => edit_field (g := Waiter.waitNext) (f := Waiter.inState st) (fun _ => rfl) u)
    fun u => edit_field (g := Waiter.waitPrevious) (f := Waiter.inState st) (fun _ => rfl) u

/-- A task that runs is not a queued task, and no waker holds it. -/
theorem BlockingInv.running_notMem (h : BlockingInv s l) (hr : s.running t = true)
    (hp : s.phase t ≠ .blocking) : t ∉ l := by
  have hst : s.states t = .running := of_decide_eq_true hr
  cases hph : s.phase t with
  | outside => exact (h.view.awake t (.inl hph)).2
  | trying => exact (h.view.awake t (.inr hph)).2
  | blocking => exact absurd hph hp
  | waiting =>
    rcases h.view.waiting t hph with hb | ha
    · have hblocked : s.states t = .blocked := hb.1
      rw [hst] at hblocked
      cases hblocked
    · exact ha.2
  | waking w => exact (h.view.waking t w hph).2.1

theorem BlockingInv.waitingOn_false (h : BlockingInv s l) (ht : t ∉ l) :
    (s.tasks t).waitingOn = false :=
  Bool.eq_false_iff.mpr fun he => ht ((h.flag t).mp he)

/-- A task that is not switched out is not pending. -/
theorem pending_false (hp : s.phase t ≠ .waiting) : s.pending t = false := by
  rw [World.pending, decide_eq_false hp, Bool.false_and]

variable {q : Phase}

/-- Moving a task between phases other than `waiting` concerns only itself. -/
theorem pending_update (hphase : s'.phase = update s.phase t q)
    (hne : q ≠ .waiting) (hflag : ∀ u, u ≠ t → (s'.tasks u).waitingOn = (s.tasks u).waitingOn) :
    s'.pending = update s.pending t false := by
  funext u
  by_cases hu : u = t
  · subst hu
    rw [update_self]
    apply pending_false
    rw [hphase, update_self]
    exact hne
  · rw [update_of_ne hu, World.pending, World.pending, hphase, update_of_ne hu, hflag u hu]

theorem pending_keep (hphase : s'.phase = update s.phase t q)
    (hne : q ≠ .waiting) (hold : s.phase t ≠ .waiting)
    (hflag : ∀ u, u ≠ t → (s'.tasks u).waitingOn = (s.tasks u).waitingOn) :
    s'.pending = s.pending := by
  rw [pending_update hphase hne hflag, ← pending_false hold, update_eq_self]

/-- The invariant is kept, with one of the listed effects. -/
def Lands (p : Primitive κ) (s : World κ) (l : List TaskPtr) (s' : World κ) : Prop :=
  ∃ l', BlockingInv s' l' ∧ Effect p s l s' l'

section

variable (h : BlockingInv s l)

include h

section

variable (ht : t < s.taskCount)

include ht

theorem absent_update (u : TaskPtr)
    (hu : s.taskCount ≤ u) : update s.phase t q u = .outside := by
  have hne : u ≠ t := Nat.ne_of_gt (Nat.lt_of_lt_of_le ht hu)
  rw [update_of_ne hne]
  exact h.absent u hu

/-- A task moves between the outside and the top of the loop. -/
theorem BlockingInv.moved (hr : s.running t = true)
    (hp : s.phase t = .outside ∨ s.phase t = .trying ∨ s.phase t = .waiting)
    (hph : q = .outside ∨ q = .trying) : BlockingInv (s.goto t q) l :=
  ⟨h.queued, h.flag, h.view.moved (fun _ => of_decide_eq_true hr) hp hph, absent_update h ht⟩

theorem lands_call
    (hs : taskStep p s (.call t) = some s') : Lands p s l s' := by
  dsimp only [taskStep] at hs
  rw [ite_none_right_eq_some] at hs
  obtain ⟨⟨hp, hr⟩, hs⟩ := hs
  obtain rfl := some.inj hs
  refine ⟨l, h.moved ht hr (.inl hp) (.inr rfl), .quiet rfl rfl ?_⟩
  have hne : s.phase t ≠ .waiting := by rw [hp]; exact nofun
  exact pending_keep (q := .trying) rfl nofun hne fun _ _ => rfl

/-- `wait_queue_block_locked` enqueues: the task was not on the queue. -/
theorem lands_block (hr : s.running t = true)
    (hp : s.phase t = .trying ∨ s.phase t = .waiting) (hl : s.lockedBy = none)
    (hwait : p.attempt s.obj t = .wait) : Lands p s l (waitQueueBlockLocked s t) := by
  have hnb : s.phase t ≠ .blocking := by
    rcases hp with hp | hp <;> rw [hp] <;> exact nofun
  have hmem := h.running_notMem hr hnb
  have hflag := h.waitingOn_false hmem
  unfold waitQueueBlockLocked
  rw [hflag, if_neg nofun]
  dsimp only
  set tasks := edit s.tasks t Waiter.queued with htasks
  have hq : Queued tasks s.queue l :=
    h.queued.congr
      (fun u => edit_field (g := Waiter.waitNext) (f := Waiter.queued) (fun _ => rfl) u)
      fun u => edit_field (g := Waiter.waitPrevious) (f := Waiter.queued) (fun _ => rfl) u
  have hstate : ∀ u, ((waitQueuePushBack tasks s.queue t).1 u).state = (s.tasks u).state := by
    intro u
    rw [pushBack_keeps (g := Waiter.state) (fun _ _ _ => rfl) (fun _ _ => rfl)]
    exact edit_field (g := Waiter.state) (f := Waiter.queued) (fun _ => rfl) u
  have hwaitingOn : ∀ u, ((waitQueuePushBack tasks s.queue t).1 u).waitingOn =
      update (fun u => (s.tasks u).waitingOn) t true u := by
    intro u
    rw [pushBack_keeps (g := Waiter.waitingOn) (fun _ _ _ => rfl) (fun _ _ => rfl)]
    exact congrFun (edit_read (g := Waiter.waitingOn) (f := Waiter.queued) rfl) u
  refine ⟨l ++ [t], ⟨hq.pushBack hmem, fun u => ?_, ?_, absent_update h ht⟩,
    .enqueued t ht hwait rfl rfl ?_⟩
  · show ((waitQueuePushBack tasks s.queue t).1 u).waitingOn = true ↔ u ∈ l ++ [t]
    rw [hwaitingOn, mem_append, mem_singleton]
    by_cases hu : u = t
    · subst hu
      simp
    · rw [update_of_ne hu, h.flag u]
      simp [hu]
  · have hview := h.view.enqueued (of_decide_eq_true hr) hp hl
    have hstates : (fun u => ((waitQueuePushBack tasks s.queue t).1 u).state) = s.states :=
      funext hstate
    show ViewOk ⟨_, fun u => ((waitQueuePushBack tasks s.queue t).1 u).state, _, _⟩
    rw [hstates]
    exact hview
  · apply pending_update (q := .blocking) rfl nofun
    intro u hu
    show ((waitQueuePushBack tasks s.queue t).1 u).waitingOn = _
    rw [hwaitingOn, update_of_ne hu]

theorem lands_attempt
    (hs : taskStep p s (.attempt t) = some s') : Lands p s l s' := by
  dsimp only [taskStep] at hs
  rw [ite_none_right_eq_some] at hs
  obtain ⟨⟨hp, hr, hl⟩, hs⟩ := hs
  cases hatt : p.attempt s.obj t with
  | wait =>
    rw [hatt] at hs
    obtain rfl := some.inj hs
    exact lands_block h ht hr hp hl hatt
  | finish ok obj =>
    rw [hatt] at hs
    obtain rfl := some.inj hs
    have hmoved := h.moved ht hr (.inr hp) (q := .outside) (.inl rfl)
    refine ⟨l, ⟨hmoved.queued, hmoved.flag, hmoved.view, hmoved.absent⟩, ?_⟩
    cases ok with
    | true => exact .acquired t ht hatt rfl (pending_update (q := .outside) rfl nofun fun _ _ => rfl)
    | false => exact .refused t ht hatt rfl (pending_update (q := .outside) rfl nofun fun _ _ => rfl)

/-- The hand-over always blocks: a queued task is still RUNNING. -/
theorem lands_handOver
    (hs : taskStep p s (.handOver t) = some s') : Lands p s l s' := by
  dsimp only [taskStep] at hs
  rw [ite_none_right_eq_some] at hs
  obtain ⟨hp, hs⟩ := hs
  obtain rfl := some.inj hs
  obtain ⟨hr, hmem, -⟩ := h.view.blocking t hp
  change (s.tasks t).state = .running at hr
  change t ∈ l at hmem
  unfold schedulerBlockCurrentWait
  rw [if_neg (not_not.mpr hr)]
  refine ⟨l, ⟨h.queued.setState .blocked, fun u => ?_, ?_, absent_update h ht⟩,
    .quiet rfl rfl (funext fun u => ?_)⟩
  · rw [← h.flag u]
    show ((s.setState t .blocked).tasks u).waitingOn = true ↔ _
    rw [waitingOn_setState]
  · have hview := h.view.handedOver hp
    show ViewOk ⟨_, (s.setState t .blocked).states, _, _⟩
    rw [states_setState]
    exact hview
  · show (decide (update s.phase t .waiting u = .waiting) &&
      !((s.setState t .blocked).tasks u).waitingOn) = s.pending u
    rw [waitingOn_setState]
    by_cases hu : u = t
    · subst hu
      rw [(h.flag u).mpr hmem, Bool.not_true, Bool.and_false, pending_false]
      rw [hp]
      exact nofun
    · rw [update_of_ne hu]
      rfl

end

theorem lands_tryAcquire
    (hs : taskStep p s (.tryAcquire t) = some s') : Lands p s l s' := by
  dsimp only [taskStep] at hs
  rw [ite_none_right_eq_some] at hs
  obtain ⟨-, hs⟩ := hs
  cases htry : p.tryAcquire s.obj t with
  | none =>
    rw [htry] at hs
    obtain rfl := some.inj hs
    exact ⟨l, h, .quiet rfl rfl rfl⟩
  | some obj =>
    rw [htry] at hs
    obtain rfl := some.inj hs
    exact ⟨l, ⟨h.queued, h.flag, h.view, h.absent⟩, .taken t htry rfl rfl⟩

theorem flag_popFront (u : TaskPtr) :
    ((waitQueuePopFront s.tasks s.queue).1 u).waitingOn = true ↔ u ∈ l.tail := by
  have hnd := h.view.nodup
  change l.Nodup at hnd
  rw [(popFront_keeps s.tasks s.queue u).2, h.queued.popFront.1, Bool.and_eq_true, h.flag u,
    decide_eq_true_iff]
  cases l with
  | nil => simp
  | cons w l =>
    rw [nodup_cons] at hnd
    rw [head?_cons, tail_cons, mem_cons]
    constructor
    · rintro ⟨rfl | hu, hne⟩
      · exact absurd rfl hne
      · exact hu
    · intro hu
      refine ⟨.inr hu, fun he => ?_⟩
      exact hnd.1 (some.inj he ▸ hu)

end

theorem states_popFront (s : World κ) :
    (fun u => ((waitQueuePopFront s.tasks s.queue).1 u).state) = s.states :=
  funext fun u => (popFront_keeps s.tasks s.queue u).1

section

variable (h : BlockingInv s l)

include h

/-- The releasing operation: the first waiter, if there is one, becomes pending. -/
theorem lands_popWaiter (ht : t < s.taskCount) (hr : s.running t = true)
    (hp : s.phase t = .outside) (hl : s.lockedBy = none) {obj : κ}
    (hrel : p.release s.obj t = some obj) :
    Lands p s l (popWaiter { s with obj := obj, log := .released t :: s.log } t) := by
  obtain ⟨hhead, hqueued⟩ := h.queued.popFront
  have hold : s.phase t ≠ .waiting := by rw [hp]; exact nofun
  unfold popWaiter
  dsimp only
  rw [hhead]
  cases hlist : l with
  | nil =>
    subst hlist
    have hmoved := h.moved ht hr (.inl hp) (q := .outside) (.inl rfl)
    refine ⟨[], ⟨hqueued, flag_popFront h, ?_, hmoved.absent⟩, .released t hrel rfl ?_⟩
    · have hview := hmoved.view
      show ViewOk ⟨_, fun u => ((waitQueuePopFront s.tasks s.queue).1 u).state, _, _⟩
      rw [states_popFront]
      exact hview
    · apply pending_keep (q := .outside) rfl nofun hold
      intro u _
      show ((waitQueuePopFront s.tasks s.queue).1 u).waitingOn = _
      rw [(popFront_keeps s.tasks s.queue u).2, hhead]
      simp
  | cons w l' =>
    subst hlist
    have hview := h.view.popped rfl hp hl
    obtain ⟨-, -, hw, -, -⟩ := hview.waking t w (update_self ..)
    refine ⟨l', ⟨hqueued, flag_popFront h, ?_, absent_update h ht⟩, .released t hrel rfl ?_⟩
    · show ViewOk ⟨_, fun u => ((waitQueuePopFront s.tasks s.queue).1 u).state, _, _⟩
      rw [states_popFront]
      exact hview
    · funext u
      show (decide (update s.phase t (.waking w) u = .waiting) &&
        !((waitQueuePopFront s.tasks s.queue).1 u).waitingOn) = update s.pending w true u
      change update s.phase t (.waking w) w = .waiting at hw
      by_cases hu : u = w
      · subst hu
        rw [hw, update_self, (popFront_keeps s.tasks s.queue u).2, hhead]
        simp
      · have hne : some w ≠ some u := fun he => hu (some.inj he).symm
        rw [(popFront_keeps s.tasks s.queue u).2, hhead, head?_cons, decide_eq_true hne,
          Bool.and_true, update_of_ne hu]
        by_cases hut : u = t
        · subst hut
          rw [update_self, pending_false hold]
          rfl
        · rw [update_of_ne hut]
          rfl

theorem lands_release (ht : t < s.taskCount)
    (hs : taskStep p s (.release t) = some s') : Lands p s l s' := by
  dsimp only [taskStep] at hs
  rw [ite_none_right_eq_some] at hs
  obtain ⟨⟨hp, hr, hl⟩, hs⟩ := hs
  cases hrel : p.release s.obj t with
  | none =>
    rw [hrel] at hs
    obtain rfl := some.inj hs
    exact ⟨l, h, .quiet rfl rfl rfl⟩
  | some obj =>
    rw [hrel] at hs
    obtain rfl := some.inj hs
    exact lands_popWaiter h ht hr hp hl hrel

/-- The wake always finds the popped waiter blocked. -/
theorem lands_wake (ht : t < s.taskCount)
    (hs : taskStep p s (.wake t) = some s') : Lands p s l s' := by
  dsimp only [taskStep] at hs
  cases hp : s.phase t with
  | waking w =>
    rw [hp] at hs
    dsimp only at hs
    rw [ite_none_right_eq_some] at hs
    obtain ⟨hr, hs⟩ := hs
    obtain rfl := some.inj hs
    obtain ⟨-, -, -, hblocked, -⟩ := h.view.waking t w hp
    change (s.tasks w).state = .blocked at hblocked
    have hwake : schedulerWake s w = s.setState w .ready := by
      unfold schedulerWake
      rw [if_neg]
      rintro ⟨hne, -⟩
      exact hne hblocked
    rw [hwake]
    refine ⟨l, ⟨h.queued.setState .ready, fun u => ?_, ?_, absent_update h ht⟩, .quiet rfl rfl ?_⟩
    · rw [← h.flag u]
      show ((s.setState w .ready).tasks u).waitingOn = true ↔ _
      rw [waitingOn_setState]
    · have hview := h.view.woken hp
      show ViewOk ⟨_, (s.setState w .ready).states, _, _⟩
      rw [states_setState]
      exact hview
    · apply pending_keep (q := .outside) rfl nofun
      · rw [hp]
        exact nofun
      · intro u _
        exact waitingOn_setState .ready u
  | outside | trying | blocking | waiting =>
    rw [hp] at hs
    cases hs

/-- A dispatch or a preemption of a task that is not inside `wait_queue_block_locked`. -/
theorem lands_scheduled (ha : Awake ((s.tasks t).state))
    (hl : s.lockedBy ≠ some t) {st : TaskState} (hst : Awake st) : Lands p s l (s.setState t st) := by
  refine ⟨l, ⟨h.queued.setState st, fun u => ?_, ?_, h.absent⟩, .quiet rfl rfl (funext fun u => ?_)⟩
  · rw [waitingOn_setState]
    exact h.flag u
  · have hview := h.view.scheduled ha hl hst
    show ViewOk ⟨_, (s.setState t st).states, _, _⟩
    rw [states_setState]
    exact hview
  · show (decide (s.phase u = .waiting) && !((s.setState t st).tasks u).waitingOn) = s.pending u
    rw [waitingOn_setState]
    rfl

theorem lands_dispatch
    (hs : taskStep p s (.dispatch t) = some s') : Lands p s l s' := by
  dsimp only [taskStep] at hs
  rw [ite_none_right_eq_some] at hs
  obtain ⟨hready, hs⟩ := hs
  obtain rfl := some.inj hs
  apply lands_scheduled h (.inl hready) _ (.inr rfl)
  -- who holds the lock is RUNNING
  intro hlock
  obtain ⟨hr, -, -⟩ := h.view.blocking t (h.view.lock t hlock)
  change (s.tasks t).state = .running at hr
  rw [hready] at hr
  cases hr

theorem lands_preempt
    (hs : taskStep p s (.preempt t) = some s') : Lands p s l s' := by
  dsimp only [taskStep] at hs
  rw [ite_none_right_eq_some] at hs
  obtain ⟨⟨hr, hl⟩, hs⟩ := hs
  obtain rfl := some.inj hs
  exact lands_scheduled h (.inr (of_decide_eq_true hr)) hl (.inl rfl)

/-- Every step keeps the invariant and has one of the listed effects. -/
theorem step_lands {lab : Label} (hs : step p s lab = some s') :
    Lands p s l s' := by
  rw [step, ite_none_right_eq_some] at hs
  obtain ⟨ht, hs⟩ := hs
  cases lab with
  | call t => exact lands_call h ht hs
  | attempt t => exact lands_attempt h ht hs
  | handOver t => exact lands_handOver h ht hs
  | tryAcquire t => exact lands_tryAcquire h hs
  | release t => exact lands_release h ht hs
  | wake t => exact lands_wake h ht hs
  | dispatch t => exact lands_dispatch h hs
  | preempt t => exact lands_preempt h hs

end

theorem start_inv (n : Nat) (obj : κ) : BlockingInv (start n obj) [] := by
  refine ⟨⟨?_, rfl⟩, fun t => ?_, ?_, fun _ _ => rfl⟩
  · exact ⟨nodup_nil, rfl, rfl, trivial⟩
  · show false = true ↔ t ∈ []
    simp
  · constructor
    · exact nodup_nil
    · exact fun t _ => ⟨.inl rfl, not_mem_nil⟩
    all_goals exact nofun

theorem step_taskCount {lab : Label} (hs : step p s lab = some s') :
    s'.taskCount = s.taskCount := by
  rw [step, ite_none_right_eq_some] at hs
  obtain ⟨-, hs⟩ := hs
  cases lab <;> dsimp only [taskStep] at hs <;> split at hs <;> try cases hs
  · rfl
  · split at hs <;> obtain rfl := some.inj hs
    · rfl
    · unfold waitQueueBlockLocked
      split <;> rfl
  · unfold schedulerBlockCurrentWait
    split <;> rfl
  · split at hs <;> obtain rfl := some.inj hs <;> rfl
  · split at hs <;> obtain rfl := some.inj hs <;> rfl
  · rw [ite_none_right_eq_some] at hs
    obtain rfl := some.inj hs.2
    unfold schedulerWake
    split <;> rfl
  · rfl
  · rfl

/-! ## Runs -/

/-- Ready to run, or about to be made READY by the task that popped it. -/
def World.AboutToRun (s : World κ) (t : TaskPtr) : Prop :=
  (s.tasks t).state = .ready ∨ (s.tasks t).state = .running ∨ ∃ u, s.phase u = .waking t

/-- A pending waiter is never left behind. -/
theorem BlockingInv.pending (h : BlockingInv s l) (hp : s.pending t = true) : s.AboutToRun t := by
  rw [World.pending, Bool.and_eq_true, decide_eq_true_iff] at hp
  obtain ⟨hph, hflag⟩ := hp
  rcases h.view.waiting t hph with ⟨-, hmem | hwaker⟩ | ⟨ha, -⟩
  · rw [(h.flag t).mpr hmem] at hflag
    cases hflag
  · exact .inr (.inr hwaker)
  · rcases ha with ha | ha
    · exact .inl ha
    · exact .inr (.inl ha)

theorem BlockingInv.mem_lt (h : BlockingInv s l) (hmem : t ∈ l) : t < s.taskCount := by
  by_contra hge
  have hout := h.absent t (Nat.not_lt.mp hge)
  exact (h.view.awake t (.inl hout)).2 hmem

theorem BlockingInv.head_isSome (h : BlockingInv s l) : s.queue.head ≠ none ↔ l ≠ [] := by
  rw [h.queued.list.head_eq]
  cases l <;> simp

/-- What the effects keep holds of every state of a run. -/
theorem run_keeps {n : Nat} {obj : κ} {ls : List Label} {Q : World κ → List TaskPtr → Prop}
    (h0 : Q (start n obj) [])
    (hstep : ∀ s s' l l', BlockingInv s l → Q s l → s'.taskCount = s.taskCount →
      Effect p s l s' l' → Q s' l')
    (hr : Run (step p) (start n obj) ls s) : ∃ l, BlockingInv s l ∧ Q s l := by
  refine hr.invariant (I := fun s => ∃ l, BlockingInv s l ∧ Q s l) ⟨[], start_inv n obj, h0⟩ ?_
  rintro s lab s' ⟨l, hi, hq⟩ - hs
  obtain ⟨l', hi', heffect⟩ := step_lands hi hs
  exact ⟨l', hi', hstep s s' l l' hi hq (step_taskCount hs) heffect⟩

end MeatySkeleton.Sync
