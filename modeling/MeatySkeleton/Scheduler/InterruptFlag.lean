import MeatySkeleton.Scheduler.RunSafety

/-!
# The interrupt flag across context switches

One CPU, with its interrupt-enable flag and the kernel stacks of the tasks. A
stack is a list of frames, innermost first: an operation in progress (a yield, a
block or a wait) with the flag it was entered with, or an interrupt frame with
the `EFLAGS` the CPU pushed. A task that has not run yet has no frame.

`scheduler_schedule` and `scheduler_block_current_wait` leave the flags of the
task that goes in the per-CPU `scheduler_switch_flags`, and
`scheduler_finish_switch` restores them in the task that comes. So what an
operation returns with is the flag of whoever switched back to it. Each return
is recorded in `returned`. `FlagsAgree` asks of a task that leaves the CPU that
it does so with the flag with which the suspended tasks entered their operations,
and `agreeing_run_returned` shows that nothing else can change the flag under an
operation: not a preemption inside a block, not the return to the same task, not
an early return.
-/

namespace MeatySkeleton.Scheduler

open Function List Option Lib

inductive Frame
  | operation (entered : Bool)
  | handler (eflags : Flags)
  deriving DecidableEq

/-- The entry flag of the operation a stack is inside of. -/
def operationFlag : List Frame → Option Bool
  | .operation b :: _ => some b
  | _ => none

/-- The `EFLAGS` an interrupt handler on top of a stack will return with. -/
def handlerFlags : List Frame → Option Flags
  | .handler eflags :: _ => some eflags
  | _ => none

/-- The return of an operation, with the flag at its entry and after it. -/
structure Return where
  task : TaskPtr
  entered : Bool
  left : Bool
  deriving DecidableEq

structure Cpu where
  machine : Machine 1
  interrupts : Bool
  frames : TaskPtr → List Frame
  returned : List Return

/-- The steps of one CPU. `flags` is the `EFLAGS` value at the step. An IRQ is
only taken with the flag set, `int` in any case. -/
inductive Event
  | create (t : TaskPtr) (policy : SchedPolicy) (stackBase stackSize : Nat)
  | makeReady (t : TaskPtr)
  | wake (t : TaskPtr)
  | tick
  | reap (t : TaskPtr)
  | enablePreemption (enabled : Bool)
  | setInterrupts (enabled : Bool)
  | yield (flags : Flags)
  | block (st : TaskState) (flags : Flags)
  | blockSchedule (flags : Flags)
  | wait (st : TaskState) (waitFlags : Flags)
  | exit (flags : Flags)
  | interrupt (eflags : Flags)
  | preemptionPoint (flags : Flags)
  | iret
  deriving DecidableEq

namespace Cpu

def current (w : Cpu) : Option TaskPtr := (w.machine.sched.cpus 0).currentTask

/-- Push a frame on the stack of `t`. -/
def push (w : Cpu) (t : TaskPtr) (f : Frame) : Cpu :=
  { w with frames := update w.frames t (f :: w.frames t) }

/-- The task that has the CPU goes on: an operation returns, an interrupt handler
and a task on its first entry continue. -/
def resume (w : Cpu) : Cpu :=
  match w.current with
  | none => w
  | some t =>
    match operationFlag (w.frames t) with
    | none => w
    | some b =>
      { w with
        frames := update w.frames t (w.frames t).tail
        returned := { task := t, entered := b, left := w.interrupts } :: w.returned }

/-- The end of a scheduling operation entered with `flags`. A saved context has
the flag clear, and `INITIAL_EFLAGS` as well; `scheduler_finish_switch` then
restores what the switch left behind. -/
def dispatch (w : Cpu) (d : Dispatch 1) (flags : Flags) : Option Cpu :=
  match w.machine.afterSwitch 0 d with
  | none => none
  | some m =>
    match d with
    | .halted => none
    | .stayed _ => some { w with machine := m, interrupts := interruptFlag flags }.resume
    | .switched s _ =>
      match (schedulerFinishSwitch s 0).2.1 with
      | none => some { w with machine := m, interrupts := false }.resume
      | some restored =>
        some { w with machine := m, interrupts := interruptFlag restored }.resume

/-- A plain step of the scheduler that neither switches nor touches the flag. -/
def lift (w : Cpu) (l : Label 1) : Option Cpu :=
  match step w.machine l with
  | none => none
  | some m => some { w with machine := m }

/-- The task that may start an operation: it has the CPU and is not already on
its way out. -/
def runner (w : Cpu) : Option TaskPtr :=
  w.current.filter fun t => !w.machine.leaving t

def setCpu (w : Cpu) (f : CpuLocal → CpuLocal) : Cpu :=
  { w with machine := { w.machine with sched := w.machine.sched.setCpu 0 f } }

def setLeaving (w : Cpu) (t : TaskPtr) (b : Bool) : Cpu :=
  { w with machine := { w.machine with leaving := update w.machine.leaving t b } }

end Cpu

/-- One step of the CPU; `none` when the step cannot be taken. -/
def cpuStep (w : Cpu) : Event → Option Cpu
  | .create t policy stackBase stackSize =>
    match w.lift (.create t policy stackBase stackSize) with
    | none => none
    | some w' => some { w' with frames := update w'.frames t [] }
  | .makeReady t => w.lift (.makeReady t)
  | .wake t => w.lift (.wake 0 t)
  | .tick => w.lift (.tick 0)
  | .reap t => w.lift (.reap t)
  | .enablePreemption enabled =>
    some (w.setCpu fun k => { k with preemptionEnabled := enabled })
  | .setInterrupts enabled =>
    match w.current with
    | none => none
    | some t =>
      -- a task on its way out goes straight to `scheduler_schedule`
      if w.machine.leaving t ∧ handlerFlags (w.frames t) = none then none
      else some { w with interrupts := enabled }
  | .yield flags =>
    match w.runner with
    | none => none
    | some t =>
      if interruptFlag flags = w.interrupts then
        let w := (w.setCpu fun k => { k with reschedulePending := false }).push t
          (.operation w.interrupts)
        w.dispatch (schedulerSchedule w.machine.sched 0 flags) flags
      else none
  | .block st flags =>
    match w.runner with
    | none => none
    | some t =>
      if interruptFlag flags = w.interrupts ∧ ¬ w.machine.Idle t then
        match schedulerBlockCurrent w.machine.sched 0 st with
        | none => some (w.push t (.operation w.interrupts)).resume
        | some s =>
          -- the lock is dropped here; `blockSchedule` is the call that follows
          some (({ w with machine := { w.machine with sched := s } }.setLeaving t true).push t
            (.operation w.interrupts))
      else none
  | .blockSchedule flags =>
    match w.current with
    | none => none
    | some t =>
      if w.machine.leaving t ∧ handlerFlags (w.frames t) = none ∧ interruptFlag flags = w.interrupts then
        (w.setLeaving t false).dispatch (schedulerSchedule w.machine.sched 0 flags) flags
      else none
  | .wait st waitFlags =>
    match w.runner with
    | none => none
    | some t =>
      if interruptFlag waitFlags = w.interrupts ∧ ¬ w.machine.Idle t then
        let w := w.push t (.operation w.interrupts)
        match schedulerBlockCurrentWait w.machine.sched 0 st waitFlags with
        | none => some { w with interrupts := interruptFlag waitFlags }.resume
        | some d => w.dispatch d waitFlags
      else none
  | .exit flags =>
    match w.runner with
    | none => none
    | some t =>
      if (w.machine.sched.tasks t).Managed ∧ ¬ w.machine.Idle t ∧
          interruptFlag flags = false then
        -- nothing comes back to this stack, so no frame is pushed
        let s := w.machine.sched.setTask t (setState .zombie)
        { w with machine := { w.machine with sched := s } }.dispatch
          (schedulerSchedule s 0 flags) flags
      else none
  | .interrupt eflags =>
    match w.current with
    | none => none
    | some t =>
      if interruptFlag eflags = w.interrupts then
        some { w.push t (.handler eflags) with interrupts := false }
      else none
  | .preemptionPoint flags =>
    match w.current with
    | none => none
    | some t =>
      match handlerFlags (w.frames t) with
      | none => none
      | some eflags =>
        let k := w.machine.sched.cpus 0
        if k.preemptionEnabled ∧ k.reschedulePending then
          if interruptFlag flags = w.interrupts then
            let w := w.setCpu fun k => { k with schedulerPreemptRestoreFlags := eflags }
            w.dispatch (schedulerSchedule w.machine.sched 0 flags) flags
          else none
        else some w
  | .iret =>
    match w.current with
    | none => none
    | some t =>
      match handlerFlags (w.frames t) with
      | none => none
      | some eflags =>
        some { w with
          frames := update w.frames t (w.frames t).tail
          interrupts := interruptFlag eflags }

/-- The flag is what it was when the operation was entered. -/
def ReturnsPreserved (w : Cpu) : Prop := ∀ r ∈ w.returned, r.left = r.entered

/-! ## The condition -/

/-- If the CPU goes to another task, every suspended task entered its operation
with the interrupt bit of `flags`. -/
def Fits (w : Cpu) (next : Option TaskPtr) (flags : Flags) : Prop :=
  next ≠ w.current → ∀ t, w.current ≠ some t → ∀ b ∈ operationFlag (w.frames t),
    interruptFlag flags = b

/-- The task the scheduler turns to, off the state before. -/
def turnsTo (w : Cpu) (first : Option TaskPtr) : Option TaskPtr :=
  first.or (w.machine.sched.cpus 0).idleTask

/-- The flags of the task that schedules fit, and so do those that a preemption
which stayed with its task has left over. -/
def LeavesWith (w : Cpu) (first : Option TaskPtr) (flags : Flags) : Prop :=
  Fits w (turnsTo w first) flags ∧
    ((w.machine.sched.cpus 0).schedulerPreemptRestoreFlags ≠ 0 →
      Fits w (turnsTo w first) (w.machine.sched.cpus 0).schedulerPreemptRestoreFlags)

/-- Whoever leaves the CPU does so with the interrupt bit with which the tasks
that are suspended in an operation entered it. A preempted task leaves with that
of the `EFLAGS` the CPU pushed, which are not 0. -/
def FlagsAgree (w : Cpu) : Event → Prop
  | .yield flags | .blockSchedule flags => LeavesWith w (firstReady w.machine.sched 0) flags
  | .wait st waitFlags =>
    blockable st ∧ (∀ t ∈ w.current, (w.machine.sched.tasks t).state = .running) →
      Fits w (turnsTo w (firstQueued w.machine.sched)) waitFlags
  | .exit flags => LeavesWith w (firstQueued w.machine.sched) flags
  | .preemptionPoint _ =>
    ∀ t ∈ w.current, ∀ eflags ∈ handlerFlags (w.frames t),
      (w.machine.sched.cpus 0).preemptionEnabled ∧ (w.machine.sched.cpus 0).reschedulePending →
      eflags ≠ 0 ∧ Fits w (turnsTo w (firstReady w.machine.sched 0)) eflags
  | _ => True

/-! ## What a scheduling operation leaves behind -/

section spec

variable {n : Nat} {s : Sched n} {c : Fin n} {t : TaskPtr}

theorem pickNext_cpus (s : Sched n) (c : Fin n) : (schedulerPickNext s c).1.cpus = s.cpus := by
  have hloop : ∀ ps : List SchedPolicy, (pickFrom s c ps).1.cpus = s.cpus := by
    intro ps
    induction ps with
    | nil => rfl
    | cons p ps ih =>
      unfold pickFrom
      split
      · exact ih
      · split
        · rfl
        · exact ih
  exact hloop policyOrder

theorem requeueCurrent_cpus (s : Sched n) (c : Fin n) : (requeueCurrent s c).cpus = s.cpus := by
  unfold requeueCurrent
  split
  · rfl
  · split
    · split
      · rfl
      · exact publishReady_cpus ..
    · rfl

/-- What `scheduler_schedule` leaves behind, if nothing was left there before. -/
theorem scheduleSwitchFlags_cases {k : CpuLocal} {flags : Flags} {P : Flags → Prop}
    (hclean : k.schedulerSwitchFlags = 0) (hflags : k.schedulerPreemptRestoreFlags = 0 → P flags)
    (hleft : k.schedulerPreemptRestoreFlags ≠ 0 → P k.schedulerPreemptRestoreFlags) :
    P (scheduleSwitchFlags k flags).1 := by
  unfold scheduleSwitchFlags
  rw [if_neg (by simp [hclean])]
  split
  next hne => exact hleft (by simpa using hne)
  next heq => exact hflags (by simpa using heq)

theorem finishSwitch_clean {restored : Flags}
    (h : (schedulerFinishSwitch s c).2.1 = some restored) :
    ((schedulerFinishSwitch s c).1.cpus c).schedulerSwitchFlags = 0 := by
  unfold schedulerFinishSwitch at h ⊢
  dsimp only at h ⊢
  split at h
  next hheld => simp [hheld, Sched.setCpu]
  next => exact absurd h (by simp)

theorem finishSwitch_current (s : Sched n) (c : Fin n) :
    ((schedulerFinishSwitch s c).1.cpus c).currentTask = (s.cpus c).currentTask := by
  unfold schedulerFinishSwitch
  dsimp only
  split <;> simp [Sched.setCpu]

/-- `scheduler_schedule` stays on the current task, or leaves its switch flags to
the task it picked. -/
theorem schedulerSchedule_spec (ht : (s.cpus c).currentTask = some t) (flags : Flags) :
    match schedulerSchedule s c flags with
    | .halted => True
    | .stayed s' => (s'.cpus c).currentTask = some t ∧
        (s'.cpus c).schedulerSwitchFlags = (s.cpus c).schedulerSwitchFlags
    | .switched s' next => next ≠ t ∧ (schedulerPickNext (requeueCurrent s c) c).2 = some next ∧
        (s'.cpus c).currentTask = some next ∧
        (schedulerFinishSwitch s' c).2.1 = some (scheduleSwitchFlags (s.cpus c) flags).1 := by
  have hcpus : (schedulerPickNext (requeueCurrent s c) c).1.cpus = s.cpus :=
    (pickNext_cpus ..).trans (requeueCurrent_cpus ..)
  unfold schedulerSchedule
  rcases hp : schedulerPickNext (requeueCurrent s c) c with ⟨s', _ | next⟩
  · trivial
  · rw [hp] at hcpus
    rw [ht]
    dsimp only at hcpus ⊢
    by_cases hn : next = t
    · rw [if_pos hn]
      simp [Sched.setCpu, hcpus, ht]
    · rw [if_neg hn]
      simp [Sched.setCpu, schedulerFinishSwitch, hcpus, hn]

/-- `scheduler_block_current_wait` always switches, and leaves the wait flags. -/
theorem schedulerBlockCurrentWait_spec (ht : (s.cpus c).currentTask = some t) (st : TaskState)
    (waitFlags : Flags) :
    match schedulerBlockCurrentWait s c st waitFlags with
    | none => True
    | some .halted => True
    | some (.stayed _) => False
    | some (.switched s' next) => next ≠ t ∧
        (schedulerPickNext (s.setTask t (setState st)) c).2 = some next ∧
        (s'.cpus c).currentTask = some next ∧ blockable st ∧
        (s.tasks t).state = .running ∧
        (schedulerFinishSwitch s' c).2.1 = some waitFlags := by
  have hcpus : (schedulerPickNext (s.setTask t (setState st)) c).1.cpus = s.cpus :=
    pickNext_cpus ..
  unfold schedulerBlockCurrentWait
  rw [ht]
  dsimp only
  by_cases hb : blockable st ∧ (s.tasks t).state = .running
  · rw [if_pos hb]
    rcases hp : schedulerPickNext (s.setTask t (setState st)) c with ⟨s', _ | next⟩
    · trivial
    · rw [hp] at hcpus
      dsimp only at hcpus ⊢
      by_cases hn : next = t
      · rw [if_pos hn]; trivial
      · rw [if_neg hn]
        simp [Sched.setCpu, schedulerFinishSwitch, hcpus, hn, hb]
  · rw [if_neg hb]; trivial

end spec

/-! ## The invariant -/

/-- An operation is the outermost thing a task does before it is back in its own
code; a handler directly above it came from its window with interrupts as the
operation was entered. -/
def StackOk : List Frame → Prop
  | [] => True
  | .operation _ :: rest => ∀ b, .operation b ∉ rest
  | .handler eflags :: rest => (∀ b ∈ operationFlag rest, interruptFlag eflags = b) ∧ StackOk rest

structure FlagInv (w : Cpu) : Prop where
  inv : ∃ ql, Inv w.machine ql
  stack : ∀ t, StackOk (w.frames t)
  buried : ∀ t b, .operation b ∈ (w.frames t).tail → w.machine.leaving t = true
  onCpu : ∀ t, w.current = some t → ∀ b ∈ operationFlag (w.frames t),
    w.machine.leaving t = true ∧ w.interrupts = b
  returned : ReturnsPreserved w
  clean : (w.machine.sched.cpus 0).schedulerSwitchFlags = 0

theorem operationFlag_eq_some {l : List Frame} {b : Bool} (h : b ∈ operationFlag l) :
    ∃ rest, l = .operation b :: rest := by
  unfold operationFlag at h
  split at h
  next b' rest =>
    obtain rfl : b' = b := some.inj h
    exact ⟨rest, rfl⟩
  next => exact absurd h (by simp)

theorem handlerFlags_eq_some {l : List Frame} {eflags : Flags} (h : handlerFlags l = some eflags) :
    ∃ rest, l = .handler eflags :: rest := by
  unfold handlerFlags at h
  split at h
  next f rest =>
    obtain rfl : f = eflags := some.inj h
    exact ⟨rest, rfl⟩
  next => exact absurd h (by simp)

theorem StackOk.tail {f : Frame} {rest : List Frame} (h : StackOk (f :: rest)) : StackOk rest := by
  cases f with
  | handler eflags => exact h.2
  | operation b =>
    -- below an operation there are handlers only
    have hno : ∀ l : List Frame, (∀ b, .operation b ∉ l) → StackOk l := by
      intro l
      induction l with
      | nil => exact fun _ => trivial
      | cons g l ih =>
        intro hl
        cases g with
        | operation b => exact absurd mem_cons_self (hl b)
        | handler eflags =>
          refine ⟨fun b hb => ?_, ih fun b hb => hl b (mem_cons_of_mem _ hb)⟩
          obtain ⟨r, rfl⟩ := operationFlag_eq_some hb
          exact absurd (mem_cons_of_mem _ mem_cons_self) (hl b)
    exact hno rest h

variable {w w' : Cpu} {t : TaskPtr}

/-- An operation that comes back with its entry flag may return. -/
theorem resume_inv (hinv : ∃ ql, Inv w.machine ql) (hstack : ∀ t, StackOk (w.frames t))
    (hburied : ∀ t b, .operation b ∈ (w.frames t).tail → w.machine.leaving t = true)
    (hret : ReturnsPreserved w) (hclean : (w.machine.sched.cpus 0).schedulerSwitchFlags = 0)
    (hflag : ∀ t, w.current = some t → ∀ b ∈ operationFlag (w.frames t), w.interrupts = b) :
    FlagInv w.resume := by
  unfold Cpu.resume
  cases hc : w.current with
  | none => exact ⟨hinv, hstack, hburied, fun t ht => absurd (hc.symm.trans ht) (by simp), hret, hclean⟩
  | some t =>
    dsimp only
    cases ho : operationFlag (w.frames t) with
    | none =>
      refine ⟨hinv, hstack, hburied, fun u hu b hb => ?_, hret, hclean⟩
      obtain rfl : t = u := some.inj (hc.symm.trans hu)
      exact absurd (ho.symm.trans hb) (by simp)
    | some b =>
      obtain ⟨rest, hrest⟩ := operationFlag_eq_some (b := b) ho
      have hno : ∀ b', .operation b' ∉ rest := by
        have h := hstack t
        rw [hrest] at h
        exact h
      have htail : (w.frames t).tail = rest := by rw [hrest]; rfl
      refine ⟨hinv, fun u => ?_, fun u b' hb' => ?_, fun u hu b' hb' => ?_, ?_, hclean⟩
      · by_cases hu : u = t
        · subst hu
          have h := hstack u
          rw [hrest] at h
          simpa [hrest] using h.tail
        · simpa [update_of_ne hu] using hstack u
      · by_cases hu : u = t
        · subst hu
          simp only [update_self, htail] at hb'
          exact absurd (mem_of_mem_tail hb') (hno b')
        · simp only [update_of_ne hu] at hb'
          exact hburied u b' hb'
      · obtain rfl : t = u := some.inj (hc.symm.trans hu)
        simp only [update_self, htail] at hb'
        obtain ⟨r, hr⟩ := operationFlag_eq_some hb'
        exact absurd (hr ▸ mem_cons_self) (hno b')
      · intro r hr
        rcases mem_cons.mp hr with rfl | hr
        · exact hflag t hc b ho
        · exact hret r hr

variable {flags : Flags}

/-- The end of a scheduling operation, when what it leaves fits. -/
theorem dispatch_inv {d : Dispatch 1} (hs : w.dispatch d flags = some w')
    (hinv : ∀ m, w.machine.afterSwitch 0 d = some m → ∃ ql, Inv m ql)
    (hstack : ∀ t, StackOk (w.frames t))
    (hburied : ∀ t b, .operation b ∈ (w.frames t).tail → w.machine.leaving t = true)
    (hret : ReturnsPreserved w)
    (hstay : ∀ s, d = .stayed s → (s.cpus 0).schedulerSwitchFlags = 0 ∧
      ∀ t, (s.cpus 0).currentTask = some t →
        ∀ b ∈ operationFlag (w.frames t), interruptFlag flags = b)
    (hswitch : ∀ s next, d = .switched s next → ∃ restored,
      (schedulerFinishSwitch s 0).2.1 = some restored ∧ (s.cpus 0).currentTask = some next ∧
        ∀ b ∈ operationFlag (w.frames next), interruptFlag restored = b) : FlagInv w' := by
  unfold Cpu.dispatch at hs
  cases d with
  | halted => exact absurd hs (by simp [Machine.afterSwitch])
  | stayed s =>
    obtain rfl := some.inj hs
    exact resume_inv (hinv _ rfl) hstack hburied hret (hstay s rfl).1 (hstay s rfl).2
  | switched s next =>
    obtain ⟨restored, hres, hcur, hfits⟩ := hswitch s next rfl
    simp only [Machine.afterSwitch, hres, some.injEq] at hs
    subst hs
    refine resume_inv (hinv _ rfl) hstack hburied hret (finishSwitch_clean hres) (fun t ht => ?_)
    have : (s.cpus 0).currentTask = some t := (finishSwitch_current s 0).symm.trans ht
    obtain rfl : next = t := some.inj (hcur.symm.trans this)
    exact hfits

theorem oneCpu_safe {m : Machine 1} {first : Option TaskPtr} :
    ∀ u, first = some u → ∀ c', c' ≠ 0 → ¬ m.Current c' u :=
  fun _ _ c' hc' => absurd (Subsingleton.elim c' 0) hc'

/-- A call of `scheduler_schedule`. The caller says whether the task is still on
its way to another one (`leaving'`). -/
theorem schedule_inv {leaving' : TaskPtr → Bool}
    (hinv : ∃ ql, Inv w.machine ql) (hc : w.current = some t)
    (hleave : ∀ u, u ≠ t → leaving' u = w.machine.leaving u)
    (hstack : ∀ t, StackOk (w.frames t))
    (hburied : ∀ t b, .operation b ∈ (w.frames t).tail → leaving' t = true)
    (hret : ReturnsPreserved w) (hclean : (w.machine.sched.cpus 0).schedulerSwitchFlags = 0)
    (hself : ∀ b ∈ operationFlag (w.frames t), interruptFlag flags = b)
    (hfit : Fits w (turnsTo w (firstReady w.machine.sched 0))
      (scheduleSwitchFlags (w.machine.sched.cpus 0) flags).1)
    (hs : { w with machine := { w.machine with leaving := leaving' } }.dispatch
      (schedulerSchedule w.machine.sched 0 flags) flags = some w') : FlagInv w' := by
  obtain ⟨ql, h⟩ := hinv
  have hspec := schedulerSchedule_spec hc flags
  refine dispatch_inv hs (fun m hm => h.schedule hc hleave oneCpu_safe hm) hstack hburied hret
    (fun s hd => ?_) (fun s next hd => ?_)
  · rw [hd] at hspec
    refine ⟨hspec.2.trans hclean, fun u hu => ?_⟩
    obtain rfl : t = u := some.inj (hspec.1.symm.trans hu)
    exact hself
  · rw [hd] at hspec
    obtain ⟨hne, hpick, hcur, hres⟩ := hspec
    have hcne : w.current ≠ some next := fun e => hne (some.inj (e.symm.trans hc))
    refine ⟨_, hres, hcur, hfit (fun e => hcne ?_) next hcne⟩
    obtain ⟨_, _, _, _, hfirst⟩ := h.requeueCurrent hc
    have hsnd := pickNext_snd (requeueCurrent w.machine.sched 0) 0
    rw [hpick, hfirst, requeueCurrent_cpus] at hsnd
    exact e.symm.trans hsnd.symm

theorem runner_spec (h : w.runner = some t) : w.current = some t ∧ w.machine.leaving t = false := by
  unfold Cpu.runner at h
  rw [filter_eq_some_iff] at h
  exact ⟨h.1, by simpa using h.2⟩

/-- Before it starts an operation, a task is not inside another one. -/
theorem FlagInv.push_operation (h : FlagInv w) (hc : w.current = some t)
    (hl : w.machine.leaving t = false) (b : Bool) :
    (∀ u, StackOk ((w.push t (.operation b)).frames u)) ∧
    ∀ u b', .operation b' ∈ ((w.push t (.operation b)).frames u).tail →
      w.machine.leaving u = true := by
  have hno : ∀ b', .operation b' ∉ w.frames t := by
    intro b' hb'
    cases hf : w.frames t with
    | nil => rw [hf] at hb'; simp at hb'
    | cons f rest =>
      rw [hf] at hb'
      rcases mem_cons.mp hb' with rfl | hrest
      · have := (h.onCpu t hc b' (by rw [hf]; rfl)).1
        rw [hl] at this
        exact absurd this (by simp)
      · have := h.buried t b' (by rw [hf]; exact hrest)
        rw [hl] at this
        exact absurd this (by simp)
  refine ⟨fun u => ?_, fun u b' hb' => ?_⟩
  · by_cases hu : u = t
    · subst hu
      simp only [Cpu.push, update_self]
      exact hno
    · simpa [Cpu.push, update_of_ne hu] using h.stack u
  · by_cases hu : u = t
    · subst hu
      simp only [Cpu.push, update_self, tail_cons] at hb'
      exact absurd hb' (hno b')
    · simp only [Cpu.push, update_of_ne hu] at hb'
      exact h.buried u b' hb'

/-- What fits before a step fits after the task has pushed its own frame. -/
theorem Fits.push (hc : w.current = some t) {next : Option TaskPtr}
    (h : Fits w next flags) (f : Frame) : Fits (w.push t f) next flags := by
  intro hnext u hu b hb
  have hut : u ≠ t := fun e => hu (e ▸ hc)
  refine h hnext u hu b ?_
  simpa [Cpu.push, update_of_ne hut] using hb

variable {f : CpuLocal → CpuLocal}

theorem firstReady_setCpu {s : Sched 1}
    (hcur : ∀ k, (f k).currentTask = k.currentTask) (hidle : ∀ k, (f k).idleTask = k.idleTask) :
    firstReady (s.setCpu 0 f) 0 = firstReady s 0 := by
  simp [firstReady, yielding, Sched.setCpu, hcur, hidle]

/-- A write to the CPU record that leaves the tasks and the switch flags alone. -/
theorem FlagInv.setCpu (h : FlagInv w)
    (hcur : ∀ k, (f k).currentTask = k.currentTask) (hidle : ∀ k, (f k).idleTask = k.idleTask)
    (hclean : ∀ k, (f k).schedulerSwitchFlags = k.schedulerSwitchFlags) :
    FlagInv (w.setCpu f) := by
  obtain ⟨ql, hi⟩ := h.inv
  have hc : ∀ u, (w.setCpu f).current = some u → w.current = some u := by
    intro u hu
    simpa [Cpu.current, Cpu.setCpu, Sched.setCpu, hcur] using hu
  exact ⟨⟨ql, hi.setCpu 0 hcur hidle⟩, h.stack, h.buried, fun u hu => h.onCpu u (hc u hu),
    h.returned, by simpa [Cpu.setCpu, Sched.setCpu, hclean] using h.clean⟩

/-- A plain scheduler step: it changes neither who is current nor who is leaving. -/
theorem FlagInv.lift (h : FlagInv w) {l : Label 1} (hsafe : Safe w.machine l)
    (hs : w.lift l = some w')
    (hcur : ∀ m, step w.machine l = some m → (m.sched.cpus 0).currentTask = w.current ∧
      (m.sched.cpus 0).schedulerSwitchFlags = (w.machine.sched.cpus 0).schedulerSwitchFlags)
    (hleave : ∀ m, step w.machine l = some m → m.leaving = w.machine.leaving) : FlagInv w' := by
  unfold Cpu.lift at hs
  cases hm : step w.machine l with
  | none => rw [hm] at hs; cases hs
  | some m =>
    rw [hm] at hs
    obtain rfl := some.inj hs
    obtain ⟨ql, hi⟩ := h.inv
    obtain ⟨hcur, hflags⟩ := hcur m hm
    refine ⟨step_inv hi hsafe hm, h.stack, ?_, fun u hu => ?_, h.returned, hflags.trans h.clean⟩
    · rw [hleave m hm]; exact h.buried
    · rw [hleave m hm]; exact h.onCpu u (hcur.symm.trans hu)

theorem turnsTo_setCpu (hidle : ∀ k, (f k).idleTask = k.idleTask)
    (first : Option TaskPtr) : turnsTo (w.setCpu f) first = turnsTo w first := by
  simp [turnsTo, Cpu.setCpu, Sched.setCpu, hidle]

theorem setCpu_current (hcur : ∀ k, (f k).currentTask = k.currentTask) :
    (w.setCpu f).current = w.current := by
  simp [Cpu.current, Cpu.setCpu, Sched.setCpu, hcur]

theorem Fits.setCpu (h : Fits w (turnsTo w (firstReady w.machine.sched 0)) flags)
    (hcur : ∀ k, (f k).currentTask = k.currentTask) (hidle : ∀ k, (f k).idleTask = k.idleTask) :
    Fits (w.setCpu f) (turnsTo (w.setCpu f) (firstReady (w.setCpu f).machine.sched 0)) flags := by
  have hfirst : firstReady (w.setCpu f).machine.sched 0 = firstReady w.machine.sched 0 :=
    firstReady_setCpu hcur hidle
  intro hnext u hu
  rw [turnsTo_setCpu hidle, hfirst] at hnext
  rw [setCpu_current hcur] at hnext hu
  exact h hnext u hu

theorem LeavesWith.fits {first : Option TaskPtr} (h : LeavesWith w first flags)
    (hclean : (w.machine.sched.cpus 0).schedulerSwitchFlags = 0) :
    Fits w (turnsTo w first) (scheduleSwitchFlags (w.machine.sched.cpus 0) flags).1 :=
  scheduleSwitchFlags_cases hclean (fun _ => h.1) h.2

/-! ## One step -/

section

variable (h : FlagInv w)

include h

theorem FlagInv.create {policy : SchedPolicy} {base size : Nat}
    (hs : cpuStep w (.create t policy base size) = some w') : FlagInv w' := by
  simp only [cpuStep, Cpu.lift] at hs
  cases hm : step w.machine (.create t policy base size) with
  | none => rw [hm] at hs; cases hs
  | some m =>
    rw [hm] at hs
    obtain rfl := some.inj hs
    obtain ⟨ql, hi⟩ := h.inv
    have hinv := step_inv (l := .create t policy base size) hi trivial hm
    simp only [step, ite_none_right_eq_some, some.injEq] at hm
    obtain ⟨-, rfl⟩ := hm
    refine ⟨hinv, fun u => ?_, fun u b hb => ?_, fun u hu b hb => ?_, h.returned, h.clean⟩
    · by_cases hu : u = t
      · subst hu
        simp only [update_self]
        trivial
      · simpa [update_of_ne hu] using h.stack u
    · by_cases hu : u = t
      · subst hu; simp at hb
      · simp only [update_of_ne hu] at hb ⊢
        exact h.buried u b hb
    · by_cases hut : u = t
      · subst hut; simp [operationFlag] at hb
      · simp only [update_of_ne hut] at hb ⊢
        exact h.onCpu u hu b hb

theorem FlagInv.makeReady (hs : w.lift (.makeReady t) = some w') : FlagInv w' := by
  refine h.lift (l := .makeReady t) trivial hs (fun m hm => ?_) (fun m hm => ?_) <;>
    simp only [step, ite_none_right_eq_some, some.injEq] at hm <;>
    obtain ⟨-, rfl⟩ := hm
  · unfold schedulerMakeReady
    dsimp only
    split
    · exact ⟨rfl, rfl⟩
    · split
      · exact ⟨rfl, rfl⟩
      · rw [publishReady_cpus]
        exact ⟨rfl, rfl⟩
  · rfl

theorem FlagInv.wake (hs : w.lift (.wake 0 t) = some w') : FlagInv w' := by
  refine h.lift (l := .wake 0 t) trivial hs (fun m hm => ?_) (fun m hm => ?_) <;>
    simp only [step, ite_none_right_eq_some, some.injEq] at hm <;>
    obtain ⟨-, rfl⟩ := hm
  · unfold schedulerWake
    dsimp only
    split
    · exact ⟨rfl, rfl⟩
    · split
      · exact ⟨rfl, rfl⟩
      · simp [Sched.setCpu, Cpu.current]
  · rfl

theorem FlagInv.tick (hs : w.lift (.tick 0) = some w') : FlagInv w' := by
  refine h.lift (l := .tick 0) trivial hs (fun m hm => ?_) (fun m hm => ?_) <;>
    simp only [step, some.injEq] at hm <;> obtain rfl := hm
  · unfold schedulerTick
    dsimp only
    split
    · exact ⟨rfl, rfl⟩
    · split
      · exact ⟨rfl, rfl⟩
      · split
        · exact ⟨rfl, rfl⟩
        · split
          · simp [Sched.setCpu, Cpu.current]
          · exact ⟨rfl, rfl⟩
  · rfl

theorem FlagInv.reap (hs : w.lift (.reap t) = some w') : FlagInv w' := by
  refine h.lift (l := .reap t) trivial hs (fun m hm => ?_) (fun m hm => ?_) <;>
    simp only [step, ite_none_right_eq_some, some.injEq] at hm <;>
    obtain ⟨-, rfl⟩ := hm
  · exact ⟨rfl, rfl⟩
  · rfl

theorem FlagInv.yield (hok : FlagsAgree w (.yield flags))
    (hs : cpuStep w (.yield flags) = some w') : FlagInv w' := by
  simp only [cpuStep] at hs
  split at hs
  · cases hs
  next t ht =>
    obtain ⟨hc, hl⟩ := runner_spec ht
    split at hs
    next hf =>
      have h1 := h.setCpu (f := fun k => { k with reschedulePending := false })
        (fun _ => rfl) (fun _ => rfl) (fun _ => rfl)
      have hc1 : (w.setCpu fun k => { k with reschedulePending := false }).current = some t :=
        (setCpu_current fun _ => rfl).trans hc
      obtain ⟨hstack, hburied⟩ := h1.push_operation hc1 hl w.interrupts
      refine schedule_inv
        (w := (w.setCpu fun k => { k with reschedulePending := false }).push t
          (.operation w.interrupts))
        h1.inv hc1 (fun _ _ => rfl) hstack hburied h1.returned h1.clean ?_ ?_ hs
      · intro b hb
        obtain rfl : w.interrupts = b := by simpa [Cpu.push, operationFlag] using hb
        exact hf
      · refine Fits.push hc1 ?_ _
        have hok' := (hok.fits h.clean).setCpu (f := fun k => { k with reschedulePending := false })
          (fun _ => rfl) (fun _ => rfl)
        simpa [Cpu.setCpu, Sched.setCpu, Cpu.push, turnsTo, scheduleSwitchFlags] using hok'
    next => cases hs

theorem FlagInv.block {st : TaskState}
    (hs : cpuStep w (.block st flags) = some w') : FlagInv w' := by
  simp only [cpuStep] at hs
  split at hs
  · cases hs
  next t ht =>
    obtain ⟨hc, hl⟩ := runner_spec ht
    obtain ⟨hstack, hburied⟩ := h.push_operation hc hl w.interrupts
    obtain ⟨ql, hi⟩ := h.inv
    have hacting : ¬ w.machine.Idle t → w.machine.acting 0 = some t := by
      intro hn
      unfold Machine.acting
      rw [show (w.machine.sched.cpus 0).currentTask = some t from hc]
      simp [hn, hl]
    have htop : ∀ u b, w.current = some u →
        b ∈ operationFlag ((w.push t (.operation w.interrupts)).frames u) → w.interrupts = b := by
      intro u b hu hb
      obtain rfl : t = u := some.inj (hc.symm.trans hu)
      simpa [Cpu.push, operationFlag] using hb
    split at hs
    next hg =>
      split at hs
      · obtain rfl := some.inj hs
        exact resume_inv ⟨ql, hi⟩ hstack hburied h.returned h.clean (fun u hu b => htop u b hu)
      next s hb =>
        obtain rfl := some.inj hs
        have hcpus : s.cpus = w.machine.sched.cpus := by
          unfold schedulerBlockCurrent at hb
          split at hb
          · split at hb
            · cases hb
            · split at hb
              · obtain rfl := some.inj hb
                rfl
              · cases hb
          · cases hb
        refine ⟨⟨ql, hi.blockCurrent (hacting hg.2) hb⟩, hstack, fun u b hu => ?_,
          fun u hu b hb' => ?_, h.returned, hcpus ▸ h.clean⟩
        · by_cases hut : u = t
          · subst hut; exact update_self ..
          · exact (update_of_ne hut ..).trans (hburied u b hu)
        · have hu' : w.current = some u := (congrArg (fun k => (k 0).currentTask) hcpus).symm.trans hu
          obtain rfl : t = u := some.inj (hc.symm.trans hu')
          exact ⟨update_self .., htop t b hc hb'⟩
    next => cases hs

theorem FlagInv.blockSchedule
    (hok : FlagsAgree w (.blockSchedule flags))
    (hs : cpuStep w (.blockSchedule flags) = some w') : FlagInv w' := by
  simp only [cpuStep] at hs
  split at hs
  · cases hs
  next t hc =>
    split at hs
    next hg =>
      refine schedule_inv h.inv hc (fun u hu => update_of_ne hu ..) h.stack
        (fun u b hb => ?_) h.returned h.clean (fun b hb => ?_) (hok.fits h.clean) hs
      · by_cases hu : u = t
        · subst hu
          -- the task is not in a handler, so its operation is its innermost frame
          cases hf : w.frames u with
          | nil => rw [hf] at hb; simp at hb
          | cons f rest =>
            cases f with
            | handler eflags => rw [hf] at hg; simp [handlerFlags] at hg
            | operation b' =>
              have hno := h.stack u
              rw [hf] at hno hb
              exact absurd hb (hno b)
        · exact (update_of_ne hu ..).trans (h.buried u b hb)
      · exact hg.2.2.trans (h.onCpu t hc b hb).2
    next => cases hs

theorem FlagInv.wait {st : TaskState}
    (hok : FlagsAgree w (.wait st flags)) (hs : cpuStep w (.wait st flags) = some w') :
    FlagInv w' := by
  simp only [cpuStep] at hs
  split at hs
  · cases hs
  next t ht =>
    obtain ⟨hc, hl⟩ := runner_spec ht
    obtain ⟨hstack, hburied⟩ := h.push_operation hc hl w.interrupts
    obtain ⟨ql, hi⟩ := h.inv
    split at hs
    next hg =>
      have hacting : w.machine.acting 0 = some t := by
        unfold Machine.acting
        rw [show (w.machine.sched.cpus 0).currentTask = some t from hc]
        simp [hg.2, hl]
      have hspec := schedulerBlockCurrentWait_spec (c := 0) hc st flags
      split at hs
      · obtain rfl := some.inj hs
        refine resume_inv ⟨ql, hi⟩ hstack hburied h.returned h.clean (fun u hu b hb => ?_)
        obtain rfl : t = u := some.inj (hc.symm.trans hu)
        exact hg.1.trans (by simpa [Cpu.push, operationFlag] using hb)
      next d hd =>
        have hd' : schedulerBlockCurrentWait w.machine.sched 0 st flags = some d := hd
        rw [hd'] at hspec
        refine dispatch_inv hs (fun m hm => hi.blockCurrentWait hacting oneCpu_safe hd' hm) hstack
          hburied h.returned (fun s he => ?_) (fun s next he => ?_)
        · subst he; exact hspec.elim
        · subst he
          obtain ⟨hne, hpick, hcur, hb, hrun, hres⟩ := hspec
          refine ⟨flags, hres, hcur, ?_⟩
          have hsnd := pickNext_snd (w.machine.sched.setTask t (setState st)) 0
          rw [hpick] at hsnd
          have hcne : w.current ≠ some next := fun e => hne (some.inj (e.symm.trans hc))
          refine Fits.push hc (hok ⟨hb, fun u hu => ?_⟩) _ (fun e => hcne ?_) next hcne
          · obtain rfl : t = u := some.inj (hc.symm.trans hu)
            exact hrun
          · exact e.symm.trans hsnd.symm
    next => cases hs

theorem FlagInv.exit (hok : FlagsAgree w (.exit flags))
    (hs : cpuStep w (.exit flags) = some w') : FlagInv w' := by
  simp only [cpuStep] at hs
  split at hs
  · cases hs
  next t ht =>
    obtain ⟨hc, hl⟩ := runner_spec ht
    obtain ⟨ql, hi⟩ := h.inv
    split at hs
    next hg =>
      have hleft := hi.leave (hi.curRunning 0 t hc hl) hg.2.1
        (by simp : TaskState.zombie ≠ .ready) (by simp)
      have hny : ¬ Yields (w.machine.sched.setTask t (setState .zombie)) 0 t := by
        intro hy
        have := hy.2.2
        simp at this
      have hfirst : firstReady (w.machine.sched.setTask t (setState .zombie)) 0 =
          firstQueued w.machine.sched := by
        simp [firstReady, firstQueued, yielding_none (c := 0)
          (s := w.machine.sched.setTask t (setState .zombie)) hc hny]
      refine schedule_inv (w := { w with machine :=
          { w.machine with
            sched := w.machine.sched.setTask t (setState .zombie)
            leaving := update w.machine.leaving t true } })
        ⟨ql, hleft⟩ hc (fun u hu => (update_of_ne hu ..).symm) h.stack h.buried
        h.returned h.clean (fun b hb => ?_) ?_ hs
      · have := (h.onCpu t hc b hb).1
        rw [hl] at this
        exact absurd this (by simp)
      · rw [hfirst]; exact hok.fits h.clean
    next => cases hs

theorem FlagInv.interrupt {eflags : Flags}
    (hs : cpuStep w (.interrupt eflags) = some w') : FlagInv w' := by
  simp only [cpuStep] at hs
  split at hs
  · cases hs
  next t hc =>
    split at hs
    next hf =>
      obtain rfl := some.inj hs
      refine ⟨h.inv, fun u => ?_, fun u b hb => ?_, fun u hu b hb => ?_, h.returned, h.clean⟩
      · by_cases hu : u = t
        · subst hu
          simp only [Cpu.push, update_self]
          exact ⟨fun b hb => hf.trans (h.onCpu u hc b hb).2, h.stack u⟩
        · simpa [Cpu.push, update_of_ne hu] using h.stack u
      · by_cases hu : u = t
        · subst hu
          simp only [Cpu.push, update_self, tail_cons] at hb
          cases hfr : w.frames u with
          | nil => rw [hfr] at hb; simp at hb
          | cons f rest =>
            rw [hfr] at hb
            rcases mem_cons.mp hb with rfl | hrest
            · exact (h.onCpu u hc b (by rw [hfr]; rfl)).1
            · exact h.buried u b (by rw [hfr]; exact hrest)
        · simp only [Cpu.push, update_of_ne hu] at hb
          exact h.buried u b hb
      · obtain rfl : t = u := some.inj (hc.symm.trans hu)
        simp [Cpu.push, operationFlag] at hb
    next => cases hs

theorem FlagInv.preemptionPoint
    (hok : FlagsAgree w (.preemptionPoint flags))
    (hs : cpuStep w (.preemptionPoint flags) = some w') : FlagInv w' := by
  simp only [cpuStep] at hs
  split at hs
  · cases hs
  next t hc =>
    split at hs
    · cases hs
    next eflags he =>
      split at hs
      next hp =>
        split at hs
        next hf =>
          have h1 := h.setCpu (f := fun k => { k with schedulerPreemptRestoreFlags := eflags })
            (fun _ => rfl) (fun _ => rfl) (fun _ => rfl)
          have hc1 : (w.setCpu fun k =>
              { k with schedulerPreemptRestoreFlags := eflags }).current = some t :=
            (setCpu_current fun _ => rfl).trans hc
          refine schedule_inv
            (w := w.setCpu fun k => { k with schedulerPreemptRestoreFlags := eflags })
            h1.inv hc1 (fun _ _ => rfl) h1.stack h1.buried h1.returned h1.clean (fun b hb => ?_) ?_ hs
          · obtain ⟨rest, hr⟩ := operationFlag_eq_some hb
            have hr' : w.frames t = .operation b :: rest := hr
            rw [hr'] at he
            exact absurd he (by simp [handlerFlags])
          · obtain ⟨hne, hfits⟩ := hok t hc eflags he hp
            have hok' := hfits.setCpu (f := fun k => { k with schedulerPreemptRestoreFlags := eflags })
              (fun _ => rfl) (fun _ => rfl)
            refine scheduleSwitchFlags_cases h1.clean (fun h0 => absurd ?_ hne) fun _ => ?_
            · simpa [Cpu.setCpu, Sched.setCpu] using h0
            · simpa [Cpu.setCpu, Sched.setCpu] using hok'
        next => cases hs
      next =>
        obtain rfl := some.inj hs
        exact h

theorem FlagInv.iret (hs : cpuStep w .iret = some w') : FlagInv w' := by
  simp only [cpuStep] at hs
  split at hs
  · cases hs
  next t hc =>
    split at hs
    · cases hs
    next eflags he =>
      obtain ⟨rest, hr⟩ := handlerFlags_eq_some he
      have hst := h.stack t
      rw [hr] at hst
      obtain rfl := some.inj hs
      refine ⟨h.inv, fun u => ?_, fun u b hb => ?_, fun u hu b hb => ?_, h.returned, h.clean⟩
      · by_cases hu : u = t
        · subst hu
          simpa [hr] using hst.2
        · simpa [update_of_ne hu] using h.stack u
      · by_cases hu : u = t
        · subst hu
          simp only [update_self] at hb
          exact h.buried u b (mem_of_mem_tail hb)
        · simp only [update_of_ne hu] at hb
          exact h.buried u b hb
      · obtain rfl : t = u := some.inj (hc.symm.trans hu)
        simp only [update_self, hr, tail_cons] at hb
        obtain ⟨r, hr'⟩ := operationFlag_eq_some hb
        refine ⟨h.buried t b ?_, hst.1 b hb⟩
        rw [hr, tail_cons, hr']
        exact mem_cons_self

theorem FlagInv.setInterrupts {enabled : Bool}
    (hs : cpuStep w (.setInterrupts enabled) = some w') : FlagInv w' := by
  simp only [cpuStep] at hs
  split at hs
  · cases hs
  next t hc =>
    split at hs
    · cases hs
    next hn =>
      obtain rfl := some.inj hs
      refine ⟨h.inv, h.stack, h.buried, fun u hu b hb => ?_, h.returned, h.clean⟩
      obtain rfl : t = u := some.inj (hc.symm.trans hu)
      have hl := (h.onCpu t hc b hb).1
      obtain ⟨rest, hr⟩ := operationFlag_eq_some hb
      have hr' : w.frames t = .operation b :: rest := hr
      exact absurd ⟨hl, by rw [hr']; rfl⟩ hn

/-- Each step whose flags agree keeps the invariant. -/
theorem cpuStep_inv {e : Event} (hok : FlagsAgree w e)
    (hs : cpuStep w e = some w') : FlagInv w' := by
  cases e with
  | create t policy base size => exact h.create hs
  | makeReady t => exact h.makeReady hs
  | wake t => exact h.wake hs
  | tick => exact h.tick hs
  | reap t => exact h.reap hs
  | enablePreemption enabled =>
    obtain rfl := some.inj hs
    exact h.setCpu (fun _ => rfl) (fun _ => rfl) (fun _ => rfl)
  | setInterrupts enabled => exact h.setInterrupts hs
  | yield flags => exact h.yield hok hs
  | block st flags => exact h.block hs
  | blockSchedule flags => exact h.blockSchedule hok hs
  | wait st flags => exact h.wait hok hs
  | exit flags => exact h.exit hok hs
  | interrupt eflags => exact h.interrupt hs
  | preemptionPoint flags => exact h.preemptionPoint hok hs
  | iret => exact h.iret hs

end

/-! ## Whole runs -/

/-- The CPU when task initialisation is done: no task is inside anything. -/
structure CpuStart (w : Cpu) where
  machine : Start w.machine
  frames : ∀ t, w.frames t = []
  returned : w.returned = []

theorem CpuStart.inv (st : CpuStart w) : FlagInv w := by
  refine ⟨⟨_, st.machine.inv⟩, fun t => ?_, fun t b hb => ?_, fun t _ b hb => ?_, fun r hr => ?_,
    by rw [st.machine.cpus]; rfl⟩
  · rw [st.frames]; trivial
  · rw [st.frames] at hb; simp at hb
  · rw [st.frames] at hb; simp [operationFlag] at hb
  · rw [st.returned] at hr; simp at hr

/-- In every run in which each task leaves the CPU with the interrupt bit of the
suspended operations, every operation that has returned came back with the
interrupt flag it was entered with. -/
theorem agreeing_run_returned {w0 w : Cpu} (st : CpuStart w0) {es : List Event}
    (hr : RunWhere cpuStep FlagsAgree w0 es w) : ReturnsPreserved w :=
  (hr.invariant st.inv fun _ _ _ h hok hs => cpuStep_inv h hok hs).returned

/-- One CPU after boot: context 0 runs with interrupts on, 1 is the idle task. -/
def oneCpu : Cpu :=
  { machine :=
      { sched :=
          { tasks := fun t =>
              { state := if t = 0 then .running else .ready
                policy := .background
                stackBase := if t = 0 then 0 else 0x1000
                stackSize := if t = 0 then 0 else 0x4000
                runtimeTicks := 0, schedPrevious := none, schedNext := none }
            slots := fun _ => some rrCreate
            cpus := fun _ => startCpu 0 1 }
        live := fun t => t < 2
        leaving := fun _ => false }
    interrupts := true
    frames := fun _ => []
    returned := [] }

def oneCpuStart : CpuStart oneCpu where
  machine :=
    { boot _ := 0
      idle _ := 1
      bound _ := true
      cpus _ := rfl
      slots _ := rfl
      live t := by
        have h : ∀ k : Nat, k < 2 ↔ k = 0 ∨ k = 1 := by omega
        simpa [oneCpu] using h t
      leaving _ := rfl
      boot_task := by decide
      idle_task := by decide
      boot_inj := by decide
      idle_inj := by decide
      boot_idle := by decide }
  frames _ := rfl
  returned := rfl

/-- Two tasks are made; the first runs, yields to the second with interrupts on. -/
def twoTasks : List Event :=
  [.create 2 .normal 0x5000 0x4000, .create 3 .normal 0x9000 0x4000, .makeReady 2, .makeReady 3,
    .yield 0x202, .yield 0x202]

theorem resume_frames (u : TaskPtr) : w.resume.frames u ⊆ w.frames u := by
  unfold Cpu.resume
  split
  · exact Subset.refl _
  next t _ =>
    split
    · exact Subset.refl _
    · by_cases hu : u = t
      · subst hu
        simpa using (tail_sublist _).subset
      · simp [update_of_ne hu]

theorem dispatch_frames {d : Dispatch 1} (hs : w.dispatch d flags = some w')
    (u : TaskPtr) : w'.frames u ⊆ w.frames u := by
  unfold Cpu.dispatch at hs
  split at hs
  · cases hs
  split at hs
  · cases hs
  · obtain rfl := some.inj hs
    exact resume_frames u
  · split at hs <;> obtain rfl := some.inj hs <;> exact resume_frames u

/-- The steps of `twoTasks` make no frames but operations entered with interrupts on. -/
theorem twoTasks_frames {e : Event} (he : e ∈ twoTasks) (h : ∀ u, w.frames u ⊆ [.operation true])
    (hs : cpuStep w e = some w') : ∀ u, w'.frames u ⊆ [.operation true] := by
  intro u
  cases e with
  | create t =>
    simp only [cpuStep, Cpu.lift] at hs
    split at hs
    · cases hs
    next hl =>
      split at hl
      · cases hl
      obtain rfl := some.inj hl
      obtain rfl := some.inj hs
      by_cases hu : u = t
      · simp [hu]
      · simpa [update_of_ne hu] using h u
  | makeReady t =>
    simp only [cpuStep, Cpu.lift] at hs
    split at hs
    · cases hs
    obtain rfl := some.inj hs
    exact h u
  | yield flags =>
    obtain rfl : flags = 0x202 := by simpa [twoTasks] using he
    simp only [cpuStep] at hs
    split at hs
    · cases hs
    next t _ =>
      split at hs
      next hon =>
        refine List.Subset.trans (dispatch_frames hs u) ?_
        have hon : w.interrupts = true := hon.symm
        by_cases hu : u = t
        · subst hu
          simpa [Cpu.push, hon, Cpu.setCpu] using h u
        · simpa [Cpu.push, Cpu.setCpu, update_of_ne hu] using h u
      next => cases hs
  | _ => simp [twoTasks] at he

/-- The steps of `twoTasks`, with nothing left over by a preemption. -/
def Calm (w : Cpu) (e : Event) : Prop :=
  e ∈ twoTasks ∧ (w.machine.sched.cpus 0).schedulerPreemptRestoreFlags = 0

instance (w : Cpu) (e : Event) : Decidable (Calm w e) := inferInstanceAs (Decidable (_ ∧ _))

theorem Calm.flagsAgree {e : Event} (h : ∀ u, w.frames u ⊆ [.operation true]) (hc : Calm w e) :
    FlagsAgree w e := by
  obtain ⟨he, hleft⟩ := hc
  cases e with
  | create | makeReady => trivial
  | yield flags =>
    obtain rfl : flags = 0x202 := by simpa [twoTasks] using he
    refine ⟨fun _ u _ b hb => ?_, absurd hleft⟩
    obtain ⟨rest, hr⟩ := operationFlag_eq_some hb
    have hmem := h u (hr ▸ mem_cons_self)
    simp only [mem_singleton, Frame.operation.injEq] at hmem
    exact hmem.symm
  | _ => simp [twoTasks] at he

/-- The second task yields back. -/
theorem agreeing_run_returned_oneCpu : ∃ w,
    RunWhere cpuStep FlagsAgree oneCpu (twoTasks ++ [.yield 0x202]) w ∧
      w.returned = [⟨2, true, true⟩] ∧ ReturnsPreserved w := by
  have hrun : ∃ w, RunWhere cpuStep Calm oneCpu (twoTasks ++ [.yield 0x202]) w ∧
      w.returned = [⟨2, true, true⟩] :=
    exists_run (fun w => w.returned = [⟨2, true, true⟩]) (by decide +kernel) fun _ _ h => h
  obtain ⟨w, hr, hlog⟩ := hrun
  have hagree : RunWhere cpuStep FlagsAgree oneCpu (twoTasks ++ [.yield 0x202]) w :=
    ((RunWhere.congr (I := fun w => ∀ u, w.frames u ⊆ [.operation true]) (fun _ => nil_subset _)
      (fun _ _ _ h hc hs => twoTasks_frames hc.1 h hs)
      fun _ _ h => (and_iff_left_of_imp fun hc => hc.flagsAgree h).symm).mp hr).mono
        fun _ _ h => h.2
  exact ⟨w, hagree, hlog, agreeing_run_returned oneCpuStart hagree⟩

/-- The second task exits, and leaves the first with interrupts off. -/
theorem not_run_returned : ¬ ∀ (w0 w : Cpu) (_ : CpuStart w0) (es : List Event),
    Run cpuStep w0 es w → ReturnsPreserved w := by
  intro h
  have hrun : (exec cpuStep (fun _ _ => True) oneCpu (twoTasks ++ [.exit 0x2])).any
      (fun w => w.returned = [{ task := 2, entered := true, left := false }]) = true := by
    decide +kernel
  obtain ⟨w, hw, hlog⟩ := (Option.any_eq_true _ _).mp hrun
  have hlog' : w.returned = [{ task := 2, entered := true, left := false }] :=
    of_decide_eq_true hlog
  have hkept := h oneCpu w oneCpuStart _ (run_of_exec hw)
  have := hkept _ (hlog' ▸ List.mem_cons_self)
  simp at this

end MeatySkeleton.Scheduler
