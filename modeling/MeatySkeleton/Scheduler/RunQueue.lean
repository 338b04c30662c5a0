import MeatySkeleton.Scheduler.Machine

/-!
# The run-queue invariant

`RunQueueInv` is what the scheduler promises about its queues: a managed task is
linked in the queue of its policy, once, exactly while it is READY; a RUNNING one
is the current task of one CPU; no two CPUs run the same task.

`Inv` is the inductive strengthening. Beyond the links (`Queues`) it ties the
lists to the task states (`queued`) and says what a CPU's current task can be:
between the two halves of `scheduler_block_current` it need not be RUNNING
(`curRunning` exempts tasks that are `leaving`), and a wake in that window even
puts it back into a queue while it still owns its CPU.

That window is the one hole. A second CPU that picks such a task dispatches it
twice. `Safe` excludes exactly this, and moving an idle task that has never run
between queues it is not in; `safe_run_inv` shows nothing else can go wrong.
-/

namespace MeatySkeleton.Scheduler

open Function Lib

variable {n : Nat}

/-- The run-queue invariant of the scheduler. -/
structure RunQueueInv (m : Machine n) : Prop where
  /-- The links of each queue describe one acyclic list: these tasks, in which a
  managed non-idle task occurs exactly while it is READY, once, and only in the
  queue of its policy; nothing else than READY, unreaped tasks occurs. -/
  queues : ∃ ql : SchedPolicy → List TaskPtr,
    (∀ p q, m.sched.slots p = some q → Holds m.sched.tasks q (ql p)) ∧
    (∀ p, m.sched.slots p = none → ql p = []) ∧
    (∀ t, m.live t = true → (m.sched.tasks t).Managed → ¬ m.Idle t → ∀ p,
      (ql p).count t =
        if (m.sched.tasks t).state = .ready ∧ (m.sched.tasks t).policy = p then 1 else 0) ∧
    ∀ p t, t ∈ ql p → m.live t = true ∧ (m.sched.tasks t).state = .ready
  /-- A RUNNING managed task is the current task of exactly one CPU. -/
  running : ∀ t, m.live t = true → (m.sched.tasks t).Managed → ¬ m.Idle t →
    (m.sched.tasks t).state = .running → ∃! c, m.Current c t
  /-- No task is current on two CPUs. -/
  current : ∀ t c c', m.Current c t → m.Current c' t → c = c'

/-- The inductive invariant, with the lists the queues hold. -/
structure Inv (m : Machine n) (ql : SchedPolicy → List TaskPtr) : Prop where
  queues : Queues m.sched ql
  queued : ∀ p t, t ∈ ql p ↔ m.live t = true ∧ ¬ m.Idle t ∧
    (m.sched.tasks t).state = .ready ∧ (m.sched.tasks t).policy = p
  curSome : ∀ c, ∃ t, m.Current c t
  curLive : ∀ c t, m.Current c t → m.live t = true
  curInj : ∀ t c c', m.Current c t → m.Current c' t → c = c'
  curRunning : ∀ c t, m.Current c t → m.leaving t = false → (m.sched.tasks t).state = .running
  runCur : ∀ t, m.live t = true → (m.sched.tasks t).Managed → ¬ m.Idle t →
    (m.sched.tasks t).state = .running → ∃ c, m.Current c t
  runSlot : ∀ t, m.live t = true → (m.sched.tasks t).Managed → ¬ m.Idle t →
    (m.sched.tasks t).state = .running → (m.sched.slots (m.sched.tasks t).policy).isSome
  idleSome : ∀ c, ∃ t, (m.sched.cpus c).idleTask = some t ∧ m.live t = true
  idleInj : ∀ t c c', (m.sched.cpus c).idleTask = some t →
    (m.sched.cpus c').idleTask = some t → c = c'
  idleCur : ∀ t c c', (m.sched.cpus c).idleTask = some t → m.Current c' t → c' = c
  idleState : ∀ t, m.Idle t → (m.sched.tasks t).state = .ready ∨ (m.sched.tasks t).state = .running

theorem Inv.runQueueInv {m : Machine n} {ql : SchedPolicy → List TaskPtr} (h : Inv m ql) :
    RunQueueInv m := by
  refine ⟨⟨ql, fun p q hq => h.queues.holds hq, fun p hp => h.queues.unbound hp, ?_, ?_⟩,
    ?_, h.curInj⟩
  · intro t hlive _ hidle p
    rw [(h.queues.nodup p).count]
    refine if_congr ((h.queued p t).trans ?_) rfl rfl
    exact ⟨fun hs => hs.2.2, fun hs => ⟨hlive, hidle, hs⟩⟩
  · exact fun p t ht => ⟨((h.queued p t).mp ht).1, ((h.queued p t).mp ht).2.2.1⟩
  · intro t hlive hman hidle hrun
    obtain ⟨c, hc⟩ := h.runCur t hlive hman hidle hrun
    exact ⟨c, hc, fun c' hc' => h.curInj t c' c hc' hc⟩

/-! ## Steps that keep the picture

What `Inv` reads of a machine: the cores of the tasks, who is current and idle
where, which slots are bound, and the two task sets. -/

section

variable {k k' : Task} (h : k.core = k'.core)

include h

theorem Task.state_of_core : k.state = k'.state :=
  congrArg (·.1) h

theorem Task.policy_of_core : k.policy = k'.policy :=
  congrArg (·.2.1) h

theorem Task.managed_of_core : k.Managed ↔ k'.Managed := by
  have hb : k.stackBase = k'.stackBase := congrArg (·.2.2.1) h
  have hs : k.stackSize = k'.stackSize := congrArg (·.2.2.2) h
  unfold Task.Managed
  rw [hb, hs]

end

variable {m : Machine n} {ql : SchedPolicy → List TaskPtr} {s' : Sched n} {t : TaskPtr}

/-- A step that only moves data `Inv` does not read. -/
theorem Inv.congr (h : Inv m ql) (hq : Queues s' ql)
    (hcore : ∀ u, (s'.tasks u).core = (m.sched.tasks u).core)
    (hcur : ∀ c, (s'.cpus c).currentTask = (m.sched.cpus c).currentTask)
    (hidle : ∀ c, (s'.cpus c).idleTask = (m.sched.cpus c).idleTask)
    (hbound : ∀ p, (s'.slots p).isSome = (m.sched.slots p).isSome) :
    Inv { m with sched := s' } ql := by
  have hst : ∀ u, (s'.tasks u).state = (m.sched.tasks u).state :=
    fun u => Task.state_of_core (hcore u)
  have hpo : ∀ u, (s'.tasks u).policy = (m.sched.tasks u).policy :=
    fun u => Task.policy_of_core (hcore u)
  have hma : ∀ u, (s'.tasks u).Managed ↔ (m.sched.tasks u).Managed :=
    fun u => Task.managed_of_core (hcore u)
  obtain ⟨-, h2, h3, h4, h5, h6, h7, h8, h9, h10, h11, h12⟩ := h
  refine ⟨hq, ?_, ?_, ?_, ?_, ?_, ?_, ?_, ?_, ?_, ?_, ?_⟩ <;>
    simp only [Machine.Idle, Machine.Current, hst, hpo, hma, hcur, hidle, hbound] at * <;>
    assumption

theorem Inv.setCpu (h : Inv m ql) (c : Fin n) {f : CpuLocal → CpuLocal}
    (hcur : ∀ k, (f k).currentTask = k.currentTask) (hidle : ∀ k, (f k).idleTask = k.idleTask) :
    Inv { m with sched := m.sched.setCpu c f } ql := by
  refine h.congr (h.queues.setCpu f) (fun _ => rfl) (fun c' => ?_) (fun c' => ?_) (fun _ => rfl)
  · by_cases hc : c' = c
    · subst hc; simp [Sched.setCpu, hcur]
    · simp [Sched.setCpu, update_of_ne hc]
  · by_cases hc : c' = c
    · subst hc; simp [Sched.setCpu, hidle]
    · simp [Sched.setCpu, update_of_ne hc]

/-- Whether a task is on its way to `scheduler_schedule` only matters while it
is current and not RUNNING. -/
theorem Inv.setLeaving (h : Inv m ql) {b : Bool}
    (hb : b = false → ∀ c, m.Current c t → (m.sched.tasks t).state = .running) :
    Inv { m with leaving := update m.leaving t b } ql := by
  refine ⟨h.queues, h.queued, h.curSome, h.curLive, h.curInj, ?_, h.runCur, h.runSlot,
    h.idleSome, h.idleInj, h.idleCur, h.idleState⟩
  intro c u hc hl
  by_cases hu : u = t
  · subst hu
    exact hb (by simpa using hl) c hc
  · exact h.curRunning c u hc (by simpa [update_of_ne hu] using hl)

/-! ## Publishing, withdrawing and reclassifying one task -/

theorem mem_push {p p' : SchedPolicy} {u : TaskPtr} :
    u ∈ update ql p (ql p ++ [t]) p' ↔ u ∈ ql p' ∨ (u = t ∧ p' = p) := by
  by_cases hp : p' = p
  · subst hp; simp
  · simp [hp]

theorem mem_drop (hnd : ∀ p, (ql p).Nodup) {p p' : SchedPolicy} {u : TaskPtr} :
    u ∈ update ql p ((ql p).erase t) p' ↔ u ∈ ql p' ∧ ¬ (u = t ∧ p' = p) := by
  by_cases hp : p' = p
  · subst hp
    rw [update_self, (hnd p').mem_erase_iff]
    tauto
  · simp [hp]

/-- The state of a single live task changes; the rest of the picture stands. -/
theorem Inv.retask (h : Inv m ql) {ql' : SchedPolicy → List TaskPtr} (hq : Queues s' ql')
    (hother : ∀ u, u ≠ t → (s'.tasks u).core = (m.sched.tasks u).core)
    (hcpus : s'.cpus = m.sched.cpus)
    (hbound : ∀ p, (s'.slots p).isSome = (m.sched.slots p).isSome)
    (hmem : ∀ p u, u ≠ t → (u ∈ ql' p ↔ u ∈ ql p))
    (hself : ∀ p, t ∈ ql' p ↔ m.live t = true ∧ ¬ m.Idle t ∧
      (s'.tasks t).state = .ready ∧ (s'.tasks t).policy = p)
    (hcur : ∀ c, m.Current c t → m.leaving t = false → (s'.tasks t).state = .running)
    (hrun : m.live t = true → (s'.tasks t).Managed → ¬ m.Idle t → (s'.tasks t).state = .running →
      (∃ c, m.Current c t) ∧ (s'.slots (s'.tasks t).policy).isSome)
    (hidle : m.Idle t → (s'.tasks t).state = .ready ∨ (s'.tasks t).state = .running) :
    Inv { m with sched := s' } ql' := by
  have hst : ∀ u, u ≠ t → (s'.tasks u).state = (m.sched.tasks u).state :=
    fun u hu => Task.state_of_core (hother u hu)
  have hpo : ∀ u, u ≠ t → (s'.tasks u).policy = (m.sched.tasks u).policy :=
    fun u hu => Task.policy_of_core (hother u hu)
  have hma : ∀ u, u ≠ t → ((s'.tasks u).Managed ↔ (m.sched.tasks u).Managed) :=
    fun u hu => Task.managed_of_core (hother u hu)
  have hIdle : ∀ u, Machine.Idle { m with sched := s' } u ↔ m.Idle u := by
    intro u; simp [Machine.Idle, hcpus]
  have hCur : ∀ c u, Machine.Current { m with sched := s' } c u ↔ m.Current c u := by
    intro c u; simp [Machine.Current, hcpus]
  refine ⟨hq, ?_, ?_, ?_, ?_, ?_, ?_, ?_, ?_, ?_, ?_, ?_⟩
  · intro p u
    rw [hIdle]
    by_cases hu : u = t
    · subst hu; exact hself p
    · rw [hmem p u hu, h.queued p u]; simp [hst u hu, hpo u hu]
  · exact fun c => (h.curSome c).imp fun u hu => (hCur c u).mpr hu
  · exact fun c u hc => h.curLive c u ((hCur c u).mp hc)
  · exact fun u c c' hc hc' => h.curInj u c c' ((hCur c u).mp hc) ((hCur c' u).mp hc')
  · intro c u hc hl
    by_cases hu : u = t
    · subst hu; exact hcur c ((hCur c u).mp hc) hl
    · exact (hst u hu).trans (h.curRunning c u ((hCur c u).mp hc) hl)
  · intro u hl hm hi hr
    by_cases hu : u = t
    · subst hu
      exact (hrun hl hm (fun e => hi ((hIdle u).mpr e)) hr).1.imp fun c hc => (hCur c u).mpr hc
    · exact (h.runCur u hl ((hma u hu).mp hm) (fun e => hi ((hIdle u).mpr e))
        ((hst u hu).symm.trans hr)).imp fun c hc => (hCur c u).mpr hc
  · intro u hl hm hi hr
    by_cases hu : u = t
    · subst hu; exact (hrun hl hm (fun e => hi ((hIdle u).mpr e)) hr).2
    · have := h.runSlot u hl ((hma u hu).mp hm) (fun e => hi ((hIdle u).mpr e))
        ((hst u hu).symm.trans hr)
      rw [← hpo u hu, ← hbound] at this
      exact this
  · simpa [hcpus] using h.idleSome
  · simpa [hcpus] using h.idleInj
  · intro u c c' hi hc
    exact h.idleCur u c c' (by simpa [hcpus] using hi) ((hCur c' u).mp hc)
  · intro u hi
    by_cases hu : u = t
    · subst hu; exact hidle ((hIdle u).mp hi)
    · rw [hst u hu]; exact h.idleState u ((hIdle u).mp hi)

theorem Inv.not_queued (h : Inv m ql) (ht : (m.sched.tasks t).state ≠ .ready) (p : SchedPolicy) :
    t ∉ ql p := fun hmem => ht ((h.queued p t).mp hmem).2.2.1

/-- A live task that is in no queue is made READY: the first wake, a later wake,
or the requeueing of a task that gives up its CPU. -/
theorem Inv.publishReady (h : Inv m ql) (hlive : m.live t = true) (hidle : ¬ m.Idle t)
    (hst : (m.sched.tasks t).state ≠ .ready)
    (hb : (m.sched.slots (m.sched.tasks t).policy).isSome)
    (hcur : ∀ c, m.Current c t → m.leaving t = true) :
    Inv { m with sched := m.sched.publishReady t }
      (update ql (m.sched.tasks t).policy (ql (m.sched.tasks t).policy ++ [t])) := by
  have hcore := publishReady_core m.sched t t
  rw [if_pos rfl] at hcore
  have hready : ((m.sched.publishReady t).tasks t).state = .ready := congrArg (·.1) hcore
  have hpol : ((m.sched.publishReady t).tasks t).policy = (m.sched.tasks t).policy :=
    congrArg (·.2.1) hcore
  refine h.retask (t := t) (h.queues.publishReady (h.not_queued hst) hb) ?_
    (publishReady_cpus ..) (fun p => publishReady_bound ..) ?_ ?_ ?_ ?_ (fun hi => absurd hi hidle)
  · intro u hu
    rw [publishReady_core, if_neg hu]
  · intro p u hu
    rw [mem_push]; tauto
  · intro p
    rw [mem_push, hready, hpol]
    have := h.not_queued hst p
    constructor
    · rintro (hm | ⟨-, rfl⟩)
      · exact absurd hm this
      · exact ⟨hlive, hidle, rfl, rfl⟩
    · exact fun ⟨_, _, _, hp⟩ => .inr ⟨rfl, hp.symm⟩
  · intro c hc hl
    rw [hcur c hc] at hl
    exact absurd hl (by simp)
  · intro _ _ _ hr
    rw [hready] at hr
    exact absurd hr (by simp)

/-- A READY task leaves its queue and becomes NEW again. -/
theorem Inv.withdraw (h : Inv m ql) (hlive : m.live t = true) (hidle : ¬ m.Idle t)
    (hst : (m.sched.tasks t).state = .ready) :
    Inv { m with sched :=
        (m.sched.dequeue (m.sched.tasks t).policy t).setTask t (setState .new) }
      (update ql (m.sched.tasks t).policy ((ql (m.sched.tasks t).policy).erase t)) := by
  have hmem : t ∈ ql (m.sched.tasks t).policy := (h.queued _ t).mpr ⟨hlive, hidle, hst, rfl⟩
  have hnew : (((m.sched.dequeue (m.sched.tasks t).policy t).setTask t
      (setState .new)).tasks t).state = .new := by rw [setTask_self]; rfl
  refine h.retask (t := t) ((h.queues.dequeue hmem).setState _) ?_ (dequeue_cpus ..)
    (fun p => dequeue_bound ..) ?_ ?_ ?_ ?_ (fun hi => absurd hi hidle)
  · intro u hu
    exact (congrArg Task.core (modify_ne hu)).trans (dequeue_core ..)
  · intro p u hu
    rw [mem_drop h.queues.nodup]; tauto
  · intro p
    rw [mem_drop h.queues.nodup, hnew]
    constructor
    · intro ⟨hm, hne⟩
      exact absurd ⟨rfl, h.queues.disj hm hmem⟩ hne
    · exact fun ⟨_, _, hr, _⟩ => absurd hr (by simp)
  · intro c hc hl
    rw [h.curRunning c t hc hl] at hst
    exact absurd hst (by simp)
  · intro _ _ _ hr
    rw [hnew] at hr
    exact absurd hr (by simp)

/-- The record of a task that is in no queue changes to another state that is
not READY, or gets another policy. -/
theorem Inv.setTask (h : Inv m ql) {f : Task → Task} (hst : (m.sched.tasks t).state ≠ .ready)
    (hf : (f (m.sched.tasks t)).state ≠ .ready)
    (hcur : ∀ c, m.Current c t → m.leaving t = false → (f (m.sched.tasks t)).state = .running)
    (hrun : m.live t = true → (f (m.sched.tasks t)).Managed → ¬ m.Idle t →
      (f (m.sched.tasks t)).state = .running →
      (∃ c, m.Current c t) ∧ (m.sched.slots (f (m.sched.tasks t)).policy).isSome)
    (hidle : m.Idle t → (f (m.sched.tasks t)).state = .running) :
    Inv { m with sched := m.sched.setTask t f } ql := by
  have hout := h.not_queued hst
  refine h.retask (t := t) (h.queues.setTask (.inl hout)) ?_ rfl (fun _ => rfl)
    (fun _ _ _ => Iff.rfl) ?_ ?_ ?_ ?_
  · exact fun u hu => congrArg Task.core (modify_ne hu)
  · intro p
    rw [setTask_self]
    exact ⟨fun hm => absurd hm (hout p), fun ⟨_, _, hr, _⟩ => absurd hr hf⟩
  · intro c hc hl
    rw [setTask_self]; exact hcur c hc hl
  · intro hl hm hi hr
    rw [setTask_self] at hm hr
    obtain ⟨hc, hb⟩ := hrun hl hm hi hr
    refine ⟨hc, ?_⟩
    rw [setTask_self]; exact hb
  · intro hi
    rw [setTask_self]; exact .inr (hidle hi)

end MeatySkeleton.Scheduler
