import MeatySkeleton.Scheduler.RunQueue

/-!
# Runs of the scheduler keep the run-queue invariant

One lemma for each step of `Machine`, then the induction over runs. The steps
that switch tasks all end in `Inv.dispatch`: the outgoing task has been requeued
or was not RUNNING, and the incoming one comes off the front of a queue or is the
idle task of the CPU.

`firstReady` is the task such a step will pick, read off the state before it: the
first task of the first queue in policy order, where a running current task
counts as the last of its own queue. `Safe` asks that this task is not still
current on another CPU.
-/

namespace MeatySkeleton.Scheduler

open Function Option Lib

variable {n : Nat}

/-! ## The task that will be picked -/

/-- The first task of the first non-empty queue in policy order. -/
def firstQueued (s : Sched n) : Option TaskPtr :=
  policyOrder.findSome? fun p => (s.slots p).bind (·.head)

/-- The current task of CPU `c`, if yielding would put it into the queue of `p`. -/
def yielding (s : Sched n) (c : Fin n) (p : SchedPolicy) : Option TaskPtr :=
  (s.cpus c).currentTask.filter fun t => (s.tasks t).Managed ∧ some t ≠ (s.cpus c).idleTask ∧
    (s.tasks t).state = .running ∧ (s.tasks t).policy = p

/-- The first task of the run queues once the current task of `c` has yielded. -/
def firstReady (s : Sched n) (c : Fin n) : Option TaskPtr :=
  policyOrder.findSome? fun p => (s.slots p).bind fun q => q.head.or (yielding s c p)

variable {s : Sched n} {ql : SchedPolicy → List TaskPtr} {c : Fin n}

theorem pickNext_snd (s : Sched n) (c : Fin n) :
    (schedulerPickNext s c).2 = (firstQueued s).or (s.cpus c).idleTask := by
  have hloop : ∀ ps : List SchedPolicy, (pickFrom s c ps).2 =
      (ps.findSome? fun p => (s.slots p).bind (·.head)).or (s.cpus c).idleTask := by
    intro ps
    induction ps with
    | nil => rfl
    | cons p ps ih =>
      rw [List.findSome?_cons]
      cases hq : s.slots p with
      | none => simpa [pickFrom, hq] using ih
      | some q =>
        cases hh : q.head with
        | none => simpa [pickFrom, hq, rrPickNext, hh] using ih
        | some t => simp [pickFrom, hq, rrPickNext, hh]
  exact hloop policyOrder

theorem rrEnqueue_head {tasks : TaskPtr → Task} {q : RoundRobinState} {l : List TaskPtr}
    (h : Holds tasks q l) (t : TaskPtr) : (rrEnqueue tasks q t).2.head = q.head.or (some t) := by
  have hh := h.head_eq
  have ht := h.tail_eq
  unfold rrEnqueue
  cases l with
  | nil =>
    rw [List.getLast?_nil] at ht
    rw [List.head?_nil] at hh
    simp [ht, hh]
  | cons a l =>
    rw [List.getLast?_cons] at ht
    rw [List.head?_cons] at hh
    simp [ht, hh]

/-- The test of `scheduler_schedule` for requeueing the task it leaves. -/
def Yields (s : Sched n) (c : Fin n) (t : TaskPtr) : Prop :=
  (s.tasks t).Managed ∧ some t ≠ (s.cpus c).idleTask ∧ (s.tasks t).state = .running

section

variable {t : TaskPtr} (ht : (s.cpus c).currentTask = some t)

include ht

theorem requeueCurrent_yields
    (hy : Yields s c t) (hb : (s.slots (s.tasks t).policy).isSome) :
    requeueCurrent s c = s.publishReady t := by
  obtain ⟨q, hq⟩ := isSome_iff_exists.mp hb
  unfold requeueCurrent
  rw [ht]
  have hif : (s.tasks t).Managed ∧ some t ≠ (s.cpus c).idleTask ∧ (s.tasks t).state = .running := hy
  simp only [if_pos hif, hq]

theorem requeueCurrent_stays
    (hy : ¬ Yields s c t) : requeueCurrent s c = s := by
  unfold requeueCurrent
  rw [ht]
  exact if_neg hy

theorem yielding_none {p : SchedPolicy}
    (hy : ¬ Yields s c t) : yielding s c p = none := by
  unfold Yields at hy
  simp only [yielding, ht, filter_eq_none_iff]
  intro u hu
  obtain rfl : t = u := by simpa using hu
  simpa using fun h1 h2 h3 _ => hy ⟨h1, h2, h3⟩

end

theorem firstQueued_requeue (h : Queues s ql) {t : TaskPtr}
    (ht : (s.cpus c).currentTask = some t) (hout : Yields s c t → ∀ p, t ∉ ql p)
    (hb : Yields s c t → (s.slots (s.tasks t).policy).isSome) :
    firstQueued (requeueCurrent s c) = firstReady s c := by
  unfold firstQueued firstReady
  congr 1
  funext p
  by_cases hy : Yields s c t
  · rw [requeueCurrent_yields ht hy (hb hy)]
    obtain ⟨q, hq⟩ := isSome_iff_exists.mp (hb hy)
    have hyield : yielding s c p = if (s.tasks t).policy = p then some t else none := by
      unfold Yields at hy
      simp [yielding, ht, Option.filter, hy]
    have hpol : ((((s.setTask t (setState .ready)).setTask t (setPrevious none)).setTask t
        (setNext none)).tasks t).policy = (s.tasks t).policy := by simp [setNext, setPrevious]
    have hq' : ((((s.setTask t (setState .ready)).setTask t (setPrevious none)).setTask t
        (setNext none)).slots (s.tasks t).policy) = some q := hq
    have hholds : Holds (((s.setTask t (setState .ready)).setTask t (setPrevious none)).setTask t
        (setNext none)).tasks q (ql (s.tasks t).policy) :=
      (((h.setState _).setTask (.inl (hout hy))).setTask (.inl (hout hy))).holds hq
    rw [hyield]
    unfold Sched.publishReady Sched.enqueue
    simp only [hpol, hq']
    by_cases hp : (s.tasks t).policy = p
    · subst hp
      simp [hq, rrEnqueue_head hholds]
    · have hp' : p ≠ (s.tasks t).policy := fun e => hp e.symm
      simp [update_of_ne hp', hp]
  · rw [requeueCurrent_stays ht hy]
    simp [yielding_none ht hy]

/-! ## Switching to another task -/

variable {m : Machine n} {ql' : SchedPolicy → List TaskPtr} {s' : Sched n} {t next : TaskPtr}

variable {leaving' : TaskPtr → Bool}

/-- CPU `c` goes on with `next`, which leaves its queue and becomes RUNNING. -/
theorem Inv.dispatch (h : Inv m ql) (hq : Queues s' ql')
    (hmem : ∀ p u, u ∈ ql' p ↔ u ∈ ql p ∧ u ≠ next)
    (hother : ∀ u, u ≠ next → (s'.tasks u).core = (m.sched.tasks u).core)
    (hself : (s'.tasks next).core = (setState .running (m.sched.tasks next)).core)
    (hcur : ∀ c', (s'.cpus c').currentTask =
      if c' = c then some next else (m.sched.cpus c').currentTask)
    (hidle : ∀ c', (s'.cpus c').idleTask = (m.sched.cpus c').idleTask)
    (hbound : ∀ p, (s'.slots p).isSome = (m.sched.slots p).isSome)
    (hlive : m.live next = true) (hfree : ∀ c', c' ≠ c → ¬ m.Current c' next)
    (hslot : ¬ m.Idle next → (m.sched.slots (m.sched.tasks next).policy).isSome)
    (hown : ∀ c', (m.sched.cpus c').idleTask = some next → c' = c)
    (hout : ∀ t, m.Current c t → ¬ Yields m.sched c t)
    (hleave : ∀ c' u, c' ≠ c → m.Current c' u → leaving' u = m.leaving u) :
    Inv { m with sched := s', leaving := leaving' } ql' := by
  have hrunning : (s'.tasks next).state = .running := (Task.state_of_core hself)
  have hpolicy : (s'.tasks next).policy = (m.sched.tasks next).policy := by
    simpa using Task.policy_of_core hself
  have hst : ∀ u, u ≠ next → (s'.tasks u).state = (m.sched.tasks u).state :=
    fun u hu => Task.state_of_core (hother u hu)
  have hpo : ∀ u, (s'.tasks u).policy = (m.sched.tasks u).policy := by
    intro u
    by_cases hu : u = next
    · subst hu; exact hpolicy
    · exact Task.policy_of_core (hother u hu)
  have hma : ∀ u, (s'.tasks u).Managed ↔ (m.sched.tasks u).Managed := by
    intro u
    by_cases hu : u = next
    · subst hu; simpa [Task.Managed, setState] using Task.managed_of_core hself
    · exact Task.managed_of_core (hother u hu)
  have hIdle : ∀ u, Machine.Idle { m with sched := s', leaving := leaving' } u ↔ m.Idle u := by
    intro u; simp [Machine.Idle, hidle]
  have hCur : ∀ c' u, Machine.Current { m with sched := s', leaving := leaving' } c' u ↔
      (c' = c ∧ u = next) ∨ (c' ≠ c ∧ m.Current c' u) := by
    intro c' u
    unfold Machine.Current
    rw [hcur c']
    by_cases hc : c' = c
    · simp [hc, eq_comm]
    · simp [hc]
  refine
    { queues := hq
      queued := ?_
      curSome := ?_
      curLive := ?_
      curInj := ?_
      curRunning := ?_
      runCur := ?_
      runSlot := ?_
      idleSome := by simpa [hidle] using h.idleSome
      idleInj := by simpa [hidle] using h.idleInj
      idleCur := ?_
      idleState := ?_ }
  · intro p u
    rw [hmem, hIdle, h.queued p u]
    by_cases hu : u = next
    · subst hu; simp [hrunning]
    · simp [hst u hu, hpo u, hu]
  · intro c'
    by_cases hc : c' = c
    · exact ⟨next, (hCur c' next).mpr (.inl ⟨hc, rfl⟩)⟩
    · exact (h.curSome c').imp fun u hu => (hCur c' u).mpr (.inr ⟨hc, hu⟩)
  · intro c' u hu
    rcases (hCur c' u).mp hu with ⟨-, rfl⟩ | ⟨-, hu⟩
    · exact hlive
    · exact h.curLive c' u hu
  · intro u c1 c2 h1 h2
    rcases (hCur c1 u).mp h1 with ⟨rfl, rfl⟩ | ⟨hc1, h1⟩ <;>
      rcases (hCur c2 u).mp h2 with ⟨e, e'⟩ | ⟨hc2, h2⟩
    · exact e.symm
    · exact absurd h2 (hfree c2 hc2)
    · exact absurd (e' ▸ h1) (hfree c1 hc1)
    · exact h.curInj u c1 c2 h1 h2
  · intro c' u hu hl
    rcases (hCur c' u).mp hu with ⟨-, rfl⟩ | ⟨hc, hu⟩
    · exact hrunning
    · have hne : u ≠ next := fun e => hfree c' hc (e ▸ hu)
      exact (hst u hne).trans (h.curRunning c' u hu ((hleave c' u hc hu).symm.trans hl))
  · -- a running task that was current on `c` would have yielded
    intro u hl hm hi hr
    by_cases hu : u = next
    · exact ⟨c, (hCur c u).mpr (.inl ⟨rfl, hu⟩)⟩
    · have hi' : ¬ m.Idle u := fun e => hi ((hIdle u).mpr e)
      have hm' := (hma u).mp hm
      have hr' := (hst u hu).symm.trans hr
      obtain ⟨c', hc'⟩ := h.runCur u hl hm' hi' hr'
      refine ⟨c', (hCur c' u).mpr (.inr ⟨?_, hc'⟩)⟩
      rintro rfl
      exact hout u hc' ⟨hm', fun e => hi' ⟨c', e.symm⟩, hr'⟩
  · intro u hl hm hi hr
    have hi' : ¬ m.Idle u := fun e => hi ((hIdle u).mpr e)
    rw [hpo u, hbound]
    by_cases hu : u = next
    · subst hu; exact hslot hi'
    · exact h.runSlot u hl ((hma u).mp hm) hi' ((hst u hu).symm.trans hr)
  · intro u c1 c2 h1 h2
    have h1' : (m.sched.cpus c1).idleTask = some u := (hidle c1).symm.trans h1
    rcases (hCur c2 u).mp h2 with ⟨rfl, rfl⟩ | ⟨_, h2⟩
    · exact (hown c1 h1').symm
    · exact h.idleCur u c1 c2 h1' h2
  · intro u hu
    by_cases hn : u = next
    · subst hn; exact .inr hrunning
    · rw [hst u hn]; exact h.idleState u ((hIdle u).mp hu)

/-- The common tail of every switch: pick, mark RUNNING, notify, set current. -/
theorem Inv.pick (h : Inv m ql)
    (hout : ∀ t, m.Current c t → ¬ Yields m.sched c t)
    (hsafe : ∀ u, firstQueued m.sched = some u → ∀ c', c' ≠ c → ¬ m.Current c' u)
    (hp : schedulerPickNext m.sched c = (s', some next)) {g : CpuLocal → CpuLocal}
    (hgcur : (g (m.sched.cpus c)).currentTask = some next)
    (hgidle : (g (m.sched.cpus c)).idleTask = (m.sched.cpus c).idleTask)
    (hleave : ∀ c' u, c' ≠ c → m.Current c' u → leaving' u = m.leaving u) :
    ∃ ql', Inv { m with
      sched := (schedulerNotifySwitchIn (s'.setTask next (setState .running)) c next).setCpu c g
      leaving := leaving' } ql' := by
  have hcpus : ∀ r : Sched n, r.cpus = m.sched.cpus → ∀ c',
      (((schedulerNotifySwitchIn (r.setTask next (setState .running)) c next).setCpu c g).cpus
          c').currentTask = (if c' = c then some next else (m.sched.cpus c').currentTask) ∧
      (((schedulerNotifySwitchIn (r.setTask next (setState .running)) c next).setCpu c g).cpus
          c').idleTask = (m.sched.cpus c').idleTask := by
    intro r hr c'
    by_cases hc : c' = c
    · subst hc; simp [Sched.setCpu, hr, hgcur, hgidle]
    · simp [Sched.setCpu, hr, hc]
  have hsnd := pickNext_snd m.sched c
  rw [hp] at hsnd
  rcases pickNext_cases h.queues c with ⟨p, t, ys, hql, he⟩ | ⟨hnil, he⟩
  · -- `next` is the head of the queue of `p`
    obtain ⟨rfl, e⟩ := Prod.mk.inj (hp.symm.trans he)
    obtain rfl : next = t := some.inj e
    have hnext : next ∈ ql p := by rw [hql]; exact List.mem_cons_self
    obtain ⟨hlive, hnidle, -, hpol⟩ := (h.queued p next).mp hnext
    have hfirst : firstQueued m.sched = some next := by
      cases hf : firstQueued m.sched with
      | some u => rw [hf] at hsnd; exact hsnd.symm
      | none =>
        rw [hf] at hsnd
        exact absurd ⟨c, hsnd.symm⟩ hnidle
    refine ⟨_, h.dispatch (c := c) ((Queues.notifySwitchIn
      ((h.queues.dequeue hnext).setState _)).setCpu g) ?_ ?_ ?_
      (fun c' => (hcpus _ (dequeue_cpus ..) c').1) (fun c' => (hcpus _ (dequeue_cpus ..) c').2)
      (fun p => by simp) hlive (hsafe next hfirst) (fun _ => hpol ▸ h.queues.bound hnext)
      (fun c' hc' => absurd ⟨c', hc'⟩ hnidle) hout hleave⟩
    · intro p' u
      rw [mem_drop h.queues.nodup]
      refine ⟨fun hu => ⟨hu.1, fun e => hu.2 ⟨e, ?_⟩⟩, fun hu => ⟨hu.1, fun e => hu.2 e.1⟩⟩
      exact h.queues.disj hu.1 (e ▸ hnext)
    · intro u hu
      simp only [setCpu_tasks, notifySwitchIn_tasks]
      exact (congrArg Task.core (modify_ne hu)).trans (dequeue_core ..)
    · simp only [setCpu_tasks, notifySwitchIn_tasks, setTask_self]
      have := dequeue_core m.sched next next p
      simp only [Task.core, Prod.mk.injEq] at this
      simp [Task.core, setState, this]
  · -- every queue is empty: the idle task of `c`
    obtain ⟨rfl, e⟩ := Prod.mk.inj (hp.symm.trans he)
    have hi : (m.sched.cpus c).idleTask = some next := e.symm
    obtain ⟨t, ht, hlive⟩ := h.idleSome c
    obtain rfl : next = t := some.inj (hi.symm.trans ht)
    refine ⟨ql, h.dispatch (c := c) ((Queues.notifySwitchIn
      (h.queues.setState _)).setCpu g) ?_ ?_ ?_
      (fun c' => (hcpus _ rfl c').1) (fun c' => (hcpus _ rfl c').2)
      (fun p => by simp) hlive (fun c' hc' hcur => hc' (h.idleCur next c c' hi hcur))
      (fun hn => absurd ⟨c, hi⟩ hn) (fun c' hc' => h.idleInj next c' c hc' hi) hout hleave⟩
    · intro p u; simp [hnil p]
    · intro u hu
      simp only [setCpu_tasks, notifySwitchIn_tasks]
      exact congrArg Task.core (modify_ne hu)
    · simp only [setCpu_tasks, notifySwitchIn_tasks, setTask_self]

theorem Inv.finishSwitch (h : Inv m ql) (c : Fin n) :
    Inv { m with sched := (schedulerFinishSwitch m.sched c).1 } ql := by
  unfold schedulerFinishSwitch
  dsimp only
  split
  next =>
    dsimp only
    exact h.setCpu c (fun _ => rfl) (fun _ => rfl)
  next =>
    dsimp only
    exact h.setCpu c (fun _ => rfl) (fun _ => rfl)

/-! ## One step -/

/-- A task some CPU picks is not current on another CPU, and nobody reclassifies
an idle task that has not run yet (it is READY, but in no queue). -/
def Safe (m : Machine n) : Label n → Prop
  | .schedule c _ => ∀ t ∈ firstReady m.sched c, ∀ c', c' ≠ c → ¬ m.Current c' t
  | .preempt c _ => ∀ t ∈ firstReady m.sched c, ∀ c', c' ≠ c → ¬ m.Current c' t
  | .blockCurrentWait c _ _ => ∀ t ∈ firstQueued m.sched, ∀ c', c' ≠ c → ¬ m.Current c' t
  | .remove t => ¬ (m.Idle t ∧ (m.sched.tasks t).state = .ready)
  | .setPolicy _ t _ => ¬ (m.Idle t ∧ (m.sched.tasks t).state = .ready)
  | _ => True

instance (m : Machine n) (l : Label n) : Decidable (Safe m l) :=
  match l with
  | .schedule c _ =>
    inferInstanceAs (Decidable (∀ t ∈ firstReady m.sched c, ∀ c', c' ≠ c → ¬ m.Current c' t))
  | .preempt c _ =>
    inferInstanceAs (Decidable (∀ t ∈ firstReady m.sched c, ∀ c', c' ≠ c → ¬ m.Current c' t))
  | .blockCurrentWait c _ _ =>
    inferInstanceAs (Decidable (∀ t ∈ firstQueued m.sched, ∀ c', c' ≠ c → ¬ m.Current c' t))
  | .remove t => inferInstanceAs (Decidable (¬ (m.Idle t ∧ (m.sched.tasks t).state = .ready)))
  | .setPolicy _ t _ =>
    inferInstanceAs (Decidable (¬ (m.Idle t ∧ (m.sched.tasks t).state = .ready)))
  | .create .. | .makeReady _ | .wake .. | .blockCurrent .. | .tick _ | .exit _ | .reap _ =>
    .isTrue trivial

theorem Inv.not_idle (h : Inv m ql) (hr : (m.sched.tasks t).state ≠ .ready)
    (hr' : (m.sched.tasks t).state ≠ .running) : ¬ m.Idle t :=
  fun hi => (h.idleState t hi).elim hr hr'

theorem Inv.leaving_of_current (h : Inv m ql) (hr : (m.sched.tasks t).state ≠ .running)
    (c : Fin n) (hc : m.Current c t) : m.leaving t = true := by
  by_contra hl
  exact hr (h.curRunning c t hc (by simpa using hl))

theorem acting_spec (h : m.acting c = some t) :
    m.Current c t ∧ ¬ m.Idle t ∧ m.leaving t = false := by
  unfold Machine.acting at h
  split at h
  · exact absurd h (by simp)
  next u hu =>
    split at h
    · exact absurd h (by simp)
    next hn =>
      obtain rfl : u = t := some.inj h
      exact ⟨hu, fun hi => hn (.inl hi), by simpa using fun hl => hn (.inr hl)⟩

section

variable (h : Inv m ql)

include h

theorem Inv.create (hdead : m.live t = false) {k : Task} (hk : k.state = .new) :
    Inv { sched := m.sched.setTask t fun _ => k, live := update m.live t true
          leaving := update m.leaving t false } ql := by
  have hout : ∀ p, t ∉ ql p := fun p ht => by
    have := ((h.queued p t).mp ht).1
    rw [hdead] at this
    exact absurd this (by simp)
  have hncur : ∀ c, ¬ m.Current c t := fun c hc => by
    have := h.curLive c t hc
    rw [hdead] at this
    exact absurd this (by simp)
  have hnidle : ¬ m.Idle t := fun ⟨c, hc⟩ => by
    obtain ⟨u, hu, hlive⟩ := h.idleSome c
    obtain rfl : t = u := some.inj (hc.symm.trans hu)
    rw [hdead] at hlive
    exact absurd hlive (by simp)
  have hself : (m.sched.setTask t fun _ => k).tasks t = k := setTask_self ..
  have hne : ∀ u, u ≠ t → (m.sched.setTask t fun _ => k).tasks u = m.sched.tasks u :=
    fun u hu => update_of_ne hu ..
  have hlne : ∀ u, u ≠ t → update m.live t true u = m.live u :=
    fun u hu => update_of_ne hu ..
  refine ⟨h.queues.setTask (.inl hout), ?_, h.curSome, ?_, h.curInj, ?_, ?_, ?_, ?_, h.idleInj,
    h.idleCur, ?_⟩
  · intro p u
    by_cases hu : u = t
    · subst hu
      rw [hself, hk]
      exact ⟨fun hm => absurd hm (hout p), fun ⟨_, _, hr, _⟩ => absurd hr (by simp)⟩
    · have hq := h.queued p u
      rw [← hlne u hu] at hq
      rw [hne u hu]
      exact hq
  · intro c u hc
    have hu : u ≠ t := fun e => hncur c (e ▸ hc)
    exact (hlne u hu).trans (h.curLive c u hc)
  · intro c u hc hl
    have hu : u ≠ t := fun e => hncur c (e ▸ hc)
    rw [hne u hu]
    exact h.curRunning c u hc ((update_of_ne hu ..).symm.trans hl)
  · intro u hl hm hi hr
    by_cases hu : u = t
    · subst hu
      rw [hself, hk] at hr
      cases hr
    · rw [hne u hu] at hm hr
      exact h.runCur u ((hlne u hu).symm.trans hl) hm hi hr
  · intro u hl hm hi hr
    by_cases hu : u = t
    · subst hu
      rw [hself, hk] at hr
      cases hr
    · rw [hne u hu] at hm hr ⊢
      exact h.runSlot u ((hlne u hu).symm.trans hl) hm hi hr
  · intro c
    obtain ⟨u, hu, hl⟩ := h.idleSome c
    have hut : u ≠ t := fun e => hnidle ⟨c, e ▸ hu⟩
    exact ⟨u, hu, (hlne u hut).trans hl⟩
  · intro u hi
    have hu : u ≠ t := fun e => hnidle (e ▸ hi)
    rw [hne u hu]
    exact h.idleState u hi

theorem Inv.reap (hz : (m.sched.tasks t).state = .zombie)
    (hncur : ∀ c, ¬ m.Current c t) :
    Inv { m with live := update m.live t false } ql := by
  have hnidle : ¬ m.Idle t := h.not_idle (by simp [hz]) (by simp [hz])
  have hlive : ∀ u, update m.live t false u = true ↔ u ≠ t ∧ m.live u = true := by
    intro u
    by_cases hu : u = t
    · subst hu; simp
    · simp [hu]
  refine ⟨h.queues, ?_, h.curSome, ?_, h.curInj, h.curRunning, ?_, ?_, ?_, h.idleInj, h.idleCur,
    h.idleState⟩
  · intro p u
    rw [hlive, h.queued p u]
    refine ⟨fun ⟨hl, hi, hr, hp⟩ => ⟨⟨?_, hl⟩, hi, hr, hp⟩, fun ⟨⟨_, hl⟩, hi⟩ => ⟨hl, hi⟩⟩
    rintro rfl
    exact absurd (hz.symm.trans hr) (by simp)
  · exact fun c u hc => (hlive u).mpr ⟨fun e => hncur c (e ▸ hc), h.curLive c u hc⟩
  · exact fun u hl => h.runCur u ((hlive u).mp hl).2
  · exact fun u hl => h.runSlot u ((hlive u).mp hl).2
  · intro c
    obtain ⟨u, hu, hl⟩ := h.idleSome c
    exact ⟨u, hu, (hlive u).mpr ⟨fun e => hnidle ⟨c, e ▸ hu⟩, hl⟩⟩

/-- A NEW task, in no queue and not running, may be rewritten freely. -/
theorem Inv.rewriteNew (hst : (m.sched.tasks t).state = .new) {f : Task → Task}
    (hf : ∀ k, (f k).state = k.state) :
    Inv { m with sched := m.sched.setTask t f } ql := by
  have hfst : (f (m.sched.tasks t)).state = .new := (hf _).trans hst
  refine h.setTask (by simp [hst]) (by simp [hfst]) (fun c hc hl => ?_)
    (fun _ _ _ hr => absurd (hfst.symm.trans hr) (by simp))
    (fun hi => absurd hi (h.not_idle (by simp [hst]) (by simp [hst])))
  exact absurd (hst.symm.trans (h.curRunning c t hc hl)) (by simp)

/-- The running task `t` of CPU `c` starts to leave: it blocks or exits. -/
theorem Inv.leave (hr : (m.sched.tasks t).state = .running) (hi : ¬ m.Idle t)
    {st : TaskState} (hst : st ≠ .ready) (hst' : st ≠ .running) :
    Inv { m with
      sched := m.sched.setTask t (setState st)
      leaving := update m.leaving t true } ql := by
  have h' := h.setLeaving (t := t) (b := true) (fun e => absurd e (by simp))
  refine h'.setTask (t := t) (by simp [hr]) hst (fun c _ hl => ?_)
    (fun _ _ _ e => absurd e hst') (fun e => absurd e hi)
  exact absurd hl (by simp)

section

variable (hlive : m.live t = true)

include hlive

theorem Inv.makeReady
    (hst : (m.sched.tasks t).state = .new) :
    ∃ ql', Inv { m with sched := schedulerMakeReady m.sched t } ql' := by
  unfold schedulerMakeReady
  rw [if_neg (by simp [hst])]
  cases hs : m.sched.slots (m.sched.tasks t).policy with
  | none => exact ⟨ql, h⟩
  | some q =>
    exact ⟨_, h.publishReady hlive (h.not_idle (by simp [hst]) (by simp [hst])) (by simp [hst])
      (by simp [hs]) (h.leaving_of_current (by simp [hst]))⟩

theorem Inv.removeTask
    (hsafe : ¬ (m.Idle t ∧ (m.sched.tasks t).state = .ready)) :
    ∃ ql', Inv { m with sched := schedulerRemove m.sched t } ql' := by
  unfold schedulerRemove
  by_cases hst : (m.sched.tasks t).state = .ready
  · rw [if_neg (by simp [hst])]
    cases hs : m.sched.slots (m.sched.tasks t).policy with
    | none => exact ⟨ql, h⟩
    | some q => exact ⟨_, h.withdraw hlive (fun hi => hsafe ⟨hi, hst⟩) hst⟩
  · rw [if_pos hst]
    exact ⟨ql, h⟩

theorem Inv.wake (c : Fin n) :
    ∃ ql', Inv { m with sched := schedulerWake m.sched c t } ql' := by
  unfold schedulerWake
  split
  · exact ⟨ql, h⟩
  next hst =>
    have hready : (m.sched.tasks t).state ≠ .ready := fun e => hst (by simp [e])
    have hrunning : (m.sched.tasks t).state ≠ .running := fun e => hst (by simp [e])
    cases hs : m.sched.slots (m.sched.tasks t).policy with
    | none => exact ⟨ql, h⟩
    | some q =>
      have h' := h.publishReady hlive (h.not_idle hready hrunning) hready (by simp [hs])
        (h.leaving_of_current hrunning)
      exact ⟨_, h'.setCpu c (fun _ => rfl) (fun _ => rfl)⟩

theorem Inv.setPolicy (c : Fin n) (policy : Nat)
    (hsafe : ¬ (m.Idle t ∧ (m.sched.tasks t).state = .ready)) :
    ∃ ql', Inv { m with sched := schedulerSetPolicy m.sched c t policy } ql' := by
  unfold schedulerSetPolicy
  split
  · exact ⟨ql, h⟩
  next p _ =>
    split
    · exact ⟨ql, h⟩
    split
    · exact ⟨ql, h⟩
    next q hq =>
      split
      next hst =>
        split
        · exact ⟨ql, h⟩
        next q' hq' =>
          have h1 := h.withdraw hlive (fun hi => hsafe ⟨hi, hst⟩) hst
          -- the links are cleared and the policy is written while the task is NEW
          have h2 := h1.rewriteNew (t := t) (by simp)
            (f := fun k => Scheduler.setPolicy p (setNext none (setPrevious none k))) (fun _ => rfl)
          have h3 := h2.publishReady (t := t) hlive
            (h2.not_idle (by simp [setNext, setPrevious]) (by simp [setNext, setPrevious]))
            (by simp [setNext, setPrevious]) (by simp [hq])
            (h2.leaving_of_current (by simp [setNext, setPrevious]))
          simp only [setTask_setTask] at h3 ⊢
          exact ⟨_, h3.setCpu c (fun _ => rfl) (fun _ => rfl)⟩
      next hst =>
        have h1 : Inv { m with sched := m.sched.setTask t (Scheduler.setPolicy p) } ql := by
          refine h.setTask hst (by simpa using hst) (fun c hc hl => ?_) ?_ (fun hi => ?_)
          · simpa using h.curRunning c t hc hl
          · intro hl hm hi hr
            exact ⟨h.runCur t hl hm hi (by simpa using hr), by simp [hq]⟩
          · simpa using (h.idleState t hi).resolve_left hst
        exact ⟨_, h1.setCpu c (fun _ => rfl) (fun _ => rfl)⟩

end

theorem Inv.tick (c : Fin n) :
    Inv { m with sched := schedulerTick m.sched c } ql := by
  unfold schedulerTick
  split
  · exact h
  next t _ =>
    split
    · exact h
    dsimp only
    have h1 : Inv { m with
        sched := m.sched.setTask t fun k => { k with runtimeTicks := k.runtimeTicks + 1 } } ql :=
      h.congr (h.queues.setTask (.inr fun _ => ⟨rfl, rfl⟩))
        (fun u => setTask_core _ _ _ (fun _ => rfl)) (fun _ => rfl) (fun _ => rfl) (fun _ => rfl)
    split
    · exact h1
    next q hq =>
      have h2 := h1.congr (h1.queues.setSlot hq
        (by unfold rrTick; split <;> rfl : (rrTick q).1.head = q.head) (by unfold rrTick; split <;> rfl))
        (fun _ => rfl) (fun _ => rfl) (fun _ => rfl) (bound_update hq)
      split
      · exact h2.setCpu c (fun _ => rfl) (fun _ => rfl)
      · exact h2

/-- After `requeueCurrent` the current task is queued, or was not RUNNING. -/
theorem Inv.requeueCurrent (hc : m.Current c t) :
    ∃ ql', Inv { m with
        sched := Scheduler.requeueCurrent m.sched c
        leaving := update m.leaving t true } ql' ∧
      ¬ Yields (Scheduler.requeueCurrent m.sched c) c t ∧
      (Scheduler.requeueCurrent m.sched c).cpus = m.sched.cpus ∧
      firstQueued (Scheduler.requeueCurrent m.sched c) = firstReady m.sched c := by
  have hidle : some t ≠ (m.sched.cpus c).idleTask → ¬ m.Idle t := by
    rintro hn ⟨c', hc'⟩
    obtain rfl := h.idleCur t c' c hc' hc
    exact hn hc'.symm
  have hbound : Yields m.sched c t → (m.sched.slots (m.sched.tasks t).policy).isSome :=
    fun hy => h.runSlot t (h.curLive c t hc) hy.1 (hidle hy.2.1) hy.2.2
  have hfirst := firstQueued_requeue h.queues hc (fun hy => h.not_queued (by simp [hy.2.2])) hbound
  have h' := h.setLeaving (t := t) (b := true) (fun e => absurd e (by simp))
  by_cases hy : Yields m.sched c t
  · have he := requeueCurrent_yields hc hy (hbound hy)
    rw [he] at hfirst ⊢
    refine ⟨_, h'.publishReady (t := t) (h.curLive c t hc) (hidle hy.2.1) (by simp [hy.2.2])
      (hbound hy) (fun _ _ => by simp), fun hy' => ?_, publishReady_cpus .., hfirst⟩
    have hcore := publishReady_core m.sched t t
    rw [if_pos rfl] at hcore
    exact absurd (hy'.2.2.symm.trans (congrArg (·.1) hcore)) (by simp)
  · rw [requeueCurrent_stays hc hy] at hfirst ⊢
    exact ⟨ql, h', hy, rfl, hfirst⟩

/-- `scheduler_schedule`, up to the end of `scheduler_finish_switch` in the task
it goes on with. Whether the task that left is still on its way to a call of
`scheduler_schedule` is up to the caller (`leaving'`). -/
theorem Inv.schedule {m' : Machine n}
    (hc : m.Current c t) (hleave : ∀ u, u ≠ t → leaving' u = m.leaving u)
    (hsafe : ∀ u, firstReady m.sched c = some u → ∀ c', c' ≠ c → ¬ m.Current c' u)
    {flags : Flags} (hs : { m with leaving := leaving' }.afterSwitch c
      (schedulerSchedule m.sched c flags) = some m') : ∃ ql', Inv m' ql' := by
  obtain ⟨ql1, h1, hout, hcpus, hfirst⟩ := h.requeueCurrent hc
  have hcur : ∀ c' u, Machine.Current { m with
      sched := Scheduler.requeueCurrent m.sched c
      leaving := update m.leaving t true } c' u ↔ m.Current c' u := by
    intro c' u; simp [Machine.Current, hcpus]
  have hout' : ∀ u, m.Current c u → ¬ Yields (Scheduler.requeueCurrent m.sched c) c u := by
    intro u hu
    obtain rfl : t = u := some.inj (hc.symm.trans hu)
    exact hout
  have hleave' : ∀ c' u, c' ≠ c → m.Current c' u → leaving' u = update m.leaving t true u := by
    intro c' u hne hu
    have hut : u ≠ t := fun e => hne (h.curInj u c' c hu (e ▸ hc))
    rw [update_of_ne hut, hleave u hut]
  unfold schedulerSchedule at hs
  split at hs
  · exact absurd hs (by simp [Machine.afterSwitch])
  next s' next hp =>
    rw [show (m.sched.cpus c).currentTask = some t from hc] at hs
    dsimp only at hs
    split at hs
    next he =>
      subst he
      obtain rfl := some.inj hs
      exact h1.pick (c := c) (fun u hu => hout' u ((hcur c u).mp hu))
        (fun u hu c' hne hu' => hsafe u (hfirst.symm.trans hu) c' hne ((hcur c' u).mp hu')) hp
        (by rw [hcpus]; exact hc) rfl
        (fun c' u hne hu => hleave' c' u hne ((hcur c' u).mp hu))
    next hne =>
      obtain rfl := some.inj hs
      obtain ⟨ql2, h2⟩ := h1.pick (c := c) (fun u hu => hout' u ((hcur c u).mp hu))
        (fun u hu c' hne hu' => hsafe u (hfirst.symm.trans hu) c' hne ((hcur c' u).mp hu')) hp
        (g := fun k =>
          { k with
            previousTask := some t
            schedulerSwitchFlags := (scheduleSwitchFlags k flags).1
            schedulerPreemptRestoreFlags := (scheduleSwitchFlags k flags).2
            schedulerSwitchLockHeld := true
            currentTask := some next
            reschedulePending := false }) rfl rfl
        (fun c' u hne hu => hleave' c' u hne ((hcur c' u).mp hu))
      exact ⟨ql2, h2.finishSwitch c⟩

theorem Inv.blockCurrentWait {m' : Machine n} (hact : m.acting c = some t)
    (hsafe : ∀ u, firstQueued m.sched = some u → ∀ c', c' ≠ c → ¬ m.Current c' u)
    {st : TaskState} {waitFlags : Flags} {d : Dispatch n}
    (hd : schedulerBlockCurrentWait m.sched c st waitFlags = some d)
    (hs : m.afterSwitch c d = some m') : ∃ ql', Inv m' ql' := by
  obtain ⟨hc, hidle, -⟩ := acting_spec hact
  unfold schedulerBlockCurrentWait at hd
  rw [show (m.sched.cpus c).currentTask = some t from hc] at hd
  dsimp only at hd
  split at hd
  next hst =>
    have hne : st ≠ .ready ∧ st ≠ .running := by
      have := hst.1
      cases st <;> simp_all [blockable]
    have h1 := h.leave hst.2 hidle hne.1 hne.2
    have hout : ∀ u, m.Current c u → ¬ Yields (m.sched.setTask t (setState st)) c u := by
      intro u hu hy
      obtain rfl : t = u := some.inj (hc.symm.trans hu)
      exact hne.2 (by simpa using hy.2.2)
    have hleave : ∀ c' u, c' ≠ c → m.Current c' u → m.leaving u = update m.leaving t true u := by
      intro c' u hcc hu
      have hut : u ≠ t := fun e => hcc (h.curInj u c' c hu (e ▸ hc))
      rw [update_of_ne hut]
    split at hd
    · obtain rfl := some.inj hd
      exact absurd hs (by simp [Machine.afterSwitch])
    next s' next hp =>
      split at hd
      · obtain rfl := some.inj hd
        exact absurd hs (by simp [Machine.afterSwitch])
      · obtain rfl := some.inj hd
        obtain rfl := some.inj hs
        obtain ⟨ql2, h2⟩ := h1.pick (c := c) hout hsafe hp
          (g := fun k =>
            { k with
              previousTask := some t
              schedulerSwitchFlags := waitFlags
              schedulerSwitchLockHeld := true
              currentTask := some next
              reschedulePending := false }) rfl rfl hleave
        exact ⟨ql2, h2.finishSwitch c⟩
  · exact absurd hd (by simp)

theorem Inv.blockCurrent (hact : m.acting c = some t) {st : TaskState}
    (hs : schedulerBlockCurrent m.sched c st = some s') :
    Inv { m with sched := s', leaving := update m.leaving t true } ql := by
  obtain ⟨hc, hidle, -⟩ := acting_spec hact
  unfold schedulerBlockCurrent at hs
  rw [show (m.sched.cpus c).currentTask = some t from hc] at hs
  split at hs
  next hb =>
    dsimp only at hs
    split at hs
    next hr =>
      obtain rfl := some.inj hs
      exact h.leave hr hidle (by rintro rfl; simp [blockable] at hb)
        (by rintro rfl; simp [blockable] at hb)
    next => cases hs
  next => cases hs

/-- Each safe step keeps the invariant. -/
theorem step_inv {m' : Machine n} {l : Label n} (hsafe : Safe m l)
    (hs : step m l = some m') : ∃ ql', Inv m' ql' := by
  cases l with
  | create t policy base size =>
    simp only [step, ite_none_right_eq_some, some.injEq] at hs
    obtain ⟨hg, rfl⟩ := hs
    exact ⟨ql, h.create hg.1 rfl⟩
  | makeReady t =>
    simp only [step, ite_none_right_eq_some, some.injEq] at hs
    obtain ⟨hg, rfl⟩ := hs
    exact h.makeReady hg.1 hg.2
  | remove t =>
    simp only [step, ite_none_right_eq_some, some.injEq] at hs
    obtain ⟨hg, rfl⟩ := hs
    exact h.removeTask hg hsafe
  | setPolicy c t policy =>
    simp only [step, ite_none_right_eq_some, some.injEq] at hs
    obtain ⟨hg, rfl⟩ := hs
    exact h.setPolicy hg c policy hsafe
  | wake c t =>
    simp only [step, ite_none_right_eq_some, some.injEq] at hs
    obtain ⟨hg, rfl⟩ := hs
    exact h.wake hg c
  | blockCurrent c st =>
    simp only [step] at hs
    split at hs
    · cases hs
    next t ht =>
      split at hs
      · obtain rfl := some.inj hs
        exact ⟨ql, h⟩
      next s' hb =>
        obtain rfl := some.inj hs
        exact ⟨ql, h.blockCurrent ht hb⟩
  | blockCurrentWait c st waitFlags =>
    simp only [step] at hs
    split at hs
    · cases hs
    next t ht =>
      split at hs
      · obtain rfl := some.inj hs
        exact ⟨ql, h⟩
      next d hd => exact h.blockCurrentWait ht hsafe hd hs
  | schedule c flags =>
    simp only [step] at hs
    split at hs
    · cases hs
    next t ht =>
      exact h.schedule ht (fun u hu => update_of_ne hu ..) hsafe hs
  | preempt c flags =>
    simp only [step] at hs
    split at hs
    · cases hs
    next t ht =>
      split at hs
      · cases hs
      · exact h.schedule ht (fun _ _ => rfl) hsafe hs
  | tick c =>
    simp only [step, some.injEq] at hs
    obtain rfl := hs
    exact ⟨ql, h.tick c⟩
  | exit c =>
    simp only [step] at hs
    split at hs
    · cases hs
    next t ht =>
      obtain ⟨hc, hidle, hl⟩ := acting_spec ht
      simp only [ite_none_right_eq_some, some.injEq] at hs
      obtain ⟨-, rfl⟩ := hs
      exact ⟨ql, h.leave (h.curRunning c t hc hl) hidle (by simp) (by simp)⟩
  | reap t =>
    simp only [step, ite_none_right_eq_some, some.injEq] at hs
    obtain ⟨hg, rfl⟩ := hs
    exact ⟨ql, h.reap hg.2.1 hg.2.2⟩

end

/-! ## Whole runs -/

theorem Start.inv {m : Machine n} (st : Start m) : Inv m fun _ => [] := by
  have hcur : ∀ c t, m.Current c t ↔ t = st.boot c := by
    intro c t
    simp [Machine.Current, st.cpus, startCpu, eq_comm]
  have hidle : ∀ c t, (m.sched.cpus c).idleTask = some t ↔ t = st.idle c := by
    intro c t
    simp [st.cpus, startCpu, eq_comm]
  have hIdle : ∀ t, m.Idle t ↔ ∃ c, t = st.idle c := fun t => exists_congr fun c => hidle c t
  have hboot : ∀ t, m.live t = true → ¬ m.Idle t → ∃ c, t = st.boot c := by
    intro t hl hi
    exact ((st.live t).mp hl).resolve_right fun hc => hi ((hIdle t).mpr hc)
  refine ⟨⟨fun {p q} hq => ?_, fun _ => rfl, fun hu => absurd hu (by simp)⟩, ?_, ?_, ?_, ?_, ?_,
    ?_, ?_, ?_, ?_, ?_, ?_⟩
  · rw [st.slots p] at hq
    split at hq
    · obtain rfl := some.inj hq
      exact dlist_nil ..
    · exact absurd hq (by simp)
  · intro p t
    refine ⟨fun hu => absurd hu (by simp), ?_⟩
    rintro ⟨hl, hi, hr, -⟩
    obtain ⟨c, rfl⟩ := hboot t hl hi
    exact absurd (hr.symm.trans (st.boot_task c).1) (by simp)
  · exact fun c => ⟨st.boot c, (hcur c _).mpr rfl⟩
  · exact fun c t hc => (st.live t).mpr (.inl ⟨c, (hcur c t).mp hc⟩)
  · intro t c c' hc hc'
    exact st.boot_inj c c' (((hcur c t).mp hc).symm.trans ((hcur c' t).mp hc'))
  · intro c t hc _
    rw [(hcur c t).mp hc]
    exact (st.boot_task c).1
  · intro t hl hm hi _
    obtain ⟨c, rfl⟩ := hboot t hl hi
    exact absurd (st.boot_task c).2 hm.1
  · intro t hl hm hi _
    obtain ⟨c, rfl⟩ := hboot t hl hi
    exact absurd (st.boot_task c).2 hm.1
  · exact fun c => ⟨st.idle c, (hidle c _).mpr rfl, (st.live _).mpr (.inr ⟨c, rfl⟩)⟩
  · intro t c c' hc hc'
    exact st.idle_inj c c' (((hidle c t).mp hc).symm.trans ((hidle c' t).mp hc'))
  · intro t c c' hi hc
    exact absurd (((hcur c' t).mp hc).symm.trans ((hidle c t).mp hi)) (st.boot_idle c' c)
  · intro t hi
    obtain ⟨c, rfl⟩ := (hIdle t).mp hi
    exact .inl (st.idle_task c)

/-- In every run whose steps are safe, every state satisfies the run-queue
invariant. -/
theorem safe_run_runQueueInv {m0 m : Machine n} (st : Start m0) {ls : List (Label n)}
    (hr : RunWhere step Safe m0 ls m) : RunQueueInv m := by
  obtain ⟨ql, h⟩ := hr.invariant (I := fun m => ∃ ql, Inv m ql) ⟨_, st.inv⟩
    (fun _ _ _ ⟨_, h⟩ hsafe hs => step_inv h hsafe hs)
  exact h.runQueueInv

/-- Two CPUs after boot: contexts 0 and 1 run, 2 and 3 are the idle tasks. -/
def twoCpus : Machine 2 :=
  { sched :=
      { tasks := fun t =>
          { state := if t < 2 then .running else .ready
            policy := .background
            stackBase := if t < 2 then 0 else 0x1000
            stackSize := if t < 2 then 0 else 0x4000
            runtimeTicks := 0, schedPrevious := none, schedNext := none }
        slots := fun _ => some rrCreate
        cpus := fun c => startCpu c (c + 2) }
    live := fun t => t < 4
    leaving := fun _ => false }

def twoCpusStart : Start twoCpus where
  boot c := c
  idle c := c + 2
  bound _ := true
  cpus _ := rfl
  slots _ := rfl
  live t := by
    simp only [twoCpus, decide_eq_true_eq, Fin.exists_fin_two]
    have h : ∀ k : Nat, k < 4 ↔ (k = 0 ∨ k = 1) ∨ k = 2 ∨ k = 3 := by omega
    exact h t
  leaving _ := rfl
  boot_task := by decide
  idle_task := by decide
  boot_inj := by decide
  idle_inj := by decide
  boot_idle := by decide

/-- A task is created, made ready, and picked by CPU 0. -/
def firstDispatch : List (Label 2) :=
  [.create 4 .normal 0x5000 0x4000, .makeReady 4, .schedule ⟨0, Nat.zero_lt_two⟩ 0x202]

theorem safe_run_runQueueInv_twoCpus :
    ∃ m, exec step Safe twoCpus firstDispatch = some m ∧ RunQueueInv m :=
  exists_exec (fun _ => True) (by decide +kernel)
    fun _ hr _ => safe_run_runQueueInv twoCpusStart hr

/-- CPU 1 wakes the task that CPU 0 is about to switch away from, and picks it. -/
def earlyWake : List (Label 2) :=
  firstDispatch ++ [.blockCurrent ⟨0, Nat.zero_lt_two⟩ .blocked, .wake ⟨1, Nat.one_lt_two⟩ 4,
    .schedule ⟨1, Nat.one_lt_two⟩ 0x202]

/-- Without the condition the invariant breaks. -/
theorem not_run_runQueueInv : ¬ ∀ (n : Nat) (m0 m : Machine n) (_ : Start m0)
    (ls : List (Label n)), Run step m0 ls m → RunQueueInv m := by
  intro h
  have hrun : (exec step (fun _ _ => True) twoCpus earlyWake).any
      (fun m => m.Current 0 4 ∧ m.Current 1 4) = true := by decide +kernel
  obtain ⟨m, hm, hcur⟩ := (Option.any_eq_true _ _).mp hrun
  have hboth : m.Current 0 4 ∧ m.Current 1 4 := of_decide_eq_true hcur
  have hinv := h 2 twoCpus m twoCpusStart earlyWake (run_of_exec hm)
  exact absurd (hinv.current 4 0 1 hboth.1 hboth.2) (by decide)

end MeatySkeleton.Scheduler
