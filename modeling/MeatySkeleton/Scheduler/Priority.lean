import MeatySkeleton.Scheduler.InterruptFlag

/-!
# The order in which tasks run

`policy_order` is strict: a CPU that schedules goes on with a task of the highest
class that has one, its own task included if it yields, and is idle only if there
is none.
-/

namespace MeatySkeleton.Scheduler

open Function List Option Lib

variable {n : Nat} {m m' : Machine n} {ql : SchedPolicy → List TaskPtr} {c : Fin n} {t : TaskPtr}

/-- The place of the task's class in `policy_order`. -/
def Task.rank (k : Task) : Nat := policyOrder.idxOf k.policy

/-- A task that CPU `c` may go on with: it is READY, or `c` runs it and it yields. -/
def Candidate (m : Machine n) (c : Fin n) (t : TaskPtr) : Prop :=
  (m.live t = true ∧ ¬ m.Idle t ∧ (m.sched.tasks t).state = .ready) ∨
    m.Current c t ∧ Yields m.sched c t

/-- The scheduler's choice is a candidate of the highest class, or there is none. -/
def Chosen (m : Machine n) (c : Fin n) (next : Option TaskPtr) : Prop :=
  (∃ t, next = some t ∧ Candidate m c t ∧
    ∀ u, Candidate m c u → (m.sched.tasks t).rank ≤ (m.sched.tasks u).rank) ∨
  (∀ u, ¬ Candidate m c u) ∧ next = (m.sched.cpus c).idleTask

/-- The class `p` offers CPU `c` a candidate, if there is one in the class. -/
theorem Inv.offers (h : Inv m ql) (c : Fin n) (p : SchedPolicy) :
    (∀ t, (m.sched.slots p).bind (fun q => q.head.or (yielding m.sched c p)) = some t →
      Candidate m c t ∧ (m.sched.tasks t).policy = p) ∧
    ((m.sched.slots p).bind (fun q => q.head.or (yielding m.sched c p)) = none →
      ∀ u, Candidate m c u → (m.sched.tasks u).policy ≠ p) := by
  -- without an algorithm a class has no candidate
  have hslot : ∀ u, Candidate m c u → (m.sched.slots (m.sched.tasks u).policy).isSome := by
    rintro u (⟨hlive, hidle, hready⟩ | ⟨hc, hy⟩)
    · exact h.queues.bound ((h.queued _ u).mpr ⟨hlive, hidle, hready, rfl⟩)
    · refine h.runSlot u (h.curLive c u hc) hy.1 ?_ hy.2.2
      rintro ⟨c', hc'⟩
      obtain rfl := h.idleCur u c' c hc' hc
      exact hy.2.1 hc'.symm
  cases hq : m.sched.slots p with
  | none =>
    refine ⟨fun t ht => (by cases ht), fun _ u hu hp => ?_⟩
    have := hslot u hu
    rw [hp, hq] at this
    cases this
  | some q =>
    have hhead := (h.queues.holds hq).head_eq
    rw [Option.bind_some, hhead]
    constructor
    · intro t ht
      rcases or_eq_some_iff.mp ht with ht | ⟨-, ht⟩
      · obtain ⟨hlive, hidle, hready, hp⟩ := (h.queued p t).mp (mem_of_head? ht)
        exact ⟨.inl ⟨hlive, hidle, hready⟩, hp⟩
      · obtain ⟨hc, hy⟩ := filter_eq_some_iff.mp ht
        have hy := of_decide_eq_true hy
        exact ⟨.inr ⟨hc, hy.1, hy.2.1, hy.2.2.1⟩, hy.2.2.2⟩
    · intro hnone u hu hp
      obtain ⟨hnil, hnot⟩ := or_eq_none_iff.mp hnone
      rcases hu with ⟨hlive, hidle, hready⟩ | ⟨hc, hy⟩
      · have hmem := (h.queued p u).mpr ⟨hlive, hidle, hready, hp⟩
        rw [head?_eq_none_iff.mp hnil] at hmem
        cases hmem
      · refine filter_eq_none_iff.mp hnot u hc (decide_eq_true ?_)
        exact ⟨hy.1, hy.2.1, hy.2.2, hp⟩

theorem Inv.chosen (h : Inv m ql) (c : Fin n) :
    Chosen m c ((firstReady m.sched c).or (m.sched.cpus c).idleTask) := by
  unfold firstReady
  cases hf : policyOrder.findSome? _ with
  | none =>
    refine .inr ⟨fun u hu => ?_, rfl⟩
    refine (h.offers c _).2 (findSome?_eq_none_iff.mp hf (m.sched.tasks u).policy ?_) u hu rfl
    cases (m.sched.tasks u).policy <;> decide
  | some t =>
    -- the classes before `p` have no candidate
    obtain ⟨before, p, after, hsplit, hp, hbefore⟩ := findSome?_eq_some_iff.mp hf
    obtain ⟨hcand, hpolicy⟩ := (h.offers c p).1 t hp
    refine .inl ⟨t, rfl, hcand, fun u hu => ?_⟩
    have hnot : (m.sched.tasks u).policy ∉ before := fun hmem =>
      (h.offers c _).2 (hbefore _ hmem) u hu rfl
    have hself : p ∉ before := fun hmem => (h.offers c p).2 (hbefore p hmem) t hcand hpolicy
    rw [Task.rank, Task.rank, hpolicy, hsplit, idxOf_append_of_notMem hself,
      idxOf_append_of_notMem hnot, idxOf_cons_self]
    omega

theorem schedule_next {flags : Flags} {s : Sched n} (hc : (s.cpus c).currentTask = some t)
    (hs : m.afterSwitch c (schedulerSchedule s c flags) = some m') :
    (m'.sched.cpus c).currentTask = (schedulerPickNext (requeueCurrent s c) c).2 := by
  unfold schedulerSchedule at hs
  rcases hp : schedulerPickNext (requeueCurrent s c) c with ⟨s', _ | next⟩
  · rw [hp] at hs
    cases hs
  have hcpus : s'.cpus = s.cpus := by
    have := pickNext_cpus (requeueCurrent s c) c
    rw [hp, requeueCurrent_cpus] at this
    exact this
  rw [hp, hc] at hs
  dsimp only at hs
  split at hs
  next heq =>
    obtain rfl := some.inj hs
    simpa [Sched.setCpu, Sched.setTask, hcpus, heq] using hc
  next =>
    obtain rfl := some.inj hs
    exact (finishSwitch_current _ c).trans (by simp [Sched.setCpu])

/-- In every state that safe steps reach. -/
theorem highest_class_runs {m0 : Machine n} (st : Start m0) {ls : List (Label n)}
    (hr : RunWhere step Safe m0 ls m) {flags : Flags} {l : Label n}
    (hl : l = .schedule c flags ∨ l = .preempt c flags) (hs : step m l = some m') :
    Chosen m c (m'.sched.cpus c).currentTask := by
  obtain ⟨ql, h⟩ := hr.invariant (I := fun m => ∃ ql, Inv m ql) ⟨_, st.inv⟩
    fun _ _ _ hex hsafe hs => hex.elim fun _ h => step_inv h hsafe hs
  obtain ⟨t, ht⟩ := h.curSome c
  have hnext : (m'.sched.cpus c).currentTask =
      (schedulerPickNext (requeueCurrent m.sched c) c).2 := by
    rcases hl with rfl | rfl
    · rw [step, show (m.sched.cpus c).currentTask = some t from ht] at hs
      exact schedule_next ht hs
    · rw [step, show (m.sched.cpus c).currentTask = some t from ht] at hs
      dsimp only at hs
      split at hs
      · cases hs
      · exact schedule_next ht hs
  obtain ⟨-, -, -, hcpus, hfirst⟩ := h.requeueCurrent ht
  rw [hnext, pickNext_snd, hcpus, hfirst]
  exact h.chosen c

/-- CPU 0 takes the later, realtime task and leaves the normal one. -/
theorem highest_class_runs_realtime :
    ∃ m, RunWhere step Safe twoCpus [.create 4 .normal 0x5000 0x4000, .makeReady 4,
        .create 5 .realtime 0x6000 0x4000, .makeReady 5] m ∧
      ∃ m', step m (.schedule 0 0x202) = some m' ∧
        Chosen m 0 (m'.sched.cpus 0).currentTask := by
  refine exists_run (fun m => (step m (.schedule 0 0x202)).isSome)
    (by decide +kernel) fun m hr hm => ?_
  obtain ⟨m', hm'⟩ := isSome_iff_exists.mp hm
  exact ⟨m', hm', highest_class_runs twoCpusStart hr (.inl rfl) hm'⟩

end MeatySkeleton.Scheduler
