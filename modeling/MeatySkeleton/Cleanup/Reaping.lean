import MeatySkeleton.Cleanup.Switching
import MeatySkeleton.Cleanup.Creation

/-!
# Every exited task is reaped once

The regions of `task_reaper_thread` keep the invariant, and so does every step of a run in
which the calls of `task_internal_finish_switch` are `Timely`: a task that had not exited
when its stack was left still has not when its state is read. `scheduler_finish_switch`
releases `scheduler_lock` before that read.
-/

namespace MeatySkeleton.Cleanup

open Function Option Lib Scheduler

variable {s s' : Lifecycle} {l : List Context} {t : Context} {i : Nat} {cpu : Nat}

/-- The task the reaper has is exited, allocated and nowhere else. -/
theorem Inv.reaping (h : Inv s l) (hholds : s.reaper.holds i = 1) :
    s.state (.task i) = .zombie ∧ s.allocated i = true ∧ i < s.nextId ∧ s.gone i = 0 := by
  obtain ⟨hz, -, hone⟩ := h.zombie (i := i) (by omega)
  have hgone : s.gone i = 0 := by omega
  refine ⟨hz, ?_, ?_, hgone⟩
  · by_contra hfree
    rw [Lifecycle.gone, if_pos ⟨hz, by simpa using hfree⟩] at hgone
    cases hgone
  · by_contra hlt
    rw [(h.fresh i (Nat.le_of_not_lt hlt)).2] at hz
    cases hz

/-- Until the reaper has released it, every task has its address space. -/
theorem Inv.hasSpace (h : Inv s l)
    (hreaper : (∀ p, s.reaper ≠ .released i p) ∧ s.reaper ≠ .dropped i)
    (hallocated : s.allocated i = true) : s.space i ≠ none := by
  intro hnone
  rcases h.spaced i hallocated hnone with ⟨p, hp⟩ | hp
  · exact hreaper.1 p hp
  · exact hreaper.2 hp

/-- The invariant with the place of the reaper written out. -/
theorem Inv.reaperAt {r : Reaper} (h : Inv s l) (hreaper : s.reaper = r) :
    Inv { s with reaper := r } l := by
  subst hreaper
  exact h

theorem Inv.takePermit (h : Inv s l) (hreaper : s.reaper = .waiting) (hpermits : s.permits ≠ 0) :
    Inv { s with permits := s.permits - 1, reaper := .permitted } l := by
  refine { h.reaperAt hreaper with
    popped := fun _ hr => (by cases hr), permits := ?_, spaced := ?_, stripped := trivial }
  · have hold := h.permits
    rw [hreaper] at hold
    dsimp only [Reaper.permit] at hold ⊢
    omega
  · exact fun i hi hnone => absurd hnone (h.hasSpace (by simp [hreaper]) hi)

theorem cleanupQueuePop_spec {queue : CleanupQueue}
    (h : SQueue queue.next queue.head queue.tail (t :: l)) :
    ∃ queue', cleanupQueuePop queue = (queue', some t) ∧
      SQueue queue'.next queue'.head queue'.tail l ∧ queue'.pending = queue.pending ∧
      queue'.totalReaped = queue.totalReaped := by
  rw [cleanupQueuePop, h.linked.1]
  exact ⟨_, rfl, h.pop, rfl, rfl⟩

section

variable (h : Inv s l)

include h

/-- A permit stands for a task in the queue. -/
theorem Inv.pop (hreaper : s.reaper = .permitted) :
    ∃ t l', l = t :: l' ∧ ∃ queue, cleanupQueuePop s.queue = (queue, some t) ∧
      Inv { s with queue, reaper := .popped t } l' := by
  cases l with
  | nil =>
    have hnone := h.permits
    rw [hreaper, List.length_nil] at hnone
    dsimp only [Reaper.permit] at hnone
    omega
  | cons t l =>
    obtain ⟨queue, hpop, hqueue, hpending, htotal⟩ := cleanupQueuePop_spec h.queue
    refine ⟨t, l, rfl, queue, hpop, ?_⟩
    obtain ⟨id, rfl⟩ := h.queued t List.mem_cons_self
    have hcount : ∀ i, (Context.task id :: l).count (.task i) =
        l.count (.task i) + (Context.task id).isTask i := by
      intro i
      rw [List.count_cons, Context.isTask]
      simp only [beq_iff_eq]
    have hnone : ∀ i, s.reaper.holds i = 0 := fun i => by rw [hreaper]; rfl
    refine { h.reaperAt hreaper with
      queue := hqueue, places := ?_, queued := ?_, popped := ?_, permits := ?_, pending := ?_
      spaced := ?_, stripped := trivial, pushes := ?_, totalReaped := ?_ }
    · intro i
      have hplaces := h.places i
      rw [Lifecycle.places, hcount, hnone] at hplaces
      rw [Lifecycle.places]
      show s.onStack i + s.leaving i + _ + Context.isTask i _ + s.gone i =
        placed (s.state (.task i))
      omega
    · exact fun u hu => h.queued u (List.mem_cons_of_mem _ hu)
    · intro u hu
      exact ⟨id, (Reaper.popped.inj hu).symm⟩
    · have hold := h.permits
      rw [hreaper, List.length_cons] at hold
      dsimp only [Reaper.permit] at hold ⊢
      omega
    · have hold := h.pending
      rw [hreaper, List.length_cons] at hold
      dsimp only [Reaper.busy] at hold ⊢
      omega
    · exact fun i hi hnone => absurd hnone (h.hasSpace (by simp [hreaper]) hi)
    · intro i
      have hpushes := h.pushes i
      rw [hcount, hnone] at hpushes
      show _ = _ + Context.isTask i _ + s.gone i
      dsimp only
      omega
    · have hold := h.totalReaped
      rw [hreaper] at hold
      dsimp only
      rwa [htotal]

/-- The task is taken off its process; nothing goes wrong. -/
theorem Inv.detach {id : Nat} (hreaper : s.reaper = .popped (.task id)) :
    ∃ s', reaperStep s = some s' ∧ Inv s' l := by
  obtain ⟨hz, hallocated, hid, -⟩ := h.reaping (i := id) (by rw [hreaper]; exact isTask_self id)
  have hprocess := tally_holder_none s.process hid
  have hholds : ∀ i, (Reaper.detached id (s.process id)).holds i = s.reaper.holds i := by
    intro i
    rw [hreaper]
    show one id i = Context.isTask i _
    rw [one, Context.isTask]
    simp only [Context.task.injEq]
  have hstep : reaperStep s = some
      { s with
        process := update s.process id none
        liveThreads := letGo (fun _ => false) s.liveThreads (s.process id)
        reaper := .detached id (s.process id) } := by
    rw [reaperStep, hreaper]
    dsimp only
    rw [if_neg (not_not_intro hz)]
    cases hp : s.process id with
    | none => rfl
    | some p =>
      have hpos := tally_holder_pos hid hp
      have hthreads : s.liveThreads p ≠ 0 := by
        rw [h.liveThreads]
        omega
      have hdetach := processThreadDetach_eq
        (s := { s with process := update s.process id none }) hthreads
      rw [hreaper] at hdetach
      show some ({ processThreadDetach _ p with reaper := _ } : Lifecycle) = _
      rw [hdetach]
  refine ⟨_, hstep, { h.reaperAt hreaper with
    places := ?_, popped := fun _ hr => (by cases hr), bare := ?_, spaced := ?_
    stripped := update_self .., processRefs := ?_, liveThreads := ?_, pushes := ?_ }⟩
  · intro i
    rw [Lifecycle.places]
    dsimp only
    rw [hholds]
    exact h.places i
  · intro i hi
    obtain ⟨hspace, hnone⟩ := h.bare i hi
    refine ⟨hspace, ?_⟩
    have hne : i ≠ id := by
      rintro rfl
      have hfree : s.allocated i = false := hi
      rw [hallocated] at hfree
      cases hfree
    exact (update_of_ne hne ..).trans hnone
  · exact fun i hi hnone => absurd hnone (h.hasSpace (by simp [hreaper]) hi)
  · intro p hp
    have hrefs := h.processRefs p hp
    have hsplit := hprocess p
    rw [hreaper] at hrefs
    dsimp only [Reaper.processRef] at hrefs ⊢
    rw [hrefs, ← hsplit, holder]
    cases s.process id with
    | none => rfl
    | some q =>
      show _ + 0 = _ + one q p
      rw [one]
      simp only [some.injEq]
      omega
  · intro p
    have hthreads := h.liveThreads p
    have hsplit := hprocess p
    rw [holder] at hsplit
    dsimp only
    rw [letGo_apply _ rfl]
    omega
  · intro i
    dsimp only
    rw [hholds]
    exact h.pushes i

/-- The reference to the address space is dropped; the count was not zero. -/
theorem Inv.releaseSpace {id : Nat} {process : Option Nat}
    (hreaper : s.reaper = .detached id process) : ∃ s', reaperStep s = some s' ∧ Inv s' l := by
  have hone : s.reaper.holds id = 1 := by
    rw [hreaper]
    exact one_self id
  obtain ⟨-, hallocated, hid, -⟩ := h.reaping hone
  have hspace := tally_holder_none s.space hid
  cases ha : s.space id with
  | none => exact absurd ha (h.hasSpace (by simp [hreaper]) hallocated)
  | some a =>
    have hpos := tally_holder_pos hid ha
    have hstep : reaperStep s = some
        { s with
          space := update s.space id none
          spaceRefs := letGo s.kernelOnly s.spaceRefs (s.space id)
          reaper := .released id process } := by
      rw [reaperStep, hreaper]
      dsimp only
      rw [ha]
      dsimp only
      rw [addressSpaceRelease_eq fun hkernel => ?_]
      · rfl
      · show s.spaceRefs a ≠ 0
        rw [h.spaceRefs a (kernelOnly_false.mp hkernel)]
        omega
    have hstripped := h.stripped
    rw [hreaper] at hstripped
    refine ⟨_, hstep, { h.reaperAt hreaper with
      popped := fun _ hr => (by cases hr), bare := ?_, spaced := ?_
      stripped := ⟨hstripped, update_self ..⟩, spaceRefs := ?_, processRefs := ?_ }⟩
    · intro i hi
      obtain ⟨hnone, hprocess⟩ := h.bare i hi
      have hne : i ≠ id := by
        rintro rfl
        have hfree : s.allocated i = false := hi
        rw [hallocated] at hfree
        cases hfree
      exact ⟨(update_of_ne hne ..).trans hnone, hprocess⟩
    · intro i hi hnone
      by_cases hne : i = id
      · subst hne
        exact .inl ⟨process, rfl⟩
      · have hspace : s.space i = none := (update_of_ne hne ..).symm.trans hnone
        exact absurd hspace (h.hasSpace (by simp [hreaper]) hi)
    · intro b hb
      have hrefs := h.spaceRefs b hb
      have hsplit := hspace b
      rw [holder] at hsplit
      have hcounts : s.kernelOnly b = false := kernelOnly_false.mpr hb
      dsimp only
      rw [letGo_apply _ hcounts]
      omega
    · have hold := h.processRefs
      rw [hreaper] at hold
      cases process <;> exact hold

/-- The reference to the process is dropped; the count was not zero. -/
theorem Inv.releaseProcess {id : Nat} {process : Option Nat}
    (hreaper : s.reaper = .released id process) : ∃ s', reaperStep s = some s' ∧ Inv s' l := by
  have hstep : reaperStep s = some
      { s with
        processRefs := letGo s.immortal s.processRefs process
        reaper := .dropped id } := by
    rw [reaperStep, hreaper]
    dsimp only
    cases process with
    | none => rfl
    | some p =>
      show some ({ processRelease s p with reaper := _ } : Lifecycle) = _
      rw [processRelease_eq fun himmortal => ?_]
      have hrefs := h.processRefs p himmortal
      rw [hreaper] at hrefs
      dsimp only [Reaper.processRef] at hrefs
      rw [one_self] at hrefs
      omega
  have hstripped := h.stripped
  rw [hreaper] at hstripped
  refine ⟨_, hstep, { h.reaperAt hreaper with
    popped := fun _ hr => (by cases hr), spaced := ?_, stripped := hstripped, processRefs := ?_ }⟩
  · intro i hi hnone
    have hold := h.spaced i hi hnone
    rw [hreaper] at hold
    rcases hold with ⟨p, hp⟩ | hp
    · obtain ⟨rfl, -⟩ := Reaper.released.inj hp
      exact .inr rfl
    · cases hp
  · intro p hp
    have hrefs := h.processRefs p hp
    rw [hreaper] at hrefs
    dsimp only
    rw [letGo_apply _ hp, hrefs]
    cases process with
    | none => rfl
    | some q =>
      show _ + one q p - _ = _ + 0
      rw [one]
      simp only [some.injEq]
      omega

/-- The `task_t` is freed. -/
theorem Inv.free {id : Nat} (hreaper : s.reaper = .dropped id) :
    Inv
      { s with
        allocated := update s.allocated id false
        reaper := .freed
        reaps := update s.reaps id (s.reaps id + 1) } l := by
  have hone : s.reaper.holds id = 1 := by
    rw [hreaper]
    exact one_self id
  obtain ⟨hz, hallocated, hid, hgone⟩ := h.reaping hone
  have hstripped := h.stripped
  rw [hreaper] at hstripped
  have hgone' : ∀ i, ({ s with allocated := update s.allocated id false } : Lifecycle).gone i =
      s.gone i + s.reaper.holds i := by
    intro i
    rw [hreaper]
    show _ = _ + one id i
    by_cases hi : id = i
    · subst hi
      rw [hgone, one_self, Lifecycle.gone, if_pos ⟨hz, update_self ..⟩]
    · rw [one_ne hi, Lifecycle.gone]
      simp only [update_of_ne (Ne.symm hi)]
      rfl
  refine { h.reaperAt hreaper with
    places := ?_, popped := fun _ hr => (by cases hr), live := ?_, fresh := ?_, known := ?_, bare := ?_
    spaced := ?_, stripped := trivial, pushes := ?_, reaps := ?_, totalReaped := ?_ }
  · intro i
    have hplaces := h.places i
    have hnew := hgone' i
    rw [Lifecycle.places] at hplaces ⊢
    show s.onStack i + s.leaving i + _ + 0 +
      ({ s with allocated := update s.allocated id false } : Lifecycle).gone i =
        placed (s.state (.task i))
    omega
  · have hold := h.live
    have hfree := tally_range_update (fun i => if s.allocated i then 1 else 0)
      (fun i => if update s.allocated id false i then 1 else 0) hid
      fun i hi => by rw [update_of_ne hi]
    rw [update_self, hallocated] at hfree
    rw [hreaper] at hold
    simp only [if_true, Bool.false_eq_true, if_false] at hfree
    dsimp only [Reaper.counted] at hold ⊢
    omega
  · intro i hi
    obtain ⟨hfree, hnew⟩ := h.fresh i hi
    have hne : i ≠ id := by
      intro he
      rw [he] at hi
      exact absurd hid (Nat.not_lt_of_le hi)
    exact ⟨(update_of_ne hne ..).trans hfree, hnew⟩
  · intro i hi
    by_cases hne : i = id
    · subst hne
      exact .inr hz
    · exact h.known i ((update_of_ne hne ..).symm.trans hi)
  · intro i hi
    by_cases hne : i = id
    · subst hne
      exact ⟨hstripped.2, hstripped.1⟩
    · exact h.bare i ((update_of_ne hne ..).symm.trans hi)
  · intro i hi hnone
    have hne : i ≠ id := by
      intro he
      have htrue : update s.allocated id false i = true := hi
      rw [he, update_self] at htrue
      cases htrue
    have hold := h.spaced i ((update_of_ne hne ..).symm.trans hi) hnone
    rw [hreaper] at hold
    rcases hold with ⟨p, hp⟩ | hp
    · cases hp
    · exact absurd (Reaper.dropped.inj hp).symm hne
  · intro i
    have hpushes := h.pushes i
    have hnew := hgone' i
    show _ = _ + 0 + ({ s with allocated := update s.allocated id false } : Lifecycle).gone i
    dsimp only
    omega
  · intro i
    have hreaps := h.reaps i
    refine Eq.trans ?_ (hgone' i).symm
    rw [hreaper, ← hreaps]
    show update s.reaps id _ i = _ + one id i
    by_cases hi : i = id
    · subst hi
      rw [update_self, one_self]
    · rw [update_of_ne hi, one_ne (Ne.symm hi)]
      rfl
  · have hold := h.totalReaped
    have hcount := tally_range_update s.reaps
      (update s.reaps id (s.reaps id + 1)) hid fun i hi => update_of_ne hi ..
    rw [update_self] at hcount
    rw [hreaper] at hold
    dsimp only [Reaper.unrecorded] at hold ⊢
    omega

theorem Inv.uncount (hreaper : s.reaper = .freed) :
    Inv { s with live := s.live - 1, reaper := .uncounted } l := by
  refine { h.reaperAt hreaper with
    popped := fun _ hr => (by cases hr), live := ?_, spaced := ?_, stripped := trivial }
  · have hold := h.live
    rw [hreaper] at hold
    dsimp only [Reaper.counted] at hold ⊢
    omega
  · exact fun i hi hnone => absurd hnone (h.hasSpace (by simp [hreaper]) hi)

theorem Inv.record (hreaper : s.reaper = .uncounted) :
    Inv
      { s with
        queue :=
          { s.queue with pending := s.queue.pending - 1, totalReaped := s.queue.totalReaped + 1 }
        reaper := .waiting } l := by
  refine { h.reaperAt hreaper with
    popped := fun _ hr => (by cases hr), pending := ?_, spaced := ?_, stripped := trivial
    totalReaped := ?_ }
  · have hold := h.pending
    rw [hreaper] at hold
    dsimp only [Reaper.busy] at hold ⊢
    omega
  · exact fun i hi hnone => absurd hnone (h.hasSpace (by simp [hreaper]) hi)
  · have hold := h.totalReaped
    rw [hreaper] at hold
    dsimp only [Reaper.unrecorded] at hold ⊢
    omega

/-- Every region of the reaper keeps the invariant, and none of its checks fails. -/
theorem Inv.reap (hstep : reaperStep s = some s') : ∃ l', Inv s' l' := by
  cases hreaper : s.reaper with
  | waiting =>
    rw [reaperStep, hreaper] at hstep
    obtain ⟨hpermits, hstep⟩ := ite_none_left_eq_some.mp hstep
    obtain rfl := some.inj hstep
    exact ⟨l, h.takePermit hreaper hpermits⟩
  | permitted =>
    obtain ⟨t, l', -, queue, hpop, hinv⟩ := h.pop hreaper
    rw [reaperStep, hreaper] at hstep
    dsimp only at hstep
    rw [hpop] at hstep
    obtain rfl := some.inj hstep
    exact ⟨l', hinv⟩
  | popped t =>
    obtain ⟨id, rfl⟩ := h.popped t hreaper
    obtain ⟨s1, hs1, hinv⟩ := h.detach hreaper
    obtain rfl := some.inj (hs1.symm.trans hstep)
    exact ⟨l, hinv⟩
  | detached id process =>
    obtain ⟨s1, hs1, hinv⟩ := h.releaseSpace hreaper
    obtain rfl := some.inj (hs1.symm.trans hstep)
    exact ⟨l, hinv⟩
  | released id process =>
    obtain ⟨s1, hs1, hinv⟩ := h.releaseProcess hreaper
    obtain rfl := some.inj (hs1.symm.trans hstep)
    exact ⟨l, hinv⟩
  | dropped id =>
    rw [reaperStep, hreaper] at hstep
    obtain rfl := some.inj hstep
    exact ⟨l, h.free hreaper⟩
  | freed =>
    rw [reaperStep, hreaper] at hstep
    obtain rfl := some.inj hstep
    exact ⟨l, h.uncount hreaper⟩
  | uncounted =>
    rw [reaperStep, hreaper] at hstep
    obtain rfl := some.inj hstep
    exact ⟨l, h.record hreaper⟩

end

/-- The outgoing task of a switch, if it had not exited, still has not. -/
def Lifecycle.Timely (s : Lifecycle) : Label → Prop
  | .finish _ f => f.stage = .check → f.leftZombie = true ∨ s.state f.previous ≠ .zombie
  | _ => True

instance (a : Label) : Decidable (s.Timely a) := by
  cases a <;> unfold Lifecycle.Timely <;> infer_instance

/-! ## Runs -/

theorem Inv.allocated_of_state (h : Inv s l) (hnew : s.state (.task i) ≠ .new)
    (hzombie : s.state (.task i) ≠ .zombie) : s.allocated i = true := by
  by_contra hfree
  rcases h.known i (by simpa using hfree) with hst | hst
  · exact hnew hst
  · exact hzombie hst

/-- Every timely step keeps the invariant. -/
theorem Inv.step (h : Inv s l) {a : Label} (htimely : s.Timely a) (hstep : s.step a = some s') :
    ∃ l', Inv s' l' := by
  rw [Lifecycle.step, h.halted, if_neg Bool.false_ne_true] at hstep
  cases a with
  | create a =>
    obtain rfl := some.inj hstep
    exact ⟨l, h.allocate a⟩
  | destroy id =>
    obtain ⟨⟨hallocated, hnew⟩, hstep⟩ := ite_none_right_eq_some.mp hstep
    obtain rfl := some.inj hstep
    exact ⟨l, h.destroy hallocated hnew⟩
  | bind id p =>
    obtain ⟨hallocated, hstep⟩ := ite_none_right_eq_some.mp hstep
    obtain rfl := some.inj hstep
    exact ⟨l, h.bind hallocated p⟩
  | publish id =>
    obtain ⟨⟨hallocated, hnew⟩, hstep⟩ := ite_none_right_eq_some.mp hstep
    obtain rfl := some.inj hstep
    refine ⟨l, h.setState (fun hz => by cases hz) fun i hi => ?_⟩
    obtain rfl := Context.task.inj hi
    rw [hnew]
    exact ⟨rfl, fun hr => (by cases hr), hallocated⟩
  | schedule cpu next =>
    obtain ⟨⟨hcpu, hpick⟩, hstep⟩ := ite_none_right_eq_some.mp hstep
    obtain rfl := some.inj hstep
    have hcpus : (requeueCurrent s cpu).cpus = s.cpus := by
      rw [requeueCurrent]
      split <;> rfl
    rw [hcpus] at hcpu
    exact ⟨l, h.schedule hcpu hpick⟩
  | block cpu next blockState =>
    obtain ⟨⟨hcpu, hrun, hidle, hblock⟩, hstep⟩ := ite_none_right_eq_some.mp hstep
    obtain ⟨hpick, hstep⟩ := ite_none_right_eq_some.mp hstep
    obtain rfl := some.inj hstep
    exact ⟨l, h.switch hcpu rfl (.inl ⟨hrun, .inr hblock⟩) hpick⟩
  | wake t =>
    obtain ⟨hblocked, hstep⟩ := ite_none_right_eq_some.mp hstep
    obtain rfl := some.inj hstep
    refine ⟨l, h.setState (fun hz => by cases hz) fun i hi => ?_⟩
    subst hi
    rcases hblocked with hst | hst
    all_goals
      rw [hst]
      exact ⟨rfl, fun hr => (by cases hr), h.allocated_of_state (by simp [hst]) (by simp [hst])⟩
  | exit cpu =>
    cases hcurrent : s.current cpu with
    | task id =>
      simp only [Lifecycle.act, hcurrent] at hstep
      obtain ⟨⟨hcpu, hsettled⟩, hstep⟩ := ite_none_right_eq_some.mp hstep
      obtain rfl := some.inj hstep
      have hrun : s.state (.task id) = .running := by
        simp only [Lifecycle.settled, Bool.and_eq_true, decide_eq_true_eq] at hsettled
        exact hsettled.1
      refine ⟨l, h.setState (fun _ => ⟨id, rfl⟩) fun i hi => ?_⟩
      obtain rfl := Context.task.inj hi
      rw [hrun]
      exact ⟨rfl, fun hr => (by cases hr), h.allocated_of_state (by simp [hrun]) (by simp [hrun])⟩
    | bootstrap c => simp [Lifecycle.act, hcurrent] at hstep
    | idle c => simp [Lifecycle.act, hcurrent] at hstep
    | reaper => simp [Lifecycle.act, hcurrent] at hstep
  | finish cpu f =>
    obtain ⟨⟨-, -, hf⟩, hstep⟩ := ite_none_right_eq_some.mp hstep
    obtain rfl := some.inj hstep
    exact h.finish hf htimely
  | reap cpu =>
    obtain ⟨-, hstep⟩ := ite_none_right_eq_some.mp hstep
    exact h.reap hstep

variable {cpus kernelSpace : Nat} {immortal : Nat → Bool} {processSpace : Nat → Nat}
  {labels : List Label}

theorem Inv.start (cpus kernelSpace : Nat) (immortal : Nat → Bool) (processSpace : Nat → Nat) :
    Inv (Lifecycle.start cpus kernelSpace immortal processSpace) [] where
  halted := rfl
  queue := squeue_nil
  places := by
    intro i
    have hstack : (Lifecycle.start cpus kernelSpace immortal processSpace).onStack i = 0 :=
      tally_eq_zero.mpr fun c _ => isTask_ne nofun
    rw [Lifecycle.places, hstack]
    rfl
  running := nofun
  exited := by
    intro t ht
    cases t <;> cases ht
  queued := nofun
  pushing := nofun
  popped := nofun
  permits := rfl
  pending := rfl
  live := rfl
  fresh := fun _ _ => ⟨rfl, rfl⟩
  known := fun _ _ => .inl rfl
  bare := fun _ _ => ⟨rfl, rfl⟩
  spaced := nofun
  stripped := trivial
  spaceRefs := fun _ _ => rfl
  processRefs := fun _ _ => rfl
  liveThreads := fun _ => rfl
  pushes := fun _ => rfl
  reaps := fun _ => rfl
  totalReaped := rfl

/-- Every state of a run of timely steps has its queue. -/
theorem Inv.run (h : RunWhere Lifecycle.step Lifecycle.Timely
    (Lifecycle.start cpus kernelSpace immortal processSpace) labels s) : ∃ l, Inv s l :=
  h.invariant (I := fun s => ∃ l, Inv s l) ⟨[], .start ..⟩
    fun _ _ _ ⟨_, hinv⟩ htimely hstep => hinv.step htimely hstep

/-- What holds between any two steps; `l` are the tasks in the cleanup queue. -/
structure Lifecycle.Kept (s : Lifecycle) (l : List Context) : Prop where
  /-- The links lead through `l`, each task once. -/
  queue : SQueue s.queue.next s.queue.head s.queue.tail l
  queued : ∀ t ∈ l, ∃ i, t = .task i ∧ s.state t = .zombie
  /-- An exited task is on its stack, being handed over, queued, with the reaper, or freed. -/
  exited : ∀ i, s.state (.task i) = .zombie →
    s.onStack i + s.leaving i + l.count (.task i) + s.reaper.holds i + s.gone i = 1
  /-- Once its stack is left and it is handed over, it was queued exactly once. -/
  pushes : ∀ i, s.state (.task i) = .zombie → s.onStack i + s.leaving i + s.pushes i = 1
  alive : ∀ i, s.state (.task i) ≠ .zombie → s.pushes i = 0 ∧ s.reaps i = 0
  left : ∀ i, 0 < s.pushes i → ∀ cpu < s.cpus, s.current cpu ≠ .task i
  /-- Reaped once, and only what was queued. -/
  reaps : ∀ i, s.reaps i = s.gone i ∧ s.reaps i ≤ s.pushes i
  pending : s.queue.pending = l.length + s.reaper.busy
  totalReaped : s.queue.totalReaped + s.reaper.unrecorded = tally s.reaps (List.range s.nextId)
  /-- Every queued task has its permit, or one is about to be signalled. -/
  permits : l.length = s.permits + tally Finish.signals s.finishes + s.reaper.permit
  /-- Two special tasks for each CPU, the reaper, and the tasks created and not yet reaped. -/
  live : s.live = 2 * s.cpus + 1 + tally (fun i => if s.allocated i then 1 else 0)
    (List.range s.nextId) + s.reaper.counted
  /-- Each reference that is counted is held by a task, and a reaped task holds none. -/
  spaceRefs : ∀ a, a ≠ s.kernelSpace →
    s.spaceRefs a = tally (holder s.space a) (List.range s.nextId)
  processRefs : ∀ p, s.immortal p = false →
    s.processRefs p = tally (holder s.process p) (List.range s.nextId) + s.reaper.processRef p
  liveThreads : ∀ p, s.liveThreads p = tally (holder s.process p) (List.range s.nextId)
  dropped : ∀ i, 0 < s.reaps i → s.space i = none ∧ s.process i = none
  halted : s.halted = false

theorem Inv.kept (h : Inv s l) : s.Kept l :=
  { h with
    queued := by
      intro t ht
      obtain ⟨i, rfl⟩ := h.queued t ht
      have hcount := List.count_pos_iff.mpr ht
      obtain ⟨hz, -⟩ := h.zombie (i := i) (by omega)
      exact ⟨i, rfl, hz⟩
    exited := by
      intro i hz
      have hplaces := h.places i
      rwa [hz] at hplaces
    pushes := by
      intro i hz
      have hplaces := h.places i
      rw [hz, Lifecycle.places] at hplaces
      rw [h.pushes]
      dsimp only [placed] at hplaces
      omega
    alive := by
      intro i hz
      have hnone : s.leaving i + l.count (.task i) + s.reaper.holds i + s.gone i = 0 := by
        by_contra hpos
        exact hz (h.zombie (by omega)).1
      rw [h.pushes, h.reaps]
      omega
    left := by
      intro i hpos cpu hcpu hcurrent
      rw [h.pushes] at hpos
      have honce := onStack_pos hcpu hcurrent
      obtain ⟨-, hnone, -⟩ := h.zombie (i := i) (by omega)
      omega
    reaps := by
      intro i
      refine ⟨h.reaps i, ?_⟩
      rw [h.reaps, h.pushes]
      omega
    dropped := by
      intro i hpos
      rw [h.reaps, Lifecycle.gone] at hpos
      split at hpos
      next hgone => exact h.bare i hgone.2
      next => cases hpos }

/-- In a run of timely steps every exited task is queued and reaped once. -/
theorem exited_tasks_reaped_once (h : RunWhere Lifecycle.step Lifecycle.Timely
    (Lifecycle.start cpus kernelSpace immortal processSpace) labels s) : ∃ l, s.Kept l := by
  obtain ⟨l, hinv⟩ := Inv.run h
  exact ⟨l, hinv.kept⟩

/-- A task of a user process exits and is reaped. -/
theorem exited_tasks_reaped_once_exit :
    ∃ s, RunWhere Lifecycle.step Lifecycle.Timely (Lifecycle.start 1 0 (fun _ => false) fun _ => 1)
        [.create 1, .bind 0 5, .publish 0, .schedule 0 (.task 0),
          .finish 0 ⟨.task 0, .bootstrap 0, false, .check⟩, .exit 0, .schedule 0 .reaper,
          .finish 0 ⟨.reaper, .task 0, true, .check⟩, .finish 0 ⟨.reaper, .task 0, true, .push⟩,
          .finish 0 ⟨.reaper, .task 0, true, .signal⟩, .reap 0, .reap 0, .reap 0, .reap 0, .reap 0,
          .reap 0, .reap 0, .reap 0] s ∧
      s.pushes 0 = 1 ∧ s.reaps 0 = 1 ∧ s.spaceRefs 1 = 0 ∧ s.processRefs 5 = 0 ∧ s.live = 3 ∧
      ∃ l, s.Kept l :=
  exists_run (fun s => s.pushes 0 = 1 ∧ s.reaps 0 = 1 ∧ s.spaceRefs 1 = 0 ∧ s.processRefs 5 = 0 ∧
      s.live = 3) (by decide +kernel)
    fun _ hr ⟨hpushes, hreaps, hspace, hprocess, hlive⟩ =>
      ⟨hpushes, hreaps, hspace, hprocess, hlive, exited_tasks_reaped_once hr⟩

/-- A task that was preempted on one CPU exits on another before the first one has read its
state: it is queued while its stack is in use, and queued again when that is left. -/
theorem exited_task_queued_on_stack :
    ∃ s s', Run Lifecycle.step (Lifecycle.start 2 0 (fun _ => false) fun _ => 1)
        [.create 1, .create 1, .publish 0, .publish 1, .schedule 0 .reaper,
          .finish 0 ⟨.reaper, .bootstrap 0, false, .check⟩, .block 0 (.task 0) .blocked,
          .finish 0 ⟨.task 0, .reaper, false, .check⟩, .schedule 0 (.task 1), .schedule 1 (.task 0),
          .finish 1 ⟨.task 0, .bootstrap 1, false, .check⟩, .exit 1,
          .finish 0 ⟨.task 1, .task 0, false, .check⟩, .finish 0 ⟨.task 1, .task 0, false, .push⟩] s ∧
      s.queue.head = some (.task 0) ∧ s.current 1 = .task 0 ∧
      Run Lifecycle.step s [.schedule 1 (.idle 1), .finish 1 ⟨.idle 1, .task 0, true, .check⟩,
        .finish 1 ⟨.idle 1, .task 0, true, .push⟩] s' ∧
      s'.pushes 0 = 2 ∧ s'.queue.pending = 2 := by
  have hrun : ((exec Lifecycle.step (fun _ _ => True)
        (Lifecycle.start 2 0 (fun _ => false) fun _ => 1)
        [.create 1, .create 1, .publish 0, .publish 1, .schedule 0 .reaper,
          .finish 0 ⟨.reaper, .bootstrap 0, false, .check⟩, .block 0 (.task 0) .blocked,
          .finish 0 ⟨.task 0, .reaper, false, .check⟩, .schedule 0 (.task 1), .schedule 1 (.task 0),
          .finish 1 ⟨.task 0, .bootstrap 1, false, .check⟩, .exit 1,
          .finish 0 ⟨.task 1, .task 0, false, .check⟩,
          .finish 0 ⟨.task 1, .task 0, false, .push⟩]).any fun s =>
      decide (s.queue.head = some (.task 0) ∧ s.current 1 = .task 0) &&
        (exec Lifecycle.step (fun _ _ => True) s
          [.schedule 1 (.idle 1), .finish 1 ⟨.idle 1, .task 0, true, .check⟩,
            .finish 1 ⟨.idle 1, .task 0, true, .push⟩]).any fun s' =>
          decide (s'.pushes 0 = 2 ∧ s'.queue.pending = 2)) = true := by decide +kernel
  obtain ⟨s, hexec, hs⟩ := (Option.any_eq_true _ _).mp hrun
  obtain ⟨hmiddle, hrest⟩ := Bool.and_eq_true_iff.mp hs
  obtain ⟨s', hexec', hend⟩ := (Option.any_eq_true _ _).mp hrest
  obtain ⟨hhead, hcurrent⟩ := of_decide_eq_true hmiddle
  exact ⟨s, s', run_of_exec hexec, hhead, hcurrent, run_of_exec hexec', of_decide_eq_true hend⟩

end MeatySkeleton.Cleanup
