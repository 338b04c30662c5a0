import MeatySkeleton.Cleanup.Places

/-!
# Context switches and what finishes them

A switch takes the outgoing task off its stack. If it had exited, it is from then on in the
hands of the `task_internal_finish_switch` of the incoming task, which reads its state and
puts it in the cleanup queue.
-/

namespace MeatySkeleton.Cleanup

open Function List Lib Scheduler
open Finish (handsOver signals)

variable {s s' : Lifecycle} {l : List Context} {t : Context} {i : Nat} {cpu : Nat}

theorem setState_self (s : Lifecycle) (t : Context) (v : TaskState) :
    (s.setState t v).state t = v := update_self ..

variable {v : TaskState}

theorem setState_ne {u : Context} (h : u ≠ t) :
    (s.setState t v).state u = s.state u := update_of_ne h ..

/-- A task keeps its place if it neither starts nor stops to have one. -/
theorem Inv.setState (h : Inv s l) (hexit : v = .zombie → ∃ i, t = .task i)
    (htask : ∀ i, t = .task i →
      placed v = placed (s.state t) ∧ v ≠ .running ∧ s.allocated i = true) :
    Inv (s.setState t v) l := by
  have hgone : ∀ i, (s.setState t v).gone i = s.gone i := by
    intro i
    by_cases hi : t = .task i
    · subst hi
      obtain ⟨-, -, hallocated⟩ := htask i rfl
      rw [Lifecycle.gone, Lifecycle.gone, if_neg (by simp [Lifecycle.setState, hallocated]),
        if_neg (by simp [hallocated])]
    · rw [Lifecycle.gone, setState_ne (Ne.symm hi)]
      rfl
  exact { h with
    places := by
      intro i
      have hplaces := h.places i
      rw [Lifecycle.places] at hplaces ⊢
      rw [hgone]
      refine Eq.trans hplaces ?_
      by_cases hi : t = .task i
      · subst hi
        rw [setState_self, (htask i rfl).1]
      · rw [setState_ne (Ne.symm hi)]
    running := by
      intro i hi
      by_cases hit : t = .task i
      · subst hit
        rw [setState_self] at hi
        exact absurd hi (htask i rfl).2.1
      · rw [setState_ne (Ne.symm hit)] at hi
        exact h.running i hi
    exited := by
      intro u hu
      by_cases hut : u = t
      · subst hut
        rw [setState_self] at hu
        exact hexit hu
      · rw [setState_ne hut] at hu
        exact h.exited u hu
    fresh := by
      intro i hi
      obtain ⟨hallocated, hnew⟩ := h.fresh i hi
      refine ⟨hallocated, ?_⟩
      have hne : .task i ≠ t := by
        intro he
        have hother := (htask i he.symm).2.2
        exact absurd hallocated (by simp [hother])
      rw [setState_ne hne]
      exact hnew
    known := by
      intro i hi
      have hne : .task i ≠ t := by
        intro he
        have hother := (htask i he.symm).2.2
        have hfalse : s.allocated i = false := hi
        rw [hother] at hfalse
        cases hfalse
      rw [setState_ne hne]
      exact h.known i hi
    pushes := by
      intro i
      rw [hgone]
      exact h.pushes i
    reaps := by
      intro i
      rw [hgone]
      exact h.reaps i }

/-- A CPU leaves the stack of its task, whose state is `v` now, for that of another. -/
theorem Inv.leave (h : Inv s l) (hcpu : cpu < s.cpus) (ht : s.current cpu = t)
    (hv : s.state t = .running ∧ (v = .ready ∨ v = .blocked ∨ v = .sleeping) ∨
      v = s.state t ∧ (v = .running → ∀ i, t ≠ .task i))
    {next : Context} (hnext : next ≠ t) (hready : ∀ i, next = .task i → s.state next = .ready) :
    Inv
      { s with
        state := update (update s.state t v) next .running
        current := update s.current cpu next
        finishes := ⟨next, t, decide (v = .zombie), .check⟩ :: s.finishes } l := by
  generalize hs' : ({ s with
    state := update (update s.state t v) next .running
    current := update s.current cpu next
    finishes := ⟨next, t, decide (v = .zombie), .check⟩ :: s.finishes } : Lifecycle) = s'
  have hstate_next : s'.state next = .running := by
    rw [← hs']
    exact update_self ..
  have hstate_left : s'.state t = v := by
    rw [← hs']
    exact (update_of_ne hnext.symm ..).trans (update_self ..)
  have hstate : ∀ u, u ≠ t → u ≠ next → s'.state u = s.state u := by
    intro u hut hun
    rw [← hs']
    exact (update_of_ne hun ..).trans (update_of_ne hut ..)
  -- what is true of the outgoing task, if it is not a special one
  have hout : ∀ i, t = .task i → (s.state t = .running ∨ s.state t = .zombie) ∧ s.onStack i = 1 ∧
      s.leaving i + l.count (.task i) + s.reaper.holds i + s.gone i = 0 := by
    intro i hi
    have hcurrent := h.current hcpu (ht.trans hi)
    rw [hi]
    exact hcurrent
  have hstack : ∀ i, s'.onStack i + t.isTask i = s.onStack i + next.isTask i := by
    intro i
    have hswitch := onStack_switch (i := i) hcpu next
    rw [ht] at hswitch
    rw [← hs']
    exact hswitch
  have hleaving : ∀ i, s'.leaving i = s.leaving i + if v = .zombie then t.isTask i else 0 := by
    intro i
    rw [← hs', Lifecycle.leaving, tally_cons, Nat.add_comm]
    by_cases hz : v = .zombie
    · simp [handsOver, hz, Lifecycle.leaving]
    · simp [handsOver, hz, Lifecycle.leaving]
  have hallocated : s'.allocated = s.allocated := by rw [← hs']
  have hzombie : ∀ u, s'.state u = .zombie ↔ s.state u = .zombie := by
    intro u
    by_cases hun : u = next
    · subst hun
      rw [hstate_next]
      refine ⟨fun hz => (by cases hz), fun hz => ?_⟩
      obtain ⟨i, rfl⟩ := h.exited _ hz
      rw [hready i rfl] at hz
      cases hz
    · by_cases hut : u = t
      · subst hut
        rw [hstate_left]
        rcases hv with ⟨hrun, rfl | rfl | rfl⟩ | ⟨rfl, -⟩
        · simp [hrun]
        · simp [hrun]
        · simp [hrun]
        · rfl
      · rw [hstate u hut hun]
  have hgone : ∀ i, s'.gone i = s.gone i := by
    intro i
    rw [Lifecycle.gone, Lifecycle.gone, hallocated]
    exact if_congr (and_congr (hzombie _) Iff.rfl) rfl rfl
  have hplaces : ∀ i, s'.places l i = placed (s'.state (.task i)) ∧
      (s'.state (.task i) = .running → s'.onStack i = 1) := by
    intro i
    have hold := h.places i
    have hnew := hstack i
    have hreaper : s'.reaper = s.reaper := by rw [← hs']
    rw [Lifecycle.places] at hold ⊢
    rw [hleaving, hgone, hreaper]
    by_cases hit : t = .task i
    · -- the outgoing task
      obtain ⟨-, honce, hnowhere⟩ := hout i hit
      have hne : next ≠ .task i := by rwa [← hit]
      rw [← hit, hstate_left]
      rw [isTask_ne hne, hit, isTask_self] at hnew
      rw [hit, isTask_self]
      rcases hv with ⟨-, hv⟩ | ⟨hv, hrun⟩
      · rcases hv with rfl | rfl | rfl
        all_goals
          simp only [placed, reduceCtorEq, if_false, false_implies, and_true]
          omega
      · have hnot : v ≠ .running := fun he => hrun he i hit
        have hz : v = .zombie := by
          rcases (hout i hit).1 with hst | hst
          · exact absurd (hv.trans hst) hnot
          · exact hv.trans hst
        rw [hz, if_pos rfl]
        refine ⟨?_, fun hrun => by cases hrun⟩
        show _ = 1
        omega
    · rw [isTask_ne hit] at hnew ⊢
      rw [ite_self, Nat.add_zero]
      by_cases hin : next = .task i
      · -- the incoming task was READY, so it was nowhere
        rw [← hin, hstate_next, hin]
        rw [← hin, hready i hin, hin] at hold
        rw [hin, isTask_self] at hnew
        dsimp only [placed] at hold ⊢
        omega
      · rw [isTask_ne hin] at hnew
        rw [hstate _ (Ne.symm hit) (Ne.symm hin)]
        refine ⟨by omega, fun hrun => ?_⟩
        have hone := h.running i hrun
        omega
  -- neither task is one that was never published or was freed
  have hother : ∀ i, s.state (.task i) = .new ∨ s.state (.task i) = .zombie →
      s'.state (.task i) = s.state (.task i) := by
    intro i hi
    rcases hi with hi | hi
    · have hnot_next : .task i ≠ next := by
        rintro rfl
        rw [hready i rfl] at hi
        cases hi
      have hnot_left : .task i ≠ t := by
        rintro rfl
        rw [hi] at hout
        rcases (hout i rfl).1 with hst | hst <;> cases hst
      exact hstate _ hnot_left hnot_next
    · rw [hi]
      exact (hzombie _).mpr hi
  subst hs'
  exact { h with
    places := fun i => (hplaces i).1
    running := fun i => (hplaces i).2
    exited := fun u hu => h.exited u ((hzombie u).mp hu)
    pushing := by
      intro f hf hstage
      rcases mem_cons.mp hf with rfl | hf
      · cases hstage
      · exact h.pushing f hf hstage
    permits := by
      rw [tally_cons, signals, if_neg (by simp), Nat.zero_add]
      exact h.permits
    fresh := by
      intro i hi
      obtain ⟨hfree, hnew⟩ := h.fresh i hi
      exact ⟨hfree, (hother i (.inl hnew)).trans hnew⟩
    known := by
      intro i hi
      rw [hother i (h.known i hi)]
      exact h.known i hi
    pushes := by
      intro i
      rw [hgone]
      exact h.pushes i
    reaps := by
      intro i
      rw [hgone]
      exact h.reaps i }

/-- A switch away from the current task, whose state is `v` now. -/
theorem Inv.switch (h : Inv s l) (hcpu : cpu < s.cpus) (ht : s.current cpu = t)
    (hv : s.state t = .running ∧ (v = .ready ∨ v = .blocked ∨ v = .sleeping) ∨
      v = s.state t ∧ (v = .running → ∀ i, t ≠ .task i))
    {next : Context} (hpick : (s.setState t v).mayPick cpu next = true) :
    Inv (switchTo (s.setState t v) cpu next) l := by
  have hready : ∀ i, next = .task i → (s.setState t v).state next = .ready := by
    intro i hi
    rw [Lifecycle.mayPick, hi] at hpick
    rw [hi]
    simpa [Context.isIdle] using hpick
  have hcurrent : (s.setState t v).current cpu = t := ht
  rw [switchTo, hcurrent, setState_self]
  by_cases hnext : next = t
  · rw [if_pos hnext, hnext]
    by_cases htask : ∃ i, t = .task i
    · obtain ⟨i, hi⟩ := htask
      -- back on the task that was just queued
      have hback := hready i (hnext.trans hi)
      rw [hnext, setState_self] at hback
      have hrun : s.state t = .running := by
        rcases hv with ⟨hrun, -⟩ | ⟨hv, -⟩
        · exact hrun
        · rw [hback] at hv
          rcases (h.current hcpu (ht.trans hi)).1 with hst | hst
          all_goals
            rw [← hi, ← hv] at hst
            cases hst
      have hsame : (s.setState t v).setState t .running = s := by
        rw [Lifecycle.setState, Lifecycle.setState, update_idem, ← hrun, update_eq_self]
      rw [hsame]
      exact h
    · have hnone : ∀ i, t ≠ .task i := fun i hi => htask ⟨i, hi⟩
      have hzombie : v ≠ .zombie := by
        rintro rfl
        rcases hv with ⟨-, hv⟩ | ⟨hv, -⟩
        · rcases hv with hv | hv | hv <;> cases hv
        · exact htask (h.exited t hv.symm)
      refine (h.setState (fun hz => absurd hz hzombie) fun i hi => ?_).setState nofun fun i hi => ?_
      · exact absurd hi (hnone i)
      · exact absurd hi (hnone i)
  · rw [if_neg hnext]
    refine h.leave hcpu ht hv hnext fun i hi => ?_
    have hst := hready i hi
    rwa [setState_ne hnext] at hst

/-- `scheduler_schedule`. -/
theorem Inv.schedule (h : Inv s l) (hcpu : cpu < s.cpus) {next : Context}
    (hpick : (requeueCurrent s cpu).mayPick cpu next = true) :
    Inv (switchTo (requeueCurrent s cpu) cpu next) l := by
  rw [requeueCurrent] at hpick ⊢
  split at hpick
  next hagain =>
    rw [if_pos hagain]
    exact h.switch hcpu rfl (.inl ⟨hagain.2.2, .inl rfl⟩) hpick
  next hstay =>
    rw [if_neg hstay]
    have hsame : s.setState (s.current cpu) (s.state (s.current cpu)) = s := by
      rw [Lifecycle.setState, update_eq_self]
    rw [← hsame] at hpick
    have hswitch := h.switch hcpu rfl (.inr ⟨rfl, fun hrun i hi => ?_⟩) hpick
    · rwa [hsame] at hswitch
    · rw [hi] at hrun hstay
      exact hstay ⟨rfl, nofun, hrun⟩

/-! ## Finishing a switch -/

theorem cleanupQueuePush_spec {queue : CleanupQueue} (h : SQueue queue.next queue.head queue.tail l)
    (ht : t ∉ l) :
    SQueue (cleanupQueuePush queue t).next (cleanupQueuePush queue t).head
        (cleanupQueuePush queue t).tail (l ++ [t]) ∧
      (cleanupQueuePush queue t).pending = queue.pending + 1 ∧
      (cleanupQueuePush queue t).totalReaped = queue.totalReaped := by
  have hpush := h.push ht
  have hhead := h.linked.head_eq
  have htail := h.tail_eq
  unfold cleanupQueuePush
  dsimp only
  split
  next last hlast =>
    refine ⟨?_, rfl, rfl⟩
    rw [hlast] at hpush htail
    cases l with
    | nil => cases htail
    | cons x l =>
      rw [hhead] at hpush ⊢
      exact hpush
  next hnone =>
    refine ⟨?_, rfl, rfl⟩
    obtain rfl : l = [] := getLast?_eq_none_iff.mp (htail.symm.trans hnone)
    rw [hnone, hhead] at hpush
    exact hpush

theorem handsOver_eq {f : Finish} (h : f.stage = .push ∨ f.stage = .check ∧ f.leftZombie = true) :
    f.handsOver i = f.previous.isTask i := if_pos h

theorem handsOver_signal {f : Finish} (h : f.stage = .signal) : f.handsOver i = 0 :=
  if_neg (by simp [h])

variable {f : Finish}

theorem handsOver_erase (hf : f ∈ s.finishes) (i : Nat) :
    f.handsOver i + tally (handsOver i) (s.finishes.erase f) = s.leaving i :=
  tally_erase _ hf

theorem signals_erase (hf : f ∈ s.finishes) (hstage : f.stage ≠ .signal) :
    tally signals (s.finishes.erase f) = tally signals s.finishes := by
  have hsplit := tally_erase signals hf
  rwa [signals, if_neg hstage, Nat.zero_add] at hsplit

/-- There is nothing to do for a task that has not exited. -/
theorem Inv.finishAlive (h : Inv s l) (hf : f ∈ s.finishes) (hstage : f.stage = .check)
    (halive : s.state f.previous ≠ .zombie) :
    Inv { s with finishes := s.finishes.erase f } l := by
  have hnone : ∀ i, f.handsOver i = 0 := by
    intro i
    by_contra hpos
    have hle := le_tally (handsOver i) hf
    obtain ⟨hz, -⟩ := h.zombie (i := i) (by rw [Lifecycle.leaving]; omega)
    have htask : f.previous = .task i := by
      by_contra hne
      rw [handsOver, isTask_ne hne, ite_self] at hpos
      exact hpos rfl
    rw [htask] at halive
    exact halive hz
  refine { h with places := ?_, pushing := ?_, permits := ?_ }
  · intro i
    have hleaving := handsOver_erase hf i
    rw [hnone, Nat.zero_add] at hleaving
    rw [Lifecycle.places, Lifecycle.leaving]
    dsimp only
    rw [hleaving]
    exact h.places i
  · exact fun g hg => h.pushing g (mem_of_mem_erase hg)
  · dsimp only
    rw [signals_erase hf (by simp [hstage])]
    exact h.permits

/-- The task that exited is about to be queued. -/
theorem Inv.finishExited (h : Inv s l) (hf : f ∈ s.finishes) (hstage : f.stage = .check)
    (hleft : f.leftZombie = true) (hexited : s.state f.previous = .zombie) :
    Inv { s with finishes := { f with stage := .push } :: s.finishes.erase f } l := by
  refine { h with places := ?_, pushing := ?_, permits := ?_ }
  · intro i
    have hleaving := handsOver_erase hf i
    rw [handsOver_eq (.inr ⟨hstage, hleft⟩)] at hleaving
    rw [Lifecycle.places, Lifecycle.leaving]
    dsimp only
    rw [tally_cons, handsOver_eq (.inl rfl)]
    dsimp only
    rw [hleaving]
    exact h.places i
  · intro g hg hpush
    rcases mem_cons.mp hg with rfl | hg
    · exact h.exited _ hexited
    · exact h.pushing g (mem_of_mem_erase hg) hpush
  · dsimp only
    rw [tally_cons, signals_erase hf (by simp [hstage]), signals, if_neg (by simp), Nat.zero_add]
    exact h.permits

/-- The task goes from these hands to the end of the queue. -/
theorem Inv.finishPush (h : Inv s l) {id : Nat} (hf : f ∈ s.finishes) (hstage : f.stage = .push)
    (hid : f.previous = .task id) :
    Inv
      { s with
        queue := cleanupQueuePush s.queue (.task id)
        finishes := { f with previous := .task id, stage := .signal } :: s.finishes.erase f
        pushes := update s.pushes id (s.pushes id + 1) } (l ++ [.task id]) := by
  have hleaving : ∀ i, (Context.task id).isTask i +
      tally (handsOver i) (s.finishes.erase f) = s.leaving i := by
    intro i
    have hsplit := handsOver_erase hf i
    rwa [handsOver_eq (.inl hstage), hid] at hsplit
  -- in these hands, so not queued yet
  have hnot : .task id ∉ l := by
    intro hin
    have hcount := count_pos_iff.mpr hin
    have hhands := hleaving id
    rw [isTask_self] at hhands
    obtain ⟨-, -, hone⟩ := h.zombie (i := id) (by omega)
    omega
  obtain ⟨hqueue, hpending, htotal⟩ := cleanupQueuePush_spec h.queue hnot
  have hcount : ∀ i, (l ++ [Context.task id]).count (.task i) =
      l.count (.task i) + (Context.task id).isTask i := by
    intro i
    rw [count_append, count_singleton, Context.isTask]
    simp only [beq_iff_eq]
  refine { h with
    queue := hqueue, places := ?_, queued := ?_, pushing := ?_, permits := ?_, pending := ?_
    pushes := ?_, totalReaped := ?_ }
  · intro i
    have hplaces := h.places i
    have hhands := hleaving i
    rw [Lifecycle.places] at hplaces
    rw [Lifecycle.places, Lifecycle.leaving]
    dsimp only
    rw [tally_cons, handsOver_signal rfl, hcount]
    show s.onStack i + _ + _ + _ + s.gone i = _
    omega
  · intro t ht
    rcases mem_append.mp ht with ht | ht
    · exact h.queued t ht
    · exact ⟨id, mem_singleton.mp ht⟩
  · intro g hg hpush
    rcases mem_cons.mp hg with rfl | hg
    · cases hpush
    · exact h.pushing g (mem_of_mem_erase hg) hpush
  · have hpermits := h.permits
    dsimp only
    rw [length_append, length_singleton, tally_cons,
      signals_erase hf (by simp [hstage]), signals, if_pos rfl]
    omega
  · dsimp only
    rw [hpending, h.pending, length_append, length_singleton]
    omega
  · intro i
    have hpushes := h.pushes i
    rw [hcount]
    show update s.pushes id _ i = _ + s.reaper.holds i + s.gone i
    by_cases hi : i = id
    · subst hi
      rw [update_self, isTask_self]
      omega
    · rw [update_of_ne hi, isTask_ne fun he => hi (Context.task.inj he).symm]
      omega
  · dsimp only
    rw [htotal]
    exact h.totalReaped

/-- The permit for the queued task. -/
theorem Inv.finishSignal (h : Inv s l) (hf : f ∈ s.finishes) (hstage : f.stage = .signal) :
    Inv { s with permits := s.permits + 1, finishes := s.finishes.erase f } l := by
  refine { h with places := ?_, pushing := ?_, permits := ?_ }
  · intro i
    have hleaving := handsOver_erase hf i
    rw [handsOver_signal hstage, Nat.zero_add] at hleaving
    rw [Lifecycle.places, Lifecycle.leaving]
    dsimp only
    rw [hleaving]
    exact h.places i
  · exact fun g hg => h.pushing g (mem_of_mem_erase hg)
  · have hpermits := h.permits
    have hsignals := tally_erase signals hf
    rw [signals, if_pos hstage] at hsignals
    dsimp only
    omega

/-- The next access of a call of `task_internal_finish_switch` that is timely. -/
theorem Inv.finish (h : Inv s l) (hf : f ∈ s.finishes)
    (htimely : f.stage = .check → f.leftZombie = true ∨ s.state f.previous ≠ .zombie) :
    ∃ l', Inv (finishStep s f) l' := by
  unfold finishStep
  dsimp only
  split
  next hstage =>
    split
    next halive => exact ⟨l, h.finishAlive hf hstage halive⟩
    next hexited =>
      have hleft := (htimely hstage).resolve_right hexited
      exact ⟨l, h.finishExited hf hstage hleft (not_not.mp hexited)⟩
  next hstage =>
    obtain ⟨id, hid⟩ := h.pushing f hf hstage
    simp only [hid]
    exact ⟨_, h.finishPush hf hstage hid⟩
  next hstage => exact ⟨l, h.finishSignal hf hstage⟩

end MeatySkeleton.Cleanup
