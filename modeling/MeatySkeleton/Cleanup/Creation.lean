import MeatySkeleton.Cleanup.Places

/-!
# Creating tasks

`allocate_task`, `destroy_unpublished_task` and `task_bind_process` keep the reference
counts equal to the tallies of the tasks that hold them.
-/

namespace MeatySkeleton.Cleanup

open Function Lib Scheduler

variable {s s' : Lifecycle} {l : List Context} {i : Nat}

/-- The canonical kernel address space counts no references. -/
def Lifecycle.kernelOnly (s : Lifecycle) (a : Nat) : Bool := a = s.kernelSpace

open Lifecycle (gone kernelOnly)

theorem kernelOnly_false {a : Nat} : s.kernelOnly a = false ↔ a ≠ s.kernelSpace := decide_eq_false_iff_not

theorem addressSpaceRetain_eq (s : Lifecycle) (a : Nat) :
    addressSpaceRetain s a = { s with spaceRefs := takeUp s.kernelOnly s.spaceRefs a } := by
  rw [addressSpaceRetain, takeUp, kernelOnly]
  by_cases ha : a = s.kernelSpace
  · rw [if_pos ha, if_pos (decide_eq_true ha)]
  · rw [if_neg ha, if_neg (by simpa using ha)]

theorem addressSpaceRelease_eq {a : Nat} (h : s.kernelOnly a = false → s.spaceRefs a ≠ 0) :
    addressSpaceRelease s a =
      { s with spaceRefs := letGo s.kernelOnly s.spaceRefs (some a) } := by
  rw [addressSpaceRelease, letGo]
  by_cases ha : a = s.kernelSpace
  · rw [if_pos ha, if_pos (by simpa [kernelOnly] using ha)]
  · rw [if_neg ha, if_neg (h (kernelOnly_false.mpr ha)), if_neg (by simpa [kernelOnly] using ha)]

theorem processRetain_eq (s : Lifecycle) (p : Nat) :
    processRetain s p = { s with processRefs := takeUp s.immortal s.processRefs p } := by
  rw [processRetain, takeUp]
  split <;> rfl

theorem processRelease_eq {p : Nat} (h : s.immortal p = false → s.processRefs p ≠ 0) :
    processRelease s p = { s with processRefs := letGo s.immortal s.processRefs (some p) } := by
  rw [processRelease, letGo]
  by_cases hp : s.immortal p = true
  · rw [if_pos hp, if_pos hp]
  · rw [if_neg hp, if_neg hp, if_neg (h (by simpa using hp))]

theorem processThreadDetach_eq {p : Nat} (h : s.liveThreads p ≠ 0) :
    processThreadDetach s p =
      { s with liveThreads := letGo (fun _ => false) s.liveThreads (some p) } := by
  rw [processThreadDetach, if_neg h]
  rfl

/-- What other tasks hold does not matter to the reaper. -/
theorem stripped_of_ne {r : Reaper} (h : s.Stripped r) (hheld : r.holds i = 0)
    (hspace : ∀ j, j ≠ i → s'.space j = s.space j)
    (hprocess : ∀ j, j ≠ i → s'.process j = s.process j) : s'.Stripped r := by
  have hne : ∀ {id}, one id i = 0 → id ≠ i := by
    intro id hone he
    rw [he, one_self] at hone
    cases hone
  cases r with
  | detached id p => exact (hprocess id (hne hheld)).trans h
  | released id p =>
    exact ⟨(hprocess id (hne hheld)).trans h.1, (hspace id (hne hheld)).trans h.2⟩
  | dropped id =>
    exact ⟨(hprocess id (hne hheld)).trans h.1, (hspace id (hne hheld)).trans h.2⟩
  | _ => trivial

/-- A new task. -/
theorem Inv.allocate (h : Inv s l) (a : Nat) : Inv (allocateTask s a) l := by
  obtain ⟨hfree, hnew⟩ := h.fresh s.nextId (Nat.le_refl _)
  obtain ⟨-, hnone⟩ := h.bare s.nextId hfree
  have hstate : update s.state (.task s.nextId) .new = s.state := by
    rw [← hnew, update_eq_self]
  have hprocess : update s.process s.nextId none = s.process := by
    rw [← hnone, update_eq_self]
  have hstep : allocateTask s a =
      { s with
        nextId := s.nextId + 1
        allocated := update s.allocated s.nextId true
        space := update s.space s.nextId (some a)
        spaceRefs := takeUp s.kernelOnly s.spaceRefs a
        live := s.live + 1 } := by
    rw [allocateTask, addressSpaceRetain_eq]
    dsimp only
    rw [hstate, hprocess]
  have hgone : ∀ i, ({ s with allocated := update s.allocated s.nextId true } :
      Lifecycle).gone i = s.gone i := by
    intro i
    by_cases hi : i = s.nextId
    · subst hi
      rw [gone, gone, if_neg (by simp), if_neg (by simp [hnew])]
    · rw [gone]
      simp only [update_of_ne hi]
      rfl
  have hwas : ∀ {i}, update s.allocated s.nextId true i = false → s.allocated i = false := by
    intro i hi
    by_cases hne : i = s.nextId
    · rw [hne]
      exact hfree
    · exact (update_of_ne hne ..).symm.trans hi
  rw [hstep]
  refine { h with
    places := ?_, live := ?_, fresh := ?_, known := ?_, bare := ?_, spaced := ?_
    stripped := stripped_of_ne h.stripped (h.notHeld hnew)
      (fun j hj => update_of_ne hj ..) fun _ _ => rfl
    spaceRefs := ?_, processRefs := ?_, liveThreads := ?_, pushes := ?_, reaps := ?_
    totalReaped := ?_ }
  · intro i
    have hplaces := h.places i
    rw [Lifecycle.places, ← hgone] at hplaces
    exact hplaces
  · have hold := h.live
    have hsucc := tally_range_succ (fun i => if s.allocated i then 1 else 0)
      (fun i => if update s.allocated s.nextId true i then 1 else 0)
      fun i hi => by rw [update_of_ne hi]
    rw [update_self, if_pos rfl] at hsucc
    dsimp only
    omega
  · intro i hi
    obtain ⟨hno, hst⟩ := h.fresh i (Nat.le_of_succ_le hi)
    have hne : i ≠ s.nextId := Nat.ne_of_gt (Nat.lt_of_succ_le hi)
    exact ⟨(update_of_ne hne ..).trans hno, hst⟩
  · exact fun i hi => h.known i (hwas hi)
  · intro i hi
    obtain ⟨hspace, hproc⟩ := h.bare i (hwas hi)
    have hne : i ≠ s.nextId := by
      intro he
      have htrue : update s.allocated s.nextId true i = false := hi
      rw [he, update_self] at htrue
      cases htrue
    exact ⟨(update_of_ne hne ..).trans hspace, hproc⟩
  · intro i hi hno
    have hne : i ≠ s.nextId := by
      intro he
      have hsome : update s.space s.nextId (some a) i = none := hno
      rw [he, update_self] at hsome
      cases hsome
    exact h.spaced i ((update_of_ne hne ..).symm.trans hi) ((update_of_ne hne ..).symm.trans hno)
  · intro b hb
    have hrefs := h.spaceRefs b hb
    have hcounts : s.kernelOnly b = false := kernelOnly_false.mpr hb
    dsimp only
    rw [holder_succ, takeUp_apply a hcounts, hrefs]
  · intro p hp
    have hsucc := holder_succ s.process s.nextId none p
    rw [hprocess, if_neg (by simp), Nat.add_zero] at hsucc
    have hrefs := h.processRefs p hp
    dsimp only
    omega
  · intro p
    have hsucc := holder_succ s.process s.nextId none p
    rw [hprocess, if_neg (by simp), Nat.add_zero] at hsucc
    have hthreads := h.liveThreads p
    dsimp only
    omega
  · intro i
    have hpushes := h.pushes i
    rw [← hgone] at hpushes
    exact hpushes
  · intro i
    have hreaps := h.reaps i
    rw [← hgone] at hreaps
    exact hreaps
  · have hold := h.totalReaped
    have hzero : s.reaps s.nextId = 0 := by
      rw [h.reaps, gone, if_neg (by simp [hnew])]
    have hsucc := tally_range_succ s.reaps s.reaps (n := s.nextId) fun _ _ => rfl
    dsimp only
    omega

theorem dropProcess_eq {process : Option Nat}
    (hthreads : ∀ p, process = some p → s.liveThreads p ≠ 0)
    (hrefs : ∀ p, process = some p → s.immortal p = false → s.processRefs p ≠ 0) :
    process.elim s (fun p => processRelease (processThreadDetach s p) p) =
      { s with
        processRefs := letGo s.immortal s.processRefs process
        liveThreads := letGo (fun _ => false) s.liveThreads process } := by
  cases process with
  | none => rfl
  | some p =>
    rw [Option.elim_some, processThreadDetach_eq (hthreads p rfl)]
    exact processRelease_eq (hrefs p rfl)

theorem dropSpace_eq {space : Option Nat}
    (hrefs : ∀ a, space = some a → s.kernelOnly a = false → s.spaceRefs a ≠ 0) :
    space.elim s (addressSpaceRelease s) =
      { s with spaceRefs := letGo s.kernelOnly s.spaceRefs space } := by
  cases space with
  | none => rfl
  | some a => exact addressSpaceRelease_eq (hrefs a rfl)

/-- A task that was not published is taken back. -/
theorem Inv.destroy (h : Inv s l) {id : Nat} (hallocated : s.allocated id = true)
    (hnew : s.state (.task id) = .new) : Inv (destroyUnpublishedTask s id) l := by
  have hid : id < s.nextId := by
    by_contra hlt
    rw [(h.fresh id (Nat.le_of_not_lt hlt)).1] at hallocated
    cases hallocated
  have hspace := tally_holder_none s.space hid
  have hprocess := tally_holder_none s.process hid
  have hlive := h.live
  have hstep : destroyUnpublishedTask s id =
      { s with
        live := s.live - 1
        allocated := update s.allocated id false
        space := update s.space id none
        process := update s.process id none
        spaceRefs := letGo s.kernelOnly s.spaceRefs (s.space id)
        processRefs := letGo s.immortal s.processRefs (s.process id)
        liveThreads := letGo (fun _ => false) s.liveThreads (s.process id) } := by
    rw [destroyUnpublishedTask]
    dsimp only
    rw [if_neg (by omega), dropProcess_eq, dropSpace_eq]
    · rfl
    · intro a ha hcounts
      have hpos := tally_holder_pos hid ha
      have hrefs := h.spaceRefs a (kernelOnly_false.mp hcounts)
      dsimp only
      omega
    · intro p hp
      have hpos := tally_holder_pos hid hp
      have hthreads := h.liveThreads p
      dsimp only
      omega
    · intro p hp himmortal
      have hpos := tally_holder_pos hid hp
      have hrefs := h.processRefs p himmortal
      dsimp only
      omega
  have hnever : ∀ {i}, s.state (.task i) = .zombie → i ≠ id := by
    intro i hz he
    rw [he, hnew] at hz
    cases hz
  have hgone : ∀ i, ({ s with allocated := update s.allocated id false } :
      Lifecycle).gone i = s.gone i := by
    intro i
    rw [gone, gone]
    refine if_congr (and_congr_right fun hz => ?_) rfl rfl
    dsimp only
    rw [update_of_ne (hnever hz)]
  rw [hstep]
  refine { h with
    places := ?_, live := ?_, fresh := ?_, known := ?_, bare := ?_, spaced := ?_
    stripped := stripped_of_ne h.stripped (h.notHeld hnew)
      (fun j hj => update_of_ne hj ..) fun j hj => update_of_ne hj ..
    spaceRefs := ?_, processRefs := ?_, liveThreads := ?_, pushes := ?_, reaps := ?_ }
  · intro i
    have hplaces := h.places i
    rw [Lifecycle.places, ← hgone] at hplaces
    exact hplaces
  · have hfree := tally_range_update (fun i => if s.allocated i then 1 else 0)
      (fun i => if update s.allocated id false i then 1 else 0) hid
      fun i hi => by rw [update_of_ne hi]
    rw [update_self, hallocated] at hfree
    simp only [if_true, Bool.false_eq_true, if_false] at hfree
    dsimp only
    omega
  · intro i hi
    obtain ⟨hfree, hst⟩ := h.fresh i hi
    have hne : i ≠ id := by
      intro he
      rw [he] at hi
      exact absurd hid (Nat.not_lt_of_le hi)
    exact ⟨(update_of_ne hne ..).trans hfree, hst⟩
  · intro i hi
    by_cases hne : i = id
    · subst hne
      exact .inl hnew
    · exact h.known i ((update_of_ne hne ..).symm.trans hi)
  · intro i hi
    by_cases hne : i = id
    · subst hne
      exact ⟨update_self .., update_self ..⟩
    · obtain ⟨hspace, hprocess⟩ := h.bare i ((update_of_ne hne ..).symm.trans hi)
      exact ⟨(update_of_ne hne ..).trans hspace, (update_of_ne hne ..).trans hprocess⟩
  · intro i hi hnone
    have hne : i ≠ id := by
      intro he
      have htrue : update s.allocated id false i = true := hi
      rw [he, update_self] at htrue
      cases htrue
    exact h.spaced i ((update_of_ne hne ..).symm.trans hi) ((update_of_ne hne ..).symm.trans hnone)
  · intro b hb
    have hrefs := h.spaceRefs b hb
    have hsplit := hspace b
    have hcounts : s.kernelOnly b = false := kernelOnly_false.mpr hb
    rw [holder] at hsplit
    dsimp only
    rw [letGo_apply _ hcounts]
    omega
  · intro p hp
    have hrefs := h.processRefs p hp
    have hsplit := hprocess p
    rw [holder] at hsplit
    dsimp only
    rw [letGo_apply _ hp]
    omega
  · intro p
    have hthreads := h.liveThreads p
    have hsplit := hprocess p
    rw [holder] at hsplit
    dsimp only
    rw [letGo_apply _ rfl]
    omega
  · intro i
    have hpushes := h.pushes i
    rw [← hgone] at hpushes
    exact hpushes
  · intro i
    have hreaps := h.reaps i
    rw [← hgone] at hreaps
    exact hreaps

/-- A task that was not published is bound to a process, or the call fails. -/
theorem Inv.bind (h : Inv s l) {id : Nat} (hallocated : s.allocated id = true) (p : Nat) :
    Inv (taskBindProcess s id p) l := by
  unfold taskBindProcess
  split
  next => exact h
  next hfree =>
    obtain ⟨hnew, hnone⟩ := not_or.mp hfree
    rw [not_not] at hnew hnone
    split
    next => exact h
    next =>
      rw [processRetain_eq]
      have hid : id < s.nextId := by
        by_contra hlt
        rw [(h.fresh id (Nat.le_of_not_lt hlt)).1] at hallocated
        cases hallocated
      have hbind : ∀ q, tally (holder (update s.process id (some p)) q) (List.range s.nextId) =
          tally (holder s.process q) (List.range s.nextId) + if some p = some q then 1 else 0 := by
        intro q
        have hupdate := tally_range_update _ _ hid
          fun i hi => holder_update_ne s.process q (some p) hi
        rw [holder_update_self] at hupdate
        rw [holder, hnone, if_neg (by simp), Nat.add_zero] at hupdate
        exact hupdate
      show Inv { s with
        process := update s.process id (some p)
        processRefs := takeUp s.immortal s.processRefs p
        liveThreads := takeUp (fun _ => false) s.liveThreads p } l
      refine { h with
        bare := ?_, stripped := stripped_of_ne h.stripped (h.notHeld hnew)
          (fun _ _ => rfl) fun j hj => update_of_ne hj ..
        processRefs := ?_, liveThreads := ?_ }
      · intro i hi
        have hne : i ≠ id := by
          intro he
          have hfalse : s.allocated i = false := hi
          rw [he, hallocated] at hfalse
          cases hfalse
        obtain ⟨hspace, hprocess⟩ := h.bare i hi
        exact ⟨hspace, (update_of_ne hne ..).trans hprocess⟩
      · intro q hq
        have hrefs := h.processRefs q hq
        have hmore := hbind q
        have hmortal : s.immortal q = false := hq
        dsimp only
        rw [takeUp_apply p hmortal]
        omega
      · intro q
        have hthreads := h.liveThreads q
        have hmore := hbind q
        dsimp only
        rw [takeUp_apply p rfl]
        omega

end MeatySkeleton.Cleanup
