import MeatySkeleton.Elf.Entering

/-!
# Runs of several loads

`Inv` holds when the loads begin, and a step that is `Undisturbed` goes through
and keeps it. So along a run of such steps no load fails, and a load that comes
to its end has made the address space its steps make when it runs by itself
(`Shows`).

The one step another load can spoil is the mapping of the scratch page. All others
work on frames of the load itself, or on nobody's.
-/

namespace MeatySkeleton.Elf

open Option Lib Paging

variable {ι : Type} {m0 m m' : Machine} {k dir : Nat} {flags : Word}
  {role : Nat → Role ι} {i : ι} {l : Load} {p q : Own} {load : ι → Load} {own : ι → Own}
  {w w' : World ι} {final : ι → Own} {script : ι → List Step}

/-! ## What user code sees -/

/-- Directory `dir` shows user code the pages `page` and no others. -/
def Shows (m : Machine) (dir : Nat) (page : Nat → Option UserPage) : Prop :=
  ∀ n, match page n with
    | some u => ∃ f, pageMap m dir n = some (f, true, u.writable) ∧
        ∀ j b, j < pageSize → u.bytes j = some b → byteOf (m.mem f) j = b
    | none => ∀ f writable, pageMap m dir n ≠ some (f, true, writable)

/-- A page whose directory entry is not a user entry is no user page. -/
theorem pageMap_supervisor {n : Nat} (hn : n < pageCount)
    (hu : (m.mem dir (n / 1024)).has pageUser = false) (f : Nat) (writable : Bool) :
    pageMap m dir n ≠ some (f, true, writable) := by
  intro hpage
  rw [pageMap, if_pos hn] at hpage
  unfold mapping at hpage
  dsimp only at hpage
  rw [(page_index hn).1, hu, Bool.false_and] at hpage
  split at hpage
  · cases hpage
  · cases hpage

theorem SpaceOk.shows {page : Nat → Option UserPage} (h : SpaceOk m0 k m role i dir page) :
    Shows m dir page := by
  intro n
  split
  next u hu =>
    obtain ⟨hn, hroom, f, hpage⟩ := h.mapped n u hu
    obtain ⟨hd, ht, hlow⟩ := page_index hn
    obtain ⟨-, huser, hwritable⟩ := h.table_role hroom hlow hpage.pde
    refine ⟨f, ?_, hpage.bytes⟩
    rw [pageMap, if_pos hn]
    unfold mapping
    dsimp only
    rw [hd, ht, hpage.pde, hpage.pte, hpage.frame, huser, hwritable, hpage.user, hpage.writable]
    rfl
  next hnone =>
    intro f writable hpage
    have hn : n < pageCount := by
      by_contra hge
      rw [pageMap, if_neg hge] at hpage
      cases hpage
    obtain ⟨hd, ht, hlow⟩ := page_index hn
    cases hp : (m.mem dir (n / 1024)).has pagePresent with
    | false =>
      rw [pageMap, if_pos hn, mapping_absent (by rw [hd]; exact hp)] at hpage
      cases hpage
    | true =>
      rcases h.entry _ hlow hp with ⟨hshared, -, hrow⟩ | ⟨hroom, -⟩
      · refine pageMap_supervisor hn ?_ f writable hpage
        rw [hrow]
        exact (shared_spec hshared).2
      · rw [pageMap, if_pos hn, mapping_none] at hpage
        · cases hpage
        · rw [hd, ht]
          exact h.unmapped n hn hroom hnone hp

variable {rest : List Step}

/-- The invariant does not look at the steps of a load but to run them. -/
theorem Private.steps (h : Private m0 k m role i l p) :
    Private m0 k m role i { l with steps := rest } p :=
  ⟨h.running, h.holding, h.draft, h.space⟩

variable {room : Nat → Bool}

theorem Own.run_cons {s : Step} {e : Own}
    (h : Own.run room (s :: rest) p = some e) :
    ∃ q, p.perform room s = some q ∧ Own.run room rest q = some e := by
  rw [Own.run, List.foldlM_cons] at h
  exact bind_eq_some_iff.mp h

/-! ## The start -/

/-- Loads that go through by themselves, in a kernel with a free scratch slot. -/
theorem start_inv (hready : KernelReady m0 k)
    (hscript : ∀ i, Own.run (roomOf m0 k) (script i) .start = some (final i)) :
    Inv m0 k final (start m0 script) (fun _ => .start)
      (fun x => if m0.used x = true then .kernel else .free) where
  kernel :=
    { cr3 := hready.cr3
      kernelDirectory := hready.kernelDirectory
      ok := hready.ok
      pde := fun _ _ => rfl
      owned := if_pos hready.ok.dirUsed
      tableRole := fun d hd hp => if_pos (hready.ok.tableUsed d hd hp)
      used := fun x hx => by
        by_contra hunused
        exact hx (if_neg hunused)
      range := fun x j hx => by
        split at hx
        · cases hx
        · cases hx }
  load _ := ⟨rfl, rfl, .inl ⟨rfl, rfl⟩, .inl ⟨rfl, rfl, fun _ => rfl, rfl⟩⟩
  slot := ⟨fun _ hp => hready.slot hp, fun _ hj => absurd rfl hj, fun _ _ hi => absurd rfl hi⟩
  rest := hscript

variable [DecidableEq ι]

/-! ## Mapping the scratch page -/

theorem Own.perform_mapScratch (h : p.perform room .mapScratch = some q) :
    (∃ d, p.draft = some d) ∧ p.target = none ∧ q = { p with target := some .draft } := by
  dsimp only [Own.perform] at h
  split at h
  next d hd ht => exact ⟨⟨d, hd⟩, ht, (some.inj h).symm⟩
  next => cases h

theorem Own.perform_mapTopFrame (h : p.perform room .mapTopFrame = some q) :
    (∃ n, p.top = some n) ∧ p.target = none ∧ q = { p with target := some .top } := by
  dsimp only [Own.perform] at h
  split at h
  next n ht hn => exact ⟨⟨n, hn⟩, ht, (some.inj h).symm⟩
  next => cases h

section

variable (hk : KernelKeeps m0 k m role) (hl : Private m0 k m role i (load i) (own i))
  (hs : Slot m k load own)

include hk hl hs

theorem mapScratch_stepped (hfree : 0 < freeFrames m.used)
    (hothers : ∀ j, j ≠ i → (own j).target = none) :
    Step.mapScratch.Proceeds m0 k m load own role i := by
  intro q hq
  obtain ⟨⟨d, hd⟩, ht, rfl⟩ := Own.perform_mapScratch hq
  obtain ⟨f, hf, hrole, -⟩ := hl.filling hd
  have hall : ∀ j, (own j).target = none := by
    intro j
    by_cases hj : j = i
    · rw [hj, ht]
    · exact hothers j hj
  have hopen := open_stepped hk hl hs hall hfree (t := .draft) (f := f) (by rw [hrole]; rfl) hf
  dsimp only [Step.perform]
  rw [hf]
  exact hopen

theorem mapTopFrame_stepped (hfree : 0 < freeFrames m.used)
    (hothers : ∀ j, j ≠ i → (own j).target = none) :
    Step.mapTopFrame.Proceeds m0 k m load own role i := by
  intro q hq
  obtain ⟨⟨n, hn⟩, ht, rfl⟩ := Own.perform_mapTopFrame hq
  rcases hl.space with ⟨-, -, -, hnone⟩ | ⟨dir, -, -, -, htop⟩
  · rw [hn] at hnone
    cases hnone
  obtain ⟨u, f, -, hf, hpage⟩ := htop n hn
  have hall : ∀ j, (own j).target = none := by
    intro j
    by_cases hj : j = i
    · rw [hj, ht]
    · exact hothers j hj
  have hopen := open_stepped hk hl hs hall hfree (t := .top) (f := f) (by rw [hpage.owned]; rfl) hf
  dsimp only [Step.perform]
  rw [hf]
  exact hopen

theorem kernelDirectoryActive_stepped {halts : Bool} :
    (Step.kernelDirectoryActive halts).Proceeds m0 k m load own role i := by
  intro q hq
  obtain rfl : own i = q := some.inj hq
  refine ⟨m, load i, role, ?_, rfl, ?_⟩
  · dsimp only [Step.perform]
    rw [if_pos (hk.cr3.trans hk.kernelDirectory.symm)]
  · exact
      { kernel := hk
        beyond := ⟨fun _ _ _ _ => rfl, fun _ hx => hx, fun _ _ _ _ => rfl⟩
        mine := hl
        slot := hs.update rfl rfl rfl rfl fun _ => rfl }

/-! ## A step -/

/-- A step the load could take by itself goes through, when no other load has the
scratch page as it maps it. -/
theorem perform_stepped (s : Step) (hfree : 0 < freeFrames m.used)
    (hothers : s.mapsScratch = true → ∀ j, j ≠ i → (own j).target = none) :
    s.Proceeds m0 k m load own role i := by
  intro q hq
  cases s with
  | kernelDirectoryActive halts => exact kernelDirectoryActive_stepped hk hl hs hq
  | allocateFrame => exact allocate_stepped hk hl hs hfree hq
  | mapScratch => exact mapScratch_stepped hk hl hs hfree (hothers rfl) hq
  | writeByte offset b => exact writeByte_stepped hk hl hs hq
  | shareEntry e => exact shareEntry_stepped hk hl hs hq
  | setRecursiveEntry => exact setRecursiveEntry_stepped hk hl hs hq
  | unmapScratch halts => exact unmapScratch_stepped hk hl hs hq
  | adoptDirectory => exact adoptDirectory_stepped hk hl hs hq
  | enterPage v flags top => exact enterPage_stepped hk hl hs hfree hq
  | mapTopFrame => exact mapTopFrame_stepped hk hl hs hfree (hothers rfl) hq
  | reject => cases hq

end

theorem Slot.steps (h : Slot m k load own) :
    Slot m k (Function.update load i { load i with steps := rest }) own := by
  refine h.congr (fun _ => rfl) (fun j => ?_) rfl rfl fun _ => rfl
  by_cases hj : j = i
  · rw [hj, Function.update_self]
    rfl
  · rw [Function.update_of_ne hj]

/-- The step goes through and keeps the invariant. -/
theorem Inv.step (h : Inv m0 k final w own role) (hu : Undisturbed w i)
    (hmore : (w.load i).steps ≠ []) :
    ∃ w' own' role', step w i = some w' ∧ Inv m0 k final w' own' role' := by
  obtain ⟨s, rest, hsteps⟩ := List.exists_cons_of_ne_nil hmore
  have hrun := h.rest i
  rw [hsteps] at hrun
  obtain ⟨q, hq, hrest⟩ := Own.run_cons hrun
  have hothers : s.mapsScratch = true → ∀ j, j ≠ i → (own j).target = none := by
    intro hmaps j hj
    have hholding := hu.2 (by rw [hsteps]; exact hmaps) j hj
    rw [(h.load j).holding, isSome_eq_false_iff, isNone_iff_eq_none] at hholding
    exact hholding
  -- the load without its first step
  generalize hload : Function.update w.load i { w.load i with steps := rest } = load
  have hi : load i = { w.load i with steps := rest } := by
    rw [← hload, Function.update_self]
  have hl : Private m0 k w.machine role i (load i) (own i) := by
    rw [hi]
    exact (h.load i).steps
  have hs : Slot w.machine k load own := by
    rw [← hload]
    exact h.slot.steps
  obtain ⟨m', l', role', hperform, hkept, hstepped⟩ :=
    perform_stepped h.kernel hl hs s hu.1 hothers hq
  have hback : Function.update load i l' = Function.update w.load i l' := by
    rw [← hload, Function.update_idem]
  refine ⟨⟨m', Function.update w.load i l'⟩, Function.update own i q, role', ?_, ?_⟩
  · rw [Elf.step, hsteps]
    dsimp only
    rw [← hi, hperform]
  · have hslot := hstepped.slot
    rw [hback] at hslot
    refine Stepped.inv ⟨hstepped.kernel, hstepped.beyond, hstepped.mine, hslot⟩ h ?_
    rw [hkept, hi]
    exact hrest

/-! ## Runs -/

theorem run_inv {is : List ι} (hready : KernelReady m0 k)
    (hscript : ∀ i, Own.run (roomOf m0 k) (script i) .start = some (final i))
    (hrun : RunWhere step Undisturbed (start m0 script) is w) :
    ∃ own role, Inv m0 k final w own role := by
  refine hrun.invariant (I := fun w => ∃ own role, Inv m0 k final w own role)
    ⟨_, _, start_inv hready hscript⟩ fun w i w' hinv hu hstep => ?_
  obtain ⟨own, role, h⟩ := hinv
  have hmore : (w.load i).steps ≠ [] := by
    intro hnil
    rw [Elf.step, hnil] at hstep
    cases hstep
  obtain ⟨w'', own', role', hstep', h'⟩ := h.step hu hmore
  rw [hstep] at hstep'
  obtain rfl := some.inj hstep'
  exact ⟨own', role', h'⟩

end MeatySkeleton.Elf
