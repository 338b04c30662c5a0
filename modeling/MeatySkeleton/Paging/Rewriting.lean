import MeatySkeleton.Paging.Lifecycle

/-!
# A frame written through the scratch page

What `elf.c` does with every frame it fills: the scratch page is mapped to the
frame, bytes are written, and the scratch page is unmapped again. Afterwards the
frame has its new contents, the slot is free, and all else is as it was, but that
the slot may have got its page table (`Rewritten`). A directory under construction
stays one.
-/

namespace MeatySkeleton.Paging

open Function

variable {m0 m m1 m' : Machine} {k dir scratch f d : Nat} {pages : List Nat}

/-- Frame `f` was written through the scratch page. -/
structure Rewritten (m : Machine) (k scratch f : Nat) (m' : Machine) : Prop where
  cr3 : m'.cr3 = m.cr3
  kernelDirectory : m'.kernelDirectory = m.kernelDirectory
  kernel : ∀ d, d ≠ scratchIndex → m'.mem k d = m.mem k d
  pde : (m'.mem k scratchIndex).has pagePresent = true ∧ frameOf (m'.mem k scratchIndex) = scratch
  empty : m'.mem scratch 0 = 0#32
  rest : ∀ x, x ≠ k → x ≠ scratch → x ≠ f → m'.mem x = m.mem x
  slot : SlotTable m k scratch m'

theorem SlotOpened.recursive (h : SlotOpened m k scratch f m1) (hok : DirectoryOk m k) :
    m1.Recursive := by
  have hne : recursiveDirectoryIndex ≠ scratchIndex := by decide
  rw [Machine.Recursive, h.opened.directory, h.kernel _ hne]
  exact hok.recursive

/-- The page table of the slot is not the frame that is written. -/
theorem SlotOpened.scratch_ne (h : SlotOpened m k scratch f m1) (hok : DirectoryOk m k)
    (hused : m.used f = true)
    (htable : ∀ d, d < 1023 → (m.mem k d).has pagePresent = true → frameOf (m.mem k d) ≠ f) :
    f ≠ scratch ∧ scratch ≠ k := by
  rcases h.slot with ⟨hp, hframe, -⟩ | ⟨-, -, hunused, -⟩
  · rw [← hframe]
    exact ⟨(htable scratchIndex (by decide) hp).symm, hok.tableNe scratchIndex (by decide) hp⟩
  · refine ⟨fun he => ?_, fun he => ?_⟩
    · rw [← he, hused] at hunused
      cases hunused
    · rw [he, hok.dirUsed] at hunused
      cases hunused

/-- The scratch page is unmapped after frame `f` was written. -/
theorem SlotOpened.close (h : SlotOpened m k scratch f m1) (hok : DirectoryOk m k) (hfk : f ≠ k)
    (hfs : f ≠ scratch) (hsk : scratch ≠ k) (page : Nat → Word) :
    ∃ m', pagingUnmapPage (m1.write f page) scratchAddress false = some (true, m') ∧
      Rewritten m k scratch f m' ∧ m'.mem f = page := by
  have hopened := h.opened.write hfk hfs page
  have hrec : (m1.write f page).Recursive := by
    have hm1 := h.recursive hok
    rw [Machine.Recursive, write_directory, h.opened.directory, write_ne hfk.symm,
      ← h.opened.directory]
    exact hm1
  generalize hm' : (m1.write f page).write scratch
    (update ((m1.write f page).mem scratch) 0 0#32) = m'
  have hunmap := hopened.unmap hrec
  rw [hm'] at hunmap
  have hkernel : m'.mem k = m1.mem k := by
    rw [← hm', write_ne hsk.symm, write_ne hfk.symm]
  have htable : ∀ t, t ≠ 0 → m'.mem scratch t = m1.mem scratch t := by
    intro t ht
    rw [← hm', write_self, update_of_ne ht, write_ne hfs.symm]
  refine ⟨m', hunmap, ?_, ?_⟩
  · exact
      { cr3 := by rw [← hm']; exact h.cr3
        kernelDirectory := by rw [← hm']; exact h.kernelDirectory
        kernel := fun d hd => by rw [hkernel]; exact h.kernel d hd
        pde := by rw [hkernel]; exact h.opened.pde
        empty := by rw [← hm', write_self, update_self]
        rest := fun x hxk hxs hxf => by
          rw [← hm', write_ne hxs, write_ne hxf]
          exact h.rest x hxk hxs
        slot := by
          have hused : m'.used = m1.used := by
            rw [← hm']
            rfl
          rw [SlotTable, hused, hkernel]
          refine h.slot.imp ?_ ?_
          · rintro ⟨hp, hframe, hu, hpde, hrow⟩
            exact ⟨hp, hframe, hu, hpde, fun t ht => (htable t ht).trans (hrow t ht)⟩
          · rintro ⟨hp, hrange, hfree, hu, hrow⟩
            exact ⟨hp, hrange, hfree, hu, fun t ht => (htable t ht).trans (hrow t ht)⟩ }
  · rw [← hm', write_ne hfs, write_self]

/-! ## A directory under construction -/

section

variable (h : Building m0 k dir pages m)

include h

/-- While a directory is under construction the slot has its page table. -/
theorem Building.slot_kept (hw : Rewritten m k scratch f m') :
    scratch = m.scratchTable k ∧ m'.used = m.used ∧
      m'.mem k scratchIndex = raisedPde pageWritable (m.mem k scratchIndex) := by
  rcases hw.slot with ⟨-, hframe, hused, hpde, -⟩ | ⟨habsent, -⟩
  · exact ⟨hframe.symm, hused, hpde⟩
  · rw [h.ready.pde.1] at habsent
    cases habsent

/-- The directory and its page tables are not written, nor is another page's frame. -/
theorem Building.frames_kept (hf : f ∈ pages)
    (hw : Rewritten m k scratch f m') : m'.mem dir = m.mem dir ∧
      (∀ d, d < 1023 → (m.mem dir d).has pagePresent = true →
        m'.mem (frameOf (m.mem dir d)) = m.mem (frameOf (m.mem dir d))) ∧
      ∀ g ∈ pages, g ≠ f → m'.mem g = m.mem g := by
  obtain ⟨rfl, -⟩ := h.slot_kept hw
  have hpage := h.page f hf
  refine ⟨hw.rest _ h.dirNe ?_ hpage.neDir.symm, fun d hd hp => ?_, fun g hg hgf => ?_⟩
  · exact (h.kernelTableNe scratchIndex (by decide) h.ready.pde.1).symm
  · exact hw.rest _ (h.tableNe d hd hp).1 (h.tableNe d hd hp).2 (hpage.neTable d hd hp)
  · have hother := h.page g hg
    exact hw.rest g hother.neKernel
      (hother.neKernelTable scratchIndex (by decide) h.ready.pde.1).symm hgf

/-- A frame taken for a page is written. -/
theorem Building.rewritten (hf : f ∈ pages)
    (hw : Rewritten m k scratch f m') : Building m0 k dir pages m' := by
  obtain ⟨hrow, -⟩ := h.frames_kept hf hw
  obtain ⟨rfl, hused, hraised⟩ := h.slot_kept hw
  have hkernel : ∀ d, (m'.mem k d).has pagePresent = (m.mem k d).has pagePresent ∧
      frameOf (m'.mem k d) = frameOf (m.mem k d) := by
    intro d
    by_cases hd : d = scratchIndex
    · rw [hd, hraised]
      exact ⟨raisedPde_present .., raisedPde_frame ..⟩
    · rw [hw.kernel d hd]
      exact ⟨rfl, rfl⟩
  have hscratch : m'.scratchTable k = m.scratchTable k := (hkernel scratchIndex).2
  have hkeep : ∀ {e : Nat}, ∀ x, m.used x = true → m'.used x = true ∨ (x ≠ e ∧
      ∀ d, d < 1023 → (m.mem e d).has pagePresent = true → frameOf (m.mem e d) ≠ x) := by
    intro e x hx
    rw [hused]
    exact .inl hx
  exact
    { cr3 := hw.cr3.trans h.cr3
      kernelDirectory := hw.kernelDirectory.trans h.kernelDirectory
      ready :=
        { directory := by
            rw [Machine.directory, hw.cr3]
            exact h.ready.directory
          ok := h.ready.ok.congr hkeep hkernel
          pde := ⟨hw.pde.1, rfl⟩
          free := by
            rw [hscratch, hw.empty]
            exact zero_not_present }
      dirOk := h.dirOk.congr hkeep fun d => by
        rw [hrow]
        exact ⟨rfl, rfl⟩
      dirNe := h.dirNe
      dirScratch := by
        rw [hrow]
        exact h.dirScratch
      tableNe := fun d hd hp => by
        rw [hrow] at hp ⊢
        rw [hscratch]
        exact h.tableNe d hd hp
      kernelTableNe := fun d hd hp => by
        rw [(hkernel d).1] at hp
        rw [(hkernel d).2]
        exact h.kernelTableNe d hd hp
      kernelPde := fun d hd => (hw.kernel d hd).trans (h.kernelPde d hd)
      shared := fun d hd hne hs => by
        rw [hrow]
        exact h.shared d hd hne hs
      usedMono := fun x hx => by
        rw [hused]
        exact h.usedMono x hx
      page := fun g hg => (h.page g hg).congr (by rw [hused]; exact (h.page g hg).used) hkernel
        fun d _ hp => by
          rw [hrow] at hp ⊢
          exact .inl ⟨hp, rfl⟩ }

/-- Only the 1024 entries of the directory matter. -/
theorem Building.agree {row : Nat → Word}
    (hrow : ∀ d, d < 1024 → row d = m.mem dir d) : Building m0 k dir pages (m.write dir row) := by
  have hself : ∀ d, d < 1024 → (m.write dir row).mem dir d = m.mem dir d := by
    intro d hd
    rw [write_self]
    exact hrow d hd
  have hkernel : (m.write dir row).mem k = m.mem k := write_ne h.dirNe.symm
  have hslot : (m.write dir row).mem (m.scratchTable k) = m.mem (m.scratchTable k) :=
    write_ne (h.kernelTableNe scratchIndex (by decide) h.ready.pde.1)
  refine h.redirected rfl rfl hkernel hslot (fun _ hx => hx) ?_ (fun d hd hp => ?_)
    fun d hd hold hp => ?_
  · exact
      { range := h.dirOk.range
        dirUsed := h.dirOk.dirUsed
        recursive := by
          rw [hself _ (by decide)]
          exact h.dirOk.recursive
        tableRange := fun d hd hp => by
          rw [hself d (by omega)] at hp ⊢
          exact h.dirOk.tableRange d hd hp
        tableUsed := fun d hd hp => by
          rw [hself d (by omega)] at hp ⊢
          exact h.dirOk.tableUsed d hd hp
        tableNe := fun d hd hp => by
          rw [hself d (by omega)] at hp ⊢
          exact h.dirOk.tableNe d hd hp
        distinct := fun d e hd he hp hp' hf => by
          rw [hself d (by omega)] at hp hf
          rw [hself e (by omega)] at hp' hf
          exact h.dirOk.distinct d e hd he hp hp' hf }
  · rw [hself d (by omega)]
    exact ⟨hp, rfl⟩
  · rw [hself d (by omega), hold] at hp
    cases hp

end

/-- A frame that was filled with the entries of a new directory is one. -/
theorem Rewritten.building (hw : Rewritten (m0.markUsed dir) k scratch dir m')
    (hready : KernelReady m0 k) (hfree : m0.used dir = false) (hrange : 0 < dir ∧ dir < frameCount)
    (hrow : ∀ i, i < 1024 → m'.mem dir i = newEntry (m0.mem k) dir i) :
    Building m0 k dir [] m' := by
  have hdk : dir ≠ k := by
    intro he
    rw [he, hready.ok.dirUsed] at hfree
    cases hfree
  have hds : dir ≠ scratch := by
    rcases hw.slot with ⟨hp, hframe, -⟩ | ⟨-, -, hunused, -⟩
    · intro he
      have htable := hready.ok.tableUsed scratchIndex (by decide) hp
      change frameOf (m0.mem k scratchIndex) = scratch at hframe
      rw [hframe, ← he, hfree] at htable
      cases htable
    · intro he
      have hmarked : (m0.markUsed dir).used dir = true := update_self ..
      rw [← he, hmarked] at hunused
      cases hunused
  -- the frame without the words behind its 1024 entries
  generalize hm : m'.write dir (newEntry (m0.mem k) dir) = m
  have hother : ∀ x, x ≠ dir → m.mem x = m'.mem x := by
    intro x hx
    rw [← hm, write_ne hx]
  have hself : m.mem dir = newEntry (m0.mem k) dir := by rw [← hm, write_self]
  have hcreated : Created (m0.markUsed dir) k scratch dir m :=
    { cr3 := by rw [← hm]; exact hw.cr3
      kernelDirectory := by rw [← hm]; exact hw.kernelDirectory
      kernel := fun d hd => by rw [hother k hdk.symm]; exact hw.kernel d hd
      pde := by rw [hother k hdk.symm]; exact hw.pde
      row := fun i => by rw [hself]; rfl
      empty := by rw [hother scratch hds.symm]; exact hw.empty
      rest := fun x hxk hxs hxd => by rw [hother x hxd]; exact hw.rest x hxk hxs hxd
      slot := by
        have hused : m.used = m'.used := by
          rw [← hm]
          rfl
        rw [SlotTable, hused, hother k hdk.symm, hother scratch hds.symm]
        exact hw.slot }
  have hback : m.write dir (m'.mem dir) = m' := by
    rw [← hm, Machine.write, Machine.write, update_idem, update_eq_self]
  rw [← hback]
  refine (hcreated.clean hready hfree hrange).building.agree fun i hi => ?_
  rw [hself, hrow i hi]

end MeatySkeleton.Paging
