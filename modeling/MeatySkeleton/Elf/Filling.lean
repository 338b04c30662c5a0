import MeatySkeleton.Elf.Alone
import MeatySkeleton.Elf.Image
import MeatySkeleton.Paging.Rewriting

/-!
# Filling frames, with nobody interfering

A frame is taken from the allocator, the scratch page is mapped to it, bytes are
written, and the scratch page is unmapped: what such steps have done when they go
through (`filled`). The first frame of a load becomes its directory, with the
kernel's supervisor entries and no others (`created`).
-/

namespace MeatySkeleton.Elf

open Function List Option Lib Paging

variable {m0 m m₁ m' : Machine} {k dir scratch f : Nat} {l l' : Load} {steps : List Step}

/-! ## Single steps -/

theorem pass_allocateFrame (h : Step.allocateFrame.pass (m, l) = some (m', l')) :
    ∃ f, (0 < f ∧ f < frameCount) ∧ m.used f = false ∧ m' = m.markUsed f ∧
      l' = { l with frame := some f } := by
  cases pass_performed h with
  | opened hs => rcases hs with ⟨hs, -⟩ | ⟨hs, -⟩ <;> cases hs
  | allocated hallocate =>
    rcases pmmAllocateFrame_cases m with ⟨hnone, -⟩ | ⟨f, hsome, hpos, hlt, hfree, -⟩
    · rw [hnone] at hallocate
      cases hallocate
    · rw [hsome] at hallocate
      cases hallocate
      refine ⟨f, ⟨hpos, hlt⟩, hfree, rfl, ?_⟩
      rw [Nat.mul_div_cancel f (by decide)]

theorem pass_opens {s : Step} (hs : s.Opens l f) (h : s.pass (m, l) = some (m', l'))
    (hok : DirectoryOk m k) (hdirectory : m.directory = k)
    (hslot : (m.mem k scratchIndex).has pagePresent = true →
      (m.mem (frameOf (m.mem k scratchIndex)) 0).has pagePresent = false)
    (hf : f < frameCount) :
    (∃ scratch, SlotOpened m k scratch f m') ∧ l' = { l with holding := true } := by
  have hopen : pagingMapPage m scratchAddress (f * pageSize) pageWritable = some (true, m') ∧
      l' = { l with holding := true } := by
    rcases hs with ⟨rfl, hframe⟩ | ⟨rfl, hframe⟩
    · cases pass_performed h with
      | opened hs hmap =>
        rcases hs with ⟨-, hg⟩ | ⟨hs, -⟩
        · rw [hframe] at hg
          obtain rfl := some.inj hg
          exact ⟨hmap, rfl⟩
        · cases hs
    · cases pass_performed h with
      | opened hs hmap =>
        rcases hs with ⟨hs, -⟩ | ⟨-, hg⟩
        · cases hs
        · rw [hframe] at hg
          obtain rfl := some.inj hg
          exact ⟨hmap, rfl⟩
  obtain ⟨hmap, rfl⟩ := hopen
  refine ⟨?_, rfl⟩
  rcases mapScratch_cases hok hdirectory hslot (Nat.lt_trans hf (by decide)) with
    ⟨-, hnone⟩ | ⟨scratch, m2, hsome, ho⟩
  · rw [hmap] at hnone
    cases hnone
  · rw [hmap] at hsome
    obtain rfl := (Prod.mk.inj (some.inj hsome)).2
    exact ⟨scratch, ho⟩

theorem pass_unmapScratch {halts : Bool}
    (h : (Step.unmapScratch halts).pass (m, l) = some (m', l'))
    (hunmap : pagingUnmapPage m scratchAddress false = some (true, m₁)) :
    m' = m₁ ∧ l' = { l with holding := false } := by
  cases pass_performed h with
  | opened hs => rcases hs with ⟨hs, -⟩ | ⟨hs, -⟩ <;> cases hs
  | unmapped h' =>
    rw [hunmap] at h'
    cases h'
    exact ⟨rfl, rfl⟩

/-! ## Writing -/

/-- The page has the bytes that are known of it. -/
def Holds (page : Nat → Word) (bytes : Nat → Option Byte) : Prop :=
  ∀ j b, j < pageSize → bytes j = some b → byteOf page j = b

/-- Writes go into the frame the scratch page shows. -/
theorem passAll_writes (hw : Writes steps) (ho : Opened m k scratch f) (hfk : f ≠ k)
    (hfs : f ≠ scratch) (h : passAll steps (m, l) = some (m', l')) :
    l' = l ∧ ∃ page, m' = m.write f page ∧
      ∀ bytes, Holds (m.mem f) bytes → Holds page (overwritten steps bytes) := by
  induction steps generalizing m with
  | nil =>
    obtain ⟨rfl, rfl⟩ := Prod.mk.inj (some.inj h)
    exact ⟨rfl, m.mem f, (write_same m f).symm, fun _ hb => hb⟩
  | cons s steps ih =>
    obtain ⟨offset, b, rfl, hoffset⟩ := hw s (mem_cons_self ..)
    rw [passAll_cons] at h
    obtain ⟨⟨m1, l1⟩, hpass, hrest⟩ := bind_eq_some_iff.mp h
    obtain ⟨hperform, -⟩ := pass_iff.mp hpass
    dsimp only [Step.perform] at hperform
    rw [ho.editByte hoffset, Nat.mod_eq_of_lt hoffset] at hperform
    cases hperform
    obtain ⟨rfl, page, rfl, hpage⟩ := ih (fun s hs => hw s (mem_cons_of_mem _ hs))
      (ho.write hfk hfs _) hrest
    refine ⟨rfl, page, ?_, fun bytes hbytes => ?_⟩
    · rw [Machine.write, Machine.write, update_idem]
      rfl
    · refine hpage _ fun j c hj hc => ?_
      rw [write_self, byteOf_setByte]
      by_cases hjo : j = offset
      · rw [hjo, overwrite, update_self] at hc
        rw [if_pos hjo]
        exact some.inj hc
      · rw [overwrite, update_of_ne hjo] at hc
        rw [if_neg hjo]
        exact hbytes j c hj hc

/-- A frame of the load is filled through the scratch page. -/
theorem filled {s : Step} {halts : Bool} (hs : s.Opens l f) (hw : Writes steps)
    (h : passAll (s :: (steps ++ [.unmapScratch halts])) (m, l) = some (m', l'))
    (hok : DirectoryOk m k) (hdirectory : m.directory = k)
    (hslot : (m.mem k scratchIndex).has pagePresent = true →
      (m.mem (frameOf (m.mem k scratchIndex)) 0).has pagePresent = false)
    (hf : f < frameCount) (hused : m.used f = true) (hfk : f ≠ k)
    (htable : ∀ d, d < 1023 → (m.mem k d).has pagePresent = true → frameOf (m.mem k d) ≠ f) :
    (∃ scratch, Rewritten m k scratch f m') ∧ l' = { l with holding := false } ∧
      ∀ bytes, Holds (m.mem f) bytes → Holds (m'.mem f) (overwritten steps bytes) := by
  rw [passAll_cons] at h
  obtain ⟨⟨m1, l1⟩, hopen, h⟩ := bind_eq_some_iff.mp h
  obtain ⟨⟨scratch, ho⟩, rfl⟩ := pass_opens hs hopen hok hdirectory hslot hf
  obtain ⟨hfs, hsk⟩ := ho.scratch_ne hok hused htable
  rw [passAll_append] at h
  obtain ⟨⟨m2, l2⟩, hwrites, h⟩ := bind_eq_some_iff.mp h
  obtain ⟨rfl, page, rfl, hpage⟩ := passAll_writes hw ho.opened hfk hfs hwrites
  obtain ⟨m3, hunmap, hrewritten, hmem⟩ := ho.close hok hfk hfs hsk page
  rw [passAll_cons] at h
  obtain ⟨⟨m4, l4⟩, hclose, hend⟩ := bind_eq_some_iff.mp h
  obtain ⟨rfl, rfl⟩ := pass_unmapScratch hclose hunmap
  cases hend
  refine ⟨⟨scratch, hrewritten⟩, rfl, fun bytes hbytes => ?_⟩
  rw [hmem]
  apply hpage
  rw [ho.rest f hfk hfs]
  exact hbytes

/-! ## The directory -/

/-- The copy loop of `paging_create_user_directory`, entry by entry. -/
theorem passAll_shareEntries {is : List Nat}
    (h : passAll (is.map .shareEntry) (m, l) = some (m', l')) :
    copySupervisorEntries m is = some m' ∧ l' = l := by
  induction is generalizing m with
  | nil =>
    cases h
    exact ⟨rfl, rfl⟩
  | cons i is ih =>
    rw [map_cons, passAll_cons] at h
    obtain ⟨⟨m1, l1⟩, hpass, hrest⟩ := bind_eq_some_iff.mp h
    obtain ⟨hperform, -⟩ := pass_iff.mp hpass
    dsimp only [Step.perform] at hperform
    rw [copySupervisorEntries]
    split at hperform
    next hskip =>
      cases hperform
      rw [if_pos hskip]
      exact ih hrest
    next hskip =>
      obtain ⟨entry, hload, hperform⟩ := bind_eq_some_iff.mp hperform
      rw [if_neg hskip, hload]
      show (if entry.shared = true then _ else _) = _ ∧ _
      split at hperform
      next hshared =>
        obtain ⟨m2, hstore, hperform⟩ := bind_eq_some_iff.mp hperform
        cases hperform
        rw [if_pos hshared, hstore]
        exact ih hrest
      next hprivate =>
        cases hperform
        rw [if_neg hprivate]
        exact ih hrest

theorem pass_setRecursiveEntry (h : Step.setRecursiveEntry.pass (m, l) = some (m', l'))
    (ho : Opened m k scratch f) (hf : l.frame = some f) :
    m' = m.write f (update (m.mem f) recursiveDirectoryIndex
      (entryFor (f * pageSize) (pagePresent ||| pageWritable))) ∧ l' = l := by
  obtain ⟨hperform, -⟩ := pass_iff.mp h
  obtain ⟨g, hg, hperform⟩ := bind_eq_some_iff.mp hperform
  obtain rfl := some.inj (hf.symm.trans hg)
  rw [ho.store (by decide)] at hperform
  cases hperform
  exact ⟨rfl, rfl⟩

/-- The new directory has the kernel's supervisor entries and the recursive one. -/
theorem created (hready : KernelReady m0 k)
    (h : passAll pagingCreateUserDirectory (m0, .start []) = some (m', l')) :
    ∃ dir scratch, l' = { Load.start [] with directory := some dir } ∧ m0.used dir = false ∧
      (0 < dir ∧ dir < frameCount) ∧ Rewritten (m0.markUsed dir) k scratch dir m' ∧
      ∀ i, i < 1024 → m'.mem dir i = newEntry (m0.mem k) dir i := by
  rw [pagingCreateUserDirectory, append_assoc, append_assoc, cons_append, passAll_cons] at h
  obtain ⟨⟨m1, l1⟩, hallocate, h⟩ := bind_eq_some_iff.mp h
  obtain ⟨dir, hrange, hfree, rfl, rfl⟩ := pass_allocateFrame hallocate
  have hok : DirectoryOk (m0.markUsed dir) k :=
    hready.ok.congr (fun x hx => .inl (m0.markUsed_mono dir hx)) fun _ => ⟨rfl, rfl⟩
  have hnew : ∀ x, m0.used x = true → x ≠ dir := by
    intro x hx he
    rw [← he, hx] at hfree
    cases hfree
  have hdk : dir ≠ k := (hnew k hready.ok.dirUsed).symm
  rw [cons_append, passAll_cons] at h
  obtain ⟨⟨m2, l2⟩, hopen, h⟩ := bind_eq_some_iff.mp h
  obtain ⟨⟨scratch, ho⟩, rfl⟩ := pass_opens (.inl ⟨rfl, rfl⟩) hopen hok (directory_eq hready.cr3)
    hready.slot hrange.2
  obtain ⟨hds, hsk⟩ := ho.scratch_ne hok (update_self ..) fun d hd hp =>
    hnew _ (hready.ok.tableUsed d hd hp)
  -- the frame is cleared
  rw [nil_append, passAll_append] at h
  obtain ⟨⟨m3, l3⟩, hclear, h⟩ := bind_eq_some_iff.mp h
  obtain ⟨rfl, page, rfl, hpage⟩ := passAll_writes (writes_memset 0) ho.opened hdk hds hclear
  have hzero : ∀ i, i < 1024 → page i = 0#32 := by
    intro i hi
    refine page_eq_zero (n := 1024) (fun j hj => ?_) hi
    have hlt : j < pageSize := by
      rw [pageSize]
      omega
    exact hpage (fun _ => none) (fun _ _ _ hb => by cases hb) j 0#8 hlt (overwritten_memset 0 _ hlt)
  -- the entries are copied
  rw [passAll_append] at h
  obtain ⟨⟨m4, l4⟩, hshare, h⟩ := bind_eq_some_iff.mp h
  obtain ⟨hcopy, rfl⟩ := passAll_shareEntries hshare
  obtain ⟨page', hcopied, hpage'⟩ := copySupervisorEntries_spec page
    (fun i hi => mem_range.mp hi) ho.opened (ho.recursive hok) hdk hds
  rw [hcopied] at hcopy
  obtain rfl := some.inj hcopy
  have hopened := ho.opened.write hdk hds page'
  rw [passAll_cons] at h
  obtain ⟨⟨m5, l5⟩, hset, h⟩ := bind_eq_some_iff.mp h
  obtain ⟨rfl, rfl⟩ := pass_setRecursiveEntry hset hopened rfl
  have hlast : (m2.write dir page').write dir (update ((m2.write dir page').mem dir)
      recursiveDirectoryIndex (entryFor (dir * pageSize) (pagePresent ||| pageWritable))) =
      m2.write dir (update page' recursiveDirectoryIndex
        (entryFor (dir * pageSize) (pagePresent ||| pageWritable))) := by
    rw [write_self, Machine.write, Machine.write, update_idem]
    rfl
  obtain ⟨m6, hunmap, hrewritten, hmem⟩ := ho.close hok hdk hds hsk
    (update page' recursiveDirectoryIndex
      (entryFor (dir * pageSize) (pagePresent ||| pageWritable)))
  rw [hlast, passAll_cons] at h
  obtain ⟨⟨m7, l7⟩, hclose, h⟩ := bind_eq_some_iff.mp h
  obtain ⟨rfl, rfl⟩ := pass_unmapScratch hclose hunmap
  rw [passAll_cons] at h
  obtain ⟨⟨m8, l8⟩, hadopt, hend⟩ := bind_eq_some_iff.mp h
  obtain ⟨hadopted, -⟩ := pass_iff.mp hadopt
  cases hadopted
  cases hend
  refine ⟨dir, scratch, rfl, hfree, hrange, hrewritten, fun i hi => ?_⟩
  rw [hmem, newEntry]
  by_cases hir : i = recursiveDirectoryIndex
  · rw [if_pos hir, hir, update_self]
  · rw [if_neg hir, update_of_ne hir, hpage' i, hzero i hi]
    by_cases his : i = scratchIndex
    · simp [his]
    · have hentry : m2.mem k i = m0.mem k i := ho.kernel i his
      rw [hentry]
      simp [hir, his]

end MeatySkeleton.Elf
