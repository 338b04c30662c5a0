import MeatySkeleton.Paging.Clean

/-!
# The life of a user directory

`paging_create_user_directory` makes a directory that is `Clean` with no pages.
Mapping frames of the allocator into it keeps it so, and destroying it then gives
back exactly what it took. What stays is the page table of the scratch slot, which
the first creation needs and the kernel keeps.
-/

namespace MeatySkeleton.Paging

open Function List

variable {m0 m m' : Machine} {k dir scratch f d t x : Nat}

/-! ## Creation -/

/-- The page table of the slot: it had frame `scratch` before, or has just got it. -/
abbrev SlotTable (m : Machine) (k scratch : Nat) (m' : Machine) : Prop :=
  ((m.mem k scratchIndex).has pagePresent = true ∧ frameOf (m.mem k scratchIndex) = scratch ∧
      m'.used = m.used ∧ m'.mem k scratchIndex = raisedPde pageWritable (m.mem k scratchIndex) ∧
      ∀ t, t ≠ 0 → m'.mem scratch t = m.mem scratch t) ∨
    ((m.mem k scratchIndex).has pagePresent = false ∧ (0 < scratch ∧ scratch < frameCount) ∧
      m.used scratch = false ∧ m'.used = update m.used scratch true ∧
        ∀ t, t ≠ 0 → m'.mem scratch t = 0#32)

/-- The scratch address shows frame `dir`; nothing else has changed, but that the
slot may have got its page table just now. -/
structure SlotOpened (m : Machine) (k scratch dir : Nat) (m' : Machine) : Prop where
  opened : Opened m' k scratch dir
  cr3 : m'.cr3 = m.cr3
  kernelDirectory : m'.kernelDirectory = m.kernelDirectory
  kernel : ∀ d, d ≠ scratchIndex → m'.mem k d = m.mem k d
  rest : ∀ x, x ≠ k → x ≠ scratch → m'.mem x = m.mem x
  slot : SlotTable m k scratch m'
  present : (m'.mem k scratchIndex).has pagePresent = true

/-- `paging_map_page` of the scratch address fails for want of a frame, or opens the slot. -/
theorem mapScratch_cases (hok : DirectoryOk m k) (hm : m.directory = k)
    (hslot : (m.mem k scratchIndex).has pagePresent = true →
      (m.mem (frameOf (m.mem k scratchIndex)) 0).has pagePresent = false)
    (hdir : dir < 2 ^ 20) :
    (freeFrames m.used = 0 ∧
      pagingMapPage m scratchAddress (dir * pageSize) pageWritable = some (false, m)) ∨
      ∃ scratch m', pagingMapPage m scratchAddress (dir * pageSize) pageWritable = some (true, m') ∧
        SlotOpened m k scratch dir m' := by
  obtain ⟨hd, ht, -⟩ := scratch_index 0 (by decide)
  change pageDirectoryIndex scratchAddress = _ at hd
  change pageTableIndex scratchAddress = _ at ht
  obtain ⟨r, hr, hout⟩ := pagingMapPage_outcome hok hm (v := scratchAddress) (by decide)
    (by rw [hd]; decide) dir pageWritable
  rw [hr]
  rw [hd, ht] at hout
  obtain ⟨ok, m'⟩ := r
  cases ok with
  | false =>
    cases hout with
    | noFrame _ hzero => exact .inl ⟨hzero, rfl⟩
    | taken hp htaken =>
      rw [hslot hp] at htaken
      cases htaken
  | true =>
    obtain ⟨scratch, hm'⟩ := hout.mapped_of_success hok (by decide)
    refine .inr ⟨scratch, m', rfl, ?_⟩
    exact
      { opened := ⟨by rw [Machine.directory, hm'.cr3]; exact hm, hm'.pde, by
          rw [hm'.pte]
          exact ⟨pageEntry_present .., pageEntry_frame hdir _⟩⟩
        cr3 := hm'.cr3
        kernelDirectory := hm'.kernelDirectory
        kernel := hm'.row
        rest := hm'.rest
        slot := by
          rcases hm'.slot with ⟨hp, hframe, -, hused, hpde, hkept⟩ |
            ⟨habsent, hrange, hunused, hused, -, hzero⟩
          · exact .inl ⟨hp, hframe, hused, hpde, hkept⟩
          · exact .inr ⟨habsent, hrange, hunused, hused, hzero⟩
        present := hm'.pde.1 }

/-- The entries of a new directory. -/
def newEntry (row : Nat → Word) (dir i : Nat) : Word :=
  if i = recursiveDirectoryIndex then entryFor (dir * pageSize) (pagePresent ||| pageWritable)
  else if i ≠ scratchIndex ∧ i < 1024 ∧ (row i).shared = true then row i
  else 0#32

/-- The copy loop, seen from the directory's frame. -/
theorem copySupervisorEntries_spec : ∀ {is : List Nat} {m : Machine} (page : Nat → Word),
    (∀ i ∈ is, i < 1024) → Opened m k scratch f → m.Recursive → f ≠ k → f ≠ scratch →
    ∃ page', copySupervisorEntries (m.write f page) is = some (m.write f page') ∧
      ∀ i, page' i = if i ∈ is ∧ i ≠ recursiveDirectoryIndex ∧ i ≠ scratchIndex ∧
        (m.mem k i).shared = true then m.mem k i else page i
  | [], m, page, _, _, _, _, _ => ⟨page, rfl, fun i => by simp⟩
  | j :: is, m, page, hlt, ho, hrec, hk, hs => by
    have hlt' : ∀ i ∈ is, i < 1024 := fun i hi => hlt i (mem_cons_of_mem _ hi)
    have hj : j < 1024 := hlt j mem_cons_self
    rw [copySupervisorEntries]
    by_cases hskip : j = recursiveDirectoryIndex ∨ j = scratchIndex
    · rw [if_pos hskip]
      obtain ⟨page', hrun, hpage⟩ := copySupervisorEntries_spec page hlt' ho hrec hk hs
      refine ⟨page', hrun, fun i => ?_⟩
      rw [hpage i]
      refine if_congr ?_ rfl rfl
      constructor
      · rintro ⟨hi, hrest⟩
        exact ⟨mem_cons_of_mem _ hi, hrest⟩
      · rintro ⟨hi, h1, h2, hsh⟩
        rcases mem_cons.mp hi with rfl | hi
        · rcases hskip with h | h
          · exact absurd h h1
          · exact absurd h h2
        · exact ⟨hi, h1, h2, hsh⟩
    · rw [if_neg hskip]
      have hwrec : (m.write f page).Recursive := by
        rw [Machine.Recursive, write_directory, ho.directory, write_ne (Ne.symm hk), ← ho.directory]
        exact hrec
      have hload : (m.write f page).load (directoryEntry j) = some (m.mem k j) := by
        rw [load_directoryEntry hwrec hj, write_directory, ho.directory, write_ne (Ne.symm hk)]
      rw [hload]
      show ∃ page', (if (m.mem k j).shared then _ else _) = _ ∧ _
      cases hsh : (m.mem k j).shared with
      | true =>
        rw [if_pos rfl]
        have hstore : (m.write f page).store (scratchAddress + 4 * j) (m.mem k j) =
            some (m.write f (update page j (m.mem k j))) := by
          rw [(ho.write hk hs page).store hj, write_self]
          simp only [Machine.write, update_idem]
        obtain ⟨page', hrun, hpage⟩ := copySupervisorEntries_spec
          (update page j (m.mem k j)) hlt' ho hrec hk hs
        refine ⟨page', ?_, fun i => ?_⟩
        · show ((m.write f page).store (scratchAddress + 4 * j) (m.mem k j)).bind _ = _
          rw [hstore]
          exact hrun
        · rw [hpage i]
          by_cases hij : i = j
          · subst hij
            rw [not_or] at hskip
            rw [update_self, ite_self, if_pos ⟨mem_cons_self, hskip.1, hskip.2, hsh⟩]
          · rw [update_of_ne hij]
            simp [hij]
      | false =>
        rw [if_neg Bool.false_ne_true]
        obtain ⟨page', hrun, hpage⟩ := copySupervisorEntries_spec page hlt' ho hrec hk hs
        refine ⟨page', hrun, fun i => ?_⟩
        rw [hpage i]
        by_cases hij : i = j
        · subst hij
          simp [hsh]
        · simp [hij]

/-- The new directory, its frame filled and the scratch slot empty again. -/
structure Created (m : Machine) (k scratch dir : Nat) (m' : Machine) : Prop where
  cr3 : m'.cr3 = m.cr3
  kernelDirectory : m'.kernelDirectory = m.kernelDirectory
  kernel : ∀ d, d ≠ scratchIndex → m'.mem k d = m.mem k d
  pde : (m'.mem k scratchIndex).has pagePresent = true ∧ frameOf (m'.mem k scratchIndex) = scratch
  row : ∀ i, m'.mem dir i = newEntry (m.mem k) dir i
  empty : m'.mem scratch 0 = 0#32
  rest : ∀ x, x ≠ k → x ≠ scratch → x ≠ dir → m'.mem x = m.mem x
  slot : SlotTable m k scratch m'

/-- What `paging_create_user_directory` does once the slot is open. -/
theorem SlotOpened.fill (h : SlotOpened m k scratch dir m') (hok : DirectoryOk m k)
    (hdk : dir ≠ k) (hds : dir ≠ scratch) (hsk : scratch ≠ k) :
    ∃ m₁ m₂ m₃ m₄, m'.editPage scratchAddress zeroPage = some m₁ ∧
      copySupervisorEntries m₁ (List.range 1024) = some m₂ ∧
      m₂.store (scratchAddress + 4 * recursiveDirectoryIndex)
        (entryFor (dir * pageSize) (pagePresent ||| pageWritable)) = some m₃ ∧
      pagingUnmapPage m₃ scratchAddress false = some (true, m₄) ∧ Created m k scratch dir m₄ := by
  have hrec : m'.Recursive := by
    have hne : recursiveDirectoryIndex ≠ scratchIndex := by decide
    rw [Machine.Recursive, h.opened.directory, h.kernel _ hne]
    exact hok.recursive
  obtain ⟨page', hcopy, hpage⟩ := copySupervisorEntries_spec (zeroPage (m'.mem dir))
    (show ∀ i ∈ List.range 1024, i < 1024 from fun i hi => mem_range.mp hi) h.opened hrec hdk hds
  have hopened := h.opened.write hdk hds page'
  have hstore : (m'.write dir page').store (scratchAddress + 4 * recursiveDirectoryIndex)
      (entryFor (dir * pageSize) (pagePresent ||| pageWritable)) =
      some (m'.write dir (update page' recursiveDirectoryIndex
        (entryFor (dir * pageSize) (pagePresent ||| pageWritable)))) := by
    rw [hopened.store (by decide), write_self]
    simp only [Machine.write, update_idem]
  generalize hlast : update page' recursiveDirectoryIndex
    (entryFor (dir * pageSize) (pagePresent ||| pageWritable)) = last at hstore
  have hopened' := h.opened.write hdk hds last
  have hrec' : (m'.write dir last).Recursive := by
    rw [Machine.Recursive, write_directory, h.opened.directory, write_ne (Ne.symm hdk),
      ← h.opened.directory]
    exact hrec
  refine ⟨_, _, _, _, h.opened.editPage zeroPage, hcopy, hstore, hopened'.unmap hrec', ?_⟩
  have hslotRow : (m'.write dir last).mem scratch = m'.mem scratch := write_ne (Ne.symm hds)
  have hrowT : ∀ t, t ≠ 0 → ((m'.write dir last).write scratch
      (update ((m'.write dir last).mem scratch) 0 0#32)).mem scratch t = m'.mem scratch t := by
    intro t ht
    rw [write_self, update_of_ne ht, hslotRow]
  have hkernel : ((m'.write dir last).write scratch
      (update ((m'.write dir last).mem scratch) 0 0#32)).mem k = m'.mem k := by
    rw [write_ne (Ne.symm hsk), write_ne (Ne.symm hdk)]
  refine
    { cr3 := h.cr3
      kernelDirectory := h.kernelDirectory
      kernel := fun d hd => by rw [hkernel]; exact h.kernel d hd
      pde := by rw [hkernel]; exact h.opened.pde
      row := fun i => ?_
      empty := by rw [write_self, update_self]
      rest := fun x hxk hxs hxd => by
        rw [write_ne hxs, write_ne hxd]
        exact h.rest x hxk hxs
      slot := ?_ }
  · rw [write_ne hds, write_self, ← hlast, newEntry]
    by_cases hir : i = recursiveDirectoryIndex
    · rw [if_pos hir, hir, update_self]
    · rw [if_neg hir, update_of_ne hir, hpage i]
      by_cases his : i = scratchIndex
      · simp [his, zeroPage]
      · rw [h.kernel i his]
        simp [hir, his, zeroPage]
  · refine h.slot.imp ?_ ?_
    · rintro ⟨hp, hf, hused, hpde, hrow⟩
      exact ⟨hp, hf, hused, by rw [hkernel]; exact hpde, fun t ht => (hrowT t ht).trans (hrow t ht)⟩
    · rintro ⟨hp, hrange, hfree, hused, hrow⟩
      exact ⟨hp, hrange, hfree, hused, fun t ht => (hrowT t ht).trans (hrow t ht)⟩

/-- A present entry of the new directory is one the kernel shares. -/
theorem newEntry_present {row : Nat → Word} (hi : d < 1023)
    (hp : (newEntry row dir d).has pagePresent = true) :
    newEntry row dir d = row d ∧ d ≠ scratchIndex ∧ (row d).shared = true := by
  have hne : d ≠ recursiveDirectoryIndex := Nat.ne_of_lt hi
  unfold newEntry at hp ⊢
  rw [if_neg hne] at hp ⊢
  split at hp
  next hs =>
    rw [if_pos hs]
    exact ⟨rfl, hs.1, hs.2.2⟩
  next =>
    rw [zero_not_present] at hp
    cases hp

theorem newEntry_shared {row : Nat → Word} (hi : d < 1023) (hne : d ≠ scratchIndex)
    (hs : (row d).shared = true) : newEntry row dir d = row d := by
  have hrec : d ≠ recursiveDirectoryIndex := Nat.ne_of_lt hi
  unfold newEntry
  rw [if_neg hrec, if_pos ⟨hne, Nat.lt_trans hi (by decide), hs⟩]

theorem shared_spec {e : Word} (h : e.shared = true) :
    e.has pagePresent = true ∧ e.has pageUser = false := by
  rw [Word.shared, Bool.and_eq_true, Bool.not_eq_true'] at h
  exact h

section

variable (h : Created (m0.markUsed dir) k scratch dir m)

include h

/-- What is in use after the creation. -/
theorem Created.used_iff (x : Nat) :
    m.used x = true ↔ m0.used x = true ∨ x = dir ∨
      ((m0.mem k scratchIndex).has pagePresent = false ∧ x = scratch) := by
  have hmark : (m0.markUsed dir).used x = true ↔ m0.used x = true ∨ x = dir := update_used_iff
  rcases h.slot with ⟨hp, -, hused, -⟩ | ⟨hp, -, -, hused, -⟩
  · change (m0.mem k scratchIndex).has pagePresent = true at hp
    rw [hused, hmark, hp]
    simp
  · change (m0.mem k scratchIndex).has pagePresent = false at hp
    rw [hused, hp]
    by_cases hx : x = scratch
    · subst hx
      simp
    · rw [update_of_ne hx, hmark]
      simp [hx]

/-- The frames of a creation are different. -/
theorem Created.distinct (hready : KernelReady m0 k)
    (hfree : m0.used dir = false) : scratch ≠ dir ∧ scratch ≠ k ∧
      ∀ d, d < 1023 → d ≠ scratchIndex → (m0.mem k d).has pagePresent = true →
        frameOf (m0.mem k d) ≠ scratch := by
  rcases h.slot with ⟨hp, hf, -, -⟩ | ⟨-, -, hnew, -, -⟩
  · change (m0.mem k scratchIndex).has pagePresent = true at hp
    change frameOf (m0.mem k scratchIndex) = scratch at hf
    have hused := hready.ok.tableUsed scratchIndex (by decide) hp
    rw [hf] at hused
    refine ⟨fun he => ?_, fun he => ?_, fun d hd hne hpd he => ?_⟩
    · rw [he, hfree] at hused
      cases hused
    · exact hready.ok.tableNe scratchIndex (by decide) hp (hf.trans he)
    · exact hne (hready.ok.distinct d scratchIndex hd (by decide) hpd hp (he.trans hf.symm))
  · have hnot : ∀ x, (m0.markUsed dir).used x = true → scratch ≠ x := by
      rintro x hx rfl
      rw [hnew] at hx
      cases hx
    exact ⟨hnot dir (update_self ..), hnot k (m0.markUsed_mono dir hready.ok.dirUsed),
      fun d hd _ hpd => Ne.symm (hnot _ (m0.markUsed_mono dir (hready.ok.tableUsed d hd hpd)))⟩

/-- The kernel's directory after the creation. -/
theorem Created.kernelOk (hready : KernelReady m0 k)
    (hfree : m0.used dir = false) : DirectoryOk m k := by
  obtain ⟨-, hsk, hother⟩ := h.distinct hready hfree
  have hused : ∀ x, m0.used x = true → m.used x = true := fun x hx => (h.used_iff x).mpr (.inl hx)
  have hscratch : (0 < scratch ∧ scratch < frameCount) ∧ m.used scratch = true := by
    rcases h.slot with ⟨hp, hf, -, -⟩ | ⟨hp, hrange, -, -, -⟩
    · change (m0.mem k scratchIndex).has pagePresent = true at hp
      change frameOf (m0.mem k scratchIndex) = scratch at hf
      rw [← hf]
      exact ⟨hready.ok.tableRange _ (by decide) hp, hused _ (hready.ok.tableUsed _ (by decide) hp)⟩
    · exact ⟨hrange, (h.used_iff scratch).mpr (.inr (.inr ⟨hp, rfl⟩))⟩
  have hframe : ∀ d, d < 1023 → (m.mem k d).has pagePresent = true →
      (d = scratchIndex ∧ frameOf (m.mem k d) = scratch) ∨
        (d ≠ scratchIndex ∧ (m0.mem k d).has pagePresent = true ∧
          frameOf (m.mem k d) = frameOf (m0.mem k d)) := by
    intro d hd hp
    by_cases hds : d = scratchIndex
    · subst hds
      exact .inl ⟨rfl, h.pde.2⟩
    · rw [h.kernel d hds] at hp ⊢
      exact .inr ⟨hds, hp, rfl⟩
  refine
    { range := hready.ok.range
      dirUsed := hused k hready.ok.dirUsed
      recursive := by
        rw [h.kernel _ (by decide)]
        exact hready.ok.recursive
      tableRange := fun d hd hp => ?_
      tableUsed := fun d hd hp => ?_
      tableNe := fun d hd hp => ?_
      distinct := fun d e hd he hp hp' hf => ?_ }
  · rcases hframe d hd hp with ⟨-, hf⟩ | ⟨-, hp0, hf⟩ <;> rw [hf]
    · exact hscratch.1
    · exact hready.ok.tableRange d hd hp0
  · rcases hframe d hd hp with ⟨-, hf⟩ | ⟨-, hp0, hf⟩ <;> rw [hf]
    · exact hscratch.2
    · exact hused _ (hready.ok.tableUsed d hd hp0)
  · rcases hframe d hd hp with ⟨-, hf⟩ | ⟨-, hp0, hf⟩ <;> rw [hf]
    · exact hsk
    · exact hready.ok.tableNe d hd hp0
  · rcases hframe d hd hp with ⟨hds, hf1⟩ | ⟨hds, hp0, hf1⟩ <;>
      rcases hframe e he hp' with ⟨hes, hf2⟩ | ⟨hes, hp1, hf2⟩ <;> rw [hf1, hf2] at hf
    · rw [hds, hes]
    · exact absurd hf.symm (hother e he hes hp1)
    · exact absurd hf (hother d hd hds hp0)
    · exact hready.ok.distinct d e hd he hp0 hp1 hf

end

theorem directory_eq (h : m.cr3 = k * pageSize) : m.directory = k := by
  rw [Machine.directory, h]
  exact Nat.mul_div_cancel k (by decide)

/-- A directory that has nothing but entries of the kernel's is well formed. -/
theorem DirectoryOk.copied (hk : DirectoryOk m0 k) (hrange : 0 < dir ∧ dir < frameCount)
    (hdir : m.used dir = true) (hused : ∀ x, m0.used x = true → m.used x = true)
    (hne : ∀ d, d < 1023 → (m0.mem k d).has pagePresent = true → frameOf (m0.mem k d) ≠ dir)
    (hself : m.mem dir recursiveDirectoryIndex =
      entryFor (dir * pageSize) (pagePresent ||| pageWritable))
    (hentry : ∀ d, d < 1023 → (m.mem dir d).has pagePresent = true →
      m.mem dir d = m0.mem k d ∧ (m0.mem k d).has pagePresent = true) : DirectoryOk m dir where
  range := hrange
  dirUsed := hdir
  recursive := by
    rw [hself]
    refine ⟨?_, frameOf_entryFor (Nat.lt_trans hrange.2 (by decide)) (by decide)⟩
    rw [entryFor_has _ _ (by decide)]
    decide
  tableRange d hd hp := by
    obtain ⟨he, hk'⟩ := hentry d hd hp
    rw [he]
    exact hk.tableRange d hd hk'
  tableUsed d hd hp := by
    obtain ⟨he, hk'⟩ := hentry d hd hp
    rw [he]
    exact hused _ (hk.tableUsed d hd hk')
  tableNe d hd hp := by
    obtain ⟨he, hk'⟩ := hentry d hd hp
    rw [he]
    exact hne d hd hk'
  distinct d e hd he hp hp' hf := by
    obtain ⟨hd', hk'⟩ := hentry d hd hp
    obtain ⟨he', hk''⟩ := hentry e he hp'
    rw [hd', he'] at hf
    exact hk.distinct d e hd he hk' hk'' hf

/-- The new directory is clean: nothing is mapped in it. -/
theorem Created.clean (h : Created (m0.markUsed dir) k scratch dir m) (hready : KernelReady m0 k)
    (hfree : m0.used dir = false) (hrange : 0 < dir ∧ dir < frameCount) :
    Clean m0 k dir [] [] m := by
  obtain ⟨hsd, hsk, hother⟩ := h.distinct hready hfree
  have hok := h.kernelOk hready hfree
  have hused : ∀ x, m0.used x = true → m.used x = true := fun x hx => (h.used_iff x).mpr (.inl hx)
  have hne : ∀ x, m0.used x = true → x ≠ dir := by
    rintro x hx rfl
    rw [hfree] at hx
    cases hx
  have hscratch : m.scratchTable k = scratch := h.pde.2
  have hrow : ∀ d, m.mem dir d = newEntry (m0.mem k) dir d := h.row
  have hentry : ∀ d, d < 1023 → (m.mem dir d).has pagePresent = true →
      m.mem dir d = m0.mem k d ∧ d ≠ scratchIndex ∧ (m0.mem k d).shared = true := by
    intro d hd hp
    rw [hrow d] at hp ⊢
    exact newEntry_present hd hp
  have hdirOk : DirectoryOk m dir := by
    refine hready.ok.copied hrange ((h.used_iff dir).mpr (.inr (.inl rfl))) hused ?_ ?_ ?_
    · exact fun d hd hp => hne _ (hready.ok.tableUsed d hd hp)
    · rw [h.row, newEntry, if_pos rfl]
    · intro d hd hp
      obtain ⟨he, -, hs⟩ := hentry d hd hp
      exact ⟨he, (shared_spec hs).1⟩
  have hprivate : ∀ d, Private m0 k d → (m.mem dir d).has pagePresent ≠ true := by
    intro d hd hp
    obtain ⟨-, -, hs⟩ := hentry d hd.lt hp
    rw [hd.unshared] at hs
    cases hs
  have hdirScratch : (m.mem dir scratchIndex).has pagePresent = false :=
    Bool.eq_false_iff.mpr fun hp => (hentry scratchIndex (by decide) hp).2.1 rfl
  refine
    { building :=
        { cr3 := h.cr3.trans hready.cr3
          kernelDirectory := h.kernelDirectory.trans hready.kernelDirectory
          ready := ⟨?_, hok, ⟨h.pde.1, rfl⟩, ?_⟩
          dirOk := hdirOk
          dirNe := (hne k hready.ok.dirUsed).symm
          dirScratch := hdirScratch
          tableNe := ?_
          kernelTableNe := ?_
          kernelPde := h.kernel
          shared := ?_
          usedMono := hused
          page := fun f hf => absurd hf not_mem_nil }
      nodup := nodup_nil
      kept := ⟨?_, ?_, ?_⟩
      layout :=
        { dirFresh := hfree
          user := fun d hd hp => absurd hp (hprivate d hd)
          supervisor := ?_
          fresh := fun d hd hp => absurd hp (hprivate d hd)
          page := fun d t hd _ hp => absurd hp (hprivate d hd) }
      accounted := ?_ }
  · exact directory_eq (h.cr3.trans hready.cr3)
  · rw [hscratch, h.empty]
    exact zero_not_present
  · intro d hd hp
    obtain ⟨he, hds, hs⟩ := hentry d hd hp
    rw [he, hscratch]
    exact ⟨hready.ok.tableNe d hd (shared_spec hs).1, hother d hd hds (shared_spec hs).1⟩
  · -- no page table of the kernel's, the scratch slot's included, is the new frame
    intro d hd hp
    by_cases hds : d = scratchIndex
    · rw [hds, h.pde.2]
      exact hsd
    · rw [h.kernel d hds] at hp ⊢
      exact hne _ (hready.ok.tableUsed d hd hp)
  · intro d hd hds hs
    rw [hrow, newEntry_shared hd hds hs]
    exact ⟨(shared_spec hs).1, rfl⟩
  · intro d hd hds hp
    exact h.rest _ (hready.ok.tableNe d hd hp) (hother d hd hds hp) (hne _ (hready.ok.tableUsed d hd hp))
  · -- the scratch slot had a page table: its entry was raised and nothing else
    intro hp
    rcases h.slot with ⟨-, hf, -, hpde, hrow⟩ | ⟨habsent, -⟩
    · change frameOf (m0.mem k scratchIndex) = scratch at hf
      rw [hscratch, Machine.scratchTable, hf]
      exact ⟨rfl, hpde, hrow⟩
    · change (m0.mem k scratchIndex).has pagePresent = false at habsent
      rw [hp] at habsent
      cases habsent
  · -- the scratch slot got a page table: it is empty again
    intro habsent
    rcases h.slot with ⟨hp, -⟩ | ⟨-, -, hnew, -, hrow⟩
    · change (m0.mem k scratchIndex).has pagePresent = true at hp
      rw [hp] at habsent
      cases habsent
    · rw [hscratch]
      refine ⟨?_, fun t => ?_⟩
      · rw [← Bool.not_eq_true]
        intro hold
        have hnew' : update m0.used dir true scratch = false := hnew
        rw [update_of_ne hsd, hold] at hnew'
        cases hnew'
      · by_cases ht : t = 0
        · rw [ht, h.empty]
        · exact hrow t ht
  · intro d hd hds hs
    rw [hrow, newEntry_shared hd hds hs]
    exact (shared_spec hs).2
  · -- the directory owns its own frame only
    intro x
    have howned : Owned m dir x ↔ x = dir := by
      refine ⟨?_, .inl⟩
      rintro (hx | ⟨d, hd, hp, hu, -⟩)
      · exact hx
      · obtain ⟨he, -, hs⟩ := hentry d hd hp
        rw [he, (shared_spec hs).2] at hu
        cases hu
    rw [h.used_iff, howned, hscratch]
    simp

/-- `paging_create_user_directory` returns, without a directory or with a new one. -/
theorem create_cases (h : KernelReady m0 k) :
    ∃ r, pagingCreateUserDirectory m0 = some r ∧
      (r.1 = none ∨ ∃ dir scratch, r.1 = some (dir * pageSize) ∧ m0.used dir = false ∧
        (0 < dir ∧ dir < frameCount) ∧ Created (m0.markUsed dir) k scratch dir r.2) := by
  rcases pmmAllocateFrame_cases m0 with ⟨hnone, -⟩ | ⟨dir, hsome, hpos, hlt, hfree, -⟩
  · exact ⟨(none, m0), by rw [pagingCreateUserDirectory, hnone], .inl rfl⟩
  · have hrange : 0 < dir ∧ dir < frameCount := ⟨hpos, hlt⟩
    have hok : DirectoryOk (m0.markUsed dir) k :=
      h.ok.congr (fun x hx => .inl (m0.markUsed_mono dir hx)) fun _ => ⟨rfl, rfl⟩
    have hm : (m0.markUsed dir).directory = k := directory_eq h.cr3
    rw [pagingCreateUserDirectory, hsome]
    dsimp only
    rcases mapScratch_cases hok hm h.slot (Nat.lt_trans hlt (by decide)) with
      ⟨-, hfail⟩ | ⟨scratch, m', hmap, hopen⟩
    · rw [hfail]
      exact ⟨_, rfl, .inl rfl⟩
    · have hdk : dir ≠ k := by
        rintro rfl
        rw [h.ok.dirUsed] at hfree
        cases hfree
      have hsd : dir ≠ scratch ∧ scratch ≠ k := by
        rcases hopen.slot with ⟨hp, hf, -⟩ | ⟨-, -, hnew, -⟩
        · rw [← hf]
          refine ⟨fun he => ?_, hok.tableNe _ (by decide) hp⟩
          have hold := h.ok.tableUsed scratchIndex (by decide) hp
          rw [show frameOf (m0.mem k scratchIndex) = dir from he.symm, hfree] at hold
          cases hold
        · refine ⟨?_, ?_⟩
          · rintro rfl
            rw [show (m0.markUsed dir).used dir = true from update_self ..] at hnew
            cases hnew
          · rintro rfl
            rw [hok.dirUsed] at hnew
            cases hnew
      obtain ⟨m1, m2, m3, m4, hedit, hcopy, hstore, hunmap, hcreated⟩ :=
        hopen.fill hok hdk hsd.1 hsd.2
      refine ⟨(some (dir * pageSize), m4), ?_, .inr ⟨dir, scratch, rfl, hfree, hrange, hcreated⟩⟩
      rw [hmap]
      simp only [Option.bind_eq_bind, hedit, Option.bind_some, hcopy, hstore, hunmap]
      rfl

/-! ## The caller's operations -/

/-- The machine, and the frames the caller has taken and not mapped. -/
structure Caller where
  machine : Machine
  loose : List Nat

inductive Op where
  /-- `pmm_allocate_frame`. -/
  | take
  /-- `paging_map_page_in_directory` of one of the caller's frames. -/
  | map (v frame : Nat) (flags : Word)
  /-- `pmm_free_frame` of one of the caller's frames. -/
  | give (frame : Nat)

def Op.apply (directory : Nat) (s : Caller) : Op → Option Caller
  | .take =>
    match pmmAllocateFrame s.machine with
    | none => some s
    | some (address, m) => some ⟨m, address / pageSize :: s.loose⟩
  | .map v frame flags =>
    if frame ∈ s.loose then do
      let (mapped, m) ← pagingMapPageInDirectory s.machine directory v (frame * pageSize) flags
      return ⟨m, if mapped then s.loose.erase frame else s.loose⟩
    else some s
  | .give frame =>
    if frame ∈ s.loose then
      some ⟨pmmFreeFrame s.machine (frame * pageSize), s.loose.erase frame⟩
    else some s

/-- A user mapping at an address whose directory entry is absent in the kernel. -/
def Op.Admissible (m0 : Machine) (k : Nat) : Op → Prop
  | .map v _ flags => flags.has pageUser = true ∧
      (m0.mem k (pageDirectoryIndex v)).has pagePresent = false
  | _ => True

/-- The frame and the permissions (user, writable) a virtual address has in a directory. -/
def mapping (m : Machine) (directory v : Nat) : Option (Nat × Bool × Bool) :=
  let pde := m.mem directory (pageDirectoryIndex v)
  let pte := m.mem (frameOf pde) (pageTableIndex v)
  if pde.has pagePresent && pte.has pagePresent then
    some (frameOf pte, pde.has pageUser && pte.has pageUser,
      pde.has pageWritable && pte.has pageWritable)
  else none

/-- The kernel's mappings, below the window on the page tables themselves. -/
def SameMappings (m0 : Machine) (k : Nat) (m : Machine) : Prop :=
  ∀ v, pageDirectoryIndex v < 1023 → mapping m k v = mapping m0 k v

/-- The kernel's own directory is active, and its scratch slot is free and, like
every page table `paging_map_page` makes, under a writable entry. -/
structure KernelStart (m : Machine) (k : Nat) : Prop extends KernelReady m k where
  slotWritable : (m.mem k scratchIndex).has pagePresent = true →
    (m.mem k scratchIndex).has pageWritable = true

variable {loose pages : List Nat} {s : Caller}

theorem mapping_none {v : Nat} (h : (m.mem (frameOf (m.mem k (pageDirectoryIndex v)))
    (pageTableIndex v)).has pagePresent = false) : mapping m k v = none := by
  unfold mapping
  dsimp only
  rw [h, Bool.and_false]
  rfl

theorem Clean.sameMappings (h : Clean m0 k dir loose pages m) (hstart : KernelStart m0 k) :
    SameMappings m0 k m := by
  intro v hv
  by_cases hd : pageDirectoryIndex v = scratchIndex
  · -- the scratch slot: its first page is free, the others are what they were
    by_cases ht : pageTableIndex v = 0
    · have hfree : mapping m k v = none := by
        apply mapping_none
        rw [hd, ht]
        exact h.building.ready.free
      rw [hfree]
      unfold mapping
      dsimp only
      cases hp : (m0.mem k scratchIndex).has pagePresent with
      | false => rw [hd, hp, Bool.false_and, if_neg nofun]
      | true => rw [hd, ht, hp, hstart.slot hp, Bool.and_false, if_neg nofun]
    · cases hp : (m0.mem k scratchIndex).has pagePresent with
      | true =>
        -- its entry was raised, which changes nothing where it was writable before
        obtain ⟨hs, hpde, hrow⟩ := h.kept.scratch hp
        have hw : (m.mem k scratchIndex).has pageWritable = true := by
          rw [hpde, raisedPde, Word.has_or]
          simp [Word.has, pageWritable]
        have hu : (m.mem k scratchIndex).has pageUser = (m0.mem k scratchIndex).has pageUser := by
          rw [hpde, raisedPde_user]
          simp [Word.has, pageWritable, pageUser]
        have hp' : (m.mem k scratchIndex).has pagePresent = true := h.building.ready.pde.1
        have hrow' : m.mem (frameOf (m.mem k scratchIndex)) (pageTableIndex v) =
            m0.mem (frameOf (m0.mem k scratchIndex)) (pageTableIndex v) := by
          have he : m.mem (m.scratchTable k) (pageTableIndex v) =
              m0.mem (m0.scratchTable k) (pageTableIndex v) := by
            rw [hs]
            exact hrow _ ht
          exact he
        unfold mapping
        dsimp only
        rw [hd, hrow', hp', hw, hu, hp, hstart.slotWritable hp]
      | false =>
        have hzero := (h.kept.newScratch hp).2 (pageTableIndex v)
        have hnone : mapping m k v = none := by
          apply mapping_none
          rw [hd]
          change (m.mem (m.scratchTable k) (pageTableIndex v)).has pagePresent = false
          rw [hzero]
          exact zero_not_present
        rw [hnone]
        unfold mapping
        dsimp only
        rw [hd, hp, Bool.false_and, if_neg nofun]
  · have hpde := h.building.kernelPde _ hd
    unfold mapping
    dsimp only
    rw [hpde]
    cases hp : (m0.mem k (pageDirectoryIndex v)).has pagePresent with
    | false => rfl
    | true => rw [h.kept.table _ hv hd hp]

/-! ## A whole life -/

theorem pmmFreeFrame_eq (m : Machine) (hf : 0 < f ∧ f < frameCount) :
    pmmFreeFrame m (f * pageSize) = m.markFree f := by
  have haligned : ¬f * pageSize % pageSize ≠ 0 := by
    rw [Nat.mul_mod_left]
    exact fun hne => hne rfl
  have hrange : ¬(f * pageSize = 0 ∨ frameCount * pageSize ≤ f * pageSize) := by
    rw [pageSize]
    omega
  rw [pmmFreeFrame, if_neg haligned, if_neg hrange, Nat.mul_div_cancel f (by decide)]

/-- One operation of the caller: it returns, and the directory stays clean. -/
theorem Clean.apply (h : Clean m0 k dir s.loose pages s.machine) (hready : KernelReady m0 k) {op : Op}
    (hop : op.Admissible m0 k) :
    ∃ s' pages', op.apply (dir * pageSize) s = some s' ∧
      Clean m0 k dir s'.loose pages' s'.machine := by
  cases op with
  | take =>
    rcases pmmAllocateFrame_cases s.machine with ⟨hnone, -⟩ | ⟨f, hsome, hpos, hlt, hfree, -⟩
    · refine ⟨s, pages, ?_, h⟩
      show (match pmmAllocateFrame s.machine with
        | none => some s
        | some (address, m) => some ⟨m, address / pageSize :: s.loose⟩) = _
      rw [hnone]
    · refine ⟨⟨s.machine.markUsed f, f :: s.loose⟩, pages, ?_, h.taken hfree ⟨hpos, hlt⟩⟩
      show (match pmmAllocateFrame s.machine with
        | none => some s
        | some (address, m) => some ⟨m, address / pageSize :: s.loose⟩) = _
      rw [hsome]
      show some _ = _
      rw [Nat.mul_div_cancel f (by decide)]
  | give f =>
    by_cases hf : f ∈ s.loose
    · have hfree := pmmFreeFrame_eq s.machine (h.loose_page hf).1.range
      refine ⟨⟨s.machine.markFree f, s.loose.erase f⟩, pages, ?_, h.given hf⟩
      show (if f ∈ s.loose then _ else _) = _
      rw [if_pos hf, hfree]
    · refine ⟨s, pages, ?_, h⟩
      show (if f ∈ s.loose then _ else _) = _
      rw [if_neg hf]
  | map v f flags =>
    by_cases hf : f ∈ s.loose
    · -- the call is rejected before it touches the directory
      have hreject : pagingMapPageInDirectory s.machine (dir * pageSize) v (f * pageSize) flags =
          some (false, s.machine) →
            ∃ s' pages', (Op.map v f flags).apply (dir * pageSize) s = some s' ∧
              Clean m0 k dir s'.loose pages' s'.machine := by
        intro hr
        refine ⟨s, pages, ?_, h⟩
        show (if f ∈ s.loose then (pagingMapPageInDirectory s.machine (dir * pageSize) v
          (f * pageSize) flags).bind _ else _) = _
        rw [if_pos hf, hr]
        rfl
      obtain ⟨hu, habsent⟩ := hop
      have hdk : dir * pageSize ≠ s.machine.kernelDirectory := by
        rw [h.building.kernelDirectory]
        exact fun he => h.building.dirNe (Nat.eq_of_mul_eq_mul_right (by decide) he)
      by_cases hv : v % pageSize = 0
      · -- an address the kernel has nothing at is below the window on the page tables
        have hlast : pageDirectoryIndex v ≠ recursiveDirectoryIndex := by
          intro he
          rw [he, hready.ok.recursive.1] at habsent
          cases habsent
        have hlt : pageDirectoryIndex v < 1023 := by
          have hbound : pageDirectoryIndex v < 1024 := Nat.mod_lt _ (by decide)
          rw [recursiveDirectoryIndex] at hlast
          omega
        by_cases hscratch : pageDirectoryIndex v = scratchIndex
        · apply hreject
          unfold pagingMapPageInDirectory
          split
          · rfl
          · rw [if_pos (.inr hscratch)]
        · have hd : Private m0 k (pageDirectoryIndex v) :=
            ⟨hlt, hscratch, by rw [Word.shared, habsent, Bool.false_and]⟩
          obtain ⟨⟨ok, m'⟩, hr, hout⟩ := h.building.mapInDirectory hv hlt hscratch f flags
          have hnext := h.mapped hready hf hd (Nat.mod_lt _ (by decide)) hu hout
          refine ⟨⟨m', if ok then s.loose.erase f else s.loose⟩, if ok then f :: pages else pages, ?_, ?_⟩
          · show (if f ∈ s.loose then (pagingMapPageInDirectory s.machine (dir * pageSize) v
              (f * pageSize) flags).bind _ else _) = _
            rw [if_pos hf, hr]
            rfl
          · cases ok with
            | true => exact hnext
            | false => exact hnext
      · apply hreject
        unfold pagingMapPageInDirectory
        rw [if_pos (.inr (.inr (.inl hv)))]
    · refine ⟨s, pages, ?_, h⟩
      show (if f ∈ s.loose then _ else _) = _
      rw [if_neg hf]

/-- All operations return, and the directory stays clean. -/
theorem Clean.applyAll (hready : KernelReady m0 k) : ∀ {ops : List Op} {s : Caller} {pages : List Nat},
    Clean m0 k dir s.loose pages s.machine → (∀ op ∈ ops, op.Admissible m0 k) →
    ∃ s' pages', ops.foldlM (Op.apply (dir * pageSize)) s = some s' ∧
      Clean m0 k dir s'.loose pages' s'.machine
  | [], s, pages, h, _ => ⟨s, pages, rfl, h⟩
  | op :: ops, s, pages, h, hops => by
    obtain ⟨s1, pages1, hs1, h1⟩ := h.apply hready (hops op mem_cons_self)
    obtain ⟨s2, pages2, hs2, h2⟩ := Clean.applyAll hready h1 fun o ho =>
      hops o (mem_cons_of_mem _ ho)
    refine ⟨s2, pages2, ?_, h2⟩
    rw [foldlM_cons, hs1]
    exact hs2

/-- Destroying a clean directory gives back what it owns, and leaves the kernel's
mappings and its directory alone. -/
theorem Clean.destroyed (h : Clean m0 k dir loose pages m) (hstart : KernelStart m0 k) :
    ∃ m', pagingDestroyUserDirectory m (dir * pageSize) = some m' ∧ SameMappings m0 k m' ∧
      ∀ x, m'.used x = true ↔ m0.used x = true ∨ x ∈ loose ∨
        ((m0.mem k scratchIndex).has pagePresent = false ∧ x = m'.scratchTable k) := by
  obtain ⟨m', hm', -, -, hrest, hused⟩ := h.building.destroy
  -- no page table of the kernel's is one the directory owns
  have hkernel : m'.mem k = m.mem k := by
    refine hrest k h.building.dirNe.symm fun d hd hp _ => ?_
    exact Ne.symm (h.building.tableNe d hd hp).1
  have htable : ∀ d, d < 1023 → (m.mem k d).has pagePresent = true →
      m'.mem (frameOf (m.mem k d)) = m.mem (frameOf (m.mem k d)) := by
    intro d hd hp
    refine hrest _ (h.building.kernelTableNe d hd hp) fun e he hpe hue => ?_
    by_cases hds : d = scratchIndex
    · rw [hds]
      exact Ne.symm (h.building.tableNe e he hpe).2
    · have hfresh := h.layout.fresh e (h.private_of_user he hpe hue) hpe
      rw [h.building.kernelPde d hds] at hp ⊢
      intro heq
      rw [← heq, hstart.ok.tableUsed d hd hp] at hfresh
      cases hfresh
  refine ⟨m', hm', fun v hv => ?_, fun x => ?_⟩
  · rw [← h.sameMappings hstart v hv]
    unfold mapping
    dsimp only
    rw [hkernel]
    cases hp : (m.mem k (pageDirectoryIndex v)).has pagePresent with
    | false => rfl
    | true => rw [htable _ hv hp]
  · have hscratch : m'.scratchTable k = m.scratchTable k := by
      rw [Machine.scratchTable, hkernel, Machine.scratchTable]
    rw [hused, h.accounted x, hscratch]
    constructor
    · rintro ⟨hold | howned | hs | hl, hnot⟩
      · exact .inl hold
      · exact absurd ⟨(h.owned_spec howned).1, howned⟩ hnot
      · exact .inr (.inr hs)
      · exact .inr (.inl hl)
    · rintro (hold | hl | hs)
      · refine ⟨.inl hold, fun howned => ?_⟩
        rw [(h.owned_spec howned.2).2.1] at hold
        cases hold
      · exact ⟨.inr (.inr (.inr hl)), fun howned => (h.owned_spec howned.2).2.2.2 hl⟩
      · exact ⟨.inr (.inr (.inl hs)), fun howned => (h.owned_spec howned.2).2.2.1 hs.2⟩

/-- From the creation of a directory to its destruction. -/
theorem lifecycle {directory : Nat} {m₁ : Machine} (hstart : KernelStart m0 k)
    (hcreate : pagingCreateUserDirectory m0 = some (some directory, m₁)) {ops : List Op}
    (hops : ∀ op ∈ ops, op.Admissible m0 k) :
    ∃ s m₂, ops.foldlM (Op.apply directory) ⟨m₁, []⟩ = some s ∧
      pagingDestroyUserDirectory s.machine directory = some m₂ ∧
      SameMappings m0 k s.machine ∧ SameMappings m0 k m₂ ∧
      ∀ x, m₂.used x = true ↔ m0.used x = true ∨ x ∈ s.loose ∨
        ((m0.mem k scratchIndex).has pagePresent = false ∧ x = m₂.scratchTable k) := by
  obtain ⟨r, hr, hcase⟩ := create_cases hstart.toKernelReady
  obtain rfl := Option.some.inj (hcreate.symm.trans hr)
  rcases hcase with hnone | ⟨dir, scratch, hdir, hfree, hrange, hcreated⟩
  · cases hnone
  · obtain rfl := Option.some.inj hdir
    have hbegin : Clean m0 k dir (Caller.mk m₁ []).loose [] (Caller.mk m₁ []).machine :=
      hcreated.clean hstart.toKernelReady hfree hrange
    obtain ⟨s, pages, hs, h⟩ := Clean.applyAll hstart.toKernelReady hbegin hops
    obtain ⟨m₂, hm2, hsame, hused⟩ := h.destroyed hstart
    exact ⟨s, m₂, hs, hm2, h.sameMappings hstart, hsame, hused⟩

/-- A machine whose kernel directory, in frame 1, maps nothing but itself. -/
def bare : Machine where
  mem frame i := if frame = 1 ∧ i = recursiveDirectoryIndex then 0x1003#32 else 0#32
  used frame := decide (frame ≤ 1)
  cr3 := pageSize
  kernelDirectory := pageSize

theorem bare_start : KernelStart bare 1 := by
  have habsent : ∀ d, d < 1023 → (bare.mem 1 d).has pagePresent ≠ true := by
    intro d hd
    have hzero : bare.mem 1 d = 0#32 := if_neg fun h => Nat.ne_of_lt hd h.2
    rw [hzero, zero_not_present]
    exact nofun
  exact
    { cr3 := rfl
      kernelDirectory := rfl
      ok :=
        { range := by decide
          dirUsed := rfl
          recursive := by decide
          tableRange := fun d hd hp => absurd hp (habsent d hd)
          tableUsed := fun d hd hp => absurd hp (habsent d hd)
          tableNe := fun d hd hp => absurd hp (habsent d hd)
          distinct := fun d _ hd _ hp => absurd hp (habsent d hd) }
      slot := fun hp => absurd hp (habsent _ (by decide))
      slotWritable := fun hp => absurd hp (habsent _ (by decide)) }

/-- One user page is mapped, one frame is kept. -/
theorem lifecycle_bare : ∃ directory m₁ s m₂,
    pagingCreateUserDirectory bare = some (some directory, m₁) ∧
      [Op.take, .take, .map 0x40000000 4 (pageUser ||| pageWritable)].foldlM (Op.apply directory)
        ⟨m₁, []⟩ = some s ∧
      pagingDestroyUserDirectory s.machine directory = some m₂ ∧
      SameMappings bare 1 s.machine ∧ SameMappings bare 1 m₂ ∧
      ∀ x, m₂.used x = true ↔ bare.used x = true ∨ x ∈ s.loose ∨
        ((bare.mem 1 scratchIndex).has pagePresent = false ∧ x = m₂.scratchTable 1) := by
  have hcreate : (pagingCreateUserDirectory bare).any (fun r => r.1.isSome) = true := by
    decide +kernel
  obtain ⟨⟨r, m₁⟩, hr, hsome⟩ := (Option.any_eq_true _ _).mp hcreate
  obtain ⟨directory, rfl⟩ := Option.isSome_iff_exists.mp hsome
  have hops : ∀ op ∈ [Op.take, .take, .map 0x40000000 4 (pageUser ||| pageWritable)],
      op.Admissible bare 1 := by
    intro op hop
    simp only [List.mem_cons, List.not_mem_nil, or_false] at hop
    rcases hop with rfl | rfl | rfl
    · trivial
    · trivial
    · exact ⟨by decide, by decide⟩
  obtain ⟨s, m₂, h⟩ := lifecycle bare_start hr hops
  exact ⟨directory, m₁, s, m₂, hr, h⟩

/-- The first creation of a directory leaves the page table of the scratch slot behind. -/
theorem not_lifecycle : ¬ ∀ (m0 m₁ m₂ : Machine) (k directory : Nat) (ops : List Op) (s : Caller),
    KernelStart m0 k → pagingCreateUserDirectory m0 = some (some directory, m₁) →
    (∀ op ∈ ops, op.Admissible m0 k) → ops.foldlM (Op.apply directory) ⟨m₁, []⟩ = some s →
    s.loose = [] → pagingDestroyUserDirectory s.machine directory = some m₂ →
    m₂.used = m0.used := by
  intro h
  have hrun : (pagingCreateUserDirectory bare).any (fun r => r.1.any fun directory =>
      (pagingDestroyUserDirectory r.2 directory).any fun m₂ => m₂.used 3) = true := by decide +kernel
  obtain ⟨⟨r, m₁⟩, hr, hrest⟩ := (Option.any_eq_true _ _).mp hrun
  obtain ⟨directory, rfl, hrest⟩ := (Option.any_eq_true _ _).mp hrest
  obtain ⟨m₂, hm2, hused⟩ := (Option.any_eq_true _ _).mp hrest
  have hsame := h bare m₁ m₂ 1 directory [] ⟨m₁, []⟩ bare_start hr (fun _ hop => nomatch hop) rfl rfl hm2
  rw [hsame] at hused
  cases hused

end MeatySkeleton.Paging
