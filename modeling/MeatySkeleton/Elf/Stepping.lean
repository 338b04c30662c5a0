import MeatySkeleton.Elf.Ownership

/-!
# The steps keep the invariant

One lemma for each kind of step: the step goes through, changes frames of its own
load only, and leaves what the load owns as `Own.perform` says.
-/

namespace MeatySkeleton.Elf

open Function Option Lib Paging

variable {ι : Type} {m0 m m' : Machine} {k dir f : Nat}
  {role role' : Nat → Role ι} {i j : ι} {l l' : Load} {p q : Own} {load : ι → Load} {own : ι → Own}
  {w : World ι} {final : ι → Own}

/-! ## The parts of the invariant -/

section

variable (h : KernelKeeps m0 k m role)

include h

/-- The kernel's part, when its directory is not written. -/
theorem KernelKeeps.congr (hcr3 : m'.cr3 = m.cr3)
    (hkd : m'.kernelDirectory = m.kernelDirectory) (hrow : m'.mem k = m.mem k)
    (hused : ∀ x, m.used x = true → m'.used x = true)
    (hkernel : ∀ x, role x = .kernel → role' x = .kernel)
    (hnew : ∀ x, role' x ≠ role x → m'.used x = true ∧ 0 < x ∧ x < frameCount) :
    KernelKeeps m0 k m' role' where
  cr3 := hcr3.trans h.cr3
  kernelDirectory := hkd.trans h.kernelDirectory
  ok := h.ok.congr (fun x hx => .inl (hused x hx)) fun d => by rw [hrow]; exact ⟨rfl, rfl⟩
  pde d hd := by
    rw [hrow]
    exact h.pde d hd
  owned := hkernel k h.owned
  tableRole d hd hp := by
    rw [hrow] at hp ⊢
    exact hkernel _ (h.tableRole d hd hp)
  used x hx := by
    by_cases he : role' x = role x
    · rw [he] at hx
      exact hused x (h.used x hx)
    · exact (hnew x he).1
  range x j hx := by
    by_cases he : role' x = role x
    · rw [he] at hx
      exact h.range x j hx
    · exact (hnew x he).2

theorem KernelKeeps.directory : m.directory = k :=
  directory_eq h.cr3

/-- A frame the allocator can hand out is nobody's. -/
theorem KernelKeeps.free {x : Nat} (hx : m.used x = false) :
    role x = .free := by
  by_contra hne
  rw [h.used x hne] at hx
  cases hx

/-- A load's frame is not one of the kernel's. -/
theorem KernelKeeps.ne_kernel {x : Nat} {j : ι}
    (hx : (role x).owner = some j) :
    x ≠ k ∧ ((m.mem k scratchIndex).has pagePresent = true → x ≠ m.scratchTable k) := by
  refine ⟨fun he => ?_, fun hp he => ?_⟩
  · rw [he, h.owned] at hx
    cases hx
  · rw [he, Machine.scratchTable, h.tableRole scratchIndex (by decide) hp] at hx
    cases hx

end

/-- The slot, when nobody maps or unmaps the scratch page. -/
theorem Slot.congr {load' : ι → Load} {own' : ι → Own} (h : Slot m k load own)
    (htarget : ∀ j, (own' j).target = (own j).target)
    (hheld : ∀ j, heldFrame (load' j) (own' j) = heldFrame (load j) (own j))
    (hdirectory : m'.directory = m.directory) (hrow : m'.mem k = m.mem k)
    (htable : (m.mem k scratchIndex).has pagePresent = true →
      m'.mem (m.scratchTable k) = m.mem (m.scratchTable k)) : Slot m' k load' own' := by
  have hscratch : m'.scratchTable k = m.scratchTable k := by
    rw [Machine.scratchTable, hrow, Machine.scratchTable]
  refine
    { free := fun hnone hp => ?_
      held := fun j hj => ?_
      alone := fun i j hi hj => ?_ }
  · rw [hrow] at hp
    rw [hscratch, htable hp]
    exact h.free (fun j => (htarget j).symm.trans (hnone j)) hp
  · rw [htarget] at hj
    obtain ⟨x, hx, ho⟩ := h.held j hj
    refine ⟨x, (hheld j).trans hx, hdirectory.trans ho.directory, ?_, ?_⟩
    · rw [hrow, hscratch]
      exact ho.pde
    · rw [hscratch, htable ho.pde.1]
      exact ho.pte
  · rw [htarget] at hi hj
    exact h.alone i j hi hj

theorem SpaceKept.allocated (hf : role f = .free) :
    SpaceKept m (m.markUsed f) role (update role f (.draft j)) i := by
  refine fun x hx => ⟨rfl, update_of_ne (fun he => ?_) ..⟩
  rw [he, hf] at hx
  cases hx

/-- What opening the slot does to the kernel's part; the slot's page table may be new. -/
theorem KernelKeeps.opened {scratch : Nat} (h : KernelKeeps m0 k m role)
    (ho : SlotOpened m k scratch f m') :
    ∃ role' : Nat → Role ι, KernelKeeps m0 k m' role' ∧ (∀ x, m.used x = true → m'.used x = true) ∧
      ∀ x j, (role x).owner = some j → m'.mem x = m.mem x ∧ role' x = role x := by
  have hother : ∀ x j, (role x).owner = some j → x ≠ scratch → m'.mem x = m.mem x := by
    intro x j hx hne
    exact ho.rest x (h.ne_kernel hx).1 hne
  rcases ho.slot with ⟨hp, hframe, hused, hraised, -⟩ | ⟨habsent, hrange, hunused, hused, -⟩
  · -- the page table is there already
    have hrow : ∀ d, (m'.mem k d).has pagePresent = (m.mem k d).has pagePresent ∧
        frameOf (m'.mem k d) = frameOf (m.mem k d) := by
      intro d
      by_cases hd : d = scratchIndex
      · rw [hd, hraised]
        exact ⟨raisedPde_present .., raisedPde_frame ..⟩
      · rw [ho.kernel d hd]
        exact ⟨rfl, rfl⟩
    have hscratch : role scratch = .kernel := by
      rw [← hframe]
      exact h.tableRole scratchIndex (by decide) hp
    refine ⟨role, ?_, fun x hx => by rw [hused, hx], fun x j hx => ⟨hother x j hx ?_, rfl⟩⟩
    · exact
        { cr3 := ho.cr3.trans h.cr3
          kernelDirectory := ho.kernelDirectory.trans h.kernelDirectory
          ok := h.ok.congr (fun x hx => .inl (by rw [hused, hx])) hrow
          pde := fun d hd => (ho.kernel d hd).trans (h.pde d hd)
          owned := h.owned
          tableRole := fun d hd hp => by
            rw [(hrow d).1] at hp
            rw [(hrow d).2]
            exact h.tableRole d hd hp
          used := fun x hx => by
            rw [hused]
            exact h.used x hx
          range := h.range }
    · intro he
      rw [he, hscratch] at hx
      cases hx
  · -- the allocator just gave a frame for it
    have hfree := h.free hunused
    have hself : frameOf (m'.mem k scratchIndex) = scratch := ho.opened.pde.2
    have hrow : m'.mem k = update (m.mem k) scratchIndex (m'.mem k scratchIndex) := by
      funext d
      by_cases hd : d = scratchIndex
      · rw [hd, update_self]
      · rw [update_of_ne hd, ho.kernel d hd]
    have hmono : ∀ x, m'.used x = true ↔ m.used x = true ∨ x = scratch := by
      intro x
      rw [hused]
      exact update_used_iff
    have hrole : ∀ x, role x ≠ .free → update role scratch .kernel x = role x := by
      intro x hx
      rw [update_of_ne]
      intro he
      exact hx (he ▸ hfree)
    have howned : ∀ x j, (role x).owner = some j → role x ≠ .free := by
      intro x j hx he
      rw [he] at hx
      cases hx
    refine ⟨update role scratch .kernel, ?_, fun x hx => (hmono x).mpr (.inl hx),
      fun x j hx => ⟨hother x j hx ?_, hrole x (howned x j hx)⟩⟩
    · refine
        { cr3 := ho.cr3.trans h.cr3
          kernelDirectory := ho.kernelDirectory.trans h.kernelDirectory
          ok := h.ok.insert (by decide) hrange hunused hself hrow hmono
          pde := fun d hd => (ho.kernel d hd).trans (h.pde d hd)
          owned := by
            rw [hrole k (by rw [h.owned]; exact nofun)]
            exact h.owned
          tableRole := fun d hd hp => ?_
          used := fun x hx => ?_
          range := fun x j hx => ?_ }
      · by_cases hds : d = scratchIndex
        · rw [hds, hself, update_self]
        · rw [ho.kernel d hds] at hp ⊢
          have htable := h.tableRole d hd hp
          rw [hrole _ (by rw [htable]; exact nofun), htable]
      · by_cases he : x = scratch
        · exact (hmono x).mpr (.inr he)
        · rw [update_of_ne he] at hx
          exact (hmono x).mpr (.inl (h.used x hx))
      · by_cases he : x = scratch
        · rw [he, update_self] at hx
          cases hx
        · rw [update_of_ne he] at hx
          exact h.range x j hx
    · intro he
      rw [he, hfree] at hx
      cases hx

/-- The frame a load with the scratch page is filling. -/
theorem Private.filling (hl : Private m0 k m role i l p) {d : Draft} (hd : p.draft = some d) :
    ∃ f, l.frame = some f ∧ role f = .draft i ∧ DraftOk m0 k m f d := by
  rcases hl.draft with ⟨-, hnone⟩ | ⟨f, e, hf, he, hrole, hok⟩
  · rw [hd] at hnone
    cases hnone
  · rw [hd] at he
    obtain rfl := some.inj he
    exact ⟨f, hf, hrole, hok⟩

theorem Slot.opened (hs : Slot m k load own) (ht : (own i).target = some .draft)
    (hf : (load i).frame = some f) : Opened m k (m.scratchTable k) f := by
  obtain ⟨x, hx, ho⟩ := hs.held i (by rw [ht]; exact nofun)
  rw [heldFrame, ht] at hx
  obtain rfl := some.inj (hf.symm.trans hx)
  exact ho

/-- A byte of the top stack page is written. -/
theorem SpaceOk.written {page : Nat → Option UserPage} {n : Nat} {u : UserPage}
    (h : SpaceOk m0 k m role i dir page) (hu : page n = some u) (hpage : PageOk m role i dir n u f)
    (hf : role f = .page i n) (offset : Nat) (b : Byte) :
    SpaceOk m0 k (m.write f (setByte (m.mem f) offset b)) role i dir
      (update page n (some (u.write offset b))) ∧
    PageOk (m.write f (setByte (m.mem f) offset b)) role i dir n (u.write offset b) f := by
  have hother : ∀ x, role x ≠ .page i n →
      (m.write f (setByte (m.mem f) offset b)).mem x = m.mem x := by
    refine fun x hx => write_ne fun he => hx ?_
    rw [he, hf]
  have hrow : (m.write f (setByte (m.mem f) offset b)).mem dir = m.mem dir :=
    hother dir (by rw [h.owned]; exact nofun)
  have htable : ∀ d, roomOf m0 k d = true → d < 1023 → (m.mem dir d).has pagePresent = true →
      (m.write f (setByte (m.mem f) offset b)).mem (frameOf (m.mem dir d)) =
        m.mem (frameOf (m.mem dir d)) := by
    intro d hroom hd hp
    exact hother _ (by rw [(h.table_role hroom hd hp).1]; exact nofun)
  obtain ⟨hcount, hroom, -⟩ := h.mapped n u hu
  have hnew : PageOk (m.write f (setByte (m.mem f) offset b)) role i dir n (u.write offset b) f := by
    have hentries := htable _ hroom (page_table_lt hcount) hpage.pde
    refine
      { pde := by rw [hrow, hpage.pde]
        pte := by rw [hrow, hentries, hpage.pte]
        frame := by rw [hrow, hentries, hpage.frame]
        owned := hpage.owned
        user := by rw [hrow, hentries, hpage.user]
        writable := by rw [hrow, hentries]; exact hpage.writable
        bytes := fun j c hj hc => ?_ }
    rw [write_self, byteOf_setByte]
    change update u.bytes offset (some b) j = some c at hc
    by_cases hjo : j = offset
    · rw [hjo, update_self] at hc
      rw [if_pos hjo]
      exact some.inj hc
    · rw [update_of_ne hjo] at hc
      rw [if_neg hjo]
      exact hpage.bytes j c hj hc
  refine ⟨?_, hnew⟩
  refine
    { owned := h.owned
      ok := h.ok.congr (fun _ hx => .inl hx) fun d => by rw [hrow]; exact ⟨rfl, rfl⟩
      entry := fun d hd hp => by
        rw [hrow] at hp ⊢
        exact h.entry d hd hp
      mapped := fun n' u' hu' => ?_
      unmapped := fun n' hn' hroom' hnone hp => ?_ }
  · by_cases hn : n' = n
    · subst hn
      rw [update_self] at hu'
      obtain rfl := some.inj hu'
      exact ⟨hcount, hroom, f, hnew⟩
    · rw [update_of_ne hn] at hu'
      obtain ⟨hn', hroom', f', hpage'⟩ := h.mapped n' u' hu'
      have hentries := htable _ hroom' (page_table_lt hn') hpage'.pde
      have hf' : (m.write f (setByte (m.mem f) offset b)).mem f' = m.mem f' := by
        refine hother f' fun he => hn ?_
        rw [hpage'.owned] at he
        exact (Role.page.inj he).2
      exact ⟨hn', hroom', f', hpage'.of_entry (by rw [hrow, hpage'.pde]) (by rw [hrow, hentries]) hf'
        hpage'.owned⟩
  · -- a page that is not mapped stays so: only the frame of page `n` was written
    have hn : n' ≠ n := by
      intro he
      rw [he, update_self] at hnone
      cases hnone
    rw [update_of_ne hn] at hnone
    rw [hrow] at hp ⊢
    rw [htable _ hroom' (page_table_lt hn') hp]
    exact h.unmapped n' hn' hroom' hnone hp

variable [DecidableEq ι]

/-- What holds after a step of load `i`. -/
structure Stepped (m0 : Machine) (k : Nat) (m : Machine) (load : ι → Load) (own : ι → Own)
    (role : Nat → Role ι) (i : ι) (q : Own) (m' : Machine) (l' : Load) (role' : Nat → Role ι) :
    Prop where
  kernel : KernelKeeps m0 k m' role'
  beyond : Beyond m m' role role' i
  mine : Private m0 k m' role' i l' q
  slot : Slot m' k (update load i l') (update own i q)

/-- Where load `i` may take the step, the step goes through. -/
abbrev Step.Proceeds (s : Step) (m0 : Machine) (k : Nat) (m : Machine) (load : ι → Load)
    (own : ι → Own) (role : Nat → Role ι) (i : ι) : Prop :=
  ∀ ⦃q⦄, (own i).perform (roomOf m0 k) s = some q → ∃ m' l' role',
    s.perform (load i) m = some (m', l') ∧ l'.steps = (load i).steps ∧
      Stepped m0 k m load own role i q m' l' role'

theorem Stepped.inv (hs : Stepped m0 k w.machine w.load own role i q m' l' role')
    (h : Inv m0 k final w own role) (hrest : Own.run (roomOf m0 k) l'.steps q = some (final i)) :
    Inv m0 k final ⟨m', update w.load i l'⟩ (update own i q) role' where
  kernel := hs.kernel
  load j := by
    by_cases hj : j = i
    · subst hj
      show Private m0 k m' role' j (update w.load j l' j) _
      rw [update_self, update_self]
      exact hs.mine
    · show Private m0 k m' role' j (update w.load i l' j) _
      rw [update_of_ne hj, update_of_ne hj]
      exact (h.load j).beyond hs.beyond hj
  slot := hs.slot
  rest j := by
    show Own.run _ (update w.load i l' j).steps _ = _
    by_cases hj : j = i
    · subst hj
      rw [update_self, update_self, hrest]
    · rw [update_of_ne hj, update_of_ne hj]
      exact h.rest j

/-- The slot after a step that does not map or unmap the scratch page. -/
theorem Slot.update (h : Slot m k load own) (htarget : q.target = (own i).target)
    (hheld : heldFrame l' q = heldFrame (load i) (own i)) (hdirectory : m'.directory = m.directory)
    (hrow : m'.mem k = m.mem k) (htable : (m.mem k scratchIndex).has pagePresent = true →
      m'.mem (m.scratchTable k) = m.mem (m.scratchTable k)) :
    Slot m' k (update load i l') (update own i q) := by
  refine h.congr (fun j => ?_) (fun j => ?_) hdirectory hrow htable
  · by_cases hj : j = i
    · subst hj
      rw [update_self, htarget]
    · rw [update_of_ne hj]
  · by_cases hj : j = i
    · subst hj
      rw [update_self, update_self, hheld]
    · rw [update_of_ne hj, update_of_ne hj]

/-! ## The allocator -/

variable {room : Nat → Bool}

theorem Own.perform_allocate (h : p.perform room .allocateFrame = some q) :
    p.draft = none ∧ p.target = none ∧ q = { p with draft := some (.page fun _ => none) } := by
  dsimp only [Own.perform] at h
  split at h
  next hd ht => exact ⟨hd, ht, (some.inj h).symm⟩
  next => cases h

theorem allocate_stepped (hk : KernelKeeps m0 k m role) (hl : Private m0 k m role i (load i) (own i))
    (hs : Slot m k load own) (hfree : 0 < freeFrames m.used) :
    Step.allocateFrame.Proceeds m0 k m load own role i := by
  intro q hq
  obtain ⟨hdraft, htarget, rfl⟩ := Own.perform_allocate hq
  rcases pmmAllocateFrame_cases m with ⟨-, hzero⟩ | ⟨f, hsome, hpos, hlt, hunused, -⟩
  · rw [hzero] at hfree
    exact absurd hfree (Nat.lt_irrefl 0)
  · have hrole := hk.free hunused
    have hmono : ∀ x, m.used x = true → (m.markUsed f).used x = true := fun x hx =>
      m.markUsed_mono f hx
    have hother : ∀ x, role x ≠ .free → update role f (.draft i) x = role x := by
      intro x hx
      rw [update_of_ne]
      intro he
      exact hx (he ▸ hrole)
    refine ⟨m.markUsed f, { load i with frame := some f },
      update role f (.draft i), ?_, rfl, ?_⟩
    · simp only [Step.perform, hsome]
      rw [Nat.mul_div_cancel f (by decide)]
    · refine
        { kernel := hk.congr rfl rfl rfl hmono ?_ ?_
          beyond := ⟨fun _ _ _ _ => rfl, hmono, ?_⟩
          mine :=
            { running := hl.running
              holding := hl.holding
              draft := .inr ⟨f, _, rfl, rfl, update_self .., fun _ _ _ h => by cases h⟩
              space := hl.space.imp_right fun ⟨dir, hdir, hc, hok, htop⟩ => ⟨dir, hdir, hc,
                hok.congr (.allocated hrole) hmono, htop.congr hok (.allocated hrole)⟩ }
          slot := hs.update rfl ?_ rfl rfl fun _ => rfl }
      · intro x hx
        rw [hother x (by simp [hx]), hx]
      · intro x hx
        by_cases he : x = f
        · subst he
          exact ⟨update_self .., hpos, hlt⟩
        · rw [update_of_ne he] at hx
          exact absurd rfl hx
      · intro x j _ hx
        apply hother
        intro hfree'
        rw [hfree'] at hx
        cases hx
      · rw [heldFrame, heldFrame, htarget]

/-! ## Mapping the scratch page -/

/-- Load `i` maps the scratch page to a frame of its own while nobody has it. -/
theorem open_stepped (hk : KernelKeeps m0 k m role) (hl : Private m0 k m role i (load i) (own i))
    (hs : Slot m k load own) (hall : ∀ j, (own j).target = none) (hfree : 0 < freeFrames m.used)
    {t : Target} (hf : (role f).owner = some i)
    (hheld : heldFrame { load i with holding := true } { own i with target := some t } = some f) :
    ∃ m' l' role', (load i).openScratch m f = some (m', l') ∧ l'.steps = (load i).steps ∧
      Stepped m0 k m load own role i { own i with target := some t } m' l' role' := by
  have hlt : f < 2 ^ 20 := Nat.lt_trans (hk.range f i hf).2 (by decide)
  rcases mapScratch_cases hk.ok hk.directory (hs.free hall) hlt with
    ⟨hzero, -⟩ | ⟨scratch, m', hmap, ho⟩
  · rw [hzero] at hfree
    exact absurd hfree (Nat.lt_irrefl 0)
  · obtain ⟨role', hk', hmono, hkept⟩ := hk.opened ho
    have hscratch : m'.scratchTable k = scratch := ho.opened.pde.2
    have hother : ∀ j, j ≠ i →
        (update own i { own i with target := some t } j).target = none := by
      intro j hj
      rw [update_of_ne hj, hall j]
    refine ⟨m', { load i with holding := true }, role', ?_, rfl, ?_⟩
    · rw [Load.openScratch, hmap]
      rfl
    · refine
        { kernel := hk'
          beyond := ⟨fun x j _ hx => (hkept x j hx).1, hmono, fun x j _ hx => (hkept x j hx).2⟩
          mine := (hl.kept (fun x hx => hkept x i hx) hmono).retarget (some t)
          slot :=
            { free := fun hnone => ?_
              held := fun j hj => ?_
              alone := fun a b ha hb => ?_ } }
      · -- this load has the slot
        have hi := hnone i
        rw [update_self] at hi
        cases hi
      · by_cases hji : j = i
        · subst hji
          rw [update_self, update_self, hscratch]
          exact ⟨f, hheld, ho.opened⟩
        · exact absurd (hother j hji) hj
      · by_cases hai : a = i
        · by_cases hbi : b = i
          · rw [hai, hbi]
          · exact absurd (hother b hbi) hb
        · exact absurd (hother a hai) ha

/-! ## Writing through the scratch page -/

/-- Load `i` writes the frame it is filling. -/
theorem draft_stepped (hk : KernelKeeps m0 k m role) (hl : Private m0 k m role i (load i) (own i))
    (hs : Slot m k load own) (ht : (own i).target = some .draft) (hf : (load i).frame = some f)
    (hrole : role f = .draft i) {page : Nat → Word} {d : Draft}
    (hd : DraftOk m0 k (m.write f page) f d) :
    Stepped m0 k m load own role i { own i with draft := some d } (m.write f page) (load i) role := by
  have hpde : (m.mem k scratchIndex).has pagePresent = true := by
    obtain ⟨x, -, ho⟩ := hs.held i (by rw [ht]; exact nofun)
    exact ho.pde.1
  obtain ⟨hfk, hfs⟩ := hk.ne_kernel (x := f) (j := i) (by rw [hrole]; rfl)
  have hrow : (m.write f page).mem k = m.mem k := write_ne hfk.symm
  have hother : ∀ x, role x ≠ .draft i → (m.write f page).mem x = m.mem x := by
    intro x hx
    refine write_ne fun he => hx ?_
    rw [he, hrole]
  have hspace : SpaceKept m (m.write f page) role role i := by
    refine fun x hx => ⟨hother x fun he => ?_, rfl⟩
    rw [he] at hx
    cases hx
  refine
    { kernel := hk.congr rfl rfl hrow (fun _ hx => hx) (fun _ hx => hx) fun x hx => absurd rfl hx
      beyond := ⟨fun x j hj hx => hother x fun he => ?_, fun _ hx => hx, fun _ _ _ _ => rfl⟩
      mine :=
        { running := hl.running
          holding := hl.holding
          draft := .inr ⟨f, d, hf, rfl, hrole, hd⟩
          space := hl.space.imp_right fun ⟨dir, hdir, hc, hok, htop⟩ =>
            ⟨dir, hdir, hc, hok.congr hspace fun _ hx => hx, htop.congr hok hspace⟩ }
      slot := hs.update rfl rfl rfl hrow fun hp => write_ne (hfs hp).symm }
  rw [he] at hx
  exact hj (some.inj hx).symm

/-- A cleared page is a directory with no entry done. -/
theorem DraftOk.cleared {bytes : Nat → Option Byte} (h : DraftOk m0 k m f (.page bytes))
    (hc : Cleared bytes) : DraftOk m0 k m f (.directory 0 false) := by
  have hzero : ∀ d, d < 1024 → m.mem f d = 0#32 := by
    intro d hd
    refine page_eq_zero (n := 1024) (fun j hj => ?_) hd
    have hlt : j < pageSize := by
      rw [pageSize]
      omega
    exact h j 0#8 hlt (hc j hlt)
  intro d hd
  rw [hzero d hd]
  simp

/-- The next entry is copied, or left out as one that is not shared. -/
theorem DraftOk.shared {d : Nat} (h : DraftOk m0 k m f (.directory d false)) :
    DraftOk m0 k (m.write f (if d = recursiveDirectoryIndex ∨ d = scratchIndex ∨
      (m0.mem k d).shared = false then m.mem f else update (m.mem f) d (m0.mem k d)))
        f (.directory (d + 1) false) := by
  intro e he
  rw [write_self]
  have hold := h e he
  by_cases hskip : d = recursiveDirectoryIndex ∨ d = scratchIndex ∨ (m0.mem k d).shared = false
  · rw [if_pos hskip, hold]
    by_cases hed : e = d
    · subst hed
      -- the window's own entry comes last, whatever the kernel has there
      by_cases hlast : e = recursiveDirectoryIndex
      · simp [hlast]
      · have hnone : newEntry (m0.mem k) f e = 0#32 := by
          rw [newEntry, if_neg hlast, if_neg]
          intro hand
          rcases hskip with hr | hs | hu
          · exact hlast hr
          · exact hand.1 hs
          · rw [hand.2.2] at hu
            cases hu
        simp [hlast, hnone]
    · have hlt : e < d + 1 ↔ e < d := by omega
      simp [hlt]
  · rw [if_neg hskip]
    rw [not_or, not_or, Bool.not_eq_false] at hskip
    by_cases hed : e = d
    · subst hed
      have hentry : newEntry (m0.mem k) f e = m0.mem k e := by
        rw [newEntry, if_neg hskip.1, if_pos ⟨hskip.2.1, he, hskip.2.2⟩]
      rw [update_self, if_neg hskip.1, if_pos (Nat.lt_succ_self e), hentry]
    · have hlt : e < d + 1 ↔ e < d := by omega
      rw [update_of_ne hed, hold]
      simp [hlt]

/-- The recursive entry is the last one. -/
theorem DraftOk.completed (h : DraftOk m0 k m f (.directory 1024 false)) :
    DraftOk m0 k (m.write f (update (m.mem f) recursiveDirectoryIndex
      (entryFor (f * pageSize) (pagePresent ||| pageWritable)))) f (.directory 1024 true) := by
  intro d hd
  rw [write_self]
  by_cases hlast : d = recursiveDirectoryIndex
  · rw [hlast, update_self, if_pos rfl, if_pos rfl]
  · rw [update_of_ne hlast, h d hd]
    simp [hlast]

theorem Own.perform_writeByte {offset : Nat} {b : Byte}
    (h : p.perform room (.writeByte offset b) = some q) : offset < pageSize ∧
      ((∃ bytes, p.target = some .draft ∧ p.draft = some (.page bytes) ∧
        q = { p with draft := some (.page (update bytes offset (some b))) }) ∨
      ∃ n, p.target = some .top ∧ p.top = some n ∧ q = { p with
        page := update p.page n ((p.page n).map (UserPage.write · offset b)) }) := by
  dsimp only [Own.perform] at h
  split at h
  next ho =>
    refine ⟨ho, ?_⟩
    split at h
    next bytes ht hd => exact .inl ⟨bytes, ht, hd, (some.inj h).symm⟩
    next _ n ht hn => exact .inr ⟨n, ht, hn, (some.inj h).symm⟩
    next => cases h
  next => cases h

theorem writeByte_stepped {offset : Nat} {b : Byte} (hk : KernelKeeps m0 k m role)
    (hl : Private m0 k m role i (load i) (own i)) (hs : Slot m k load own) :
    (Step.writeByte offset b).Proceeds m0 k m load own role i := by
  intro q hq
  obtain ⟨ho, ⟨bytes, ht, hd, rfl⟩ | ⟨n, ht, hn, rfl⟩⟩ := Own.perform_writeByte hq
  · -- into the frame that is being filled
    obtain ⟨f, hf, hrole, hok⟩ := hl.filling hd
    have hopened := hs.opened ht hf
    refine ⟨m.write f (setByte (m.mem f) offset b), load i, role, ?_, rfl,
      draft_stepped hk hl hs ht hf hrole ?_⟩
    · show (m.editPage (scratchAddress + offset) fun page =>
        setByte page (offset % pageSize) b).bind _ = _
      rw [hopened.editByte ho, Nat.mod_eq_of_lt ho]
      rfl
    · intro j c hj hc
      rw [write_self, byteOf_setByte]
      by_cases hjo : j = offset
      · rw [hjo, update_self] at hc
        rw [if_pos hjo]
        exact some.inj hc
      · rw [update_of_ne hjo] at hc
        rw [if_neg hjo]
        exact hok j c hj hc
  · -- into the top page of the stack, mapped in the new address space already
    obtain ⟨f, hf, hopened⟩ := hs.held i (by rw [ht]; exact nofun)
    rw [heldFrame, ht] at hf
    rcases hl.space with ⟨-, -, -, hnone⟩ | ⟨dir, hdir, hc, hok, htop⟩
    · rw [hn] at hnone
      cases hnone
    · obtain ⟨u, f', hu, hf', hpage⟩ := htop n hn
      obtain rfl := some.inj (hf'.symm.trans hf)
      obtain ⟨hspace, hnew⟩ := hok.written hu hpage hpage.owned offset b
      obtain ⟨hfk, hfs⟩ := hk.ne_kernel (x := f') (j := i) (by rw [hpage.owned]; rfl)
      have hrow : (m.write f' (setByte (m.mem f') offset b)).mem k = m.mem k := write_ne hfk.symm
      have hother : ∀ x, role x ≠ .page i n →
          (m.write f' (setByte (m.mem f') offset b)).mem x = m.mem x := by
        refine fun x hx => write_ne fun he => hx ?_
        rw [he, hpage.owned]
      have hmap : update (own i).page n (((own i).page n).map (UserPage.write · offset b)) =
          update (own i).page n (some (u.write offset b)) := by
        rw [hu]
        rfl
      rw [hmap]
      refine ⟨m.write f' (setByte (m.mem f') offset b), load i, role, ?_, rfl, ?_⟩
      · show (m.editPage (scratchAddress + offset) fun page =>
          setByte page (offset % pageSize) b).bind _ = _
        rw [hopened.editByte ho, Nat.mod_eq_of_lt ho]
        rfl
      · refine
          { kernel := hk.congr rfl rfl hrow (fun _ hx => hx) (fun _ hx => hx) fun x hx =>
              absurd rfl hx
            beyond := ⟨fun x j hj hx => hother x fun he => ?_, fun _ hx => hx, fun _ _ _ _ => rfl⟩
            mine :=
              { running := hl.running
                holding := hl.holding
                draft := hl.draft.imp_right fun ⟨x, d, hx, hd, hrole, hdraft⟩ =>
                  ⟨x, d, hx, hd, hrole, hdraft.congr (hother x (by rw [hrole]; exact nofun))⟩
                space := .inr ⟨dir, hdir, hc, hspace, fun n' hn' => ?_⟩ }
            slot := hs.update rfl rfl rfl hrow fun hp => write_ne (hfs hp).symm }
        · rw [he] at hx
          exact hj (some.inj hx).symm
        · obtain rfl := some.inj (hn.symm.trans hn')
          exact ⟨u.write offset b, f', update_self .., hf', hnew⟩

theorem Own.perform_shareEntry {e : Nat}
    (h : p.perform room (.shareEntry e) = some q) : ∃ d d', p.target = some .draft ∧
      p.draft = some d ∧ d.share e = some d' ∧ q = { p with draft := some d' } := by
  dsimp only [Own.perform] at h
  split at h
  next d ht hd =>
    obtain ⟨d', hd', he⟩ := map_eq_some_iff.mp h
    exact ⟨d, d', ht, hd, hd', he.symm⟩
  next => cases h

/-- Sharing an entry goes on from a directory whose earlier entries are done. -/
theorem DraftOk.share {d d' : Draft} {e : Nat} (h : DraftOk m0 k m f d) (hs : d.share e = some d') :
    e < 1024 ∧ d' = .directory (e + 1) false ∧ DraftOk m0 k m f (.directory e false) := by
  cases d with
  | page bytes =>
    dsimp only [Draft.share] at hs
    split at hs
    next hc =>
      obtain ⟨rfl, hclear⟩ := hc
      exact ⟨by decide, (some.inj hs).symm, h.cleared hclear⟩
    next => cases hs
  | directory entries complete =>
    dsimp only [Draft.share] at hs
    split at hs
    next hc =>
      obtain ⟨rfl, hlt, rfl⟩ := hc
      exact ⟨hlt, (some.inj hs).symm, h⟩
    next => cases hs

theorem shareEntry_stepped {e : Nat} (hk : KernelKeeps m0 k m role)
    (hl : Private m0 k m role i (load i) (own i)) (hs : Slot m k load own) :
    (Step.shareEntry e).Proceeds m0 k m load own role i := by
  intro q hq
  obtain ⟨d, d', ht, hd, hshare, rfl⟩ := Own.perform_shareEntry hq
  obtain ⟨f, hf, hrole, hok⟩ := hl.filling hd
  obtain ⟨he, rfl, hdir⟩ := hok.share hshare
  have hopened := hs.opened ht hf
  have hnext := draft_stepped hk hl hs ht hf hrole hdir.shared
  refine ⟨_, load i, role, ?_, rfl, hnext⟩
  dsimp only [Step.perform]
  by_cases hskip : e = recursiveDirectoryIndex ∨ e = scratchIndex
  · have hskip' : e = recursiveDirectoryIndex ∨ e = scratchIndex ∨ (m0.mem k e).shared = false :=
      hskip.imp_right .inl
    rw [if_pos hskip, if_pos hskip', write_same]
    rfl
  · rw [if_neg hskip]
    rw [not_or] at hskip
    have hload : m.load (directoryEntry e) = some (m0.mem k e) := by
      rw [load_directoryEntry (hk.ok.isRecursive hk.directory) he, hk.directory, hk.pde e hskip.2]
    rw [hload]
    show (if (m0.mem k e).shared = true then _ else _) = _
    cases hshared : (m0.mem k e).shared with
    | true =>
      have hnot : ¬(e = recursiveDirectoryIndex ∨ e = scratchIndex ∨ true = false) := by
        simp [hskip.1, hskip.2]
      rw [if_pos rfl, if_neg hnot, hopened.store he]
      rfl
    | false =>
      rw [if_neg nofun, if_pos (.inr (.inr rfl)), write_same]
      rfl

theorem Own.perform_setRecursiveEntry
    (h : p.perform room .setRecursiveEntry = some q) : p.target = some .draft ∧
      p.draft = some (.directory 1024 false) ∧
        q = { p with draft := some (.directory 1024 true) } := by
  dsimp only [Own.perform] at h
  split at h
  next ht hd => exact ⟨ht, hd, (some.inj h).symm⟩
  next => cases h

theorem setRecursiveEntry_stepped (hk : KernelKeeps m0 k m role)
    (hl : Private m0 k m role i (load i) (own i)) (hs : Slot m k load own) :
    Step.setRecursiveEntry.Proceeds m0 k m load own role i := by
  intro q hq
  obtain ⟨ht, hd, rfl⟩ := Own.perform_setRecursiveEntry hq
  obtain ⟨f, hf, hrole, hok⟩ := hl.filling hd
  have hopened := hs.opened ht hf
  refine ⟨_, load i, role, ?_, rfl, draft_stepped hk hl hs ht hf hrole hok.completed⟩
  dsimp only [Step.perform]
  rw [hf]
  show (m.store (scratchAddress + 4 * recursiveDirectoryIndex)
    (entryFor (f * pageSize) (pagePresent ||| pageWritable))).bind _ = _
  rw [hopened.store (by decide)]
  rfl

/-! ## Unmapping the scratch page -/

theorem Own.perform_unmapScratch {halts : Bool}
    (h : p.perform room (.unmapScratch halts) = some q) :
    p.target ≠ none ∧ q = { p with target := none } := by
  dsimp only [Own.perform] at h
  split at h
  next t ht =>
    rw [ht]
    exact ⟨nofun, (some.inj h).symm⟩
  next => cases h

theorem unmapScratch_stepped {halts : Bool} (hk : KernelKeeps m0 k m role)
    (hl : Private m0 k m role i (load i) (own i)) (hs : Slot m k load own) :
    (Step.unmapScratch halts).Proceeds m0 k m load own role i := by
  intro q hq
  obtain ⟨ht, rfl⟩ := Own.perform_unmapScratch hq
  obtain ⟨f, -, ho⟩ := hs.held i ht
  have hunmap := ho.unmap (hk.ok.isRecursive hk.directory)
  generalize hm' : m.write (m.scratchTable k) (update (m.mem (m.scratchTable k)) 0 0#32) = m'
    at hunmap
  have hscratch : role (m.scratchTable k) = .kernel := hk.tableRole scratchIndex (by decide) ho.pde.1
  have hne : m.scratchTable k ≠ k := hk.ok.tableNe scratchIndex (by decide) ho.pde.1
  have hrow : m'.mem k = m.mem k := by
    rw [← hm', write_ne hne.symm]
  have hused : m'.used = m.used := by
    rw [← hm']
    rfl
  have hkept : ∀ x j, (role x).owner = some j → m'.mem x = m.mem x := by
    intro x j hx
    rw [← hm']
    refine write_ne fun he => ?_
    rw [he, hscratch] at hx
    cases hx
  have hmono : ∀ x, m.used x = true → m'.used x = true := fun x hx => by rw [hused, hx]
  have hnone : ∀ j, (update own i { own i with target := none } j).target = none := by
    intro j
    by_cases hj : j = i
    · rw [hj, update_self]
    · rw [update_of_ne hj]
      by_contra hother
      exact hj (hs.alone j i hother ht)
  refine ⟨m', { load i with holding := false }, role, ?_, rfl, ?_⟩
  · dsimp only [Step.perform]
    rw [hunmap]
    rfl
  · refine
      { kernel := hk.congr (by rw [← hm']; rfl) (by rw [← hm']; rfl) hrow hmono (fun _ hx => hx)
          fun x hx => absurd rfl hx
        beyond := ⟨fun x j _ hx => hkept x j hx, hmono, fun _ _ _ _ => rfl⟩
        mine := (hl.kept (fun x hx => ⟨hkept x i hx, rfl⟩) hmono).retarget none
        slot :=
          { free := fun _ _ => ?_
            held := fun j hj => absurd (hnone j) hj
            alone := fun a b ha _ => absurd (hnone a) ha } }
    rw [Machine.scratchTable, hrow, ← hm']
    show ((m.write (m.scratchTable k) _).mem (m.scratchTable k) 0).has pagePresent = false
    rw [write_self, update_self]
    exact zero_not_present

/-! ## The new directory -/

theorem Own.perform_adoptDirectory
    (h : p.perform room .adoptDirectory = some q) : p.target = none ∧
      p.draft = some (.directory 1024 true) ∧ p.created = false ∧
        q = { p with draft := none, created := true } := by
  dsimp only [Own.perform] at h
  split at h
  next ht hd hc => exact ⟨ht, hd, hc, (some.inj h).symm⟩
  next => cases h

end MeatySkeleton.Elf
