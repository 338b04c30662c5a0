import MeatySkeleton.Paging.Destroy

/-!
# A user directory with nothing of the kernel's in it

`Clean` holds while a directory is filled through entries of its own
(`Private`): no page was mapped under an entry the kernel shares. Then the
kernel's page tables are what they were (`KernelKept`), every page table and page
of the directory is one the allocator handed out since (`Layout`), and every frame
in use is accounted for. `loose` are the frames taken for pages and not mapped
yet, `pages` the mapped ones.
-/

namespace MeatySkeleton.Paging

open Function List

/-- Entry `d` of a user directory is not shared with the kernel. -/
structure Private (m0 : Machine) (k d : Nat) : Prop where
  lt : d < 1023
  ne : d ≠ scratchIndex
  unshared : (m0.mem k d).shared = false

/-- The kernel's page tables are unchanged, the scratch slot aside. -/
structure KernelKept (m0 : Machine) (k : Nat) (m : Machine) : Prop where
  table : ∀ d, d < 1023 → d ≠ scratchIndex → (m0.mem k d).has pagePresent = true →
    m.mem (frameOf (m0.mem k d)) = m0.mem (frameOf (m0.mem k d))
  scratch : (m0.mem k scratchIndex).has pagePresent = true →
    m.scratchTable k = m0.scratchTable k ∧
      m.mem k scratchIndex = raisedPde pageWritable (m0.mem k scratchIndex) ∧
      ∀ t, t ≠ 0 → m.mem (m0.scratchTable k) t = m0.mem (m0.scratchTable k) t
  newScratch : (m0.mem k scratchIndex).has pagePresent = false →
    m0.used (m.scratchTable k) = false ∧ ∀ t, m.mem (m.scratchTable k) t = 0#32

/-- The private part of the directory: its own page tables, with the pages `pages`. -/
structure Layout (m0 : Machine) (k dir : Nat) (pages : List Nat) (m : Machine) : Prop where
  dirFresh : m0.used dir = false
  user : ∀ d, Private m0 k d → (m.mem dir d).has pagePresent = true →
    (m.mem dir d).has pageUser = true
  supervisor : ∀ d, d < 1023 → d ≠ scratchIndex → (m0.mem k d).shared = true →
    (m.mem dir d).has pageUser = false
  fresh : ∀ d, Private m0 k d → (m.mem dir d).has pagePresent = true →
    m0.used (frameOf (m.mem dir d)) = false
  page : ∀ d t, Private m0 k d → t < 1024 → (m.mem dir d).has pagePresent = true →
    (m.mem (frameOf (m.mem dir d)) t).has pagePresent = true →
    frameOf (m.mem (frameOf (m.mem dir d)) t) ∈ pages

/-- The frames in use: those used before, those the directory owns, the page table
of the scratch slot if it is new, and those in the caller's hands. -/
def Accounted (m0 : Machine) (k dir : Nat) (loose : List Nat) (m : Machine) : Prop :=
  ∀ x, m.used x = true ↔ m0.used x = true ∨ Owned m dir x ∨
    ((m0.mem k scratchIndex).has pagePresent = false ∧ x = m.scratchTable k) ∨ x ∈ loose

structure Clean (m0 : Machine) (k dir : Nat) (loose pages : List Nat) (m : Machine) : Prop where
  building : Building m0 k dir (loose ++ pages) m
  nodup : (loose ++ pages).Nodup
  kept : KernelKept m0 k m
  layout : Layout m0 k dir pages m
  accounted : Accounted m0 k dir loose m

variable {m0 m m' : Machine} {k dir d t f table x : Nat} {loose pages : List Nat} {flags : Word}

/-! ## The kernel's tables -/

/-- Frames the kernel had in use before are not written. -/
theorem KernelKept.congr (h : KernelKept m0 k m) (hready : KernelReady m0 k)
    (hkernel : m'.mem k = m.mem k) (hmem : ∀ x, m0.used x = true → m'.mem x = m.mem x)
    (hslot : m'.mem (m.scratchTable k) = m.mem (m.scratchTable k)) : KernelKept m0 k m' where
  table d hd hne hp := by
    rw [hmem _ (hready.ok.tableUsed d hd hp)]
    exact h.table d hd hne hp
  scratch hp := by
    obtain ⟨hs, hpde, hrest⟩ := h.scratch hp
    rw [Machine.scratchTable, hkernel]
    refine ⟨hs, hpde, fun t ht => ?_⟩
    rw [Machine.scratchTable, hmem _ (hready.ok.tableUsed _ (by decide) hp)]
    exact hrest t ht
  newScratch hp := by
    have hscratch : m'.scratchTable k = m.scratchTable k := by
      rw [Machine.scratchTable, hkernel, Machine.scratchTable]
    rw [hscratch, hslot]
    exact h.newScratch hp

/-! ## What the directory owns -/

/-- Ownership only depends on the directory and its page tables. -/
theorem Owned.congr
    (hpde : ∀ i, (m'.mem dir i).has pagePresent = (m.mem dir i).has pagePresent ∧
      frameOf (m'.mem dir i) = frameOf (m.mem dir i) ∧
      (m'.mem dir i).has pageUser = (m.mem dir i).has pageUser)
    (htable : ∀ i, i < 1023 → (m.mem dir i).has pagePresent = true →
      m'.mem (frameOf (m.mem dir i)) = m.mem (frameOf (m.mem dir i))) :
    Owned m' dir x ↔ Owned m dir x := by
  refine or_congr_right (exists_congr fun i => and_congr_right fun hi => ?_)
  rw [(hpde i).1, (hpde i).2.1, (hpde i).2.2]
  refine and_congr_right fun hp => ?_
  rw [htable i hi hp]

/-- A page entered in the directory is owned from then on, and so is its page table. -/
theorem Mapped.owned_iff (h : Mapped m dir d t f flags table m') (hok : DirectoryOk m dir)
    (hd : d < 1023) (ht : t < 1024) (hf : f < 2 ^ 20) (hu : (m'.mem dir d).has pageUser = true)
    (hold : (m.mem dir d).has pagePresent = true → (m.mem dir d).has pageUser = true) :
    Owned m' dir x ↔
      Owned m dir x ∨ ((m.mem dir d).has pagePresent = false ∧ x = table) ∨ x = f := by
  rw [Owned, Owned, or_assoc]
  refine or_congr_right ?_
  constructor
  · rintro ⟨i, hi, hpi, hui, hx⟩
    by_cases hid : i = d
    · subst hid
      rw [h.pde.2] at hx
      rcases h.slot with ⟨hp, hframe, -, -, -, hkept⟩ | ⟨habsent, -, -, -, -, hzero⟩
      · -- the table was there: its other entries are the old ones
        rcases hx with hx | ⟨u, hu', hpu, hxu⟩
        · exact .inl ⟨i, hi, hp, hold hp, .inl (hx.trans hframe.symm)⟩
        · by_cases hut : u = t
          · rw [hut, h.pte, pageEntry_frame hf] at hxu
            exact .inr (.inr hxu)
          · rw [hkept u hut, ← hframe] at hpu hxu
            exact .inl ⟨i, hi, hp, hold hp, .inr ⟨u, hu', hpu, hxu⟩⟩
      · -- a new table has the one entry
        rcases hx with hx | ⟨u, hu', hpu, hxu⟩
        · exact .inr (.inl ⟨habsent, hx⟩)
        · by_cases hut : u = t
          · rw [hut, h.pte, pageEntry_frame hf] at hxu
            exact .inr (.inr hxu)
          · rw [hzero u hut, zero_not_present] at hpu
            cases hpu
    · rw [h.row i hid] at hpi hui hx
      rw [h.other_table hok hd hi hpi hid] at hx
      exact .inl ⟨i, hi, hpi, hui, hx⟩
  · rintro (⟨i, hi, hpi, hui, hx⟩ | ⟨-, hx⟩ | hx)
    · by_cases hid : i = d
      · subst hid
        refine ⟨i, hi, h.pde.1, hu, ?_⟩
        rcases h.slot with ⟨-, hframe, habsent, -, -, hkept⟩ | ⟨habsent, -⟩
        · rw [hframe] at hx
          rw [h.pde.2]
          refine hx.imp_right fun ⟨u, hu', hpu, hxu⟩ => ⟨u, hu', ?_⟩
          have hut : u ≠ t := by
            rintro rfl
            rw [habsent] at hpu
            cases hpu
          rw [hkept u hut]
          exact ⟨hpu, hxu⟩
        · rw [hpi] at habsent
          cases habsent
      · refine ⟨i, hi, ?_⟩
        rw [h.row i hid, h.other_table hok hd hi hpi hid]
        exact ⟨hpi, hui, hx⟩
    · exact ⟨d, hd, h.pde.1, hu, .inl (hx.trans h.pde.2.symm)⟩
    · refine ⟨d, hd, h.pde.1, hu, .inr ⟨t, ht, ?_⟩⟩
      rw [h.pde.2, h.pte, pageEntry_frame hf]
      exact ⟨pageEntry_present .., hx⟩

/-! ## The steps -/

section

variable (h : Clean m0 k dir loose pages m)

include h

theorem Clean.dir_ne_scratch : m.scratchTable k ≠ dir :=
  h.building.kernelTableNe scratchIndex (by decide) h.building.ready.pde.1

/-- A frame in the caller's hands belongs to nobody else. -/
theorem Clean.loose_page (hf : f ∈ loose) :
    PageFrame m0 m k dir f ∧ f ∉ pages :=
  ⟨h.building.page f (mem_append_left _ hf), fun hp =>
    (nodup_append.mp h.nodup).2.2 f hf f hp rfl⟩

/-- Only the directory's own entries are user entries. -/
theorem Clean.private_of_user (hd : d < 1023)
    (hp : (m.mem dir d).has pagePresent = true) (hu : (m.mem dir d).has pageUser = true) :
    Private m0 k d := by
  have hne : d ≠ scratchIndex := by
    rintro rfl
    rw [h.building.dirScratch] at hp
    cases hp
  refine ⟨hd, hne, Bool.eq_false_iff.mpr fun hshared => ?_⟩
  rw [h.layout.supervisor d hd hne hshared] at hu
  cases hu

/-- What the directory owns came from the allocator since, and is neither the
scratch slot's page table nor in the caller's hands. -/
theorem Clean.owned_spec (hx : Owned m dir x) :
    (0 < x ∧ x < frameCount) ∧ m0.used x = false ∧ x ≠ m.scratchTable k ∧ x ∉ loose := by
  rcases hx with rfl | ⟨d, hd, hp, hu, hx⟩
  · exact ⟨h.building.dirOk.range, h.layout.dirFresh, h.dir_ne_scratch.symm,
      fun hl => (h.loose_page hl).1.neDir rfl⟩
  · have hpriv := h.private_of_user hd hp hu
    rcases hx with rfl | ⟨t, ht, hpt, rfl⟩
    · exact ⟨h.building.dirOk.tableRange d hd hp, h.layout.fresh d hpriv hp,
        (h.building.tableNe d hd hp).2, fun hl => (h.loose_page hl).1.neTable d hd hp rfl⟩
    · have hmem := h.layout.page d t hpriv ht hp hpt
      have hpage := h.building.page _ (mem_append_right _ hmem)
      exact ⟨hpage.range, hpage.fresh,
        (hpage.neKernelTable scratchIndex (by decide) h.building.ready.pde.1).symm,
        fun hl => (h.loose_page hl).2 hmem⟩

theorem Clean.taken (hf : m.used f = false)
    (hrange : 0 < f ∧ f < frameCount) : Clean m0 k dir (f :: loose) pages (m.markUsed f) where
  building := h.building.allocated hf hrange
  nodup := by
    refine nodup_cons.mpr ⟨fun hmem => ?_, h.nodup⟩
    rw [(h.building.page f hmem).used] at hf
    cases hf
  kept := ⟨h.kept.table, h.kept.scratch, h.kept.newScratch⟩
  layout := ⟨h.layout.dirFresh, h.layout.user, h.layout.supervisor, h.layout.fresh, h.layout.page⟩
  accounted x := by
    show update m.used f true x = true ↔ _ ∨ Owned m dir x ∨ (_ ∧ x = m.scratchTable k) ∨ _
    by_cases hx : x = f
    · subst hx
      rw [update_self]
      exact ⟨fun _ => .inr (.inr (.inr mem_cons_self)), fun _ => rfl⟩
    · rw [update_of_ne hx, h.accounted x, mem_cons]
      simp [hx]

end

theorem nodup_erase {loose pages : List Nat} (h : (loose ++ pages).Nodup) (hf : f ∈ loose) :
    (loose.erase f ++ pages).Nodup ∧ f ∉ loose.erase f ++ pages := by
  obtain ⟨hl, hp, hne⟩ := nodup_append.mp h
  refine ⟨nodup_append.mpr ⟨hl.erase f, hp, fun a ha => hne a (mem_of_mem_erase ha)⟩, ?_⟩
  rw [mem_append, not_or]
  exact ⟨hl.not_mem_erase, fun hmem => hne f hf f hmem rfl⟩

section

variable (h : Clean m0 k dir loose pages m)

include h

/-- A frame that could not be mapped goes back. -/
theorem Clean.given (hf : f ∈ loose) :
    Clean m0 k dir (loose.erase f) pages (m.markFree f) := by
  obtain ⟨hnodup, hnot⟩ := nodup_erase h.nodup hf
  obtain ⟨hpage, hfpages⟩ := h.loose_page hf
  have hbuilding : Building m0 k dir (f :: (loose.erase f ++ pages)) m := by
    refine h.building.mono fun g hg => ?_
    rcases mem_cons.mp hg with rfl | hg
    · exact mem_append_left _ hf
    · rcases mem_append.mp hg with hg | hg
      · exact mem_append_left _ (mem_of_mem_erase hg)
      · exact mem_append_right _ hg
  refine
    { building := hbuilding.freed hnot
      nodup := hnodup
      kept := ⟨h.kept.table, h.kept.scratch, h.kept.newScratch⟩
      layout := ⟨h.layout.dirFresh, h.layout.user, h.layout.supervisor, h.layout.fresh, h.layout.page⟩
      accounted := fun x => ?_ }
  show update m.used f false x = true ↔ _ ∨ Owned m dir x ∨ (_ ∧ x = m.scratchTable k) ∨ _
  by_cases hx : x = f
  · subst hx
    rw [update_self]
    refine ⟨nofun, ?_⟩
    rintro (hold | howned | ⟨-, hs⟩ | hl)
    · rw [hpage.fresh] at hold
      cases hold
    · exact absurd hf (h.owned_spec howned).2.2.2
    · exact absurd hs.symm (hpage.neKernelTable scratchIndex (by decide) h.building.ready.pde.1)
    · exact absurd (mem_append_left _ hl) hnot
  · rw [update_of_ne hx, h.accounted x, mem_erase_of_ne hx]

/-- The used frames after one of the caller's frames was mapped. -/
theorem Clean.accounted_mapped (hf : f ∈ loose)
    (hm : Mapped m dir d t f flags table m') (hscratch : m'.scratchTable k = m.scratchTable k)
    (howned : ∀ x, Owned m' dir x ↔
      Owned m dir x ∨ ((m.mem dir d).has pagePresent = false ∧ x = table) ∨ x = f) :
    Accounted m0 k dir (loose.erase f) m' := by
  intro x
  have hmem : x ∈ loose ↔ x = f ∨ x ∈ loose.erase f := by
    constructor
    · intro hx
      by_cases hxf : x = f
      · exact .inl hxf
      · exact .inr ((mem_erase_of_ne hxf).mpr hx)
    · rintro (rfl | hx)
      · exact hf
      · exact mem_of_mem_erase hx
  rw [hm.used_iff, h.accounted x, howned, hscratch, hmem]
  tauto

/-- A change of the directory and of a page table of its own. -/
theorem Clean.kept_mapped (hready : KernelReady m0 k)
    (hkernel : m'.mem k = m.mem k)
    (hmem : ∀ x, m.used x = true → x ≠ dir →
      (∀ d, Private m0 k d → (m.mem dir d).has pagePresent = true → x ≠ frameOf (m.mem dir d)) →
        m'.mem x = m.mem x) : KernelKept m0 k m' := by
  have hne : ∀ x, m0.used x = true → x ≠ dir ∧
      ∀ d, Private m0 k d → (m.mem dir d).has pagePresent = true → x ≠ frameOf (m.mem dir d) := by
    intro x hx
    refine ⟨?_, fun d hd hp => ?_⟩
    · rintro rfl
      rw [h.layout.dirFresh] at hx
      cases hx
    · rintro rfl
      rw [h.layout.fresh d hd hp] at hx
      cases hx
  refine h.kept.congr hready hkernel (fun x hx => ?_) ?_
  · exact hmem x (h.building.usedMono x hx) (hne x hx).1 (hne x hx).2
  · exact hmem _ h.building.ready.scratch_used h.dir_ne_scratch fun d hd hp he =>
      (h.building.tableNe d hd.lt hp).2 he.symm

/-- The entry of a page table that is there already is raised. -/
theorem raised_pde (hd : Private m0 k d)
    (hp : (m.mem dir d).has pagePresent = true)
    (hdir : m'.mem dir = update (m.mem dir) d (raisedPde flags (m.mem dir d))) (i : Nat) :
    (m'.mem dir i).has pagePresent = (m.mem dir i).has pagePresent ∧
      frameOf (m'.mem dir i) = frameOf (m.mem dir i) ∧
      (m'.mem dir i).has pageUser = (m.mem dir i).has pageUser := by
  rw [hdir]
  obtain ⟨h1, h2⟩ := update_raised (m.mem dir) d flags i
  refine ⟨h1, h2, ?_⟩
  by_cases hid : i = d
  · subst hid
    rw [update_self, raisedPde_user, h.layout.user i hd hp, Bool.true_or]
  · rw [update_of_ne hid]

end

/-- The layout where each directory entry keeps its page table and its `PAGE_USER` bit. -/
theorem Layout.congr {pages' : List Nat} (h : Layout m0 k dir pages m)
    (hpde : ∀ i, (m'.mem dir i).has pagePresent = (m.mem dir i).has pagePresent ∧
      frameOf (m'.mem dir i) = frameOf (m.mem dir i) ∧
      (m'.mem dir i).has pageUser = (m.mem dir i).has pageUser)
    (hpage : ∀ i u, Private m0 k i → u < 1024 → (m.mem dir i).has pagePresent = true →
      (m'.mem (frameOf (m.mem dir i)) u).has pagePresent = true →
      frameOf (m'.mem (frameOf (m.mem dir i)) u) ∈ pages') : Layout m0 k dir pages' m' where
  dirFresh := h.dirFresh
  user i hi hp := by
    rw [(hpde i).1] at hp
    rw [(hpde i).2.2]
    exact h.user i hi hp
  supervisor i hi hne hsh := by
    rw [(hpde i).2.2]
    exact h.supervisor i hi hne hsh
  fresh i hi hp := by
    rw [(hpde i).1] at hp
    rw [(hpde i).2.1]
    exact h.fresh i hi hp
  page i u hi hu hp hpt := by
    rw [(hpde i).1] at hp
    rw [(hpde i).2.1] at hpt ⊢
    exact hpage i u hi hu hp hpt

/-- The directory with one more page. -/
theorem Layout.mapped (h : Layout m0 k dir pages m) (hok : DirectoryOk m dir)
    (hmono : ∀ x, m0.used x = true → m.used x = true) (hd : Private m0 k d) (hf : f < 2 ^ 20)
    (hm : Mapped m dir d t f flags table m') (hu : (m'.mem dir d).has pageUser = true) :
    Layout m0 k dir (f :: pages) m' where
  dirFresh := h.dirFresh
  user i hi hp := by
    by_cases hid : i = d
    · rw [hid]
      exact hu
    · rw [hm.row i hid] at hp ⊢
      exact h.user i hi hp
  supervisor i hi hne hsh := by
    have hid : i ≠ d := by
      rintro rfl
      rw [hd.unshared] at hsh
      cases hsh
    rw [hm.row i hid]
    exact h.supervisor i hi hne hsh
  fresh i hi hp := by
    by_cases hid : i = d
    · rw [hid, hm.pde.2]
      rcases hm.slot with ⟨hpd, hframe, -⟩ | ⟨-, -, hunused, -⟩
      · rw [← hframe]
        exact h.fresh d hd hpd
      · rw [← Bool.not_eq_true]
        intro hold
        rw [hmono table hold] at hunused
        cases hunused
    · rw [hm.row i hid] at hp ⊢
      exact h.fresh i hi hp
  page i u hi hu' hp hpt := by
    by_cases hid : i = d
    · rw [hid, hm.pde.2] at hpt ⊢
      by_cases hut : u = t
      · rw [hut, hm.pte, pageEntry_frame hf]
        exact mem_cons_self
      · rcases hm.slot with ⟨hpd, hframe, -, -, -, hkept⟩ | ⟨-, -, -, -, -, hzero⟩
        · rw [hkept u hut, ← hframe] at hpt ⊢
          exact mem_cons_of_mem _ (h.page d u hd hu' hpd hpt)
        · rw [hzero u hut, zero_not_present] at hpt
          cases hpt
    · rw [hm.row i hid] at hp hpt ⊢
      rw [hm.other_table hok hd.lt hi.lt hp hid] at hpt ⊢
      exact mem_cons_of_mem _ (h.page i u hi hu' hp hpt)

/-- An attempt to map one of the caller's frames with `PAGE_USER`, at an entry the
kernel does not share. -/
theorem Clean.mapped (h : Clean m0 k dir loose pages m) (hready : KernelReady m0 k)
    (hf : f ∈ loose) (hd : Private m0 k d) (ht : t < 1024) (hu : flags.has pageUser = true) {ok : Bool}
    (hout : MapOutcome m dir d t f flags (ok, m')) :
    if ok then Clean m0 k dir (loose.erase f) (f :: pages) m' else Clean m0 k dir loose pages m' := by
  have hbuilding := h.building.mapped hd.lt hd.ne hout
  have hflt : f < 2 ^ 20 := Nat.lt_trans (h.loose_page hf).1.range.2 (by decide)
  have hkdir : k ≠ dir := Ne.symm h.building.dirNe
  cases ok with
  | true =>
    obtain ⟨table, hm⟩ := hout.mapped_of_success h.building.dirOk hd.lt
    -- the frame changes hands, from the caller to the directory
    have hperm : (loose.erase f ++ f :: pages).Perm (loose ++ pages) := by
      refine perm_middle.trans ?_
      exact (perm_cons_erase hf).symm.append_right pages
    have hkernel : m'.mem k = m.mem k := by
      refine hm.rest k hkdir (hm.ne_table h.building.ready.ok.dirUsed fun hp => ?_)
      exact (h.building.tableNe d hd.lt hp).1.symm
    have huser : (m'.mem dir d).has pageUser = true := by
      rcases hm.slot with ⟨-, -, -, -, hpde, -⟩ | ⟨-, -, -, -, hpde, -⟩
      · rw [hpde, raisedPde_user, hu, Bool.or_true]
      · rw [hpde, tablePde_user, hu]
    rw [if_pos rfl]
    exact
      { building := hbuilding.mono fun g hg => hperm.mem_iff.mp hg
        nodup := hperm.symm.nodup h.nodup
        kept := h.kept_mapped hready hkernel fun x hx hxd hxt =>
          hm.rest x hxd (hm.ne_table hx fun hp => hxt d hd hp)
        layout := h.layout.mapped h.building.dirOk h.building.usedMono hd hflt hm huser
        accounted := h.accounted_mapped hf hm (by rw [Machine.scratchTable, hkernel]; rfl) fun x =>
          hm.owned_iff h.building.dirOk hd.lt ht hflt huser (h.layout.user d hd) }
  | false =>
    rw [if_neg Bool.false_ne_true]
    cases hout with
    | noFrame _ _ => exact h
    | taken hp _ =>
      -- the directory entry was raised before the page turned out to be taken
      generalize hm' : m.write dir (update (m.mem dir) d
        (raisedPde flags (m.mem dir d))) = m' at hbuilding ⊢
      have hdir : m'.mem dir = update (m.mem dir) d (raisedPde flags (m.mem dir d)) := by
        rw [← hm', write_self]
      have hother : ∀ x, x ≠ dir → m'.mem x = m.mem x := fun x hx => by rw [← hm', write_ne hx]
      have hpde := raised_pde h hd hp hdir
      have htable : ∀ i, i < 1023 → (m.mem dir i).has pagePresent = true →
          m'.mem (frameOf (m.mem dir i)) = m.mem (frameOf (m.mem dir i)) := fun i hi hp =>
        hother _ (h.building.dirOk.tableNe i hi hp)
      have hkernel : m'.mem k = m.mem k := hother k hkdir
      refine
        { building := hbuilding
          nodup := h.nodup
          kept := h.kept_mapped hready hkernel fun x _ hxd _ => hother x hxd
          layout := h.layout.congr hpde fun i u hi hu' hp' hpt => ?_
          accounted := fun x => ?_ }
      · rw [htable i hi.lt hp'] at hpt ⊢
        exact h.layout.page i u hi hu' hp' hpt
      · rw [Owned.congr hpde htable, Machine.scratchTable, hkernel, ← hm']
        exact h.accounted x

end MeatySkeleton.Paging
