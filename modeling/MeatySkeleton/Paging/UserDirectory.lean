import MeatySkeleton.Paging.Tables
import Mathlib.Data.List.Dedup

/-!
# A user directory under construction

`KernelReady m k` is the state a user directory is made in: the kernel's own
directory `k` is active and well formed. `Building` holds of every later state
while a new directory `dir` is filled, whatever is mapped into it: both
directories stay well formed and the kernel's directory entries stay what they
were. `Clean` says more, as long as no page under a directory entry shared with
the kernel was mapped: the kernel's page tables are untouched, and the frames in
use are exactly those used before, those the new directory owns, and the page
table of the scratch slot.

`pages` are the frames the caller has taken for pages.
-/

namespace MeatySkeleton.Paging

open Function

structure KernelReady (m : Machine) (k : Nat) : Prop where
  cr3 : m.cr3 = k * pageSize
  kernelDirectory : m.kernelDirectory = k * pageSize
  ok : DirectoryOk m k
  slot : (m.mem k scratchIndex).has pagePresent = true →
    (m.mem (frameOf (m.mem k scratchIndex)) 0).has pagePresent = false

/-- What `paging_destroy_user_directory` frees: the directory, and every page
table and page under its user entries. -/
def Owned (m : Machine) (dir f : Nat) : Prop :=
  f = dir ∨ ∃ d, d < 1023 ∧ (m.mem dir d).has pagePresent = true ∧
    (m.mem dir d).has pageUser = true ∧ (f = frameOf (m.mem dir d) ∨
      ∃ t, t < 1024 ∧ (m.mem (frameOf (m.mem dir d)) t).has pagePresent = true ∧
        f = frameOf (m.mem (frameOf (m.mem dir d)) t))

variable {m0 m m' : Machine} {k dir f d t table : Nat} {pages : List Nat} {flags : Word}

/-- The page table of the kernel's scratch slot. -/
def Machine.scratchTable (m : Machine) (k : Nat) : Nat := frameOf (m.mem k scratchIndex)

/-- A frame taken for a page: new, and neither a directory nor a page table. -/
structure PageFrame (m0 m : Machine) (k dir f : Nat) : Prop where
  range : 0 < f ∧ f < frameCount
  fresh : m0.used f = false
  used : m.used f = true
  neKernel : f ≠ k
  neDir : f ≠ dir
  neKernelTable : ∀ d, d < 1023 → (m.mem k d).has pagePresent = true → frameOf (m.mem k d) ≠ f
  neTable : ∀ d, d < 1023 → (m.mem dir d).has pagePresent = true → frameOf (m.mem dir d) ≠ f

structure Building (m0 : Machine) (k dir : Nat) (pages : List Nat) (m : Machine) : Prop where
  cr3 : m.cr3 = k * pageSize
  kernelDirectory : m.kernelDirectory = k * pageSize
  ready : ScratchReady m k (m.scratchTable k)
  dirOk : DirectoryOk m dir
  dirNe : dir ≠ k
  dirScratch : (m.mem dir scratchIndex).has pagePresent = false
  tableNe : ∀ d, d < 1023 → (m.mem dir d).has pagePresent = true →
    frameOf (m.mem dir d) ≠ k ∧ frameOf (m.mem dir d) ≠ m.scratchTable k
  kernelTableNe : ∀ d, d < 1023 → (m.mem k d).has pagePresent = true → frameOf (m.mem k d) ≠ dir
  kernelPde : ∀ d, d ≠ scratchIndex → m.mem k d = m0.mem k d
  shared : ∀ d, d < 1023 → d ≠ scratchIndex → (m0.mem k d).shared = true →
    (m.mem dir d).has pagePresent = true ∧ frameOf (m.mem dir d) = frameOf (m0.mem k d)
  usedMono : ∀ x, m0.used x = true → m.used x = true
  page : ∀ f ∈ pages, PageFrame m0 m k dir f

/-- A directory whose entries keep their frames stays well formed. -/
theorem DirectoryOk.congr (h : DirectoryOk m dir)
    (hused : ∀ x, m.used x = true → m'.used x = true ∨ (x ≠ dir ∧
      ∀ d, d < 1023 → (m.mem dir d).has pagePresent = true → frameOf (m.mem dir d) ≠ x))
    (hpde : ∀ d, (m'.mem dir d).has pagePresent = (m.mem dir d).has pagePresent ∧
      frameOf (m'.mem dir d) = frameOf (m.mem dir d)) : DirectoryOk m' dir where
  range := h.range
  dirUsed := (hused dir h.dirUsed).resolve_right fun hne => hne.1 rfl
  recursive := by
    rw [(hpde _).1, (hpde _).2]
    exact h.recursive
  tableRange d hd hp := by
    rw [(hpde d).1] at hp
    rw [(hpde d).2]
    exact h.tableRange d hd hp
  tableUsed d hd hp := by
    rw [(hpde d).1] at hp
    rw [(hpde d).2]
    exact (hused _ (h.tableUsed d hd hp)).resolve_right fun hne => hne.2 d hd hp rfl
  tableNe d hd hp := by
    rw [(hpde d).1] at hp
    rw [(hpde d).2]
    exact h.tableNe d hd hp
  distinct d e hd he hp hp' hf := by
    rw [(hpde _).1] at hp hp'
    rw [(hpde d).2, (hpde e).2] at hf
    exact h.distinct d e hd he hp hp' hf

/-- Entries that keep their frames, one by one. -/
theorem update_pde {row : Nat → Word} {i : Nat} {e : Word}
    (hp : e.has pagePresent = (row i).has pagePresent) (hf : frameOf e = frameOf (row i)) (d : Nat) :
    (update row i e d).has pagePresent = (row d).has pagePresent ∧
      frameOf (update row i e d) = frameOf (row d) := by
  by_cases hd : d = i
  · subst hd
    rw [update_self]
    exact ⟨hp, hf⟩
  · rw [update_of_ne hd]
    exact ⟨rfl, rfl⟩

theorem update_raised (row : Nat → Word) (i : Nat) (flags : Word) (d : Nat) :
    (update row i (raisedPde flags (row i)) d).has pagePresent = (row d).has pagePresent ∧
      frameOf (update row i (raisedPde flags (row i)) d) = frameOf (row d) :=
  update_pde (raisedPde_present ..) (raisedPde_frame ..) d

/-- A frame stays a page's as long as new page tables come from the allocator. -/
theorem PageFrame.congr (h : PageFrame m0 m k dir f) (hused : m'.used f = true)
    (hkernel : ∀ d, (m'.mem k d).has pagePresent = (m.mem k d).has pagePresent ∧
      frameOf (m'.mem k d) = frameOf (m.mem k d))
    (hdir : ∀ d, d < 1023 → (m'.mem dir d).has pagePresent = true →
      ((m.mem dir d).has pagePresent = true ∧ frameOf (m'.mem dir d) = frameOf (m.mem dir d)) ∨
        m.used (frameOf (m'.mem dir d)) = false) : PageFrame m0 m' k dir f :=
  { h with
    used := hused
    neKernelTable d hd hp := by
      rw [(hkernel d).1] at hp
      rw [(hkernel d).2]
      exact h.neKernelTable d hd hp
    neTable d hd hp := by
      rcases hdir d hd hp with ⟨hp', hf⟩ | hfree
      · rw [hf]
        exact h.neTable d hd hp'
      · intro he
        rw [he, h.used] at hfree
        cases hfree }

/-! ## `Building` is kept -/

/-- A frame is taken from the allocator. -/
theorem Building.allocated (h : Building m0 k dir pages m) (hf : m.used f = false)
    (hrange : 0 < f ∧ f < frameCount) : Building m0 k dir (f :: pages) (m.markUsed f) := by
  have hused : ∀ x, m.used x = true → (m.markUsed f).used x = true := fun x hx =>
    m.markUsed_mono f hx
  have hne : ∀ x, m.used x = true → x ≠ f := by
    rintro x hx rfl
    rw [hf] at hx
    cases hx
  have hkernelOk : DirectoryOk (m.markUsed f) k :=
    h.ready.ok.congr (fun x hx => .inl (hused x hx)) (fun _ => ⟨rfl, rfl⟩)
  exact
    { h with
      ready := ⟨h.ready.directory, hkernelOk, h.ready.pde, h.ready.free⟩
      dirOk := h.dirOk.congr (fun x hx => .inl (hused x hx)) (fun _ => ⟨rfl, rfl⟩)
      usedMono := fun x hx => hused x (h.usedMono x hx)
      page := by
        intro g hg
        rcases List.mem_cons.mp hg with rfl | hg
        · exact
            { range := hrange
              fresh := by
                cases hu : m0.used g with
                | false => rfl
                | true => exact absurd rfl (hne g (h.usedMono g hu))
              used := update_self ..
              neKernel := (hne k h.ready.ok.dirUsed).symm
              neDir := (hne dir h.dirOk.dirUsed).symm
              neKernelTable := fun d hd hp => hne _ (h.ready.ok.tableUsed d hd hp)
              neTable := fun d hd hp => hne _ (h.dirOk.tableUsed d hd hp) }
        · exact (h.page g hg).congr (hused g (h.page g hg).used) (fun _ => ⟨rfl, rfl⟩)
            (fun d _ hp => .inl ⟨hp, rfl⟩) }

/-- A frame that was taken and not mapped goes back to the allocator. -/
theorem Building.freed (h : Building m0 k dir (f :: pages) m) (hf : f ∉ pages) :
    Building m0 k dir pages (m.markFree f) := by
  have hh := h.page f List.mem_cons_self
  have hused : ∀ x, x ≠ f → (m.markFree f).used x = m.used x := fun x hx =>
    update_of_ne hx ..
  have hkeep : ∀ {e : Nat}, f ≠ e → (∀ d, d < 1023 → (m.mem e d).has pagePresent = true →
      frameOf (m.mem e d) ≠ f) → ∀ x, m.used x = true → (m.markFree f).used x = true ∨ (x ≠ e ∧
        ∀ d, d < 1023 → (m.mem e d).has pagePresent = true → frameOf (m.mem e d) ≠ x) := by
    intro e hne htable x hx
    by_cases hxf : x = f
    · subst hxf
      exact .inr ⟨hne, htable⟩
    · left
      rw [hused x hxf]
      exact hx
  have hkernelOk : DirectoryOk (m.markFree f) k :=
    h.ready.ok.congr (hkeep hh.neKernel hh.neKernelTable) (fun _ => ⟨rfl, rfl⟩)
  exact
    { h with
      ready := ⟨h.ready.directory, hkernelOk, h.ready.pde, h.ready.free⟩
      dirOk := h.dirOk.congr (hkeep hh.neDir hh.neTable) (fun _ => ⟨rfl, rfl⟩)
      usedMono := by
        intro x hx
        have hxf : x ≠ f := by
          rintro rfl
          rw [hh.fresh] at hx
          cases hx
        rw [hused x hxf]
        exact h.usedMono x hx
      page := by
        intro g hg
        have hgf : g ≠ f := by
          rintro rfl
          exact hf hg
        have hpage := h.page g (List.mem_cons_of_mem _ hg)
        refine hpage.congr ?_ (fun _ => ⟨rfl, rfl⟩) (fun d _ hp => .inl ⟨hp, rfl⟩)
        rw [hused g hgf]
        exact hpage.used }

/-- Which frames are watched is up to the caller. -/
theorem Building.mono {pages' : List Nat} (h : Building m0 k dir pages m)
    (hsub : ∀ g ∈ pages', g ∈ pages) : Building m0 k dir pages' m :=
  { h with page := fun g hg => h.page g (hsub g hg) }

/-- A directory gets a page table of its own at an empty entry. -/
theorem DirectoryOk.insert (h : DirectoryOk m dir) {e : Word} (hd : d < 1023)
    (hrange : 0 < table ∧ table < frameCount) (hfree : m.used table = false)
    (hframe : frameOf e = table)
    (hrow : m'.mem dir = update (m.mem dir) d e)
    (hused : ∀ x, m'.used x = true ↔ m.used x = true ∨ x = table) : DirectoryOk m' dir := by
  have hne : ∀ x, m.used x = true → x ≠ table := by
    rintro x hx rfl
    rw [hfree] at hx
    cases hx
  have hself : m'.mem dir d = e := by rw [hrow, update_self]
  have hother : ∀ i, i ≠ d → m'.mem dir i = m.mem dir i := fun i hi => by
    rw [hrow, update_of_ne hi]
  refine
    { range := h.range
      dirUsed := (hused dir).mpr (.inl h.dirUsed)
      recursive := ?_
      tableRange := ?_
      tableUsed := ?_
      tableNe := ?_
      distinct := ?_ }
  · rw [hother recursiveDirectoryIndex (Nat.ne_of_gt hd)]
    exact h.recursive
  · intro i hi hp
    by_cases hid : i = d
    · subst hid
      rw [hself, hframe]
      exact hrange
    · rw [hother i hid] at hp ⊢
      exact h.tableRange i hi hp
  · intro i hi hp
    by_cases hid : i = d
    · subst hid
      rw [hself, hframe]
      exact (hused table).mpr (.inr rfl)
    · rw [hother i hid] at hp ⊢
      exact (hused _).mpr (.inl (h.tableUsed i hi hp))
  · intro i hi hp
    by_cases hid : i = d
    · subst hid
      rw [hself, hframe]
      exact (hne dir h.dirUsed).symm
    · rw [hother i hid] at hp ⊢
      exact h.tableNe i hi hp
  · intro i j hi hj hp hp' hf
    by_cases hid : i = d <;> by_cases hjd : j = d
    · rw [hid, hjd]
    · subst hid
      rw [hother j hjd] at hp' hf
      rw [hself, hframe] at hf
      exact absurd hf.symm (hne _ (h.tableUsed j hj hp'))
    · subst hjd
      rw [hother i hid] at hp hf
      rw [hself, hframe] at hf
      exact absurd hf (hne _ (h.tableUsed i hi hp))
    · rw [hother i hid] at hp hf
      rw [hother j hjd] at hp' hf
      exact h.distinct i j hi hj hp hp' hf

/-- What a change of the new directory has to leave alone. -/
theorem Building.redirected (h : Building m0 k dir pages m) (hcr3 : m'.cr3 = m.cr3) (hkd : m'.kernelDirectory = m.kernelDirectory)
    (hkernel : m'.mem k = m.mem k) (hslot : m'.mem (m.scratchTable k) = m.mem (m.scratchTable k))
    (hused : ∀ x, m.used x = true → m'.used x = true) (hdirOk : DirectoryOk m' dir)
    (hpde : ∀ i, i < 1023 → (m.mem dir i).has pagePresent = true →
      (m'.mem dir i).has pagePresent = true ∧ frameOf (m'.mem dir i) = frameOf (m.mem dir i))
    (hnew : ∀ i, i < 1023 → (m.mem dir i).has pagePresent = false →
      (m'.mem dir i).has pagePresent = true → i ≠ scratchIndex ∧
        m.used (frameOf (m'.mem dir i)) = false) : Building m0 k dir pages m' := by
  have hne : ∀ x y, m.used x = true → m.used y = false → y ≠ x := by
    rintro x y hx hy rfl
    rw [hx] at hy
    cases hy
  have hscratch : m'.scratchTable k = m.scratchTable k := by
    rw [Machine.scratchTable, hkernel, Machine.scratchTable]
  refine
    { cr3 := hcr3.trans h.cr3
      kernelDirectory := hkd.trans h.kernelDirectory
      ready := ?_
      dirOk := hdirOk
      dirNe := h.dirNe
      dirScratch := ?_
      tableNe := ?_
      kernelTableNe := by rw [hkernel]; exact h.kernelTableNe
      kernelPde := by rw [hkernel]; exact h.kernelPde
      shared := ?_
      usedMono := fun x hx => hused x (h.usedMono x hx)
      page := ?_ }
  · refine ⟨?_, h.ready.ok.congr (fun x hx => .inl (hused x hx)) (fun _ => by rw [hkernel]; exact
      ⟨rfl, rfl⟩), ?_, ?_⟩
    · rw [Machine.directory, hcr3]
      exact h.ready.directory
    · rw [hscratch, hkernel]
      exact h.ready.pde
    · rw [hscratch, hslot]
      exact h.ready.free
  · cases hp : (m'.mem dir scratchIndex).has pagePresent with
    | false => rfl
    | true => exact absurd rfl (hnew scratchIndex (by decide) h.dirScratch hp).1
  · intro i hi hp
    rw [hscratch]
    cases hold : (m.mem dir i).has pagePresent with
    | true =>
      rw [(hpde i hi hold).2]
      exact h.tableNe i hi hold
    | false =>
      have hfree := (hnew i hi hold hp).2
      exact ⟨hne k _ h.ready.ok.dirUsed hfree, hne _ _ h.ready.scratch_used hfree⟩
  · intro i hi hne' hsh
    obtain ⟨hp, hf⟩ := h.shared i hi hne' hsh
    obtain ⟨hp', hf'⟩ := hpde i hi hp
    exact ⟨hp', hf'.trans hf⟩
  · intro g hg
    have hpage := h.page g hg
    refine hpage.congr (hused g hpage.used) (fun _ => by rw [hkernel]; exact ⟨rfl, rfl⟩) ?_
    intro i hi hp
    cases hold : (m.mem dir i).has pagePresent with
    | true => exact .inl ⟨rfl, (hpde i hi hold).2⟩
    | false => exact .inr (hnew i hi hold hp).2

/-- What `paging_map_page` leaves behind when it succeeds: frame `f` is at entry `t` of
table `d`, and that table, in frame `table`, was there already or is new. -/
structure Mapped (m : Machine) (dir d t f : Nat) (flags : Word) (table : Nat) (m' : Machine) :
    Prop where
  cr3 : m'.cr3 = m.cr3
  kernelDirectory : m'.kernelDirectory = m.kernelDirectory
  ok : DirectoryOk m' dir
  row : ∀ e, e ≠ d → m'.mem dir e = m.mem dir e
  pde : (m'.mem dir d).has pagePresent = true ∧ frameOf (m'.mem dir d) = table
  pte : m'.mem table t = pageEntry f flags
  rest : ∀ x, x ≠ dir → x ≠ table → m'.mem x = m.mem x
  slot : ((m.mem dir d).has pagePresent = true ∧ frameOf (m.mem dir d) = table ∧
      (m.mem table t).has pagePresent = false ∧ m'.used = m.used ∧
      m'.mem dir d = raisedPde flags (m.mem dir d) ∧ ∀ s, s ≠ t → m'.mem table s = m.mem table s) ∨
    ((m.mem dir d).has pagePresent = false ∧ (0 < table ∧ table < frameCount) ∧
      m.used table = false ∧ m'.used = update m.used table true ∧
      m'.mem dir d = tablePde table flags ∧ ∀ s, s ≠ t → m'.mem table s = 0#32)

theorem MapOutcome.mapped_of_success (h : MapOutcome m dir d t f flags (true, m'))
    (hok : DirectoryOk m dir) (hd : d < 1023) : ∃ table, Mapped m dir d t f flags table m' := by
  generalize hr : (true, m') = r at h
  cases h with
  | noFrame _ _ => cases hr
  | taken _ _ => cases hr
  | @newTable table habsent hpos hlt hunused _ =>
    have hm' := (Prod.mk.inj hr).2
    have hne : table ≠ dir := by
      intro he
      rw [he, hok.dirUsed] at hunused
      cases hunused
    have hdir : m'.mem dir = update (m.mem dir) d (tablePde table flags) := by
      rw [hm', write_ne hne.symm, write_self]
    have hentries : m'.mem table = update (fun _ => 0#32) t (pageEntry f flags) := by
      rw [hm', write_self]
    have hself : m'.mem dir d = tablePde table flags := by rw [hdir, update_self]
    have hused : m'.used = update m.used table true := by
      rw [hm']
      rfl
    refine ⟨table,
      { cr3 := by rw [hm']; rfl
        kernelDirectory := by rw [hm']; rfl
        ok := hok.insert hd ⟨hpos, hlt⟩ hunused (tablePde_frame hlt flags) hdir fun x => by
          rw [hused]
          exact update_used_iff
        row := fun e he => by rw [hdir, update_of_ne he]
        pde := by
          rw [hself]
          exact ⟨tablePde_present .., tablePde_frame hlt flags⟩
        pte := by rw [hentries, update_self]
        rest := fun x hx hx' => by
          rw [hm', write_ne hx', write_ne hx]
          rfl
        slot := .inr ⟨habsent, ⟨hpos, hlt⟩, hunused, hused, hself, fun s hs => by
          rw [hentries, update_of_ne hs]⟩ }⟩
  | mapped hp hpte =>
    have hm' := (Prod.mk.inj hr).2
    have hne : frameOf (m.mem dir d) ≠ dir := hok.tableNe d hd hp
    have hdir : m'.mem dir = update (m.mem dir) d (raisedPde flags (m.mem dir d)) := by
      rw [hm', write_ne hne.symm, write_self]
    have hentries : m'.mem (frameOf (m.mem dir d)) =
        update (m.mem (frameOf (m.mem dir d))) t (pageEntry f flags) := by
      rw [hm', write_self]
    have hself : m'.mem dir d = raisedPde flags (m.mem dir d) := by
      rw [hdir, update_self]
    have hused : m'.used = m.used := by
      rw [hm']
      rfl
    refine ⟨frameOf (m.mem dir d),
      { cr3 := by rw [hm']; rfl
        kernelDirectory := by rw [hm']; rfl
        ok := hok.congr (fun x hx => .inl (by rw [hused, hx])) fun e => by
          rw [hdir]
          exact update_raised ..
        row := fun e he => by rw [hdir, update_of_ne he]
        pde := by
          rw [hself, raisedPde_present, raisedPde_frame]
          exact ⟨hp, rfl⟩
        pte := by rw [hentries, update_self]
        rest := fun x hx hx' => by rw [hm', write_ne hx', write_ne hx]
        slot := .inl ⟨hp, rfl, hpte, hused, hself, fun s hs => by
          rw [hentries, update_of_ne hs]⟩ }⟩

section

variable (h : Mapped m dir d t f flags table m')

include h

theorem Mapped.used_iff (x : Nat) :
    m'.used x = true ↔ m.used x = true ∨ ((m.mem dir d).has pagePresent = false ∧ x = table) := by
  rcases h.slot with ⟨hp, -, -, hused, -⟩ | ⟨habsent, -, -, hused, -⟩
  · rw [hused, hp]
    exact ⟨.inl, fun hx => hx.resolve_right fun hnew => nomatch hnew.1⟩
  · rw [hused, habsent]
    exact update_used_iff.trans (or_congr_right ⟨fun hx => ⟨rfl, hx⟩, fun hx => hx.2⟩)

/-- A new page table is a frame nobody had. -/
theorem Mapped.ne_table {x : Nat} (hx : m.used x = true)
    (hne : (m.mem dir d).has pagePresent = true → x ≠ frameOf (m.mem dir d)) : x ≠ table := by
  rintro rfl
  rcases h.slot with ⟨hp, hframe, -⟩ | ⟨-, -, hunused, -⟩
  · exact hne hp hframe.symm
  · rw [hx] at hunused
    cases hunused

/-- The directory's other page tables. -/
theorem Mapped.other_table (hok : DirectoryOk m dir)
    (hd : d < 1023) {i : Nat} (hi : i < 1023) (hp : (m.mem dir i).has pagePresent = true)
    (hid : i ≠ d) : m'.mem (frameOf (m.mem dir i)) = m.mem (frameOf (m.mem dir i)) :=
  h.rest _ (hok.tableNe i hi hp) (h.ne_table (hok.tableUsed i hi hp) fun hpd he =>
    hid (hok.distinct i d hi hd hp hpd he))

end

/-- A page is mapped into the new directory, or the attempt fails. -/
theorem Building.mapped (h : Building m0 k dir pages m) (hd : d < 1023)
    (hscratch : d ≠ scratchIndex) {ok : Bool}
    (hout : MapOutcome m dir d t f flags (ok, m')) : Building m0 k dir pages m' := by
  have hkdir : k ≠ dir := Ne.symm h.dirNe
  have hslotDir : m.scratchTable k ≠ dir := h.kernelTableNe scratchIndex (by decide) h.ready.pde.1
  cases ok with
  | true =>
    obtain ⟨table, hm⟩ := hout.mapped_of_success h.dirOk hd
    refine h.redirected hm.cr3 hm.kernelDirectory (hm.rest k hkdir ?_) (hm.rest _ hslotDir ?_)
      (fun x hx => (hm.used_iff x).mpr (.inl hx)) hm.ok ?_ ?_
    · exact hm.ne_table h.ready.ok.dirUsed fun hp => (h.tableNe d hd hp).1.symm
    · exact hm.ne_table h.ready.scratch_used fun hp => (h.tableNe d hd hp).2.symm
    · intro i _ hp
      by_cases hid : i = d
      · subst hid
        rcases hm.slot with ⟨-, hframe, -⟩ | ⟨habsent, -⟩
        · exact ⟨hm.pde.1, hm.pde.2.trans hframe.symm⟩
        · rw [hp] at habsent
          cases habsent
      · rw [hm.row i hid]
        exact ⟨hp, rfl⟩
    · intro i _ hold hp
      have hid : i = d := by
        by_contra hid
        rw [hm.row i hid, hold] at hp
        cases hp
      subst hid
      refine ⟨hscratch, ?_⟩
      rcases hm.slot with ⟨hp, -⟩ | ⟨-, -, hunused, -⟩
      · rw [hold] at hp
        cases hp
      · rw [hm.pde.2]
        exact hunused
  | false =>
    cases hout with
    | noFrame _ _ => exact h
    | taken _ _ =>
      -- the directory entry was raised before the page turned out to be taken
      have hrow : (m.write dir (update (m.mem dir) d (raisedPde flags
          (m.mem dir d)))).mem dir = update (m.mem dir) d (raisedPde flags (m.mem dir d)) :=
        write_self ..
      have hpde := update_raised (m.mem dir) d flags
      refine h.redirected rfl rfl (write_ne hkdir) (write_ne hslotDir) (fun x hx => hx) ?_ ?_ ?_
      · refine h.dirOk.congr (fun x hx => .inl hx) fun i => ?_
        rw [hrow]
        exact hpde i
      · intro i hi hp'
        rw [hrow, (hpde i).1]
        exact ⟨hp', (hpde i).2⟩
      · intro i _ hold hp'
        rw [hrow, (hpde i).1, hold] at hp'
        cases hp'

/-- `paging_map_page_in_directory` works on the directory as `paging_map_page` does. -/
theorem pagingMapPageInDirectory_outcome (hcr3 : m.cr3 = k * pageSize)
    (hkernel : m.kernelDirectory = k * pageSize) (hkpos : 0 < k) (hok : DirectoryOk m dir)
    (hne : dir ≠ k) {v : Nat} (hv : v % pageSize = 0) (hd : pageDirectoryIndex v < 1023)
    (hscratch : pageDirectoryIndex v ≠ scratchIndex) (f : Nat) (flags : Word) :
    ∃ r, pagingMapPageInDirectory m (dir * pageSize) v (f * pageSize) flags = some r ∧
      MapOutcome m dir (pageDirectoryIndex v) (pageTableIndex v) f flags r := by
  have hpos := hok.range.1
  have hdir0 : dir * pageSize ≠ 0 := Nat.mul_ne_zero (Nat.ne_of_gt hpos) (by decide)
  have hk0 : k * pageSize ≠ 0 := Nat.mul_ne_zero (Nat.ne_of_gt hkpos) (by decide)
  have hneK : dir * pageSize ≠ k * pageSize := fun he =>
    hne (Nat.eq_of_mul_eq_mul_right (by decide) he)
  have hguard : ¬(dir * pageSize = 0 ∨ dir * pageSize % pageSize ≠ 0 ∨ v % pageSize ≠ 0 ∨
      f * pageSize % pageSize ≠ 0 ∨ m.kernelDirectory = 0 ∨ m.cr3 ≠ m.kernelDirectory) := by
    rw [hcr3, hkernel, Nat.mul_mod_left, Nat.mul_mod_left]
    simp [hdir0, hk0, hv]
  have hswitch := pagingSwitchDirectory_eq m hpos
  have hok' : DirectoryOk { m with cr3 := dir * pageSize } dir :=
    hok.congr (fun x hx => .inl hx) (fun _ => ⟨rfl, rfl⟩)
  obtain ⟨⟨ok, m1⟩, hr, hout⟩ := pagingMapPage_outcome hok' (Nat.mul_div_cancel dir (by decide)) hv
    hd f flags
  have hback : ∀ m2 : Machine, m2.kernelDirectory = k * pageSize →
      pagingSwitchDirectory m2 m2.kernelDirectory = (true, { m2 with cr3 := k * pageSize }) :=
    fun m2 hkd => (congrArg _ hkd).trans (pagingSwitchDirectory_eq m2 hkpos)
  have hkd1 : m1.kernelDirectory = k * pageSize := by
    cases hout <;> exact hkernel
  refine ⟨(ok, { m1 with cr3 := k * pageSize }), ?_, ?_⟩
  · have hindex : ¬(pageDirectoryIndex v = recursiveDirectoryIndex ∨
        pageDirectoryIndex v = scratchIndex) := not_or.mpr ⟨Nat.ne_of_lt hd, hscratch⟩
    rw [pagingMapPageInDirectory, if_neg hguard, hkernel, if_neg hneK, if_neg hindex, hswitch]
    show (pagingMapPage { m with cr3 := dir * pageSize } v (f * pageSize) flags).bind _ = _
    rw [hr, Option.bind_some]
    dsimp only
    rw [hback m1 hkd1]
    rfl
  · rw [← hcr3]
    cases hout with
    | noFrame h1 h2 => exact .noFrame h1 h2
    | newTable h1 h2 h3 h4 h5 => exact .newTable h1 h2 h3 h4 h5
    | taken h1 h2 => exact .taken h1 h2
    | mapped h1 h2 => exact .mapped h1 h2

/-- `paging_map_page_in_directory` on the new directory. -/
theorem Building.mapInDirectory (h : Building m0 k dir pages m) {v : Nat}
    (hv : v % pageSize = 0) (hd : pageDirectoryIndex v < 1023)
    (hscratch : pageDirectoryIndex v ≠ scratchIndex) (f : Nat) (flags : Word) :
    ∃ r, pagingMapPageInDirectory m (dir * pageSize) v (f * pageSize) flags = some r ∧
      MapOutcome m dir (pageDirectoryIndex v) (pageTableIndex v) f flags r :=
  pagingMapPageInDirectory_outcome h.cr3 h.kernelDirectory h.ready.ok.range.1 h.dirOk h.dirNe hv
    hd hscratch f flags

end MeatySkeleton.Paging
