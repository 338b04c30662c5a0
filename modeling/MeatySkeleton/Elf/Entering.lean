import MeatySkeleton.Elf.Stepping

/-!
# Filled frames go into the new address space

The steps that end the life of a draft: a directory that is adopted, and a page
that is entered in the directory, under a new page table or one the load has
already. All other loads' frames are left alone, since the new page table is a
frame nobody had.
-/

namespace MeatySkeleton.Elf

open Function Option Lib Paging

variable {ι : Type} {m0 m m' : Machine} {k dir d t f table : Nat} {flags : Word}
  {role role' : Nat → Role ι} {i j : ι} {l' : Load} {p q : Own} {load : ι → Load} {own : ι → Own}

/-! ## The new directory -/

/-- A completed draft is a directory without user pages. -/
theorem KernelKeeps.adopted (h : KernelKeeps m0 k m role) (hrole : role f = .draft i)
    (hok : DraftOk m0 k m f (.directory 1024 true)) {page : Nat → Option UserPage}
    (hpage : ∀ n, page n = none) :
    SpaceOk m0 k m (update role f (.directory i)) i f page := by
  have hrow : ∀ d, d < 1023 → m.mem f d = newEntry (m0.mem k) f d := by
    intro d hd
    have hne : d ≠ recursiveDirectoryIndex := Nat.ne_of_lt hd
    have hlt : d < 1024 := Nat.lt_succ_of_lt hd
    rw [hok d hlt, if_neg hne, if_pos hlt]
  have hentry : ∀ d, d < 1023 → (m.mem f d).has pagePresent = true →
      m.mem f d = m.mem k d ∧ d ≠ scratchIndex ∧ (m0.mem k d).shared = true := by
    intro d hd hp
    rw [hrow d hd] at hp
    obtain ⟨he, hne, hs⟩ := newEntry_present hd hp
    refine ⟨?_, hne, hs⟩
    rw [hrow d hd, he, h.pde d hne]
  have hpresent : ∀ d, d < 1023 → (m.mem f d).has pagePresent = true →
      (m.mem k d).has pagePresent = true := by
    intro d hd hp
    rw [← (hentry d hd hp).1]
    exact hp
  refine
    { owned := update_self ..
      ok := h.ok.copied (h.range f i (by rw [hrole]; rfl)) (h.used f (by simp [hrole]))
        (fun _ hx => hx) (fun d hd hp he => ?_) ?_ fun d hd hp =>
          ⟨(hentry d hd hp).1, hpresent d hd hp⟩
      entry := fun d hd hp => .inl ⟨(hentry d hd hp).2.2, (hentry d hd hp).2.1, ?_⟩
      mapped := fun n u hu => ?_
      unmapped := fun n hn hroom _ hp => ?_ }
  · have htable := h.tableRole d hd hp
    rw [he, hrole] at htable
    cases htable
  · rw [hok recursiveDirectoryIndex (by decide), if_pos rfl, if_pos rfl]
  · rw [(hentry d hd hp).1, h.pde d (hentry d hd hp).2.1]
  · rw [hpage n] at hu
    cases hu
  · rw [roomOf, (shared_spec (hentry _ (page_table_lt hn) hp).2.2).1] at hroom
    cases hroom

theorem adoptDirectory_stepped [DecidableEq ι] (hk : KernelKeeps m0 k m role)
    (hl : Private m0 k m role i (load i) (own i)) (hs : Slot m k load own) :
    Step.adoptDirectory.Proceeds m0 k m load own role i := by
  intro q hq
  obtain ⟨ht, hd, hc, rfl⟩ := Own.perform_adoptDirectory hq
  obtain ⟨f, hf, hrole, hok⟩ := hl.filling hd
  have hother : ∀ x, x ≠ f → update role f (.directory i) x = role x := fun x hx =>
    update_of_ne hx ..
  refine ⟨m, { load i with frame := none, directory := (load i).frame },
    update role f (.directory i), rfl, rfl, ?_⟩
  refine
    { kernel := hk.congr rfl rfl rfl (fun _ hx => hx) (fun x hx => ?_) fun x hx => ?_
      beyond := ⟨fun _ _ _ _ => rfl, fun _ hx => hx, fun x j hj hx => hother x fun he => ?_⟩
      mine :=
        { running := hl.running
          holding := hl.holding
          draft := .inl ⟨rfl, rfl⟩
          space := ?_ }
      slot := hs.update rfl ?_ rfl rfl fun _ => rfl }
  · rw [hother x, hx]
    intro he
    rw [he, hrole] at hx
    cases hx
  · have he : x = f := by
      by_contra hne
      exact hx (hother x hne)
    rw [he]
    exact ⟨hk.used f (by simp [hrole]), hk.range f i (by rw [hrole]; rfl)⟩
  · rw [he, hrole] at hx
    exact hj (some.inj hx).symm
  · rcases hl.space with ⟨-, -, hnone, htop⟩ | ⟨dir, -, hcreated, -⟩
    · refine .inr ⟨f, hf, rfl, hk.adopted hrole hok hnone, fun n hn => ?_⟩
      change (own i).top = some n at hn
      rw [htop] at hn
      cases hn
    · rw [hc] at hcreated
      cases hcreated
  · rw [heldFrame, heldFrame, ht]

/-! ## A page of the new address space -/

/-- Frame `f` entered in directory `dir` at entry `t` of table `d`, which has its
entries in frame `table`. The page table may be new. -/
structure Entered (m : Machine) (dir d t f : Nat) (flags : Word) (table : Nat) (m' : Machine) :
    Prop where
  cr3 : m'.cr3 = m.cr3
  kernelDirectory : m'.kernelDirectory = m.kernelDirectory
  ok : DirectoryOk m' dir
  row : ∀ e, e ≠ d → m'.mem dir e = m.mem dir e
  pde : (m'.mem dir d).has pagePresent = true ∧ frameOf (m'.mem dir d) = table
  permissions : (m'.mem dir d).has pageUser = true ∧ (m'.mem dir d).has pageWritable = true
  pte : m'.mem table t = pageEntry f flags
  rest : ∀ x, x ≠ dir → x ≠ table → m'.mem x = m.mem x
  usedMono : ∀ x, m.used x = true → m'.used x = true
  slot : ((m.mem dir d).has pagePresent = true ∧ frameOf (m.mem dir d) = table ∧
      ∀ s, s ≠ t → m'.mem table s = m.mem table s) ∨
    ((m.mem dir d).has pagePresent = false ∧ m.used table = false ∧
      ∀ s, s ≠ t → m'.mem table s = 0#32)

/-- With a frame left and the page not mapped, `paging_map_page` succeeds. -/
theorem entered_of_outcome {ok : Bool} (h : MapOutcome m dir d t f flags (ok, m'))
    (hok : DirectoryOk m dir) (hd : d < 1023) (hfree : 0 < freeFrames m.used)
    (hunmapped : (m.mem dir d).has pagePresent = true →
      (m.mem (frameOf (m.mem dir d)) t).has pagePresent = false)
    (huser : flags.has pageUser = true) :
    ok = true ∧ ∃ table, Entered m dir d t f flags table m' := by
  cases ok with
  | false =>
    cases h with
    | noFrame _ hzero =>
      rw [hzero] at hfree
      exact absurd hfree (Nat.lt_irrefl 0)
    | taken hp htaken =>
      rw [hunmapped hp] at htaken
      cases htaken
  | true =>
    obtain ⟨table, hm⟩ := h.mapped_of_success hok hd
    refine ⟨rfl, table,
      { cr3 := hm.cr3
        kernelDirectory := hm.kernelDirectory
        ok := hm.ok
        row := hm.row
        pde := hm.pde
        permissions := ?_
        pte := hm.pte
        rest := hm.rest
        usedMono := fun x hx => (hm.used_iff x).mpr (.inl hx)
        slot := ?_ }⟩
    · rcases hm.slot with ⟨-, -, -, -, hpde, -⟩ | ⟨-, -, -, -, hpde, -⟩
      · rw [hpde, raisedPde_user, huser, Bool.or_true]
        exact ⟨rfl, raisedPde_writable ..⟩
      · rw [hpde, tablePde_user, huser]
        exact ⟨rfl, tablePde_writable ..⟩
    · rcases hm.slot with ⟨hp, hframe, -, -, -, hkept⟩ | ⟨habsent, -, hunused, -, -, hzero⟩
      · exact .inl ⟨hp, hframe, hkept⟩
      · exact .inr ⟨habsent, hunused, hzero⟩

/-- The roles after frame `f` was entered as page `n`. -/
def enteredRole (role : Nat → Role ι) (i : ι) (n f table : Nat) : Nat → Role ι :=
  update (update role table (.table i (n / 1024))) f (.page i n)

section
variable {n : Nat} {page : Nat → Option UserPage} {bytes : Nat → Option Byte}

/-- The page table is one of the load's already, or a frame nobody had. -/
theorem Entered.table_role (he : Entered m dir d t f flags table m') (hk : KernelKeeps m0 k m role)
    (h : SpaceOk m0 k m role i dir page) (hroom : roomOf m0 k d = true) (hd : d < 1023) :
    role table = .table i d ∨ role table = .free := by
  rcases he.slot with ⟨hp, hframe, -⟩ | ⟨-, hunused, -⟩
  · rw [← hframe]
    exact .inl (h.table_role hroom hd hp).1
  · exact .inr (hk.free hunused)

/-- A frame that has another role already is not the page table. -/
theorem ne_table {x : Nat} (htable : role table = .table i d ∨ role table = .free)
    (hx : role x ≠ .table i d) (hfree : role x ≠ .free) : x ≠ table := by
  intro he
  rw [he] at hx hfree
  exact htable.elim hx hfree

theorem enteredRole_other {x : Nat} (hf : x ≠ f) (ht : x ≠ table) :
    enteredRole role i n f table x = role x := by
  rw [enteredRole, update_of_ne hf, update_of_ne ht]

/-- Only the frame that was entered and a new page table change their roles. -/
theorem enteredRole_eq {x : Nat} (htable : role table = .table i (n / 1024) ∨ role table = .free)
    (hf : x ≠ f) (hx : role x ≠ .free) : enteredRole role i n f table x = role x := by
  rw [enteredRole, update_of_ne hf]
  by_cases ht : x = table
  · rw [ht, update_self]
    rw [ht] at hx
    exact (htable.resolve_right hx).symm
  · rw [update_of_ne ht]

section

variable (he : Entered m dir (n / 1024) (n % 1024) f flags table m')

include he

/-- What is under the directory entries of the load's own page tables, but for page `n`. -/
theorem Entered.entry_kept
    (h : SpaceOk m0 k m role i dir page)
    (htable : role table = .table i (n / 1024) ∨ role table = .free) {n' : Nat} (hne : n' ≠ n)
    (hroom : roomOf m0 k (n' / 1024) = true) (hd : n' / 1024 < 1023)
    (hp : (m.mem dir (n' / 1024)).has pagePresent = true) :
    (m'.mem dir (n' / 1024)).has pagePresent = true ∧
      m'.mem (frameOf (m'.mem dir (n' / 1024))) (n' % 1024) =
        m.mem (frameOf (m.mem dir (n' / 1024))) (n' % 1024) := by
  by_cases hsame : n' / 1024 = n / 1024
  · -- under the same page table, at another entry
    have hentry : n' % 1024 ≠ n % 1024 := by omega
    rw [hsame] at hp ⊢
    refine ⟨he.pde.1, ?_⟩
    rcases he.slot with ⟨-, hframe, hkept⟩ | ⟨habsent, -⟩
    · rw [he.pde.2, hkept _ hentry, hframe]
    · rw [hp] at habsent
      cases habsent
  · have hrole := (h.table_role hroom hd hp).1
    rw [he.row _ hsame]
    refine ⟨hp, ?_⟩
    rw [he.rest]
    · intro hx
      rw [hx, h.owned] at hrole
      cases hrole
    · intro hx
      rw [hx] at hrole
      rcases htable with ht | ht
      · rw [ht] at hrole
        exact hsame (Role.table.inj hrole).2.symm
      · rw [ht] at hrole
        cases hrole

/-- A page that was there before. -/
theorem Entered.page_kept
    (h : SpaceOk m0 k m role i dir page) (hf : role f = .draft i)
    (htable : role table = .table i (n / 1024) ∨ role table = .free) {n' f' : Nat} {u : UserPage}
    (hne : n' ≠ n) (hroom : roomOf m0 k (n' / 1024) = true) (hd : n' / 1024 < 1023)
    (hpage : PageOk m role i dir n' u f') :
    PageOk m' (enteredRole role i n f table) i dir n' u f' := by
  obtain ⟨hp, hentry⟩ := he.entry_kept h htable hne hroom hd hpage.pde
  have hff : f' ≠ f := by
    intro hx
    have howned := hpage.owned
    rw [hx, hf] at howned
    cases howned
  have hrole : enteredRole role i n f table f' = .page i n' := by
    rw [enteredRole_eq htable hff (by rw [hpage.owned]; exact nofun), hpage.owned]
  have hmem : m'.mem f' = m.mem f' := by
    apply he.rest
    · intro hx
      have howned := hpage.owned
      rw [hx, h.owned] at howned
      cases howned
    · exact ne_table htable (by rw [hpage.owned]; exact nofun) (by rw [hpage.owned]; exact nofun)
  exact hpage.of_entry hp hentry hmem hrole

/-- The page that was entered. -/
theorem Entered.page_new
    (hlt : f < 2 ^ 20) (hfd : f ≠ dir) (hft : f ≠ table) (huser : flags.has pageUser = true)
    (hok : DraftOk m0 k m f (.page bytes)) :
    PageOk m' (enteredRole role i n f table) i dir n ⟨flags.has pageWritable, bytes⟩ f where
  pde := he.pde.1
  pte := by rw [he.pde.2, he.pte, pageEntry_present]
  frame := by rw [he.pde.2, he.pte, pageEntry_frame hlt]
  owned := update_self ..
  user := by rw [he.pde.2, he.pte, pageEntry_user, huser]
  writable := by rw [he.pde.2, he.pte, pageEntry_writable]
  bytes := by
    rw [he.rest f hfd hft]
    exact hok

end

/-- The address space with the new page. -/
theorem SpaceOk.entered (h : SpaceOk m0 k m role i dir page) (hk : KernelKeeps m0 k m role)
    (he : Entered m dir (n / 1024) (n % 1024) f flags table m') (hf : role f = .draft i)
    (hn : n < pageCount) (hroom : roomOf m0 k (n / 1024) = true) (hnone : page n = none) {u : UserPage}
    (hnew : PageOk m' (enteredRole role i n f table) i dir n u f) :
    SpaceOk m0 k m' (enteredRole role i n f table) i dir (update page n (some u)) := by
  have htable := he.table_role hk h hroom (page_table_lt hn)
  have hft : f ≠ table := ne_table htable (by rw [hf]; exact nofun) (by rw [hf]; exact nofun)
  have hfd : dir ≠ f := by
    intro hx
    have howned := h.owned
    rw [hx, hf] at howned
    cases howned
  refine
    { owned := by rw [enteredRole_eq htable hfd (by rw [h.owned]; exact nofun), h.owned]
      ok := he.ok
      entry := fun e hlt hp => ?_
      mapped := fun n' u' hu' => ?_
      unmapped := fun n' hn' hroom' hnone' hp => ?_ }
  · by_cases hed : e = n / 1024
    · -- under this entry the page table is the load's own
      subst hed
      refine .inr ⟨hroom, ?_, he.permissions⟩
      rw [he.pde.2, enteredRole, update_of_ne hft.symm, update_self]
    · rw [he.row e hed] at hp ⊢
      refine (h.entry e hlt hp).imp_right fun ⟨hroom', hrole, hflags⟩ => ⟨hroom', ?_, hflags⟩
      have hff : frameOf (m.mem dir e) ≠ f := by
        intro hx
        rw [hx, hf] at hrole
        cases hrole
      rw [enteredRole_eq htable hff (by simp [hrole]), hrole]
  · by_cases hnn : n' = n
    · subst hnn
      rw [update_self] at hu'
      obtain rfl := some.inj hu'
      exact ⟨hn, hroom, f, hnew⟩
    · rw [update_of_ne hnn] at hu'
      obtain ⟨hn', hroom', f', hpage'⟩ := h.mapped n' u' hu'
      exact ⟨hn', hroom', f', he.page_kept h hf htable hnn hroom' (page_table_lt hn') hpage'⟩
  · have hnn : n' ≠ n := by
      intro hx
      rw [hx, update_self] at hnone'
      cases hnone'
    rw [update_of_ne hnn] at hnone'
    cases hold : (m.mem dir (n' / 1024)).has pagePresent with
    | true =>
      rw [(he.entry_kept h htable hnn hroom' (page_table_lt hn') hold).2]
      exact h.unmapped n' hn' hroom' hnone' hold
    | false =>
      -- the page table is the new one, empty elsewhere
      have hsame : n' / 1024 = n / 1024 := by
        by_contra hother
        rw [he.row _ hother, hold] at hp
        cases hp
      have hentry : n' % 1024 ≠ n % 1024 := by omega
      rw [hsame] at hold ⊢
      rcases he.slot with ⟨hpresent, -⟩ | ⟨-, -, hzero⟩
      · rw [hold] at hpresent
        cases hpresent
      · rw [he.pde.2, hzero _ hentry]
        exact zero_not_present

end

theorem Own.perform_enterPage {room : Nat → Bool} {v : Nat} {top : Bool}
    (h : p.perform room (.enterPage v flags top) = some q) : ∃ bytes, p.target = none ∧
      p.draft = some (.page bytes) ∧ p.CanEnter room v flags ∧ q = { p with
        draft := none
        page := update p.page (v / pageSize) (some ⟨flags.has pageWritable, bytes⟩)
        top := if top then some (v / pageSize) else p.top } := by
  dsimp only [Own.perform] at h
  split at h
  next bytes ht hd =>
    split at h
    next hc => exact ⟨bytes, ht, hd, hc.2, (some.inj h).symm⟩
    next => cases h
  next => cases h

/-- Where the entries of a page are. -/
theorem aligned_index {v : Nat} (hv : v % pageSize = 0) (hn : v / pageSize < pageCount) :
    pageDirectoryIndex v = v / pageSize / 1024 ∧ pageTableIndex v = v / pageSize % 1024 := by
  have hsplit : v / pageSize * pageSize = v := Nat.div_mul_cancel (Nat.dvd_of_mod_eq_zero hv)
  obtain ⟨hd, ht, -⟩ := page_index hn
  rw [hsplit] at hd ht
  exact ⟨hd, ht⟩

/-- The kernel's part, when a page is entered in the new directory. -/
theorem KernelKeeps.entered {n : Nat} {page : Nat → Option UserPage}
    (h : KernelKeeps m0 k m role) (hok : SpaceOk m0 k m role i dir page) (hn : n < pageCount)
    (hroom : roomOf m0 k (n / 1024) = true) (hf : role f = .draft i)
    (he : Entered m dir (n / 1024) (n % 1024) f flags table m') :
    m'.mem k = m.mem k ∧ KernelKeeps m0 k m' (enteredRole role i n f table) := by
  have htable := he.table_role h hok hroom (page_table_lt hn)
  have hrow : m'.mem k = m.mem k := by
    apply he.rest
    · intro hx
      have howned := hok.owned
      rw [← hx, h.owned] at howned
      cases howned
    · exact ne_table htable (by rw [h.owned]; exact nofun) (by rw [h.owned]; exact nofun)
  refine ⟨hrow, h.congr he.cr3 he.kernelDirectory hrow he.usedMono (fun x hx => ?_) fun x hx => ?_⟩
  · have hxf : x ≠ f := by
      intro hxf
      rw [hxf, hf] at hx
      cases hx
    rw [enteredRole_eq htable hxf (by rw [hx]; exact nofun), hx]
  · by_cases hxf : x = f
    · rw [hxf]
      exact ⟨he.usedMono f (h.used f (by rw [hf]; exact nofun)), h.range f i (by rw [hf]; rfl)⟩
    · have hxt : x = table := by
        by_contra hxt
        exact hx (enteredRole_other hxf hxt)
      rw [hxt, ← he.pde.2]
      exact ⟨he.ok.tableUsed _ (page_table_lt hn) he.pde.1,
        he.ok.tableRange _ (page_table_lt hn) he.pde.1⟩

theorem Entered.beyond {n : Nat} (he : Entered m dir (n / 1024) (n % 1024) f flags table m')
    (htable : role table = .table i (n / 1024) ∨ role table = .free) (hdir : role dir = .directory i)
    (hf : role f = .draft i) : Beyond m m' role (enteredRole role i n f table) i := by
  have hne : ∀ x j, j ≠ i → (role x).owner = some j → x ≠ dir ∧ x ≠ table ∧ x ≠ f := by
    intro x j hj hx
    refine ⟨fun hxd => ?_, fun hxt => ?_, fun hxf => ?_⟩
    · rw [hxd, hdir] at hx
      exact hj (some.inj hx).symm
    · rw [hxt] at hx
      rcases htable with ht | ht
      · rw [ht] at hx
        exact hj (some.inj hx).symm
      · rw [ht] at hx
        cases hx
    · rw [hxf, hf] at hx
      exact hj (some.inj hx).symm
  refine ⟨fun x j hj hx => ?_, he.usedMono, fun x j hj hx => ?_⟩
  · exact he.rest x (hne x j hj hx).1 (hne x j hj hx).2.1
  · exact enteredRole_other (hne x j hj hx).2.2 (hne x j hj hx).2.1

theorem enterPage_stepped [DecidableEq ι] {v : Nat} {top : Bool} (hk : KernelKeeps m0 k m role)
    (hl : Private m0 k m role i (load i) (own i)) (hs : Slot m k load own)
    (hfree : 0 < freeFrames m.used) :
    (Step.enterPage v flags top).Proceeds m0 k m load own role i := by
  intro q hq
  obtain ⟨bytes, ht, hd, ⟨hcreated, hv, hn, hroom, hnone, huser⟩, rfl⟩ := Own.perform_enterPage hq
  obtain ⟨f, hf, hrole, hok⟩ := hl.filling hd
  rcases hl.space with ⟨-, hfalse, -⟩ | ⟨dir, hdir, -, hspace, htop⟩
  · rw [hcreated] at hfalse
    cases hfalse
  obtain ⟨hvd, hvt⟩ := aligned_index hv hn
  generalize v / pageSize = n at hn hroom hnone hvd hvt ⊢
  have hlow := page_table_lt hn
  have hscratch : n / 1024 ≠ scratchIndex := by
    intro he
    rw [he, roomOf] at hroom
    simp at hroom
  have hne : dir ≠ k := by
    intro he
    have howned := hspace.owned
    rw [he, hk.owned] at howned
    cases howned
  obtain ⟨⟨ok, m'⟩, hmap, hout⟩ := pagingMapPageInDirectory_outcome hk.cr3 hk.kernelDirectory
    hk.ok.range.1 hspace.ok hne hv (by rw [hvd]; exact hlow) (by rw [hvd]; exact hscratch) f flags
  rw [hvd, hvt] at hout
  obtain ⟨rfl, table, he⟩ := entered_of_outcome hout hspace.ok hlow hfree
    (fun hp => hspace.unmapped n hn hroom hnone hp) huser
  have htable := he.table_role hk hspace hroom hlow
  have hfd : f ≠ dir := by
    intro hx
    have howned := hspace.owned
    rw [← hx, hrole] at howned
    cases howned
  have hft : f ≠ table := ne_table htable (by simp [hrole]) (by simp [hrole])
  have hlt : f < 2 ^ 20 := Nat.lt_trans (hk.range f i (by rw [hrole]; rfl)).2 (by decide)
  have hnew : PageOk m' (enteredRole role i n f table) i dir n ⟨flags.has pageWritable, bytes⟩ f :=
    he.page_new hlt hfd hft huser hok
  obtain ⟨hrow, hk'⟩ := hk.entered hspace hn hroom hrole he
  refine ⟨m', { load i with
      frame := none, topFrame := if top then some f else (load i).topFrame },
    enteredRole role i n f table, ?_, rfl, ?_⟩
  · dsimp only [Step.perform]
    rw [hf, hdir]
    show (pagingMapPageInDirectory m (dir * pageSize) v (f * pageSize) flags).bind _ = _
    rw [hmap]
    rfl
  · refine
      { kernel := hk'
        beyond := he.beyond htable hspace.owned hrole
        mine :=
          { running := hl.running
            holding := hl.holding
            draft := .inl ⟨rfl, rfl⟩
            space := .inr ⟨dir, hdir, hcreated,
              hspace.entered hk he hrole hn hroom hnone hnew, fun n' hn' => ?_⟩ }
        slot := hs.update rfl ?_ ?_ hrow fun hp => ?_ }
    · -- the top page is this one, or one that was there before
      change (if top then some n else (own i).top) = some n' at hn'
      cases top with
      | true =>
        obtain rfl := some.inj hn'
        exact ⟨_, f, update_self .., rfl, hnew⟩
      | false =>
        obtain ⟨u, f', hu, hf', hpage⟩ := htop n' hn'
        have hnn : n' ≠ n := by
          intro hx
          rw [hx, hnone] at hu
          cases hu
        obtain ⟨hcount, hroom', -⟩ := hspace.mapped n' u hu
        exact ⟨u, f', (update_of_ne hnn ..).trans hu, hf',
          he.page_kept hspace hrole htable hnn hroom' (page_table_lt hcount) hpage⟩
    · rw [heldFrame, heldFrame, ht]
    · rw [Machine.directory, he.cr3, Machine.directory]
    · -- the slot's page table is the kernel's, not the directory or a table under it
      have hkernel := hk.tableRole scratchIndex (by decide) hp
      apply he.rest
      · intro hx
        rw [Machine.scratchTable] at hx
        rw [hx, hspace.owned] at hkernel
        cases hkernel
      · exact ne_table htable (by simp [Machine.scratchTable, hkernel])
          (by simp [Machine.scratchTable, hkernel])

end MeatySkeleton.Elf
