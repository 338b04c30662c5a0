import MeatySkeleton.Elf.Filling
import MeatySkeleton.Elf.Runs

/-!
# Laying out an image, with nobody interfering

`Laid` holds between the pages of a load that goes through: the pages entered so
far are user pages of the new directory with their permissions and contents, and
all other pages are what they were in the page tables the directory shares with
the kernel, or absent. A page may well be entered in one of these shared tables;
the load does not look.
-/

namespace MeatySkeleton.Elf

open List Lib Paging

variable {m0 m m' : Machine} {k dir scratch d t f table : Nat} {flags : Word} {e : Entry}
  {es : List (Entry × Nat)} {loose : List Nat}

def Entry.number (e : Entry) : Nat := e.address / pageSize

/-- The entry of the page with number `n` in its page table. -/
def pteOf (m : Machine) (dir n : Nat) : Word := m.mem (frameOf (m.mem dir (n / 1024))) (n % 1024)

/-- The page is in directory `dir`, in frame `f`. -/
structure Resident (m : Machine) (dir : Nat) (e : Entry) (f : Nat) : Prop where
  number : e.number < pageCount
  pde : (m.mem dir (e.number / 1024)).has pagePresent = true
  pdeUser : (m.mem dir (e.number / 1024)).has pageUser = true
  pdeWritable : (m.mem dir (e.number / 1024)).has pageWritable = true
  pte : (pteOf m dir e.number).has pagePresent = true
  user : (pteOf m dir e.number).has pageUser = true
  writable : (pteOf m dir e.number).has pageWritable = e.page.writable
  frame : frameOf (pteOf m dir e.number) = f
  holds : Holds (m.mem f) e.page.bytes

/-- The pages `es` and their frames are in directory `dir`; the frames `loose` are on
their way. -/
structure Laid (m0 : Machine) (k dir : Nat) (loose : List Nat) (es : List (Entry × Nat))
    (m : Machine) : Prop where
  building : Building m0 k dir (loose ++ es.map Prod.snd) m
  fresh : ∀ f ∈ loose, ∀ a ∈ es, a.2 ≠ f
  injective : ∀ a ∈ es, ∀ b ∈ es, a.2 = b.2 → a = b
  resident : ∀ a ∈ es, Resident m dir a.1 a.2
  /-- The other pages of the shared page tables are the kernel's. -/
  kernel : ∀ n, n < pageCount → n / 1024 ≠ scratchIndex → (∀ a ∈ es, a.1.number ≠ n) →
    (m0.mem k (n / 1024)).shared = true → pteOf m dir n = pteOf m0 k n
  /-- The other pages of the directory's own page tables are absent. -/
  vacant : ∀ n, n < pageCount → (∀ a ∈ es, a.1.number ≠ n) →
    (m0.mem k (n / 1024)).shared = false → (m.mem dir (n / 1024)).has pagePresent = true →
      (pteOf m dir n).has pagePresent = false

theorem Resident.pageMap (h : Resident m dir e f) :
    Paging.pageMap m dir e.number = some (f, true, e.page.writable) := by
  obtain ⟨hd, ht, -⟩ := page_index h.number
  have hpte := h.pte
  have hframe := h.frame
  have huser := h.user
  have hwritable := h.writable
  rw [pteOf] at hpte hframe huser hwritable
  rw [Paging.pageMap, if_pos h.number]
  unfold mapping
  dsimp only
  rw [hd, ht, h.pde, hpte, hframe, h.pdeUser, h.pdeWritable, huser, hwritable]
  rfl

/-! ## A frame is written -/

/-- The page tables are not written, so neither are the entries of the pages. -/
theorem pteOf_congr {n : Nat} (hrow : m'.mem dir = m.mem dir)
    (htable : m'.mem (frameOf (m.mem dir (n / 1024))) = m.mem (frameOf (m.mem dir (n / 1024)))) :
    pteOf m' dir n = pteOf m dir n := by
  rw [pteOf, hrow, htable, pteOf]

theorem Resident.congr (h : Resident m dir e f) (hpde : m'.mem dir (e.number / 1024) =
    m.mem dir (e.number / 1024)) (hpte : pteOf m' dir e.number = pteOf m dir e.number)
    (hmem : m'.mem f = m.mem f) : Resident m' dir e f where
  number := h.number
  pde := by rw [hpde, h.pde]
  pdeUser := by rw [hpde, h.pdeUser]
  pdeWritable := by rw [hpde, h.pdeWritable]
  pte := by rw [hpte, h.pte]
  user := by rw [hpte, h.user]
  writable := by rw [hpte, h.writable]
  frame := by rw [hpte, h.frame]
  holds := by
    rw [hmem]
    exact h.holds

/-- What a frame taken for a page leaves alone as it is written. -/
theorem Laid.kept (h : Laid m0 k dir loose es m) (hf : f ∈ loose ++ es.map Prod.snd)
    (hw : Rewritten m k scratch f m') : m'.mem dir = m.mem dir ∧
      (∀ n, n / 1024 < 1023 → (m.mem dir (n / 1024)).has pagePresent = true →
        pteOf m' dir n = pteOf m dir n) ∧
      ∀ a ∈ es, a.2 ≠ f → Resident m' dir a.1 a.2 := by
  obtain ⟨hrow, htables, hframes⟩ := h.building.frames_kept hf hw
  have hpte : ∀ n, n / 1024 < 1023 → (m.mem dir (n / 1024)).has pagePresent = true →
      pteOf m' dir n = pteOf m dir n := fun n hn hp => pteOf_congr hrow (htables _ hn hp)
  refine ⟨hrow, hpte, fun a ha hne => ?_⟩
  have hresident := h.resident a ha
  refine hresident.congr (by rw [hrow]) ?_ ?_
  · exact hpte _ (page_table_lt hresident.number) hresident.pde
  · exact hframes a.2 (mem_append_right _ (mem_map_of_mem ha)) hne

/-- A frame on its way is written. -/
theorem Laid.rewritten (h : Laid m0 k dir loose es m) (hf : f ∈ loose)
    (hw : Rewritten m k scratch f m') : Laid m0 k dir loose es m' := by
  have hmem : f ∈ loose ++ es.map Prod.snd := mem_append_left _ hf
  obtain ⟨hrow, hpte, hresident⟩ := h.kept hmem hw
  exact
    { building := h.building.rewritten hmem hw
      fresh := h.fresh
      injective := h.injective
      resident := fun a ha => hresident a ha (h.fresh f hf a ha)
      kernel := fun n hn hne hother hs => by
        have hp := (h.building.shared _ (page_table_lt hn) hne hs).1
        rw [hpte n (page_table_lt hn) hp]
        exact h.kernel n hn hne hother hs
      vacant := fun n hn hother hs hp => by
        rw [hrow] at hp
        rw [hpte n (page_table_lt hn) hp]
        exact h.vacant n hn hother hs hp }

/-- A frame is taken from the allocator. -/
theorem Laid.allocated (h : Laid m0 k dir [] es m) (hrange : 0 < f ∧ f < frameCount)
    (hfree : m.used f = false) : Laid m0 k dir [f] es (m.markUsed f) :=
  { h with
    building := h.building.allocated hfree hrange
    fresh g hg a ha he := by
      obtain rfl := mem_singleton.mp hg
      have hused := (h.building.page a.2 (mem_map_of_mem ha)).used
      rw [he, hfree] at hused
      cases hused
    resident a ha := (h.resident a ha).congr rfl rfl rfl }

/-! ## A page is entered -/

/-- The entries of pages that were there before. -/
theorem mapped_pteOf (hm : Mapped m dir d t f flags table m') (hok : DirectoryOk m dir)
    (hd : d < 1023) {n : Nat} (hn : n / 1024 < 1023) (hne : n / 1024 = d → n % 1024 ≠ t)
    (hp : (m.mem dir (n / 1024)).has pagePresent = true) :
    (m'.mem dir (n / 1024)).has pagePresent = true ∧ pteOf m' dir n = pteOf m dir n := by
  by_cases hnd : n / 1024 = d
  · rcases hm.slot with ⟨-, hframe, -, -, -, hkept⟩ | ⟨habsent, -⟩
    · rw [pteOf, pteOf, hnd, hm.pde.2, hframe]
      exact ⟨hm.pde.1, hkept _ (hne hnd)⟩
    · rw [hnd, habsent] at hp
      cases hp
  · rw [pteOf, hm.row _ hnd]
    exact ⟨hp, congrFun (hm.other_table hok hd hn hp hnd) _⟩

/-- A page that was in the directory before. -/
theorem Resident.mapped {g : Nat} (h : Resident m dir e g) (hm : Mapped m dir d t f flags table m')
    (hok : DirectoryOk m dir) (hd : d < 1023)
    (hne : e.number / 1024 = d → e.number % 1024 ≠ t) (hg : m'.mem g = m.mem g) :
    Resident m' dir e g := by
  obtain ⟨hp, hpte⟩ := mapped_pteOf hm hok hd (page_table_lt h.number) hne h.pde
  by_cases hnd : e.number / 1024 = d
  · -- the directory entry was raised, which takes no permission away
    rcases hm.slot with ⟨-, -, -, -, hraised, -⟩ | ⟨habsent, -⟩
    · exact
        { number := h.number
          pde := hp
          pdeUser := by
            have huser := h.pdeUser
            rw [hnd] at huser ⊢
            rw [hraised, raisedPde_user, huser, Bool.true_or]
          pdeWritable := by
            rw [hnd, hraised]
            exact raisedPde_writable ..
          pte := by rw [hpte, h.pte]
          user := by rw [hpte, h.user]
          writable := by rw [hpte, h.writable]
          frame := by rw [hpte, h.frame]
          holds := by
            rw [hg]
            exact h.holds }
    · have hpresent := h.pde
      rw [hnd, habsent] at hpresent
      cases hpresent
  · exact h.congr (hm.row _ hnd) hpte hg

/-- The page that was entered. -/
theorem mapped_resident (hm : Mapped m dir (e.number / 1024) (e.number % 1024) f flags table m')
    (hnumber : e.number < pageCount) (hf : f < frameCount) (hfd : f ≠ dir) (hft : f ≠ table)
    (huser : flags.has pageUser = true) (hwritable : flags.has pageWritable = e.page.writable)
    (hholds : Holds (m.mem f) e.page.bytes) : Resident m' dir e f := by
  have hpte : pteOf m' dir e.number = pageEntry f flags := by
    rw [pteOf, hm.pde.2, hm.pte]
  have hpde : (m'.mem dir (e.number / 1024)).has pageUser = true ∧
      (m'.mem dir (e.number / 1024)).has pageWritable = true := by
    rcases hm.slot with ⟨-, -, -, -, hraised, -⟩ | ⟨-, -, -, -, hnew, -⟩
    · rw [hraised, raisedPde_user, huser, Bool.or_true]
      exact ⟨rfl, raisedPde_writable ..⟩
    · rw [hnew, tablePde_user, huser]
      exact ⟨rfl, tablePde_writable ..⟩
  exact
    { number := hnumber
      pde := hm.pde.1
      pdeUser := hpde.1
      pdeWritable := hpde.2
      pte := by rw [hpte, pageEntry_present]
      user := by rw [hpte, pageEntry_user, huser]
      writable := by rw [hpte, pageEntry_writable, hwritable]
      frame := by rw [hpte, pageEntry_frame (Nat.lt_trans hf (by decide))]
      holds := by
        rw [hm.rest f hfd hft]
        exact hholds }

/-- A page is entered; it was not there before. -/
theorem Laid.entered (h : Laid m0 k dir [f] es m)
    (hout : MapOutcome m dir (e.number / 1024) (e.number % 1024) f flags (true, m'))
    (hnumber : e.number < pageCount) (hscratch : e.number / 1024 ≠ scratchIndex)
    (huser : flags.has pageUser = true) (hwritable : flags.has pageWritable = e.page.writable)
    (hholds : Holds (m.mem f) e.page.bytes) : Laid m0 k dir [] (es ++ [(e, f)]) m' := by
  have hd := page_table_lt hnumber
  have hok := h.building.dirOk
  obtain ⟨table, hm⟩ := hout.mapped_of_success hok hd
  have hloose := h.building.page f (mem_append_left _ (mem_singleton_self f))
  have hnew : ∀ a ∈ es, a.1.number ≠ e.number := by
    intro a ha he
    have hresident := h.resident a ha
    have hp := hresident.pde
    have hpte := hresident.pte
    rw [he] at hp hpte
    rcases hm.slot with ⟨-, hframe, htaken, -⟩ | ⟨habsent, -⟩
    · rw [pteOf, hframe, htaken] at hpte
      cases hpte
    · rw [habsent] at hp
      cases hp
  have hframe : ∀ g ∈ f :: es.map Prod.snd, g ≠ table := by
    intro g hg
    have hpage := h.building.page g hg
    exact hm.ne_table hpage.used fun hp => (hpage.neTable _ hd hp).symm
  have hsplit : ∀ {n : Nat}, n ≠ e.number → n / 1024 = e.number / 1024 →
      n % 1024 ≠ e.number % 1024 := by
    intro n hne hsame
    omega
  exact
    { building := (h.building.mapped hd hscratch hout).mono fun g hg => by
        rw [nil_append, map_append, mem_append] at hg
        exact hg.elim (mem_append_right _) (mem_append_left _)
      fresh := fun _ hg => nomatch hg
      injective := fun a ha b hb he => by
        have hfresh := h.fresh f (mem_singleton_self f)
        rcases mem_append.mp ha with ha | ha <;> rcases mem_append.mp hb with hb | hb
        · exact h.injective a ha b hb he
        · rw [mem_singleton.mp hb] at he
          exact absurd he (hfresh a ha)
        · rw [mem_singleton.mp ha] at he
          exact absurd he.symm (hfresh b hb)
        · rw [mem_singleton.mp ha, mem_singleton.mp hb]
      resident := fun a ha => by
        rcases mem_append.mp ha with ha | ha
        · have hmem : a.2 ∈ f :: es.map Prod.snd := mem_cons_of_mem _ (mem_map_of_mem ha)
          refine (h.resident a ha).mapped hm hok hd (hsplit (hnew a ha)) ?_
          exact hm.rest _ (h.building.page a.2 hmem).neDir (hframe a.2 hmem)
        · rw [mem_singleton.mp ha]
          exact mapped_resident hm hnumber hloose.range.2 hloose.neDir
            (hframe f (mem_cons_self ..)) huser hwritable hholds
      kernel := fun n hn hne hother hs => by
        have hold : ∀ a ∈ es, a.1.number ≠ n := fun a ha => hother a (mem_append_left _ ha)
        have hnn : n ≠ e.number := (hother (e, f) (by simp)).symm
        have hp := (h.building.shared _ (page_table_lt hn) hne hs).1
        rw [(mapped_pteOf hm hok hd (page_table_lt hn) (hsplit hnn) hp).2]
        exact h.kernel n hn hne hold hs
      vacant := fun n hn hother hs hp => by
        have hold : ∀ a ∈ es, a.1.number ≠ n := fun a ha => hother a (mem_append_left _ ha)
        have hnn : n ≠ e.number := (hother (e, f) (by simp)).symm
        cases hbefore : (m.mem dir (n / 1024)).has pagePresent with
        | true =>
          rw [(mapped_pteOf hm hok hd (page_table_lt hn) (hsplit hnn) hbefore).2]
          exact h.vacant n hn hold hs hbefore
        | false =>
          -- the page table is the new one, empty elsewhere
          have hsame : n / 1024 = e.number / 1024 := by
            by_contra hdiff
            rw [hm.row _ hdiff, hbefore] at hp
            cases hp
          rw [hsame] at hbefore
          rcases hm.slot with ⟨hpresent, -⟩ | ⟨-, -, -, -, -, hzero⟩
          · rw [hbefore] at hpresent
            cases hpresent
          · rw [pteOf, hsame, hm.pde.2, hzero _ (hsplit hnn hsame)]
            exact zero_not_present }

end MeatySkeleton.Elf
