import MeatySkeleton.Paging.UserDirectory

/-!
# What destroying a user directory does

`paging_destroy_user_directory` frees exactly the frames the directory owns
(`Owned`) and writes nothing but the directory and the page tables under its
user entries. This holds of every directory that is still well formed, also of
one whose user entries lead to page tables it shares with the kernel: then it is
the kernel's tables that are cleared and freed.
-/

namespace MeatySkeleton.Paging

open Function List

variable {m0 m m' : Machine} {k dir d : Nat}

/-- `pmm_free_frame` of a frame's address. -/
theorem pmmFreeFrame_used (m : Machine) (f x : Nat) :
    (pmmFreeFrame m (f * pageSize)).used x = true ↔
      m.used x = true ∧ ¬((0 < x ∧ x < frameCount) ∧ x = f) := by
  have haligned : ¬f * pageSize % pageSize ≠ 0 := by
    rw [Nat.mul_mod_left]
    exact fun hne => hne rfl
  rw [pmmFreeFrame, if_neg haligned]
  by_cases hout : f * pageSize = 0 ∨ frameCount * pageSize ≤ f * pageSize
  · rw [if_pos hout]
    refine ⟨fun hx => ⟨hx, ?_⟩, And.left⟩
    rintro ⟨⟨h1, h2⟩, rfl⟩
    rw [frameCount] at h2 hout
    rw [pageSize] at hout
    omega
  · rw [if_neg hout, Nat.mul_div_cancel f (by decide)]
    show update m.used f false x = true ↔ _
    by_cases hxf : x = f
    · subst hxf
      rw [update_self]
      refine ⟨fun hx => (by cases hx), fun h => absurd ?_ h.2⟩
      rw [pageSize, frameCount] at hout
      rw [frameCount]
      exact ⟨⟨by omega, by omega⟩, rfl⟩
    · rw [update_of_ne hxf]
      exact ⟨fun hx => ⟨hx, fun hand => hxf hand.2⟩, And.left⟩

/-- `pmm_free_frame` writes only the bitmap. -/
theorem pmmFreeFrame_rest (m : Machine) (a : Nat) : (pmmFreeFrame m a).mem = m.mem ∧
    (pmmFreeFrame m a).cr3 = m.cr3 ∧ (pmmFreeFrame m a).kernelDirectory = m.kernelDirectory := by
  rw [pmmFreeFrame]
  split
  · exact ⟨rfl, rfl, rfl⟩
  · split <;> exact ⟨rfl, rfl, rfl⟩

/-- Frames that were freed one after the other. -/
theorem freed_after {used range first second : Prop} :
    (used ∧ ¬(range ∧ first)) ∧ ¬(range ∧ second) ↔ used ∧ ¬(range ∧ (first ∨ second)) := by
  rw [and_assoc, ← not_or, ← and_or_left]

/-- The pages of one table, below the entries `ts`. -/
def UnderTable (row : Nat → Word) (ts : List Nat) (f : Nat) : Prop :=
  ∃ t ∈ ts, (row t).has pagePresent = true ∧ f = frameOf (row t)

theorem underTable_cons {row : Nat → Word} {t x : Nat} {ts : List Nat} :
    UnderTable row (t :: ts) x ↔
      ((row t).has pagePresent = true ∧ x = frameOf (row t)) ∨ UnderTable row ts x := by
  simp only [UnderTable, mem_cons, exists_eq_or_imp]

theorem UnderTable.congr {row row' : Nat → Word} {ts : List Nat} {x : Nat}
    (h : ∀ t ∈ ts, row' t = row t) : UnderTable row' ts x ↔ UnderTable row ts x := by
  refine exists_congr fun t => and_congr_right fun ht => ?_
  rw [h t ht]

theorem freePages_spec : ∀ {ts : List Nat} {m : Machine}, ts.Nodup → (∀ t ∈ ts, t < 1024) →
    m.Recursive → d < 1024 → (m.mem m.directory d).has pagePresent = true →
    frameOf (m.mem m.directory d) ≠ m.directory →
    ∃ m', freePages m d ts = some m' ∧ m'.cr3 = m.cr3 ∧ m'.kernelDirectory = m.kernelDirectory ∧
      (∀ x, x ≠ frameOf (m.mem m.directory d) → m'.mem x = m.mem x) ∧
      ∀ x, m'.used x = true ↔ m.used x = true ∧ ¬((0 < x ∧ x < frameCount) ∧
        UnderTable (m.mem (frameOf (m.mem m.directory d))) ts x)
  | [], m, _, _, _, _, _, _ => by
    refine ⟨m, rfl, rfl, rfl, fun _ _ => rfl, fun x => ⟨fun hx => ⟨hx, ?_⟩, And.left⟩⟩
    rintro ⟨-, t, ht, -⟩
    cases ht
  | t :: ts, m, hn, hts, hrec, hd, hp, hne => by
    obtain ⟨hnt, hn'⟩ := nodup_cons.mp hn
    have ht := hts t mem_cons_self
    have hts' : ∀ u ∈ ts, u < 1024 := fun u hu => hts u (mem_cons_of_mem _ hu)
    generalize hT : frameOf (m.mem m.directory d) = T at hne ⊢
    rw [freePages, load_tableEntry hrec hd ht hp, hT]
    show ∃ m', (if (m.mem T t).has pagePresent = false then _ else _) = some m' ∧ _
    cases hpte : (m.mem T t).has pagePresent with
    | false =>
      rw [if_pos rfl]
      obtain ⟨m', hm', hcr3, hkd, hrest, hused⟩ :=
        freePages_spec hn' hts' hrec hd hp (by rw [hT]; exact hne)
      rw [hT] at hrest hused
      refine ⟨m', hm', hcr3, hkd, hrest, fun x => (hused x).trans ?_⟩
      rw [underTable_cons, hpte, or_iff_right fun hx => nomatch hx.1]
    | true =>
      rw [if_neg nofun, store_tableEntry hrec hd ht hp, hT]
      generalize hw : m.write T (update (m.mem T) t 0#32) = m₁
      show ∃ m', freePages (pmmFreeFrame m₁ (frameOf (m.mem T t) * pageSize)) d ts = some m' ∧ _
      obtain ⟨hmem, hcr31, hkd₁⟩ := pmmFreeFrame_rest m₁ (frameOf (m.mem T t) * pageSize)
      have hfree := pmmFreeFrame_used m₁ (frameOf (m.mem T t))
      generalize pmmFreeFrame m₁ (frameOf (m.mem T t) * pageSize) = m₂ at hmem hcr31 hkd₁ hfree
      have hdir : m₂.directory = m.directory := by
        rw [Machine.directory, hcr31, ← hw]
        rfl
      have hrow : m₂.mem m.directory = m.mem m.directory := by
        rw [hmem, ← hw, write_ne (Ne.symm hne)]
      have hT2 : frameOf (m₂.mem m₂.directory d) = T := by rw [hdir, hrow, hT]
      obtain ⟨m', hm', hcr3, hkd, hrest, hused⟩ := freePages_spec (m := m₂) hn' hts'
        (by rw [Machine.Recursive, hdir, hrow]; exact hrec) hd (by rw [hdir, hrow]; exact hp)
        (by rw [hT2, hdir]; exact hne)
      rw [hT2] at hrest hused
      refine ⟨m', hm', hcr3.trans (hcr31.trans (by rw [← hw]; rfl)),
        hkd.trans (hkd₁.trans (by rw [← hw]; rfl)), fun x hx => ?_, fun x => ?_⟩
      · rw [hrest x hx, hmem, ← hw, write_ne hx]
      · have hrowT : ∀ u ∈ ts, m₂.mem T u = m.mem T u := by
          intro u hu
          have hut : u ≠ t := by
            rintro rfl
            exact hnt hu
          rw [hmem, ← hw, write_self, update_of_ne hut]
        have hused1 : m₁.used x = true ↔ m.used x = true := by
          rw [← hw]
          rfl
        rw [hused x, hfree x, hused1, UnderTable.congr hrowT, underTable_cons, and_iff_right hpte]
        exact freed_after

/-- Entry `d` of the directory row is walked by the destruction. -/
def Walked (row : Nat → Word) (d : Nat) : Prop :=
  d ≠ recursiveDirectoryIndex ∧ d ≠ scratchIndex ∧ (row d).has pagePresent = true ∧
    (row d).has pageUser = true

/-- The page tables and pages below the walked entries among `ds`. -/
def UnderDirectory (m : Machine) (dir : Nat) (ds : List Nat) (x : Nat) : Prop :=
  ∃ d ∈ ds, Walked (m.mem dir) d ∧ (x = frameOf (m.mem dir d) ∨
    UnderTable (m.mem (frameOf (m.mem dir d))) (List.range 1024) x)

variable {ds : List Nat}

theorem UnderDirectory.congr {x : Nat} (hrow : ∀ d ∈ ds, m'.mem dir d = m.mem dir d)
    (htable : ∀ d ∈ ds, Walked (m.mem dir) d →
      m'.mem (frameOf (m.mem dir d)) = m.mem (frameOf (m.mem dir d))) :
    UnderDirectory m' dir ds x ↔ UnderDirectory m dir ds x := by
  have hwalked : ∀ d ∈ ds, (Walked (m'.mem dir) d ↔ Walked (m.mem dir) d) := by
    intro d hd
    rw [Walked, hrow d hd, Walked]
  constructor
  · rintro ⟨d, hd, hw, hx⟩
    have hw' := (hwalked d hd).mp hw
    rw [hrow d hd, htable d hd hw'] at hx
    exact ⟨d, hd, hw', hx⟩
  · rintro ⟨d, hd, hw, hx⟩
    refine ⟨d, hd, (hwalked d hd).mpr hw, ?_⟩
    rw [hrow d hd, htable d hd hw]
    exact hx

theorem underDirectory_cons {x : Nat} : UnderDirectory m dir (d :: ds) x ↔
    (Walked (m.mem dir) d ∧ (x = frameOf (m.mem dir d) ∨
      UnderTable (m.mem (frameOf (m.mem dir d))) (List.range 1024) x)) ∨
        UnderDirectory m dir ds x := by
  simp only [UnderDirectory, mem_cons, exists_eq_or_imp]

/-- The entries still to walk lead to page tables of their own. -/
structure Walkable (m : Machine) (dir : Nat) (ds : List Nat) : Prop where
  nodup : ds.Nodup
  bound : ∀ d ∈ ds, d < 1024
  tableNe : ∀ d ∈ ds, Walked (m.mem dir) d → frameOf (m.mem dir d) ≠ dir
  distinct : ∀ d ∈ ds, ∀ e ∈ ds, Walked (m.mem dir) d → Walked (m.mem dir) e →
    frameOf (m.mem dir d) = frameOf (m.mem dir e) → d = e

theorem Walkable.tail (h : Walkable m dir (d :: ds)) : Walkable m dir ds where
  nodup := (nodup_cons.mp h.nodup).2
  bound e he := h.bound e (mem_cons_of_mem _ he)
  tableNe e he := h.tableNe e (mem_cons_of_mem _ he)
  distinct e he e' he' := h.distinct e (mem_cons_of_mem _ he) e' (mem_cons_of_mem _ he')

theorem Walkable.congr (h : Walkable m dir ds)
    (hrow : ∀ d ∈ ds, m'.mem dir d = m.mem dir d) : Walkable m' dir ds where
  nodup := h.nodup
  bound := h.bound
  tableNe e he hw := by
    rw [Walked, hrow e he] at hw
    rw [hrow e he]
    exact h.tableNe e he hw
  distinct e he e' he' hw hw' hf := by
    rw [Walked, hrow e he] at hw
    rw [Walked, hrow e' he'] at hw'
    rw [hrow e he, hrow e' he'] at hf
    exact h.distinct e he e' he' hw hw' hf

/-- One walked entry: its pages, its table and the entry itself go. -/
theorem freeTable_spec (hrec : m.Recursive) (hm : m.directory = dir) (hd : d < 1024)
    (hw : Walked (m.mem dir) d) (hne : frameOf (m.mem dir d) ≠ dir) :
    ∃ m₁, freePages m d (List.range 1024) = some m₁ ∧
      ∃ m₂, m₁.store (directoryEntry d) 0#32 = some m₂ ∧
        ∃ m₃, pmmFreeFrame m₂ (frameOf (m.mem dir d) * pageSize) = m₃ ∧ m₃.cr3 = m.cr3 ∧
          m₃.kernelDirectory = m.kernelDirectory ∧
          m₃.mem dir = update (m.mem dir) d 0#32 ∧
          (∀ x, x ≠ dir → x ≠ frameOf (m.mem dir d) → m₃.mem x = m.mem x) ∧
          ∀ x, m₃.used x = true ↔ m.used x = true ∧ ¬((0 < x ∧ x < frameCount) ∧
            (x = frameOf (m.mem dir d) ∨
              UnderTable (m.mem (frameOf (m.mem dir d))) (List.range 1024) x)) := by
  subst hm
  have hbound : ∀ t ∈ List.range 1024, t < 1024 := fun t ht => mem_range.mp ht
  obtain ⟨m₁, hm1, hcr31, hkd1, hrest1, hused1⟩ :=
    freePages_spec nodup_range hbound hrec hd hw.2.2.1 hne
  have hdir1 : m₁.directory = m.directory := by rw [Machine.directory, hcr31, Machine.directory]
  have hrow1 := hrest1 m.directory (Ne.symm hne)
  have hrec1 : m₁.Recursive := by
    rw [Machine.Recursive, hdir1, hrow1]
    exact hrec
  obtain ⟨hmem, hcr32, hkd2⟩ := pmmFreeFrame_rest (m₁.write m.directory (update
    (m₁.mem m.directory) d 0#32)) (frameOf (m.mem m.directory d) * pageSize)
  refine ⟨m₁, hm1, _, ?_, _, rfl, hcr32.trans hcr31, hkd2.trans hkd1, ?_, fun x hx hxT => ?_,
    fun x => ?_⟩
  · rw [store_directoryEntry hrec1 hd, hdir1]
  · rw [hmem, write_self, hrow1]
  · rw [hmem, write_ne hx, hrest1 x hxT]
  · rw [pmmFreeFrame_used, write_used, hused1, or_comm]
    exact freed_after

theorem freeTables_spec : ∀ {ds : List Nat} {m : Machine}, m.Recursive → m.directory = dir →
    Walkable m dir ds →
    ∃ m', freeTables m ds = some m' ∧ m'.cr3 = m.cr3 ∧ m'.kernelDirectory = m.kernelDirectory ∧
      (∀ x, x ≠ dir → (∀ d ∈ ds, Walked (m.mem dir) d → x ≠ frameOf (m.mem dir d)) →
        m'.mem x = m.mem x) ∧
      ∀ x, m'.used x = true ↔ m.used x = true ∧ ¬((0 < x ∧ x < frameCount) ∧
        UnderDirectory m dir ds x)
  | [], m, _, _, _ => by
    refine ⟨m, rfl, rfl, rfl, fun _ _ _ => rfl, fun x => ⟨fun hx => ⟨hx, ?_⟩, And.left⟩⟩
    rintro ⟨-, d, hd, -⟩
    cases hd
  | d :: ds, m, hrec, hm, hwalk => by
    have hd := hwalk.bound d mem_cons_self
    -- an entry that is not walked is skipped, by either of the two tests
    have hskip : ¬Walked (m.mem dir) d → ∃ m', freeTables m ds = some m' ∧ m'.cr3 = m.cr3 ∧
        m'.kernelDirectory = m.kernelDirectory ∧
        (∀ x, x ≠ dir → (∀ e ∈ d :: ds, Walked (m.mem dir) e → x ≠ frameOf (m.mem dir e)) →
          m'.mem x = m.mem x) ∧
        ∀ x, m'.used x = true ↔ m.used x = true ∧ ¬((0 < x ∧ x < frameCount) ∧
          UnderDirectory m dir (d :: ds) x) := by
      intro hno
      obtain ⟨m', hm', hcr3, hkd, hrest, hused⟩ := freeTables_spec hrec hm hwalk.tail
      refine ⟨m', hm', hcr3, hkd, fun x hx hall =>
        hrest x hx fun e he => hall e (mem_cons_of_mem _ he), fun x => ?_⟩
      rw [hused x, underDirectory_cons, or_iff_right fun hx => hno hx.1]
    show ∃ m', (if d = recursiveDirectoryIndex ∨ d = scratchIndex then freeTables m ds
      else (m.load (directoryEntry d)).bind _) = some m' ∧ _
    by_cases hspecial : d = recursiveDirectoryIndex ∨ d = scratchIndex
    · rw [if_pos hspecial]
      exact hskip fun hw => hspecial.elim hw.1 hw.2.1
    · rw [if_neg hspecial, load_directoryEntry hrec hd, hm]
      show ∃ m', (if (m.mem dir d).has pagePresent = false ∨ (m.mem dir d).has pageUser = false then _
        else _) = some m' ∧ _
      by_cases hplain : (m.mem dir d).has pagePresent = false ∨ (m.mem dir d).has pageUser = false
      · rw [if_pos hplain]
        refine hskip fun hw => ?_
        rcases hplain with hno | hno
        · rw [hw.2.2.1] at hno
          cases hno
        · rw [hw.2.2.2] at hno
          cases hno
      · rw [if_neg hplain]
        obtain ⟨hp, hu⟩ := not_or.mp hplain
        have hw : Walked (m.mem dir) d := ⟨fun he => hspecial (.inl he), fun he =>
          hspecial (.inr he), Bool.of_not_eq_false hp, Bool.of_not_eq_false hu⟩
        have hne := hwalk.tableNe d mem_cons_self hw
        obtain ⟨hnd, -⟩ := nodup_cons.mp hwalk.nodup
        obtain ⟨m1, hm1, m2, hm2, m3, hm3, hcr33, hkd3, hrow3, hrest3, hused3⟩ :=
          freeTable_spec hrec hm hd hw hne
        have hdir3 : m3.directory = dir := by
          rw [Machine.directory, hcr33]
          exact hm
        have hsame : ∀ e ∈ ds, m3.mem dir e = m.mem dir e := by
          intro e he
          have hed : e ≠ d := by
            rintro rfl
            exact hnd he
          rw [hrow3, update_of_ne hed]
        have htable : ∀ e ∈ ds, Walked (m.mem dir) e →
            m3.mem (frameOf (m.mem dir e)) = m.mem (frameOf (m.mem dir e)) := by
          intro e he hwe
          refine hrest3 _ (hwalk.tail.tableNe e he hwe) fun hf => hnd ?_
          rwa [← hwalk.distinct e (mem_cons_of_mem _ he) d mem_cons_self hwe hw hf]
        have hrec3 : m3.Recursive := by
          rw [Machine.Recursive, hdir3, hrow3, update_of_ne (Ne.symm hw.1), ← hm]
          exact hrec
        obtain ⟨m', hm', hcr3, hkd, hrest, hused⟩ :=
          freeTables_spec hrec3 hdir3 (hwalk.tail.congr hsame)
        refine ⟨m', ?_, hcr3.trans hcr33, hkd.trans hkd3, fun x hx hall => ?_, fun x => ?_⟩
        · rw [hm1]
          show (m1.store (directoryEntry d) 0#32).bind _ = _
          rw [hm2]
          show freeTables (pmmFreeFrame m2 _) ds = _
          rw [hm3, hm']
        · rw [hrest x hx, hrest3 x hx (hall d mem_cons_self hw)]
          intro e he hwe
          rw [Walked, hsame e he] at hwe
          rw [hsame e he]
          exact hall e (mem_cons_of_mem _ he) hwe
        · rw [hused x, hused3 x, UnderDirectory.congr hsame htable, underDirectory_cons,
            and_iff_right hw]
          exact freed_after

/-- The frames `paging_destroy_user_directory` reaches are those the directory owns. -/
theorem owned_iff {x : Nat} (hscratch : (m.mem dir scratchIndex).has pagePresent = false) :
    Owned m dir x ↔ x = dir ∨ UnderDirectory m dir (List.range 1024) x := by
  refine or_congr_right ⟨?_, ?_⟩
  · rintro ⟨d, hd, hp, hu, hx⟩
    have hds : d ≠ scratchIndex := by
      rintro rfl
      rw [hscratch] at hp
      cases hp
    refine ⟨d, mem_range.mpr (Nat.lt_succ_of_lt hd), ⟨Nat.ne_of_lt hd, hds, hp, hu⟩, ?_⟩
    exact hx.imp_right fun ⟨t, ht, hpt, hxt⟩ => ⟨t, mem_range.mpr ht, hpt, hxt⟩
  · rintro ⟨d, hd, ⟨hr, -, hp, hu⟩, hx⟩
    have hd' : d < 1023 := Nat.lt_of_le_of_ne (Nat.le_of_lt_succ (mem_range.mp hd)) hr
    refine ⟨d, hd', hp, hu, ?_⟩
    exact hx.imp_right fun ⟨t, ht, hpt, hxt⟩ => ⟨t, mem_range.mp ht, hpt, hxt⟩

/-- `paging_destroy_user_directory` of a directory under construction frees what
it owns, and leaves every other page table as it is. -/
theorem Building.destroy {pages : List Nat} (h : Building m0 k dir pages m) :
    ∃ m', pagingDestroyUserDirectory m (dir * pageSize) = some m' ∧
      m'.cr3 = k * pageSize ∧ m'.kernelDirectory = k * pageSize ∧
      (∀ x, x ≠ dir → (∀ d, d < 1023 → (m.mem dir d).has pagePresent = true →
        (m.mem dir d).has pageUser = true → x ≠ frameOf (m.mem dir d)) → m'.mem x = m.mem x) ∧
      ∀ x, m'.used x = true ↔ m.used x = true ∧ ¬((0 < x ∧ x < frameCount) ∧ Owned m dir x) := by
  have hpos := h.dirOk.range.1
  have hkpos := h.ready.ok.range.1
  have hdir0 : dir * pageSize ≠ 0 := Nat.mul_ne_zero (Nat.ne_of_gt hpos) (by decide)
  have hk0 : k * pageSize ≠ 0 := Nat.mul_ne_zero (Nat.ne_of_gt hkpos) (by decide)
  have hneK : dir * pageSize ≠ k * pageSize := fun he =>
    h.dirNe (Nat.eq_of_mul_eq_mul_right (by decide) he)
  have hguard : ¬(dir * pageSize = 0 ∨ dir * pageSize % pageSize ≠ 0 ∨ m.kernelDirectory = 0 ∨
      dir * pageSize = m.kernelDirectory ∨ m.cr3 ≠ m.kernelDirectory) := by
    rw [h.cr3, h.kernelDirectory, Nat.mul_mod_left]
    simp [hdir0, hk0, hneK]
  have hok : DirectoryOk { m with cr3 := dir * pageSize } dir :=
    h.dirOk.congr (fun x hx => .inl hx) (fun _ => ⟨rfl, rfl⟩)
  have hm : Machine.directory { m with cr3 := dir * pageSize } = dir :=
    Nat.mul_div_cancel dir (by decide)
  have hlt : ∀ d ∈ List.range 1024, Walked (m.mem dir) d → d < 1023 := fun d hd hw =>
    Nat.lt_of_le_of_ne (Nat.le_of_lt_succ (mem_range.mp hd)) hw.1
  have hwalk : Walkable { m with cr3 := dir * pageSize } dir (List.range 1024) :=
    { nodup := nodup_range
      bound := fun d hd => mem_range.mp hd
      tableNe := fun d hd hw => hok.tableNe d (hlt d hd hw) hw.2.2.1
      distinct := fun d hd e he hw hw' => hok.distinct d e (hlt d hd hw) (hlt e he hw') hw.2.2.1
        hw'.2.2.1 }
  obtain ⟨m1, hm1, hcr31, hkd1, hrest1, hused1⟩ := freeTables_spec (hok.isRecursive hm) hm hwalk
  obtain ⟨hmem, hcr32, hkd2⟩ :=
    pmmFreeFrame_rest { m1 with cr3 := k * pageSize } (dir * pageSize)
  refine ⟨pmmFreeFrame { m1 with cr3 := k * pageSize } (dir * pageSize), ?_, hcr32,
    hkd2.trans (hkd1.trans h.kernelDirectory), fun x hx hall => ?_, fun x => ?_⟩
  · have hkd1' : m1.kernelDirectory = k * pageSize := hkd1.trans h.kernelDirectory
    rw [pagingDestroyUserDirectory, if_neg hguard, pagingSwitchDirectory_eq m hpos]
    show (freeTables { m with cr3 := dir * pageSize } (List.range 1024)).bind _ = _
    rw [hm1, Option.bind_some]
    have hback : pagingSwitchDirectory m1 m1.kernelDirectory =
        (true, { m1 with cr3 := k * pageSize }) := calc
      _ = pagingSwitchDirectory m1 (k * pageSize) := congrArg _ hkd1'
      _ = _ := pagingSwitchDirectory_eq m1 hkpos
    rw [hback]
    rfl
  · rw [hmem]
    refine hrest1 x hx fun d hd hw => ?_
    exact hall d (hlt d hd hw) hw.2.2.1 hw.2.2.2
  · have hsame : UnderDirectory { m with cr3 := dir * pageSize } dir (List.range 1024) x ↔
        UnderDirectory m dir (List.range 1024) x := Iff.rfl
    have hused1' := hused1 x
    rw [hsame] at hused1'
    change m1.used x = true ↔ m.used x = true ∧ _ at hused1'
    rw [pmmFreeFrame_used, owned_iff h.dirScratch]
    change m1.used x = true ∧ _ ↔ _
    rw [hused1', or_comm]
    exact freed_after

end MeatySkeleton.Paging
