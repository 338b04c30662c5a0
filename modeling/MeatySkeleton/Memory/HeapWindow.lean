import MeatySkeleton.Memory.Heap
import MeatySkeleton.Paging.AddressMap

/-!
# The window of the heap

The page tables below the addresses of the heap are there from `heap_initialize` on
(`HeapTables`), and mapping or unmapping a page of the heap edits one entry of one of them
(`setEntry`). Edits of different pages commute, which is what lets `heap_map_pages` undo
its work in the order it was done.
-/

namespace MeatySkeleton.Memory

open Function List Paging

variable {m m' : Machine} {v w f g : Nat} {e e' : Word}

/-- An entry of the directory that covers 4 MiB of the heap. -/
def HeapRegion (d : Nat) : Prop := 832 ≤ d ∧ d < 896

/-- The address of a page of the heap. -/
def HeapPage (v : Nat) : Prop :=
  kernelHeapStart ≤ v ∧ v < kernelHeapLimit ∧ v % pageSize = 0

theorem HeapPage.index (h : HeapPage v) :
    HeapRegion (pageDirectoryIndex v) ∧ pageDirectoryIndex v < 1023 ∧ pageTableIndex v < 1024 := by
  obtain ⟨hlo, hhi, -⟩ := h
  unfold kernelHeapStart at hlo
  unfold kernelHeapLimit at hhi
  unfold HeapRegion pageDirectoryIndex pageTableIndex
  omega

/-- Different pages have different entries. -/
theorem HeapPage.index_ne (hv : HeapPage v) (hw : HeapPage w) (hne : v ≠ w)
    (hd : pageDirectoryIndex v = pageDirectoryIndex w) : pageTableIndex v ≠ pageTableIndex w := by
  obtain ⟨hlo, hhi, hal⟩ := hv
  obtain ⟨hlo', hhi', hal'⟩ := hw
  unfold kernelHeapStart at hlo hlo'
  unfold kernelHeapLimit at hhi hhi'
  unfold pageSize at hal hal'
  unfold pageDirectoryIndex at hd
  unfold pageTableIndex
  omega

/-- The page table a page is entered in. -/
def heapTable (m : Machine) (v : Nat) : Nat := frameOf (m.mem m.directory (pageDirectoryIndex v))

/-- The entry of a page. -/
def heapEntry (m : Machine) (v : Nat) : Word := m.mem (heapTable m v) (pageTableIndex v)

def setEntry (m : Machine) (v : Nat) (e : Word) : Machine :=
  m.write (heapTable m v) (update (m.mem (heapTable m v)) (pageTableIndex v) e)

/-- Every page of the heap has a page table. -/
structure HeapTables (m : Machine) : Prop where
  space : Space m m.directory
  present : ∀ d, HeapRegion d → (m.mem m.directory d).has pagePresent = true

/-! ## One entry -/

section Entries

variable (h : HeapTables m) (hv : HeapPage v)

include h hv

theorem HeapTables.table_ne : heapTable m v ≠ m.directory :=
  h.space.ok.tableNe _ hv.index.2.1 (h.present _ hv.index.1)

theorem HeapTables.setEntry_directory (e : Word) :
    (setEntry m v e).mem m.directory = m.mem m.directory :=
  write_ne (h.table_ne hv).symm

theorem HeapTables.edit (he : e.has pageUser = false) : HeapTables (setEntry m v e) := by
  have hspace := h.space.setEntry hv.index.2.1 (h.present _ hv.index.1) (pageTableIndex v)
    (e := e) (fun _ hu => by rw [he] at hu; cases hu)
  refine ⟨hspace, fun d hd => ?_⟩
  show ((setEntry m v e).mem m.directory d).has pagePresent = true
  rw [h.setEntry_directory hv]
  exact h.present d hd

theorem HeapTables.heapTable_setEntry (e : Word) (w : Nat) :
    heapTable (setEntry m v e) w = heapTable m w := by
  show frameOf ((setEntry m v e).mem m.directory _) = _
  rw [h.setEntry_directory hv]
  rfl

theorem HeapTables.heapEntry_setEntry (e : Word) : heapEntry (setEntry m v e) v = e := by
  rw [heapEntry, h.heapTable_setEntry hv, setEntry, write_self, update_self]

theorem HeapTables.table_eq (hw : HeapPage w) (ht : heapTable m v = heapTable m w) :
    pageDirectoryIndex v = pageDirectoryIndex w :=
  h.space.ok.distinct _ _ hv.index.2.1 hw.index.2.1 (h.present _ hv.index.1)
    (h.present _ hw.index.1) ht

theorem HeapTables.heapEntry_setEntry_ne (e : Word) (hw : HeapPage w) (hne : v ≠ w) :
    heapEntry (setEntry m v e) w = heapEntry m w := by
  rw [heapEntry, h.heapTable_setEntry hv, setEntry, heapEntry]
  by_cases ht : heapTable m v = heapTable m w
  · have hindex := hv.index_ne hw hne (h.table_eq hv hw ht)
    rw [ht, write_self, update_of_ne hindex.symm]
  · rw [write_ne (Ne.symm ht)]

theorem HeapTables.setEntry_setEntry (e e' : Word) :
    setEntry (setEntry m v e) v e' = setEntry m v e' := by
  have ht := h.heapTable_setEntry hv e v
  unfold setEntry at ht ⊢
  rw [ht, write_self, update_idem]
  unfold Machine.write
  rw [update_idem]

theorem HeapTables.setEntry_comm (e e' : Word) (hw : HeapPage w) (hne : v ≠ w) :
    setEntry (setEntry m v e) w e' = setEntry (setEntry m w e') v e := by
  have htv := h.heapTable_setEntry hv e w
  have htw := h.heapTable_setEntry hw e' v
  unfold setEntry at htv htw ⊢
  rw [htv, htw]
  by_cases ht : heapTable m v = heapTable m w
  · have hindex := hv.index_ne hw hne (h.table_eq hv hw ht)
    rw [ht, write_self, write_self, update_comm hindex]
    unfold Machine.write
    rw [update_idem, update_idem]
  · rw [write_ne (Ne.symm ht), write_ne ht]
    unfold Machine.write
    rw [update_comm ht]

end Entries

theorem setEntry_same (m : Machine) (v : Nat) : setEntry m v (heapEntry m v) = m := by
  rw [setEntry, heapEntry, update_eq_self, write_same]

/-! ## Mapping and unmapping -/

theorem writable_or {e : Word} (h : e.has pageWritable = true) : e ||| pageWritable = e := by
  have hbit : pageWritable = BitVec.twoPow 32 1 := by decide
  rw [Word.has, hbit, BitVec.and_twoPow] at h
  rw [hbit]
  apply BitVec.eq_of_getLsbD_eq
  intro i hi
  rw [BitVec.getLsbD_or, BitVec.getLsbD_twoPow]
  by_cases hone : 1 = i
  · subst hone
    cases hb : e.getLsbD 1 with
    | true => rfl
    | false =>
      rw [hb, if_neg Bool.false_ne_true] at h
      cases h
  · rw [decide_eq_false hone, Bool.and_false, Bool.or_false]

/-- An entry that lets the kernel write to frame `f`. -/
def heapPte (f : Nat) : Word := pageEntry f pageWritable

theorem heapPte_user (f : Nat) : (heapPte f).has pageUser = false := by
  rw [heapPte, pageEntry_user]
  decide

/-- `paging_map_page` of a page of the heap that is not mapped. -/
theorem HeapTables.mapPage (h : HeapTables m) (hv : HeapPage v) (hempty : heapEntry m v = 0#32)
    (f : Nat) : pagingMapPage m v (f * Paging.pageSize) pageWritable =
      some (true, setEntry m v (heapPte f)) := by
  have hp := h.present _ hv.index.1
  obtain ⟨r, hr, hout⟩ := pagingMapPage_outcome h.space.ok rfl hv.2.2 hv.index.2.1 f pageWritable
  rw [hr]
  cases hout with
  | noFrame habsent _ =>
    rw [hp] at habsent
    cases habsent
  | newTable habsent _ _ _ _ =>
    rw [hp] at habsent
    cases habsent
  | taken _ hpte =>
    change (heapEntry m v).has pagePresent = true at hpte
    rw [hempty, zero_not_present] at hpte
    cases hpte
  | mapped _ _ =>
    have hraised : raisedPde pageWritable (m.mem m.directory (pageDirectoryIndex v)) =
        m.mem m.directory (pageDirectoryIndex v) := by
      have huser : pageWritable.has pageUser = false := by decide
      rw [raisedPde, huser, if_neg Bool.false_ne_true, writable_or (h.space.writable _ hv.index.2.1 hp)]
    rw [hraised, update_eq_self, write_same]
    rfl

/-- `paging_unmap_page` of a page of the heap, and its frame. -/
theorem HeapTables.unmapPage (h : HeapTables m) (hv : HeapPage v)
    (hpte : heapEntry m v = heapPte f) (hf : 0 < f ∧ f < frameCount) :
    pagingUnmapPage m v true = some (true, (setEntry m v 0#32).markFree f) := by
  have hp := h.present _ hv.index.1
  have hpresent : (heapEntry m v).has pagePresent = true := by
    rw [hpte]
    exact pageEntry_present f pageWritable
  have hframe : frameOf (heapEntry m v) = f := by
    rw [hpte]
    exact pageEntry_frame (Nat.lt_trans hf.2 (by decide)) pageWritable
  have haddress : ¬(f * Paging.pageSize = 0 ∨ frameCount * Paging.pageSize ≤ f * Paging.pageSize) := by
    unfold frameCount at *
    unfold Paging.pageSize
    omega
  rw [h.space.pagingUnmapPage_eq hv.2.2 hv.index.2.1, hp, if_neg nofun]
  change (if (heapEntry m v).has pagePresent = false then _ else
    some (true, if true then pmmFreeFrame (setEntry m v 0#32)
      (frameOf (heapEntry m v) * Paging.pageSize) else _)) = _
  rw [hpresent, if_neg nofun, hframe, if_pos rfl, pmmFreeFrame, Nat.mul_mod_left,
    if_neg (not_not.mpr rfl), if_neg haddress, Nat.mul_div_cancel f (by decide)]

/-! ## Pages one after the other -/

/-- Page `v` is on frame `f` now. -/
def enter (m : Machine) (v f : Nat) : Machine := setEntry (m.markUsed f) v (heapPte f)

/-- Pages from `v` on are on these frames. -/
def entered (m : Machine) (v : Nat) : List Nat → Machine
  | [] => m
  | f :: fs => entered (enter m v f) (v + pageSize) fs

/-- Frames the allocator can still hand out. -/
structure Fresh (m : Machine) (fs : List Nat) : Prop where
  nodup : fs.Nodup
  unused : ∀ f ∈ fs, m.used f = false ∧ 0 < f ∧ f < frameCount

theorem HeapTables.markUsed (h : HeapTables m) (f : Nat) : HeapTables (m.markUsed f) := by
  have hused : ∀ x, TableFrame m m.directory x → (m.markUsed f).used x = true := by
    intro x hx
    apply m.markUsed_mono
    rcases hx with rfl | ⟨d, hd, hp, rfl⟩
    · exact h.space.ok.dirUsed
    · exact h.space.ok.tableUsed d hd hp
  exact ⟨(h.space.elsewhere (show (m.markUsed f).directory = _ from rfl) (fun _ _ => rfl) hused).1,
    h.present⟩

theorem HeapTables.enter (h : HeapTables m) (hv : HeapPage v) (f : Nat) :
    HeapTables (Memory.enter m v f) :=
  (h.markUsed f).edit hv (heapPte_user f)

theorem heapEntry_enter (h : HeapTables m) (hv : HeapPage v) (f : Nat) :
    heapEntry (enter m v f) v = heapPte f :=
  (h.markUsed f).heapEntry_setEntry hv _

theorem heapEntry_enter_ne (h : HeapTables m) (hv : HeapPage v) (hw : HeapPage w) (hne : v ≠ w)
    (f : Nat) : heapEntry (enter m v f) w = heapEntry m w :=
  (h.markUsed f).heapEntry_setEntry_ne hv _ hw hne

/-- There are `n` pages of the heap from `v` on. -/
structure Pages (v n : Nat) : Prop where
  start : kernelHeapStart ≤ v
  aligned : v % pageSize = 0
  room : v + n * pageSize ≤ kernelHeapLimit

theorem Pages.page {n : Nat} (h : Pages v n) {i : Nat} (hi : i < n) :
    HeapPage (v + i * pageSize) := by
  obtain ⟨hstart, haligned, hroom⟩ := h
  unfold pageSize at *
  refine ⟨by omega, by omega, ?_⟩
  unfold pageSize
  omega

theorem Pages.first {n : Nat} (h : Pages v (n + 1)) : HeapPage v := by
  have hpage := h.page (Nat.succ_pos n)
  rwa [Nat.zero_mul, Nat.add_zero] at hpage

theorem Pages.next {n : Nat} (h : Pages v (n + 1)) : Pages (v + pageSize) n := by
  obtain ⟨hstart, haligned, hroom⟩ := h
  unfold pageSize at *
  refine ⟨by omega, ?_, ?_⟩
  · unfold pageSize
    omega
  · unfold pageSize
    omega

theorem Pages.one {n : Nat} (h : Pages v (n + 1)) : Pages v 1 := by
  have hone : 1 * pageSize ≤ (n + 1) * pageSize := Nat.mul_le_mul_right _ (Nat.le_add_left 1 n)
  exact ⟨h.start, h.aligned, Nat.le_trans (Nat.add_le_add_left hone v) h.room⟩

/-- The entries of the other pages are as before. -/
theorem entered_spec : ∀ {fs : List Nat} {m : Machine} {v : Nat}, HeapTables m →
    Pages v fs.length → HeapTables (entered m v fs) ∧ ∀ w, HeapPage w →
      (w < v ∨ v + fs.length * pageSize ≤ w) → heapEntry (entered m v fs) w = heapEntry m w
  | [], _, _, h, _ => ⟨h, fun _ _ _ => rfl⟩
  | f :: fs, m, v, h, hpages => by
    obtain ⟨htables, hentry⟩ := entered_spec (h.enter hpages.first f) hpages.next
    refine ⟨htables, fun w hw hout => ?_⟩
    have hne : v ≠ w := by
      unfold pageSize at hout
      rw [length_cons] at hout
      omega
    have hout' : w < v + pageSize ∨ v + pageSize + fs.length * pageSize ≤ w := by
      unfold pageSize at hout ⊢
      rw [length_cons] at hout
      omega
    rw [entered, hentry w hw hout', heapEntry_enter_ne h hpages.first hw hne]

theorem Fresh.tail {fs : List Nat} (h : Fresh m (f :: fs)) (v : Nat) :
    Fresh (enter m v f) fs ∧ Fresh m fs := by
  have hfs : ∀ g ∈ fs, m.used g = false ∧ 0 < g ∧ g < frameCount := fun g hg =>
    h.unused g (mem_cons_of_mem f hg)
  refine ⟨⟨h.nodup.of_cons, fun g hg => ?_⟩, h.nodup.of_cons, hfs⟩
  have hne : g ≠ f := fun he => (nodup_cons.mp h.nodup).1 (he ▸ hg)
  exact ⟨(update_of_ne hne ..).trans (hfs g hg).1, (hfs g hg).2⟩

/-- Each page takes one frame. -/
theorem entered_used : ∀ {fs : List Nat} {m : Machine} {v : Nat}, Fresh m fs →
    freeFrames (entered m v fs).used + fs.length = freeFrames m.used
  | [], _, _, _ => Nat.add_zero _
  | f :: fs, m, v, h => by
    obtain ⟨hfree, hrange⟩ := h.unused f mem_cons_self
    have hcount : freeFrames (update m.used f true) + 1 = freeFrames m.used :=
      freeFrames_update hrange hfree
    have ih : freeFrames (entered (enter m v f) (v + pageSize) fs).used + fs.length =
      freeFrames (update m.used f true) := entered_used (h.tail v).1
    rw [entered, length_cons]
    omega

/-! ## The rollback -/

/-- Page `v` and its frame `f` are given back. -/
def leave (m : Machine) (v f : Nat) : Machine := (setEntry m v 0#32).markFree f

/-- Giving back what was just entered. -/
theorem leave_enter (h : HeapTables m) (hv : HeapPage v) (hempty : heapEntry m v = 0#32)
    (hfree : m.used f = false) : leave (enter m v f) v f = m := by
  have hsame : setEntry m v 0#32 = m := by
    rw [← hempty, setEntry_same]
  rw [leave, enter, (h.markUsed f).setEntry_setEntry hv]
  show (setEntry m v 0#32 |>.markUsed f).markFree f = m
  rw [hsame, Machine.markUsed, Machine.markFree, update_idem, ← hfree, update_eq_self]

theorem leave_enter_comm (h : HeapTables m) (hv : HeapPage v) (hw : HeapPage w) (hne : v ≠ w)
    (hfg : f ≠ g) : leave (enter m v f) w g = enter (leave m w g) v f := by
  have hframes : ∀ m : Machine, (m.markUsed f).markFree g = (m.markFree g).markUsed f := by
    intro m
    rw [Machine.markUsed, Machine.markFree, update_comm hfg]
    rfl
  rw [leave, enter, (h.markUsed f).setEntry_comm hv _ _ hw hne]
  show setEntry ((setEntry (m) w 0#32 |>.markUsed f).markFree g) v _ = _
  rw [hframes]
  rfl

/-- Giving back a page below others that stay. -/
theorem leave_entered (hw : HeapPage w) : ∀ {fs : List Nat} {m : Machine} {v : Nat},
    HeapTables m → Pages v fs.length → w < v → g ∉ fs → 
      leave (entered m v fs) w g = entered (leave m w g) v fs
  | [], _, _, _, _, _, _ => rfl
  | f :: fs, m, v, h, hpages, hlt, hg => by
    obtain ⟨hne, hg'⟩ := not_or.mp (mem_cons.not.mp hg)
    rw [entered, leave_entered hw (h.enter hpages.first f) hpages.next (by omega) hg',
      leave_enter_comm h hpages.first hw (Nat.ne_of_gt hlt) (Ne.symm hne)]
    rfl

/-- The pages from `v` on are unmapped in the order they were entered, and everything is as it
was before. -/
theorem rollback : ∀ {fs : List Nat} {m : Machine} {v : Nat}, HeapTables m → Pages v fs.length →
    Fresh m fs → (∀ i < fs.length, heapEntry m (v + i * pageSize) = 0#32) →
      (List.range fs.length).foldl (fun p i =>
        (p.bind fun m => pagingUnmapPage m (v + i * pageSize) true).map Prod.snd)
          (some (entered m v fs)) = some m
  | [], _, _, _, _, _, _ => rfl
  | f :: fs, m, v, h, hpages, hfresh, hempty => by
    obtain ⟨hfree, hrange⟩ := hfresh.unused f mem_cons_self
    have hv := hpages.first
    obtain ⟨htables, hothers⟩ := entered_spec (h.enter hv f) hpages.next
    have hpte : heapEntry (entered (enter m v f) (v + pageSize) fs) v = heapPte f := by
      rw [hothers v hv (.inl (by unfold pageSize; omega)), heapEntry_enter h hv]
    have hzero : heapEntry m v = 0#32 := by
      have hfirst := hempty 0 (Nat.succ_pos _)
      rwa [Nat.zero_mul, Nat.add_zero] at hfirst
    have hunmap : pagingUnmapPage (entered m v (f :: fs)) v true =
        some (true, entered m (v + pageSize) fs) := by
      rw [entered, htables.unmapPage hv hpte hrange]
      show some (true, leave (entered (enter m v f) (v + pageSize) fs) v f) = _
      rw [leave_entered hv (h.enter hv f) hpages.next (by unfold pageSize; omega)
        (nodup_cons.mp hfresh.nodup).1, leave_enter h hv hzero hfree]
    have hshift : ∀ i, v + (i + 1) * pageSize = v + pageSize + i * pageSize := by
      intro i
      rw [Nat.succ_mul, Nat.add_comm (i * pageSize), Nat.add_assoc]
    rw [length_cons, range_succ_eq_map, foldl_cons, foldl_map, Nat.zero_mul,
      Nat.add_zero, Option.bind_some, hunmap]
    simp only [Nat.succ_eq_add_one, hshift]
    apply rollback h hpages.next (hfresh.tail v).2
    intro i hi
    rw [← hshift]
    exact hempty (i + 1) (Nat.succ_lt_succ hi)

/-! ## The page tables of the window -/

/-- What `paging_ensure_kernel_page_table` finds and leaves below an address of the heap. -/
inductive EnsureOutcome (m : Machine) (d : Nat) : Bool × Machine → Prop
  | refused : EnsureOutcome m d (false, m)
  | there : (m.mem m.directory d).has pagePresent = true → EnsureOutcome m d (true, m)
  | created {table : Nat} : (m.mem m.directory d).has pagePresent = false → 0 < table →
      table < frameCount → m.used table = false →
      EnsureOutcome m d (true, ((m.markUsed table).write m.directory
        (update (m.mem m.directory) d (tablePde table pageWritable))).write table
          fun _ => 0#32)

theorem ensure_outcome (h : DirectoryOk m m.directory) (hd : HeapRegion (pageDirectoryIndex v)) :
    ∃ r, pagingEnsureKernelPageTable m v = some r ∧ EnsureOutcome m (pageDirectoryIndex v) r := by
  have hrec := h.isRecursive rfl
  obtain ⟨hlo, hhi⟩ := hd
  generalize hdi : pageDirectoryIndex v = d at *
  have hd' : d < 1024 := by omega
  have hne : ¬(d = recursiveDirectoryIndex ∨ d = scratchIndex) := by
    unfold recursiveDirectoryIndex scratchIndex
    omega
  rw [pagingEnsureKernelPageTable, hdi, if_neg hne, load_directoryEntry hrec hd']
  split
  · exact ⟨_, rfl, .refused⟩
  · show ∃ r, (if (m.mem m.directory d).has pagePresent = true then _ else _) = some r ∧ _
    cases hp : (m.mem m.directory d).has pagePresent with
    | true =>
      rw [if_pos rfl]
      cases hu : (m.mem m.directory d).has pageUser with
      | true => exact ⟨_, rfl, .refused⟩
      | false => exact ⟨_, rfl, .there hp⟩
    | false =>
      rw [if_neg nofun]
      rcases pmmAllocateFrame_cases m with ⟨hnone, -⟩ | ⟨table, hsome, hpos, hlt, hfree, -⟩
      · rw [hnone]
        exact ⟨_, rfl, .refused⟩
      · rw [hsome]
        have htable : table ≠ m.directory := by
          intro he
          rw [he, h.dirUsed] at hfree
          cases hfree
        refine ⟨_, ?_, .created hp hpos hlt hfree⟩
        show ((m.markUsed table).store (directoryEntry d) (tablePde table pageWritable)).bind
          (fun m => (m.editPage (tableEntry d 0) zeroPage).bind fun m => some (true, m)) = _
        rw [← Option.bind_assoc, emptyTable_eq (m := m.markUsed table) hrec rfl (by omega) hlt]
        rfl

/-- Before the heap is there: the regions up to `n` have a page table, and no page is entered. -/
structure Bare (m : Machine) (n : Nat) : Prop where
  space : Space m m.directory
  present : ∀ d, HeapRegion d → d < n → (m.mem m.directory d).has pagePresent = true
  clear : ∀ d t, HeapRegion d → (m.mem m.directory d).has pagePresent = true →
    m.mem (frameOf (m.mem m.directory d)) t = 0#32

/-- A region gets its page table. -/
theorem Bare.created {d table : Nat} (h : Bare m d) (hd : HeapRegion d)
    (hrange : 0 < table ∧ table < frameCount) (hfree : m.used table = false) :
    Bare (((m.markUsed table).write m.directory
      (update (m.mem m.directory) d (tablePde table pageWritable))).write table
        fun _ => 0#32) (d + 1) := by
  have hlow : ∀ i, HeapRegion i → i < 1023 := fun i hi => Nat.lt_trans hi.2 (by decide)
  have hne : table ≠ m.directory := by
    intro he
    rw [he, h.space.ok.dirUsed] at hfree
    cases hfree
  generalize hm' : ((m.markUsed table).write m.directory (update (m.mem m.directory) d
    (tablePde table pageWritable))).write table (fun _ => 0#32) = m'
  have hdirectory : m'.directory = m.directory := by
    rw [← hm']
    rfl
  have hrow : m'.mem m.directory = update (m.mem m.directory) d (tablePde table pageWritable) := by
    rw [← hm', write_ne hne.symm, write_self]
  have hnew : m'.mem table = fun _ => 0#32 := by
    rw [← hm', write_self]
  have hself : m'.mem m.directory d = tablePde table pageWritable := by
    rw [hrow, update_self]
  have hother : ∀ i, i ≠ d → m'.mem m.directory i = m.mem m.directory i := fun i hi => by
    rw [hrow, update_of_ne hi]
  -- the tables that were there are in other frames
  have hkept : ∀ i, i < 1023 → (m.mem m.directory i).has pagePresent = true →
      m'.mem (frameOf (m.mem m.directory i)) = m.mem (frameOf (m.mem m.directory i)) := by
    intro i hi hp
    have hdir := h.space.ok.tableNe i hi hp
    have htable : frameOf (m.mem m.directory i) ≠ table := by
      intro he
      have hused := h.space.ok.tableUsed i hi hp
      rw [he, hfree] at hused
      cases hused
    rw [← hm', write_ne htable, write_ne hdir]
    rfl
  have hok : DirectoryOk m' m.directory := by
    refine h.space.ok.insert (hlow d hd) hrange hfree (tablePde_frame hrange.2 _) hrow ?_
    intro x
    rw [← hm']
    exact update_used_iff
  have hspace : Space m' m.directory := by
    refine ⟨hdirectory, hok, ?_, ?_⟩
    · intro i hi hp
      by_cases hid : i = d
      · rw [hid, hself, tablePde_writable]
      · rw [hother i hid] at hp ⊢
        exact h.space.writable i hi hp
    · intro i t hi ht hp hpt hu
      by_cases hid : i = d
      · rw [hid, hself, tablePde_frame hrange.2, hnew, zero_not_present] at hpt
        cases hpt
      · rw [hother i hid] at hp hpt hu ⊢
        rw [hkept i hi hp] at hpt hu
        exact h.space.user i t hi ht hp hpt hu
  refine ⟨by rw [hdirectory]; exact hspace, ?_, ?_⟩
  · intro i hi hlt
    rw [hdirectory]
    by_cases hid : i = d
    · rw [hid, hself, tablePde_present]
    · rw [hother i hid]
      exact h.present i hi (by omega)
  · intro i t hi hp
    rw [hdirectory] at hp ⊢
    by_cases hid : i = d
    · rw [hid, hself, tablePde_frame hrange.2, hnew]
    · rw [hother i hid] at hp ⊢
      rw [hkept i (hlow i hi) hp]
      exact h.clear i t hi hp

/-- One region after the other. -/
theorem Bare.ensure {d : Nat} (h : Bare m d) (hd : HeapRegion d) (hv : pageDirectoryIndex v = d) :
    ∃ ok m', pagingEnsureKernelPageTable m v = some (ok, m') ∧ (ok = true → Bare m' (d + 1)) := by
  obtain ⟨⟨ok, m'⟩, hr, hout⟩ := ensure_outcome (v := v) h.space.ok (by rw [hv]; exact hd)
  refine ⟨ok, m', hr, fun hok => ?_⟩
  rw [hv] at hout
  cases hout with
  | refused => cases hok
  | there hp =>
    refine ⟨h.space, fun i hi hlt => ?_, h.clear⟩
    rcases Nat.lt_succ_iff_lt_or_eq.mp hlt with hlt | rfl
    · exact h.present i hi hlt
    · exact hp
  | created _ hpos hlt hfree => exact h.created hd ⟨hpos, hlt⟩ hfree

/-- The heap ends at `mappedEnd`; no page behind it is entered. -/
structure Window (m : Machine) (mappedEnd : Nat) : Prop where
  tables : HeapTables m
  range : Pages mappedEnd 0
  clear : ∀ v, HeapPage v → mappedEnd ≤ v → heapEntry m v = 0#32

theorem Bare.window (h : Bare m 896) : Window m kernelHeapStart := by
  refine ⟨⟨h.space, fun d hd => h.present d hd hd.2⟩, ⟨Nat.le_refl _, by decide, by decide⟩, ?_⟩
  intro v hv _
  exact h.clear _ _ hv.index.1 (h.present _ hv.index.1 hv.index.1.2)

/-- The rest of the kernel switches directories, maps and unmaps, takes frames and gives
some back; it has no business with the tables of the heap. -/
structure Elsewhere (m m' : Machine) : Prop where
  space : Space m' m'.directory
  entries : ∀ d, HeapRegion d → m'.mem m'.directory d = m.mem m.directory d
  tables : ∀ d, HeapRegion d →
    m'.mem (frameOf (m.mem m.directory d)) = m.mem (frameOf (m.mem m.directory d))

theorem Window.elsewhere {mappedEnd : Nat} (h : Window m mappedEnd) (he : Elsewhere m m') :
    Window m' mappedEnd := by
  refine ⟨⟨he.space, fun d hd => ?_⟩, h.range, fun v hv hle => ?_⟩
  · rw [he.entries d hd]
    exact h.tables.present d hd
  · have ht : heapTable m' v = heapTable m v := congrArg frameOf (he.entries _ hv.index.1)
    have hsame : heapEntry m' v = heapEntry m v := by
      rw [heapEntry, ht]
      exact congrFun (he.tables _ hv.index.1) _
    rw [hsame]
    exact h.clear v hv hle

/-- The first page behind the end of the heap is entered. -/
theorem Window.enter {mappedEnd : Nat} (h : Window m mappedEnd) (hpages : Pages mappedEnd 1)
    (f : Nat) : Window (enter m mappedEnd f) (mappedEnd + pageSize) := by
  have hv := hpages.first
  refine ⟨h.tables.enter hv f, hpages.next, fun w hw hle => ?_⟩
  have hlt : mappedEnd < w := by
    unfold pageSize at hle
    omega
  rw [heapEntry_enter_ne h.tables hv hw (Nat.ne_of_lt hlt)]
  exact h.clear w hw (Nat.le_of_lt hlt)

end MeatySkeleton.Memory
