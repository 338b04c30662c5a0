import MeatySkeleton.Memory.HeapSafety
import MeatySkeleton.Memory.HeapWindow

/-!
# The heap on its pages

`heap.c` over the frame allocator and the page tables: when `kmalloc` returns `NULL`, and
what a failed expansion leaves behind. Below the heap every page has a page table since
`heap_initialize`, so the only thing that can stop an expansion on its way is that the
frames run out; the pages entered so far are then unmapped and the tables and the bitmap are
as they were (`heapMapPages_window`).
-/

namespace MeatySkeleton.Memory

open Function List Lib Paging

/-- The heap's calls of `pmm.c` and `paging.c`; `none` is a page fault. -/
def machinePages : PageOps (Option Machine) where
  allocateFrame
    | none => (0, none)
    | some m =>
      match pmmAllocateFrame m with
      | none => (0, some m)
      | some (address, m) => (address, some m)
  freeFrame p address := p.map fun m => pmmFreeFrame m address
  mapPage p v address :=
    match p.bind fun m => pagingMapPage m v address pageWritable with
    | none => (false, none)
    | some (ok, m) => (ok, some m)
  unmapPage p v := (p.bind fun m => pagingUnmapPage m v true).map Prod.snd
  ensureTable p v :=
    match p.bind fun m => pagingEnsureKernelPageTable m v with
    | none => (false, none)
    | some (ok, m) => (ok, some m)

/-! ## Searching, expanding and searching again -/

section Search

variable {σ : Type} (ops : PageOps σ) {s s' : Heap σ} {bs : List Block}

/-- No free block is large enough. -/
def NoRoom (bs : List Block) (n : Nat) : Prop := ∀ b ∈ bs, b.free = true → b.size < n

/-- `heap_find_free_block` returns `NULL` only if there is no room. -/
theorem Layout.find_iff (h : Layout s bs) (n : Nat) :
    ∃ block, heapFindFreeBlock s.mem n s.mappedEnd s.firstBlock = some block ∧
      (block = 0 ↔ NoRoom bs n) ∧
      (block ≠ 0 → ∀ aligned, (heapTakeBlock s block aligned).1 ≠ 0) := by
  obtain ⟨block, he, hcase⟩ := h.find n
  refine ⟨block, he, ?_⟩
  rcases hcase with ⟨rfl, hall⟩ | ⟨xs, b, ys, rfl, rfl, hfree, hfit⟩
  · exact ⟨⟨fun _ => hall, fun _ => rfl⟩, fun hne => absurd rfl hne⟩
  · obtain ⟨hlo, hend, hhi⟩ := h.range
    refine ⟨⟨fun hz => by omega, fun hno => ?_⟩, fun _ aligned => ?_⟩
    · have hlt := hno b (by simp) hfree
      omega
    · show u32 (endOf kernelHeapStart xs + 32) ≠ 0
      rw [u32_of_lt (by omega)]
      omega

/-- After an expansion there is room. -/
theorem Layout.expand_room (h : Layout s bs) {n : Nat} (he : heapExpand ops s n = (true, s')) :
    ∃ bs', Layout s' bs' ∧ ¬NoRoom bs' n := by
  rcases h.expand ops n with ⟨p, hfailed⟩ | ⟨t, size, hdone, hsize, hcase⟩
  · rw [hfailed] at he
    cases he
  · obtain rfl := (Prod.mk.inj (hdone.symm.trans he)).2
    rcases hcase with ⟨xs, b, -, hfree, hl⟩ | ⟨-, hl⟩
    · refine ⟨_, hl, fun hno => ?_⟩
      have hlt := hno { b with size := b.size + size } (by simp) hfree
      dsimp only at hlt
      omega
    · refine ⟨_, hl, fun hno => ?_⟩
      have hlt := hno { size := size - 32, free := true } (by simp) rfl
      dsimp only at hlt
      omega

/-- When `kmalloc` returns `NULL`. -/
theorem Layout.allocate_iff (h : Layout s bs) (size : Nat) :
    ∃ r t, kmalloc ops s size = some (r, t) ∧
      (r = 0 ↔ size = 0 ∨ alignUpSize size heapAlignment = 0 ∨
        (NoRoom bs (alignUpSize size heapAlignment) ∧
          (heapExpand ops s (alignUpSize size heapAlignment)).1 = false)) ∧
      (r = 0 → t = s ∨ heapExpand ops s (alignUpSize size heapAlignment) = (false, t)) := by
  unfold kmalloc
  by_cases hzero : size = 0
  · rw [if_pos hzero]
    exact ⟨0, s, rfl, by simp [hzero], fun _ => .inl rfl⟩
  rw [if_neg hzero]
  unfold heapAllocateUnlocked
  rw [if_neg (by simp [h.initialized]), if_neg hzero]
  dsimp only
  by_cases haz : alignUpSize size heapAlignment = 0
  · rw [if_pos haz]
    exact ⟨0, s, rfl, by simp [haz], fun _ => .inl rfl⟩
  rw [if_neg haz]
  generalize alignUpSize size heapAlignment = aligned at *
  obtain ⟨block, hfind, hroom, htake⟩ := h.find_iff aligned
  rw [hfind]
  dsimp only
  by_cases hb : block = 0
  · rw [if_neg (not_not.mpr hb)]
    rcases hexpand : heapExpand ops s aligned with ⟨ok, t⟩
    cases ok with
    | false => exact ⟨0, t, rfl, by simp [hroom.mp hb], fun _ => .inr rfl⟩
    | true =>
      obtain ⟨bs', hl, hnot⟩ := h.expand_room ops hexpand
      obtain ⟨block', hfind', hroom', htake'⟩ := hl.find_iff aligned
      have hb' : block' ≠ 0 := fun hz => hnot (hroom'.mp hz)
      dsimp only
      rw [hfind']
      dsimp only
      rw [if_neg hb']
      refine ⟨_, _, rfl, ⟨fun hz => absurd hz (htake' hb' aligned), fun hor => ?_⟩,
        fun hz => absurd hz (htake' hb' aligned)⟩
      rcases hor with hz | hz | ⟨-, hfalse⟩
      · exact absurd hz hzero
      · exact absurd hz haz
      · cases hfalse
  · rw [if_pos hb]
    refine ⟨_, _, rfl, ⟨fun hz => absurd hz (htake hb aligned), fun hor => ?_⟩,
      fun hz => absurd hz (htake hb aligned)⟩
    rcases hor with hz | hz | ⟨hno, -⟩
    · exact absurd hz hzero
    · exact absurd hz haz
    · exact absurd (hroom.mpr hno) hb

end Search

/-! ## What the calls do to the pages

Only `heap_expand` calls paging; a property of the pages and of the end of the heap that it
keeps is kept by every call. -/

section Range

variable {σ : Type} (ops : PageOps σ) {P : σ → Nat → Prop} {s s' : Heap σ}

/-- The end of the heap and the paging state meet `P`. -/
def Ranged (P : σ → Nat → Prop) (s : Heap σ) : Prop := P s.pages s.mappedEnd

theorem heapSplitBlock_ranged (h : Ranged P s) (block requested : Nat) :
    Ranged P (heapSplitBlock s block requested) := by
  unfold heapSplitBlock
  dsimp only
  split
  · exact h
  split
  · exact h
  · split
    · exact h
    · exact h

theorem heapMergeWithNext_ranged (h : Ranged P s) (block : Nat) :
    Ranged P (heapMergeWithNext s block) := by
  unfold heapMergeWithNext
  dsimp only
  split
  · exact h
  split
  · exact h
  · split
    · exact h
    · exact h

theorem heapFreeUnlocked_ranged (h : Ranged P s) (p : Nat) : Ranged P (heapFreeUnlocked s p) := by
  unfold heapFreeUnlocked
  dsimp only
  split
  · exact h
  split
  · exact h
  split
  · exact h
  · have hfree : Ranged P { s with mem := setFree s.mem (heapBlockFromPointer s p) true } := h
    split
    · exact heapMergeWithNext_ranged (heapMergeWithNext_ranged hfree _) _
    · exact heapMergeWithNext_ranged hfree _

/-- `heap_expand` keeps the property. -/
def ExpandKeeps (P : σ → Nat → Prop) : Prop :=
  ∀ (s : Heap σ) (n : Nat), Ranged P s → Ranged P (heapExpand ops s n).2

variable {ops} (hexpand : ExpandKeeps ops P)

include hexpand

theorem heapAllocateUnlocked_ranged (h : Ranged P s) {size r : Nat}
    (he : heapAllocateUnlocked ops s size = some (r, s')) : Ranged P s' := by
  unfold heapAllocateUnlocked at he
  dsimp only at he
  split at he
  · cases he
    exact h
  split at he
  · cases he
    exact h
  split at he
  · cases he
    exact h
  split at he
  · cases he
  split at he
  · cases he
    exact heapSplitBlock_ranged h _ _
  have hgrown := hexpand s (alignUpSize size heapAlignment) h
  split at he
  next t ht =>
    cases he
    rw [ht] at hgrown
    exact hgrown
  next t ht =>
    rw [ht] at hgrown
    split at he
    · cases he
    split at he
    · cases he
      exact hgrown
    · cases he
      exact heapSplitBlock_ranged hgrown _ _

theorem heapReallocateUnlocked_ranged (h : Ranged P s) {p newSize r : Nat}
    (he : heapReallocateUnlocked ops s p newSize = some (r, s')) : Ranged P s' := by
  unfold heapReallocateUnlocked at he
  dsimp only at he
  split at he
  · exact heapAllocateUnlocked_ranged hexpand h he
  split at he
  · cases he
    exact heapFreeUnlocked_ranged h p
  split at he
  · cases he
    exact h
  split at he
  · cases he
    exact h
  split at he
  · cases he
    exact h
  split at he
  · cases he
    exact heapSplitBlock_ranged h _ _
  split at he
  · cases he
    exact heapSplitBlock_ranged (heapMergeWithNext_ranged h _) _ _
  · -- the contents move to a new block
    unfold heapMoveBlock at he
    split at he
    · cases he
    next t ht =>
      have hnew := heapAllocateUnlocked_ranged hexpand h ht
      split at he
      · cases he
        exact hnew
      · cases he
        refine heapFreeUnlocked_ranged ?_ p
        exact hnew

theorem kmalloc_ranged (h : Ranged P s) {size r : Nat}
    (he : kmalloc ops s size = some (r, s')) : Ranged P s' := by
  unfold kmalloc at he
  split at he
  · cases he
    exact h
  · exact heapAllocateUnlocked_ranged hexpand h he

theorem kcalloc_ranged (h : Ranged P s) {count size r : Nat}
    (he : kcalloc ops s count size = some (r, s')) : Ranged P s' := by
  unfold kcalloc at he
  split at he
  · cases he
    exact h
  split at he
  · cases he
    exact h
  split at he
  · cases he
  next t ht =>
    have hnew := kmalloc_ranged hexpand h ht
    split at he
    · cases he
      exact hnew
    · cases he
      exact hnew

theorem call_ranged {c c' : Client σ} (h : Ranged P c.heap) {l : Call}
    (he : call ops c l = some c') : Ranged P c'.heap := by
  cases l with
  | kmalloc size =>
    obtain ⟨-, he⟩ := Option.ite_none_right_eq_some.mp he
    obtain ⟨⟨r, t⟩, ht, rfl⟩ := Option.map_eq_some_iff.mp he
    exact kmalloc_ranged hexpand h ht
  | kcalloc count size =>
    obtain ⟨-, he⟩ := Option.ite_none_right_eq_some.mp he
    obtain ⟨⟨r, t⟩, ht, rfl⟩ := Option.map_eq_some_iff.mp he
    exact kcalloc_ranged hexpand h ht
  | krealloc p newSize =>
    obtain ⟨-, he⟩ := Option.ite_none_right_eq_some.mp he
    obtain ⟨⟨r, t⟩, ht, rfl⟩ := Option.map_eq_some_iff.mp he
    have hnew := heapReallocateUnlocked_ranged hexpand h ht
    dsimp only
    split
    · exact hnew
    · exact hnew
  | kfree p =>
    obtain ⟨-, he⟩ := Option.ite_none_right_eq_some.mp he
    cases he
    unfold kfree
    split
    · exact h
    · exact heapFreeUnlocked_ranged h p
  | write p offset value =>
    rw [call] at he
    split at he
    · cases he
    · obtain ⟨-, he⟩ := Option.ite_none_right_eq_some.mp he
      cases he
      exact h

end Range

/-! ## Mapping the pages of an expansion -/

variable {m : Machine} {start : Nat}

/-- The loop of `heap_map_pages` stops early only when the frames run out. -/
theorem mapFrom_window {left mapped : Nat} (h : Window m (start + mapped * pageSize))
    (hpages : Pages (start + mapped * pageSize) left) :
    ∃ fs, mapFrom machinePages start left mapped (some m) =
        (mapped + fs.length, some (entered m (start + mapped * pageSize) fs)) ∧
      Fresh m fs ∧ fs.length ≤ left ∧ (fs.length < left → freeFrames m.used = fs.length) ∧
      Window (entered m (start + mapped * pageSize) fs)
        (start + mapped * pageSize + fs.length * pageSize) := by
  induction left generalizing mapped m with
  | zero =>
    refine ⟨[], rfl, ⟨.nil, nofun⟩, Nat.le_refl 0, fun hlt => absurd hlt (Nat.lt_irrefl 0), ?_⟩
    rw [length_nil, Nat.zero_mul]
    exact h
  | succ left ih =>
    have hv := hpages.first
    rcases pmmAllocateFrame_cases m with ⟨hnone, hzero⟩ | ⟨f, hsome, hpos, hlt, hfree, hcount⟩
    · refine ⟨[], ?_, ⟨.nil, nofun⟩, Nat.zero_le _, fun _ => hzero, ?_⟩
      · have hframe : machinePages.allocateFrame (some m) = (0, some m) := by
          simp only [machinePages, hnone]
        rw [mapFrom, hframe]
        rfl
      · rw [length_nil, Nat.zero_mul]
        exact h
    · have hframe : machinePages.allocateFrame (some m) =
          (f * Paging.pageSize, some (m.markUsed f)) := by
        simp only [machinePages, hsome]
      have hmapped : machinePages.mapPage (some (m.markUsed f)) (start + mapped * pageSize)
          (f * Paging.pageSize) = (true, some (enter m (start + mapped * pageSize) f)) := by
        have hpage := (h.tables.markUsed f).mapPage hv (h.clear _ hv (Nat.le_refl _)) f
        simp only [machinePages, Option.bind_some, hpage]
        rfl
      have hnext : start + (mapped + 1) * pageSize = start + mapped * pageSize + pageSize := by
        rw [Nat.succ_mul, Nat.add_assoc]
      have hw := h.enter hpages.one f
      have hrest := hpages.next
      rw [← hnext] at hw hrest
      obtain ⟨fs, he, hfresh, hle, hfew, hwin⟩ := ih hw hrest
      have hunused : ∀ g ∈ fs, m.used g = false ∧ g ≠ f := by
        intro g hg
        have hg' : update m.used f true g = false := (hfresh.unused g hg).1
        have hne : g ≠ f := by
          intro hgf
          rw [hgf, update_self] at hg'
          cases hg'
        rw [update_of_ne hne] at hg'
        exact ⟨hg', hne⟩
      refine ⟨f :: fs, ?_, ⟨?_, ?_⟩, Nat.succ_le_succ hle, fun hless => ?_, ?_⟩
      · have hne : f * Paging.pageSize ≠ 0 := Nat.mul_ne_zero (Nat.ne_of_gt hpos) (by decide)
        simp only [mapFrom, hframe, if_neg hne, hmapped, if_true]
        rw [he, hnext, length_cons, entered, Nat.add_assoc mapped, Nat.add_comm 1]
      · exact nodup_cons.mpr ⟨fun hf => (hunused f hf).2 rfl, hfresh.nodup⟩
      · intro g hg
        rcases mem_cons.mp hg with rfl | hg
        · exact ⟨hfree, hpos, hlt⟩
        · exact ⟨(hunused g hg).1, (hfresh.unused g hg).2⟩
      · have hcount' := hfew (Nat.lt_of_succ_lt_succ hless)
        change freeFrames (m.markUsed f).used = fs.length at hcount'
        rw [length_cons]
        omega
      · rw [hnext] at hwin
        rw [entered, length_cons, Nat.succ_mul, Nat.add_comm (fs.length * pageSize),
          ← Nat.add_assoc]
        exact hwin

variable {n : Nat}

/-- `heap_map_pages` maps all the pages if there are enough frames, and else changes nothing. -/
theorem heapMapPages_window (h : Window m start) (hpages : Pages start n) :
    (n ≤ freeFrames m.used ∧ ∃ m', heapMapPages machinePages start n (some m) = (true, some m') ∧
        Window m' (start + n * pageSize)) ∨
      (freeFrames m.used < n ∧ heapMapPages machinePages start n (some m) = (false, some m)) := by
  have hstart : start + 0 * pageSize = start := by rw [Nat.zero_mul, Nat.add_zero]
  have hwindow : Window m (start + 0 * pageSize) := by rwa [hstart]
  obtain ⟨fs, he, hfresh, hle, hfew, hwin⟩ := mapFrom_window hwindow (by rwa [hstart])
  rw [hstart, Nat.zero_add] at he
  rw [hstart] at hwin
  rw [heapMapPages, he]
  by_cases hall : fs.length = n
  · left
    have hcount := entered_used (v := start) hfresh
    subst hall
    dsimp only
    rw [if_pos rfl]
    exact ⟨hcount ▸ Nat.le_add_left _ _, _, rfl, hwin⟩
  · right
    have hlt := Nat.lt_of_le_of_ne hle hall
    dsimp only
    rw [if_neg hall]
    refine ⟨by rw [hfew hlt]; exact hlt, ?_⟩
    have hentered : Pages start fs.length := by
      have hroom : fs.length * pageSize ≤ n * pageSize := Nat.mul_le_mul_right _ hle
      exact ⟨hpages.start, hpages.aligned, Nat.le_trans (Nat.add_le_add_left hroom start) hpages.room⟩
    have hback := rollback h.tables hentered hfresh fun i hi =>
      h.clear _ (hentered.page hi) (Nat.le_add_right _ _)
    exact congrArg (Prod.mk false) hback

/-! ## Expanding -/

/-- The pages `heap_expand` asks for. -/
def expansionPages (minimumPayload : Nat) : Nat :=
  max heapMinimumExpansion ((headerSize + minimumPayload + pageSize - 1) / pageSize)

/-- The addresses of the heap or the frames of the machine do not suffice. -/
def Exhausted (s : Heap (Option Machine)) (m : Machine) (minimumPayload : Nat) : Prop :=
  kernelHeapLimit < s.mappedEnd + expansionPages minimumPayload * pageSize ∨
    freeFrames m.used < expansionPages minimumPayload

variable {s : Heap (Option Machine)}

/-- The page count of `heap_expand`, where the size does not overflow. -/
theorem expansionPages_eq (h : headerSize + n ≤ sizeMax - (pageSize - 1)) :
    pagesForSize (headerSize + n) ≠ 0 ∧
      (if pagesForSize (headerSize + n) < heapMinimumExpansion then heapMinimumExpansion
        else pagesForSize (headerSize + n)) = expansionPages n := by
  have hpages : pagesForSize (headerSize + n) = (headerSize + n + pageSize - 1) / pageSize :=
    if_neg (Nat.not_lt.mpr h)
  rw [hpages, expansionPages]
  unfold headerSize pageSize heapMinimumExpansion
  refine ⟨by omega, ?_⟩
  split <;> omega

/-- Where it overflows, so does the heap. -/
theorem expansionPages_large (h : sizeMax - (pageSize - 1) < headerSize + n) (e : Nat) :
    kernelHeapLimit < e + expansionPages n * pageSize := by
  unfold sizeMax pageSize headerSize at h
  unfold expansionPages headerSize pageSize kernelHeapLimit heapMinimumExpansion
  omega

/-- An expansion that the addresses of the heap do not allow. -/
theorem heapExpand_limit {σ : Type} (ops : PageOps σ) {s : Heap σ}
    (h : kernelHeapLimit < s.mappedEnd + expansionPages n * pageSize) :
    heapExpand ops s n = (false, s) := by
  unfold heapExpand
  by_cases hmin : n > sizeMax - headerSize
  · rw [if_pos hmin]
  rw [if_neg hmin]
  dsimp only
  by_cases hbig : sizeMax - (pageSize - 1) < headerSize + n
  · rw [if_pos (show pagesForSize (headerSize + n) = 0 from if_pos hbig)]
  · obtain ⟨hne, hcount⟩ := expansionPages_eq (Nat.not_lt.mp hbig)
    rw [if_neg hne, hcount]
    split
    · rfl
    split
    · rfl
    · rw [if_pos (by omega)]

/-- One that they allow maps its pages. -/
theorem heapExpand_pages {σ : Type} (ops : PageOps σ) {s : Heap σ}
    (h : s.mappedEnd + expansionPages n * pageSize ≤ kernelHeapLimit) :
    ∃ t, heapExpand ops s n = ((heapMapPages ops s.mappedEnd (expansionPages n) s.pages).1, t) ∧
      t.pages = (heapMapPages ops s.mappedEnd (expansionPages n) s.pages).2 ∧
      ((heapMapPages ops s.mappedEnd (expansionPages n) s.pages).1 = false →
        t = { s with pages := t.pages }) ∧
      ((heapMapPages ops s.mappedEnd (expansionPages n) s.pages).1 = true →
        t.mappedEnd = s.mappedEnd + expansionPages n * pageSize) := by
  have hsmall : headerSize + n ≤ sizeMax - (pageSize - 1) :=
    Nat.not_lt.mp fun hbig => Nat.not_lt.mpr h (expansionPages_large hbig s.mappedEnd)
  have hmin : ¬n > sizeMax - headerSize := by
    unfold headerSize sizeMax pageSize at hsmall
    unfold headerSize sizeMax
    omega
  have hmax : ¬expansionPages n > sizeMax / pageSize := by
    unfold pageSize kernelHeapLimit at h
    unfold sizeMax pageSize
    omega
  obtain ⟨hne, hcount⟩ := expansionPages_eq hsmall
  unfold heapExpand
  rw [if_neg hmin]
  dsimp only
  rw [if_neg hne, hcount, if_neg hmax, if_neg (by omega), if_neg (by omega)]
  rcases heapMapPages ops s.mappedEnd (expansionPages n) s.pages with ⟨ok, p⟩
  cases ok with
  | false => exact ⟨_, rfl, rfl, fun _ => rfl, nofun⟩
  | true =>
    dsimp only
    split
    · exact ⟨_, rfl, rfl, nofun, fun _ => rfl⟩
    · split
      · exact ⟨_, rfl, rfl, nofun, fun _ => rfl⟩
      · exact ⟨_, rfl, rfl, nofun, fun _ => rfl⟩

/-- `heap_expand` fails exactly if the heap is exhausted, and changes nothing then. -/
theorem heapExpand_window (hp : s.pages = some m) (h : Window m s.mappedEnd) (n : Nat) :
    (Exhausted s m n ∧ heapExpand machinePages s n = (false, s)) ∨
      (¬Exhausted s m n ∧ ∃ s' m', heapExpand machinePages s n = (true, s') ∧
        s'.pages = some m' ∧ Window m' s'.mappedEnd) := by
  by_cases hlimit : kernelHeapLimit < s.mappedEnd + expansionPages n * pageSize
  · exact .inl ⟨.inl hlimit, heapExpand_limit machinePages hlimit⟩
  · have hroom := Nat.not_lt.mp hlimit
    obtain ⟨t, he, hpages, hfailed, hdone⟩ := heapExpand_pages machinePages hroom
    rw [hp] at he hpages hfailed hdone
    rcases heapMapPages_window h ⟨h.range.start, h.range.aligned, hroom⟩ with
      ⟨hmany, m', hmap, hwin⟩ | ⟨hfew, hmap⟩
    · rw [hmap] at he hpages hdone
      refine .inr ⟨?_, t, m', he, hpages, ?_⟩
      · exact not_or.mpr ⟨hlimit, Nat.not_lt.mpr hmany⟩
      · rw [hdone rfl]
        exact hwin
    · rw [hmap] at he hpages hfailed
      have hsame : t = s := by
        rw [hfailed rfl, hpages, ← hp]
      rw [hsame] at he
      exact .inl ⟨.inr hfew, he⟩

/-! ## Runs -/

/-- A call of the heap, or anything else the kernel does to its machine. -/
inductive Action
  | call (l : Call)
  | others (m : Machine)

def Action.step (c : Client (Option Machine)) : Action → Option (Client (Option Machine))
  | .call l => Memory.call machinePages c l
  | .others m => some { c with heap := { c.heap with pages := some m } }

/-- The rest of the kernel keeps off the tables of the heap. -/
def Action.Allowed (c : Client (Option Machine)) : Action → Prop
  | .call _ => True
  | .others m' => ∃ m, c.heap.pages = some m ∧ Elsewhere m m'

/-- The paging state behind a heap that ends at `mappedEnd`. -/
def Backed (p : Option Machine) (mappedEnd : Nat) : Prop := ∃ m, p = some m ∧ Window m mappedEnd

theorem heapExpand_backed : ExpandKeeps machinePages Backed := by
  intro s n ⟨m, hp, h⟩
  rcases heapExpand_window hp h n with ⟨-, he⟩ | ⟨-, s', m', he, hp', h'⟩
  · rw [he]
    exact ⟨m, hp, h⟩
  · rw [he]
    exact ⟨m', hp', h'⟩

/-- The loop of `heap_initialize` over the regions. -/
theorem ensureTables_bare : ∀ {regions : List Nat} {d : Nat} {m : Machine}, Bare m d →
    (∀ i v, regions[i]? = some v → HeapRegion (d + i) ∧ pageDirectoryIndex v = d + i) →
    ∀ {p : Option Machine}, ensureTables machinePages regions (some m) = (true, p) →
      ∃ m', p = some m' ∧ Bare m' (d + regions.length)
  | [], d, m, h, _, p, he => ⟨m, (Prod.mk.inj he).2.symm, h⟩
  | v :: regions, d, m, h, hregions, p, he => by
    obtain ⟨hd, hv⟩ := hregions 0 v rfl
    obtain ⟨ok, m', hensure, hnext⟩ := h.ensure hd hv
    have hstep : machinePages.ensureTable (some m) v = (ok, some m') := by
      simp only [machinePages, Option.bind_some, hensure]
    rw [ensureTables, hstep] at he
    cases ok with
    | false => cases he
    | true =>
      have hrest : ∀ i w, regions[i]? = some w →
          HeapRegion (d + 1 + i) ∧ pageDirectoryIndex w = d + 1 + i := by
        intro i w hw
        have hshift := hregions (i + 1) w hw
        rwa [Nat.add_comm i 1, ← Nat.add_assoc] at hshift
      obtain ⟨m'', hp, hbare⟩ := ensureTables_bare (hnext rfl) hrest he
      refine ⟨m'', hp, ?_⟩
      rwa [length_cons, Nat.add_comm regions.length 1, ← Nat.add_assoc]

theorem heapRegions_spec {i v : Nat} (h : heapRegions[i]? = some v) :
    HeapRegion (832 + i) ∧ pageDirectoryIndex v = 832 + i := by
  rw [heapRegions, getElem?_map] at h
  obtain ⟨j, hj, rfl⟩ := Option.map_eq_some_iff.mp h
  obtain ⟨hlt, rfl⟩ := List.getElem?_eq_some_iff.mp hj
  rw [length_range] at hlt
  rw [getElem_range]
  unfold kernelHeapLimit kernelHeapStart pageSize at hlt
  unfold HeapRegion pageDirectoryIndex kernelHeapStart pageSize
  omega

/-- A successful `heap_initialize` leaves the window of an empty heap. -/
theorem heapInitialize_backed (hs : s.initialized = false) (hp : s.pages = some m)
    (hbare : Bare m 832) (hi : (heapInitialize machinePages s).initialized = true) :
    Ranged Backed (heapInitialize machinePages s) := by
  unfold heapInitialize at hi ⊢
  rw [if_neg (by simp [hs])] at hi ⊢
  dsimp only at hi ⊢
  rw [hp] at hi ⊢
  split at hi
  next p he => exact absurd (hs.symm.trans hi) (by simp)
  next p he =>
    obtain ⟨m', rfl, hall⟩ := ensureTables_bare hbare (fun _ _ => heapRegions_spec) he
    have hpages : Pages kernelHeapStart heapInitialPages := by
      refine ⟨Nat.le_refl _, by decide, by decide⟩
    rcases heapMapPages_window hall.window hpages with ⟨-, m'', hmap, hwin⟩ | ⟨-, hmap⟩
    · rw [hmap]
      exact ⟨m'', rfl, hwin⟩
    · rw [hmap] at hi
      exact absurd (hs.symm.trans hi) (by simp)

/-- The heap and its pages, after any calls and whatever else the kernel did. -/
theorem run_backed (hs : s.initialized = false) (hp : s.pages = some m) (hbare : Bare m 832)
    (hi : (heapInitialize machinePages s).initialized = true) {as : List Action}
    {c : Client (Option Machine)}
    (hr : RunWhere Action.step Action.Allowed
      { heap := heapInitialize machinePages s, live := fun _ => none } as c) :
    (∃ bs, HeapInv c bs) ∧ Ranged Backed c.heap := by
  refine RunWhere.invariant (I := fun c => (∃ bs, HeapInv c bs) ∧ Ranged Backed c.heap) hr
    ⟨⟨_, heapInitialize_layout machinePages hs hi, fun _ _ hp => absurd hp (by simp)⟩,
      heapInitialize_backed hs hp hbare hi⟩ ?_
  intro c a c' ⟨⟨bs, hinv⟩, hbacked⟩ hok hstep
  cases a with
  | call l =>
    refine ⟨?_, call_ranged heapExpand_backed hbacked hstep⟩
    obtain ⟨c'', he, bs', hinv', -⟩ := call_inv machinePages hinv (allowed_of_call _ hstep)
    obtain rfl := Option.some.inj (he.symm.trans hstep)
    exact ⟨bs', hinv'⟩
  | others m' =>
    obtain ⟨m, hm, helsewhere⟩ := hok
    obtain ⟨m0, hm0, hwin⟩ := hbacked
    obtain rfl := Option.some.inj (hm.symm.trans hm0)
    cases hstep
    exact ⟨⟨bs, { hinv.layout with }, hinv.owned⟩, m', rfl, hwin.elsewhere helsewhere⟩

/-- What `kmalloc` of `size` and the expansion it may ask for do to a heap. -/
structure Answers (s : Heap (Option Machine)) (bs : List Block) (m : Machine) (size : Nat) :
    Prop where
  /-- `NULL` only for a size that is zero or overflows when rounded, or where there is no room
  and the heap cannot grow; nothing has changed then. -/
  null : ∃ r s', kmalloc machinePages s size = some (r, s') ∧
    (r = 0 ↔ size = 0 ∨ sizeMax < size + (heapAlignment - 1) ∨
      (NoRoom bs (alignUpSize size heapAlignment) ∧
        Exhausted s m (alignUpSize size heapAlignment))) ∧ (r = 0 → s' = s)
  /-- The second search finds a block. -/
  found : ∀ n s', heapExpand machinePages s n = (true, s') →
    ∃ block, heapFindFreeBlock s'.mem n s'.mappedEnd s'.firstBlock = some block ∧ block ≠ 0
  /-- A failed expansion has given back every frame and unmapped every page it mapped. -/
  undone : ∀ n s', heapExpand machinePages s n = (false, s') → s' = s

/-- At any time after `heap_initialize`, for every size. -/
theorem run_answers (hs : s.initialized = false) (hp : s.pages = some m) (hbare : Bare m 832)
    (hi : (heapInitialize machinePages s).initialized = true) {as : List Action}
    {c : Client (Option Machine)}
    (hr : RunWhere Action.step Action.Allowed
      { heap := heapInitialize machinePages s, live := fun _ => none } as c) (size : Nat) :
    ∃ bs m', HeapSound c bs ∧ c.heap.pages = some m' ∧ Answers c.heap bs m' size := by
  obtain ⟨⟨bs, hinv⟩, m', hm', hwin⟩ := run_backed hs hp hbare hi hr
  have hundone : ∀ n s', heapExpand machinePages c.heap n = (false, s') → s' = c.heap := by
    intro n s' he
    rcases heapExpand_window hm' hwin n with ⟨-, hfailed⟩ | ⟨-, t, m'', hdone, -⟩
    · exact (Prod.mk.inj (he.symm.trans hfailed)).2
    · cases he.symm.trans hdone
  refine ⟨bs, m', hinv.sound, hm', ?_, ?_, hundone⟩
  · obtain ⟨r, t, he, hnull, hsame⟩ := hinv.layout.allocate_iff machinePages size
    have hfailed : ∀ n, (heapExpand machinePages c.heap n).1 = false ↔ Exhausted c.heap m' n := by
      intro n
      rcases heapExpand_window hm' hwin n with ⟨hex, hfalse⟩ | ⟨hnot, t, m'', htrue, -⟩
      · rw [hfalse]
        exact ⟨fun _ => hex, fun _ => rfl⟩
      · rw [htrue]
        exact ⟨nofun, fun hex => absurd hex hnot⟩
    have hround : size = 0 ∨ alignUpSize size heapAlignment = 0 ↔
        size = 0 ∨ sizeMax < size + (heapAlignment - 1) := by
      unfold alignUpSize heapAlignment sizeMax
      split <;> omega
    refine ⟨r, t, he, ?_, fun hz => ?_⟩
    · rw [hnull, ← or_assoc, hround, or_assoc, hfailed]
    · rcases hsame hz with rfl | hexpand
      · rfl
      · exact hundone _ _ hexpand
  · intro n s' he
    obtain ⟨bs', hl, hnot⟩ := hinv.layout.expand_room machinePages he
    obtain ⟨block, hfind, hroom, -⟩ := hl.find_iff n
    exact ⟨block, hfind, fun hz => hnot (hroom.mp hz)⟩

/-- A machine whose page tables for the heap are in the frames from 2 on, and empty. -/
def tabled : Machine where
  mem frame i :=
    if frame ≠ 1 then 0#32
    else if 832 ≤ i ∧ i < 896 then entryFor ((i - 830) * Paging.pageSize) (pagePresent ||| pageWritable)
    else if i = recursiveDirectoryIndex then entryFor Paging.pageSize (pagePresent ||| pageWritable)
    else 0#32
  used frame := decide (frame < 66)
  cr3 := Paging.pageSize
  kernelDirectory := Paging.pageSize

/-- The heap before its initialisation. -/
def tabledHeap : Heap (Option Machine) :=
  { mem := fun _ => 0, firstBlock := 0, lastBlock := 0, mappedEnd := 0, initialized := false
    pages := some tabled }

theorem tabled_entry {d : Nat} (hd : d < 1023) :
    tabled.mem 1 d =
      if 832 ≤ d ∧ d < 896 then entryFor ((d - 830) * Paging.pageSize) (pagePresent ||| pageWritable)
      else 0#32 := by
  show (if (1 : Nat) ≠ 1 then 0#32 else if 832 ≤ d ∧ d < 896 then _ else
    if d = recursiveDirectoryIndex then _ else 0#32) = _
  rw [if_neg (by decide), if_neg (show ¬d = recursiveDirectoryIndex from Nat.ne_of_lt hd)]

/-- The entries below the window are those of the heap. -/
theorem tabled_present {d : Nat} (hd : d < 1023) (hp : (tabled.mem 1 d).has pagePresent = true) :
    HeapRegion d ∧ frameOf (tabled.mem 1 d) = d - 830 ∧
      (tabled.mem 1 d).has pageWritable = true := by
  rw [tabled_entry hd] at hp ⊢
  by_cases hregion : 832 ≤ d ∧ d < 896
  · rw [if_pos hregion, entryFor_has _ _ (by decide)]
    exact ⟨hregion, frameOf_entryFor (by omega) (by decide), by decide⟩
  · rw [if_neg hregion, zero_not_present] at hp
    cases hp

theorem tabled_bare : Bare tabled 832 := by
  have hdirectory : tabled.directory = 1 := rfl
  have hempty : ∀ d, d < 1023 → (tabled.mem 1 d).has pagePresent = true → ∀ t,
      tabled.mem (frameOf (tabled.mem 1 d)) t = 0#32 := by
    intro d hd hp t
    obtain ⟨⟨hlo, hhi⟩, hframe, -⟩ := tabled_present hd hp
    have hne : d - 830 ≠ 1 := by omega
    rw [hframe]
    generalize d - 830 = frame at hne
    exact if_pos hne
  have hok : DirectoryOk tabled 1 := by
    refine
      { range := by decide
        dirUsed := rfl
        recursive := by decide
        tableRange := ?_
        tableUsed := ?_
        tableNe := ?_
        distinct := ?_ }
    · intro d hd hp
      obtain ⟨⟨hlo, hhi⟩, hframe, -⟩ := tabled_present hd hp
      rw [hframe, frameCount]
      omega
    · intro d hd hp
      obtain ⟨⟨hlo, hhi⟩, hframe, -⟩ := tabled_present hd hp
      have hlt : d - 830 < 66 := by omega
      rw [hframe]
      generalize d - 830 = frame at hlt
      exact decide_eq_true hlt
    · intro d hd hp
      obtain ⟨⟨hlo, hhi⟩, hframe, -⟩ := tabled_present hd hp
      rw [hframe]
      omega
    · intro d e hd he hp hp' hf
      obtain ⟨⟨hlo, hhi⟩, hframe, -⟩ := tabled_present hd hp
      obtain ⟨⟨hlo', hhi'⟩, hframe', -⟩ := tabled_present he hp'
      rw [hframe, hframe'] at hf
      omega
  refine ⟨⟨hdirectory, hok, fun d hd hp => (tabled_present hd hp).2.2, ?_⟩, ?_, ?_⟩
  · intro d t hd ht hp hpt
    rw [hdirectory] at hp hpt
    rw [hempty d hd hp, zero_not_present] at hpt
    cases hpt
  · intro d hd hlt
    exact absurd hd.1 (Nat.not_le.mpr hlt)
  · intro d t hd hp
    exact hempty d (Nat.lt_trans hd.2 (by decide)) hp t

/-- After a small allocation, a large one. -/
theorem run_answers_tabled : ∃ c bs m,
    RunWhere Action.step Action.Allowed
      { heap := heapInitialize machinePages tabledHeap, live := fun _ => none }
      [.call (.kmalloc 100)] c ∧
    HeapSound c bs ∧ c.heap.pages = some m ∧ Answers c.heap bs m 40000 := by
  have hsome : (Action.step { heap := heapInitialize machinePages tabledHeap, live := fun _ => none }
      (.call (.kmalloc 100))).isSome := by decide +kernel
  obtain ⟨c, hc⟩ := Option.isSome_iff_exists.mp hsome
  have hr : RunWhere Action.step Action.Allowed
      { heap := heapInitialize machinePages tabledHeap, live := fun _ => none }
      [.call (.kmalloc 100)] c := .snoc .nil trivial hc
  obtain ⟨bs, m, hsound, hm, hanswers⟩ :=
    run_answers (s := tabledHeap) rfl rfl tabled_bare (by decide +kernel) hr 40000
  exact ⟨c, bs, m, hr, hsound, hm, hanswers⟩

end MeatySkeleton.Memory
