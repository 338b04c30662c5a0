import MeatySkeleton.Memory.Heap

/-!
# The heap as a row of blocks

`Block` is what a header says about its block; `Blocks m prev a nxt bs` says that
the headers of the row `bs` lie in memory one behind the other from address `a`
on, each pointing back to the one before and forward to the one behind. The
addresses of a row follow from its sizes (`endOf`, `placed`), so a row that spans
the mapped heap tiles it.

`Layout` is the state of the heap module read this way. Every function of
`heap.c` that writes a header is an edit of the row: a block is cut in two, two
neighbours become one, a flag changes, the row grows at its end. One lemma each
says so, and nothing above this module looks at a header again.
-/

namespace MeatySkeleton.Memory

open List Lib

/-! ## Headers in memory -/

section header

variable {m m' : Mem} {b c v lo hi : Nat}

theorem header_congr (h : ∀ i < 17, m' (c + i) = m (c + i)) : header m' c = header m c := by
  have h16 : m' (c + 16) = m (c + 16) := h 16 (by omega)
  have hword : ∀ d ≤ 12, get32 m' (c + d) = get32 m (c + d) := fun d hd =>
    get32_congr fun i hi => by rw [Nat.add_assoc]; exact h _ (by omega)
  have h0 : get32 m' c = get32 m c := hword 0 (by omega)
  unfold header
  rw [h16, h0, hword 4 (by omega), hword 8 (by omega), hword 12 (by omega)]

theorem header_within (hw : Within m m' lo hi) (hd : c + 32 ≤ lo ∨ hi ≤ c) :
    header m' c = header m c :=
  header_congr fun _ _ => hw _ (by omega)

theorem setSize_within (m : Mem) (b v : Nat) : Within m (setSize m b v) b (b + 32) :=
  (put32_within m b v).mono (by omega) (by omega)

theorem setPrevious_within (m : Mem) (b v : Nat) : Within m (setPrevious m b v) b (b + 32) :=
  (put32_within m (b + 4) v).mono (by omega) (by omega)

theorem setNext_within (m : Mem) (b v : Nat) : Within m (setNext m b v) b (b + 32) :=
  (put32_within m (b + 8) v).mono (by omega) (by omega)

theorem setMagic_within (m : Mem) (b v : Nat) : Within m (setMagic m b v) b (b + 32) :=
  (put32_within m (b + 12) v).mono (by omega) (by omega)

theorem setFree_within (m : Mem) (b : Nat) (v : Bool) : Within m (setFree m b v) b (b + 32) :=
  (put8_within m (b + 16) _).mono (by omega) (by omega)

/-- A word written inside a header is seen by its field and by no other. -/
theorem get32_put32_ne {x y : Nat} (h : x + 4 ≤ y ∨ y + 4 ≤ x) :
    get32 (put32 m y v) x = get32 m x :=
  (put32_within m y v).get32 (by omega)

theorem put32_ne {x y : Nat} (h : x < y ∨ y + 4 ≤ x) : put32 m y v x = m x :=
  put32_within m y v x h

@[simp] theorem header_setSize : header (setSize m b v) b = { header m b with size := u32 v } := by
  simp (disch := omega) [header, setSize, get32_put32_ne, put32_ne, u32]

@[simp] theorem header_setPrevious :
    header (setPrevious m b v) b = { header m b with previous := u32 v } := by
  simp (disch := omega) [header, setPrevious, get32_put32_ne, put32_ne, u32]

@[simp] theorem header_setNext : header (setNext m b v) b = { header m b with next := u32 v } := by
  simp (disch := omega) [header, setNext, get32_put32_ne, put32_ne, u32]

@[simp] theorem header_setMagic :
    header (setMagic m b v) b = { header m b with magic := u32 v } := by
  simp (disch := omega) [header, setMagic, get32_put32_ne, put32_ne, u32]

@[simp] theorem header_setFree (v : Bool) :
    header (setFree m b v) b = { header m b with free := v } := by
  have hw := put8_within m (b + 16) (if v then 1 else 0)
  unfold header setFree
  rw [hw.get32 (by omega), hw.get32 (by omega), hw.get32 (by omega), hw.get32 (by omega), put8_self]
  cases v <;> rfl

theorem header_setSize_ne (h : c + 32 ≤ b ∨ b + 32 ≤ c) : header (setSize m b v) c = header m c :=
  header_within (setSize_within m b v) h

theorem header_setPrevious_ne (h : c + 32 ≤ b ∨ b + 32 ≤ c) :
    header (setPrevious m b v) c = header m c :=
  header_within (setPrevious_within m b v) h

end header

/-! ## Rows of blocks -/

structure Block where
  size : Nat
  free : Bool
  deriving DecidableEq

/-- The address behind a row that starts at `a`. -/
def endOf (a : Nat) : List Block → Nat
  | [] => a
  | b :: bs => endOf (a + 32 + b.size) bs

/-- The address of the last block of a row, `prev` for an empty one. -/
def lastOf (prev a : Nat) : List Block → Nat
  | [] => prev
  | b :: bs => lastOf a (a + 32 + b.size) bs

/-- The blocks of a row with their addresses. -/
def placed (a : Nat) : List Block → List (Nat × Block)
  | [] => []
  | b :: bs => (a, b) :: placed (a + 32 + b.size) bs

/-- What a block that is followed by the row `bs` at `a` points forward to. -/
def follower (nxt a : Nat) : List Block → Nat
  | [] => nxt
  | _ :: _ => a

/-- The headers of the row `bs` from address `a` on, between `prev` and `nxt`. -/
def Blocks (m : Mem) (nxt : Nat) : Nat → Nat → List Block → Prop
  | _, _, [] => True
  | prev, a, b :: bs =>
    header m a = { size := b.size, previous := prev, next := follower nxt (a + 32 + b.size) bs,
                   magic := heapBlockMagic, free := b.free } ∧
      Blocks m nxt a (a + 32 + b.size) bs

variable {m m' : Mem} {prev a nxt lo hi : Nat} {b : Block} {bs xs ys : List Block}

theorem endOf_append : ∀ (a : Nat) (xs ys : List Block), endOf a (xs ++ ys) = endOf (endOf a xs) ys
  | _, [], _ => rfl
  | a, b :: xs, ys => endOf_append (a + 32 + b.size) xs ys

theorem le_endOf : ∀ (a : Nat) (bs : List Block), a ≤ endOf a bs
  | _, [] => Nat.le_refl _
  | a, b :: bs => Nat.le_trans (by omega) (le_endOf (a + 32 + b.size) bs)

theorem length_le_endOf : ∀ (a : Nat) (bs : List Block), a + 32 * bs.length ≤ endOf a bs
  | _, [] => Nat.le_refl _
  | a, b :: bs => by
    have := length_le_endOf (a + 32 + b.size) bs
    rw [length_cons, endOf]
    omega

theorem lastOf_append : ∀ (prev a : Nat) (xs ys : List Block),
    lastOf prev a (xs ++ ys) = lastOf (lastOf prev a xs) (endOf a xs) ys
  | _, _, [], _ => rfl
  | _, a, b :: xs, ys => lastOf_append a (a + 32 + b.size) xs ys

theorem placed_append : ∀ (a : Nat) (xs ys : List Block),
    placed a (xs ++ ys) = placed a xs ++ placed (endOf a xs) ys
  | _, [], _ => rfl
  | a, b :: xs, ys => congrArg _ (placed_append (a + 32 + b.size) xs ys)

theorem mem_placed {c : Nat} : ∀ {a : Nat} {bs : List Block},
    (c, b) ∈ placed a bs ↔ ∃ xs ys, bs = xs ++ b :: ys ∧ c = endOf a xs
  | a, [] => by simp [placed]
  | a, d :: bs => by
    rw [placed, mem_cons, mem_placed]
    constructor
    · rintro (h | ⟨xs, ys, rfl, rfl⟩)
      · obtain ⟨rfl, rfl⟩ := Prod.mk.inj h
        exact ⟨[], bs, rfl, rfl⟩
      · exact ⟨d :: xs, ys, rfl, rfl⟩
    · rintro ⟨_ | ⟨d', xs⟩, ys, h, rfl⟩
      · obtain ⟨rfl, -⟩ := List.cons.inj h
        exact .inl rfl
      · obtain ⟨rfl, rfl⟩ := List.cons.inj h
        exact .inr ⟨xs, ys, rfl, rfl⟩

theorem placed_range {c : Nat} (h : (c, b) ∈ placed a bs) :
    a ≤ c ∧ c + 32 + b.size ≤ endOf a bs := by
  obtain ⟨xs, ys, rfl, rfl⟩ := mem_placed.mp h
  refine ⟨le_endOf a xs, ?_⟩
  rw [endOf_append]
  exact le_endOf _ ys

/-- Two blocks of a row do not overlap. -/
theorem placed_disjoint {c c' : Nat} {b b' : Block} : ∀ {a : Nat} {bs : List Block},
    (c, b) ∈ placed a bs → (c', b') ∈ placed a bs →
      (c = c' ∧ b = b') ∨ c + 32 + b.size ≤ c' ∨ c' + 32 + b'.size ≤ c
  | _, [], h, _ => by simp [placed] at h
  | a, d :: bs, h, h' => by
    rw [placed, mem_cons] at h h'
    rcases h with h | h <;> rcases h' with h' | h'
    · obtain ⟨rfl, rfl⟩ := Prod.mk.inj h
      obtain ⟨rfl, rfl⟩ := Prod.mk.inj h'
      exact .inl ⟨rfl, rfl⟩
    · obtain ⟨rfl, rfl⟩ := Prod.mk.inj h
      exact .inr (.inl (placed_range h').1)
    · obtain ⟨rfl, rfl⟩ := Prod.mk.inj h'
      exact .inr (.inr (placed_range h).1)
    · exact placed_disjoint h h'

theorem blocks_append : ∀ (prev a : Nat) (xs ys : List Block),
    Blocks m nxt prev a (xs ++ ys) ↔
      Blocks m (follower nxt (endOf a xs) ys) prev a xs ∧
        Blocks m nxt (lastOf prev a xs) (endOf a xs) ys
  | _, _, [], _ => by simp [Blocks, lastOf, endOf]
  | _, a, b :: xs, ys => by
    have hf : follower nxt (a + 32 + b.size) (xs ++ ys) =
        follower (follower nxt (endOf (a + 32 + b.size) xs) ys) (a + 32 + b.size) xs := by
      cases xs with
      | nil => cases ys <;> rfl
      | cons d xs => rfl
    rw [cons_append, Blocks, Blocks, blocks_append, hf, and_assoc]
    rfl

/-- Writes outside a row do not touch it. -/
theorem Blocks.within (hw : Within m m' lo hi) : ∀ {prev a : Nat} {bs : List Block},
    Blocks m nxt prev a bs → endOf a bs ≤ lo ∨ hi ≤ a → Blocks m' nxt prev a bs
  | _, _, [], _, _ => trivial
  | prev, a, b :: bs, h, hd => by
    have hle := le_endOf (a + 32 + b.size) bs
    rw [endOf] at hd
    refine ⟨(header_within hw ?_).trans h.1, Blocks.within hw h.2 ?_⟩
    · omega
    · omega

/-- The row behind an edit gets a new predecessor. -/
theorem Blocks.retarget {prev' : Nat} (h : Blocks m nxt prev a bs)
    (hprev : prev' < 2 ^ 32) (hne : bs ≠ []) :
    Blocks (setPrevious m a prev') nxt prev' a bs := by
  cases bs with
  | nil => exact absurd rfl hne
  | cons b bs =>
    refine ⟨?_, h.2.within (setPrevious_within m a prev') (.inr (by omega))⟩
    rw [header_setPrevious, h.1, u32, Nat.mod_eq_of_lt hprev]

/-! ## The heap state as a row -/

variable {σ : Type} {s : Heap σ}

/-- The heap holds the row `bs`, which tiles the mapped range. -/
structure Layout (s : Heap σ) (bs : List Block) : Prop where
  initialized : s.initialized = true
  links : Blocks s.mem 0 0 kernelHeapStart bs
  nonempty : bs ≠ []
  first : s.firstBlock = kernelHeapStart
  last : s.lastBlock = lastOf 0 kernelHeapStart bs
  tiles : endOf kernelHeapStart bs = s.mappedEnd
  limit : s.mappedEnd ≤ kernelHeapLimit
  aligned : ∀ b ∈ bs, b.size % 16 = 0

/-- Where the block between `xs` and `ys` lies, in numbers. -/
theorem Layout.range (h : Layout s (xs ++ b :: ys)) :
    0xD0000000 ≤ endOf kernelHeapStart xs ∧
      endOf kernelHeapStart xs + 32 + b.size ≤ s.mappedEnd ∧ s.mappedEnd ≤ 0xE0000000 := by
  have ht := h.tiles
  rw [endOf_append, endOf] at ht
  exact ⟨le_endOf kernelHeapStart xs, ht ▸ le_endOf _ ys, h.limit⟩

theorem Layout.header_at (h : Layout s (xs ++ b :: ys)) :
    header s.mem (endOf kernelHeapStart xs) =
      { size := b.size, previous := lastOf 0 kernelHeapStart xs
        next := follower 0 (endOf kernelHeapStart xs + 32 + b.size) ys
        magic := heapBlockMagic, free := b.free } :=
  ((blocks_append _ _ _ _).mp h.links).2.1

theorem u32_of_lt {x : Nat} (h : x < 2 ^ 32) : u32 x = x := Nat.mod_eq_of_lt h

/-- A stretch of the row is laid out anew, in the same range. -/
theorem Layout.replace {old new : List Block} (h : Layout s (xs ++ (old ++ ys))) {last : Nat}
    (hne : new ≠ [])
    (hspan : endOf (endOf kernelHeapStart xs) new = endOf (endOf kernelHeapStart xs) old)
    (haligned : ∀ b ∈ new, b.size % 16 = 0)
    (hxs : Blocks m' (endOf kernelHeapStart xs) 0 kernelHeapStart xs)
    (hnew : Blocks m' (follower 0 (endOf (endOf kernelHeapStart xs) new) ys)
      (lastOf 0 kernelHeapStart xs) (endOf kernelHeapStart xs) new)
    (hys : Blocks m' 0 (lastOf (lastOf 0 kernelHeapStart xs) (endOf kernelHeapStart xs) new)
      (endOf (endOf kernelHeapStart xs) new) ys)
    (hlast : last = lastOf 0 kernelHeapStart (xs ++ (new ++ ys))) :
    Layout { s with mem := m', lastBlock := last } (xs ++ (new ++ ys)) where
  initialized := h.initialized
  links := by
    have hf : follower 0 (endOf kernelHeapStart xs) (new ++ ys) = endOf kernelHeapStart xs := by
      cases new with
      | nil => exact absurd rfl hne
      | cons b bs => rfl
    rw [blocks_append, blocks_append, hf]
    exact ⟨hxs, hnew, hys⟩
  nonempty := by simp [hne]
  first := h.first
  last := hlast
  tiles := by
    have ht := h.tiles
    rw [endOf_append, endOf_append] at ht ⊢
    rw [hspan]
    exact ht
  limit := h.limit
  aligned d hd := by
    rcases mem_append.mp hd with hd | hd
    · exact h.aligned d (mem_append_left _ hd)
    · rcases mem_append.mp hd with hd | hd
      · exact haligned d hd
      · exact h.aligned d (mem_append_right _ (mem_append_right _ hd))

/-- `heap_split_block` keeps the block, or cuts a free block off its end. -/
theorem Layout.split (h : Layout s (xs ++ b :: ys)) {requested : Nat} (hr : requested ≤ b.size)
    (hra : requested % 16 = 0) :
    ∃ cut rest, Layout (heapSplitBlock s (endOf kernelHeapStart xs) requested)
        (xs ++ { b with size := cut } :: (rest ++ ys)) ∧
      ((cut = b.size ∧ rest = [] ∧ b.size < requested + 48) ∨
        (cut = requested ∧ requested + 48 ≤ b.size ∧
          rest = [{ size := b.size - requested - 32, free := true }])) := by
  obtain ⟨hlo, hend, hhi⟩ := h.range
  have hA := h.header_at
  have hba := h.aligned b (by simp)
  obtain ⟨hxs, -, hys⟩ := (blocks_append _ _ _ _).mp h.links
  have hfx : follower 0 (endOf kernelHeapStart xs) (b :: ys) = endOf kernelHeapStart xs := rfl
  rw [hfx] at hxs
  generalize hAdef : endOf kernelHeapStart xs = A at *
  unfold heapSplitBlock
  simp only [hA, headerSize, heapMinimumPayload, heapAlignment]
  rw [if_neg (by omega)]
  by_cases hsmall : b.size - requested < 32 + 16
  · rw [if_pos hsmall]
    exact ⟨b.size, [], h, .inl ⟨rfl, rfl, by omega⟩⟩
  rw [if_neg hsmall, u32_of_lt (x := A + 32 + requested) (by omega)]
  refine ⟨requested, [{ size := b.size - requested - 32, free := true }], ?_,
    .inr ⟨rfl, by omega, rfl⟩⟩
  -- the new header, before anything points to it
  generalize hm2 : setPrevious (setSize s.mem (A + 32 + requested) (b.size - requested - 32))
    (A + 32 + requested) A = m2
  have hA2 : header m2 A = header s.mem A := by
    subst hm2
    rw [header_setPrevious_ne (by omega), header_setSize_ne (by omega)]
  generalize hm5 : setFree (setMagic (setNext m2 (A + 32 + requested) (header m2 A).next)
    (A + 32 + requested) heapBlockMagic) (A + 32 + requested) true = m5
  have hnext : follower 0 (A + 32 + b.size) ys < 2 ^ 32 := by
    cases ys with
    | nil => exact Nat.pow_pos (by decide)
    | cons y ys => simp only [follower]; omega
  have hN : header m5 (A + 32 + requested) =
      { size := b.size - requested - 32, previous := A, next := follower 0 (A + 32 + b.size) ys
        magic := heapBlockMagic, free := true } := by
    subst hm5 hm2
    rw [header_setFree, header_setMagic, header_setNext, header_setPrevious, header_setSize, hA2,
      hA, u32_of_lt hnext, u32_of_lt (x := A) (by omega),
      u32_of_lt (x := b.size - requested - 32) (by omega), u32_of_lt (x := heapBlockMagic) (by decide)]
  have hw5 : Within s.mem m5 (A + 32 + requested) (A + 32 + requested + 32) := by
    subst hm5 hm2
    exact (((((setSize_within _ _ _).trans (setPrevious_within _ _ _)).trans
      (setNext_within _ _ _)).trans (setMagic_within _ _ _)).trans (setFree_within _ _ _))
  -- then the header of the block itself
  have hfinal : ∀ m6 last', Within s.mem m6 (A + 32) (A + 32 + b.size + 32) →
      header m6 (A + 32 + requested) = header m5 (A + 32 + requested) →
      Blocks m6 0 (A + 32 + requested) (A + 32 + b.size) ys →
      last' = lastOf 0 kernelHeapStart
        (xs ++ { b with size := requested } ::
          ([{ size := b.size - requested - 32, free := true }] ++ ys)) →
      Layout { s with
          mem := setNext (setSize m6 A requested) A (A + 32 + requested)
          lastBlock := last' }
        (xs ++ { b with size := requested } ::
          ([{ size := b.size - requested - 32, free := true }] ++ ys)) := by
    intro m6 last' hw6 hN6 hys6 hlast
    have hw8 : Within m6 (setNext (setSize m6 A requested) A (A + 32 + requested)) A (A + 32) :=
      (setSize_within _ _ _).trans (setNext_within _ _ _)
    have hspan : A + 32 + requested + 32 + (b.size - requested - 32) = A + 32 + b.size := by omega
    have h' : Layout s (xs ++ ([b] ++ ys)) := h
    show Layout _ (xs ++ ([{ b with size := requested },
      { size := b.size - requested - 32, free := true }] ++ ys))
    refine h'.replace (by simp) ?_ ?_ ?_ ?_ ?_ hlast
    · rw [hAdef]
      exact hspan
    · intro d hd
      simp only [mem_cons, not_mem_nil, or_false] at hd
      rcases hd with rfl | rfl
      · exact hra
      · dsimp only
        omega
    · rw [hAdef]
      exact (hxs.within hw6 (.inl (by omega))).within hw8 (.inl (by omega))
    · rw [hAdef]
      simp only [endOf, hspan]
      refine ⟨?_, ?_, trivial⟩
      · rw [header_setNext, header_setSize, header_within hw6 (.inl (by omega)), hA,
          u32_of_lt (x := requested) (by omega), u32_of_lt (x := A + 32 + requested) (by omega)]
        rfl
      · rw [header_within hw8 (.inr (by omega)), hN6, hN]
        rfl
    · rw [hAdef]
      simp only [endOf, lastOf, hspan]
      exact hys6.within hw8 (.inr (by omega))
  rw [hN]
  have hlast := h.last
  rw [lastOf_append, hAdef] at hlast
  cases ys with
  | nil =>
    rw [if_neg (by simp [follower])]
    refine hfinal m5 (A + 32 + requested) (hw5.mono (by omega) (by omega)) rfl trivial ?_
    rw [lastOf_append, hAdef]
    rfl
  | cons y zs =>
    rw [if_pos (by simp only [follower]; omega)]
    have hy5 := hys.within hw5 (.inr (by omega))
    have hw6 := setPrevious_within m5 (A + 32 + b.size) (A + 32 + requested)
    refine hfinal (setPrevious m5 (A + 32 + b.size) (A + 32 + requested)) s.lastBlock
      ((hw5.mono (by omega) (by omega)).trans (hw6.mono (by omega) (by omega)))
      (header_within hw6 (.inl (by omega))) (hy5.retarget (by omega) (by simp)) ?_
    rw [hlast, lastOf_append, hAdef]
    have hspan : A + 32 + requested + 32 + (b.size - requested - 32) = A + 32 + b.size := by omega
    simp only [lastOf, cons_append, nil_append, hspan]

/-- A flag changes. -/
theorem Layout.setFree (h : Layout s (xs ++ b :: ys)) (v : Bool) :
    Layout { s with mem := Memory.setFree s.mem (endOf kernelHeapStart xs) v }
      (xs ++ { b with free := v } :: ys) := by
  obtain ⟨hlo, hend, hhi⟩ := h.range
  have hA := h.header_at
  obtain ⟨hxs, -, hys⟩ := (blocks_append _ _ _ _).mp h.links
  have hw := setFree_within s.mem (endOf kernelHeapStart xs) v
  have h' : Layout s (xs ++ ([b] ++ ys)) := h
  show Layout _ (xs ++ ([{ b with free := v }] ++ ys))
  refine h'.replace (by simp) rfl ?_ (hxs.within hw (.inl (Nat.le_refl _))) ⟨?_, trivial⟩
    (hys.within hw (.inr (by omega))) ?_
  · intro d hd
    obtain rfl := mem_singleton.mp hd
    exact h.aligned b (by simp)
  · rw [header_setFree, hA]
    rfl
  · rw [h.last, lastOf_append, lastOf_append]
    rfl

/-- `heap_merge_with_next` joins a block with a free one behind it, and does
nothing where there is none. -/
theorem Layout.merge (h : Layout s (xs ++ b :: ys)) :
    (heapMergeWithNext s (endOf kernelHeapStart xs) = s ∧ ∀ y zs, ys = y :: zs → y.free = false) ∨
      ∃ y zs, ys = y :: zs ∧ y.free = true ∧
        Layout (heapMergeWithNext s (endOf kernelHeapStart xs))
          (xs ++ { b with size := b.size + 32 + y.size } :: zs) := by
  obtain ⟨hlo, hend, hhi⟩ := h.range
  have hA := h.header_at
  have hba := h.aligned b (by simp)
  have hlast := h.last
  have htiles := h.tiles
  obtain ⟨hxs, -, hys⟩ := (blocks_append _ _ _ _).mp h.links
  have hfx : ∀ zs, follower 0 (endOf kernelHeapStart xs) (b :: zs) = endOf kernelHeapStart xs :=
    fun _ => rfl
  rw [hfx] at hxs
  rw [lastOf_append] at hlast
  rw [endOf_append] at htiles
  generalize hAdef : endOf kernelHeapStart xs = A at *
  unfold heapMergeWithNext
  simp only [hA, headerSize]
  cases ys with
  | nil =>
    left
    rw [if_pos (.inl rfl)]
    exact ⟨rfl, fun y zs e => absurd e (by simp)⟩
  | cons y zs =>
    have hY := hys.1
    simp only [follower, hY]
    cases hfree : y.free with
    | false =>
      left
      rw [if_pos (.inr rfl)]
      refine ⟨rfl, fun y' zs' e => ?_⟩
      obtain ⟨rfl, rfl⟩ := List.cons.inj e
      exact hfree
    | true =>
      right
      refine ⟨y, zs, rfl, hfree, ?_⟩
      have hYend : A + 32 + b.size + 32 + y.size ≤ s.mappedEnd := by
        have := le_endOf (A + 32 + b.size + 32 + y.size) zs
        simp only [endOf] at htiles
        omega
      have hya := h.aligned y (by simp)
      rw [if_neg (by simp), if_neg (by rw [u32_of_lt (by omega)]; simp)]
      generalize hm1 : setSize s.mem A (b.size + (32 + y.size)) = m1
      have hw1 : Within s.mem m1 A (A + 32) := by subst hm1; exact setSize_within _ _ _
      have hY1 : header m1 (A + 32 + b.size) = header s.mem (A + 32 + b.size) :=
        header_within hw1 (.inr (by omega))
      rw [hY1, hY]
      have hnext : follower 0 (A + 32 + b.size + 32 + y.size) zs < 2 ^ 32 := by
        cases zs with
        | nil => exact Nat.pow_pos (by decide)
        | cons z zs => simp only [follower]; omega
      generalize hm2 : setNext m1 A (follower 0 (A + 32 + b.size + 32 + y.size) zs) = m2
      have hw2 : Within s.mem m2 A (A + 32) := by
        subst hm2; exact hw1.trans (setNext_within _ _ _)
      have hA2 : header m2 A = { size := b.size + (32 + y.size), previous := lastOf 0 kernelHeapStart xs
                                 next := follower 0 (A + 32 + b.size + 32 + y.size) zs
                                 magic := heapBlockMagic, free := b.free } := by
        subst hm2 hm1
        rw [header_setNext, header_setSize, hA, u32_of_lt hnext,
          u32_of_lt (x := b.size + (32 + y.size)) (by omega)]
      simp only [hA2]
      -- the poisoned header lies inside the joined block
      have hfinal : ∀ m3 last', Within s.mem m3 A (A + 32) → header m3 A = header m2 A →
          ∀ m4, Within m3 m4 (A + 32 + b.size + 32 + y.size) (A + 32 + b.size + 32 + y.size + 32) →
          Blocks m4 0 A (A + 32 + b.size + 32 + y.size) zs →
          last' = lastOf A (A + 32 + b.size + 32 + y.size) zs →
          Layout { s with
              mem := Memory.setFree (setSize (setNext (setPrevious (setMagic m4 (A + 32 + b.size) 0)
                (A + 32 + b.size) 0) (A + 32 + b.size) 0) (A + 32 + b.size) 0) (A + 32 + b.size) false
              lastBlock := last' }
            (xs ++ { b with size := b.size + 32 + y.size } :: zs) := by
        intro m3 last' hw3 hA3 m4 hw4 hzs hl
        have hw9 : Within m4 (Memory.setFree (setSize (setNext (setPrevious (setMagic m4
            (A + 32 + b.size) 0) (A + 32 + b.size) 0) (A + 32 + b.size) 0) (A + 32 + b.size) 0)
            (A + 32 + b.size) false) (A + 32 + b.size) (A + 32 + b.size + 32) :=
          ((((setMagic_within _ _ _).trans (setPrevious_within _ _ _)).trans
            (setNext_within _ _ _)).trans (setSize_within _ _ _)).trans (setFree_within _ _ _)
        have hspan : A + 32 + (b.size + 32 + y.size) = A + 32 + b.size + 32 + y.size := by omega
        have h' : Layout s (xs ++ ([b, y] ++ zs)) := h
        show Layout _ (xs ++ ([{ b with size := b.size + 32 + y.size }] ++ zs))
        refine h'.replace (by simp) ?_ ?_ ?_ ?_ ?_ ?_
        · rw [hAdef]
          exact hspan
        · intro d hd
          obtain rfl := mem_singleton.mp hd
          dsimp only
          omega
        · rw [hAdef]
          exact ((hxs.within hw3 (.inl (Nat.le_of_eq hAdef))).within hw4 (.inl (by omega))).within
            hw9 (.inl (by omega))
        · rw [hAdef]
          simp only [endOf, hspan]
          refine ⟨?_, trivial⟩
          rw [header_within hw9 (.inl (by omega)), header_within hw4 (.inl (by omega)), hA3, hA2]
          rw [← Nat.add_assoc]
          rfl
        · rw [hAdef]
          simp only [endOf, lastOf, hspan]
          exact hzs.within hw9 (.inr (by omega))
        · rw [hl, lastOf_append, hAdef]
          simp only [lastOf, cons_append, nil_append, hspan]
      cases zs with
      | nil =>
        rw [if_neg (by simp [follower])]
        exact hfinal m2 A hw2 rfl m2 (Within.refl _ _ _) trivial rfl
      | cons z zs =>
        rw [if_pos (by simp only [follower]; omega)]
        have hz : Blocks m2 0 (A + 32 + b.size) (A + 32 + b.size + 32 + y.size) (z :: zs) :=
          hys.2.within hw2 (.inr (by omega))
        refine hfinal m2 s.lastBlock hw2 rfl _ (setPrevious_within _ _ _)
          (hz.retarget (by omega) (by simp)) ?_
        rw [hlast]
        simp only [lastOf]

/-- `heap_find_free_block` finds the first block that fits, or none does. -/
theorem Layout.find (h : Layout s bs) (requested : Nat) :
    ∃ block, heapFindFreeBlock s.mem requested s.mappedEnd s.firstBlock = some block ∧
      ((block = 0 ∧ ∀ b ∈ bs, b.free = true → b.size < requested) ∨
        ∃ xs b ys, bs = xs ++ b :: ys ∧ block = endOf kernelHeapStart xs ∧ b.free = true ∧
          requested ≤ b.size) := by
  have hloop : ∀ (ys : List Block) (prev a bound : Nat), Blocks s.mem 0 prev a ys →
      ys.length ≤ bound → 0 < a →
      ∃ block, heapFindFreeBlock s.mem requested bound (follower 0 a ys) = some block ∧
        ((block = 0 ∧ ∀ b ∈ ys, b.free = true → b.size < requested) ∨
          ∃ us b vs, ys = us ++ b :: vs ∧ block = endOf a us ∧ b.free = true ∧
            requested ≤ b.size) := by
    intro ys
    induction ys with
    | nil =>
      intro prev a bound _ _ _
      exact ⟨0, by cases bound <;> rfl, .inl ⟨rfl, fun b hb => absurd hb (by simp)⟩⟩
    | cons b ys ih =>
      intro prev a bound hb hlen ha
      cases bound with
      | zero => simp at hlen
      | succ bound =>
        rw [follower, heapFindFreeBlock, if_neg (by omega), hb.1]
        by_cases hfit : b.free = true ∧ b.size ≥ requested
        · rw [if_pos hfit]
          exact ⟨a, rfl, .inr ⟨[], b, ys, rfl, rfl, hfit.1, hfit.2⟩⟩
        · rw [if_neg hfit]
          obtain ⟨block, he, hcase⟩ := ih a (a + 32 + b.size) bound hb.2
            (Nat.le_of_succ_le_succ hlen) (by omega)
          rcases hcase with ⟨h0, hall⟩ | ⟨us, d, vs, rfl, hbl, hd⟩
          · refine ⟨block, he, .inl ⟨h0, fun d hd hf => ?_⟩⟩
            rcases mem_cons.mp hd with rfl | hd
            · exact Nat.lt_of_not_le fun hle => hfit ⟨hf, hle⟩
            · exact hall d hd hf
          · exact ⟨block, he, .inr ⟨b :: us, d, vs, rfl, hbl, hd⟩⟩
  have hlen : bs.length ≤ s.mappedEnd := by
    have := length_le_endOf kernelHeapStart bs
    rw [h.tiles] at this
    omega
  have hfirst : s.firstBlock = follower 0 kernelHeapStart bs := by
    rw [h.first]
    cases bs with
    | nil => exact absurd rfl h.nonempty
    | cons b bs => rfl
  rw [hfirst]
  exact hloop bs 0 kernelHeapStart s.mappedEnd h.links hlen (by decide)

/-! ## Growing the heap -/

theorem le_pagesForSize {n : Nat} (h : pagesForSize n ≠ 0) : n ≤ pagesForSize n * pageSize := by
  unfold pagesForSize at *
  split
  next hbig => exact absurd (if_pos hbig) h
  next =>
    unfold pageSize
    omega

section grow

variable {size : Nat} {p : σ}

/-- The new pages become part of the last block. -/
theorem Layout.extendLast (h : Layout s (xs ++ [b])) (hroom : s.mappedEnd + size ≤ 0xE0000000)
    (hsize : size % 16 = 0) (hw : Within s.mem m s.mappedEnd (s.mappedEnd + size)) :
    Layout { s with
        mem := setSize m (endOf kernelHeapStart xs) (b.size + size)
        pages := p
        mappedEnd := s.mappedEnd + size }
      (xs ++ [{ b with size := b.size + size }]) := by
  obtain ⟨hlo, hend, -⟩ := h.range
  obtain ⟨hxs, -⟩ := (blocks_append _ _ _ _).mp h.links
  have htiles := h.tiles
  rw [endOf_append] at htiles
  have hbs : endOf kernelHeapStart xs + 32 + b.size = s.mappedEnd := htiles
  have hba := h.aligned b (by simp)
  have hA : header m (endOf kernelHeapStart xs) = _ :=
    (header_within hw (.inl (by omega))).trans h.header_at
  have hw' := setSize_within m (endOf kernelHeapStart xs) (b.size + size)
  refine ⟨h.initialized, ?_, by simp, h.first, ?_, ?_, hroom, ?_⟩
  · rw [blocks_append]
    refine ⟨(hxs.within hw (.inl (by omega))).within hw' (.inl (Nat.le_refl _)), ?_, trivial⟩
    rw [header_setSize, hA, u32_of_lt (by omega)]
    rfl
  · rw [lastOf_append]
    exact h.last.trans (lastOf_append ..)
  · rw [endOf_append]
    simp only [endOf]
    omega
  · intro d hd
    rcases mem_append.mp hd with hd | hd
    · exact h.aligned d (mem_append_left _ hd)
    · obtain rfl := mem_singleton.mp hd
      dsimp only
      omega

/-- The new pages become a block behind the last one. -/
theorem Layout.appendBlock (h : Layout s (xs ++ [b])) (hroom : s.mappedEnd + size ≤ 0xE0000000)
    (hsize : size % 16 = 0) (hmin : 32 ≤ size)
    (hw : Within s.mem m s.mappedEnd (s.mappedEnd + size)) :
    Layout { s with
        mem := setNext (Memory.setFree (setMagic (setNext (setPrevious (setSize m s.mappedEnd
          (size - 32)) s.mappedEnd (endOf kernelHeapStart xs)) s.mappedEnd 0) s.mappedEnd
          heapBlockMagic) s.mappedEnd true) (endOf kernelHeapStart xs) s.mappedEnd
        pages := p
        mappedEnd := s.mappedEnd + size
        lastBlock := s.mappedEnd }
      (xs ++ [b] ++ [{ size := size - 32, free := true }]) := by
  obtain ⟨hlo, hend, -⟩ := h.range
  obtain ⟨hxs, -⟩ := (blocks_append _ _ _ _).mp h.links
  have htiles := h.tiles
  rw [endOf_append] at htiles
  have hbs : endOf kernelHeapStart xs + 32 + b.size = s.mappedEnd := htiles
  have hA : header m (endOf kernelHeapStart xs) = _ :=
    (header_within hw (.inl (by omega))).trans h.header_at
  generalize hm' : Memory.setFree (setMagic (setNext (setPrevious (setSize m s.mappedEnd
    (size - 32)) s.mappedEnd (endOf kernelHeapStart xs)) s.mappedEnd 0) s.mappedEnd
    heapBlockMagic) s.mappedEnd true = m'
  have hN : header m' s.mappedEnd =
      { size := size - 32, previous := endOf kernelHeapStart xs, next := 0
        magic := heapBlockMagic, free := true } := by
    subst hm'
    rw [header_setFree, header_setMagic, header_setNext, header_setPrevious, header_setSize,
      u32_of_lt (x := size - 32) (by omega), u32_of_lt (x := endOf kernelHeapStart xs) (by omega)]
    rfl
  have hw' : Within m m' s.mappedEnd (s.mappedEnd + 32) := by
    subst hm'
    exact ((((setSize_within _ _ _).trans (setPrevious_within _ _ _)).trans
      (setNext_within _ _ _)).trans (setMagic_within _ _ _)).trans (setFree_within _ _ _)
  -- the old last block points to the new one only now
  have hw'' := setNext_within m' (endOf kernelHeapStart xs) s.mappedEnd
  refine ⟨h.initialized, ?_, by simp, h.first, ?_, ?_, hroom, ?_⟩
  · rw [append_assoc, blocks_append]
    refine ⟨((hxs.within hw (.inl (by omega))).within hw' (.inl (by omega))).within hw''
      (.inl (Nat.le_refl _)), ?_, ?_, trivial⟩
    · rw [header_setNext, header_within hw' (.inl (by omega)), hA, u32_of_lt (by omega)]
      dsimp only [follower, cons_append, nil_append]
      rw [hbs]
      rfl
    · rw [hbs, header_within hw'' (.inr (by omega)), hN]
      rfl
  · rw [lastOf_append, endOf_append]
    exact htiles.symm
  · rw [endOf_append, endOf_append, htiles]
    simp only [endOf]
    omega
  · intro d hd
    rcases mem_append.mp hd with hd | hd
    · exact h.aligned d hd
    · obtain rfl := mem_singleton.mp hd
      dsimp only
      omega

end grow

/-- A failed expansion changes nothing but the paging state; a successful one
extends the last block if it is free, and adds a free block behind it otherwise. -/
theorem Layout.expand (h : Layout s bs) (ops : PageOps σ) (minimumPayload : Nat) :
    (∃ p, heapExpand ops s minimumPayload = (false, { s with pages := p })) ∨
      ∃ s' size, heapExpand ops s minimumPayload = (true, s') ∧ minimumPayload + 32 ≤ size ∧
        ((∃ xs b, bs = xs ++ [b] ∧ b.free = true ∧
            Layout s' (xs ++ [{ b with size := b.size + size }])) ∨
          ((∀ xs b, bs = xs ++ [b] → b.free = false) ∧
            Layout s' (bs ++ [{ size := size - 32, free := true }]))) := by
  have hlimit : s.mappedEnd ≤ 0xE0000000 := h.limit
  have hstart : 0xD0000000 ≤ s.mappedEnd := h.tiles ▸ le_endOf kernelHeapStart bs
  unfold heapExpand
  split
  · exact .inl ⟨s.pages, rfl⟩
  next hmin =>
    dsimp only
    split
    · exact .inl ⟨s.pages, rfl⟩
    next hpc =>
      have hfit : headerSize + minimumPayload ≤
          (if pagesForSize (headerSize + minimumPayload) < heapMinimumExpansion then
            heapMinimumExpansion else pagesForSize (headerSize + minimumPayload)) * pageSize := by
        have hpages := le_pagesForSize hpc
        split
        next hlt => exact Nat.le_trans hpages (Nat.mul_le_mul_right _ (Nat.le_of_lt hlt))
        next => exact hpages
      generalize hcount : (if pagesForSize (headerSize + minimumPayload) < heapMinimumExpansion then
        heapMinimumExpansion else pagesForSize (headerSize + minimumPayload)) = count at *
      split
      · exact .inl ⟨s.pages, rfl⟩
      split
      · exact .inl ⟨s.pages, rfl⟩
      split
      · exact .inl ⟨s.pages, rfl⟩
      next hroom =>
        have hroom' : s.mappedEnd + count * pageSize ≤ 0xE0000000 := by
          unfold kernelHeapLimit at hroom; omega
        have hmul : count * pageSize % 16 = 0 := by unfold pageSize; omega
        split
        next p _ => exact .inl ⟨p, rfl⟩
        next p _ =>
          right
          unfold headerSize at hfit ⊢
          generalize hsize : count * pageSize = size at *
          obtain ⟨xs, b, rfl⟩ := eq_nil_or_concat bs |>.resolve_left h.nonempty
          rw [concat_eq_append] at *
          have hl : s.lastBlock = endOf kernelHeapStart xs := by
            rw [h.last, lastOf_append]; rfl
          obtain ⟨hlo, hend, -⟩ := h.range
          have hw := fill_within s.mem s.mappedEnd size 0
          generalize fill s.mem s.mappedEnd size 0 = m at *
          have hA : header m (endOf kernelHeapStart xs) = _ :=
            (header_within hw (.inl (by omega))).trans h.header_at
          rw [hl, hA]
          dsimp only
          cases hfree : b.free with
          | true =>
            rw [if_pos ⟨by omega, rfl⟩]
            refine ⟨_, size, rfl, by omega, .inl ⟨xs, b, rfl, hfree, ?_⟩⟩
            exact hl ▸ h.extendLast hroom' hmul hw
          | false =>
            rw [if_neg (by simp), if_pos (by omega)]
            refine ⟨_, size, rfl, by omega, .inr ⟨?_, h.appendBlock hroom' hmul (by omega) hw⟩⟩
            intro us w hlast
            obtain ⟨-, hsame⟩ := append_inj' hlast rfl
            cases hsame
            exact hfree

end MeatySkeleton.Memory
