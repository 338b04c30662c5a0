import MeatySkeleton.Memory.Payloads

/-!
# The operations of the heap

`Owned` ties a map of live pointers and requested sizes to the row of blocks. Each function of
`heap.c` that is called from outside keeps the blocks and the bytes of what stays live, and
leaves no free neighbours where there were none (`Kept`); `krealloc` serves one pointer again
(`Resized`), and only where it cuts off the end of a block in front of a free one
(`CutsBeforeFree`) do free neighbours come up.
-/

namespace MeatySkeleton.Memory

open Function List Lib

variable {σ : Type}

/-- A live pointer is the payload of a used block of the row that is large enough. -/
def Owned (live : Nat → Option Nat) (bs : List Block) : Prop :=
  ∀ p n, live p = some n → ∃ a b, p = a + 32 ∧ (a, b) ∈ placed kernelHeapStart bs ∧
    b.free = false ∧ n ≤ b.size ∧ 0 < n

theorem header_placed {m : Mem} {prev a nxt c : Nat} {b : Block} {bs : List Block}
    (h : Blocks m nxt prev a bs) (hc : (c, b) ∈ placed a bs) :
    (header m c).size = b.size ∧ (header m c).magic = heapBlockMagic ∧
      (header m c).free = b.free := by
  obtain ⟨xs, ys, rfl, rfl⟩ := mem_placed.mp hc
  have hb := ((blocks_append _ _ _ _).mp h).2.1
  rw [hb]
  exact ⟨rfl, rfl, rfl⟩

/-! ## The invariant under edits of the row -/

section edits

variable {s : Heap σ} {live : Nat → Option Nat} {bs bs' xs ys : List Block} {b : Block}
  {a n p : Nat} {m m' m'' : Mem}

/-- The blocks `mid` of a row become `mid'`; the blocks behind stay where they are. -/
theorem Owned.edit {xs mid : List Block} (mid' : List Block) {ys : List Block}
    (h : Owned live (xs ++ (mid ++ ys)))
    (hend : ys = [] ∨ endOf (endOf kernelHeapStart xs) mid' = endOf (endOf kernelHeapStart xs) mid)
    (hmid : ∀ a b n, live (a + 32) = some n → (a, b) ∈ placed (endOf kernelHeapStart xs) mid →
      b.free = false → n ≤ b.size →
      ∃ b', (a, b') ∈ placed (endOf kernelHeapStart xs) mid' ∧ b'.free = false ∧ n ≤ b'.size) :
    Owned live (xs ++ (mid' ++ ys)) := by
  intro p n hp
  obtain ⟨a, b, rfl, hab, hfree, hn, hpos⟩ := h p n hp
  rw [placed_append, placed_append, mem_append, mem_append] at hab
  simp only [placed_append, mem_append]
  rcases hab with hab | hab | hab
  · exact ⟨a, b, rfl, .inl hab, hfree, hn, hpos⟩
  · obtain ⟨b', hb', hfree', hn'⟩ := hmid a b n hp hab hfree hn
    exact ⟨a, b', rfl, .inr (.inl hb'), hfree', hn', hpos⟩
  · refine ⟨a, b, rfl, .inr (.inr ?_), hfree, hn, hpos⟩
    rcases hend with rfl | hend
    · simp [placed] at hab
    · rwa [hend]

/-- Free blocks carry no live pointer, so they may be edited at will. -/
theorem Owned.editFree {xs mid : List Block} (mid' : List Block) {ys : List Block}
    (h : Owned live (xs ++ (mid ++ ys)))
    (hend : ys = [] ∨ endOf (endOf kernelHeapStart xs) mid' = endOf (endOf kernelHeapStart xs) mid)
    (hfree : ∀ b ∈ mid, b.free = true) : Owned live (xs ++ (mid' ++ ys)) := by
  refine h.edit mid' hend fun a b n _ hab hused _ => ?_
  obtain ⟨us, vs, rfl, -⟩ := mem_placed.mp hab
  exact absurd ((hfree b (by simp)).symm.trans hused) (by simp)

/-- The row grows at its end, in place of a free last block or behind it. -/
theorem Owned.growLast (h : Owned live (xs ++ [b])) (hfree : b.free = true) (d : Block) :
    Owned live (xs ++ [d]) := by
  have h' : Owned live (xs ++ ([b] ++ [])) := h
  exact h'.editFree [d] (.inl rfl) (by simpa using hfree)

theorem Owned.grow (h : Owned live bs) (d : Block) : Owned live (bs ++ [d]) := by
  have h' : Owned live (bs ++ ([] ++ [])) := by simpa using h
  exact h'.editFree [d] (.inl rfl) (by simp)

/-- A pointer that is dropped owns nothing any more. -/
theorem Owned.drop (h : Owned live bs) (p : Nat) : Owned (update live p none) bs := by
  intro q n hq
  by_cases hqp : q = p
  · subst hqp; simp at hq
  · exact h q n (by simpa [update_of_ne hqp] using hq)

/-- Other live pointers, or smaller requests. -/
theorem Owned.restrict {live' : Nat → Option Nat} (h : Owned live bs)
    (hsub : ∀ p n, live' p = some n → 0 < n ∧ ∃ k, live p = some k ∧ n ≤ k) : Owned live' bs := by
  intro p n hp
  obtain ⟨hpos, k, hk, hle⟩ := hsub p n hp
  obtain ⟨a, b, rfl, hab, hfree, hfit, -⟩ := h p k hk
  exact ⟨a, b, rfl, hab, hfree, Nat.le_trans hle hfit, hpos⟩

/-- The bytes behind the live pointers are the same. -/
def Unchanged (live : Nat → Option Nat) (m m' : Mem) : Prop :=
  ∀ p n, live p = some n → ∀ i < n, m' (p + i) = m (p + i)

theorem Unchanged.trans (h : Unchanged live m m') (h' : Unchanged live m' m'') :
    Unchanged live m m'' :=
  fun p n hp i hi => (h' p n hp i hi).trans (h p n hp i hi)

/-- Fewer pointers, or shorter payloads. -/
theorem Unchanged.restrict {live' : Nat → Option Nat} (h : Unchanged live m m')
    (hsub : ∀ p n, live' p = some n → ∃ k, live p = some k ∧ n ≤ k) : Unchanged live' m m' := by
  intro p n hp i hi
  obtain ⟨k, hk, hle⟩ := hsub p n hp
  exact h p k hk i (Nat.lt_of_lt_of_le hi hle)

theorem update_none_sub (live : Nat → Option Nat) (p : Nat) {q k : Nat}
    (hq : update live p none q = some k) : live q = some k ∧ q ≠ p := by
  by_cases hqp : q = p
  · subst hqp
    simp at hq
  · rw [update_of_ne hqp] at hq
    exact ⟨hq, hqp⟩

theorem Unchanged.drop (h : Unchanged live m m') (p : Nat) :
    Unchanged (update live p none) m m' :=
  h.restrict fun _ n hq => ⟨n, (update_none_sub live p hq).1, Nat.le_refl n⟩

theorem Owned.payload (h : Owned live bs) (hp : live p = some n) {i : Nat} (hi : i < n) :
    Payload bs (p + i) := by
  obtain ⟨a, b, rfl, hab, -, hfit, -⟩ := h p n hp
  exact ⟨a, b, hab, Nat.le_add_right _ _, by omega⟩

theorem SamePayloads.unchanged (h : SamePayloads bs bs' m m') (ho : Owned live bs)
    (ho' : Owned live bs') : Unchanged live m m' :=
  fun _ _ hp _ hi => h _ (ho.payload hp hi) (ho'.payload hp hi)

/-- Writes into a payload that nobody owns. -/
theorem Owned.unchanged (h : Owned live bs) (hab : (a, b) ∈ placed kernelHeapStart bs)
    (hdead : live (a + 32) = none) (hw : Within m m' (a + 32) (a + 32 + b.size)) :
    Unchanged live m m' := by
  intro p n hp i hi
  obtain ⟨c, d, rfl, hcd, -, hfit, -⟩ := h p n hp
  refine hw _ ?_
  rcases placed_disjoint hab hcd with ⟨rfl, -⟩ | hbefore | hbehind
  · rw [hdead] at hp
    cases hp
  · exact .inr (by omega)
  · exact .inl (by omega)

/-- An operation that serves the live pointers: they keep their blocks and bytes, and no free
neighbours come up. -/
structure Kept (live : Nat → Option Nat) (s : Heap σ) (bs : List Block) (s' : Heap σ)
    (bs' : List Block) : Prop where
  layout : Layout s' bs'
  owned : Owned live bs'
  unchanged : Unchanged live s.mem s'.mem
  coalesced : Coalesced bs → Coalesced bs'

theorem Kept.refl (h : Layout s bs) (ho : Owned live bs) : Kept live s bs s bs :=
  ⟨h, ho, fun _ _ _ _ _ => rfl, id⟩

theorem Kept.trans {s' s'' : Heap σ} {bs'' : List Block} (h : Kept live s bs s' bs')
    (h' : Kept live s' bs' s'' bs'') : Kept live s bs s'' bs'' where
  layout := h'.layout
  owned := h'.owned
  unchanged := h.unchanged.trans h'.unchanged
  coalesced hc := h'.coalesced (h.coalesced hc)

/-- Writes into payloads leave the layout alone. -/
theorem Layout.writePayload (h : Layout s bs) (hab : (a, b) ∈ placed kernelHeapStart bs)
    (hw : Within s.mem m' (a + 32) (a + 32 + b.size)) : Layout { s with mem := m' } bs := by
  obtain ⟨xs, ys, rfl, rfl⟩ := mem_placed.mp hab
  obtain ⟨hxs, hb, hys⟩ := (blocks_append _ _ _ _).mp h.links
  refine ⟨h.initialized, ?_, h.nonempty, h.first, h.last, h.tiles, h.limit, h.aligned⟩
  rw [blocks_append]
  exact ⟨hxs.within hw (.inl (Nat.le_add_right _ _)),
    (header_within hw (.inl (Nat.le_refl _))).trans hb, hys.within hw (.inr (Nat.le_refl _))⟩

/-- A pointer to the payload of a block is recognised. -/
theorem Layout.blockFromPointer (h : Layout s bs) (hab : (a, b) ∈ placed kernelHeapStart bs)
    (hb : 0 < b.size) : heapBlockFromPointer s (a + 32) = a := by
  have hrange := placed_range hab
  have ht := h.tiles
  have hmagic := (header_placed h.links hab).2.1
  unfold heapBlockFromPointer heapPointerIsInside headerSize
  have hstart : kernelHeapStart ≤ a := hrange.1
  rw [if_neg (by omega), if_neg (by simp; omega), if_neg (by omega), Nat.add_sub_cancel,
    if_neg (by simp; omega), if_neg (by simpa using hmagic)]

/-! ## The operations -/

variable (ops : PageOps σ)

/-- Taking a free block that fits makes its payload live. -/
theorem takeBlock_inv (h : Layout s (xs ++ b :: ys)) (ho : Owned live (xs ++ b :: ys))
    (hfree : b.free = true) {aligned : Nat} (hal : aligned % 16 = 0) (hfit : aligned ≤ b.size)
    (hn : n ≤ aligned) (hpos : 0 < n) :
    ∃ r, heapTakeBlock s (endOf kernelHeapStart xs) aligned = r ∧ r.1 ≠ 0 ∧
      live r.1 = none ∧ ∃ bs', Kept live s (xs ++ b :: ys) r.2 bs' ∧
        Owned (update live r.1 (some n)) bs' := by
  obtain ⟨hlo, hend, hhi⟩ := h.range
  refine ⟨_, rfl, ?_⟩
  unfold heapTakeBlock headerSize
  dsimp only
  rw [u32_of_lt (by omega)]
  obtain ⟨cut, rest, hl, hcase⟩ := h.split hfit hal
  have hsplit := h.split_payloads hfit hcase
  have hused := hl.setFree false
  have hnone : live (endOf kernelHeapStart xs + 32) = none := by
    cases hp : live (endOf kernelHeapStart xs + 32) with
    | none => rfl
    | some k =>
      obtain ⟨a, d, ha, had, hdf, -⟩ := ho _ k hp
      have hmid := placed_mid xs b ys
      rcases placed_disjoint had hmid with ⟨-, rfl⟩ | hne | hne
      · exact absurd (hfree.symm.trans hdf) (by simp)
      · omega
      · omega
  have hkeep : ∀ free, Owned live (xs ++ (({ b with size := cut, free := free } :: rest) ++ ys)) := by
    intro free
    have ho' : Owned live (xs ++ ([b] ++ ys)) := ho
    refine ho'.editFree _ (.inr ?_) (by simpa using hfree)
    rcases hcase with ⟨rfl, rfl, -⟩ | ⟨rfl, hle, rfl⟩
    · rfl
    · simp only [endOf]
      omega
  have hbytes : Unchanged live s.mem
      (setFree (heapSplitBlock s (endOf kernelHeapStart xs) aligned).mem (endOf kernelHeapStart xs)
        false) :=
    (hsplit.unchanged ho (hkeep b.free)).trans
      ((setFree_payloads false).unchanged (hkeep b.free) (hkeep false))
  refine ⟨by omega, hnone, _, ⟨hused, hkeep false, hbytes, fun hc => ?_⟩, fun q k hq => ?_⟩
  · refine hc.cut rfl ?_
    rcases hcase with ⟨-, rfl, -⟩ | ⟨-, -, rfl⟩
    · exact .inl rfl
    · exact .inr ⟨⟨_, rfl⟩, hc.behind hfree⟩
  · by_cases hqp : q = endOf kernelHeapStart xs + 32
    · subst hqp
      rw [update_self] at hq
      obtain rfl := Option.some.inj hq
      refine ⟨_, _, rfl, placed_mid _ _ _, rfl, ?_, hpos⟩
      dsimp only
      rcases hcase with ⟨rfl, -⟩ | ⟨rfl, -⟩ <;> omega
    · rw [update_of_ne hqp] at hq
      exact hkeep false q k hq

theorem alignUpSize_spec {size : Nat} (h : alignUpSize size heapAlignment ≠ 0) :
    size ≤ alignUpSize size heapAlignment ∧ alignUpSize size heapAlignment % 16 = 0 := by
  unfold alignUpSize heapAlignment at *
  split
  next hbig => exact absurd (if_pos hbig) h
  next => omega

/-- An expansion keeps what is live. -/
theorem Layout.expand_kept (h : Layout s bs) (ho : Owned live bs) (minimumPayload : Nat) :
    (∃ p, heapExpand ops s minimumPayload = (false, { s with pages := p })) ∨
      ∃ s' bs', heapExpand ops s minimumPayload = (true, s') ∧ Kept live s bs s' bs' := by
  rcases h.expand ops minimumPayload with hfailed | ⟨s', grown, he, hgrown, hcase⟩
  · exact .inl hfailed
  · refine .inr ⟨s', ?_⟩
    have hsame : ∀ bs', SamePayloads bs bs' s.mem s'.mem := by
      intro bs'
      have hbytes : SamePayloads bs bs' s.mem (heapExpand ops s minimumPayload).2.mem :=
        h.expand_payloads ops minimumPayload
      rwa [he] at hbytes
    rcases hcase with ⟨xs, b, rfl, hfree, hl⟩ | ⟨hlast, hl⟩
    · have ho' := ho.growLast hfree { b with size := b.size + grown }
      refine ⟨_, he, hl, ho', (hsame _).unchanged ho ho', fun hc => hc.congr ?_⟩
      simp
    · have ho' := ho.grow { size := grown - 32, free := true }
      exact ⟨_, he, hl, ho', (hsame _).unchanged ho ho', fun hc => hc.append hlast⟩

/-- `kmalloc` returns, and gives out a fresh payload or nothing. -/
theorem heapAllocateUnlocked_inv (h : Layout s bs) (ho : Owned live bs) (size : Nat) :
    ∃ r, heapAllocateUnlocked ops s size = some r ∧ ∃ bs', Kept live s bs r.2 bs' ∧
      (r.1 = 0 ∨ (r.1 ≠ 0 ∧ live r.1 = none ∧
        Owned (update live r.1 (some size)) bs')) := by
  have hstays := Kept.refl h ho
  unfold heapAllocateUnlocked
  rw [if_neg (by simp [h.initialized])]
  by_cases hzero : size = 0
  · rw [if_pos hzero]
    exact ⟨_, rfl, bs, hstays, .inl rfl⟩
  rw [if_neg hzero]
  dsimp only
  by_cases haz : alignUpSize size heapAlignment = 0
  · rw [if_pos haz]
    exact ⟨_, rfl, bs, hstays, .inl rfl⟩
  rw [if_neg haz]
  obtain ⟨hle, hal⟩ := alignUpSize_spec haz
  generalize alignUpSize size heapAlignment = aligned at *
  -- a block that was found is taken
  have htake : ∀ (s' : Heap σ) (bs' : List Block) (block : Nat), Kept live s bs s' bs' →
      (∃ xs b ys, bs' = xs ++ b :: ys ∧ block = endOf kernelHeapStart xs ∧ b.free = true ∧
        aligned ≤ b.size) →
      ∃ bs'', Kept live s bs (heapTakeBlock s' block aligned).2 bs'' ∧
        ((heapTakeBlock s' block aligned).1 = 0 ∨
          ((heapTakeBlock s' block aligned).1 ≠ 0 ∧ live (heapTakeBlock s' block aligned).1 = none ∧
            Owned (update live (heapTakeBlock s' block aligned).1 (some size)) bs'')) := by
    rintro s' bs' block hkept ⟨xs, b, ys, rfl, rfl, hfree, hfit⟩
    obtain ⟨r, rfl, hne, hnone, bs'', hkept', ho'⟩ :=
      takeBlock_inv hkept.layout hkept.owned hfree hal hfit hle (Nat.pos_of_ne_zero hzero)
    exact ⟨bs'', hkept.trans hkept', .inr ⟨hne, hnone, ho'⟩⟩
  have hpos : ∀ (s : Heap σ) (bs : List Block) (block : Nat), Layout s bs →
      (∃ xs b ys, bs = xs ++ b :: ys ∧ block = endOf kernelHeapStart xs ∧ b.free = true ∧
        aligned ≤ b.size) → block ≠ 0 := by
    rintro s bs block h ⟨xs, b, ys, rfl, rfl, -⟩
    exact Nat.ne_of_gt (Nat.lt_of_lt_of_le (by decide) h.range.1)
  obtain ⟨block, hfind, hcase⟩ := h.find aligned
  rw [hfind]
  dsimp only
  rcases hcase with ⟨rfl, -⟩ | hfound
  · rw [if_neg (by simp)]
    rcases h.expand_kept ops ho aligned with ⟨p, he⟩ | ⟨s', bs', he, hkept⟩
    · rw [he]
      exact ⟨_, rfl, bs, ⟨⟨h.initialized, h.links, h.nonempty, h.first, h.last, h.tiles, h.limit,
        h.aligned⟩, ho, fun _ _ _ _ _ => rfl, id⟩, .inl rfl⟩
    · rw [he]
      dsimp only
      obtain ⟨block, hfind, hcase⟩ := hkept.layout.find aligned
      rw [hfind]
      dsimp only
      rcases hcase with ⟨rfl, -⟩ | hfound
      · rw [if_pos rfl]
        exact ⟨_, rfl, bs', hkept, .inl rfl⟩
      · rw [if_neg (hpos _ _ _ hkept.layout hfound)]
        exact ⟨_, rfl, htake s' _ _ hkept hfound⟩
  · rw [if_pos (hpos _ _ _ h hfound)]
    exact ⟨_, rfl, htake s bs block hstays hfound⟩

/-- Joining two free neighbours keeps the live pointers. -/
theorem merge_inv (h : Layout s (xs ++ b :: ys)) (ho : Owned live (xs ++ b :: ys))
    (hb : b.free = true) :
    ∃ c zs, Layout (heapMergeWithNext s (endOf kernelHeapStart xs)) (xs ++ c :: zs) ∧
      c.free = true ∧ Owned live (xs ++ c :: zs) ∧
      Unchanged live s.mem (heapMergeWithNext s (endOf kernelHeapStart xs)).mem ∧
      (Coalesced ys → Coalesced (c :: zs)) := by
  rcases h.merge with ⟨he, hnext⟩ | ⟨y, zs, rfl, hy, hl⟩
  · rw [he]
    refine ⟨b, ys, h, hb, ho, fun _ _ _ _ _ => rfl, fun hc => coalesced_cons.mpr ⟨?_, hc⟩⟩
    exact fun y zs hy => .inr (hnext y zs hy)
  · have ho' : Owned live (xs ++ ([b, y] ++ zs)) := ho
    have ho'' : Owned live (xs ++ ([{ b with size := b.size + 32 + y.size }] ++ zs)) := by
      refine ho'.editFree _ (.inr ?_) ?_
      · simp only [endOf]
        omega
      · intro d hd
        rcases mem_cons.mp hd with rfl | hd
        · exact hb
        · exact mem_singleton.mp hd ▸ hy
    refine ⟨_, zs, hl, hb, ho'', h.merge_payloads.unchanged ho ho'', fun hc => hc.congr ?_⟩
    simp only [map_cons, hb, hy]

/-- `kfree` of the payload of a used block nobody owns any more. -/
theorem heapFreeUnlocked_inv (h : Layout s bs) (hab : (a, b) ∈ placed kernelHeapStart bs)
    (hused : b.free = false) (hpos : 0 < b.size) (ho : Owned live bs)
    (hdead : live (a + 32) = none) :
    ∃ bs', Kept live s bs (heapFreeUnlocked s (a + 32)) bs' := by
  have hptr := h.blockFromPointer hab hpos
  have hhead := (header_placed h.links hab).2.2
  obtain ⟨xs, ys, rfl, rfl⟩ := mem_placed.mp hab
  have ha := h.range.1
  unfold heapFreeUnlocked
  rw [if_neg (by omega)]
  dsimp only
  rw [hptr, if_neg (by omega), hhead, hused, if_neg (by simp)]
  have h1 := h.setFree true
  have ho1 : Owned live (xs ++ { b with free := true } :: ys) := by
    have ho' : Owned live (xs ++ ([b] ++ ys)) := ho
    refine ho'.edit [{ b with free := true }] (.inr rfl) fun a d n hl had _ _ => ?_
    obtain ⟨rfl, -⟩ : a = endOf kernelHeapStart xs ∧ d = b := by simpa [placed] using had
    exact absurd (hdead.symm.trans hl) (by simp)
  have hbytes1 := (setFree_payloads (m := s.mem) (b := b) true).unchanged ho ho1
  obtain ⟨c, zs, h2, hc, ho2, hbytes2, hjoin⟩ := merge_inv h1 ho1 rfl
  have hA := h2.header_at
  rw [hA]
  dsimp only
  -- merge into the block before, if there is one and it is free
  obtain rfl | ⟨us, w, rfl⟩ := eq_nil_or_concat xs
  · rw [if_neg (by simp [lastOf])]
    refine ⟨_, h2, ho2, hbytes1.trans hbytes2, fun hco => ?_⟩
    exact hjoin (coalesced_cons.mp hco).2
  · rw [concat_eq_append] at *
    have hprev : lastOf 0 kernelHeapStart (us ++ [w]) = endOf kernelHeapStart us := by
      rw [lastOf_append]; rfl
    rw [hprev]
    have h2' := h2
    have ho2' := ho2
    rw [append_assoc, singleton_append] at h2' ho2'
    have hW := h2'.header_at
    have hu := h2'.range.1
    have hbehind : Coalesced (us ++ [w] ++ b :: ys) → Coalesced (c :: zs) :=
      fun hco => hjoin (coalesced_cons.mp hco.right).2
    split
    next hw =>
      rw [hW] at hw
      obtain ⟨d, vs, h3, hd, ho3, hbytes3, hjoin'⟩ := merge_inv h2' ho2' hw.2
      refine ⟨_, h3, ho3, (hbytes1.trans hbytes2).trans hbytes3, fun hco => ?_⟩
      refine coalesced_split.mpr ⟨hco.left.congr ?_, hjoin' (hbehind hco)⟩
      have hflag : w.free = true := hw.2
      simp only [map_append, map_cons, map_nil, hflag, hd]
    next hw =>
      refine ⟨_, h2, ho2, hbytes1.trans hbytes2, fun hco => ?_⟩
      have hwused : w.free = false := by
        rw [hW] at hw
        cases hflag : w.free with
        | false => rfl
        | true => exact absurd ⟨by omega, hflag⟩ hw
      rw [append_assoc, singleton_append, coalesced_split, coalesced_cons]
      exact ⟨hco.left, fun _ _ _ => .inl hwused, hbehind hco⟩

/-- A used block that keeps its address and is large enough serves a new request. -/
theorem Owned.regrant {zs : List Block} {cut : Nat}
    (hd : Owned (update live (endOf kernelHeapStart xs + 32) none)
      (xs ++ { size := cut, free := false } :: zs)) (hn : n ≤ cut) (hpos : 0 < n) :
    Owned (update (update live (endOf kernelHeapStart xs + 32) none)
      (endOf kernelHeapStart xs + 32) (some n)) (xs ++ { size := cut, free := false } :: zs) := by
  intro q k hq
  by_cases hqp : q = endOf kernelHeapStart xs + 32
  · subst hqp
    rw [update_self] at hq
    obtain rfl := Option.some.inj hq
    exact ⟨_, _, rfl, placed_mid _ _ _, rfl, hn, hpos⟩
  · rw [update_of_ne hqp] at hq
    exact hd q k hq

/-- What `krealloc` of the payload behind `p`, of `old` bytes, comes to. -/
structure Resized (live : Nat → Option Nat) (s : Heap σ) (p old newSize q : Nat) (s' : Heap σ)
    (bs' : List Block) : Prop where
  layout : Layout s' bs'
  fresh : q = p ∨ live q = none
  owned : Owned (update (update live p none) q (some newSize)) bs'
  unchanged : Unchanged (update live p none) s.mem s'.mem
  bytes : ∀ i, i < old → i < newSize → s'.mem (q + i) = s.mem (p + i)

variable {old newSize : Nat}

/-- The requests that are live after a block was served again in its place. -/
theorem Resized.inPlace {s' : Heap σ} (hold : live p = some old)
    (hl : Layout s' bs')
    (ho' : Owned (update (update live p none) p (some newSize)) bs')
    (hsame : SamePayloads bs bs' s.mem s'.mem) (ho : Owned live bs) :
    Resized live s p old newSize p s' bs' where
  layout := hl
  fresh := .inl rfl
  owned := ho'
  unchanged := by
    refine hsame.unchanged (ho.drop p) ?_
    have hdrop := ho'.drop p
    rwa [update_idem, update_idem] at hdrop
  bytes i hi hi' := hsame _ (ho.payload hold hi) (ho'.payload (update_self ..) hi')

/-- `krealloc` that cuts the block in place. -/
theorem shrink_inv (h : Layout s (xs ++ b :: ys)) (ho : Owned live (xs ++ b :: ys))
    (hused : b.free = false) {aligned : Nat} (hal : aligned % 16 = 0) (hfit : aligned ≤ b.size)
    (hn : n ≤ aligned) (hpos : 0 < n) {old : Nat}
    (hold : live (endOf kernelHeapStart xs + 32) = some old) :
    ∃ bs', Resized live s (endOf kernelHeapStart xs + 32) old n (endOf kernelHeapStart xs + 32)
        (heapSplitBlock s (endOf kernelHeapStart xs) aligned) bs' ∧
      ((aligned + 48 ≤ b.size → ∀ y zs, ys = y :: zs → y.free = false) →
        Coalesced (xs ++ b :: ys) → Coalesced bs') := by
  obtain ⟨cut, rest, hl, hcase⟩ := h.split hfit hal
  have hsame := h.split_payloads hfit hcase
  rw [hused] at hl hsame
  refine ⟨_, .inPlace hold hl (Owned.regrant ?_ ?_ hpos) hsame ho, fun hno hc => hc.cut rfl ?_⟩
  · have ho' : Owned _ (xs ++ ([b] ++ ys)) := ho.drop (endOf kernelHeapStart xs + 32)
    refine ho'.edit ({ size := cut, free := false } :: rest) (.inr ?_) ?_
    · rcases hcase with ⟨rfl, rfl, -⟩ | ⟨rfl, hroom, rfl⟩
      · rfl
      · simp only [endOf]
        omega
    · intro c d n hl had _ _
      obtain ⟨rfl, -⟩ : c = endOf kernelHeapStart xs ∧ d = b := by simpa [placed] using had
      simp at hl
  · rcases hcase with ⟨rfl, -⟩ | ⟨rfl, -⟩ <;> omega
  · rcases hcase with ⟨-, rfl, -⟩ | ⟨-, hroom, rfl⟩
    · exact .inl rfl
    · exact .inr ⟨⟨_, rfl⟩, hno hroom⟩

theorem Resized.after {s' s'' : Heap σ} {old newSize q : Nat} (hold : live p = some old)
    (h : Unchanged live s.mem s'.mem) (hr : Resized live s' p old newSize q s'' bs') :
    Resized live s p old newSize q s'' bs' :=
  { hr with
    unchanged := (h.drop p).trans hr.unchanged
    bytes i hi hi' := (hr.bytes i hi hi').trans (h p old hold i hi) }

theorem setFree_same (hused : (header m a).free = false) : setFree m a false = m := by
  have hbyte : m (a + 16) = 0 := by
    have hflag : (m (a + 16) != 0) = false := hused
    simpa using hflag
  funext x
  by_cases hx : x = a + 16
  · subst hx
    rw [hbyte]
    exact put8_self _ _ _
  · exact put8_within m (a + 16) _ x (by omega)

/-- `krealloc` that grows into the free block behind: the two are joined and cut again. -/
theorem grow_inv {y : Block} (h : Layout s (xs ++ b :: y :: ys))
    (ho : Owned live (xs ++ b :: y :: ys)) (hused : b.free = false) (hy : y.free = true)
    {aligned : Nat} (hal : aligned % 16 = 0) (hfit : aligned ≤ b.size + 32 + y.size)
    (hn : n ≤ aligned) (hpos : 0 < n) {old : Nat}
    (hold : live (endOf kernelHeapStart xs + 32) = some old) :
    ∃ bs', Resized live s (endOf kernelHeapStart xs + 32) old n (endOf kernelHeapStart xs + 32)
        (let s := heapSplitBlock (heapMergeWithNext s (endOf kernelHeapStart xs))
          (endOf kernelHeapStart xs) aligned
        { s with mem := setFree s.mem (endOf kernelHeapStart xs) false }) bs' ∧
      (Coalesced (xs ++ b :: y :: ys) → Coalesced bs') := by
  rcases h.merge with ⟨-, hno⟩ | ⟨y', zs, he, -, hl⟩
  · exact absurd (hy.symm.trans (hno y ys rfl)) (by simp)
  obtain ⟨rfl, rfl⟩ := List.cons.inj he
  have hjoined : Owned live (xs ++ { b with size := b.size + 32 + y.size } :: ys) := by
    have ho' : Owned live (xs ++ ([b, y] ++ ys)) := ho
    refine ho'.edit [{ b with size := b.size + 32 + y.size }] (.inr ?_) fun c d n hl had hdu hd => ?_
    · simp only [endOf]
      omega
    · have had' : (c = endOf kernelHeapStart xs ∧ d = b) ∨
          (c = endOf kernelHeapStart xs + 32 + b.size ∧ d = y) := by simpa [placed] using had
      rcases had' with ⟨rfl, rfl⟩ | ⟨-, rfl⟩
      · exact ⟨_, mem_singleton.mpr rfl, hused, by show n ≤ d.size + 32 + y.size; omega⟩
      · exact absurd (hy.symm.trans hdu) (by simp)
  obtain ⟨bs', hresized, hcoalesced⟩ := shrink_inv hl hjoined hused hal hfit hn hpos hold
  have hflag : (header (heapSplitBlock (heapMergeWithNext s (endOf kernelHeapStart xs))
      (endOf kernelHeapStart xs) aligned).mem (endOf kernelHeapStart xs)).free = false := by
    obtain ⟨c, d, hc, hcd, hdused, -⟩ := hresized.owned _ n (update_self ..)
    obtain rfl : endOf kernelHeapStart xs = c := by omega
    exact (header_placed hresized.layout.links hcd).2.2.trans hdused
  refine ⟨bs', ?_, fun hc => hcoalesced ?_ ?_⟩
  · dsimp only
    rw [setFree_same hflag]
    exact hresized.after hold (h.merge_payloads.unchanged ho hjoined)
  · have hbehind : Coalesced ([] ++ y :: ys) := (coalesced_cons.mp hc.right).2
    exact fun _ => hbehind.behind hy
  · rw [coalesced_split, coalesced_cons]
    exact ⟨hc.left.snoc hused, fun _ _ _ => .inl hused,
      (coalesced_cons.mp (coalesced_cons.mp hc.right).2).2⟩

/-- `krealloc` that moves the contents to a new block. -/
theorem heapMoveBlock_inv (h : Layout s bs) (ho : Owned live bs)
    (hold : live (a + 32) = some old) :
    ∃ r, heapMoveBlock ops s a (a + 32) newSize = some r ∧ ∃ bs', (Coalesced bs → Coalesced bs') ∧
      ((r.1 = 0 ∧ Kept live s bs r.2 bs') ∨
        (r.1 ≠ 0 ∧ Resized live s (a + 32) old newSize r.1 r.2 bs')) := by
  obtain ⟨⟨q, s'⟩, he, bs', hkept, hcase⟩ := heapAllocateUnlocked_inv ops h ho newSize
  unfold heapMoveBlock
  rw [he]
  dsimp only at hkept hcase ⊢
  rcases hcase with rfl | ⟨hq, hnone, ho'⟩
  · rw [if_pos rfl]
    exact ⟨_, rfl, bs', hkept.coalesced, .inl ⟨rfl, hkept⟩⟩
  rw [if_neg hq]
  have hne : q ≠ a + 32 := by
    rintro rfl
    exact absurd (hnone.symm.trans hold) (by simp)
  -- the old block is where it was, the new one is elsewhere
  obtain ⟨c, d, hc, hcd, hdused, hdfit, hdpos⟩ :=
    ho' _ old ((update_of_ne (Ne.symm hne) ..).trans hold)
  obtain ⟨e, f, rfl, hef, -, hffit, -⟩ := ho' q newSize (update_self ..)
  obtain rfl : a = c := by omega
  rw [(header_placed hkept.layout.links hcd).1]
  generalize hk : (if d.size < newSize then d.size else newSize) = k
  have hkle : k ≤ newSize ∧ ∀ i, i < old → i < newSize → i < k := by
    subst hk
    split
    next => exact ⟨by omega, fun i hi _ => by omega⟩
    next => exact ⟨by omega, fun i _ hi => hi⟩
  have hw : Within s'.mem (copy s'.mem (e + 32) (a + 32) k) (e + 32) (e + 32 + f.size) :=
    (copy_within _ _ _ _).mono (Nat.le_refl _) (by omega)
  have hlw : Layout { s' with mem := copy s'.mem (e + 32) (a + 32) k } bs' :=
    hkept.layout.writePayload hef hw
  have hcopied := hkept.owned.unchanged hef hnone hw
  obtain ⟨bs'', hfree⟩ := heapFreeUnlocked_inv hlw hcd hdused (by omega)
    (ho'.drop (a + 32)) (update_self ..)
  refine ⟨_, rfl, bs'', fun hco => hfree.coalesced (hkept.coalesced hco), .inr ⟨hq, ?_⟩⟩
  refine ⟨hfree.layout, .inr hnone, ?_, ?_, fun i hi hi' => ?_⟩
  · rw [update_comm hne.symm]
    exact hfree.owned
  · refine ((hkept.unchanged.trans hcopied).drop (a + 32)).trans
      (hfree.unchanged.restrict fun r k hr => ⟨k, ?_, Nat.le_refl k⟩)
    obtain ⟨hr, hra⟩ := update_none_sub _ _ hr
    have hrq : r ≠ e + 32 := by
      rintro rfl
      exact absurd (hnone.symm.trans hr) (by simp)
    rw [update_of_ne hra, update_of_ne hrq, hr]
  · have hlive : update (update live (e + 32) (some newSize)) (a + 32) none (e + 32) =
        some newSize := by
      rw [update_of_ne hne, update_self]
    refine (hfree.unchanged (e + 32) newSize hlive i hi').trans ?_
    have hcopy : copy s'.mem (e + 32) (a + 32) k (e + 32 + i) = s'.mem (a + 32 + i) := by
      have hik := hkle.2 i hi hi'
      unfold copy
      rw [if_pos ⟨Nat.le_add_right _ _, by omega⟩, Nat.add_sub_cancel_left]
    exact hcopy.trans (hkept.unchanged (a + 32) old hold i hi)

/-- `krealloc` cuts off the end of a block whose successor is free. -/
def CutsBeforeFree (s : Heap σ) (pointer newSize : Nat) : Prop :=
  let block := header s.mem (pointer - headerSize)
  pointer ≠ 0 ∧ newSize ≠ 0 ∧ alignUpSize newSize heapAlignment ≠ 0 ∧
    alignUpSize newSize heapAlignment + (headerSize + heapMinimumPayload) ≤ block.size ∧
    block.next ≠ 0 ∧ (header s.mem block.next).free = true

instance (s : Heap σ) (pointer newSize : Nat) : Decidable (CutsBeforeFree s pointer newSize) :=
  inferInstanceAs (Decidable (_ ∧ _))

/-- What `krealloc` of a live pointer does to the live pointers. -/
theorem heapReallocateUnlocked_inv (h : Layout s bs) (ho : Owned live bs)
    (hold : live p = some old) (hnew : newSize ≠ 0) :
    ∃ r, heapReallocateUnlocked ops s p newSize = some r ∧ ∃ bs',
      (¬CutsBeforeFree s p newSize → Coalesced bs → Coalesced bs') ∧
      ((r.1 = 0 ∧ Kept live s bs r.2 bs') ∨
        (r.1 ≠ 0 ∧ Resized live s p old newSize r.1 r.2 bs')) := by
  obtain ⟨a, b, rfl, hab, hused, hfit, hpos⟩ := ho p old hold
  have hptr := h.blockFromPointer hab (by omega)
  have hhead := header_placed h.links hab
  have ha : a ≠ 0 := Nat.ne_of_gt (Nat.lt_of_lt_of_le (by decide) (placed_range hab).1)
  have hstays := Kept.refl h ho
  unfold heapReallocateUnlocked
  rw [if_neg (by omega), if_neg hnew]
  dsimp only
  rw [hptr, if_neg ha, hhead.2.2, hused, if_neg (by simp)]
  by_cases haz : alignUpSize newSize heapAlignment = 0
  · rw [if_pos haz]
    exact ⟨_, rfl, bs, fun _ => id, .inl ⟨rfl, hstays⟩⟩
  rw [if_neg haz]
  obtain ⟨hle, hal⟩ := alignUpSize_spec haz
  have hpos' := Nat.pos_of_ne_zero hnew
  obtain ⟨xs, ys, rfl, rfl⟩ := mem_placed.mp hab
  have hA := h.header_at
  rw [hhead.1]
  by_cases hbig : b.size ≥ alignUpSize newSize heapAlignment
  · rw [if_pos hbig]
    obtain ⟨bs', hresized, hcoalesced⟩ := shrink_inv h ho hused hal hbig hle hpos' hold
    refine ⟨_, rfl, bs', fun hno => hcoalesced fun hroom y zs hy => ?_, .inr ⟨by simp, hresized⟩⟩
    subst hy
    have hY := ((blocks_append _ _ _ _).mp h.links).2.2.1
    cases hfree : y.free with
    | false => rfl
    | true =>
      refine absurd ⟨by simp, hnew, haz, ?_⟩ hno
      rw [show endOf kernelHeapStart xs + 32 - headerSize = endOf kernelHeapStart xs from
        Nat.add_sub_cancel .., hA]
      refine ⟨hroom, by show endOf kernelHeapStart xs + 32 + b.size ≠ 0; omega, ?_⟩
      show (header s.mem (endOf kernelHeapStart xs + 32 + b.size)).free = true
      rw [hY]
      exact hfree
  rw [if_neg hbig, hA]
  dsimp only
  split
  next hgrow =>
    cases ys with
    | nil => exact absurd rfl hgrow.1
    | cons y zs =>
      have hY := ((blocks_append _ _ _ _).mp h.links).2.2.1
      rw [show follower 0 (endOf kernelHeapStart xs + 32 + b.size) (y :: zs) =
        endOf kernelHeapStart xs + 32 + b.size from rfl, hY] at hgrow
      obtain ⟨-, hy, hsum⟩ := hgrow
      have hsum' : alignUpSize newSize heapAlignment ≤ b.size + 32 + y.size :=
        Nat.le_trans hsum (Nat.mod_le _ _)
      obtain ⟨bs', hresized, hcoalesced⟩ := grow_inv h ho hused hy hal hsum' hle hpos' hold
      exact ⟨_, rfl, bs', fun _ => hcoalesced, .inr ⟨by simp, hresized⟩⟩
  next =>
    obtain ⟨r, hr, bs', hcoalesced, hcase⟩ := heapMoveBlock_inv ops h ho hold
    exact ⟨r, hr, bs', fun _ => hcoalesced, hcase⟩

end edits

end MeatySkeleton.Memory
