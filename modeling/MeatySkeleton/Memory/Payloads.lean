import Mathlib.Data.List.Chain
import MeatySkeleton.Memory.HeapLayout

/-!
# Payloads

The functions of `heap.c` write headers. A byte that is payload both before and after one of
them is left alone (`SamePayloads`); whether free neighbours meet (`Coalesced`) can be read off
the flags of the row.
-/

namespace MeatySkeleton.Memory

open List Lib

variable {σ : Type} {s : Heap σ} {b d y : Block} {bs bs' xs ys zs rest : List Block}
  {m m' : Mem} {a c x requested : Nat}

/-! ## Bytes of payloads -/

/-- The byte at `x` lies in a payload of the row. -/
def Payload (bs : List Block) (x : Nat) : Prop :=
  ∃ a b, (a, b) ∈ placed kernelHeapStart bs ∧ a + 32 ≤ x ∧ x < a + 32 + b.size

/-- What is payload in both rows is the same in both memories. -/
def SamePayloads (bs bs' : List Block) (m m' : Mem) : Prop :=
  ∀ x, Payload bs x → Payload bs' x → m' x = m x

theorem placed_mid (xs : List Block) (b : Block) (ys : List Block) :
    (endOf kernelHeapStart xs, b) ∈ placed kernelHeapStart (xs ++ b :: ys) :=
  mem_placed.mpr ⟨xs, ys, rfl, rfl⟩

/-- No header lies in a payload. -/
theorem Payload.apart (hx : Payload bs x) (hc : (c, d) ∈ placed kernelHeapStart bs) :
    x < c ∨ c + 32 ≤ x := by
  obtain ⟨a, b, hab, hlo, hhi⟩ := hx
  rcases placed_disjoint hab hc with ⟨rfl, -⟩ | hbefore | hbehind
  · exact .inr hlo
  · exact .inl (by omega)
  · exact .inr (by omega)

theorem Payload.range (hx : Payload bs x) :
    kernelHeapStart + 32 ≤ x ∧ x < endOf kernelHeapStart bs := by
  obtain ⟨a, b, hab, hlo, hhi⟩ := hx
  have hrange := placed_range hab
  omega

/-- The header that a block points forward to. -/
theorem Payload.apart_follower (hx : Payload (xs ++ b :: ys) x) :
    x < follower 0 (endOf kernelHeapStart xs + 32 + b.size) ys ∨
      follower 0 (endOf kernelHeapStart xs + 32 + b.size) ys + 32 ≤ x := by
  cases ys with
  | nil =>
    have hlo := hx.range.1
    exact .inr (by show 0 + 32 ≤ x; omega)
  | cons y zs =>
    refine hx.apart (d := y) (mem_placed.mpr ⟨xs ++ [b], zs, by simp, ?_⟩)
    rw [endOf_append]
    rfl

/-! ## What the operations write -/

/-- `heap_split_block` writes three headers. -/
theorem heapSplitBlock_mem {block : Nat} (hblock : x < block ∨ block + 32 ≤ x)
    (hnew : x < block + 32 + requested ∨ block + 32 + requested + 32 ≤ x)
    (hnext : x < (header s.mem block).next ∨ (header s.mem block).next + 32 ≤ x)
    (hlt : block + 32 + requested < 2 ^ 32) :
    (heapSplitBlock s block requested).mem x = s.mem x := by
  unfold heapSplitBlock
  simp only [headerSize, u32_of_lt hlt]
  split
  next => rfl
  next =>
    split
    next => rfl
    next =>
      generalize hm2 : setPrevious (setSize s.mem (block + 32 + requested) _) _ block = m2
      have hw2 : Within s.mem m2 (block + 32 + requested) (block + 32 + requested + 32) := by
        subst hm2
        exact (setSize_within _ _ _).trans (setPrevious_within _ _ _)
      have hsame : (header m2 block).next = (header s.mem block).next :=
        congrArg Header.next (header_within hw2 (.inl (by omega)))
      rw [hsame]
      generalize hm5 : setFree (setMagic (setNext m2 (block + 32 + requested) _) _ _) _ true = m5
      have hw5 : Within s.mem m5 (block + 32 + requested) (block + 32 + requested + 32) := by
        subst hm5
        exact hw2.trans (((setNext_within _ _ _).trans (setMagic_within _ _ _)).trans
          (setFree_within _ _ _))
      have hpoints : (header m5 (block + 32 + requested)).next = (header s.mem block).next := by
        subst hm5
        rw [header_setFree, header_setMagic, header_setNext]
        exact u32_of_lt (get32_lt _ _)
      rw [hpoints]
      split
      next =>
        refine (setNext_within _ _ _ x hblock).trans ((setSize_within _ _ _ x hblock).trans ?_)
        exact (setPrevious_within _ _ _ x hnext).trans (hw5 x hnew)
      next =>
        refine (setNext_within _ _ _ x hblock).trans ((setSize_within _ _ _ x hblock).trans ?_)
        exact hw5 x hnew

/-- `heap_merge_with_next` writes three headers as well. -/
theorem heapMergeWithNext_mem {block next : Nat} (hnext : (header s.mem block).next = next)
    (hblock : x < block ∨ block + 32 ≤ x) (hapart : x < next ∨ next + 32 ≤ x)
    (hlast : x < (header s.mem next).next ∨ (header s.mem next).next + 32 ≤ x)
    (hlo : block + 32 ≤ next) : (heapMergeWithNext s block).mem x = s.mem x := by
  unfold heapMergeWithNext
  simp only [hnext]
  split
  next => rfl
  next =>
    split
    next => rfl
    next =>
      generalize hm1 : setSize s.mem block _ = m1
      have hw1 : Within s.mem m1 block (block + 32) := by
        subst hm1
        exact setSize_within _ _ _
      have hsame : (header m1 next).next = (header s.mem next).next :=
        congrArg Header.next (header_within hw1 (.inr hlo))
      rw [hsame]
      have hpoints : (header (setNext m1 block (header s.mem next).next) block).next =
          (header s.mem next).next := by
        rw [header_setNext]
        exact u32_of_lt (get32_lt _ _)
      rw [hpoints]
      have hpoisoned : ∀ m3 : Mem, setFree (setSize (setNext (setPrevious (setMagic m3 next 0)
          next 0) next 0) next 0) next false x = m3 x := by
        intro m3
        exact ((((setMagic_within m3 _ _).trans (setPrevious_within _ _ _)).trans
          (setNext_within _ _ _)).trans (setSize_within _ _ _)).trans (setFree_within _ _ _) x hapart
      refine (hpoisoned _).trans ?_
      split
      next =>
        refine (setPrevious_within _ _ _ x hlast).trans ((setNext_within _ _ _ x hblock).trans ?_)
        exact hw1 x hblock
      next => exact (setNext_within _ _ _ x hblock).trans (hw1 x hblock)

/-- `heap_expand` writes the header of the last block, and behind the mapped heap. -/
theorem heapExpand_mem (ops : PageOps σ) {minimumPayload : Nat}
    (hlast : x < s.lastBlock ∨ s.lastBlock + 32 ≤ x) (hend : x < s.mappedEnd) :
    (heapExpand ops s minimumPayload).2.mem x = s.mem x := by
  have hnew : ∀ (m : Mem) k, setFree (setMagic (setNext (setPrevious (setSize m s.mappedEnd k)
      s.mappedEnd s.lastBlock) s.mappedEnd 0) s.mappedEnd heapBlockMagic) s.mappedEnd true x = m x := by
    intro m k
    exact ((((setSize_within m _ _).trans (setPrevious_within _ _ _)).trans
      (setNext_within _ _ _)).trans (setMagic_within _ _ _)).trans (setFree_within _ _ _) x (.inl hend)
  unfold heapExpand
  split
  next => rfl
  next =>
    dsimp only
    split
    next => rfl
    next =>
      generalize (if pagesForSize (headerSize + minimumPayload) < heapMinimumExpansion then
        heapMinimumExpansion else pagesForSize (headerSize + minimumPayload)) = count
      split
      next => rfl
      next =>
        split
        next => rfl
        next =>
          split
          next => rfl
          next =>
            have hfilled := fill_within s.mem s.mappedEnd (count * pageSize) 0 x (.inl hend)
            split
            next => rfl
            next =>
              split
              next => exact (setSize_within _ _ _ x hlast).trans hfilled
              next =>
                split
                next => exact (setNext_within _ _ _ x hlast).trans ((hnew _ _).trans hfilled)
                next => exact (hnew _ _).trans hfilled

/-! ## Rows and their payloads -/

theorem Layout.split_payloads (h : Layout s (xs ++ b :: ys)) {cut : Nat} (hr : requested ≤ b.size)
    (hcase : (cut = b.size ∧ rest = [] ∧ b.size < requested + 48) ∨
      (cut = requested ∧ requested + 48 ≤ b.size ∧
        rest = [{ size := b.size - requested - 32, free := true }])) :
    SamePayloads (xs ++ b :: ys) (xs ++ { b with size := cut } :: (rest ++ ys)) s.mem
      (heapSplitBlock s (endOf kernelHeapStart xs) requested).mem := by
  intro x hx hx'
  obtain ⟨hlo, hend, hhi⟩ := h.range
  have hheader := h.header_at
  rcases hcase with ⟨rfl, rfl, hsmall⟩ | ⟨rfl, hroom, rfl⟩
  · -- nothing is cut off
    unfold heapSplitBlock
    simp only [hheader, headerSize, heapMinimumPayload, heapAlignment]
    rw [if_neg (by omega), if_pos (by omega)]
  · have hnew : x < endOf kernelHeapStart xs + 32 + cut ∨
        endOf kernelHeapStart xs + 32 + cut + 32 ≤ x := by
      refine hx'.apart (d := { size := b.size - cut - 32, free := true })
        (mem_placed.mpr ⟨xs ++ [{ b with size := cut }], ys, by simp, ?_⟩)
      rw [endOf_append]
      rfl
    refine heapSplitBlock_mem (hx.apart (placed_mid xs b ys)) hnew ?_ (by omega)
    rw [hheader]
    exact hx.apart_follower

theorem Layout.merge_payloads (h : Layout s (xs ++ b :: y :: zs)) :
    SamePayloads (xs ++ b :: y :: zs) (xs ++ { b with size := b.size + 32 + y.size } :: zs) s.mem
      (heapMergeWithNext s (endOf kernelHeapStart xs)).mem := by
  intro x hx _
  have hheader := h.header_at
  have hend : endOf kernelHeapStart (xs ++ [b]) = endOf kernelHeapStart xs + 32 + b.size := by
    rw [endOf_append]
    rfl
  have hsame : xs ++ b :: y :: zs = (xs ++ [b]) ++ y :: zs := by simp
  have hfollower := hx.apart_follower
  rw [hsame] at h hx
  have hbehind := h.header_at
  rw [hend] at hbehind
  have hlink : (header s.mem (endOf kernelHeapStart xs)).next =
      endOf kernelHeapStart xs + 32 + b.size := by
    rw [hheader]
    rfl
  refine heapMergeWithNext_mem hlink
    (hx.apart (hsame ▸ placed_mid xs b (y :: zs))) hfollower ?_ (by omega)
  rw [hbehind, ← hend]
  exact hx.apart_follower

theorem setFree_payloads (v : Bool) : SamePayloads (xs ++ b :: ys)
    (xs ++ { b with free := v } :: ys) m (setFree m (endOf kernelHeapStart xs) v) :=
  fun x hx _ => setFree_within m _ v x (hx.apart (placed_mid xs b ys))

theorem Layout.expand_payloads (h : Layout s bs) (ops : PageOps σ) (minimumPayload : Nat) :
    SamePayloads bs bs' s.mem (heapExpand ops s minimumPayload).2.mem := by
  intro x hx _
  obtain ⟨us, w, rfl⟩ := eq_nil_or_concat bs |>.resolve_left h.nonempty
  rw [concat_eq_append] at h hx
  have hlast : s.lastBlock = endOf kernelHeapStart us := by
    rw [h.last, lastOf_append]
    rfl
  refine heapExpand_mem ops ?_ (h.tiles ▸ hx.range.2)
  rw [hlast]
  exact hx.apart (placed_mid us w [])

/-! ## Free neighbours -/

/-- No two neighbours are both free. -/
def Coalesced (bs : List Block) : Prop :=
  (bs.map Block.free).IsChain fun free free' => free = false ∨ free' = false

theorem coalesced_split : Coalesced (xs ++ b :: ys) ↔ Coalesced (xs ++ [b]) ∧ Coalesced (b :: ys) := by
  unfold Coalesced
  simp only [map_append, map_cons, map_nil]
  exact isChain_split

theorem coalesced_cons : Coalesced (b :: ys) ↔
    (∀ y zs, ys = y :: zs → b.free = false ∨ y.free = false) ∧ Coalesced ys := by
  unfold Coalesced
  rw [map_cons, isChain_cons]
  refine and_congr_left fun _ => ?_
  cases ys with
  | nil => simp
  | cons y zs => simp

/-- Only the flags matter. -/
theorem Coalesced.congr (h : Coalesced bs) (hflags : bs'.map Block.free = bs.map Block.free) :
    Coalesced bs' := by
  unfold Coalesced
  rw [hflags]
  exact h

theorem Coalesced.snoc (h : Coalesced xs) (hb : b.free = false) : Coalesced (xs ++ [b]) := by
  unfold Coalesced
  rw [map_append, map_singleton, isChain_append]
  refine ⟨h, isChain_singleton _, ?_⟩
  intro free _ free' hfree'
  simp only [head?_cons, Option.mem_def, Option.some.injEq] at hfree'
  exact .inr (hfree'.symm.trans hb)

theorem Coalesced.left (h : Coalesced (xs ++ ys)) : Coalesced xs := by
  unfold Coalesced at h
  rw [map_append] at h
  exact h.left_of_append

theorem Coalesced.right (h : Coalesced (xs ++ ys)) : Coalesced ys := by
  unfold Coalesced at h
  rw [map_append] at h
  exact h.right_of_append

/-- A block is in use now, and a free one may follow it where none follows yet. -/
theorem Coalesced.cut (h : Coalesced (xs ++ b :: ys)) (hd : d.free = false)
    (hrest : rest = [] ∨ (∃ e, rest = [e]) ∧ ∀ y zs, ys = y :: zs → y.free = false) :
    Coalesced (xs ++ d :: (rest ++ ys)) := by
  have hys : Coalesced ys := (coalesced_cons.mp h.right).2
  rw [coalesced_split, coalesced_cons]
  refine ⟨h.left.snoc hd, fun _ _ _ => .inl hd, ?_⟩
  rcases hrest with rfl | ⟨⟨e, rfl⟩, hused⟩
  · exact hys
  · exact coalesced_cons.mpr ⟨fun y zs hy => .inr (hused y zs hy), hys⟩

/-- A free block is followed by one in use. -/
theorem Coalesced.behind (h : Coalesced (xs ++ b :: ys)) (hb : b.free = true) :
    ∀ y zs, ys = y :: zs → y.free = false := by
  intro y zs hy
  have hpair := (coalesced_cons.mp h.right).1 y zs hy
  rw [hb] at hpair
  exact hpair.resolve_left nofun

/-- A block behind the last one, which is in use. -/
theorem Coalesced.append (h : Coalesced bs) (hlast : ∀ us w, bs = us ++ [w] → w.free = false) :
    Coalesced (bs ++ [d]) := by
  obtain rfl | ⟨us, w, rfl⟩ := eq_nil_or_concat bs
  · exact isChain_singleton _
  · rw [concat_eq_append] at h hlast ⊢
    rw [append_assoc, singleton_append, coalesced_split, coalesced_cons]
    exact ⟨h, fun _ _ _ => .inl (hlast us w rfl), isChain_singleton _⟩

end MeatySkeleton.Memory
