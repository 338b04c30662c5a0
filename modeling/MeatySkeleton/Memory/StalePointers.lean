import MeatySkeleton.Memory.HeapSafety

/-!
# Freeing a pointer twice

`heap_free_unlocked` tells a stale pointer by the header in front of it: either the block
is still there and free, or it was merged into the block before it, and
`heap_merge_with_next` has poisoned the header. So a second `kfree` does nothing
(`kfree_kfree`).
-/

namespace MeatySkeleton.Memory

open Lib

variable {σ : Type} {s : Heap σ} {b y : Block} {bs xs ys zs : List Block} {p : Nat}

/-- The header in front of `p` is not that of a block in use. -/
def Stale (s : Heap σ) (p : Nat) : Prop :=
  (header s.mem (p - headerSize)).magic ≠ heapBlockMagic ∨
    (header s.mem (p - headerSize)).free = true

theorem heapBlockFromPointer_cases (s : Heap σ) (p : Nat) :
    heapBlockFromPointer s p = 0 ∨ (heapBlockFromPointer s p = p - headerSize ∧
      (header s.mem (p - headerSize)).magic = heapBlockMagic) := by
  unfold heapBlockFromPointer
  by_cases hmagic : (header s.mem (p - headerSize)).magic = heapBlockMagic
  · rw [if_neg (not_not.mpr hmagic)]
    split_ifs
    all_goals first | exact .inl rfl | exact .inr ⟨rfl, hmagic⟩
  · rw [if_pos hmagic]
    simp only [ite_self, true_or]

/-- Freeing a stale pointer changes nothing. -/
theorem Stale.kfree_eq (h : Stale s p) : kfree s p = s := by
  unfold kfree heapFreeUnlocked
  rcases heapBlockFromPointer_cases s p with hnull | ⟨hblock, hmagic⟩
  · simp only [hnull, if_pos, ite_self]
  · -- the block is still there, so it is free
    have hfree := h.resolve_left (not_not.mpr hmagic)
    simp only [hblock, hfree, if_pos, ite_self]

/-- A merge poisons the header of the block that is taken in. -/
theorem Layout.merge_poisons (h : Layout s (xs ++ b :: y :: zs)) (hy : y.free = true) :
    (header (heapMergeWithNext s (endOf kernelHeapStart xs)).mem
      (endOf kernelHeapStart xs + 32 + b.size)).magic ≠ heapBlockMagic := by
  obtain ⟨hlo, -, hhi⟩ := h.range
  have hA := h.header_at
  have hY := ((blocks_append _ _ _ _).mp h.links).2.2.1
  have hend : endOf kernelHeapStart xs + 32 + b.size < 2 ^ 32 := by
    have hinner := h.range.2.1
    have hle := le_endOf (endOf kernelHeapStart xs + 32 + b.size) (y :: zs)
    omega
  generalize endOf kernelHeapStart xs = a at *
  have hnext : (header s.mem a).next = a + 32 + b.size := by
    rw [hA]
    rfl
  have hsize : (header s.mem a).size = b.size := by rw [hA]
  have hfree : (header s.mem (a + 32 + b.size)).free = true := by
    rw [hY]
    exact hy
  unfold heapMergeWithNext
  simp only [hnext, hfree, hsize, headerSize]
  rw [if_neg (by simp), if_neg (by rw [u32_of_lt hend]; simp)]
  simp only [header_setFree, header_setSize, header_setNext, header_setPrevious, header_setMagic]
  decide

/-- A merge leaves a free block free. -/
theorem Layout.merge_free (h : Layout s (xs ++ b :: ys)) (hb : b.free = true) :
    ∃ c zs, Layout (heapMergeWithNext s (endOf kernelHeapStart xs)) (xs ++ c :: zs) ∧
      c.free = true := by
  rcases h.merge with ⟨he, -⟩ | ⟨y, zs, -, -, hl⟩
  · rw [he]
    exact ⟨b, ys, h, hb⟩
  · exact ⟨_, zs, hl, hb⟩

/-- After `kfree` of a block in use its pointer is stale, whatever was merged. -/
theorem Layout.kfree_stale {a : Nat} (h : Layout s bs) (hab : (a, b) ∈ placed kernelHeapStart bs)
    (hused : b.free = false) (hpos : 0 < b.size) : Stale (kfree s (a + 32)) (a + 32) := by
  have hptr := h.blockFromPointer hab hpos
  have hhead := (header_placed h.links hab).2.2
  obtain ⟨xs, ys, rfl, rfl⟩ := mem_placed.mp hab
  have ha := h.range.1
  unfold Stale kfree heapFreeUnlocked
  rw [if_neg (by omega), if_neg (by omega), show endOf kernelHeapStart xs + 32 - headerSize =
    endOf kernelHeapStart xs from Nat.add_sub_cancel ..]
  dsimp only
  rw [hptr, if_neg (by omega), hhead, hused, if_neg (by simp)]
  obtain ⟨c, zs, hl, hc⟩ := (h.setFree true).merge_free rfl
  have hC := hl.header_at
  split
  next hprevious =>
    -- the block before is free as well, and takes this one in
    left
    rw [hC] at hprevious ⊢
    obtain rfl | ⟨us, w, rfl⟩ := List.eq_nil_or_concat xs
    · exact absurd rfl hprevious.1
    · rw [List.concat_eq_append] at *
      have hlast : lastOf 0 kernelHeapStart (us ++ [w]) = endOf kernelHeapStart us := by
        rw [lastOf_append]
        rfl
      have hend : endOf kernelHeapStart (us ++ [w]) = endOf kernelHeapStart us + 32 + w.size := by
        rw [endOf_append]
        rfl
      rw [List.append_assoc, List.singleton_append] at hl
      have hpoisoned := hl.merge_poisons hc
      rw [← hend] at hpoisoned
      dsimp only
      rw [hlast]
      exact hpoisoned
  next =>
    right
    rw [hC]
    exact hc

/-- A second `kfree` of a live pointer changes nothing, at any time. -/
theorem kfree_kfree (ops : PageOps σ) {s : Heap σ} (hs : s.initialized = false)
    (hi : (heapInitialize ops s).initialized = true) {ls : List Call} {c : Client σ}
    (hr : Run (call ops) { heap := heapInitialize ops s, live := fun _ => none } ls c)
    {p n : Nat} (hp : c.live p = some n) :
    kfree (kfree c.heap p) p = kfree c.heap p := by
  obtain ⟨bs, h⟩ := run_heapInv ops hs hi hr
  obtain ⟨a, b, rfl, hab, hused, hfit, hpos⟩ := h.owned p n hp
  exact (h.layout.kfree_stale hab hused (by omega)).kfree_eq

/-- The middle one of three allocations is freed twice, between a free block and the rest
of the heap. -/
theorem kfree_kfree_middle : ∃ c : Client Nat, Run (call countedFrames)
    { heap := heapInitialize countedFrames unmappedHeap, live := fun _ => none }
      [.kmalloc 100, .kmalloc 200, .kfree 0xD0000020] c ∧
    kfree (kfree c.heap 0xD00000B0) 0xD00000B0 = kfree c.heap 0xD00000B0 := by
  have hrun : (exec (call countedFrames) (fun _ _ => True)
      { heap := heapInitialize countedFrames unmappedHeap, live := fun _ => none }
      [.kmalloc 100, .kmalloc 200, .kfree 0xD0000020]).any
        (fun c => c.live 0xD00000B0 == some 200) := by decide +kernel
  obtain ⟨c, hc, hp⟩ := (Option.any_eq_true _ _).mp hrun
  have hr := run_of_exec hc
  exact ⟨c, hr, kfree_kfree countedFrames (s := unmappedHeap) rfl (by decide +kernel) hr
    (eq_of_beq hp)⟩

end MeatySkeleton.Memory
