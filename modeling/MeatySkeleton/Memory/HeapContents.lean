import MeatySkeleton.Memory.HeapSafety

/-!
# Neighbours and contents

Two results about runs of the heap. Free neighbours come up in one way only: `krealloc` cuts
off the end of a block in front of a free one and does not join the two (`run_tidy_iff`).
And `krealloc` carries the contents over and leaves those of the others alone
(`krealloc_contents`).
-/

namespace MeatySkeleton.Memory

open Function Lib

variable {σ : Type} (ops : PageOps σ) {c c' : Client σ} {bs bs' : List Block}

/-! ## Free neighbours -/

/-- The headers say which blocks there are. -/
theorem Blocks.unique {m : Mem} {nxt : Nat} : ∀ {prev a : Nat} {bs bs' : List Block},
    Blocks m nxt prev a bs → Blocks m nxt prev a bs' → endOf a bs = endOf a bs' → bs = bs'
  | _, _, [], [], _, _, _ => rfl
  | _, a, [], b :: bs, _, _, hend => by
    have hle := le_endOf (a + 32 + b.size) bs
    simp only [endOf] at hend
    omega
  | _, a, b :: bs, [], _, _, hend => by
    have hle := le_endOf (a + 32 + b.size) bs
    simp only [endOf] at hend
    omega
  | _, a, b :: bs, b' :: bs', h, h', hend => by
    have hheader := h.1.symm.trans h'.1
    have hsize : b.size = b'.size := congrArg Header.size hheader
    have hfree : b.free = b'.free := congrArg Header.free hheader
    obtain rfl : b = b' := by
      cases b
      cases b'
      simp_all
    rw [Blocks.unique h.2 h'.2 hend]

/-- No two neighbours of the heap are both free. -/
def Tidy (c : Client σ) : Prop := ∃ bs, HeapSound c bs ∧ Coalesced bs

/-- What `krealloc` leaves where it cuts in front of a free block. -/
theorem heapReallocateUnlocked_cuts {s : Heap σ} {live : Nat → Option Nat} {p old newSize : Nat}
    (h : Layout s bs) (ho : Owned live bs) (hold : live p = some old)
    (hcuts : CutsBeforeFree s p newSize) :
    ∃ s' xs b d y zs, heapReallocateUnlocked ops s p newSize = some (p, s') ∧
      Layout s' (xs ++ b :: d :: y :: zs) ∧ d.free = true ∧ y.free = true := by
  obtain ⟨hp, hnew, haz, hroom, hnext, hfree⟩ := hcuts
  obtain ⟨a, b, rfl, hab, hused, hfit, hpos⟩ := ho p old hold
  have hptr := h.blockFromPointer hab (by omega)
  have hhead := header_placed h.links hab
  have ha : a ≠ 0 := Nat.ne_of_gt (Nat.lt_of_lt_of_le (by decide) (placed_range hab).1)
  have hback : a + 32 - headerSize = a := Nat.add_sub_cancel ..
  rw [hback] at hroom hnext hfree
  obtain ⟨xs, ys, rfl, rfl⟩ := mem_placed.mp hab
  have hA := h.header_at
  rw [hA] at hroom hnext hfree
  cases ys with
  | nil => exact absurd rfl hnext
  | cons y zs =>
    have hY := ((blocks_append _ _ _ _).mp h.links).2.2.1
    have hy : y.free = true := by
      change (header s.mem (endOf kernelHeapStart xs + 32 + b.size)).free = true at hfree
      rw [hY] at hfree
      exact hfree
    have hroom' : alignUpSize newSize heapAlignment + 48 ≤ b.size := hroom
    obtain ⟨cut, rest, hl, hcase⟩ := h.split (by omega) (alignUpSize_spec haz).2
    rcases hcase with ⟨-, -, hsmall⟩ | ⟨-, -, rfl⟩
    · omega
    · refine ⟨_, xs, _, _, y, zs, ?_, hl, rfl, hy⟩
      unfold heapReallocateUnlocked
      rw [if_neg hp, if_neg hnew]
      dsimp only
      rw [hptr, if_neg ha, hhead.2.2, hused, if_neg (by simp), if_neg haz, hhead.1,
        if_pos (by omega)]

/-- A call that leaves a free block in front of another one. -/
theorem fragments_untidy (h : HeapInv c bs) {l : Call} (hl : l.Fragments c)
    (hstep : call ops c l = some c') : ¬Tidy c' := by
  cases l with
  | krealloc p newSize =>
    obtain ⟨-, hp⟩ := allowed_of_call ops hstep
    obtain ⟨old, hold⟩ := Option.isSome_iff_exists.mp (hp.resolve_left hl.1)
    obtain ⟨s', xs, b, d, y, zs, he, hl', hd, hy⟩ :=
      heapReallocateUnlocked_cuts ops h.layout h.owned hold hl
    have hheap : c'.heap = s' := by
      rw [call, Option.ite_none_right_eq_some] at hstep
      have hresult := hstep.2
      rw [krealloc, he, Option.map_some, if_pos (.inl hl.1)] at hresult
      rw [← Option.some.inj hresult]
      rfl
    rintro ⟨bs', hsound, hc⟩
    have hrow : bs' = xs ++ b :: d :: y :: zs := by
      refine Blocks.unique hsound.links (hheap ▸ hl'.links) ?_
      rw [hsound.tiles.1, hheap]
      exact hl'.tiles.symm
    rw [hrow] at hc
    have hpair := (coalesced_cons.mp (coalesced_cons.mp hc.right).2).1 y zs rfl
    rw [hd, hy] at hpair
    rcases hpair with hpair | hpair <;> cases hpair
  | kmalloc size => exact hl.elim
  | kcalloc count size => exact hl.elim
  | kfree p => exact hl.elim
  | write p offset value => exact hl.elim

/-- The calls after which the heap is tidy, and those that do not fragment it. -/
theorem run_tidy_iff {s : Heap σ} (hs : s.initialized = false)
    (hi : (heapInitialize ops s).initialized = true) (ls : List Call) (c : Client σ) :
    RunWhere (call ops) (fun c l => ∀ c' ∈ call ops c l, Tidy c')
        { heap := heapInitialize ops s, live := fun _ => none } ls c ↔
      RunWhere (call ops) (fun c l => ¬l.Fragments c)
        { heap := heapInitialize ops s, live := fun _ => none } ls c := by
  have hinv : ∀ {ok : Client σ → Call → Prop} {ls : List Call} {c : Client σ},
      RunWhere (call ops) ok { heap := heapInitialize ops s, live := fun _ => none } ls c →
      ∃ bs, HeapInv c bs := fun hr => run_heapInv ops hs hi (hr.mono fun _ _ _ => trivial)
  constructor
  · intro hr
    induction hr with
    | nil => exact .nil
    | snoc hrest htidy hstep ih =>
      obtain ⟨bs, h⟩ := hinv hrest
      refine .snoc ih (fun hl => ?_) hstep
      exact fragments_untidy ops h hl hstep (htidy _ hstep)
  · intro hr
    -- along the run the heap is tidy
    have hboth : RunWhere (call ops) (fun c l => ∀ c' ∈ call ops c l, Tidy c')
        { heap := heapInitialize ops s, live := fun _ => none } ls c ∧
          ∃ bs, HeapInv c bs ∧ Coalesced bs := by
      induction hr with
      | nil => 
        exact ⟨.nil, _, ⟨heapInitialize_layout ops hs hi, fun _ _ hp => absurd hp (by simp)⟩,
          List.isChain_singleton _⟩
      | snoc hrest hno hstep ih =>
        obtain ⟨hr, bs, h, hc⟩ := ih
        obtain ⟨c'', he, bs', hinv', hcoalesced⟩ := call_inv ops h (allowed_of_call ops hstep)
        obtain rfl := Option.some.inj (he.symm.trans hstep)
        have hc' := hcoalesced hno hc
        refine ⟨.snoc hr (fun c' hc'' => ?_) hstep, bs', hinv', hc'⟩
        obtain rfl := Option.some.inj (he.symm.trans hc'')
        exact ⟨bs', hinv'.sound, hc'⟩
    exact hboth.1

/-- A client of a heap that has just been initialised, with six frames of memory. -/
def freshClient : Client Nat :=
  { heap := heapInitialize countedFrames unmappedHeap, live := fun _ => none }

/-- A block is cut in front of one that is in use. -/
theorem run_tidy_iff_cut : ∃ c, RunWhere (call countedFrames)
    (fun c l => ∀ c' ∈ call countedFrames c l, Tidy c') freshClient
      [.kmalloc 1000, .kmalloc 100, .krealloc 0xD0000020 16] c := by
  have hrun : (exec (call countedFrames) (fun c l => ¬l.Fragments c) freshClient
      [.kmalloc 1000, .kmalloc 100, .krealloc 0xD0000020 16]).isSome := by decide +kernel
  obtain ⟨c, hc⟩ := Option.isSome_iff_exists.mp hrun
  exact ⟨c, (run_tidy_iff countedFrames (s := unmappedHeap) rfl (by decide +kernel) _ c).mpr
    (run_of_exec hc)⟩

/-- The last block before the free rest of the heap is cut. -/
theorem not_run_tidy : ∃ c, Run (call countedFrames) freshClient
    [.kmalloc 1000, .krealloc 0xD0000020 16] c ∧ ¬Tidy c := by
  have hcut : (call countedFrames freshClient (.kmalloc 1000)).any (fun c =>
      decide ((Call.krealloc 0xD0000020 16).Fragments c) &&
        (call countedFrames c (.krealloc 0xD0000020 16)).isSome) := by decide +kernel
  obtain ⟨c, hc, hboth⟩ := (Option.any_eq_true _ _).mp hcut
  obtain ⟨hfragments, hsome⟩ := Bool.and_eq_true_iff.mp hboth
  obtain ⟨c', hc'⟩ := Option.isSome_iff_exists.mp hsome
  have hr : Run (call countedFrames) freshClient [.kmalloc 1000] c := .snoc .nil trivial hc
  obtain ⟨bs, h⟩ := run_heapInv countedFrames (s := unmappedHeap) rfl (by decide +kernel) hr
  exact ⟨c', .snoc hr trivial hc', fragments_untidy countedFrames h (of_decide_eq_true hfragments) hc'⟩

/-! ## Contents -/

/-- The size of the block behind a pointer. -/
def blockSize (s : Heap σ) (pointer : Nat) : Nat := (header s.mem (pointer - headerSize)).size

/-- `krealloc` of the live pointer `p` has served the request. -/
structure Moved (c : Client σ) (p newSize q : Nat) (s' : Heap σ) : Prop where
  fresh : q ≠ 0 ∧ (q = p ∨ c.live q = none)
  sound : ∃ bs, HeapSound
    { heap := s', live := update (update c.live p none) q (some newSize) } bs
  contents : ∀ i, i < blockSize c.heap p → i < newSize → s'.mem (q + i) = c.heap.mem (p + i)
  others : Unchanged (update c.live p none) c.heap.mem s'.mem

/-- It has not, and nothing that is live has changed. -/
structure Refused (c : Client σ) (p newSize q : Nat) (s' : Heap σ) : Prop where
  null : q = 0 ∧ newSize ≠ 0
  sound : ∃ bs, HeapSound { heap := s', live := c.live } bs
  contents : ∀ i < blockSize c.heap p, s'.mem (p + i) = c.heap.mem (p + i)
  others : Unchanged c.live c.heap.mem s'.mem

/-- A new size of zero frees the pointer. -/
structure Dropped (c : Client σ) (p newSize q : Nat) (s' : Heap σ) : Prop where
  null : q = 0 ∧ newSize = 0
  sound : ∃ bs, HeapSound { heap := s', live := update c.live p none } bs
  others : Unchanged (update c.live p none) c.heap.mem s'.mem

/-- The whole block counts as requested. -/
theorem Owned.whole {live : Nat → Option Nat} {a : Nat} {b : Block} (h : Owned live bs)
    (hab : (a, b) ∈ placed kernelHeapStart bs) (hused : b.free = false) (hpos : 0 < b.size) :
    Owned (update live (a + 32) (some b.size)) bs := by
  intro q k hq
  by_cases hqa : q = a + 32
  · subst hqa
    rw [update_self] at hq
    obtain rfl := Option.some.inj hq
    exact ⟨a, b, rfl, hab, hused, Nat.le_refl _, hpos⟩
  · rw [update_of_ne hqa] at hq
    exact h q k hq

/-- `krealloc` of a live pointer at any time: what it returns holds the contents, as far as both
sizes go, and no other live payload changes a byte. -/
theorem krealloc_contents {s : Heap σ} (hs : s.initialized = false)
    (hi : (heapInitialize ops s).initialized = true) {ls : List Call}
    (hr : Run (call ops) { heap := heapInitialize ops s, live := fun _ => none } ls c)
    {p old newSize : Nat} (hp : c.live p = some old) :
    old ≤ blockSize c.heap p ∧ ∃ q s', krealloc ops c.heap p newSize = some (q, s') ∧
      (Moved c p newSize q s' ∨ Refused c p newSize q s' ∨ Dropped c p newSize q s') := by
  obtain ⟨bs, h⟩ := run_heapInv ops hs hi hr
  obtain ⟨a, b, rfl, hab, hused, hfit, hpos⟩ := h.owned p old hp
  have hsize : blockSize c.heap (a + 32) = b.size := by
    rw [blockSize, show a + 32 - headerSize = a from Nat.add_sub_cancel ..]
    exact (header_placed h.layout.links hab).1
  refine ⟨hsize ▸ hfit, ?_⟩
  by_cases hnew : newSize = 0
  · obtain ⟨bs', hkept⟩ := kfree_inv h (p := a + 32) (.inr (hp ▸ rfl))
    refine ⟨0, kfree c.heap (a + 32), ?_, .inr (.inr ⟨⟨rfl, hnew⟩, ⟨bs', ?_⟩, hkept.unchanged⟩)⟩
    · unfold krealloc heapReallocateUnlocked kfree
      rw [if_neg (by omega), if_pos hnew, if_neg (by omega)]
    · exact HeapInv.sound ⟨hkept.layout, hkept.owned⟩
  · -- the whole of the old block is contents
    have ho := h.owned.whole hab hused (by omega)
    have hself := Function.update_self (a + 32) (some b.size) c.live
    obtain ⟨⟨q, s'⟩, he, bs', -, hcase⟩ :=
      heapReallocateUnlocked_inv ops h.layout ho hself hnew
    refine ⟨q, s', he, ?_⟩
    dsimp only at hcase
    rcases hcase with ⟨rfl, hkept⟩ | ⟨hq, hresized⟩
    · have hsub : ∀ r k, c.live r = some k →
          ∃ k', Function.update c.live (a + 32) (some b.size) r = some k' ∧ k ≤ k' := by
        intro r k hr'
        by_cases hra : r = a + 32
        · subst hra
          obtain rfl := Option.some.inj (hp.symm.trans hr')
          exact ⟨b.size, hself, hfit⟩
        · exact ⟨k, (Function.update_of_ne hra ..).trans hr', Nat.le_refl k⟩
      refine .inr (.inl ⟨⟨rfl, hnew⟩, ⟨bs', HeapInv.sound ⟨hkept.layout, ?_⟩⟩, ?_, ?_⟩)
      · refine hkept.owned.restrict fun r k hr' => ⟨?_, hsub r k hr'⟩
        obtain ⟨_, _, _, _, _, _, hk⟩ := h.owned r k hr'
        exact hk
      · rw [hsize]
        exact hkept.unchanged (a + 32) b.size hself
      · exact hkept.unchanged.restrict hsub
    · have hfresh := hresized.fresh
      have howned := hresized.owned
      have hothers := hresized.unchanged
      rw [Function.update_idem] at howned hothers
      refine .inl ⟨⟨hq, ?_⟩, ⟨bs', HeapInv.sound ⟨hresized.layout, howned⟩⟩, ?_, hothers⟩
      · by_cases hqa : q = a + 32
        · exact .inl hqa
        · refine .inr ?_
          have hnone := hfresh.resolve_left hqa
          rwa [Function.update_of_ne hqa] at hnone
      · rw [hsize]
        exact hresized.bytes

/-- The first allocation of 100 bytes grows to 5000. -/
theorem krealloc_contents_grown : ∃ c, Run (call countedFrames) freshClient [.kmalloc 100] c ∧
    100 ≤ blockSize c.heap 0xD0000020 ∧
    ∃ q s', krealloc countedFrames c.heap 0xD0000020 5000 = some (q, s') ∧
      (Moved c 0xD0000020 5000 q s' ∨ Refused c 0xD0000020 5000 q s' ∨
        Dropped c 0xD0000020 5000 q s') := by
  have hlive : (call countedFrames freshClient (.kmalloc 100)).any
      (fun c => c.live 0xD0000020 == some 100) := by decide +kernel
  obtain ⟨c, hc, hp⟩ := (Option.any_eq_true _ _).mp hlive
  have hr : Run (call countedFrames) freshClient [.kmalloc 100] c := .snoc .nil trivial hc
  exact ⟨c, hr, krealloc_contents countedFrames (s := unmappedHeap) rfl (by decide +kernel) hr
    (eq_of_beq hp)⟩

end MeatySkeleton.Memory
