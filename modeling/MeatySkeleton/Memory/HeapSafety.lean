import MeatySkeleton.Lib.Run
import MeatySkeleton.Memory.HeapOperations

/-!
# Runs of the heap

A client of the heap calls `kmalloc`, `kcalloc`, `krealloc` and `kfree`, and
writes into what it was given. `Client` remembers which pointers are live and how
many bytes each was asked for; a call with any other pointer than a live one or
`NULL` is not a step.

`HeapInv` ties the row of blocks to the live pointers: each one is the payload
of a used block that is large enough. It holds after a successful
`heap_initialize`, every call keeps it, whatever paging answers, and every call
returns.
-/

namespace MeatySkeleton.Memory

open Function Option Lib

variable {σ : Type}

/-- The heap with the live pointers and their requested sizes. -/
structure Client (σ : Type) where
  heap : Heap σ
  live : Nat → Option Nat

/-- A call of the heap, or a write of a byte at an offset into a live payload. -/
inductive Call
  | kmalloc (size : Nat)
  | kcalloc (count size : Nat)
  | krealloc (pointer newSize : Nat)
  | kfree (pointer : Nat)
  | write (pointer offset : Nat) (value : UInt8)
  deriving DecidableEq

def Client.granted (s : Heap σ) (live : Nat → Option Nat) (pointer size : Nat) : Client σ :=
  { heap := s, live := if pointer = 0 then live else update live pointer (some size) }

/-- One call of the client. Sizes are `size_t` values. -/
def call (ops : PageOps σ) (c : Client σ) : Call → Option (Client σ)
  | .kmalloc size =>
    if size ≤ sizeMax then
      (kmalloc ops c.heap size).map fun r => Client.granted r.2 c.live r.1 size
    else none
  | .kcalloc count size =>
    if count ≤ sizeMax ∧ size ≤ sizeMax then
      (kcalloc ops c.heap count size).map fun r => Client.granted r.2 c.live r.1 (count * size)
    else none
  | .krealloc pointer newSize =>
    if newSize ≤ sizeMax ∧ (pointer = 0 ∨ (c.live pointer).isSome) then
      (krealloc ops c.heap pointer newSize).map fun r =>
        if r.1 ≠ 0 ∨ newSize = 0 then
          Client.granted r.2 (update c.live pointer none) r.1 newSize
        else { heap := r.2, live := c.live }
    else none
  | .kfree pointer =>
    if pointer = 0 ∨ (c.live pointer).isSome then
      some { heap := kfree c.heap pointer, live := update c.live pointer none }
    else none
  | .write pointer offset value =>
    match c.live pointer with
    | none => none
    | some size =>
      if offset < size then
        some { c with heap := { c.heap with mem := put8 c.heap.mem (pointer + offset) value } }
      else none

/-- What the heap promises at any time, in terms of its variables and of the
headers in memory. -/
structure HeapSound (c : Client σ) (bs : List Block) : Prop where
  /-- The headers are linked both ways between first and last block. -/
  links : Blocks c.heap.mem 0 0 kernelHeapStart bs
  first : c.heap.firstBlock = kernelHeapStart ∧ bs ≠ []
  last : c.heap.lastBlock = lastOf 0 kernelHeapStart bs
  /-- Each block begins where the one before ends, and the last one ends with the
  mapped heap. -/
  tiles : endOf kernelHeapStart bs = c.heap.mappedEnd ∧ c.heap.mappedEnd ≤ kernelHeapLimit
  magic : ∀ a b, (a, b) ∈ placed kernelHeapStart bs →
    (header c.heap.mem a).magic = heapBlockMagic ∧ (header c.heap.mem a).size % 16 = 0
  payload : ∀ p n, c.live p = some n → p % 16 = 0 ∧
    ∃ b, (p - headerSize, b) ∈ placed kernelHeapStart bs ∧ headerSize ≤ p ∧ b.free = false ∧
      n ≤ b.size
  disjoint : ∀ p q n k, c.live p = some n → c.live q = some k → p ≠ q →
    p + (header c.heap.mem (p - headerSize)).size ≤ q - headerSize ∨
      q + (header c.heap.mem (q - headerSize)).size ≤ p - headerSize

structure HeapInv (c : Client σ) (bs : List Block) : Prop where
  layout : Layout c.heap bs
  owned : Owned c.live bs

/-! ## The invariant gives the promise -/

theorem endOf_aligned : ∀ (a : Nat) (bs : List Block), a % 16 = 0 →
    (∀ b ∈ bs, b.size % 16 = 0) → endOf a bs % 16 = 0
  | _, [], ha, _ => ha
  | a, b :: bs, ha, h => by
    have hb := h b List.mem_cons_self
    exact endOf_aligned (a + 32 + b.size) bs (by omega) fun d hd => h d (List.mem_cons_of_mem _ hd)

theorem HeapInv.sound {c : Client σ} {bs : List Block} (h : HeapInv c bs) : HeapSound c bs := by
  have hl := h.layout
  refine ⟨hl.links, ⟨hl.first, hl.nonempty⟩, hl.last, ⟨hl.tiles, hl.limit⟩, ?_, ?_, ?_⟩
  · intro a b hab
    obtain ⟨hs, hm, -⟩ := header_placed hl.links hab
    obtain ⟨xs, ys, rfl, -⟩ := mem_placed.mp hab
    exact ⟨hm, hs ▸ hl.aligned b (by simp)⟩
  · intro p n hp
    obtain ⟨a, b, rfl, hab, hfree, hn, -⟩ := h.owned p n hp
    refine ⟨?_, b, ?_, Nat.le_add_left _ _, hfree, hn⟩
    · obtain ⟨xs, ys, rfl, rfl⟩ := mem_placed.mp hab
      have := endOf_aligned kernelHeapStart xs (by decide)
        fun d hd => hl.aligned d (List.mem_append_left _ hd)
      omega
    · rwa [show a + 32 - headerSize = a from Nat.add_sub_cancel ..]
  · intro p q n k hp hq hne
    obtain ⟨a, b, rfl, hab, -⟩ := h.owned p n hp
    obtain ⟨d, e, rfl, hde, -⟩ := h.owned q k hq
    rw [show a + 32 - headerSize = a from Nat.add_sub_cancel ..,
      show d + 32 - headerSize = d from Nat.add_sub_cancel ..,
      (header_placed hl.links hab).1, (header_placed hl.links hde).1]
    rcases placed_disjoint hab hde with ⟨rfl, -⟩ | hlt
    · exact absurd rfl hne
    · exact hlt

/-! ## Calls and runs -/

variable (ops : PageOps σ) {c c' : Client σ} {bs : List Block}

/-- What an allocation gives out becomes live. -/
theorem granted_inv {s : Heap σ} {live : Nat → Option Nat} {p n : Nat} (hl : Layout s bs)
    (ho : Owned live bs)
    (hcase : p = 0 ∨ (p ≠ 0 ∧ live p = none ∧ Owned (update live p (some n)) bs)) :
    HeapInv (Client.granted s live p n) bs := by
  refine ⟨hl, ?_⟩
  unfold Client.granted
  rcases hcase with rfl | ⟨hp, -, ho'⟩
  · simpa using ho
  · simpa [hp] using ho'

/-- `kmalloc` returns; what it gives out is live. -/
theorem kmalloc_inv (h : HeapInv c bs) (size : Nat) :
    ∃ r, kmalloc ops c.heap size = some r ∧ ∃ bs', Kept c.live c.heap bs r.2 bs' ∧
      (r.1 = 0 ∨ (r.1 ≠ 0 ∧ c.live r.1 = none ∧
        Owned (update c.live r.1 (some size)) bs')) := by
  unfold kmalloc
  split
  · exact ⟨_, rfl, bs, .refl h.layout h.owned, .inl rfl⟩
  · exact heapAllocateUnlocked_inv ops h.layout h.owned size

/-- `kcalloc` returns; the bytes it clears are those it gives out. -/
theorem kcalloc_inv (h : HeapInv c bs) (count size : Nat) :
    ∃ r, kcalloc ops c.heap count size = some r ∧ ∃ bs', Kept c.live c.heap bs r.2 bs' ∧
      (r.1 = 0 ∨ (r.1 ≠ 0 ∧ c.live r.1 = none ∧
        Owned (update c.live r.1 (some (count * size))) bs')) := by
  unfold kcalloc
  split
  · exact ⟨_, rfl, bs, .refl h.layout h.owned, .inl rfl⟩
  split
  · exact ⟨_, rfl, bs, .refl h.layout h.owned, .inl rfl⟩
  obtain ⟨⟨p, s⟩, he, bs', hkept, hcase⟩ := kmalloc_inv ops h (count * size)
  rw [he]
  dsimp only at hkept hcase ⊢
  rcases hcase with rfl | ⟨hp, hnone, ho⟩
  · exact ⟨_, rfl, bs', hkept, .inl rfl⟩
  · rw [if_neg hp]
    obtain ⟨a, b, rfl, hab, -, hfit, -⟩ := ho p (count * size) (update_self ..)
    have hw : Within s.mem (fill s.mem (a + 32) (count * size) 0) (a + 32) (a + 32 + b.size) :=
      (fill_within _ _ _ _).mono (Nat.le_refl _) (by omega)
    refine ⟨_, rfl, bs', ⟨hkept.layout.writePayload hab hw, hkept.owned, ?_, hkept.coalesced⟩,
      .inr ⟨hp, hnone, ho⟩⟩
    exact hkept.unchanged.trans (hkept.owned.unchanged hab hnone hw)

/-- Freeing a live pointer, or `NULL`. -/
theorem kfree_inv (h : HeapInv c bs) {p : Nat} (hp : p = 0 ∨ (c.live p).isSome) :
    ∃ bs', Kept (update c.live p none) c.heap bs (kfree c.heap p) bs' := by
  unfold kfree
  split
  next hz => exact ⟨bs, .refl h.layout (h.owned.drop p)⟩
  next hz =>
    obtain ⟨n, hn⟩ := isSome_iff_exists.mp (hp.resolve_left hz)
    obtain ⟨a, b, rfl, hab, hused, hfit, hpos⟩ := h.owned p n hn
    exact heapFreeUnlocked_inv h.layout hab hused (by omega) (h.owned.drop (a + 32))
      (update_self ..)

theorem krealloc_inv (h : HeapInv c bs) {p newSize : Nat} (hp : p = 0 ∨ (c.live p).isSome) :
    ∃ r, krealloc ops c.heap p newSize = some r ∧ ∃ bs',
      HeapInv (if r.1 ≠ 0 ∨ newSize = 0 then
        Client.granted r.2 (update c.live p none) r.1 newSize
      else { heap := r.2, live := c.live }) bs' ∧
      (¬CutsBeforeFree c.heap p newSize → Coalesced bs → Coalesced bs') := by
  unfold krealloc
  by_cases hz : p = 0
  · -- `krealloc(NULL, size)` is `kmalloc(size)`
    obtain ⟨r, he, bs', hkept, hcase⟩ := heapAllocateUnlocked_inv ops h.layout h.owned newSize
    have he' : heapReallocateUnlocked ops c.heap p newSize = some r := by
      unfold heapReallocateUnlocked
      rwa [if_pos hz]
    refine ⟨r, he', bs', ?_, fun _ => hkept.coalesced⟩
    have hlive : update c.live p none = c.live := by
      refine update_eq_self_iff.mpr ?_
      cases hlp : c.live p with
      | none => rfl
      | some n =>
        obtain ⟨a, b, ha, -⟩ := h.owned p n hlp
        omega
    rw [hlive]
    split
    · exact granted_inv hkept.layout hkept.owned hcase
    next => exact ⟨hkept.layout, hkept.owned⟩
  · have hlive := hp.resolve_left hz
    by_cases hnew : newSize = 0
    · -- `krealloc(pointer, 0)` is `kfree(pointer)`
      obtain ⟨bs', hkept⟩ := kfree_inv h hp
      refine ⟨(0, heapFreeUnlocked c.heap p), ?_, bs', ?_, ?_⟩
      · unfold heapReallocateUnlocked
        rw [if_neg hz, if_pos hnew]
      · rw [if_pos (.inr hnew)]
        unfold kfree at hkept
        rw [if_neg hz] at hkept
        exact granted_inv hkept.layout hkept.owned (.inl rfl)
      · exact fun _ => hkept.coalesced
    · obtain ⟨old, hold⟩ := isSome_iff_exists.mp hlive
      obtain ⟨r, he, bs', hcoalesced, hcase⟩ :=
        heapReallocateUnlocked_inv ops h.layout h.owned hold hnew
      refine ⟨r, he, bs', ?_, hcoalesced⟩
      rcases hcase with ⟨hr, hkept⟩ | ⟨hr, hresized⟩
      · rw [if_neg (by simp [hr, hnew])]
        exact ⟨hkept.layout, hkept.owned⟩
      · rw [if_pos (.inl hr)]
        refine ⟨hresized.layout, ?_⟩
        unfold Client.granted
        rw [if_neg hr]
        exact hresized.owned

/-- A call with live pointers, of sizes that are `size_t` values, returns. -/
def Allowed (c : Client σ) : Call → Prop
  | .kmalloc size => size ≤ sizeMax
  | .kcalloc count size => count ≤ sizeMax ∧ size ≤ sizeMax
  | .krealloc p newSize => newSize ≤ sizeMax ∧ (p = 0 ∨ (c.live p).isSome)
  | .kfree p => p = 0 ∨ (c.live p).isSome
  | .write p offset _ => ∃ size ∈ c.live p, offset < size

/-- A `krealloc` leaves a free block in front of another one. -/
def Call.Fragments (c : Client σ) : Call → Prop
  | .krealloc p newSize => CutsBeforeFree c.heap p newSize
  | _ => False

instance (c : Client σ) : (l : Call) → Decidable (l.Fragments c)
  | .krealloc p newSize => inferInstanceAs (Decidable (CutsBeforeFree c.heap p newSize))
  | .kmalloc _ => .isFalse id
  | .kcalloc _ _ => .isFalse id
  | .kfree _ => .isFalse id
  | .write _ _ _ => .isFalse id

/-- Every allowed call returns, and keeps the invariant. -/
theorem call_inv (h : HeapInv c bs) {l : Call} (hl : Allowed c l) :
    ∃ c', call ops c l = some c' ∧ ∃ bs', HeapInv c' bs' ∧
      (¬l.Fragments c → Coalesced bs → Coalesced bs') := by
  cases l with
  | kmalloc size =>
    have hs : size ≤ sizeMax := hl
    obtain ⟨r, he, bs', hkept, hcase⟩ := kmalloc_inv ops h size
    refine ⟨_, ?_, bs', granted_inv hkept.layout hkept.owned hcase, fun _ => hkept.coalesced⟩
    rw [call, if_pos hs, he]
    rfl
  | kcalloc count size =>
    have hs : count ≤ sizeMax ∧ size ≤ sizeMax := hl
    obtain ⟨r, he, bs', hkept, hcase⟩ := kcalloc_inv ops h count size
    refine ⟨_, ?_, bs', granted_inv hkept.layout hkept.owned hcase, fun _ => hkept.coalesced⟩
    rw [call, if_pos hs, he]
    rfl
  | krealloc p newSize =>
    have hs : newSize ≤ sizeMax ∧ (p = 0 ∨ (c.live p).isSome) := hl
    obtain ⟨r, he, bs', hinv, hcoalesced⟩ := krealloc_inv ops h hs.2
    refine ⟨_, ?_, bs', hinv, hcoalesced⟩
    rw [call, if_pos hs, he]
    rfl
  | kfree p =>
    obtain ⟨bs', hkept⟩ := kfree_inv h hl
    exact ⟨_, if_pos hl, bs', ⟨hkept.layout, hkept.owned⟩, fun _ => hkept.coalesced⟩
  | write p offset value =>
    obtain ⟨size, hsize, hlt⟩ := hl
    obtain ⟨a, b, rfl, hab, -, hfit, -⟩ := h.owned p size hsize
    have hs : c.live (a + 32) = some size := hsize
    refine ⟨{ c with heap :=
      { c.heap with mem := put8 c.heap.mem (a + 32 + offset) value } }, ?_, bs, ⟨?_, h.owned⟩,
      fun _ => id⟩
    · simp only [call, hs]
      exact if_pos hlt
    · exact h.layout.writePayload hab ((put8_within _ _ _).mono (by omega) (by omega))

theorem allowed_of_call {l : Call} (hs : call ops c l = some c') : Allowed c l := by
  cases l with
  | kmalloc size =>
    rw [call, ite_none_right_eq_some] at hs
    exact hs.1
  | kcalloc count size =>
    rw [call, ite_none_right_eq_some] at hs
    exact hs.1
  | krealloc p newSize =>
    rw [call, ite_none_right_eq_some] at hs
    exact hs.1
  | kfree p =>
    rw [call, ite_none_right_eq_some] at hs
    exact hs.1
  | write p offset value =>
    rw [call] at hs
    cases hlive : c.live p with
    | none => rw [hlive] at hs; exact absurd hs (by simp)
    | some size =>
      rw [hlive] at hs
      rw [ite_none_right_eq_some] at hs
      exact ⟨size, hlive, hs.1⟩

/-- `heap_initialize` leaves one free block, if it succeeds. -/
theorem heapInitialize_layout {s : Heap σ} (hs : s.initialized = false)
    (hi : (heapInitialize ops s).initialized = true) :
    Layout (heapInitialize ops s) [{ size := 16352, free := true }] := by
  unfold heapInitialize at hi ⊢
  rw [if_neg (by simp [hs])] at hi ⊢
  dsimp only at hi ⊢
  split at hi
  next p hp => exact absurd (hs.symm.trans hi) (by simp)
  next p hp =>
    split at hi
    next p' hp' => exact absurd (hs.symm.trans hi) (by simp)
    next p' hp' =>
      refine ⟨rfl, ⟨?_, trivial⟩, by simp, rfl, rfl, rfl, by simp [kernelHeapLimit, kernelHeapStart,
        heapInitialPages, pageSize], by simp⟩
      simp only [header_setFree, header_setMagic, header_setNext, header_setPrevious,
        header_setSize]
      rfl

/-- The invariant of runs, whatever was called and whatever paging answered. -/
theorem run_heapInv {s : Heap σ} (hs : s.initialized = false)
    (hi : (heapInitialize ops s).initialized = true) {ls : List Call}
    (hr : Run (call ops) { heap := heapInitialize ops s, live := fun _ => none } ls c) :
    ∃ bs, HeapInv c bs := by
  have hkeep : ∀ (c : Client σ) (l : Call) (c' : Client σ), (∃ bs, HeapInv c bs) → True →
      call ops c l = some c' → ∃ bs, HeapInv c' bs := by
    rintro c l c' ⟨bs, h⟩ - hstep
    obtain ⟨c'', hc, bs', hinv, -⟩ := call_inv ops h (allowed_of_call ops hstep)
    obtain rfl := some.inj (hc.symm.trans hstep)
    exact ⟨bs', hinv⟩
  have hstart : ∃ bs, HeapInv
      ({ heap := heapInitialize ops s, live := fun _ => none } : Client σ) bs :=
    ⟨_, heapInitialize_layout ops hs hi, fun _ _ hp => absurd hp (by simp)⟩
  exact RunWhere.invariant (I := fun c => ∃ bs, HeapInv c bs) hr hstart hkeep

/-- At any time after a successful `heap_initialize`, whatever was called since
and whatever paging answered, the heap is sound. -/
theorem run_heapSound {s : Heap σ} (hs : s.initialized = false)
    (hi : (heapInitialize ops s).initialized = true) {ls : List Call}
    (hr : Run (call ops) { heap := heapInitialize ops s, live := fun _ => none } ls c) :
    ∃ bs, HeapSound c bs := by
  obtain ⟨bs, h⟩ := run_heapInv ops hs hi hr
  exact ⟨bs, h.sound⟩

/-- Paging with a counter of frames still to be had. -/
def countedFrames : PageOps Nat :=
  { allocateFrame := fun p => if p = 0 then (0, 0) else (p * pageSize, p - 1)
    freeFrame := fun p _ => p + 1
    mapPage := fun p _ _ => (true, p)
    unmapPage := fun p _ => p + 1
    ensureTable := fun p _ => (true, p) }

def unmappedHeap : Heap Nat :=
  { mem := fun _ => 0, firstBlock := 0, lastBlock := 0, mappedEnd := 0, initialized := false
    pages := 6 }

/-- Two allocations, and a third that would need more frames than there are. -/
theorem run_heapSound_countedFrames : ∃ c bs,
    exec (call countedFrames) (fun _ _ => True)
      { heap := heapInitialize countedFrames unmappedHeap, live := fun _ => none }
      [.kmalloc 100, .kmalloc 20, .kmalloc 40000] = some c ∧ HeapSound c bs := by
  have hrun : (exec (call countedFrames) (fun _ _ => True)
      { heap := heapInitialize countedFrames unmappedHeap, live := fun _ => none }
      [.kmalloc 100, .kmalloc 20, .kmalloc 40000]).isSome := by decide +kernel
  obtain ⟨c, hc⟩ := Option.isSome_iff_exists.mp hrun
  obtain ⟨bs, h⟩ := run_heapSound countedFrames (s := unmappedHeap) rfl (by decide +kernel) (run_of_exec hc)
  exact ⟨c, bs, hc, h⟩

end MeatySkeleton.Memory
