import MeatySkeleton.Thread.StackSlots

/-!
# Owners of the user stack slots

The reference count and the slot bitmap of one address space under calls in any order,
from its creation on. Each operation holds the lock of the address space, so callers on
any CPUs make a list of calls. `Slots.held` remembers what was handed out to whom and
not given back; it agrees with the bitmap (`Slots.Inv.taken`), and the slots are laid
out downwards from the top of user space without overlap (`describe_disjoint`).

An operation returns `none` where the code returns `false`; it has then written nothing.
-/

namespace MeatySkeleton.Thread

open List Option Lib Paging

/-! ## Operations -/

/-- `SIZE_MAX`. -/
def sizeMax : Nat := 2 ^ 32 - 1

/-- `address_space_initialize`: the kernel's address space. -/
def addressSpaceInitialize (kernelDirectory : Nat) : Option AddressSpace :=
  if kernelDirectory = 0 ∨ kernelDirectory % pageSize ≠ 0 then none
  else some ⟨kernelDirectory, 1, 0#32, true⟩

/-- `address_space_adopt_user`; `allocated` is the answer of `kmalloc`. -/
def addressSpaceAdoptUser (initialized : Bool) (kernelDirectory currentDirectory : Nat)
    (allocated : Bool) (pageDirectory : Nat) : Option AddressSpace :=
  if !initialized then none
  else if kernelDirectory = 0 then none
  else if currentDirectory ≠ kernelDirectory then none
  else if pageDirectory = 0 ∨ pageDirectory = kernelDirectory ∨ pageDirectory % pageSize ≠ 0 then none
  else if !allocated then none
  else some ⟨pageDirectory, 1, 0#32, false⟩

/-- `address_space_retain`. -/
def addressSpaceRetain (space : AddressSpace) : Option AddressSpace :=
  if space.kernelSpace then some space
  else if space.referenceCount = 0 ∨ space.referenceCount = sizeMax then none
  else some { space with referenceCount := space.referenceCount + 1 }

/-- `address_space_release`. After the last reference the object is dead. -/
def addressSpaceRelease (space : AddressSpace) (kernelDirectory currentDirectory : Nat) :
    Option AddressSpace :=
  if space.kernelSpace then some space
  else if space.referenceCount = 0 then none
  else if 1 < space.referenceCount then
    some { space with referenceCount := space.referenceCount - 1 }
  else if kernelDirectory = 0 ∨ currentDirectory ≠ kernelDirectory ∨ space.pageDirectory = 0 ∨
      space.pageDirectory = kernelDirectory then none
  else some { space with referenceCount := 0, pageDirectory := 0 }

def AddressSpace.drop (space : AddressSpace) (index : Nat) : AddressSpace :=
  { space with userStackSlotBitmap := space.userStackSlotBitmap &&& ~~~userStackSlotMask index }

/-- `address_space_user_stack_slot_release`. -/
def userStackSlotRelease (space : AddressSpace) (index : Nat) : Option AddressSpace :=
  if space.kernelSpace then none
  else if userStackSlotCount ≤ index then none
  else if space.referenceCount = 0 then none
  else if space.slotTaken index = false then none
  else some (space.drop index)

/-! ## Layout -/

/-- The addresses of a slot, its guard page included. -/
def UserStackSlot.Disjoint (slot slot' : UserStackSlot) : Prop :=
  slot.stackTop ≤ slot'.guardBottom ∨ slot'.stackTop ≤ slot.guardBottom

/-- Guard page and stack, one above the other, below the end of user space. -/
structure UserStackSlot.Proper (slot : UserStackSlot) : Prop where
  guard : slot.guardBottom < slot.guardTop
  adjacent : slot.guardTop = slot.stackBottom
  stack : slot.stackBottom < slot.stackTop
  below : slot.stackTop ≤ userStackRegionTop

variable {i j index : Nat} {slot slot' : UserStackSlot} {space space' : AddressSpace}

section

variable (h : describeUserStackSlot i = some slot)

include h

/-- The slot with a number, in closed form. -/
theorem describe_eq : i < userStackSlotCount ∧
    slot = ⟨i, 0xC0000000 - i * 0x101000 - 0x100000, 0xC0000000 - i * 0x101000,
      0xC0000000 - i * 0x101000 - 0x101000, 0xC0000000 - i * 0x101000 - 0x100000⟩ := by
  unfold describeUserStackSlot at h
  dsimp only at h
  split at h
  · cases h
  next hlt =>
    rw [userStackSlotCount] at hlt ⊢
    rw [userStackRegionTop, userStackSize, userStackGuardSize] at h
    rw [if_neg (by omega), if_neg (by omega), if_neg (by omega)] at h
    refine ⟨by omega, ?_⟩
    rw [← some.inj h, UserStackSlot.mk.injEq]
    omega

theorem describe_proper :
    slot.index = i ∧ slot.Proper := by
  obtain ⟨hlt, rfl⟩ := describe_eq h
  rw [userStackSlotCount] at hlt
  refine ⟨rfl, ?_, rfl, ?_, ?_⟩
  · dsimp only
    omega
  · dsimp only
    omega
  · rw [userStackRegionTop]
    dsimp only
    omega

theorem describe_disjoint
    (h' : describeUserStackSlot j = some slot') (hne : i ≠ j) : slot.Disjoint slot' := by
  obtain ⟨hi, rfl⟩ := describe_eq h
  obtain ⟨hj, rfl⟩ := describe_eq h'
  rw [userStackSlotCount] at hi hj
  rw [UserStackSlot.Disjoint]
  dsimp only
  omega

end

/-! ## Calls -/

inductive SlotCall where
  | retain
  | release (kernelDirectory currentDirectory : Nat)
  | reserve (owner : Nat)
  | reserveIndex (owner index : Nat)
  | slotRelease (index : Nat)

/-- A slot that was handed out, as described to its owner. -/
structure Holding where
  owner : Nat
  slot : UserStackSlot

structure Slots where
  space : AddressSpace
  held : List Holding

/-- What a call does if it succeeds. -/
def Slots.perform (s : Slots) : SlotCall → Option Slots
  | .retain => (addressSpaceRetain s.space).map fun space => { s with space }
  | .release kernelDirectory currentDirectory =>
    (addressSpaceRelease s.space kernelDirectory currentDirectory).map fun space => { s with space }
  | .reserve owner =>
    (userStackSlotReserve s.space).map fun r => { space := r.2, held := ⟨owner, r.1⟩ :: s.held }
  | .reserveIndex owner index =>
    (userStackSlotReserveIndex s.space index).map fun r =>
      { space := r.2, held := ⟨owner, r.1⟩ :: s.held }
  | .slotRelease index =>
    (userStackSlotRelease s.space index).map fun space =>
      { space, held := s.held.filter fun h => h.slot.index ≠ index }

/-- A call that fails changes nothing. -/
def Slots.step (s : Slots) (call : SlotCall) : Option Slots := some ((s.perform call).getD s)

/-! ## What a successful call does -/

/-- A reservation that succeeded took a free slot of a live user address space. -/
structure Reserves (space : AddressSpace) (index : Nat) (slot : UserStackSlot) : Prop where
  user : space.kernelSpace = false
  live : space.referenceCount ≠ 0
  lt : index < userStackSlotCount
  free : space.slotTaken index = false
  described : describeUserStackSlot index = some slot

theorem reserve_some (h : userStackSlotReserve space = some (slot, space')) :
    ∃ index, Reserves space index slot ∧ space' = space.take index := by
  unfold userStackSlotReserve at h
  split at h
  · cases h
  next hkernel =>
    split at h
    · cases h
    next hlive =>
      split at h
      · cases h
      next index hfind =>
        obtain ⟨found, hdescribed, heq⟩ := map_eq_some_iff.mp h
        obtain ⟨rfl, rfl⟩ := Prod.mk.inj heq
        have hfree := find?_some hfind
        rw [Bool.not_eq_true'] at hfree
        exact ⟨index, ⟨Bool.not_eq_true _ ▸ hkernel, hlive,
          mem_range.mp (mem_of_find?_eq_some hfind), hfree, hdescribed⟩, rfl⟩

theorem reserveIndex_some (h : userStackSlotReserveIndex space index = some (slot, space')) :
    Reserves space index slot ∧ space' = space.take index := by
  unfold userStackSlotReserveIndex at h
  split at h
  · cases h
  next hkernel =>
    split at h
    · cases h
    next hlt =>
      split at h
      · cases h
      next found hdescribed =>
        rw [ite_none_left_eq_some, ite_none_left_eq_some] at h
        obtain ⟨hlive, htaken, heq⟩ := h
        cases heq
        exact ⟨⟨Bool.not_eq_true _ ▸ hkernel, hlive, Nat.lt_of_not_le hlt,
          Bool.not_eq_true _ ▸ htaken, hdescribed⟩, rfl⟩

theorem slotRelease_some (h : userStackSlotRelease space index = some space') :
    space.kernelSpace = false ∧ space.referenceCount ≠ 0 ∧ index < userStackSlotCount ∧
      space.slotTaken index = true ∧ space' = space.drop index := by
  unfold userStackSlotRelease at h
  rw [ite_none_left_eq_some, ite_none_left_eq_some, ite_none_left_eq_some,
    ite_none_left_eq_some] at h
  obtain ⟨hkernel, hlt, hlive, htaken, heq⟩ := h
  exact ⟨Bool.not_eq_true _ ▸ hkernel, hlive, Nat.lt_of_not_le hlt, Bool.not_eq_false _ ▸ htaken,
    (some.inj heq).symm⟩

/-- Counting references leaves the slots alone, and the kernel's address space as it is. -/
structure SameSlots (space space' : AddressSpace) : Prop where
  bitmap : space'.userStackSlotBitmap = space.userStackSlotBitmap
  kernel : space'.kernelSpace = space.kernelSpace
  immortal : space.kernelSpace = true → space' = space

theorem retain_some (h : addressSpaceRetain space = some space') : SameSlots space space' := by
  unfold addressSpaceRetain at h
  split at h
  · obtain rfl := some.inj h
    exact ⟨rfl, rfl, fun _ => rfl⟩
  next hkernel =>
    obtain ⟨-, h⟩ := ite_none_left_eq_some.mp h
    obtain rfl := some.inj h
    exact ⟨rfl, rfl, fun hk => absurd hk hkernel⟩

theorem release_some {kernelDirectory currentDirectory : Nat}
    (h : addressSpaceRelease space kernelDirectory currentDirectory = some space') :
    SameSlots space space' := by
  unfold addressSpaceRelease at h
  split at h
  · obtain rfl := some.inj h
    exact ⟨rfl, rfl, fun _ => rfl⟩
  next hkernel =>
    obtain ⟨-, h⟩ := ite_none_left_eq_some.mp h
    split at h
    · obtain rfl := some.inj h
      exact ⟨rfl, rfl, fun hk => absurd hk hkernel⟩
    · obtain ⟨-, h⟩ := ite_none_left_eq_some.mp h
      obtain rfl := some.inj h
      exact ⟨rfl, rfl, fun hk => absurd hk hkernel⟩

theorem slotTaken_drop (space : AddressSpace) (hindex : index < 32) (hi : i < 32) :
    (space.drop index).slotTaken i = (space.slotTaken i && !decide (i = index)) := by
  rw [slotTaken_eq _ hi, slotTaken_eq _ hi, AddressSpace.drop]
  show (space.userStackSlotBitmap &&& ~~~userStackSlotMask index).getLsbD i = _
  rw [BitVec.getLsbD_and, BitVec.getLsbD_not, userStackSlotMask, ← BitVec.twoPow_eq,
    BitVec.getLsbD_twoPow, decide_eq_true hindex, decide_eq_true hi, Bool.true_and, Bool.true_and]
  congr 2
  exact decide_eq_decide.mpr eq_comm

/-! ## The invariant -/

/-- The handed out slots are the bits of the bitmap. -/
structure Slots.Inv (s : Slots) : Prop where
  nodup : (s.held.map fun h => h.slot.index).Nodup
  described : ∀ h ∈ s.held, describeUserStackSlot h.slot.index = some h.slot
  taken : ∀ i < 32, s.space.slotTaken i = true ↔ i ∈ s.held.map fun h => h.slot.index
  kernel : s.space.kernelSpace = true → s.held = [] ∧ s.space.referenceCount ≠ 0

variable {s t : Slots}

theorem Slots.Inv.sameSlots (hi : s.Inv) (h : SameSlots s.space space') :
    Slots.Inv { s with space := space' } where
  nodup := hi.nodup
  described := hi.described
  taken := by
    intro i hlt
    rw [AddressSpace.slotTaken, h.bitmap]
    exact hi.taken i hlt
  kernel := by
    intro hk
    have hk' : s.space.kernelSpace = true := h.kernel ▸ hk
    rw [h.immortal hk']
    exact hi.kernel hk'

theorem Slots.Inv.reserved (hi : s.Inv) (h : Reserves s.space index slot) (owner : Nat) :
    Slots.Inv { space := s.space.take index, held := ⟨owner, slot⟩ :: s.held } := by
  have hlt : index < 32 := h.lt
  obtain ⟨hindex, -⟩ := describe_proper h.described
  constructor
  case nodup =>
    refine nodup_cons.mpr ⟨?_, hi.nodup⟩
    dsimp only
    rw [hindex, ← hi.taken index hlt, h.free]
    exact Bool.false_ne_true
  case described =>
    intro held hmem
    rcases mem_cons.mp hmem with rfl | hmem
    · dsimp only
      rw [hindex]
      exact h.described
    · exact hi.described held hmem
  case taken =>
    intro i hi'
    rw [slotTaken_take _ hlt hi', Bool.or_eq_true, hi.taken i hi', map_cons, mem_cons,
      hindex, decide_eq_true_eq]
    exact or_comm
  case kernel =>
    intro hk
    rw [AddressSpace.take, h.user] at hk
    cases hk

theorem Slots.Inv.released (hi : s.Inv) (hlt : index < 32) (huser : s.space.kernelSpace = false) :
    Slots.Inv { space := s.space.drop index, held := s.held.filter fun h => h.slot.index ≠ index } := by
  constructor
  case nodup => exact (filter_sublist.map _).nodup hi.nodup
  case described => exact fun h hmem => hi.described h (mem_filter.mp hmem).1
  case taken =>
    intro i hi'
    rw [slotTaken_drop _ hlt hi', Bool.and_eq_true, hi.taken i hi', Bool.not_eq_true',
      decide_eq_false_iff_not]
    simp only [List.mem_map, mem_filter, decide_eq_true_eq]
    constructor
    · rintro ⟨⟨h, hmem, rfl⟩, hne⟩
      exact ⟨h, ⟨hmem, hne⟩, rfl⟩
    · rintro ⟨h, ⟨hmem, hne⟩, rfl⟩
      exact ⟨⟨h, hmem, rfl⟩, hne⟩
  case kernel =>
    intro hk
    rw [AddressSpace.drop, huser] at hk
    cases hk

theorem Slots.Inv.perform {call : SlotCall} (hi : s.Inv) (h : s.perform call = some t) :
    t.Inv := by
  cases call with
  | retain =>
    obtain ⟨space, hspace, rfl⟩ := map_eq_some_iff.mp h
    exact hi.sameSlots (retain_some hspace)
  | release kernelDirectory currentDirectory =>
    obtain ⟨space, hspace, rfl⟩ := map_eq_some_iff.mp h
    exact hi.sameSlots (release_some hspace)
  | reserve owner =>
    obtain ⟨⟨slot, space⟩, hspace, rfl⟩ := map_eq_some_iff.mp h
    obtain ⟨index, hreserves, rfl⟩ := reserve_some hspace
    exact hi.reserved hreserves owner
  | reserveIndex owner index =>
    obtain ⟨⟨slot, space⟩, hspace, rfl⟩ := map_eq_some_iff.mp h
    obtain ⟨hreserves, rfl⟩ := reserveIndex_some hspace
    exact hi.reserved hreserves owner
  | slotRelease index =>
    obtain ⟨space, hspace, rfl⟩ := map_eq_some_iff.mp h
    obtain ⟨huser, -, hlt, -, rfl⟩ := slotRelease_some hspace
    exact hi.released hlt huser

/-- An address space as one of the two constructors leaves it. -/
def Created (space : AddressSpace) : Prop :=
  (∃ kernelDirectory, addressSpaceInitialize kernelDirectory = some space) ∨
    ∃ initialized kernelDirectory currentDirectory allocated pageDirectory,
      addressSpaceAdoptUser initialized kernelDirectory currentDirectory allocated pageDirectory =
        some space

theorem Created.fresh (h : Created space) :
    space.referenceCount = 1 ∧ space.userStackSlotBitmap = 0#32 := by
  rcases h with ⟨kernelDirectory, h⟩ | ⟨_, _, _, _, _, h⟩
  · obtain ⟨-, h⟩ := ite_none_left_eq_some.mp h
    obtain rfl := some.inj h
    exact ⟨rfl, rfl⟩
  · unfold addressSpaceAdoptUser at h
    rw [ite_none_left_eq_some, ite_none_left_eq_some, ite_none_left_eq_some,
      ite_none_left_eq_some, ite_none_left_eq_some] at h
    obtain ⟨-, -, -, -, -, h⟩ := h
    obtain rfl := some.inj h
    exact ⟨rfl, rfl⟩

theorem Slots.Inv.created (h : Created space) : Slots.Inv ⟨space, []⟩ := by
  obtain ⟨hcount, hbitmap⟩ := h.fresh
  constructor
  case nodup => exact nodup_nil
  case described => exact fun _ hmem => absurd hmem not_mem_nil
  case taken =>
    intro i _
    rw [AddressSpace.slotTaken, hbitmap, BitVec.zero_and]
    simp
  case kernel =>
    intro _
    rw [hcount]
    exact ⟨rfl, Nat.one_ne_zero⟩

theorem Slots.Inv.run {calls : List SlotCall} (h : Created space)
    (hr : Run Slots.step ⟨space, []⟩ calls t) : t.Inv := by
  refine hr.invariant (.created h) fun s call u hi _ hs => ?_
  obtain rfl := some.inj hs
  cases hperform : s.perform call with
  | none => exact hi
  | some u => exact hi.perform hperform

/-- The diagnostic count is the number of slots handed out. -/
theorem Slots.Inv.reservedCount (hi : s.Inv) (hlive : s.space.referenceCount ≠ 0) :
    userStackSlotReservedCount s.space = s.held.length := by
  unfold userStackSlotReservedCount
  split
  next hkernel => rw [(hi.kernel hkernel).1, length_nil]
  next =>
    have hlt : ∀ h ∈ s.held, h.slot.index < 32 := fun h hmem => (describe_eq (hi.described h hmem)).1
    have hperm : ((List.range userStackSlotCount).filter s.space.slotTaken).Perm
        (s.held.map fun h => h.slot.index) := by
      refine (perm_ext_iff_of_nodup (nodup_range.filter _) hi.nodup).mpr fun i => ?_
      rw [mem_filter, mem_range]
      constructor
      · rintro ⟨hi', htaken⟩
        exact (hi.taken i hi').mp htaken
      · intro hmem
        obtain ⟨h, hheld, rfl⟩ := mem_map.mp hmem
        exact ⟨hlt h hheld, (hi.taken _ (hlt h hheld)).mpr hmem⟩
    rw [countP_eq_length_filter, hperm.length_eq, length_map]

/-- A slot nobody holds cannot be released. -/
theorem Slots.Inv.not_held (hi : s.Inv) (hnot : ∀ h ∈ s.held, h.slot.index ≠ index) :
    userStackSlotRelease s.space index = none := by
  cases hrelease : userStackSlotRelease s.space index with
  | none => rfl
  | some space =>
    obtain ⟨-, -, hlt, htaken, -⟩ := slotRelease_some hrelease
    obtain ⟨h, hmem, heq⟩ := mem_map.mp ((hi.taken index hlt).mp htaken)
    exact absurd heq (hnot h hmem)

/-- Nothing works on a dead address space. -/
theorem Slots.Inv.dead (hi : s.Inv) (hdead : s.space.referenceCount = 0) (call : SlotCall) :
    s.perform call = none := by
  have huser : s.space.kernelSpace = false := by
    cases hk : s.space.kernelSpace with
    | false => rfl
    | true => exact absurd hdead (hi.kernel hk).2
  cases call with
  | retain =>
    rw [Slots.perform, addressSpaceRetain, huser, if_neg nofun, if_pos (.inl hdead)]
    rfl
  | release _ _ =>
    rw [Slots.perform, addressSpaceRelease, huser, if_neg nofun, if_pos hdead]
    rfl
  | reserve _ =>
    rw [Slots.perform, userStackSlotReserve, huser, if_neg nofun, if_pos hdead]
    rfl
  | reserveIndex _ index =>
    refine map_eq_none_iff.mpr ?_
    cases hreserve : userStackSlotReserveIndex s.space index with
    | none => rfl
    | some r =>
      obtain ⟨slot, space⟩ := r
      exact absurd hdead (reserveIndex_some hreserve).1.live
  | slotRelease index =>
    refine map_eq_none_iff.mpr ?_
    cases hrelease : userStackSlotRelease s.space index with
    | none => rfl
    | some space => exact absurd hdead (slotRelease_some hrelease).2.1

/-- Every sequence of calls on an address space, from its creation on. -/
theorem stack_slots_owned {calls : List SlotCall} (hcreated : Created space)
    (hr : Run Slots.step ⟨space, []⟩ calls t) :
    (t.held.map fun h => h.slot.index).Nodup ∧
    (∀ h ∈ t.held, h.slot.Proper) ∧
    (∀ h ∈ t.held, ∀ h' ∈ t.held, h.slot.index ≠ h'.slot.index → h.slot.Disjoint h'.slot) ∧
    (∀ i j slot slot', describeUserStackSlot i = some slot → describeUserStackSlot j = some slot' →
      i ≠ j → slot.Disjoint slot') ∧
    (t.space.referenceCount ≠ 0 → userStackSlotReservedCount t.space = t.held.length) ∧
    (∀ index, (∀ h ∈ t.held, h.slot.index ≠ index) → t.perform (.slotRelease index) = none) ∧
    (t.space.referenceCount = 0 → ∀ call, t.perform call = none) := by
  have hi := Slots.Inv.run hcreated hr
  refine ⟨hi.nodup, fun h hmem => (describe_proper (hi.described h hmem)).2,
    fun h hmem h' hmem' => describe_disjoint (hi.described h hmem) (hi.described h' hmem'),
    fun i j slot slot' => describe_disjoint, hi.reservedCount, fun index hnot => ?_, hi.dead⟩
  exact Option.map_eq_none_iff.mpr (hi.not_held hnot)

/-- A thread takes a slot and gives it back, and the last reference is dropped. -/
theorem stack_slots_owned_thread : ∃ space t, Created space ∧
    Run Slots.step ⟨space, []⟩ [.retain, .reserveIndex 1 0, .reserve 2, .slotRelease 1,
      .release 0x1000 0x1000, .release 0x1000 0x1000] t ∧
    t.space.referenceCount = 0 ∧ ∀ call, t.perform call = none := by
  have hcreated : Created ⟨0x2000, 1, 0#32, false⟩ :=
    .inr ⟨true, 0x1000, 0x1000, true, 0x2000, by decide⟩
  have hrun : (exec Slots.step (fun _ _ => True) ⟨⟨0x2000, 1, 0#32, false⟩, []⟩
      [.retain, .reserveIndex 1 0, .reserve 2, .slotRelease 1,
        .release 0x1000 0x1000, .release 0x1000 0x1000]).any
      (fun t => decide (t.space.referenceCount = 0)) = true := by decide +kernel
  obtain ⟨t, hexec, hdead⟩ := (Option.any_eq_true _ _).mp hrun
  have hzero := of_decide_eq_true hdead
  have hr := run_of_exec hexec
  obtain ⟨-, -, -, -, -, -, hnone⟩ := stack_slots_owned hcreated hr
  exact ⟨_, t, hcreated, hr, hzero, hnone hzero⟩

end MeatySkeleton.Thread
