import MeatySkeleton.Lib.Run
import MeatySkeleton.Paging.Machine

/-!
# User stacks of the threads of one process

`address_space.c` keeps a bitmap of 32 stack slots per address space;
`user_thread_create_current` takes the first free one for each new thread, and
`spawn` takes slot 0 for the main thread. A thread that exits is removed by the
reaper. The model is one process: its address space and its threads that are not
reaped yet.

`none` is the endless loop `user_thread_halt` and its like enter. What the rest
of the kernel answers during a creation (allocations, page mappings, the page
table entry of the entry point) is an input of it.
-/

namespace MeatySkeleton.Thread

open List Option Lib Paging

/-! ## The slot bitmap -/

def userStackSize : Nat := 0x100000
def userStackGuardSize : Nat := 0x1000
def userStackSlotCount : Nat := 32
def userStackRegionTop : Nat := 0xC0000000

structure UserStackSlot where
  index : Nat
  stackBottom : Nat
  stackTop : Nat
  guardBottom : Nat
  guardTop : Nat
  deriving DecidableEq

structure AddressSpace where
  pageDirectory : Nat
  referenceCount : Nat
  userStackSlotBitmap : BitVec 32
  kernelSpace : Bool
  deriving DecidableEq

/-- `address_space_describe_user_stack_slot`. -/
def describeUserStackSlot (index : Nat) : Option UserStackSlot :=
  let offset := index * (userStackSize + userStackGuardSize)
  let stackTop := userStackRegionTop - offset
  let stackBottom := stackTop - userStackSize
  if userStackSlotCount ≤ index then none
  else if userStackRegionTop ≤ offset then none
  else if stackTop < userStackSize then none
  else if stackBottom < userStackGuardSize then none
  else some ⟨index, stackBottom, stackTop, stackBottom - userStackGuardSize, stackBottom⟩

/-- `address_space_user_stack_slot_mask`. -/
def userStackSlotMask (index : Nat) : BitVec 32 := 1#32 <<< index

def AddressSpace.slotTaken (space : AddressSpace) (index : Nat) : Bool :=
  space.userStackSlotBitmap &&& userStackSlotMask index != 0#32

open AddressSpace (slotTaken)

section

variable (space : AddressSpace)

def AddressSpace.take (index : Nat) : AddressSpace :=
  { space with userStackSlotBitmap := space.userStackSlotBitmap ||| userStackSlotMask index }

/-- `address_space_user_stack_slot_reserve_index`. -/
def userStackSlotReserveIndex (index : Nat) :
    Option (UserStackSlot × AddressSpace) :=
  if space.kernelSpace then none
  else if userStackSlotCount ≤ index then none
  else match describeUserStackSlot index with
    | none => none
    | some slot =>
      if space.referenceCount = 0 then none
      else if space.slotTaken index then none
      else some (slot, space.take index)

/-- `address_space_user_stack_slot_reserve`. -/
def userStackSlotReserve : Option (UserStackSlot × AddressSpace) :=
  if space.kernelSpace then none
  else if space.referenceCount = 0 then none
  else match (List.range userStackSlotCount).find? (fun index => !space.slotTaken index) with
    | none => none
    | some index => (describeUserStackSlot index).map fun slot => (slot, space.take index)

/-- `address_space_user_stack_slot_reserved_count`. -/
def userStackSlotReservedCount : Nat :=
  if space.kernelSpace then 0
  else if space.referenceCount = 0 then 0
  else (List.range userStackSlotCount).countP space.slotTaken

end

theorem describe_some {index : Nat} (h : index < userStackSlotCount) :
    ∃ slot, describeUserStackSlot index = some slot := by
  unfold userStackSlotCount at h
  unfold describeUserStackSlot userStackSlotCount userStackRegionTop userStackSize userStackGuardSize
  rw [if_neg (by omega), if_neg (by omega), if_neg (by omega), if_neg (by omega)]
  exact ⟨_, rfl⟩

theorem slotTaken_eq (space : AddressSpace) {index : Nat} (h : index < 32) :
    space.slotTaken index = space.userStackSlotBitmap.getLsbD index := by
  have hbit : ∀ i, (userStackSlotMask index).getLsbD i = (decide (i < 32) && decide (i = index)) := by
    intro i
    rw [userStackSlotMask, ← BitVec.twoPow_eq, BitVec.getLsbD_twoPow]
    grind
  cases hb : space.userStackSlotBitmap.getLsbD index with
  | false =>
    have hzero : space.userStackSlotBitmap &&& userStackSlotMask index = 0#32 := by
      apply BitVec.eq_of_getLsbD_eq
      intro i hi
      rw [BitVec.getLsbD_and, hbit]
      by_cases hii : i = index
      · subst hii
        rw [hb, BitVec.getLsbD_zero, Bool.false_and]
      · rw [decide_eq_false hii, Bool.and_false, Bool.and_false, BitVec.getLsbD_zero]
    rw [slotTaken, hzero]
    rfl
  | true =>
    rw [slotTaken, bne_iff_ne]
    intro hzero
    have hat : (space.userStackSlotBitmap &&& userStackSlotMask index).getLsbD index = true := by
      rw [BitVec.getLsbD_and, hbit, hb, decide_eq_true h, decide_eq_true rfl]
      rfl
    rw [hzero, BitVec.getLsbD_zero] at hat
    cases hat

theorem slotTaken_take (space : AddressSpace) {index i : Nat} (h : index < 32) (hi : i < 32) :
    (space.take index).slotTaken i = (space.slotTaken i || decide (i = index)) := by
  rw [slotTaken_eq _ hi, slotTaken_eq _ hi, AddressSpace.take]
  show (space.userStackSlotBitmap ||| userStackSlotMask index).getLsbD i = _
  rw [BitVec.getLsbD_or, userStackSlotMask, ← BitVec.twoPow_eq, BitVec.getLsbD_twoPow,
    decide_eq_true h, Bool.true_and]
  congr 1
  exact decide_eq_decide.mpr eq_comm

/-- Setting one more bit counts one more. -/
theorem countP_take (space : AddressSpace) {index : Nat} (h : index < 32)
    (hfree : space.slotTaken index = false) : ∀ {l : List Nat}, l.Nodup → (∀ i ∈ l, i < 32) →
      l.countP (space.take index).slotTaken =
        l.countP space.slotTaken + if index ∈ l then 1 else 0
  | [], _, _ => rfl
  | i :: l, hn, hl => by
    obtain ⟨hni, hn'⟩ := nodup_cons.mp hn
    have ih := countP_take space h hfree hn' fun j hj => hl j (mem_cons_of_mem _ hj)
    rw [countP_cons, countP_cons, ih, slotTaken_take space h (hl i mem_cons_self)]
    by_cases hii : i = index
    · subst hii
      rw [if_neg hni, hfree, if_pos mem_cons_self, decide_eq_true rfl]
      rfl
    · have hmem : index ∈ i :: l ↔ index ∈ l := by
        rw [mem_cons, or_iff_right (Ne.symm hii)]
      rw [decide_eq_false hii, Bool.or_false, if_congr hmem rfl rfl]
      omega

/-- A reservation takes one more slot; it fails only when all are taken. -/
theorem userStackSlotReserve_cases {space : AddressSpace} (hk : space.kernelSpace = false)
    (hr : space.referenceCount ≠ 0) :
    (userStackSlotReserve space = none ∧ userStackSlotReservedCount space = 32) ∨
      ∃ slot index, userStackSlotReserve space = some (slot, space.take index) ∧
        userStackSlotReservedCount (space.take index) = userStackSlotReservedCount space + 1 := by
  have hcount : ∀ index, userStackSlotReservedCount (space.take index) =
      (List.range userStackSlotCount).countP (space.take index).slotTaken := by
    intro index
    rw [userStackSlotReservedCount, AddressSpace.take]
    simp only [hk, Bool.false_eq_true, if_false, if_neg hr]
  have hcount0 : userStackSlotReservedCount space =
      (List.range userStackSlotCount).countP space.slotTaken := by
    rw [userStackSlotReservedCount, hk, if_neg nofun, if_neg hr]
  rw [userStackSlotReserve, hk, if_neg nofun, if_neg hr]
  cases hfind : (List.range userStackSlotCount).find? (fun index => !space.slotTaken index) with
  | none =>
    left
    refine ⟨rfl, ?_⟩
    have hall : ∀ i ∈ List.range userStackSlotCount, space.slotTaken i = true := by
      intro i hi
      have hno := find?_eq_none.mp hfind i hi
      rwa [Bool.not_eq_true, Bool.not_eq_false'] at hno
    rw [hcount0, countP_eq_length.mpr hall, length_range]
    rfl
  | some index =>
    right
    have hmem := mem_of_find?_eq_some hfind
    have hlt : index < 32 := mem_range.mp hmem
    have hfree : space.slotTaken index = false := by
      have hsome := find?_some hfind
      rwa [Bool.not_eq_true'] at hsome
    obtain ⟨slot, hslot⟩ := describe_some hlt
    refine ⟨slot, index, ?_, ?_⟩
    · show (describeUserStackSlot index).map _ = _
      rw [hslot]
      rfl
    · have hstep := countP_take space hlt hfree (l := List.range userStackSlotCount) nodup_range
        fun i hi => mem_range.mp hi
      rw [hcount, hcount0, hstep, if_pos hmem]

/-! ## Creating a stack -/

structure UserStack where
  slot : UserStackSlot
  mappedPageCount : Nat

/-- The loop of `address_space_user_stack_create`: how many of the `n` pages from
`page` on are mapped, and whether all of them were. -/
def mapStackPages (mapped : Nat → Bool) (page : Nat) : Nat → Nat × Bool
  | 0 => (0, true)
  | n + 1 =>
    if mapped page then
      let (count, all) := mapStackPages mapped (page + pageSize) n
      (count + 1, all)
    else (0, false)

/-- `address_space_user_stack_create`, in the kernel's address space. -/
def userStackCreate (space : AddressSpace) (kernelDirectory : Nat) (mapped : Nat → Bool) :
    Option UserStack × AddressSpace :=
  if space.kernelSpace then (none, space)
  else if kernelDirectory = 0 then (none, space)
  else if space.pageDirectory = 0 ∨ space.pageDirectory = kernelDirectory then (none, space)
  else match userStackSlotReserve space with
    | none => (none, space)
    | some (slot, space) =>
      let (count, all) := mapStackPages mapped slot.stackBottom (userStackSize / pageSize)
      if all = false then (none, space)
      else if count ≠ userStackSize / pageSize then (none, space)
      else (some ⟨slot, count⟩, space)

theorem userStackCreate_space (space : AddressSpace) (kernelDirectory : Nat) (mapped : Nat → Bool)
    {stack : UserStack} {space' : AddressSpace}
    (h : userStackCreate space kernelDirectory mapped = (some stack, space')) :
    ∃ slot, userStackSlotReserve space = some (slot, space') := by
  unfold userStackCreate at h
  split at h
  · cases h
  · split at h
    · cases h
    · split at h
      · cases h
      · split at h
        · cases h
        case h_2 slot taken hreserve =>
          refine ⟨slot, ?_⟩
          dsimp only at h
          split at h
          · cases h
          · split at h
            · cases h
            · rw [hreserve, (Prod.mk.inj h).2]

/-! ## Threads -/

/-- A thread of the process that is not reaped yet. -/
structure UserThread where
  id : Nat
  exited : Bool
  deriving DecidableEq

structure ThreadGroup where
  space : AddressSpace
  kernelDirectory : Nat
  threads : List UserThread
  nextId : Nat
  deriving DecidableEq

/-- What the rest of the kernel answers during one thread creation. -/
structure Launch where
  entry : Nat
  currentDirectory : Nat
  /-- `paging_get_effective_flags` of the entry point. -/
  entryFlags : Option Word
  /-- `kmalloc` of the launch context. -/
  allocated : Bool
  /-- Whether a page of the new stack gets a frame and a mapping. -/
  mapped : Nat → Bool
  /-- `paging_share_kernel_pde`, both calls. -/
  shared : Bool
  /-- `task_create_user_unpublished`. -/
  task : Bool
  /-- `task_bind_process`. -/
  bound : Bool

/-- `USER_THREAD_USER_LIMIT`. -/
def userThreadUserLimit : Nat := 0xC0000000

/-- The checks of `user_thread_create_current` before it takes anything. -/
def mayCreate (g : ThreadGroup) (l : Launch) : Bool :=
  let directory := g.space.pageDirectory
  if g.space.kernelSpace then false
  else if l.entry = 0 ∨ userThreadUserLimit ≤ l.entry then false
  else if directory = 0 ∨ g.kernelDirectory = 0 ∨ directory = g.kernelDirectory then false
  else if l.currentDirectory ≠ directory then false
  else match l.entryFlags with
    | none => false
    | some flags =>
      if flags.has pagePresent = false ∨ flags.has pageUser = false then false
      else g.kernelDirectory % pageSize = 0

/-- The checks after the stack was made, each of which halts when it fails. -/
def mayPublish (g : ThreadGroup) (l : Launch) (stack : UserStack) : Bool :=
  stack.mappedPageCount = userStackSize / pageSize && l.shared && l.task && l.bound &&
    2 ≤ g.threads.length + 1 && g.space.pageDirectory % pageSize = 0

/-- `user_thread_create_current`: the id of the new thread, or 0. -/
def userThreadCreateCurrent (g : ThreadGroup) (l : Launch) : Option (Nat × ThreadGroup) :=
  if mayCreate g l = false then some (0, g)
  else if l.allocated = false then
    if g.space.pageDirectory % pageSize ≠ 0 then none else some (0, g)
  else match userStackCreate g.space g.kernelDirectory l.mapped with
    | (none, _) => none
    | (some stack, space) =>
      if mayPublish g l stack = false then none
      else some (g.nextId,
        { g with
          space := { space with referenceCount := space.referenceCount + 1 }
          threads := g.threads ++ [⟨g.nextId, false⟩]
          nextId := g.nextId + 1 })

/-- The part of `spawn` that makes the address space and its main thread: the
process and the thread hold one reference each. -/
def spawn (directory kernelDirectory tid : Nat) : Option ThreadGroup := do
  let (_, space) ← userStackSlotReserveIndex ⟨directory, 1, 0#32, false⟩ 0
  return ⟨{ space with referenceCount := 2 }, kernelDirectory, [⟨tid, false⟩], tid + 1⟩

inductive Event where
  | create (parent : Nat) (launch : Launch)
  | exit (tid : Nat)
  | reap (tid : Nat)

/-- The thread `tid` is live and runs. -/
def ThreadGroup.running (g : ThreadGroup) (tid : Nat) : Bool := g.threads.contains ⟨tid, false⟩

/-- One operation: a creation by a running thread, `task_exit`, or the reaper. -/
def step (g : ThreadGroup) : Event → Option ThreadGroup
  | .create parent launch =>
    if g.running parent then (userThreadCreateCurrent g launch).map Prod.snd else none
  | .exit tid =>
    if g.running tid then
      some { g with threads := g.threads.map fun t => if t.id = tid then { t with exited := true } else t }
    else none
  | .reap tid =>
    if g.threads.contains ⟨tid, true⟩ then
      some
        { g with
          threads := g.threads.erase ⟨tid, true⟩
          space := { g.space with referenceCount := g.space.referenceCount - 1 } }
    else none

/-- As many slots are reserved as there are threads, and with fewer threads than
slots the next creation finds a slot. -/
def SlotsBalanced (g : ThreadGroup) : Prop :=
  userStackSlotReservedCount g.space = g.threads.length ∧
    (g.threads.length < userStackSlotCount → (userStackSlotReserve g.space).isSome)

/-- The state after a run: `reaped` threads have left, and their slots stay taken. -/
structure GroupInv (g : ThreadGroup) (reaped : Nat) : Prop where
  user : g.space.kernelSpace = false
  references : g.space.referenceCount = g.threads.length + 1
  slots : userStackSlotReservedCount g.space = g.threads.length + reaped

theorem reservedCount_references (space : AddressSpace) {n : Nat} (h : space.referenceCount ≠ 0)
    (hn : n ≠ 0) : userStackSlotReservedCount { space with referenceCount := n } =
      userStackSlotReservedCount space := by
  unfold userStackSlotReservedCount
  rw [if_neg h, if_neg (c := ({ space with referenceCount := n } : AddressSpace).referenceCount = 0) hn]
  rfl

variable {g g' : ThreadGroup}

/-- Where a creation leaves the group: unchanged, or with one thread and one slot
more. -/
theorem userThreadCreateCurrent_cases {l : Launch} {tid : Nat}
    (h : userThreadCreateCurrent g l = some (tid, g')) : g' = g ∨
      ∃ slot space, userStackSlotReserve g.space = some (slot, space) ∧
        g'.space = { space with referenceCount := space.referenceCount + 1 } ∧
        g'.threads = g.threads ++ [⟨g.nextId, false⟩] := by
  unfold userThreadCreateCurrent at h
  split at h
  · exact .inl (Prod.mk.inj (some.inj h)).2.symm
  · split at h
    · split at h
      · cases h
      · exact .inl (Prod.mk.inj (some.inj h)).2.symm
    · split at h
      · cases h
      case h_2 stack space hcreate =>
        split at h
        · cases h
        · obtain ⟨slot, hreserve⟩ := userStackCreate_space _ _ _ hcreate
          obtain rfl := (Prod.mk.inj (some.inj h)).2
          exact .inr ⟨slot, space, hreserve, rfl, rfl⟩

theorem create_inv {reaped tid : Nat} {l : Launch} (h : GroupInv g reaped)
    (hc : userThreadCreateCurrent g l = some (tid, g')) : GroupInv g' reaped := by
  rcases userThreadCreateCurrent_cases hc with rfl | ⟨slot, space, hreserve, hspace, hthreads⟩
  · exact h
  · have hpos : g.space.referenceCount ≠ 0 := by
      rw [h.references]
      exact Nat.succ_ne_zero _
    rcases userStackSlotReserve_cases h.user hpos with ⟨hnone, -⟩ | ⟨slot', i, hsome, hcount⟩
    · rw [hnone] at hreserve
      cases hreserve
    · rw [hsome] at hreserve
      cases hreserve
      refine ⟨?_, ?_, ?_⟩
      · rw [hspace]
        exact h.user
      · rw [hspace, hthreads, length_append]
        show g.space.referenceCount + 1 = _
        rw [h.references]
        rfl
      · have hlength : (g.threads ++ [(⟨g.nextId, false⟩ : UserThread)]).length =
            g.threads.length + 1 := length_append
        have htaken : (g.space.take i).referenceCount ≠ 0 := hpos
        rw [hspace, hthreads, reservedCount_references _ htaken (Nat.succ_ne_zero _), hcount, h.slots,
          hlength]
        omega

/-- How many threads an event takes away. -/
def Event.reaps : Event → Nat
  | .reap _ => 1
  | _ => 0

theorem step_inv {reaped : Nat} {e : Event} (h : GroupInv g reaped)
    (hs : step g e = some g') : GroupInv g' (reaped + e.reaps) := by
  cases e with
  | create parent launch =>
    rw [step, ite_none_right_eq_some] at hs
    obtain ⟨⟨tid, g1⟩, hc, rfl⟩ := map_eq_some_iff.mp hs.2
    exact create_inv h hc
  | exit tid =>
    rw [step, ite_none_right_eq_some] at hs
    obtain rfl := some.inj hs.2
    refine ⟨h.user, ?_, ?_⟩
    · show g.space.referenceCount = (g.threads.map _).length + 1
      rw [length_map]
      exact h.references
    · show userStackSlotReservedCount g.space = (g.threads.map _).length + _
      rw [length_map]
      exact h.slots
  | reap tid =>
    rw [step, ite_none_right_eq_some] at hs
    obtain ⟨hmem, hs⟩ := hs
    obtain rfl := some.inj hs
    have hmem' : (⟨tid, true⟩ : UserThread) ∈ g.threads := contains_iff_mem.mp hmem
    have hlength := length_erase_of_mem hmem'
    have hpos : 0 < g.threads.length := length_pos_of_mem hmem'
    have href := h.references
    refine ⟨h.user, ?_, ?_⟩
    · show g.space.referenceCount - 1 = (g.threads.erase _).length + 1
      omega
    · show userStackSlotReservedCount { g.space with referenceCount := g.space.referenceCount - 1 } =
        (g.threads.erase _).length + (reaped + 1)
      rw [reservedCount_references _ (by omega) (by omega), h.slots]
      omega

theorem slotTaken_empty (directory count index : Nat) :
    slotTaken ⟨directory, count, 0#32, false⟩ index = false := by
  show (0#32 &&& userStackSlotMask index != 0#32) = false
  rw [BitVec.zero_and]
  rfl

theorem spawn_inv {directory kernelDirectory tid : Nat} {g : ThreadGroup}
    (h : spawn directory kernelDirectory tid = some g) : GroupInv g 0 := by
  obtain ⟨slot, hslot⟩ := @describe_some 0 (by decide)
  have hreserve : userStackSlotReserveIndex ⟨directory, 1, 0#32, false⟩ 0 =
      some (slot, AddressSpace.take ⟨directory, 1, 0#32, false⟩ 0) := by
    have hin : ¬userStackSlotCount ≤ 0 := by decide
    rw [userStackSlotReserveIndex, if_neg nofun, if_neg hin, hslot]
    show (if (1 : Nat) = 0 then none else _) = _
    rw [if_neg (by decide), slotTaken_empty, if_neg nofun]
  rw [spawn, hreserve] at h
  obtain rfl := some.inj h
  refine ⟨rfl, rfl, ?_⟩
  have hone := @countP_take ⟨directory, 1, 0#32, false⟩ 0 (by decide)
    (slotTaken_empty ..) (List.range userStackSlotCount) nodup_range
    fun i hi => mem_range.mp hi
  have hnone : (List.range userStackSlotCount).countP
      (slotTaken ⟨directory, 1, 0#32, false⟩) = 0 :=
    countP_eq_zero.mpr fun i _ => by rw [slotTaken_empty]; exact nofun
  have hmem : 0 ∈ List.range userStackSlotCount := mem_range.mpr (by decide)
  rw [hnone, if_pos hmem] at hone
  exact hone

theorem run_inv {es : List Event} (h : GroupInv g 0) (hr : Run step g es g') :
    GroupInv g' (tally Event.reaps es) := by
  induction hr with
  | nil => exact h
  | snoc _ _ hs ih =>
    rw [tally_append]
    exact step_inv ih hs

theorem GroupInv.balanced_iff {g : ThreadGroup} {reaped : Nat} (h : GroupInv g reaped) :
    SlotsBalanced g ↔ reaped = 0 := by
  have hpos : g.space.referenceCount ≠ 0 := by
    rw [h.references]
    exact Nat.succ_ne_zero _
  have hslots := h.slots
  constructor
  · rintro ⟨hbalanced, -⟩
    omega
  · rintro rfl
    refine ⟨hslots, fun hlt => ?_⟩
    rcases userStackSlotReserve_cases h.user hpos with ⟨-, hfull⟩ | ⟨slot, i, hsome, -⟩
    · rw [userStackSlotCount] at hlt
      omega
    · rw [hsome]
      rfl

/-- In every state of every run the stack slots are balanced if and only if no
thread of the process was reaped so far. -/
theorem run_slotsBalanced_iff {directory kernelDirectory tid : Nat} {g g' : ThreadGroup}
    {es : List Event} (hspawn : spawn directory kernelDirectory tid = some g)
    (hr : Run step g es g') : SlotsBalanced g' ↔ ∀ t, Event.reap t ∉ es := by
  rw [(run_inv (spawn_inv hspawn) hr).balanced_iff, tally_eq_zero]
  constructor
  · intro hzero t hmem
    have hone := hzero _ hmem
    cases hone
  · intro hno e he
    cases e with
    | create _ _ => rfl
    | exit _ => rfl
    | reap t => exact absurd he (hno t)

/-- A creation in which everything succeeds. -/
def plainLaunch : Launch where
  entry := 0x8048000
  currentDirectory := 0x200000
  entryFlags := some 0x7#32
  allocated := true
  mapped := fun _ => true
  shared := true
  task := true
  bound := true

/-- A second thread is created. -/
theorem run_slotsBalanced_iff_second : ∃ g g', spawn 0x200000 0x100000 5 = some g ∧
    Run step g [.create 5 plainLaunch, .exit 6] g' ∧ g'.threads.length = 2 ∧ SlotsBalanced g' := by
  have hrun : ((spawn 0x200000 0x100000 5).bind fun g =>
      (exec step (fun _ _ => True) g [.create 5 plainLaunch, .exit 6])).any
        (fun g => decide (g.threads.length = 2)) = true := by decide +kernel
  obtain ⟨g', hg', hlength⟩ := (Option.any_eq_true _ _).mp hrun
  obtain ⟨g, hg, hexec⟩ := Option.bind_eq_some_iff.mp hg'
  refine ⟨g, g', hg, run_of_exec hexec, of_decide_eq_true hlength, ?_⟩
  refine (run_slotsBalanced_iff hg (run_of_exec hexec)).mpr ?_
  intro t ht
  rcases List.mem_cons.mp ht with he | ht
  · cases he
  · rcases List.mem_cons.mp ht with he | ht
    · cases he
    · cases ht

/-- A thread is created, exits and is reaped: its slot stays reserved. -/
theorem not_run_slotsBalanced : ¬ ∀ (directory kernelDirectory tid : Nat) (g g' : ThreadGroup)
    (es : List Event), spawn directory kernelDirectory tid = some g → Run step g es g' →
      SlotsBalanced g' := by
  intro hall
  have hrun : ((spawn 0x200000 0x100000 5).bind fun g =>
      (exec step (fun _ _ => True) g [.create 5 plainLaunch, .exit 6, .reap 6])).any
        (fun _ => true) = true := by decide +kernel
  obtain ⟨g', hg', -⟩ := (Option.any_eq_true _ _).mp hrun
  obtain ⟨g, hg, hexec⟩ := Option.bind_eq_some_iff.mp hg'
  have hinv := run_inv (spawn_inv hg) (run_of_exec hexec)
  have hzero := hinv.balanced_iff.mp (hall _ _ _ g g' _ hg (run_of_exec hexec))
  cases hzero

end MeatySkeleton.Thread
