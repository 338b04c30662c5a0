import MeatySkeleton.Memory.Pmm
import MeatySkeleton.Lib.Run

/-!
# Handing out frames

`pmm_allocate_frame`, `pmm_free_frame` and `pmm_get_free_frame_count` on the packed
bitmap. Each of them holds `pmm_lock` throughout, so any interleaving of their callers
is a list of calls. `Held` follows such a list with the addresses that are handed out
and not yet given back. As long as nobody frees a frame that is not his
(`FrameCall.Allowed`), a frame is in use exactly if it was in use after the initialisation
or is handed out (`Inv.used`), and everything else follows from that.

The paging code was modelled on a bitmap of one flag a frame; the last section says
that the packed bitmap is that bitmap.
-/

namespace MeatySkeleton.Memory

open Function List Lib Paging

/-- `pmm_allocate_frame`. -/
def Pmm.allocateFrame (p : Pmm) : Nat × Pmm :=
  match findFree p.isUsed 1 (frameCount - 1) with
  | some frame => (frame * Paging.pageSize, p.markUsed frame)
  | none => (0, p)

/-- `pmm_free_frame`. -/
def Pmm.freeFrame (p : Pmm) (address : Nat) : Pmm :=
  if address % Paging.pageSize ≠ 0 then p
  else if address = 0 ∨ maxPhysicalMemory ≤ address then p
  else p.markFree (address / Paging.pageSize)

/-- `pmm_get_free_frame_count`. -/
def Pmm.getFreeFrameCount (p : Pmm) : Nat :=
  (List.range frameCount).foldl (fun free frame => if !p.isUsed frame then free + 1 else free) 0

inductive FrameCall where
  | allocate
  | free (address : Nat)

/-- The allocator and the addresses that are handed out. -/
structure Held where
  pmm : Pmm
  outstanding : List Nat

def Held.step (s : Held) : FrameCall → Option Held
  | .allocate =>
    let (address, pmm) := s.pmm.allocateFrame
    some { pmm, outstanding := if address = 0 then s.outstanding else address :: s.outstanding }
  | .free address =>
    some { pmm := s.pmm.freeFrame address, outstanding := s.outstanding.erase address }

/-- Only what is handed out is freed, or what `pmm_free_frame` rejects. -/
def FrameCall.Allowed (s : Held) : FrameCall → Prop
  | .allocate => True
  | .free address => address ∈ s.outstanding ∨
      address % Paging.pageSize ≠ 0 ∨ address = 0 ∨ maxPhysicalMemory ≤ address

/-! ## Counting -/

variable {p p0 : Pmm} {s t : Held}

theorem foldl_count (used : Nat → Bool) : ∀ (frames : List Nat) (n : Nat),
    frames.foldl (fun free frame => if !used frame then free + 1 else free) n =
      n + tally (fun frame => if used frame then 0 else 1) frames
  | [], n => rfl
  | frame :: frames, n => by
    rw [foldl_cons, foldl_count used frames, tally_cons]
    cases used frame with
    | false => exact Nat.add_assoc ..
    | true =>
      rw [if_pos rfl, Nat.zero_add]
      rfl

theorem getFreeFrameCount_eq (p : Pmm) : p.getFreeFrameCount =
    tally (fun frame => if p.isUsed frame then 0 else 1) (List.range frameCount) := by
  rw [Pmm.getFreeFrameCount, foldl_count, Nat.zero_add]

@[simp] theorem markUsed_flags (p : Pmm) (frame : Nat) :
    (p.markUsed frame).isUsed = update p.isUsed frame true := bitAt_setBit_update ..

@[simp] theorem markFree_flags (p : Pmm) (frame : Nat) :
    (p.markFree frame).isUsed = update p.isUsed frame false := bitAt_clearBit_update ..

variable {frame : Nat}

theorem markUsed_count (hlt : frame < frameCount) (hfree : p.isUsed frame = false) :
    (p.markUsed frame).getFreeFrameCount + 1 = p.getFreeFrameCount := by
  rw [getFreeFrameCount_eq, getFreeFrameCount_eq, markUsed_flags]
  exact tally_free_update nodup_range (mem_range.mpr hlt) hfree

theorem markFree_count (hlt : frame < frameCount) (hused : p.isUsed frame = true) :
    (p.markFree frame).getFreeFrameCount = p.getFreeFrameCount + 1 := by
  have hfree : (p.markFree frame).isUsed frame = false := by
    rw [markFree_flags, update_self]
  have hback : ((p.markFree frame).markUsed frame).isUsed = p.isUsed := by
    rw [markUsed_flags, markFree_flags, update_idem, ← hused, update_eq_self]
  have hcount := markUsed_count hlt hfree
  rw [getFreeFrameCount_eq, hback, ← getFreeFrameCount_eq] at hcount
  exact hcount.symm

/-- Allocation takes a free frame other than frame 0, if there is one. -/
theorem allocateFrame_cases (p : Pmm) :
    (p.allocateFrame = (0, p) ∧ ∀ frame, 0 < frame → frame < frameCount → p.isUsed frame = true) ∨
      ∃ frame, p.allocateFrame = (frame * Paging.pageSize, p.markUsed frame) ∧ 0 < frame ∧
        frame < frameCount ∧ p.isUsed frame = false := by
  unfold Pmm.allocateFrame
  rcases @findFree_spec p.isUsed (frameCount - 1) 1 with
    ⟨hnone, hall⟩ | ⟨frame, hsome, hpos, hlt, hfree⟩
  · left
    rw [hnone]
    refine ⟨rfl, fun frame hpos hlt => hall frame hpos ?_⟩
    omega
  · right
    rw [hsome]
    refine ⟨frame, rfl, hpos, ?_, hfree⟩
    rw [frameCount] at hlt ⊢
    omega

/-- What `pmm_free_frame` does: nothing, or the frame becomes free. -/
theorem freeFrame_cases (p : Pmm) (address : Nat) :
    (p.freeFrame address = p ∧
      (address % Paging.pageSize ≠ 0 ∨ address = 0 ∨ maxPhysicalMemory ≤ address)) ∨
      ∃ frame, address = frame * Paging.pageSize ∧ 0 < frame ∧ frame < frameCount ∧
        p.freeFrame address = p.markFree frame := by
  unfold Pmm.freeFrame
  split
  next halign => exact .inl ⟨rfl, .inl halign⟩
  next halign =>
    split
    next hrange => exact .inl ⟨rfl, .inr hrange⟩
    next hrange =>
      right
      rw [Paging.pageSize] at halign
      rw [maxPhysicalMemory] at hrange
      refine ⟨address / Paging.pageSize, ?_, ?_, ?_, rfl⟩
      · rw [Paging.pageSize]
        omega
      · rw [Paging.pageSize]
        omega
      · rw [Paging.pageSize, frameCount]
        omega

/-! ## Runs -/

/-- The start of a run: nothing is handed out. -/
def Held.start (p : Pmm) : Held := { pmm := p, outstanding := [] }

/-- What holds in every state of a run that began with the bitmap `p0`. -/
structure Held.Inv (p0 : Pmm) (s : Held) : Prop where
  nodup : s.outstanding.Nodup
  held : ∀ address ∈ s.outstanding, ∃ frame, address = frame * Paging.pageSize ∧ 0 < frame ∧
    frame < frameCount ∧ p0.isUsed frame = false
  used : ∀ frame, s.pmm.isUsed frame = true ↔
    p0.isUsed frame = true ∨ frame * Paging.pageSize ∈ s.outstanding
  count : s.pmm.getFreeFrameCount + s.outstanding.length = p0.getFreeFrameCount

theorem Held.Inv.start (p : Pmm) : Held.Inv p (Held.start p) where
  nodup := nodup_nil
  held := fun _ h => absurd h not_mem_nil
  used := fun frame => by simp [Held.start]
  count := Nat.add_zero _

theorem mul_pageSize_inj {a b : Nat} : a * Paging.pageSize = b * Paging.pageSize ↔ a = b :=
  Nat.mul_left_inj (by decide)

theorem Held.Inv.allocated (hi : s.Inv p0) (hpos : 0 < frame)
    (hlt : frame < frameCount) (hfree : s.pmm.isUsed frame = false) :
    Held.Inv p0 { pmm := s.pmm.markUsed frame, outstanding := frame * Paging.pageSize :: s.outstanding } := by
  have hnot : ¬(p0.isUsed frame = true ∨ frame * Paging.pageSize ∈ s.outstanding) := by
    rw [← hi.used, hfree]
    exact Bool.false_ne_true
  have hnew : frame * Paging.pageSize ∉ s.outstanding := fun h => hnot (.inr h)
  have hfree0 : p0.isUsed frame = false := Bool.not_eq_true _ ▸ fun h => hnot (.inl h)
  constructor
  case nodup => exact nodup_cons.mpr ⟨hnew, hi.nodup⟩
  case held =>
    intro address hmem
    rcases mem_cons.mp hmem with rfl | hmem
    · exact ⟨frame, rfl, hpos, hlt, hfree0⟩
    · exact hi.held address hmem
  case used =>
    intro x
    rw [markUsed_flags, update_used_iff, hi.used, mem_cons, mul_pageSize_inj, or_assoc]
    exact or_congr_right or_comm
  case count =>
    have hcount := markUsed_count hlt hfree
    have hbefore := hi.count
    rw [length_cons]
    dsimp only
    omega

theorem Held.Inv.freed (hi : s.Inv p0) (hlt : frame < frameCount)
    (hmem : frame * Paging.pageSize ∈ s.outstanding) :
    Held.Inv p0 { pmm := s.pmm.markFree frame, outstanding := s.outstanding.erase (frame * Paging.pageSize) } := by
  obtain ⟨frame', heq, -, -, hfree0⟩ := hi.held _ hmem
  obtain rfl : frame = frame' := mul_pageSize_inj.mp heq
  have hused : s.pmm.isUsed frame = true := (hi.used frame).mpr (.inr hmem)
  constructor
  case nodup => exact hi.nodup.erase _
  case held => exact fun address h => hi.held address (mem_of_mem_erase h)
  case used =>
    intro x
    rw [markFree_isUsed, hi.nodup.mem_erase_iff, Ne, mul_pageSize_inj, Bool.and_eq_true,
      Bool.not_eq_true', decide_eq_false_iff_not, hi.used]
    by_cases hx : x = frame
    · subst hx
      simp [hfree0]
    · simp only [hx, not_false_eq_true, and_true, true_and]
  case count =>
    have hcount := markFree_count hlt hused
    have hbefore := hi.count
    have hlength := length_erase_add_one hmem
    dsimp only
    omega

/-- One call keeps the invariant. -/
theorem Held.Inv.step (hi : s.Inv p0) (call : FrameCall) (hok : call.Allowed s)
    (hs : s.step call = some t) : t.Inv p0 := by
  cases call with
  | allocate =>
    rw [Held.step] at hs
    rcases allocateFrame_cases s.pmm with ⟨hnone, -⟩ | ⟨frame, hsome, hpos, hlt, hfree⟩
    · rw [hnone] at hs
      obtain rfl : s = t := Option.some.inj hs
      exact hi
    · rw [hsome] at hs
      have hne : frame * Paging.pageSize ≠ 0 := Nat.mul_ne_zero (Nat.ne_of_gt hpos) (by decide)
      dsimp only at hs
      rw [if_neg hne] at hs
      obtain rfl := Option.some.inj hs
      exact hi.allocated hpos hlt hfree
  | free address =>
    rw [Held.step] at hs
    obtain rfl := Option.some.inj hs
    rcases freeFrame_cases s.pmm address with ⟨hsame, hrejected⟩ | ⟨frame, rfl, hpos, hlt, hfreed⟩
    · -- a rejected address was never handed out
      have hnot : address ∉ s.outstanding := by
        intro hmem
        obtain ⟨frame, rfl, hpos, hlt, -⟩ := hi.held address hmem
        rw [Paging.pageSize, maxPhysicalMemory] at hrejected
        rw [frameCount] at hlt
        omega
      rw [hsame, erase_of_not_mem hnot]
      exact hi
    · have hmem : frame * Paging.pageSize ∈ s.outstanding := by
        refine hok.resolve_right fun h => ?_
        rw [Paging.pageSize, maxPhysicalMemory] at h
        rw [frameCount] at hlt
        omega
      rw [hfreed]
      exact hi.freed hlt hmem

theorem Held.Inv.run {calls : List FrameCall} (hr : RunWhere Held.step FrameCall.Allowed (.start p0) calls t) :
    t.Inv p0 := by
  refine hr.invariant (.start p0) fun s call u hi hok hs => ?_
  exact hi.step call hok hs

/-! ## After the initialisation -/

variable {mem : Mem} {info kernelStart kernelEnd fuel : Nat}

/-- Frame 0 stays in use, so the allocator's return value 0 means that no frame is free. -/
theorem Held.Inv.allocate_zero_iff (hi : s.Inv p0) (hzero : p0.isUsed 0 = true) :
    s.pmm.allocateFrame.1 = 0 ↔ ∀ frame < frameCount, s.pmm.isUsed frame = true := by
  rcases allocateFrame_cases s.pmm with ⟨hnone, hall⟩ | ⟨frame, hsome, hpos, hlt, hfree⟩
  · rw [hnone]
    refine iff_of_true rfl fun frame hlt => ?_
    rcases Nat.eq_zero_or_pos frame with rfl | hpos
    · exact (hi.used 0).mpr (.inl hzero)
    · exact hall frame hpos hlt
  · rw [hsome]
    have hne : frame * Paging.pageSize ≠ 0 := Nat.mul_ne_zero (Nat.ne_of_gt hpos) (by decide)
    refine iff_of_false hne fun hall => ?_
    rw [hall frame hlt] at hfree
    cases hfree

/-- Every list of calls after `pmm_initialize` that frees nothing but outstanding frames. -/
theorem outstanding_frames
    (hinit : pmmInitialize mem info kernelStart kernelEnd fuel = some p)
    (hkernel : kernelStart ≤ kernelEnd) (hend : kernelEnd < 2 ^ 32) {calls : List FrameCall}
    (hr : RunWhere Held.step FrameCall.Allowed (.start p) calls t) :
    t.outstanding.Nodup ∧
    (∀ address ∈ t.outstanding, address ≠ 0 ∧ address % Paging.pageSize = 0 ∧
      address < maxPhysicalMemory ∧ p.isUsed (address / Paging.pageSize) = false ∧
      ¬TouchesReserved mem info kernelStart kernelEnd (address / Paging.pageSize)) ∧
    (t.pmm.allocateFrame.1 = 0 ↔ ∀ frame < frameCount, t.pmm.isUsed frame = true) ∧
    t.pmm.getFreeFrameCount + t.outstanding.length = p.getFreeFrameCount := by
  have hi := Held.Inv.run hr
  obtain ⟨hzero, hreserved⟩ := initialize_reserved hinit hkernel hend
  refine ⟨hi.nodup, fun address hmem => ?_, hi.allocate_zero_iff hzero, hi.count⟩
  obtain ⟨frame, rfl, hpos, hlt, hfree⟩ := hi.held address hmem
  have hne : frame * Paging.pageSize ≠ 0 := Nat.mul_ne_zero (Nat.ne_of_gt hpos) (by decide)
  have hbelow : frame * Paging.pageSize < frameCount * Paging.pageSize := Nat.mul_lt_mul_of_pos_right hlt (by decide)
  rw [Nat.mul_div_cancel frame (by decide)]
  refine ⟨hne, Nat.mul_mod_left .., hbelow, hfree, fun htouches => ?_⟩
  rw [hreserved frame hlt htouches] at hfree
  cases hfree

theorem outstanding_frames_overlapping : ∃ p t address,
    pmmInitialize overlappingMap 0x9000 0x100000 0x180000 4 = some p ∧
    RunWhere Held.step FrameCall.Allowed (.start p) [.allocate, .free 3, .free address, .allocate] t ∧
    t.outstanding.Nodup ∧
    (∀ address ∈ t.outstanding, address ≠ 0 ∧ address % Paging.pageSize = 0 ∧
      address < maxPhysicalMemory ∧ p.isUsed (address / Paging.pageSize) = false ∧
      ¬TouchesReserved overlappingMap 0x9000 0x100000 0x180000 (address / Paging.pageSize)) ∧
    (t.pmm.allocateFrame.1 = 0 ↔ ∀ frame < frameCount, t.pmm.isUsed frame = true) ∧
    t.pmm.getFreeFrameCount + t.outstanding.length = p.getFreeFrameCount := by
  have hkernel : 0x100000 ≤ 0x180000 := by decide
  obtain ⟨p, hp, hused⟩ := initialize_isUsed overlapping_map hkernel (by decide)
  have hinit := hp 4 (by decide)
  rcases allocateFrame_cases p with ⟨-, hall⟩ | ⟨frame, hsome, hpos, -⟩
  · -- frame 0x200 is free
    have haddr : mmapAddr overlappingMap 0x9000 = 0x9100 := by decide
    have hlengh : mmapLengh overlappingMap 0x9000 = 72 := by decide
    simp only [TouchesReserved, overlaps_iff, MmapEntry.Usable, MmapEntry.Holds,
      MmapEntry.Available, Inside, haddr, hlengh, overlappingEntries] at hused
    have hfree : p.isUsed 0x200 = false := (hused 0x200).mpr (by decide)
    rw [hall 0x200 (by decide) (by decide)] at hfree
    cases hfree
  · have hne : frame * Paging.pageSize ≠ 0 := Nat.mul_ne_zero (Nat.ne_of_gt hpos) (by decide)
    have hthree : frame * Paging.pageSize ≠ 3 := by
      rw [Paging.pageSize]
      omega
    have hfirst : (Held.start p).step .allocate =
        some { pmm := p.markUsed frame, outstanding := [frame * Paging.pageSize] } := by
      rw [Held.step, Held.start, hsome]
      dsimp only
      rw [if_neg hne]
    have hmem : frame * Paging.pageSize ∈ [frame * Paging.pageSize].erase 3 :=
      (List.mem_erase_of_ne hthree).mpr List.mem_cons_self
    have hunaligned : FrameCall.Allowed { pmm := p.markUsed frame, outstanding := [frame * Paging.pageSize] }
      (.free 3) := .inr (.inl (by decide))
    have hr : ∃ t, RunWhere Held.step FrameCall.Allowed (.start p)
        [.allocate, .free 3, .free (frame * Paging.pageSize), .allocate] t :=
      ⟨_, .cons trivial hfirst (.cons hunaligned rfl
        (.cons (Or.inl hmem) rfl (.cons trivial rfl .nil)))⟩
    obtain ⟨t, hr⟩ := hr
    exact ⟨p, t, _, hinit, hr, outstanding_frames hinit (by decide) (by decide) hr⟩

/-! ## The bitmap of the paging code -/

/-- The machine's flags are the packed bitmap read bit by bit. -/
def Packs (p : Pmm) (m : Machine) : Prop := m.used = p.isUsed

theorem Packs.allocate {m : Machine} (h : Packs p m) :
    (pmmAllocateFrame m = none ∧ p.allocateFrame = (0, p)) ∨
      ∃ address m' p', pmmAllocateFrame m = some (address, m') ∧
        p.allocateFrame = (address, p') ∧ Packs p' m' := by
  unfold pmmAllocateFrame Pmm.allocateFrame
  rw [h]
  cases findFree p.isUsed 1 (frameCount - 1) with
  | none => exact .inl ⟨rfl, rfl⟩
  | some frame =>
    refine .inr ⟨_, _, _, rfl, rfl, ?_⟩
    rw [Packs, Machine.markUsed, markUsed_flags, h]

theorem Packs.free {m : Machine} (h : Packs p m) (address : Nat) :
    Packs (p.freeFrame address) (pmmFreeFrame m address) := by
  have hlimit : frameCount * Paging.pageSize = maxPhysicalMemory := rfl
  unfold pmmFreeFrame Pmm.freeFrame
  rw [hlimit]
  split
  · exact h
  split
  · exact h
  · rw [Packs, Machine.markFree, markFree_flags, h]

end MeatySkeleton.Memory
