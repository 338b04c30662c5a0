import MeatySkeleton.Lib.PackedBits
import MeatySkeleton.Lib.Bytes
import MeatySkeleton.Paging.Machine
import Mathlib.Data.List.Basic

/-!
# The frame bitmap of `pmm.c`

`pmm_initialize` marks every frame used, releases the available regions of the
Multiboot memory map in their order, and then reserves the first MiB, the kernel
image and the Multiboot structures. Released regions are rounded inward to whole
frames and reserved ones outward, so what is left free can be read off the map
(`initialize_isUsed`). Entries of other types than available are passed over, and
so is an entry whose 64-bit end wraps around.

Addresses and lengths are numbers; the places where the code computes in 32 or 64
bits have their `%`. The boot-time bitmap is the one the allocator then works on.
-/

namespace MeatySkeleton.Memory

open Lib Paging

/-! ## Ranges of frames -/

/-- `MAX_PHYSICAL_MEMORY`. -/
def maxPhysicalMemory : Nat := 0x40000000

def alignDown (value : Nat) : Nat := value / Paging.pageSize * Paging.pageSize

def alignUp (value : Nat) : Nat :=
  (value + (Paging.pageSize - 1)) % 2 ^ 32 / Paging.pageSize * Paging.pageSize

structure Pmm where
  frameBitmap : PackedBits
  totalUsableMemory : Nat

def Pmm.isUsed (p : Pmm) (frame : Nat) : Bool := bitAt p.frameBitmap frame

def Pmm.markUsed (p : Pmm) (frame : Nat) : Pmm := { p with frameBitmap := setBit p.frameBitmap frame }

def Pmm.markFree (p : Pmm) (frame : Nat) : Pmm :=
  { p with frameBitmap := clearBit p.frameBitmap frame }

/-- The loop `for (address = start; address < end; address += PAGE_SIZE)`. -/
def forPages (mark : Pmm → Nat → Pmm) (start limit : Nat) (p : Pmm) : Pmm :=
  (List.range ((limit - start + (Paging.pageSize - 1)) / Paging.pageSize)).foldl
    (fun p i => mark p ((start + i * Paging.pageSize) / Paging.pageSize)) p

/-- `pmm_reserve_range_unlocked`. -/
def Pmm.reserveRange (p : Pmm) (base length : Nat) : Pmm :=
  if length = 0 then p
  else if maxPhysicalMemory ≤ base then p
  else
    let limit :=
      if maxPhysicalMemory < length ∨ maxPhysicalMemory - length < base then maxPhysicalMemory
      else min (alignUp (base + length)) maxPhysicalMemory
    forPages Pmm.markUsed (alignDown base) limit p

/-- `pmm_release_range_unlocked`. -/
def Pmm.releaseRange (p : Pmm) (base length : Nat) : Pmm :=
  if length = 0 then p
  else if maxPhysicalMemory ≤ base then p
  else
    let limit :=
      if maxPhysicalMemory < length ∨ maxPhysicalMemory - length < base then maxPhysicalMemory
      else min (alignDown (base + length)) maxPhysicalMemory
    if limit ≤ alignUp base then p else forPages Pmm.markFree (alignUp base) limit p

/-- The frame lies in the range from `base` up to `limit`. -/
def Inside (frame base limit : Nat) : Prop :=
  base ≤ frame * Paging.pageSize ∧ (frame + 1) * Paging.pageSize ≤ limit

/-- The frame and the range from `base` up to `limit` have an address in common. -/
def Overlaps (frame base limit : Nat) : Prop :=
  ∃ a, frame * Paging.pageSize ≤ a ∧ a < (frame + 1) * Paging.pageSize ∧ base ≤ a ∧ a < limit

theorem overlaps_iff {frame base limit : Nat} : Overlaps frame base limit ↔
    base < limit ∧ base < (frame + 1) * Paging.pageSize ∧ frame * Paging.pageSize < limit := by
  constructor
  · rintro ⟨a, h1, h2, h3, h4⟩
    omega
  · rintro ⟨h1, h2, h3⟩
    rw [Nat.add_mul, Nat.one_mul] at h2
    have hpos : 0 < Paging.pageSize := by decide
    refine ⟨max base (frame * Paging.pageSize), Nat.le_max_right .., ?_, Nat.le_max_left .., ?_⟩
    · rw [Nat.add_mul, Nat.one_mul]
      omega
    · omega

variable {p : Pmm} {frame base length start limit : Nat}

@[simp] theorem markUsed_isUsed (p : Pmm) (frame x : Nat) :
    (p.markUsed frame).isUsed x = (p.isUsed x || decide (x = frame)) := bitAt_setBit ..

@[simp] theorem markFree_isUsed (p : Pmm) (frame x : Nat) :
    (p.markFree frame).isUsed x = (p.isUsed x && !decide (x = frame)) := bitAt_clearBit ..

/-- Marking a list of frames used, one after the other. -/
theorem foldl_markUsed (frameOf : Nat → Nat) (x : Nat) : ∀ (is : List Nat) (p : Pmm),
    (is.foldl (fun p i => p.markUsed (frameOf i)) p).isUsed x = true ↔
      p.isUsed x = true ∨ ∃ i ∈ is, x = frameOf i
  | [], p => by simp
  | i :: is, p => by
    rw [List.foldl_cons, foldl_markUsed frameOf x is, markUsed_isUsed, Bool.or_eq_true,
      decide_eq_true_eq, List.exists_mem_cons_iff, or_assoc]

theorem foldl_markFree (frameOf : Nat → Nat) (x : Nat) : ∀ (is : List Nat) (p : Pmm),
    (is.foldl (fun p i => p.markFree (frameOf i)) p).isUsed x = false ↔
      p.isUsed x = false ∨ ∃ i ∈ is, x = frameOf i
  | [], p => by simp
  | i :: is, p => by
    rw [List.foldl_cons, foldl_markFree frameOf x is, markFree_isUsed, Bool.and_eq_false_iff,
      Bool.not_eq_false', decide_eq_true_eq, List.exists_mem_cons_iff, or_assoc]

/-- The frames the loop over an aligned range visits. -/
theorem mem_pages (hstart : start % Paging.pageSize = 0) (x : Nat) :
    (∃ i ∈ List.range ((limit - start + (Paging.pageSize - 1)) / Paging.pageSize),
      x = (start + i * Paging.pageSize) / Paging.pageSize) ↔
      start ≤ x * Paging.pageSize ∧ x * Paging.pageSize < limit := by
  have hdiv : ∀ i, (start + i * Paging.pageSize) / Paging.pageSize =
      start / Paging.pageSize + i := fun i =>
    Nat.add_mul_div_right _ _ (by decide)
  simp only [hdiv, List.mem_range]
  rw [Paging.pageSize] at *
  constructor
  · rintro ⟨i, hi, rfl⟩
    omega
  · rintro ⟨h1, h2⟩
    exact ⟨x - start / 4096, by omega, by omega⟩

theorem alignDown_mod (value : Nat) : alignDown value % Paging.pageSize = 0 := Nat.mul_mod_left ..

theorem alignUp_mod (value : Nat) : alignUp value % Paging.pageSize = 0 := Nat.mul_mod_left ..

theorem forPages_markUsed (hstart : start % Paging.pageSize = 0) (p : Pmm) (x : Nat) :
    (forPages Pmm.markUsed start limit p).isUsed x = true ↔
      p.isUsed x = true ∨ start ≤ x * Paging.pageSize ∧ x * Paging.pageSize < limit := by
  rw [forPages, foldl_markUsed (fun i => (start + i * Paging.pageSize) / Paging.pageSize) x,
    mem_pages hstart]

theorem forPages_markFree (hstart : start % Paging.pageSize = 0) (p : Pmm) (x : Nat) :
    (forPages Pmm.markFree start limit p).isUsed x = false ↔
      p.isUsed x = false ∨ start ≤ x * Paging.pageSize ∧ x * Paging.pageSize < limit := by
  rw [forPages, foldl_markFree (fun i => (start + i * Paging.pageSize) / Paging.pageSize) x,
    mem_pages hstart]

theorem reserveRange_isUsed (p : Pmm) (base length x : Nat) :
    (p.reserveRange base length).isUsed x = true ↔
      p.isUsed x = true ∨ (x < frameCount ∧ Overlaps x base (base + length)) := by
  rw [overlaps_iff]
  unfold Pmm.reserveRange
  split
  next hlength => exact (or_iff_left fun h => by omega).symm
  split
  next hbase =>
    rw [maxPhysicalMemory] at hbase
    rw [frameCount, Paging.pageSize]
    exact (or_iff_left fun h => by omega).symm
  next hlength hbase =>
    rw [forPages_markUsed (alignDown_mod base)]
    refine or_congr_right ?_
    rw [alignDown, frameCount]
    rw [maxPhysicalMemory] at hbase ⊢
    split
    next hend =>
      rw [Paging.pageSize]
      omega
    next hend =>
      rw [alignUp, Paging.pageSize]
      omega

theorem releaseRange_isUsed (p : Pmm) (base length x : Nat) :
    (p.releaseRange base length).isUsed x = false ↔
      p.isUsed x = false ∨ (x < frameCount ∧ Inside x base (base + length)) := by
  unfold Pmm.releaseRange Inside
  split
  next hlength =>
    rw [Paging.pageSize]
    exact (or_iff_left fun h => by omega).symm
  split
  next hbase =>
    rw [maxPhysicalMemory] at hbase
    rw [frameCount, Paging.pageSize]
    exact (or_iff_left fun h => by omega).symm
  next hlength hbase =>
    -- the range from the first whole frame to the last
    have hrange : ∀ limit, alignUp base ≤ x * Paging.pageSize ∧ x * Paging.pageSize < limit →
        ¬limit ≤ alignUp base := fun limit h => by omega
    have hfold : ∀ limit, (if limit ≤ alignUp base then p
        else forPages Pmm.markFree (alignUp base) limit p).isUsed x = false ↔
          p.isUsed x = false ∨ (alignUp base ≤ x * Paging.pageSize ∧ x * Paging.pageSize < limit) := by
      intro limit
      split
      next hempty => exact (or_iff_left fun h => hrange limit h hempty).symm
      next => exact forPages_markFree (alignUp_mod base) p x
    refine (hfold _).trans (or_congr_right ?_)
    rw [alignUp, frameCount]
    rw [maxPhysicalMemory] at hbase ⊢
    split
    next hend =>
      rw [Paging.pageSize]
      omega
    next hend =>
      rw [alignDown, Paging.pageSize]
      omega

/-! ## Reading the memory map -/

/-- `struct multiboot_mmap_entry`. -/
structure MmapEntry where
  size : Nat
  address : Nat
  length : Nat
  type : Nat
deriving DecidableEq

def readEntry (mem : Mem) (current : Nat) : MmapEntry where
  size := get32 mem current
  address := get64 mem (current + 4)
  length := get64 mem (current + 12)
  type := get32 mem (current + 20)

/-- `MULTIBOOT_MEMORY_AVAILABLE`. -/
def multibootMemoryAvailable : Nat := 1

/-- The body of the loop over the map. -/
def Pmm.addEntry (p : Pmm) (entry : MmapEntry) : Pmm :=
  if entry.type = multibootMemoryAvailable then
    let regionBase := entry.address
    let regionEnd := (entry.address + entry.length) % 2 ^ 64
    if regionBase < maxPhysicalMemory then
      let regionEnd := if maxPhysicalMemory < regionEnd then maxPhysicalMemory else regionEnd
      if regionBase < regionEnd then
        let p := { p with
          totalUsableMemory := (p.totalUsableMemory + (regionEnd - regionBase)) % 2 ^ 64 }
        p.releaseRange regionBase (regionEnd - regionBase)
      else p
    else p
  else p

/-- `while (current < end)`. -/
def readMap (mem : Mem) (limit : Nat) : Nat → Nat → Pmm → Option Pmm
  | 0, _, _ => none
  | fuel + 1, current, p =>
    if current < limit then
      let entry := readEntry mem current
      readMap mem limit fuel ((current + (entry.size + 4)) % 2 ^ 32) (p.addEntry entry)
    else some p

/-- `MULTIBOOT_INFO_MEMORY_MAP`, bit 6 of `mbi->flags`. -/
def hasMemoryMap (mem : Mem) (info : Nat) : Bool := (get32 mem info).testBit 6

def mmapLengh (mem : Mem) (info : Nat) : Nat := get32 mem (info + 44)

def mmapAddr (mem : Mem) (info : Nat) : Nat := get32 mem (info + 48)

/-- `sizeof(struct multiboot_info)`. -/
def multibootInfoSize : Nat := 118

/-- The reservations at the end of `pmm_initialize`. -/
def Pmm.reserveBoot (mem : Mem) (info kernelStart kernelEnd : Nat) (p : Pmm) : Pmm :=
  let p := p.reserveRange 0 0x100000
  let p := p.reserveRange kernelStart ((kernelEnd + 2 ^ 32 - kernelStart) % 2 ^ 32)
  let p := p.reserveRange info multibootInfoSize
  p.reserveRange (mmapAddr mem info) (mmapLengh mem info)

/-- Every frame reserved. -/
def Pmm.full : Pmm := { frameBitmap := fun _ => 0xFF#8, totalUsableMemory := 0 }

/-- `pmm_initialize`, with `fuel` for the loop over the map. -/
def pmmInitialize (mem : Mem) (info kernelStart kernelEnd fuel : Nat) : Option Pmm :=
  if hasMemoryMap mem info then
    let current := mmapAddr mem info
    let limit := (mmapAddr mem info + mmapLengh mem info) % 2 ^ 32
    (readMap mem limit fuel current Pmm.full).map (Pmm.reserveBoot mem info kernelStart kernelEnd)
  else some Pmm.full

/-! ## What is free afterwards -/

/-- The entries stored one after the other from `a` up to `limit`. -/
inductive MapAt (mem : Mem) (limit : Nat) : Nat → List MmapEntry → Prop
  | done : MapAt mem limit limit []
  | entry {a : Nat} {entries : List MmapEntry} :
      a + ((readEntry mem a).size + 4) ≤ limit →
      MapAt mem limit (a + ((readEntry mem a).size + 4)) entries →
      MapAt mem limit a (readEntry mem a :: entries)

/-- The map the boot loader handed over: no entry if it handed over none. -/
def MemoryMap (mem : Mem) (info : Nat) (entries : List MmapEntry) : Prop :=
  if hasMemoryMap mem info then
    mmapAddr mem info + mmapLengh mem info < 2 ^ 32 ∧
      MapAt mem (mmapAddr mem info + mmapLengh mem info) (mmapAddr mem info) entries
  else entries = []

/-- The frame has an address in common with what the kernel itself needs. -/
def TouchesReserved (mem : Mem) (info kernelStart kernelEnd frame : Nat) : Prop :=
  Overlaps frame 0 0x100000 ∨ Overlaps frame kernelStart kernelEnd ∨
    Overlaps frame info (info + multibootInfoSize) ∨
    Overlaps frame (mmapAddr mem info) (mmapAddr mem info + mmapLengh mem info)

def MmapEntry.Available (entry : MmapEntry) : Prop := entry.type = multibootMemoryAvailable

/-- The frame lies wholly inside the region the entry describes. -/
def MmapEntry.Holds (entry : MmapEntry) (frame : Nat) : Prop :=
  Inside frame entry.address (entry.address + entry.length)

/-- An available region whose end fits into 64 bits: the map loop passes over the others. -/
def MmapEntry.Usable (entry : MmapEntry) : Prop :=
  entry.Available ∧ entry.address + entry.length < 2 ^ 64

variable {mem : Mem} {info kernelStart kernelEnd a : Nat} {entries : List MmapEntry}

theorem MapAt.step {limit : Nat} {entry : MmapEntry} (hread : readEntry mem a = entry)
    (hfits : a + (entry.size + 4) ≤ limit) (hmap : MapAt mem limit (a + (entry.size + 4)) entries) :
    MapAt mem limit a (entry :: entries) := by
  subst hread
  exact .entry hfits hmap

/-- What one entry frees: the frames inside its region, unless its end wraps around. -/
theorem addEntry_isUsed (p : Pmm) {entry : MmapEntry} (haddress : entry.address < 2 ^ 64)
    (hlength : entry.length < 2 ^ 64) (x : Nat) :
    (p.addEntry entry).isUsed x = false ↔
      p.isUsed x = false ∨ (x < frameCount ∧ entry.Usable ∧ entry.Holds x) := by
  unfold Pmm.addEntry MmapEntry.Usable MmapEntry.Available MmapEntry.Holds Inside
  rw [frameCount, Paging.pageSize, maxPhysicalMemory]
  split
  next htype =>
    dsimp only
    split
    next hbase =>
      -- the end after clipping
      generalize hclip : (if 1073741824 < (entry.address + entry.length) % 2 ^ 64 then 1073741824
        else (entry.address + entry.length) % 2 ^ 64) = regionEnd
      have hregionEnd : regionEnd = min 1073741824 ((entry.address + entry.length) % 2 ^ 64) := by
        rw [← hclip]
        split <;> omega
      split
      next hbounds =>
        refine (releaseRange_isUsed _ _ _ x).trans (or_congr_right ?_)
        rw [Inside, frameCount, Paging.pageSize]
        omega
      next hbounds => exact (or_iff_left fun h => by omega).symm
    next hbase => exact (or_iff_left fun h => by omega).symm
  next htype => exact (or_iff_left fun h => htype h.2.1.1).symm

theorem readEntry_lt (mem : Mem) (a : Nat) :
    (readEntry mem a).address < 2 ^ 64 ∧ (readEntry mem a).length < 2 ^ 64 :=
  ⟨get64_lt .., get64_lt ..⟩

/-- The loop over the map: it ends, and has released every usable region. -/
theorem readMap_isUsed {limit : Nat} (hmap : MapAt mem limit a entries) (hlimit : limit < 2 ^ 32) :
    ∀ p : Pmm, ∃ q, (∀ fuel, entries.length < fuel → readMap mem limit fuel a p = some q) ∧
      ∀ x, q.isUsed x = false ↔
        p.isUsed x = false ∨ (x < frameCount ∧ ∃ entry ∈ entries, entry.Usable ∧ entry.Holds x) := by
  induction hmap with
  | done =>
    intro p
    refine ⟨p, fun fuel hfuel => ?_, fun x => by simp⟩
    obtain ⟨n, rfl⟩ : ∃ n, fuel = n + 1 := ⟨fuel - 1, by omega⟩
    rw [readMap, if_neg (Nat.lt_irrefl _)]
  | @entry a entries hfits _ ih =>
    intro p
    obtain ⟨q, hq, hused⟩ := ih (p.addEntry (readEntry mem a))
    refine ⟨q, fun fuel hfuel => ?_, fun x => ?_⟩
    · obtain ⟨n, rfl⟩ : ∃ n, fuel = n + 1 := ⟨fuel - 1, by omega⟩
      rw [List.length_cons] at hfuel
      have hnext : (a + ((readEntry mem a).size + 4)) % 2 ^ 32 = a + ((readEntry mem a).size + 4) :=
        Nat.mod_eq_of_lt (by omega)
      rw [readMap, if_pos (by omega)]
      dsimp only
      rw [hnext, hq n (by omega)]
    · obtain ⟨haddress, hlength⟩ := readEntry_lt mem a
      rw [hused, addEntry_isUsed p haddress hlength, List.exists_mem_cons_iff, or_assoc,
        and_or_left]

/-- Reserving a range of the address space that does not wrap around. -/
theorem reserveRange_free (p : Pmm) (base length x : Nat) :
    (p.reserveRange base length).isUsed x = false ↔
      p.isUsed x = false ∧ ¬(x < frameCount ∧ Overlaps x base (base + length)) := by
  rw [← Bool.not_eq_true, reserveRange_isUsed, not_or, Bool.not_eq_true]

theorem full_isUsed (x : Nat) : Pmm.full.isUsed x = true := by
  have hones : (0xFF#8 : BitVec 8) = BitVec.allOnes 8 := rfl
  rw [Pmm.isUsed, Pmm.full, bitAt_eq, hones, BitVec.getLsbD_allOnes]
  exact decide_eq_true (Nat.mod_lt _ (by decide))

theorem reserveBoot_free (p : Pmm) (hkernel : kernelStart ≤ kernelEnd) (hend : kernelEnd < 2 ^ 32)
    (x : Nat) : (p.reserveBoot mem info kernelStart kernelEnd).isUsed x = false ↔
      p.isUsed x = false ∧ ¬(x < frameCount ∧ TouchesReserved mem info kernelStart kernelEnd x) := by
  have hlength : (kernelEnd + 2 ^ 32 - kernelStart) % 2 ^ 32 = kernelEnd - kernelStart := by omega
  have hkernelEnd : kernelStart + (kernelEnd - kernelStart) = kernelEnd := by omega
  rw [Pmm.reserveBoot, reserveRange_free, reserveRange_free, reserveRange_free, reserveRange_free,
    hlength, hkernelEnd, Nat.zero_add, TouchesReserved]
  tauto

/-- Frame 0 is in the first MiB, and later reservations keep it reserved. -/
theorem reserveBoot_frame_zero (p : Pmm) :
    (p.reserveBoot mem info kernelStart kernelEnd).isUsed 0 = true := by
  have hkeep : ∀ (p : Pmm) (base length : Nat), p.isUsed 0 = true →
      (p.reserveRange base length).isUsed 0 = true := fun p base length h =>
    (reserveRange_isUsed ..).mpr (.inl h)
  rw [Pmm.reserveBoot]
  refine hkeep _ _ _ (hkeep _ _ _ (hkeep _ _ _ ((reserveRange_isUsed ..).mpr (.inr ?_))))
  rw [overlaps_iff]
  decide

theorem initialize_cases {p : Pmm} {fuel : Nat}
    (h : pmmInitialize mem info kernelStart kernelEnd fuel = some p) :
    p = Pmm.full ∨ ∃ q : Pmm, p = q.reserveBoot mem info kernelStart kernelEnd := by
  unfold pmmInitialize at h
  split at h
  · obtain ⟨q, -, hq⟩ := Option.map_eq_some_iff.mp h
    exact .inr ⟨q, hq.symm⟩
  · exact .inl (Option.some.inj h).symm

/-- Whatever the map says, frame 0 and what the kernel needs are in use afterwards. -/
theorem initialize_reserved {p : Pmm} {fuel : Nat}
    (h : pmmInitialize mem info kernelStart kernelEnd fuel = some p)
    (hkernel : kernelStart ≤ kernelEnd) (hend : kernelEnd < 2 ^ 32) :
    p.isUsed 0 = true ∧ ∀ x < frameCount, TouchesReserved mem info kernelStart kernelEnd x →
      p.isUsed x = true := by
  rcases initialize_cases h with rfl | ⟨q, rfl⟩
  · exact ⟨full_isUsed 0, fun x _ _ => full_isUsed x⟩
  · refine ⟨reserveBoot_frame_zero q, fun x hlt htouches => ?_⟩
    rw [← Bool.not_eq_false, reserveBoot_free q hkernel hend]
    exact fun hfree => hfree.2 ⟨hlt, htouches⟩

/-- What is free after `pmm_initialize`. -/
theorem initialize_isUsed (hmap : MemoryMap mem info entries) (hkernel : kernelStart ≤ kernelEnd)
    (hend : kernelEnd < 2 ^ 32) :
    ∃ p, (∀ fuel, entries.length < fuel →
        pmmInitialize mem info kernelStart kernelEnd fuel = some p) ∧
      ∀ x, p.isUsed x = false ↔
        x < frameCount ∧ (∃ entry ∈ entries, entry.Usable ∧ entry.Holds x) ∧
          ¬TouchesReserved mem info kernelStart kernelEnd x := by
  unfold MemoryMap at hmap
  unfold pmmInitialize
  cases hflag : hasMemoryMap mem info with
  | false =>
    rw [hflag, if_neg Bool.false_ne_true] at hmap
    rw [hmap]
    refine ⟨Pmm.full, fun fuel _ => rfl, fun x => ?_⟩
    rw [full_isUsed]
    simp
  | true =>
    rw [hflag, if_pos rfl] at hmap
    obtain ⟨hlimit, hmap⟩ := hmap
    obtain ⟨q, hq, hused⟩ := readMap_isUsed hmap hlimit Pmm.full
    refine ⟨q.reserveBoot mem info kernelStart kernelEnd, fun fuel hfuel => ?_, fun x => ?_⟩
    · dsimp only
      rw [if_pos rfl, Nat.mod_eq_of_lt hlimit, hq fuel hfuel, Option.map_some]
    · rw [reserveBoot_free q hkernel hend, hused, full_isUsed]
      simp only [reduceCtorEq, false_or]
      tauto

/-- `pmm_initialize` ends on every memory map, and afterwards exactly those frames below
the limit are free that lie wholly inside a usable region and touch nothing reserved. -/
theorem pmmInitialize_free_iff (hmap : MemoryMap mem info entries)
    (hkernel : kernelStart ≤ kernelEnd) (hend : kernelEnd < 2 ^ 32) :
    ∃ p, (∀ fuel, entries.length < fuel →
        pmmInitialize mem info kernelStart kernelEnd fuel = some p) ∧
      ∀ frame, p.isUsed frame = false ↔
        frame < frameCount ∧ (∃ entry ∈ entries, entry.Usable ∧ entry.Holds frame) ∧
          ¬TouchesReserved mem info kernelStart kernelEnd frame :=
  initialize_isUsed hmap hkernel hend

/-! ## A map with overlapping entries -/

def wordsAt (a : Nat) (words : List Nat) : List (Nat × Nat) :=
  words.zipIdx.map fun w => (a + 4 * w.2, w.1)

def storeWords (words : List (Nat × Nat)) : Mem := words.foldr (fun w m => put32 m w.1 w.2) fun _ => 0

/-- The information structure at `0x9000`, and a map of three entries at `0x9100`. -/
def overlappingMap : Mem := storeWords <|
  [(0x9000, 64), (0x902C, 72), (0x9030, 0x9100)] ++
  wordsAt 0x9100 [20, 0x100000, 0, 0x1000000, 0, 1] ++
  wordsAt 0x9118 [20, 0x200000, 0, 0x1000, 0, 2] ++
  wordsAt 0x9130 [20, 0x4000000, 0, 0xFC000000, 0xFFFFFFFF, 1]

/-- 16 MiB of memory, a reserved page within, and a region that ends at `2 ^ 64`. -/
def overlappingEntries : List MmapEntry :=
  [⟨20, 0x100000, 0x1000000, 1⟩, ⟨20, 0x200000, 0x1000, 2⟩, ⟨20, 0x4000000, 2 ^ 64 - 0x4000000, 1⟩]

theorem overlapping_map : MemoryMap overlappingMap 0x9000 overlappingEntries := by
  have hflag : hasMemoryMap overlappingMap 0x9000 = true := by decide
  have haddr : mmapAddr overlappingMap 0x9000 = 0x9100 := by decide
  have hlengh : mmapLengh overlappingMap 0x9000 = 72 := by decide
  have h1 : readEntry overlappingMap 0x9100 = ⟨20, 0x100000, 0x1000000, 1⟩ := by decide
  have h2 : readEntry overlappingMap 0x9118 = ⟨20, 0x200000, 0x1000, 2⟩ := by decide
  have h3 : readEntry overlappingMap 0x9130 = ⟨20, 0x4000000, 2 ^ 64 - 0x4000000, 1⟩ := by decide
  rw [MemoryMap, hflag, if_pos rfl, haddr, hlengh]
  exact ⟨by decide, .step h1 (by decide) (.step h2 (by decide) (.step h3 (by decide) .done))⟩

theorem pmmInitialize_free_iff_overlapping :
    (MemoryMap overlappingMap 0x9000 overlappingEntries ∧ 0x100000 ≤ 0x180000 ∧
      0x180000 < 2 ^ 32) ∧
    ∃ p, (∀ fuel, overlappingEntries.length < fuel →
        pmmInitialize overlappingMap 0x9000 0x100000 0x180000 fuel = some p) ∧
      ∀ frame, p.isUsed frame = false ↔
        frame < frameCount ∧ (∃ entry ∈ overlappingEntries, entry.Usable ∧ entry.Holds frame) ∧
          ¬TouchesReserved overlappingMap 0x9000 0x100000 0x180000 frame :=
  ⟨⟨overlapping_map, by decide, by decide⟩,
    pmmInitialize_free_iff overlapping_map (by decide) (by decide)⟩

/-- The reserved page stays free, and the region that ends at `2 ^ 64` stays in use. -/
theorem pmmInitialize_passes_over_entries :
    MemoryMap overlappingMap 0x9000 overlappingEntries ∧
    ∃ p, pmmInitialize overlappingMap 0x9000 0x100000 0x180000 4 = some p ∧
      (p.isUsed 0x200 = false ∧ ∃ entry ∈ overlappingEntries, ¬entry.Available ∧
        Overlaps 0x200 entry.address (entry.address + entry.length)) ∧
      (p.isUsed 0x4000 = true ∧ 0x4000 < frameCount ∧
        (∃ entry ∈ overlappingEntries, entry.Available ∧ entry.Holds 0x4000) ∧
        (∀ entry ∈ overlappingEntries, ¬entry.Available →
          ¬Overlaps 0x4000 entry.address (entry.address + entry.length)) ∧
        ¬TouchesReserved overlappingMap 0x9000 0x100000 0x180000 0x4000) := by
  have haddr : mmapAddr overlappingMap 0x9000 = 0x9100 := by decide
  have hlengh : mmapLengh overlappingMap 0x9000 = 72 := by decide
  have hkernel : 0x100000 ≤ 0x180000 := by decide
  obtain ⟨p, hp, hfree⟩ := initialize_isUsed overlapping_map hkernel (by decide)
  simp only [TouchesReserved, overlaps_iff, MmapEntry.Usable, MmapEntry.Holds,
    MmapEntry.Available, Inside, haddr, hlengh, overlappingEntries] at hfree ⊢
  refine ⟨overlapping_map, p, hp 4 (by decide), ⟨(hfree _).mpr (by decide), by decide⟩, ?_,
    by decide, by decide, by decide, by decide⟩
  rw [← Bool.not_eq_false, hfree]
  decide

end MeatySkeleton.Memory
