import MeatySkeleton.Lib.Tally
import Mathlib.Data.List.Range

/-!
# Physical memory, frames and address translation

The machine below `paging.c`: physical memory frame by frame in 32-bit words,
the frame bitmap of `pmm.c`, CR3, and the two-level translation of an i386
without PAE. Code reaches page tables only through virtual addresses, as in the
source, so an access is a translation through the current directory that fails
(a page fault) when an entry on the way is not present.

Addresses are numbers below `2 ^ 32`, frames are numbered by their address
divided by the page size, page-table entries are 32-bit words.
Accessed and dirty bits, which the processor sets by itself, and the TLB, which
the code flushes after each change, are left out; so are the locks and the
saved `EFLAGS`: the loads of `Elf` interleave whole accesses of this machine.
-/

namespace MeatySkeleton.Paging

open Function Lib

abbrev Word := BitVec 32

def pageSize : Nat := 4096

/-- `FRAME_COUNT`: the bitmap covers the first GiB. -/
def frameCount : Nat := 262144

/-! ## Page-table entries -/

def pagePresent : Word := 0x001#32
def pageWritable : Word := 0x002#32
def pageUser : Word := 0x004#32
def pageFrame : Word := 0xFFFFF000#32

/-- `PAGE_MAP_FLAGS`: writable, user, write-through, cache-disable and global. -/
def pageMapFlags : Word := 0x11E#32

/-- A flag test as the code writes it: `(entry & flag) != 0`. -/
def Word.has (entry flag : Word) : Bool := entry &&& flag != 0#32

/-- The frame an entry points to. -/
def frameOf (entry : Word) : Nat := (entry &&& pageFrame).toNat / pageSize

/-- An entry for a physical address. -/
def entryFor (physicalAddress : Nat) (flags : Word) : Word :=
  (BitVec.ofNat 32 physicalAddress &&& pageFrame) ||| flags

theorem Word.has_or (a b flag : Word) : Word.has (a ||| b) flag = (a.has flag || b.has flag) := by
  have hsplit : (a ||| b) &&& flag = (a &&& flag) ||| (b &&& flag) := BitVec.and_or_distrib_right
  unfold Word.has
  rw [hsplit, Bool.eq_iff_iff]
  simp only [bne_iff_ne, ne_eq, Bool.or_eq_true, BitVec.or_eq_zero_iff, not_and_or]

theorem frameOf_or (a b : Word) (hb : b &&& pageFrame = 0#32) : frameOf (a ||| b) = frameOf a := by
  have hsplit : (a ||| b) &&& pageFrame = (a &&& pageFrame) ||| (b &&& pageFrame) :=
    BitVec.and_or_distrib_right
  rw [frameOf, hsplit, hb, BitVec.or_zero, frameOf]

/-- The bits of a page-aligned number. -/
theorem aligned_and_mask (n : Nat) :
    BitVec.ofNat 32 (n * pageSize) &&& pageFrame = BitVec.ofNat 32 (n * pageSize) := by
  have hshift : BitVec.ofNat 32 (n * pageSize) = BitVec.ofNat 32 n <<< 12 := by
    apply BitVec.eq_of_toNat_eq
    rw [BitVec.toNat_shiftLeft, BitVec.toNat_ofNat, BitVec.toNat_ofNat, Nat.shiftLeft_eq, pageSize]
    omega
  have hmask : pageFrame = BitVec.allOnes 32 <<< 12 := by decide
  rw [hshift, hmask, ← BitVec.shiftLeft_and_distrib, BitVec.and_allOnes]

theorem frameOf_entryFor {n : Nat} (h : n < 2 ^ 20) {flags : Word}
    (hf : flags &&& pageFrame = 0#32) : frameOf (entryFor (n * pageSize) flags) = n := by
  have hlt : n * pageSize < 2 ^ 32 := by
    rw [pageSize]
    omega
  rw [entryFor, frameOf_or _ _ hf, aligned_and_mask, frameOf, aligned_and_mask,
    BitVec.toNat_ofNat, Nat.mod_eq_of_lt hlt, Nat.mul_div_cancel n (by decide)]

/-- The low bits of an entry are its flags. -/
theorem entryFor_has (a : Nat) (flags : Word) {flag : Word}
    (hf : pageFrame &&& flag = 0#32) : (entryFor a flags).has flag = flags.has flag := by
  have hnone : Word.has (BitVec.ofNat 32 a &&& pageFrame) flag = false := by
    rw [Word.has, BitVec.and_assoc, hf, BitVec.and_zero]
    rfl
  rw [entryFor, Word.has_or, hnone, Bool.false_or]

/-! ## The machine -/

structure Machine where
  mem : Nat → Nat → Word
  /-- `frame_bitmap`. -/
  used : Nat → Bool
  cr3 : Nat
  /-- `kernel_directory_physical`. -/
  kernelDirectory : Nat

/-- The frame CR3 points to. -/
def Machine.directory (m : Machine) : Nat := m.cr3 / pageSize

def pageDirectoryIndex (v : Nat) : Nat := v / 2 ^ 22 % 1024
def pageTableIndex (v : Nat) : Nat := v / 2 ^ 12 % 1024

/-- The frame and the word in it behind a virtual address, or a page fault. -/
def Machine.translate (m : Machine) (v : Nat) : Option (Nat × Nat) :=
  let pde := m.mem m.directory (pageDirectoryIndex v)
  let pte := m.mem (frameOf pde) (pageTableIndex v)
  if pde.has pagePresent && pte.has pagePresent then some (frameOf pte, v % pageSize / 4) else none

def Machine.load (m : Machine) (v : Nat) : Option Word := do
  let (frame, i) ← m.translate v
  return m.mem frame i

/-- Rewrite the contents of one frame. -/
def Machine.write (m : Machine) (frame : Nat) (page : Nat → Word) : Machine :=
  { m with mem := update m.mem frame page }

def Machine.store (m : Machine) (v : Nat) (w : Word) : Option Machine := do
  let (frame, i) ← m.translate v
  return m.write frame (update (m.mem frame) i w)

/-- Rewrite the page behind a virtual address, as `memset` and `memcpy` do. -/
def Machine.editPage (m : Machine) (v : Nat) (f : (Nat → Word) → Nat → Word) :
    Option Machine := do
  let (frame, _) ← m.translate v
  return m.write frame (f (m.mem frame))

def zeroPage (_ : Nat → Word) : Nat → Word := fun _ => 0#32

@[simp] theorem write_used (m : Machine) (frame : Nat) (page : Nat → Word) :
    (m.write frame page).used = m.used := rfl

@[simp] theorem write_directory (m : Machine) (frame : Nat) (page : Nat → Word) :
    (m.write frame page).directory = m.directory := rfl

@[simp] theorem write_self (m : Machine) (frame : Nat) (page : Nat → Word) :
    (m.write frame page).mem frame = page := update_self ..

theorem write_ne {m : Machine} {frame x : Nat} {page : Nat → Word} (h : x ≠ frame) :
    (m.write frame page).mem x = m.mem x := update_of_ne h ..

theorem write_same (m : Machine) (f : Nat) : m.write f (m.mem f) = m := by
  rw [Machine.write, update_eq_self]

/-! ## The frame allocator -/

/-- The first free frame from `frame` on, among `n` frames. -/
def findFree (used : Nat → Bool) (frame : Nat) : Nat → Option Nat
  | 0 => none
  | n + 1 => if used frame then findFree used (frame + 1) n else some frame

def Machine.markUsed (m : Machine) (frame : Nat) : Machine :=
  { m with used := update m.used frame true }

def Machine.markFree (m : Machine) (frame : Nat) : Machine :=
  { m with used := update m.used frame false }

variable {used : Nat → Bool}

theorem update_used_iff {frame x : Nat} :
    update used frame true x = true ↔ used x = true ∨ x = frame := by
  by_cases hx : x = frame
  · rw [hx, update_self]
    exact ⟨fun _ => .inr rfl, fun _ => rfl⟩
  · rw [update_of_ne hx]
    exact ⟨.inl, fun hor => hor.resolve_right hx⟩

/-- What is in use stays so when a frame is marked. -/
theorem Machine.markUsed_mono (m : Machine) (frame : Nat) {x : Nat} (hx : m.used x = true) :
    (m.markUsed frame).used x = true :=
  update_used_iff.mpr (.inl hx)

/-- `pmm_allocate_frame`; `none` is its return value 0. -/
def pmmAllocateFrame (m : Machine) : Option (Nat × Machine) :=
  match findFree m.used 1 (frameCount - 1) with
  | some frame => some (frame * pageSize, m.markUsed frame)
  | none => none

/-- `pmm_free_frame`. -/
def pmmFreeFrame (m : Machine) (address : Nat) : Machine :=
  if address % pageSize ≠ 0 then m
  else if address = 0 ∨ frameCount * pageSize ≤ address then m
  else m.markFree (address / pageSize)

/-- How many frames `pmm_allocate_frame` can still hand out. -/
def freeFrames (used : Nat → Bool) : Nat :=
  tally (fun frame => if used frame then 0 else 1) (List.range' 1 (frameCount - 1))

theorem findFree_spec {used : Nat → Bool} : ∀ {n frame : Nat},
    (findFree used frame n = none ∧ ∀ x, frame ≤ x → x < frame + n → used x = true) ∨
      ∃ x, findFree used frame n = some x ∧ frame ≤ x ∧ x < frame + n ∧ used x = false
  | 0, frame => .inl ⟨rfl, fun x h₁ h₂ => by omega⟩
  | n + 1, frame => by
    rw [findFree]
    cases hu : used frame with
    | false =>
      right
      exact ⟨frame, rfl, Nat.le_refl _, by omega, hu⟩
    | true =>
      rw [if_pos rfl]
      rcases @findFree_spec used n (frame + 1) with
        ⟨hnone, hall⟩ | ⟨x, hx, h₁, h₂, hfree⟩
      · left
        refine ⟨hnone, fun x h₁ h₂ => ?_⟩
        rcases Nat.eq_or_lt_of_le h₁ with rfl | hlt
        · exact hu
        · exact hall x hlt (by omega)
      · right
        exact ⟨x, hx, by omega, by omega, hfree⟩

theorem mem_frames {x : Nat} : x ∈ List.range' 1 (frameCount - 1) ↔ 0 < x ∧ x < frameCount := by
  rw [List.mem_range'_1, frameCount]
  omega

/-- Marking one free frame of a list leaves one free frame less. -/
theorem tally_free_update {frame : Nat} {l : List Nat} (hl : l.Nodup)
    (hmem : frame ∈ l) (hfree : used frame = false) :
    tally (fun x => if update used frame true x then 0 else 1) l + 1 =
      tally (fun x => if used x then 0 else 1) l := by
  have hupdate := tally_update (fun x => if used x then 0 else 1)
    (fun x => if update used frame true x then 0 else 1) hl hmem
    (fun x _ hx => by rw [update_of_ne hx])
  simp only [update_self, hfree, if_true, if_false, Bool.false_eq_true, Nat.add_zero] at hupdate
  exact hupdate

theorem freeFrames_update {frame : Nat} (h : 0 < frame ∧ frame < frameCount)
    (hfree : used frame = false) :
    freeFrames (update used frame true) + 1 = freeFrames used :=
  tally_free_update List.nodup_range' (mem_frames.mpr h) hfree

theorem freeFrames_pos {x : Nat} (hx : 0 < x ∧ x < frameCount)
    (hfree : used x = false) : 0 < freeFrames used := by
  rw [← freeFrames_update hx hfree]
  exact Nat.succ_pos _

/-- Allocation fails exactly when no frame is free, and takes a free one. -/
theorem pmmAllocateFrame_cases (m : Machine) :
    (pmmAllocateFrame m = none ∧ freeFrames m.used = 0) ∨
      ∃ frame, pmmAllocateFrame m = some (frame * pageSize, m.markUsed frame) ∧ 0 < frame ∧
        frame < frameCount ∧ m.used frame = false ∧
        freeFrames (m.markUsed frame).used + 1 = freeFrames m.used := by
  rw [pmmAllocateFrame]
  rcases @findFree_spec m.used (frameCount - 1) 1 with
    ⟨hnone, hall⟩ | ⟨frame, hsome, h1, h2, hfree⟩
  · left
    rw [hnone]
    refine ⟨rfl, tally_eq_zero.mpr fun x hx => ?_⟩
    obtain ⟨h1, h2⟩ := List.mem_range'_1.mp hx
    rw [hall x h1 h2, if_pos rfl]
  · right
    rw [hsome]
    have hlt : frame < frameCount := by
      rw [frameCount] at h2 ⊢
      omega
    refine ⟨frame, rfl, h1, hlt, hfree, ?_⟩
    exact freeFrames_update ⟨h1, hlt⟩ hfree

/-! ## Recursive mapping -/

def recursiveDirectoryIndex : Nat := 1023

/-- The address of entry `i` of `recursive_page_directory`. -/
def directoryEntry (i : Nat) : Nat := 0xFFFFF000 + 4 * i

/-- The address of entry `i` of `recursive_page_table(d)`. -/
def tableEntry (d i : Nat) : Nat := 0xFFC00000 + d * pageSize + 4 * i

/-- The last entry of the directory points back to it. -/
def Machine.Recursive (m : Machine) : Prop :=
  (m.mem m.directory recursiveDirectoryIndex).has pagePresent = true ∧
    frameOf (m.mem m.directory recursiveDirectoryIndex) = m.directory

variable {m : Machine} {d i : Nat}

section

variable (h : m.Recursive)

include h

theorem translate_directoryEntry (hi : i < 1024) :
    m.translate (directoryEntry i) = some (m.directory, i) := by
  obtain ⟨hp, hf⟩ := h
  have hd : pageDirectoryIndex (directoryEntry i) = recursiveDirectoryIndex := by
    rw [pageDirectoryIndex, directoryEntry, recursiveDirectoryIndex]
    omega
  have ht : pageTableIndex (directoryEntry i) = recursiveDirectoryIndex := by
    rw [pageTableIndex, directoryEntry, recursiveDirectoryIndex]
    omega
  have ho : directoryEntry i % pageSize / 4 = i := by
    rw [directoryEntry, pageSize]
    omega
  rw [Machine.translate, hd, hf, ht, hp, hf, ho]
  rfl

theorem translate_tableEntry (hd : d < 1024) (hi : i < 1024)
    (hp : (m.mem m.directory d).has pagePresent = true) :
    m.translate (tableEntry d i) = some (frameOf (m.mem m.directory d), i) := by
  obtain ⟨hp', hf⟩ := h
  have hd' : pageDirectoryIndex (tableEntry d i) = recursiveDirectoryIndex := by
    rw [pageDirectoryIndex, tableEntry, recursiveDirectoryIndex, pageSize]
    omega
  have ht : pageTableIndex (tableEntry d i) = d := by
    rw [pageTableIndex, tableEntry, pageSize]
    omega
  have ho : tableEntry d i % pageSize / 4 = i := by
    rw [tableEntry, pageSize]
    omega
  rw [Machine.translate, hd', hf, ht, hp', hp, ho]
  rfl

theorem load_directoryEntry (hi : i < 1024) :
    m.load (directoryEntry i) = some (m.mem m.directory i) := by
  rw [Machine.load, translate_directoryEntry h hi]
  rfl

theorem store_directoryEntry (hi : i < 1024) (w : Word) :
    m.store (directoryEntry i) w =
      some (m.write m.directory (update (m.mem m.directory) i w)) := by
  rw [Machine.store, translate_directoryEntry h hi]
  rfl

theorem load_tableEntry (hd : d < 1024) (hi : i < 1024)
    (hp : (m.mem m.directory d).has pagePresent = true) :
    m.load (tableEntry d i) = some (m.mem (frameOf (m.mem m.directory d)) i) := by
  rw [Machine.load, translate_tableEntry h hd hi hp]
  rfl

theorem store_tableEntry (hd : d < 1024) (hi : i < 1024)
    (hp : (m.mem m.directory d).has pagePresent = true) (w : Word) :
    m.store (tableEntry d i) w = some (m.write (frameOf (m.mem m.directory d))
      (update (m.mem (frameOf (m.mem m.directory d))) i w)) := by
  rw [Machine.store, translate_tableEntry h hd hi hp]
  rfl

theorem editPage_table (hd : d < 1024)
    (hp : (m.mem m.directory d).has pagePresent = true) (f : (Nat → Word) → Nat → Word) :
    m.editPage (tableEntry d 0) f = some (m.write (frameOf (m.mem m.directory d))
      (f (m.mem (frameOf (m.mem m.directory d))))) := by
  rw [Machine.editPage, translate_tableEntry h hd (by decide) hp]
  rfl

end

end MeatySkeleton.Paging
