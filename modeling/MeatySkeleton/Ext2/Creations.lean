import MeatySkeleton.Ext2.InodeAllocation
import MeatySkeleton.Ext2.Records

/-!
# Creations that fail

`ext2_vnode_create` and `ext2_vnode_mkdir` take an inode first and go on in steps that can fail,
and none of them gives the inode back. The count of free inodes in the superblock shows it: the
allocator lowers it, and no step after that one touches it (`CountStays`). So a creation that
fails has left the volume alone exactly if it failed before it had an inode.
-/

namespace MeatySkeleton.Ext2

open Lib Lib.Effect
open Stays (demand)
open GroupDescriptor (bytes)

section
variable {σ : Type} {I : σ → Prop} {J : Volume → Prop} {b : Buffer}

/-! ## Steps that change nothing -/

theorem divide_stays (x y : Nat) : Stays I (divide x y) := demand.bind fun _ => .pure

theorem modulo_stays (x y : Nat) : Stays I (modulo x y) := demand.bind fun _ => .pure

theorem blockSize_stays (sb : Superblock) : Stays I sb.blockSize :=
  demand.bind fun _ => .pure

theorem get8_stays (i : Nat) : Stays I (b.get8 i) := demand.bind fun _ => .pure

theorem get16_stays (i : Nat) : Stays I (b.get16 i) := demand.bind fun _ => .pure

theorem get32_stays (i : Nat) : Stays I (b.get32 i) := demand.bind fun _ => .pure

theorem put8_stays (i n : Nat) : Stays I (b.put8 i n) := demand.bind fun _ => .pure

theorem put16_stays (i n : Nat) : Stays I (b.put16 i n) := demand.bind fun _ => .pure

theorem put32_stays (i n : Nat) : Stays I (b.put32 i n) := demand.bind fun _ => .pure

theorem fill_stays (i n : Nat) (byte : UInt8) : Stays I (b.fill i n byte) :=
  demand.bind fun _ => .pure

theorem slice_stays (i n : Nat) : Stays I (b.slice i n) := demand.bind fun _ => .pure

theorem store_stays (i : Nat) (source : Mem) (n : Nat) : Stays I (b.store i source n) :=
  demand.bind fun _ => .pure

theorem testBit_stays (bit : Nat) : Stays J (testBit b bit) :=
  (get8_stays _).bind fun _ => .pure

theorem setBit_stays (bit : Nat) : Stays J (setBit b bit) :=
  (get8_stays _).bind fun _ => put8_stays _ _

theorem clearBit_stays (bit : Nat) : Stays J (clearBit b bit) :=
  (get8_stays _).bind fun _ => put8_stays _ _

theorem blockRead_stays (lba count offset : Nat) : Stays J (blockRead lba count b offset) := by
  refine Stays.get.bind fun v => Stays.require.bind fun _ => Stays.require.bind fun _ => ?_
  exact Stays.require.bind fun _ => Stays.require.bind fun _ => demand.bind fun _ => .pure

theorem readBlock_stays (blockSize n : Nat) : Stays J (readBlock blockSize n b) :=
  Stays.require.bind fun _ => Stays.require.bind fun _ => blockRead_stays _ _ _

theorem readGroupDescriptor_stays (g : Nat) : Stays J (readGroupDescriptor g) := by
  refine Stays.get.bind fun v => (blockSize_stays _).bind fun bs => Stays.require.bind fun _ => ?_
  exact Stays.require.bind fun _ => (readBlock_stays _ _).bind fun _ => slice_stays _ _

theorem inodePlace_stays (sb : Superblock) (d : GroupDescriptor) (bs i : Nat) :
    Stays J (inodePlace sb d bs i) :=
  (divide_stays _ _).bind fun _ => (modulo_stays _ _).bind fun _ => .pure

theorem readInode_stays (n : Nat) : Stays J (readInode n) := by
  refine Stays.get.bind fun v => Stays.require.bind fun _ => (blockSize_stays _).bind fun bs => ?_
  refine (divide_stays _ _).bind fun g => (modulo_stays _ _).bind fun i => ?_
  refine (readGroupDescriptor_stays g).bind fun d => (inodePlace_stays _ _ _ _).bind fun p => ?_
  refine Stays.require.bind fun _ => Stays.require.bind fun _ => ?_
  exact (readBlock_stays _ _).bind fun _ => slice_stays _ _

theorem findFreeBlock_stays (left bit : Nat) : Stays J (findFreeBlock b left bit) := by
  induction left generalizing bit with
  | zero => exact .pure
  | succ left ih => exact (testBit_stays _).bind fun _ => .ite (ih _) .pure

/-! ## Scans -/

variable {name : Name}

theorem readRecord_stays (bs offset : Nat) : Stays J (readRecord bs offset b) := by
  refine (get16_stays _).bind fun _ => Stays.require.bind fun _ => Stays.require.bind fun _ => ?_
  refine (get8_stays _).bind fun _ => Stays.require.bind fun _ => (get32_stays _).bind fun _ => ?_
  exact (get8_stays _).bind fun _ => .pure

theorem matchesName_stays (offset : Nat) (r : Record) : Stays J (matchesName b offset r name) :=
  .ite (((slice_stays _ _).bind fun _ => .pure).bind fun _ => .pure) .pure

theorem searchBlock_stays (bs fuel offset : Nat) : Stays J (searchBlock bs name b fuel offset) := by
  induction fuel generalizing offset with
  | zero => exact .crash
  | succ fuel ih =>
    refine .ite .pure ((readRecord_stays _ _).bind fun r => ?_)
    exact (matchesName_stays _ _).bind fun _ => .ite .pure (ih _)

theorem lookupFrom_stays (bs : Nat) (directory : Inode) (left i : Nat) :
    Stays J (lookupFrom bs directory name left i b) := by
  induction left generalizing i b with
  | zero => exact .fail
  | succ left ih =>
    refine demand.bind fun _ => .ite (ih _) ((readBlock_stays _ _).bind fun b' => ?_)
    refine (searchBlock_stays _ _ _).bind fun found => ?_
    cases found with
    | some n => exact .pure
    | none => exact ih _

theorem lookup_stays (directory : Inode) : Stays J (lookup directory name) := by
  refine Stays.get.bind fun v => Stays.require.bind fun _ => (blockSize_stays _).bind fun bs => ?_
  exact Stays.require.bind fun _ => lookupFrom_stays _ _ _ _

theorem putRecord_stays (offset : Nat) (r : Record) : Stays J (putRecord b offset r name) := by
  refine (put32_stays _ _).bind fun _ => (put16_stays _ _).bind fun _ => ?_
  exact (put8_stays _ _).bind fun _ => (put8_stays _ _).bind fun _ => store_stays _ _ _

theorem insertIntoBlock_stays (bs n fileType fuel offset : Nat) :
    Stays J (insertIntoBlock bs name n fileType b fuel offset) := by
  induction fuel generalizing offset with
  | zero => exact .crash
  | succ fuel ih =>
    refine .ite .pure ((readRecord_stays _ _).bind fun r => (matchesName_stays _ _).bind fun _ => ?_)
    refine Stays.require.bind fun _ => .ite ((putRecord_stays _ _).bind fun _ => .pure) ?_
    refine .ite ((put16_stays _ _).bind fun _ => ?_) (ih _)
    exact (putRecord_stays _ _).bind fun _ => .pure

theorem insertFrom_stays (bs : Nat) (directory : Inode) (n fileType left i : Nat) :
    Stays J (insertFrom bs directory name n fileType left i b) := by
  induction left generalizing i b with
  | zero => exact .fail
  | succ left ih =>
    refine demand.bind fun _ => .ite (ih _) ((readBlock_stays _ _).bind fun b' => ?_)
    refine (insertIntoBlock_stays _ _ _ _ _).bind fun inserted => ?_
    cases inserted with
    | some b'' => exact .pure
    | none => exact ih _

theorem kmalloc_stays (hJ : ∀ v kmallocs, J v → J { v with kmallocs }) : Stays J kmalloc := by
  refine Stays.get.bind fun v => ?_
  split
  next => exact .modify fun _ hv => hJ _ _ hv
  next => exact Stays.bind (.modify fun _ hv => hJ _ _ hv) fun _ => .fail
  next => exact .fail

theorem vnodeLookup_stays (hJ : ∀ v kmallocs, J v → J { v with kmallocs }) (directory : Inode)
    (name : Name) : Stays J (vnodeLookup directory name) := by
  refine (lookup_stays directory).bind fun n => (readInode_stays n).bind fun inode => ?_
  refine (kmalloc_stays hJ).bind fun _ => (kmalloc_stays hJ).bind fun _ => ?_
  exact Stays.require.bind fun _ => .pure

theorem newDirectoryBlock_stays (bs n parent : Nat) : Stays J (newDirectoryBlock bs n parent b) := by
  refine (fill_stays _ _ _).bind fun _ => (putRecord_stays _ _).bind fun _ => ?_
  exact putRecord_stays _ _

end

/-! ## Steps that leave the count of free inodes -/

/-- The superblock in memory counts `count` free inodes. -/
def Volume.CountsInodes (count : Nat) (v : Volume) : Prop := v.superblock.freeInodeCount = count

def Allocating.CountsInodes (count : Nat) (s : Allocating) : Prop := s.volume.CountsInodes count

section
variable {count : Nat} {v : Volume} {b : Buffer} {α : Type}

theorem Volume.CountsInodes.setFreeBlockCount (h : v.CountsInodes count) (n : Nat) :
    Volume.CountsInodes count { v with superblock := v.superblock.setFreeBlockCount n } := by
  show get32 (put32 v.superblock 12 n) 16 = count
  rw [(put32_within _ _ _).get32 (by decide)]
  exact h

theorem blockWrite_stays (lba n offset : Nat) :
    Stays (Volume.CountsInodes count) (blockWrite lba n b offset) := by
  refine Stays.get.bind fun v => Stays.require.bind fun _ => Stays.require.bind fun _ => ?_
  refine Stays.require.bind fun _ => Stays.require.bind fun _ => demand.bind fun _ => ?_
  exact .modify fun _ h => h

theorem writeBlock_stays (bs n offset : Nat) :
    Stays (Volume.CountsInodes count) (writeBlock bs n b offset) :=
  Stays.require.bind fun _ => Stays.require.bind fun _ => blockWrite_stays _ _ _

theorem writeSuperblock_stays : Stays (Volume.CountsInodes count) writeSuperblock := by
  refine Stays.get.bind fun v => (blockRead_stays _ _ _).bind fun _ => ?_
  exact (store_stays _ _ _).bind fun _ => blockWrite_stays _ _ _

theorem writeGroupDescriptor_stays (g : Nat) (d : GroupDescriptor) :
    Stays (Volume.CountsInodes count) (writeGroupDescriptor g d) := by
  refine Stays.get.bind fun v => (blockSize_stays _).bind fun bs => Stays.require.bind fun _ => ?_
  refine Stays.require.bind fun _ => (readBlock_stays _ _).bind fun _ => ?_
  exact (store_stays _ _ _).bind fun _ => writeBlock_stays _ _ _

theorem writeInode_stays (n : Nat) (inode : Inode) :
    Stays (Volume.CountsInodes count) (writeInode n inode) := by
  refine Stays.get.bind fun v => Stays.require.bind fun _ => (blockSize_stays _).bind fun bs => ?_
  refine Stays.require.bind fun _ => (divide_stays _ _).bind fun g => (modulo_stays _ _).bind fun i => ?_
  refine (readGroupDescriptor_stays g).bind fun d => (inodePlace_stays _ _ _ _).bind fun p => ?_
  refine Stays.require.bind fun _ => (readBlock_stays _ _).bind fun _ => ?_
  exact (store_stays _ _ _).bind fun _ => writeBlock_stays _ _ _

/-- Undoing a write and failing. -/
theorem attempt_fail_stays {m : Effect Volume α} (hm : Stays (Volume.CountsInodes count) m) :
    Stays (Volume.CountsInodes count) (do
      let _ ← attempt m
      fail : Effect Volume Unit) :=
  hm.attempt.bind fun _ => .fail

theorem publishChild_stays (l : Linking) (bs n : Nat) :
    Stays (Volume.CountsInodes count) (publishChild l bs n b) := by
  refine (writeInode_stays _ _).bind fun _ => Stays.bind (.when ?_) fun _ => ?_
  · refine Stays.bind (.when (attempt_fail_stays (writeInode_stays _ _))) fun _ => ?_
    refine (writeInode_stays _ _).attempt.bind fun _ => ?_
    exact .when (attempt_fail_stays (writeInode_stays _ _))
  · refine (writeBlock_stays _ _ _).attempt.bind fun _ => .when (Stays.bind (.when ?_) fun _ => ?_)
    · exact (writeInode_stays _ _).attempt.bind fun _ => .pure
    · exact attempt_fail_stays (writeInode_stays _ _)

theorem linkNewChild_stays (directoryNumber : Nat) (name : Name) (n fileType links : Nat) :
    Stays (Volume.CountsInodes count) (linkNewChild directoryNumber name n fileType links) := by
  refine Stays.get.bind fun v => Stays.require.bind fun _ => Stays.require.bind fun _ => ?_
  refine (readInode_stays _).bind fun directory => Stays.require.bind fun _ => ?_
  refine (readInode_stays _).bind fun child => Stays.require.bind fun _ => Stays.require.bind fun _ => ?_
  refine (blockSize_stays _).bind fun bs => Stays.require.bind fun _ => ?_
  exact (insertFrom_stays _ _ _ _ _ _).bind fun _ => publishChild_stays _ _ _

theorem freeBlock_stays (n : Nat) : Stays (Volume.CountsInodes count) (freeBlock n) := by
  refine Stays.get.bind fun v => Stays.require.bind fun _ => (blockSize_stays _).bind fun bs => ?_
  refine Stays.require.bind fun _ => Stays.require.bind fun _ => (divide_stays _ _).bind fun g => ?_
  refine (modulo_stays _ _).bind fun bit => (readGroupDescriptor_stays g).bind fun d => ?_
  refine (readBlock_stays _ _).bind fun bitmap => (testBit_stays _).bind fun _ => ?_
  refine Stays.require.bind fun _ => (clearBit_stays _).bind fun _ => ?_
  refine (writeBlock_stays _ _ _).bind fun _ => (writeGroupDescriptor_stays _ _).bind fun _ => ?_
  refine Stays.bind (.modify fun _ h => h.setFreeBlockCount _) fun _ => writeSuperblock_stays

/-! ## The block of a new directory -/

theorem onVolume_stays {m : Effect Volume α} (hm : Stays (Volume.CountsInodes count) m) :
    Stays (Allocating.CountsInodes count) (onVolume m) :=
  hm.zoom (fun _ h => h) fun _ _ _ h => h

theorem flushAllocationContext_stays :
    Stays (Allocating.CountsInodes count) flushAllocationContext := by
  refine Stays.get.bind fun s => .ite .pure ((blockSize_stays _).bind fun bs => ?_)
  refine (onVolume_stays (writeBlock_stays _ _ _)).bind fun _ => ?_
  exact (onVolume_stays (writeGroupDescriptor_stays _ _)).bind fun _ => .modify fun _ h => h

theorem loadGroup_stays (bs g : Nat) : Stays (Allocating.CountsInodes count) (loadGroup bs g) := by
  refine Stays.get.bind fun s => .ite (flushAllocationContext_stays.bind fun _ => ?_) .pure
  refine (onVolume_stays (readGroupDescriptor_stays g)).bind fun d => ?_
  refine Stays.bind (.modify fun _ h => h) fun _ => .ite ?_ ?_
  · exact Stays.bind (.modify fun _ h => h) fun _ => .pure
  · refine Stays.get.bind fun s => (onVolume_stays (readBlock_stays _ _)).bind fun _ => ?_
    exact Stays.bind (.modify fun _ h => h) fun _ => .pure

theorem allocateBlockFrom_stays (bs left g : Nat) :
    Stays (Allocating.CountsInodes count) (allocateBlockFrom bs left g) := by
  induction left generalizing g with
  | zero => exact .fail
  | succ left ih =>
    refine (loadGroup_stays _ _).bind fun loaded => .ite (ih _) (Stays.get.bind fun s => ?_)
    refine (onVolume_stays (findFreeBlock_stays _ _)).bind fun found => ?_
    cases found with
    | none =>
      refine flushAllocationContext_stays.bind fun _ => ?_
      exact Stays.bind (.modify fun _ h => h) fun _ => ih _
    | some bit =>
      refine (onVolume_stays (setBit_stays _)).bind fun _ => Stays.bind (.modify fun _ h => h) fun _ => ?_
      refine (onVolume_stays (.modify fun _ h => ?_)).bind fun _ => .pure
      exact h.setFreeBlockCount _

theorem allocateBlock_stays : Stays (Allocating.CountsInodes count) allocateBlock := by
  refine Stays.get.bind fun s => (blockSize_stays _).bind fun bs => Stays.require.bind fun _ => ?_
  exact Stays.require.bind fun _ => (divide_stays _ _).bind fun _ => allocateBlockFrom_stays _ _ _

theorem allocateDirectoryBlock_stays :
    Stays (Volume.CountsInodes count) allocateDirectoryBlock := by
  refine Stays.zoom (J := Allocating.CountsInodes count) ?_ (fun _ h => h) fun _ _ _ h => h
  refine allocateBlock_stays.bind fun _ => Stays.require.bind fun _ => ?_
  refine flushAllocationContext_stays.bind fun _ => Stays.get.bind fun s => ?_
  exact Stays.bind (.when (onVolume_stays writeSuperblock_stays)) fun _ => .pure

end

/-! ## The inode that is taken -/

namespace Volume

variable (v : Volume)

/-- The block in which the descriptor of group `g` is looked for. -/
def descriptorBlock (g : Nat) : Nat := (descriptorPlace v.superblock v.blockBytes g).1

/-- What is read as the descriptor of group `g`. -/
def groupDescriptor (g : Nat) : GroupDescriptor := fun x =>
  v.image (v.descriptorBlock g * v.blockBytes +
    ((descriptorPlace v.superblock v.blockBytes g).2 * bytes + x))

/-- The array with the inode bitmap of group `g`, and what it held behind it before. -/
def inodeBitmapArray (g : Nat) : Buffer :=
  ⟨4096, copyFrom v.stale 0 v.image ((v.groupDescriptor g).inodeBitmap * v.blockBytes) v.blockBytes⟩

/-- The inode of bit `i` of group `g`. -/
def inodeAt (g i : Nat) : Nat := u32 (u32 (g * v.superblock.inodesPerGroup) + i + 1)

/-- Bit `i` of group `g` is clear and stands for an inode that is not reserved. -/
def FreeAt (g i : Nat) : Prop :=
  firstUsableInode v.superblock ≤ v.inodeAt g i ∧ (v.inodeBitmapArray g).bit i = false

/-- The record of inode `n` has its place on the device. -/
structure HasRecord (n : Nat) : Prop where
  number : n ≠ 0 ∧ n ≤ v.superblock.inodeCount
  size : Inode.bytes ≤ v.superblock.inodeSize ∧ v.superblock.inodeSize ≤ v.blockBytes
  descriptor : v.HasBlock v.blockBytes (v.descriptorBlock (v.inodeGroup n))
  inside : u32 (v.inodeIndex n * v.superblock.inodeSize % v.blockBytes) + v.superblock.inodeSize ≤
    v.blockBytes
  block : v.HasBlock v.blockBytes (u32 ((v.groupDescriptor (v.inodeGroup n)).inodeTable +
    u32 (v.inodeIndex n * v.superblock.inodeSize / v.blockBytes)))

/-- No inode of group `g` is free, by the count or by the bitmap. -/
def Passes (g : Nat) : Prop :=
  v.HasBlock v.blockBytes (v.descriptorBlock g) ∧ ((v.groupDescriptor g).freeInodesCount = 0 ∨
    v.HasBlock v.blockBytes (v.groupDescriptor g).inodeBitmap ∧
      ∀ i < inodesInGroup v.superblock g, ¬v.FreeAt g i)

/-- Group `g` has a free inode, and the record of the first one has its place. -/
def Offers (g : Nat) : Prop :=
  v.HasBlock v.blockBytes (v.descriptorBlock g) ∧ (v.groupDescriptor g).freeInodesCount ≠ 0 ∧
    v.HasBlock v.blockBytes (v.groupDescriptor g).inodeBitmap ∧
      ∃ i < inodesInGroup v.superblock g, v.FreeAt g i ∧ (∀ j < i, ¬v.FreeAt g j) ∧
        v.HasRecord (v.inodeAt g i)

/-- A search through `left` groups from group `g` on comes to a free inode. -/
def Finds (g left : Nat) : Prop :=
  ∃ k, g ≤ k ∧ k < g + left ∧ v.Offers k ∧ ∀ j, g ≤ j → j < k → v.Passes j

/-- There is an inode for `ext2_allocate_inode`. -/
structure HasFreeInode : Prop where
  counts : v.superblock.inodeCount ≠ 0 ∧ v.superblock.inodesPerGroup ≠ 0 ∧
    v.superblock.freeInodeCount ≠ 0
  size : v.blockBytes ≠ 0 ∧ v.blockBytes ≤ 4096
  group : v.Finds 0 (inodeGroupCount v.superblock)

end Volume

section
variable {v w : Volume} {b : Buffer} {g n mode : Nat}

/-- A block size that is not zero and fits an array. -/
theorem blockSized_of_le (hsize : v.superblock.blockSize v = .done v.blockBytes v)
    (h : v.blockBytes ≠ 0 ∧ v.blockBytes ≤ 4096) : BlockSized v.blockBytes := by
  unfold Superblock.blockSize shiftLeft at hsize
  rw [demand_eq_done] at hsize
  have hall : ∀ log < 32, u32 (1024 * 2 ^ log) ≠ 0 ∧ u32 (1024 * 2 ^ log) ≤ 4096 →
      BlockSized (u32 (1024 * 2 ^ log)) := by
    unfold BlockSized
    decide
  exact hall _ hsize.1 h

theorem blockSize_ends (v : Volume) : (v.superblock.blockSize v).Ends
    (fun bs w => w = v ∧ bs = v.blockBytes ∧ v.superblock.blockSize v = .done v.blockBytes v)
    fun _ => False := by
  by_cases hlog : v.superblock.logBlockSize < 32
  · have hdone : v.superblock.blockSize v = .done v.blockBytes v := demand_bind hlog
    rw [hdone]
    exact ⟨rfl, rfl, rfl⟩
  · have hfault : v.superblock.blockSize v = .fault := by
      unfold Superblock.blockSize shiftLeft
      rw [demand_neg hlog]
      rfl
    rw [hfault]
    trivial

theorem readBlock_ends (h : BlockSized v.blockBytes) (hb : b.size = 4096) (n : Nat) :
    (readBlock v.blockBytes n b v).Ends (fun b' w => w = v ∧ v.HasBlock v.blockBytes n ∧
        b' = ⟨4096, copyFrom b.bytes 0 v.image (n * v.blockBytes) v.blockBytes⟩)
      fun w => w = v ∧ ¬v.HasBlock v.blockBytes n := by
  by_cases hblock : v.HasBlock v.blockBytes n
  · rw [readBlock_done h hblock (hb ▸ h.le.2), hb]
    exact ⟨rfl, hblock, rfl⟩
  · rw [readBlock_failed h hblock]
    exact ⟨rfl, hblock⟩

/-- The descriptor is read if its block is on the device. -/
theorem readGroupDescriptor_ends (hsize : v.superblock.blockSize v = .done v.blockBytes v)
    (h : BlockSized v.blockBytes) (g : Nat) : (readGroupDescriptor g v).Ends
      (fun d w => w = v ∧ v.HasBlock v.blockBytes (v.descriptorBlock g) ∧
        ∀ x < bytes, d x = v.groupDescriptor g x)
      fun w => w = v ∧ ¬v.HasBlock v.blockBytes (v.descriptorBlock g) := by
  have hper : v.blockBytes / bytes ≠ 0 ∧ v.blockBytes / bytes * bytes = v.blockBytes := by
    have hle := h.le
    have haligned := h.sectors
    unfold bytes
    omega
  unfold readGroupDescriptor
  rw [get_bind, bind_done hsize, require_bind hper.1]
  dsimp only
  rw [require_bind h.le.2]
  refine ends_bind (readBlock_ends h rfl _) (fun _ hw => hw) ?_
  rintro b' w ⟨rfl, hblock, rfl⟩
  have hindex : (descriptorPlace w.superblock w.blockBytes g).2 < w.blockBytes / bytes :=
    Nat.mod_lt _ (Nat.pos_of_ne_zero hper.1)
  have hinside : (descriptorPlace w.superblock w.blockBytes g).2 * bytes +
      bytes ≤ w.blockBytes := by
    rw [← Nat.succ_mul]
    exact Nat.le_trans (Nat.mul_le_mul_right _ hindex) (Nat.le_of_eq hper.2)
  have hmax := h.le.2
  rw [slice_done (Nat.le_trans hinside hmax)]
  refine ⟨rfl, hblock, fun x hx => ?_⟩
  have hlt : (descriptorPlace w.superblock w.blockBytes g).2 * bytes + x <
      w.blockBytes := by omega
  exact copyFrom_low hlt

/-- The first clear bit of a usable inode. -/
theorem findFreeInode_ends {first left bit : Nat} :
    (findFreeInode v.superblock b first left bit w).Ends
      (fun r t => t = w ∧
        (∀ i, r = some i → i < bit + left ∧
          (firstUsableInode v.superblock ≤ u32 (first + i + 1) ∧ b.bit i = false) ∧
          ∀ j, bit ≤ j → j < i →
            ¬(firstUsableInode v.superblock ≤ u32 (first + j + 1) ∧ b.bit j = false)) ∧
        (r = none → ∀ j, bit ≤ j → j < bit + left →
          ¬(firstUsableInode v.superblock ≤ u32 (first + j + 1) ∧ b.bit j = false)))
      fun _ => False := by
  induction left generalizing bit with
  | zero => exact ⟨rfl, fun _ hr => (by cases hr), fun _ j _ _ => by omega⟩
  | succ left ih =>
    -- a bit that is not taken
    have hskip : ¬(firstUsableInode v.superblock ≤ u32 (first + bit + 1) ∧ b.bit bit = false) →
        (findFreeInode v.superblock b first left (bit + 1) w).Ends
          (fun r t => t = w ∧
            (∀ i, r = some i → i < bit + (left + 1) ∧
              (firstUsableInode v.superblock ≤ u32 (first + i + 1) ∧ b.bit i = false) ∧
              ∀ j, bit ≤ j → j < i →
                ¬(firstUsableInode v.superblock ≤ u32 (first + j + 1) ∧ b.bit j = false)) ∧
            (r = none → ∀ j, bit ≤ j → j < bit + (left + 1) →
              ¬(firstUsableInode v.superblock ≤ u32 (first + j + 1) ∧ b.bit j = false)))
          fun _ => False := by
      intro hbit
      have hih := @ih (bit + 1)
      refine ends_mono hih ?_ fun _ h => h
      rintro r t ⟨ht, hsome, hnone⟩
      refine ⟨ht, fun i hi => ?_, fun hr j hlow hhigh => ?_⟩
      · obtain ⟨hlt, hfree, hbefore⟩ := hsome i hi
        refine ⟨by omega, hfree, fun j hlow hj => ?_⟩
        by_cases heq : j = bit
        · exact heq ▸ hbit
        · exact hbefore j (by omega) hj
      · by_cases heq : j = bit
        · exact heq ▸ hbit
        · exact hnone hr j (by omega) (by omega)
    unfold findFreeInode
    split
    next hreserved => exact hskip fun h => absurd h.1 (Nat.not_le_of_lt hreserved)
    next husable =>
      by_cases hin : bit / 8 < b.size
      · rw [bind_done (testBit_done hin)]
        split
        next hset => exact hskip fun h => by cases hset.symm.trans h.2
        next hclear =>
          refine ⟨rfl, fun i hi => ?_, fun hr => by cases hr⟩
          cases hi
          refine ⟨by omega, ⟨Nat.le_of_not_lt husable, ?_⟩, fun j hlow hj => by omega⟩
          exact Bool.eq_false_iff.mpr hclear
      · have hfault : testBit b bit w = .fault := by
          unfold testBit Buffer.get8
          rw [demand_neg hin]
          rfl
        rw [bind_fault hfault]
        trivial

theorem divide_ends (x y : Nat) (v : Volume) :
    (divide x y v).Ends (fun r w => w = v ∧ y ≠ 0 ∧ r = x / y) fun _ => False :=
  ends_demand fun hy => ⟨rfl, hy, rfl⟩

theorem modulo_ends (x y : Nat) (v : Volume) :
    (modulo x y v).Ends (fun r w => w = v ∧ y ≠ 0 ∧ r = x % y) fun _ => False :=
  ends_demand fun hy => ⟨rfl, hy, rfl⟩

theorem fill_ends (b : Buffer) (i k : Nat) (byte : UInt8) (v : Volume) :
    (b.fill i k byte v).Ends (fun _ w => w = v) fun _ => False :=
  ends_demand fun _ => rfl

theorem put16_ends (b : Buffer) (i k : Nat) (v : Volume) :
    (b.put16 i k v).Ends (fun _ w => w = v) fun _ => False :=
  ends_demand fun _ => rfl

theorem store_ends (b : Buffer) (i k : Nat) (source : Mem) (v : Volume) :
    (b.store i source k v).Ends (fun _ w => w = v) fun _ => False :=
  ends_demand fun _ => rfl

theorem setBit_ends (b : Buffer) (bit : Nat) (v : Volume) :
    (setBit b bit v).Ends (fun _ w => w = v) fun _ => False := by
  have hget : (b.get8 (bit / 8) v).Ends (fun _ w => w = v) fun _ => False :=
    ends_demand fun _ => rfl
  refine ends_bind hget nofun ?_
  rintro _ w rfl
  exact ends_demand fun _ => rfl

/-- Writing a block that is on the device. -/
theorem writeBlock_ends (h : BlockSized v.blockBytes) (hblock : v.HasBlock v.blockBytes n) (b : Buffer) :
    (writeBlock v.blockBytes n b 0 v).Ends (fun _ w => ∃ image, w = { v with image })
      fun _ => False := by
  have hle := h.le
  obtain ⟨-, -, haligned⟩ := h.sectors
  obtain ⟨h1, h2, h3, h4⟩ := (hasSectors_iff h).mpr hblock
  unfold writeBlock blockWrite
  rw [require_bind (by omega), require_bind haligned, get_bind, require_bind h1, require_bind h2,
    require_bind h3, require_bind h4]
  exact ends_demand fun _ => ⟨_, rfl⟩

/-- A record is initialised where it has its place. -/
theorem initializeNewInode_ends (hsize : v.superblock.blockSize v = .done v.blockBytes v)
    (h : BlockSized v.blockBytes) (n mode : Nat) : (initializeNewInode n mode v).Ends
      (fun _ w => v.HasRecord n ∧ ∃ image, w = { v with image })
      fun w => w = v ∧ ¬v.HasRecord n := by
  have hle := h.le
  unfold initializeNewInode
  rw [get_bind]
  refine ends_require (fun hno => ⟨rfl, fun hr => hno hr.number⟩) fun hnumber => ?_
  rw [bind_done hsize, require_bind (by omega)]
  refine ends_require (fun hno => ⟨rfl, fun hr => hno hr.size⟩) fun hfits => ?_
  refine ends_bind (divide_ends _ _ v) nofun ?_
  rintro _ w ⟨rfl, hper, rfl⟩
  refine ends_bind (modulo_ends _ _ w) nofun ?_
  rintro _ w ⟨rfl, -, rfl⟩
  refine ends_bind (readGroupDescriptor_ends hsize h _) (fun _ hw => ⟨hw.1, fun hr => hw.2 hr.descriptor⟩) ?_
  rintro d w ⟨rfl, hdescriptor, hd⟩
  have htable : d.inodeTable = (w.groupDescriptor (w.inodeGroup n)).inodeTable :=
    get32_congr fun k hk => hd _ (by unfold bytes; omega)
  have hplace : inodePlace w.superblock d w.blockBytes ((n - 1) % w.superblock.inodesPerGroup) w =
      .done (u32 ((w.groupDescriptor (w.inodeGroup n)).inodeTable +
          u32 (w.inodeIndex n * w.superblock.inodeSize / w.blockBytes)),
        u32 (w.inodeIndex n * w.superblock.inodeSize % w.blockBytes)) w := by
    have hne : w.blockBytes ≠ 0 := by omega
    unfold inodePlace
    rw [bind_done (divide_done hne), bind_done (modulo_done hne), htable]
    rfl
  rw [bind_done hplace]
  dsimp only
  refine ends_require (fun hno => ⟨rfl, fun hr => hno hr.inside⟩) fun hinside => ?_
  refine ends_bind (readBlock_ends h rfl _) (fun _ hw => ⟨hw.1, fun hr => hw.2 hr.block⟩) ?_
  rintro b w ⟨rfl, hblock, -⟩
  refine ends_bind (fill_ends b _ _ _ w) nofun ?_
  rintro b w rfl
  refine ends_bind (put16_ends b _ _ w) nofun ?_
  rintro b w rfl
  refine ends_mono (writeBlock_ends h hblock b) ?_ nofun
  exact fun _ _ hw => ⟨⟨hnumber, hfits, hdescriptor, hinside, hblock⟩, hw⟩

/-- A descriptor is written where one could be read. -/
theorem writeGroupDescriptor_ends (hsize : v.superblock.blockSize v = .done v.blockBytes v)
    (h : BlockSized v.blockBytes) (hblock : v.HasBlock v.blockBytes (v.descriptorBlock g))
    (d : GroupDescriptor) : (writeGroupDescriptor g d v).Ends
      (fun _ w => ∃ image, w = { v with image }) fun _ => False := by
  have hle := h.le
  have hper : v.blockBytes / bytes ≠ 0 := by
    unfold bytes
    omega
  unfold writeGroupDescriptor
  rw [get_bind, bind_done hsize, require_bind hle.2, require_bind hper]
  dsimp only
  refine ends_bind (readBlock_ends h rfl _) (fun _ hw => hw.2 hblock) ?_
  rintro b w ⟨rfl, -, -⟩
  refine ends_bind (store_ends b _ _ _ w) nofun ?_
  rintro b w rfl
  exact writeBlock_ends h hblock b

theorem writeSuperblock_ends (h : 4 ≤ v.sectorCount) :
    (writeSuperblock v).Ends (fun _ w => ∃ image, w = { v with image }) fun _ => False := by
  have hsectors : v.HasSectors 2 2 := ⟨by decide, by omega, by omega, by omega⟩
  unfold writeSuperblock
  rw [get_bind, bind_done (blockRead_eq_done.mpr ⟨hsectors, Nat.le_refl 1024, rfl, rfl⟩)]
  refine ends_bind (store_ends _ _ _ _ v) nofun ?_
  rintro b w rfl
  unfold blockWrite
  rw [get_bind, require_bind hsectors.1, require_bind hsectors.2.1, require_bind hsectors.2.2.1,
    require_bind hsectors.2.2.2]
  exact ends_demand fun _ => ⟨_, rfl⟩

theorem finds_zero : ¬v.Finds g 0 := fun ⟨k, hlow, hhigh, _⟩ => by omega

theorem finds_succ {left : Nat} :
    v.Finds g (left + 1) ↔ v.Offers g ∨ v.Passes g ∧ v.Finds (g + 1) left := by
  constructor
  · rintro ⟨k, hlow, hhigh, hoffers, hbefore⟩
    by_cases heq : k = g
    · exact .inl (heq ▸ hoffers)
    · exact .inr ⟨hbefore g (Nat.le_refl g) (by omega), k, by omega, by omega, hoffers,
        fun j hj hk => hbefore j (by omega) hk⟩
  · rintro (hoffers | ⟨hpasses, k, hlow, hhigh, hoffers, hbefore⟩)
    · exact ⟨g, Nat.le_refl g, by omega, hoffers, fun j hj hk => by omega⟩
    · refine ⟨k, by omega, by omega, hoffers, fun j hj hk => ?_⟩
      by_cases heq : j = g
      · exact heq ▸ hpasses
      · exact hbefore j (by omega) hk

/-- What the allocator does with the bit that it has found. -/
theorem takeInode_ends (hsize : v.superblock.blockSize v = .done v.blockBytes v)
    (h : BlockSized v.blockBytes) (hsectors : 4 ≤ v.sectorCount)
    (hdescriptor : v.HasBlock v.blockBytes (v.descriptorBlock g)) {block : Nat}
    (hbitmap : v.HasBlock v.blockBytes block) (bit : Nat) (d : GroupDescriptor) :
    ((do
      initializeNewInode n mode
      let bitmap ← setBit b bit
      writeBlock v.blockBytes block bitmap 0
      writeGroupDescriptor g d
      modify fun v =>
        { v with superblock := v.superblock.setFreeInodeCount (v.superblock.freeInodeCount - 1) }
      writeSuperblock
      return n : Effect Volume Nat) v).Ends
      (fun _ w => v.HasRecord n ∧
        w.superblock = v.superblock.setFreeInodeCount (v.superblock.freeInodeCount - 1))
      fun w => w = v ∧ ¬v.HasRecord n := by
  have hany : ∀ w : Volume, v.superblock.blockSize w = .done v.blockBytes w :=
    (blockSize_again hsize).2.2
  refine ends_bind (initializeNewInode_ends hsize h n mode) (fun _ hw => hw) ?_
  rintro _ w ⟨hrecord, image, rfl⟩
  refine ends_bind (setBit_ends b bit _) nofun ?_
  rintro b' w rfl
  refine ends_bind (writeBlock_ends (v := { v with image }) h hbitmap b') nofun ?_
  rintro _ w ⟨marked, rfl⟩
  have hwrite := writeGroupDescriptor_ends (v := { v with image := marked }) (hany _) h hdescriptor d
  refine ends_bind hwrite nofun ?_
  rintro _ w ⟨counted, rfl⟩
  rw [modify_bind]
  refine ends_bind (writeSuperblock_ends hsectors) nofun ?_
  rintro _ w ⟨last, rfl⟩
  exact ⟨hrecord, rfl⟩

/-- The search, and what the allocator does with the inode it finds. -/
theorem allocateInodeFrom_ends (hsize : v.superblock.blockSize v = .done v.blockBytes v)
    (h : BlockSized v.blockBytes) (hsectors : 4 ≤ v.sectorCount) (mode left g : Nat) :
    (allocateInodeFrom v.blockBytes mode left g v).Ends
      (fun _ w => v.Finds g left ∧
        w.superblock = v.superblock.setFreeInodeCount (v.superblock.freeInodeCount - 1))
      fun w => w = v ∧ ¬v.Finds g left := by
  induction left generalizing g with
  | zero => exact ⟨rfl, finds_zero⟩
  | succ left ih =>
    rw [finds_succ]
    -- a group without a free inode
    have hnext : v.Passes g → ¬v.Offers g → (allocateInodeFrom v.blockBytes mode left (g + 1) v).Ends
        (fun _ w => (v.Offers g ∨ v.Passes g ∧ v.Finds (g + 1) left) ∧
          w.superblock = v.superblock.setFreeInodeCount (v.superblock.freeInodeCount - 1))
        fun w => w = v ∧ ¬(v.Offers g ∨ v.Passes g ∧ v.Finds (g + 1) left) := by
      intro hpasses hno
      refine ends_mono (ih (g + 1)) (fun _ w hw => ⟨.inr ⟨hpasses, hw.1⟩, hw.2⟩) fun w hw => ?_
      exact ⟨hw.1, fun hfinds => hfinds.elim hno fun hrest => hw.2 hrest.2⟩
    unfold allocateInodeFrom
    rw [get_bind]
    refine ends_bind (readGroupDescriptor_ends hsize h g) ?_ ?_
    · rintro w ⟨hw, hno⟩
      exact ⟨hw, fun hfinds => hfinds.elim (fun ho => hno ho.1) fun hp => hno hp.1.1⟩
    rintro d w ⟨rfl, hdescriptor, hd⟩
    have hcount : d.freeInodesCount = (w.groupDescriptor g).freeInodesCount :=
      get16_congr fun k hk => hd _ (by unfold bytes; omega)
    have hplace : d.inodeBitmap = (w.groupDescriptor g).inodeBitmap :=
      get32_congr fun k hk => hd _ (by unfold bytes; omega)
    by_cases hnone : d.freeInodesCount = 0
    · rw [if_pos hnone]
      rw [hcount] at hnone
      exact hnext ⟨hdescriptor, .inl hnone⟩ fun ho => ho.2.1 hnone
    rw [if_neg hnone, hplace]
    rw [hcount] at hnone
    refine ends_bind (readBlock_ends h rfl _) ?_ ?_
    · rintro u ⟨hu, hno⟩
      refine ⟨hu, fun hfinds => hfinds.elim (fun ho => hno ho.2.2.1) fun hp => ?_⟩
      exact hp.1.2.elim hnone fun hrest => hno hrest.1
    rintro b u ⟨rfl, hbitmap, rfl⟩
    refine ends_bind findFreeInode_ends (fun _ hf => hf.elim) ?_
    rintro r t ⟨rfl, hsome, hnone'⟩
    cases r with
    | none =>
      have hfull : ∀ i < inodesInGroup t.superblock g, ¬t.FreeAt g i := fun i hi =>
        hnone' rfl i (Nat.zero_le i) (by omega)
      refine hnext ⟨hdescriptor, .inr ⟨hbitmap, hfull⟩⟩ ?_
      rintro ⟨-, -, -, i, hi, hfree, -⟩
      exact hfull i hi hfree
    | some i =>
      obtain ⟨hi, hfree, hbefore⟩ := hsome i rfl
      rw [Nat.zero_add] at hi
      refine ends_mono (takeInode_ends hsize h hsectors hdescriptor hbitmap i _) ?_ ?_
      · rintro _ w ⟨hrecord, hw⟩
        exact ⟨.inl ⟨hdescriptor, hnone, hbitmap, i, hi, hfree,
          fun j hj => hbefore j (Nat.zero_le j) hj, hrecord⟩, hw⟩
      · rintro w ⟨hw, hno⟩
        refine ⟨hw, fun hfinds => hfinds.elim ?_ fun hp => ?_⟩
        · rintro ⟨-, -, -, j, -, hfree', hbefore', hrecord⟩
          -- the first free bit is the one that was found
          rcases Nat.lt_trichotomy i j with hlt | heq | hlt
          · exact hbefore' i hlt hfree
          · exact hno (heq ▸ hrecord)
          · exact hbefore j (Nat.zero_le j) hlt hfree'
        · exact hp.1.2.elim hnone fun hrest => hrest.2 i hi hfree

/-- An inode is allocated if there is one, and counted in the superblock. -/
theorem allocateInodeWithMode_ends (hsectors : 4 ≤ v.sectorCount) (mode : Nat) :
    (allocateInodeWithMode mode v).Ends
      (fun _ w => v.HasFreeInode ∧ w.superblock.freeInodeCount ≠ v.superblock.freeInodeCount)
      fun w => w = v ∧ ¬v.HasFreeInode := by
  unfold allocateInodeWithMode
  rw [get_bind]
  refine ends_require (fun hno => ⟨rfl, fun hf => hno hf.counts⟩) fun hcounts => ?_
  refine ends_bind (blockSize_ends v) nofun ?_
  rintro _ w ⟨rfl, rfl, hsize⟩
  refine ends_require (fun hno => ⟨rfl, fun hf => hno hf.size⟩) fun hle => ?_
  have h := blockSized_of_le hsize hle
  rw [bind_done (divide_done hcounts.2.1)]
  refine ends_mono (allocateInodeFrom_ends hsize h hsectors mode _ 0) ?_ ?_
  · rintro _ u ⟨hfinds, hu⟩
    refine ⟨⟨hcounts, hle, hfinds⟩, ?_⟩
    have hlt : w.superblock.freeInodeCount < 2 ^ 32 := get32_lt _ _
    have hpos := hcounts.2.2
    have hnew : u.superblock.freeInodeCount = w.superblock.freeInodeCount - 1 := by
      rw [hu]
      show get32 (put32 _ 16 _) 16 = _
      rw [get32_put32]
      exact Nat.mod_eq_of_lt (by omega)
    omega
  · exact fun u hu => ⟨hu.1, fun hf => hu.2 hf.group⟩

end

/-! ## Creations -/

/-- `ext2_vnode_create` and `ext2_vnode_mkdir`. -/
inductive Creation where
  | create
  | mkdir

def Creation.perform : Creation → Nat → Inode → Name → Effect Volume Vnode
  | .create => vnodeCreate
  | .mkdir => vnodeMkdir

/-- What a creation that fails should leave as it was: the bitmaps, the counts in the superblock
and in the groups, the link count and the contents of the directory. -/
structure LeftAlone (directoryNumber : Nat) (directory : Inode) (v w : Volume) : Prop where
  inodeBits : ∀ g i, w.inodeBit g i = v.inodeBit g i
  blockBits : ∀ g i, w.bitmapBit g i = v.bitmapBit g i
  freeInodes : w.superblock.freeInodeCount = v.superblock.freeInodeCount
  freeBlocks : w.superblock.freeBlockCount = v.superblock.freeBlockCount
  groups : ∀ g, (w.descriptor g).freeBlocksCount = (v.descriptor g).freeBlocksCount ∧
    (w.descriptor g).freeInodesCount = (v.descriptor g).freeInodesCount ∧
    (w.descriptor g).usedDirsCount = (v.descriptor g).usedDirsCount
  links : (w.inodeRecord directoryNumber).linkCount = (v.inodeRecord directoryNumber).linkCount
  contents : ∀ i < 12, ∀ x, w.block (directory.block i) x = v.block (directory.block i) x

/-- A lookup finds the name. -/
def NameExists (directory : Inode) (name : Name) (v : Volume) : Prop :=
  ∃ node w, vnodeLookup directory name v = .done node w

/-- A name that `ext2_vnode_mkdir` takes. -/
def Creation.Takes : Creation → Name → Prop
  | .create, _ => True
  | .mkdir, name => (name.length ≠ 0 ∧ name.length ≤ 255) ∧ name ≠ [46] ∧ name ≠ [46, 46]

/-- The creation is turned down before it has an inode. -/
def Creation.Rejects (kind : Creation) (directory : Inode) (name : Name) (v : Volume) : Prop :=
  ¬kind.Takes name ∨ NameExists directory name v ∨ ¬v.HasFreeInode

section
variable {v w : Volume} {directoryNumber : Nat} {directory : Inode} {name : Name} {kind : Creation}

/-- Only memory has been asked for. -/
def SameStore (v w : Volume) : Prop := ∃ kmallocs, w = { v with kmallocs }

theorem SameStore.leftAlone (h : SameStore v w) : LeftAlone directoryNumber directory v w := by
  obtain ⟨kmallocs, rfl⟩ := h
  exact ⟨fun _ _ => rfl, fun _ _ => rfl, rfl, rfl, fun _ => ⟨rfl, rfl, rfl⟩, rfl,
    fun _ _ _ => rfl⟩

theorem SameStore.hasRecord (h : SameStore v w) {n : Nat} : w.HasRecord n ↔ v.HasRecord n := by
  obtain ⟨kmallocs, rfl⟩ := h
  exact ⟨fun h => ⟨h.number, h.size, h.descriptor, h.inside, h.block⟩,
    fun h => ⟨h.number, h.size, h.descriptor, h.inside, h.block⟩⟩

theorem SameStore.offers (h : SameStore v w) {g : Nat} : w.Offers g ↔ v.Offers g := by
  have hrecord : ∀ n, w.HasRecord n ↔ v.HasRecord n := fun n => h.hasRecord
  obtain ⟨kmallocs, rfl⟩ := h
  refine and_congr Iff.rfl (and_congr Iff.rfl (and_congr Iff.rfl (exists_congr fun i => ?_)))
  exact and_congr Iff.rfl (and_congr Iff.rfl (and_congr Iff.rfl (hrecord _)))

theorem SameStore.hasFreeInode (h : SameStore v w) : w.HasFreeInode ↔ v.HasFreeInode := by
  have hoffers : ∀ g, w.Offers g ↔ v.Offers g := fun g => h.offers
  obtain ⟨kmallocs, rfl⟩ := h
  have hfinds : Volume.Finds { v with kmallocs } 0 (inodeGroupCount v.superblock) ↔
      v.Finds 0 (inodeGroupCount v.superblock) :=
    exists_congr fun k => and_congr Iff.rfl (and_congr Iff.rfl (and_congr (hoffers k) Iff.rfl))
  exact ⟨fun h => ⟨h.counts, h.size, hfinds.mp h.group⟩,
    fun h => ⟨h.counts, h.size, hfinds.mpr h.group⟩⟩

theorem sameStore_vnodeLookup (v : Volume) (directory : Inode) (name : Name) :
    (vnodeLookup directory name v).Ends (fun _ => SameStore v) (SameStore v) := by
  refine vnodeLookup_stays (fun u kmallocs hu => ?_) directory name v ⟨v.kmallocs, rfl⟩
  obtain ⟨_, rfl⟩ := hu
  exact ⟨kmallocs, rfl⟩

/-! ## The steps behind the inode -/

/-- There was an inode, and it is no longer counted as free. -/
def TakesInode (v w : Volume) : Prop :=
  v.HasFreeInode ∧ w.superblock.freeInodeCount ≠ v.superblock.freeInodeCount

/-- Either that, or there was none. -/
def TakesOne (v w : Volume) : Prop := TakesInode v w ∨ w = v ∧ ¬v.HasFreeInode

/-- An inode, and steps that leave the count alone. -/
theorem takesOne_bind {α β : Type} {m : Effect Volume α} {rest : α → Effect Volume β}
    (hm : (m v).Ends (fun _ => TakesInode v) (TakesOne v))
    (hrest : ∀ a count, Stays (Volume.CountsInodes count) (rest a)) :
    ((m >>= rest) v).Ends (fun _ => TakesInode v) (TakesOne v) := by
  refine ends_bind hm (fun _ hw => hw) fun a w hw => ?_
  have hstays := hrest a w.superblock.freeInodeCount w rfl
  have htakes : ∀ u : Volume, u.CountsInodes w.superblock.freeInodeCount → TakesInode v u := by
    intro u hu
    refine ⟨hw.1, fun heq => hw.2 ?_⟩
    exact hu.symm.trans heq
  exact ends_mono hstays (fun _ u hu => htakes u hu) fun u hu => .inl (htakes u hu)

theorem allocateInodeWithMode_takes (hsectors : 4 ≤ v.sectorCount) (mode : Nat) :
    (allocateInodeWithMode mode v).Ends (fun _ => TakesInode v) (TakesOne v) :=
  ends_mono (allocateInodeWithMode_ends hsectors mode) (fun _ _ hw => hw) fun _ hw => .inr hw

theorem prepareDirectory_takes (hsectors : 4 ≤ v.sectorCount) (parent : Nat) :
    (prepareDirectory parent v).Ends (fun _ => TakesInode v) (TakesOne v) := by
  refine takesOne_bind (allocateInodeWithMode_takes hsectors _) fun n count => ?_
  refine (readInode_stays n).bind fun child => Stays.get.bind fun v => ?_
  refine (blockSize_stays _).bind fun bs => Stays.require.bind fun _ => Stays.require.bind fun _ => ?_
  refine allocateDirectoryBlock_stays.bind fun block => (newDirectoryBlock_stays _ _ _).bind fun b => ?_
  refine (writeBlock_stays _ _ _).attempt.bind fun _ => ?_
  refine Stays.bind (.when (attempt_fail_stays (freeBlock_stays _))) fun _ => ?_
  refine (writeInode_stays _ _).attempt.bind fun _ => ?_
  refine Stays.bind (.when (attempt_fail_stays (freeBlock_stays _))) fun _ => ?_
  refine (divide_stays _ _).bind fun g => (readGroupDescriptor_stays g).bind fun d => ?_
  exact Stays.require.bind fun _ => (writeGroupDescriptor_stays _ _).bind fun _ => .pure

/-! ## How a creation ends -/

/-- A creation that fails has left the volume alone, or it has taken an inode. -/
def Creation.Leaves (kind : Creation) (directory : Inode) (name : Name) (v w : Volume) : Prop :=
  (kind.Rejects directory name v ∧ SameStore v w) ∨
    (¬kind.Rejects directory name v ∧ w.superblock.freeInodeCount ≠ v.superblock.freeInodeCount)

/-- The check for an existing name, and what takes an inode. -/
theorem created_ends (kind : Creation) (htakes : kind.Takes name) (hsectors : 4 ≤ v.sectorCount)
    {m : Effect Volume Vnode}
    (hm : ∀ u, 4 ≤ u.sectorCount → (m u).Ends (fun _ => TakesInode u) (TakesOne u)) :
    ((do
      let existing ← attempt (vnodeLookup directory name)
      require (existing.isNone)
      m : Effect Volume Vnode) v).Ends (fun _ _ => True) (kind.Leaves directory name v) := by
  have hlookup := sameStore_vnodeLookup v directory name
  cases hend : vnodeLookup directory name v with
  | done node u =>
    have hsame : SameStore v u := ends_done (Q := fun _ => SameStore v) hlookup hend
    rw [bind_done (attempt_done hend), require_failed nofun]
    exact .inl ⟨.inr (.inl ⟨node, u, hend⟩), hsame⟩
  | failed u =>
    have hsame := ends_failed hlookup hend
    have hnew : ¬NameExists directory name v := by
      rintro ⟨node, w, hdone⟩
      rw [hend] at hdone
      cases hdone
    have hnone : (none : Option Vnode).isNone = true := rfl
    rw [bind_done (attempt_failed hend), require_bind hnone]
    have hfree := hsame.hasFreeInode
    obtain ⟨kmallocs, rfl⟩ := id hsame
    refine ends_mono (hm _ hsectors) (fun _ _ _ => trivial) ?_
    rintro w (⟨hu, htaken⟩ | ⟨rfl, hnone⟩)
    · refine .inr ⟨?_, htaken⟩
      rintro (hname | hold | hno)
      · exact hname htakes
      · exact hnew hold
      · exact hno (hfree.mp hu)
    · exact .inl ⟨.inr (.inr fun hv => hnone (hfree.mpr hv)), hsame⟩
  | fault =>
    rw [bind_fault (attempt_fault hend)]
    trivial

theorem Creation.perform_ends (hsectors : 4 ≤ v.sectorCount) (kind : Creation)
    (directoryNumber : Nat) (directory : Inode) (name : Name) :
    (kind.perform directoryNumber directory name v).Ends (fun _ _ => True)
      (kind.Leaves directory name v) := by
  have hcount : ∀ count (u : Volume) kmallocs, u.CountsInodes count →
      Volume.CountsInodes count { u with kmallocs } := fun _ _ _ h => h
  cases kind with
  | create =>
    refine created_ends .create trivial hsectors fun u hu => ?_
    refine takesOne_bind (allocateInodeWithMode_takes hu _) fun n count => ?_
    exact (linkNewChild_stays _ _ _ _ _).bind fun _ => vnodeLookup_stays (hcount count) _ _
  | mkdir =>
    refine ends_require (fun hno => .inl ⟨.inl fun h => hno h.1, v.kmallocs, rfl⟩) fun hlength => ?_
    refine ends_require (fun hno => .inl ⟨.inl fun h => hno h.2, v.kmallocs, rfl⟩) fun hdots => ?_
    refine created_ends .mkdir ⟨hlength, hdots⟩ hsectors fun u hu => ?_
    refine takesOne_bind (prepareDirectory_takes hu _) fun r count => ?_
    refine (linkNewChild_stays _ _ _ _ _).attempt.bind fun linked => Stays.bind (.when ?_) fun _ => ?_
    · refine Stays.bind (.when ?_) fun _ => .fail
      exact (writeGroupDescriptor_stays _ _).attempt.bind fun _ => .pure
    · exact vnodeLookup_stays (hcount count) _ _

/-- A creation that fails has left the volume alone if it was turned down before it had an inode,
and only then: no step gives the inode back. -/
theorem creation_leftAlone_iff {v w : Volume} (kind : Creation) (directoryNumber : Nat)
    (directory : Inode) (name : Name) (hsectors : 4 ≤ v.sectorCount)
    (hfailed : kind.perform directoryNumber directory name v = .failed w) :
    LeftAlone directoryNumber directory v w ↔ kind.Rejects directory name v := by
  have hleaves := ends_failed (kind.perform_ends hsectors directoryNumber directory name) hfailed
  rcases hleaves with ⟨hrejects, hsame⟩ | ⟨hrejects, hcount⟩
  · exact iff_of_true hsame.leftAlone hrejects
  · exact iff_of_false (fun h => hcount h.freeInodes) hrejects

/-- The root directory has a name already. -/
theorem rootedVolume_leftAlone : ∃ w,
    Creation.create.perform 2 (rootedVolume.inodeRecord 2) [46] rootedVolume = .failed w ∧
    LeftAlone 2 (rootedVolume.inodeRecord 2) rootedVolume w := by
  have hfails : (Creation.create.perform 2 (rootedVolume.inodeRecord 2) [46] rootedVolume).fails
      (fun _ => true) = true := by
    decide +kernel
  have hexists : (vnodeLookup (rootedVolume.inodeRecord 2) [46] rootedVolume).returns
      (fun _ _ => true) = true := by
    decide +kernel
  obtain ⟨w, hfailed, -⟩ := Ending.exists_failed hfails
  obtain ⟨node, u, hlookup, -⟩ := Ending.exists_done hexists
  exact ⟨w, hfailed, (creation_leftAlone_iff .create 2 _ [46] (by decide) hfailed).mpr
    (.inr (.inl ⟨node, u, hlookup⟩))⟩

/-- Every block is in use. -/
def fullVolume : Volume :=
  let words := [(1036, 0), (2060, 6 * 65536), (3072, 2 ^ 32 - 1), (3076, 2 ^ 32 - 1)]
  { rootedVolume with
    image := words.foldr (fun word image => put32 image word.1 word.2) rootedVolume.image
    superblock := rootedVolume.superblock.setFreeBlockCount 0 }

/-- Without a free block `ext2_vnode_mkdir` fails, and inode 11 stays in use. -/
theorem fullVolume_touched : ∃ w,
    Creation.mkdir.perform 2 (fullVolume.inodeRecord 2) [97] fullVolume = .failed w ∧
    fullVolume.inodeUsed 11 = false ∧ w.inodeUsed 11 = true ∧
    ¬LeftAlone 2 (fullVolume.inodeRecord 2) fullVolume w := by
  have hfails : (Creation.mkdir.perform 2 (fullVolume.inodeRecord 2) [97] fullVolume).fails
      (fun w => w.inodeUsed 11 = true ∧ w.superblock.freeInodeCount = 5) = true := by
    decide +kernel
  have hbefore : fullVolume.inodeUsed 11 = false ∧ fullVolume.superblock.freeInodeCount = 6 := by
    decide +kernel
  obtain ⟨w, hfailed, hafter⟩ := Ending.exists_failed hfails
  obtain ⟨hused, hcount⟩ := of_decide_eq_true hafter
  refine ⟨w, hfailed, hbefore.1, hused, fun h => ?_⟩
  have hsame := h.freeInodes
  rw [hcount, hbefore.2] at hsame
  cases hsame

end

end MeatySkeleton.Ext2
