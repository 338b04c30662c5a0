import MeatySkeleton.Ext2.Blocks

/-!
# Accesses within bounds

No function divides by zero, shifts too far or leaves an array, whatever the blocks of the
volume hold, if the superblock is one that mounting accepts (`Accepted`) and its groups fit
their bitmaps. The superblock in memory changes in its two counts only.
-/

namespace MeatySkeleton.Ext2

open Lib Lib.Effect

variable {σ : Type} {I : σ → Prop}

/-! ## Primitives -/

theorem divide_keeps {a b : Nat} (h : b ≠ 0) : Keeps I (divide a b) fun r => r = a / b :=
  .demand h (.pure rfl)

theorem modulo_keeps {a b : Nat} (h : b ≠ 0) : Keeps I (modulo a b) fun r => r = a % b :=
  .demand h (.pure rfl)

section
variable {b : Buffer} {i v n : Nat}

theorem get8_keeps (h : i < b.size) : Keeps I (b.get8 i) fun r => r = (b.bytes i).toNat :=
  .demand h (.pure rfl)

theorem get16_keeps (h : i + 2 ≤ b.size) :
    Keeps I (b.get16 i) fun r => r = Lib.get16 b.bytes i :=
  .demand h (.pure rfl)

theorem get32_keeps (h : i + 4 ≤ b.size) :
    Keeps I (b.get32 i) fun r => r = Lib.get32 b.bytes i :=
  .demand h (.pure rfl)

theorem put8_keeps (h : i < b.size) : Keeps I (b.put8 i v) fun r => r.size = b.size :=
  .demand h (.pure rfl)

theorem put16_keeps (h : i + 2 ≤ b.size) : Keeps I (b.put16 i v) fun r => r.size = b.size :=
  .demand h (.pure rfl)

theorem put32_keeps (h : i + 4 ≤ b.size) : Keeps I (b.put32 i v) fun r => r.size = b.size :=
  .demand h (.pure rfl)

theorem fill_keeps {byte : UInt8} (h : i + n ≤ b.size) :
    Keeps I (b.fill i n byte) fun r => r.size = b.size :=
  .demand h (.pure rfl)

theorem slice_keeps (h : i + n ≤ b.size) : Keeps I (b.slice i n) fun _ => True :=
  .demand h (.pure trivial)

theorem store_keeps {source : Mem} (h : i + n ≤ b.size) :
    Keeps I (b.store i source n) fun r => r.size = b.size :=
  .demand h (.pure rfl)

end

/-! ## Superblocks -/

/-- What a superblock has to be for the root inode to be read. -/
structure Accepted (sb : Superblock) : Prop where
  blocks : sb.logBlockSize ≤ 2
  inodes : sb.inodesPerGroup ≠ 0

/-- The sizes a block may have. -/
def BlockSized (blockSize : Nat) : Prop := blockSize = 1024 ∨ blockSize = 2048 ∨ blockSize = 4096

variable {sb : Superblock}

theorem blockSize_value (h : sb.logBlockSize < 32) :
    Keeps I sb.blockSize fun r => r = u32 (1024 * 2 ^ sb.logBlockSize) :=
  .demand h (.pure rfl)

theorem blockSize_log (h : Accepted sb) :
    Keeps I sb.blockSize fun r => BlockSized r ∧ (r = 4096 → sb.logBlockSize = 2) := by
  have hlog := h.blocks
  refine (blockSize_value (by omega)).mono fun r hr => ?_
  subst hr
  obtain h | h | h : sb.logBlockSize = 0 ∨ sb.logBlockSize = 1 ∨ sb.logBlockSize = 2 := by omega
  · rw [h]
    unfold BlockSized
    decide
  · rw [h]
    unfold BlockSized
    decide
  · rw [h]
    unfold BlockSized
    decide

theorem blockSize_keeps (h : Accepted sb) : Keeps I sb.blockSize BlockSized :=
  (blockSize_log h).mono fun _ hr => hr.1

/-- The groups of inodes that `ext2_allocate_inode_with_mode` goes through. -/
def inodeGroupCount (sb : Superblock) : Nat :=
  u32 (sb.inodeCount + sb.inodesPerGroup + 2 ^ 32 - 1) / sb.inodesPerGroup

/-- The groups of blocks that `ext2_allocate_block` goes through. -/
def blockGroupCount (sb : Superblock) : Nat :=
  u32 (u32sub sb.blockCount sb.firstDataBlock + sb.blocksPerGroup + 2 ^ 32 - 1) / sb.blocksPerGroup

/-- The bits a bitmap array has. -/
def bitmapBits : Nat := 32768

/-- No group has more inodes than its bitmap has bits. -/
def InodesFit (sb : Superblock) : Prop :=
  ∀ group < inodeGroupCount sb, inodesInGroup sb group ≤ bitmapBits

/-- No group that blocks are allocated in has more of them than its bitmap has bits. -/
structure BlocksFit (sb : Superblock) : Prop where
  nonempty : sb.blocksPerGroup ≠ 0
  groups : ∀ group < blockGroupCount sb, blocksInGroup sb group ≤ bitmapBits

/-- Nor has a block that is freed a bit behind its bitmap. -/
def FreedFit (sb : Superblock) : Prop :=
  sb.blocksPerGroup ≠ 0 → ∀ block, sb.firstDataBlock ≤ block → block < sb.blockCount →
    (block - sb.firstDataBlock) % sb.blocksPerGroup < bitmapBits

/-! ## The device -/

/-- The superblock in memory is `sb` up to its two counts. As long as a count is not zero, and
blocks or inodes may be allocated, `A` or `B` holds. -/
structure Guarded (sb : Superblock) (A B : Prop) (v : Volume) : Prop where
  superblock : Within sb v.superblock 12 20
  blocks : v.superblock.freeBlockCount ≠ 0 → A
  inodes : v.superblock.freeInodeCount ≠ 0 → B

variable {A B : Prop}

section
variable {sb sb' : Superblock} {v : Volume} {b : Buffer} {n blockSize offset : Nat}

/-- The fields that no function changes. -/
structure SameGeometry (sb sb' : Superblock) : Prop where
  inodeCount : sb'.inodeCount = sb.inodeCount
  blockCount : sb'.blockCount = sb.blockCount
  firstDataBlock : sb'.firstDataBlock = sb.firstDataBlock
  logBlockSize : sb'.logBlockSize = sb.logBlockSize
  blocksPerGroup : sb'.blocksPerGroup = sb.blocksPerGroup
  inodesPerGroup : sb'.inodesPerGroup = sb.inodesPerGroup

theorem SameGeometry.trans {sb'' : Superblock} (h : SameGeometry sb sb')
    (h' : SameGeometry sb' sb'') :
    SameGeometry sb sb'' where
  inodeCount := h'.inodeCount.trans h.inodeCount
  blockCount := h'.blockCount.trans h.blockCount
  firstDataBlock := h'.firstDataBlock.trans h.firstDataBlock
  logBlockSize := h'.logBlockSize.trans h.logBlockSize
  blocksPerGroup := h'.blocksPerGroup.trans h.blocksPerGroup
  inodesPerGroup := h'.inodesPerGroup.trans h.inodesPerGroup

theorem Guarded.geometry (h : Guarded sb A B v) : SameGeometry sb v.superblock where
  inodeCount := h.superblock.get32 (.inl (by decide))
  blockCount := h.superblock.get32 (.inl (by decide))
  firstDataBlock := h.superblock.get32 (.inr (by decide))
  logBlockSize := h.superblock.get32 (.inr (by decide))
  blocksPerGroup := h.superblock.get32 (.inr (by decide))
  inodesPerGroup := h.superblock.get32 (.inr (by decide))

theorem Guarded.setFreeInodeCount (h : Guarded sb A B v) (hB : B) (n : Nat) :
    Guarded sb A B { v with superblock := v.superblock.setFreeInodeCount n } where
  superblock := h.superblock.trans ((put32_within _ _ _).mono (by decide) (by decide))
  inodes := fun _ => hB
  blocks := fun hne => h.blocks fun hz => hne <| by
    have hcount : (v.superblock.setFreeInodeCount n).freeBlockCount = v.superblock.freeBlockCount :=
      (put32_within v.superblock 16 n).get32 (.inl (by decide))
    exact hcount.trans hz

theorem Guarded.setFreeBlockCount (h : Guarded sb A B v) (hA : A) (n : Nat) :
    Guarded sb A B { v with superblock := v.superblock.setFreeBlockCount n } where
  superblock := h.superblock.trans ((put32_within _ _ _).mono (by decide) (by decide))
  blocks := fun _ => hA
  inodes := fun hne => h.inodes fun hz => hne <| by
    have hcount : (v.superblock.setFreeBlockCount n).freeInodeCount = v.superblock.freeInodeCount :=
      (put32_within v.superblock 12 n).get32 (.inr (by decide))
    exact hcount.trans hz

/-- What was accepted at mounting stays so. -/
theorem Accepted.guarded (hsb : Accepted sb) (h : Guarded sb A B v) : Accepted v.superblock where
  blocks := by
    rw [h.geometry.logBlockSize]
    exact hsb.blocks
  inodes := by
    rw [h.geometry.inodesPerGroup]
    exact hsb.inodes

theorem BlockSized.le (h : BlockSized blockSize) : 1024 ≤ blockSize ∧ blockSize ≤ 4096 := by
  unfold BlockSized at h
  omega

variable {J : Volume → Prop}

/-- The transfer ends inside the array. -/
theorem blockRead_keeps {lba count : Nat} (h : offset + count * 512 ≤ b.size) :
    Keeps J (blockRead lba count b offset) fun r => r.size = b.size :=
  Keeps.get.bind fun _ _ =>
    .require fun _ => .require fun _ => .require fun _ => .require fun _ => .demand h (.pure rfl)

theorem blockWrite_keeps {lba count : Nat} (h : offset + count * 512 ≤ b.size) :
    Keeps (Guarded sb A B) (blockWrite lba count b offset) fun _ => True :=
  Keeps.get.bind fun _ _ =>
    .require fun _ => .require fun _ => .require fun _ => .require fun _ =>
      .demand h (.modify fun _ hv => ⟨hv.superblock, hv.blocks, hv.inodes⟩)

theorem readBlock_keeps (h : blockSize ≤ b.size) :
    Keeps J (readBlock blockSize n b) fun r => r.size = b.size :=
  .require fun _ => .require fun hsectors => blockRead_keeps (by omega)

theorem writeBlock_keeps (h : offset + blockSize ≤ b.size) :
    Keeps (Guarded sb A B) (writeBlock blockSize n b offset) fun _ => True :=
  .require fun _ => .require fun hsectors => blockWrite_keeps (by omega)

theorem writeSuperblock_keeps : Keeps (Guarded sb A B) writeSuperblock fun _ => True := by
  refine Keeps.get.bind fun v _ => ?_
  have hroom : 0 + 2 * 512 ≤ 1024 := by decide
  refine (blockRead_keeps hroom).bind fun buffer hsize => ?_
  replace hsize : buffer.size = 1024 := hsize
  refine (store_keeps ?_).bind fun buffer' hsize' => blockWrite_keeps ?_
  · rw [hsize]
    decide
  · exact Nat.le_of_eq (hsize'.trans hsize).symm

theorem descriptorIndex_bound (hsize : BlockSized blockSize) (group : Nat) :
    group % (blockSize / GroupDescriptor.bytes) * GroupDescriptor.bytes + GroupDescriptor.bytes ≤
      4096 := by
  unfold GroupDescriptor.bytes
  have hpos : 0 < blockSize / 32 := by
    unfold BlockSized at hsize
    omega
  have hlt := Nat.mod_lt group hpos
  have hle := hsize.le
  omega

/-- Reading keeps every invariant. -/
theorem readGroupDescriptor_any (hJ : ∀ v, J v → Guarded sb A B v)
    (hsb : Accepted sb) (group : Nat) : Keeps J (readGroupDescriptor group) fun _ => True := by
  refine Keeps.get.bind fun v hv => ?_
  refine (blockSize_keeps (hsb.guarded (hJ v hv))).bind fun blockSize hsize => ?_
  refine .require fun _ => .require fun hle => ?_
  refine (readBlock_keeps hle).bind fun block hblock => slice_keeps ?_
  rw [hblock]
  exact descriptorIndex_bound hsize group

theorem readGroupDescriptor_keeps (hsb : Accepted sb) (group : Nat) :
    Keeps (Guarded sb A B) (readGroupDescriptor group) fun _ => True :=
  readGroupDescriptor_any (fun _ hv => hv) hsb group

theorem writeGroupDescriptor_keeps (hsb : Accepted sb) (group : Nat) (d : GroupDescriptor) :
    Keeps (Guarded sb A B) (writeGroupDescriptor group d) fun _ => True := by
  refine Keeps.get.bind fun v hv => ?_
  refine (blockSize_keeps (hsb.guarded hv)).bind fun blockSize hsize => ?_
  refine .require fun hle => .require fun _ => ?_
  refine (readBlock_keeps hle).bind fun block hblock => ?_
  refine (store_keeps ?_).bind fun block' hblock' => writeBlock_keeps ?_
  · rw [hblock]
    exact descriptorIndex_bound hsize group
  · rw [hblock', hblock, Nat.zero_add]
    exact hle

end

/-! ## Inodes -/

section
variable {sb : Superblock} {b : Buffer} {bit : Nat}

theorem bitmap_bound (hb : b.size = 4096) (hbit : bit < bitmapBits) : bit / 8 < b.size := by
  unfold bitmapBits at hbit
  omega

theorem testBit_keeps {I : Volume → Prop} (hb : b.size = 4096) (hbit : bit < bitmapBits) :
    Keeps I (testBit b bit) fun _ => True :=
  (get8_keeps (bitmap_bound hb hbit)).bind fun _ _ => .pure trivial

theorem setBit_keeps {I : Volume → Prop} (hb : b.size = 4096) (hbit : bit < bitmapBits) :
    Keeps I (setBit b bit) fun r => r.size = 4096 :=
  (get8_keeps (bitmap_bound hb hbit)).bind fun _ _ =>
    (put8_keeps (bitmap_bound hb hbit)).mono fun _ hr => hr.trans hb

theorem clearBit_keeps {I : Volume → Prop} (hb : b.size = 4096) (hbit : bit < bitmapBits) :
    Keeps I (clearBit b bit) fun r => r.size = 4096 :=
  (get8_keeps (bitmap_bound hb hbit)).bind fun _ _ =>
    (put8_keeps (bitmap_bound hb hbit)).mono fun _ hr => hr.trans hb

/-- The place of a record is computed. -/
theorem inodePlace_keeps {I : Volume → Prop} {sb : Superblock} {d : GroupDescriptor}
    {blockSize index : Nat} (h : BlockSized blockSize) :
    Keeps I (inodePlace sb d blockSize index) fun _ => True := by
  have hne : blockSize ≠ 0 := by
    have hle := h.le
    omega
  exact (divide_keeps hne).bind fun _ _ => (modulo_keeps hne).bind fun _ _ => .pure trivial

theorem readInode_any {J : Volume → Prop} (hJ : ∀ v, J v → Guarded sb A B v) (hsb : Accepted sb)
    (n : Nat) : Keeps J (readInode n) fun _ => True := by
  refine Keeps.get.bind fun v hv => ?_
  have haccepted := hsb.guarded (hJ v hv)
  refine .require fun _ => (blockSize_keeps haccepted).bind fun blockSize hsize => ?_
  refine (divide_keeps haccepted.inodes).bind fun group _ => ?_
  refine (modulo_keeps haccepted.inodes).bind fun index _ => ?_
  refine (readGroupDescriptor_any hJ hsb group).bind fun d _ => ?_
  refine (inodePlace_keeps hsize).bind fun place _ => ?_
  refine .require fun hfits => .require fun hle => ?_
  refine (readBlock_keeps hle).bind fun block hblock => slice_keeps ?_
  rw [hblock]
  exact Nat.le_trans hfits hle

theorem readInode_keeps (hsb : Accepted sb) (n : Nat) :
    Keeps (Guarded sb A B) (readInode n) fun _ => True :=
  readInode_any (fun _ hv => hv) hsb n

/-- The record ends inside the block. -/
theorem writeInode_keeps (hsb : Accepted sb) (n : Nat) (inode : Inode) :
    Keeps (Guarded sb A B) (writeInode n inode) fun _ => True := by
  refine Keeps.get.bind fun v hv => ?_
  have haccepted := hsb.guarded hv
  refine .require fun _ => (blockSize_keeps haccepted).bind fun blockSize hsize => ?_
  refine .require fun hle => ?_
  refine (divide_keeps haccepted.inodes).bind fun group _ => ?_
  refine (modulo_keeps haccepted.inodes).bind fun index _ => ?_
  refine (readGroupDescriptor_keeps hsb group).bind fun d _ => ?_
  refine (inodePlace_keeps hsize).bind fun place _ => ?_
  refine .require fun hfits => ?_
  refine (readBlock_keeps hle).bind fun block hblock => ?_
  refine (store_keeps ?_).bind fun block' hblock' => writeBlock_keeps ?_
  · rw [hblock]
    exact Nat.le_trans hfits hle
  · rw [hblock', hblock, Nat.zero_add]
    exact hle

theorem initializeNewInode_keeps (hsb : Accepted sb) (n mode : Nat) :
    Keeps (Guarded sb A B) (initializeNewInode n mode) fun _ => True := by
  refine Keeps.get.bind fun v hv => ?_
  have haccepted := hsb.guarded hv
  refine .require fun _ => (blockSize_keeps haccepted).bind fun blockSize hsize => ?_
  refine .require fun hle => .require fun hrecord => ?_
  refine (divide_keeps haccepted.inodes).bind fun group _ => ?_
  refine (modulo_keeps haccepted.inodes).bind fun index _ => ?_
  refine (readGroupDescriptor_keeps hsb group).bind fun d _ => ?_
  refine (inodePlace_keeps hsize).bind fun place _ => ?_
  refine .require fun hfits => ?_
  refine (readBlock_keeps hle.2).bind fun block hblock => ?_
  replace hblock : block.size = 4096 := hblock
  unfold Inode.bytes at hrecord
  refine (fill_keeps ?_).bind fun block' hblock' => ?_
  · omega
  refine (put16_keeps ?_).bind fun block'' hblock'' => writeBlock_keeps ?_
  · omega
  · omega

/-- No bit behind the bitmap is tested or returned. -/
theorem findFreeInode_keeps {I : Volume → Prop} (hb : b.size = 4096) {first left bit : Nat}
    (hbits : bit + left ≤ bitmapBits) :
    Keeps I (findFreeInode sb b first left bit) fun r => ∀ found ∈ r, found < bitmapBits := by
  induction left generalizing bit with
  | zero => exact .pure nofun
  | succ left ih =>
    have hrest := @ih (bit + 1) (by omega)
    refine .ite (fun _ => hrest) fun _ => ?_
    refine (testBit_keeps hb (by omega)).bind fun used _ => ?_
    refine .ite (fun _ => hrest) fun _ => .pure fun found hfound => ?_
    obtain rfl := Option.some.inj hfound
    omega

/-- The groups of inodes are those of the superblock that was accepted. -/
theorem inodesInGroup_guarded {v : Volume} (h : Guarded sb A B v) (group : Nat) :
    inodesInGroup v.superblock group = inodesInGroup sb group := by
  unfold inodesInGroup
  rw [h.geometry.inodesPerGroup, h.geometry.inodeCount]

theorem allocateInodeFrom_keeps (hsb : Accepted sb) (hfit : InodesFit sb) (hB : B)
    {blockSize mode : Nat}
    (hsize : blockSize ≤ 4096) {left group : Nat} (hgroups : group + left ≤ inodeGroupCount sb) :
    Keeps (Guarded sb A B) (allocateInodeFrom blockSize mode left group) fun _ => True := by
  induction left generalizing group with
  | zero => exact .fail
  | succ left ih =>
    have hrest := @ih (group + 1) (by omega)
    refine Keeps.get.bind fun v hv => (readGroupDescriptor_keeps hsb group).bind fun d _ => ?_
    refine .ite (fun _ => hrest) fun _ => ?_
    refine (readBlock_keeps hsize).bind fun bitmap hbitmap => ?_
    replace hbitmap : bitmap.size = 4096 := hbitmap
    have hbits : 0 + inodesInGroup v.superblock group ≤ bitmapBits := by
      rw [Nat.zero_add, inodesInGroup_guarded hv]
      exact hfit group (by omega)
    refine (findFreeInode_keeps hbitmap hbits).bind fun found hfound => ?_
    cases found with
    | none => exact hrest
    | some bit =>
      refine (initializeNewInode_keeps hsb _ mode).bind fun _ _ => ?_
      refine (setBit_keeps hbitmap (hfound bit rfl)).bind fun bitmap' hbitmap' => ?_
      refine (writeBlock_keeps ?_).bind fun _ _ => ?_
      · rw [hbitmap', Nat.zero_add]
        exact hsize
      refine (writeGroupDescriptor_keeps hsb group _).bind fun _ _ => ?_
      refine (Keeps.modify ?_).bind fun _ _ => writeSuperblock_keeps.bind fun _ _ => .pure trivial
      exact fun v hv => hv.setFreeInodeCount hB _

/-- Safe where the groups fit, or no free inode is counted. -/
theorem allocateInodeWithMode_keeps (hsb : Accepted sb) (hfit : B → InodesFit sb) (mode : Nat) :
    Keeps (Guarded sb A B) (allocateInodeWithMode mode) fun _ => True := by
  refine Keeps.get.bind fun v hv => .require fun hfree => ?_
  have hB := hv.inodes hfree.2.2
  have haccepted := hsb.guarded hv
  refine (blockSize_keeps haccepted).bind fun blockSize hsize => .require fun _ => ?_
  refine (divide_keeps haccepted.inodes).bind fun groupCount hcount => ?_
  refine allocateInodeFrom_keeps hsb (hfit hB) hB hsize.le.2 ?_
  rw [hcount, hv.geometry.inodesPerGroup, hv.geometry.inodeCount, Nat.zero_add]
  exact Nat.le_refl _

end

/-! ## Blocks -/

section
variable {sb : Superblock}

/-- The bit of a block that is freed is one of its bitmap. -/
theorem freeBlock_keeps (hsb : Accepted sb) (hfit : FreedFit sb) (hA : A) (n : Nat) :
    Keeps (Guarded sb A B) (freeBlock n) fun _ => True := by
  refine Keeps.get.bind fun v hv => .require fun _ => ?_
  refine (blockSize_keeps (hsb.guarded hv)).bind fun blockSize hsize => ?_
  refine .require fun hle => .require fun hrange => ?_
  refine (divide_keeps hle.2.2).bind fun group _ => ?_
  refine (modulo_keeps hle.2.2).bind fun bit hbit => ?_
  have hbound : bit < bitmapBits := by
    have hnonempty := hle.2.2
    rw [hv.geometry.blocksPerGroup] at hnonempty
    rw [hv.geometry.firstDataBlock, hv.geometry.blockCount] at hrange
    rw [hbit, hv.geometry.firstDataBlock, hv.geometry.blocksPerGroup]
    exact hfit hnonempty n hrange.1 hrange.2
  refine (readGroupDescriptor_keeps hsb group).bind fun d _ => ?_
  refine (readBlock_keeps hle.2.1).bind fun bitmap hbitmap => ?_
  replace hbitmap : bitmap.size = 4096 := hbitmap
  refine (testBit_keeps hbitmap hbound).bind fun used _ => .require fun _ => ?_
  refine (clearBit_keeps hbitmap hbound).bind fun bitmap' hbitmap' => ?_
  refine (writeBlock_keeps ?_).bind fun _ _ => ?_
  · rw [hbitmap', Nat.zero_add]
    exact hle.2.1
  refine (writeGroupDescriptor_keeps hsb group _).bind fun _ _ => ?_
  refine (Keeps.modify ?_).bind fun _ _ => writeSuperblock_keeps
  exact fun v hv => hv.setFreeBlockCount hA _

/-- The bitmap in the context is an array of 4096 bytes. -/
structure GuardedAllocating (sb : Superblock) (A B : Prop) (s : Allocating) : Prop where
  volume : Guarded sb A B s.volume
  bitmap : s.context.bitmap.size = 4096

section
variable {α : Type} {Q : α → Prop}

theorem onVolume_keeps {m : Effect Volume α} (hm : Keeps (Guarded sb A B) m Q) :
    Keeps (GuardedAllocating sb A B) (onVolume m) Q :=
  hm.zoom (fun _ hs => hs.volume) fun _ _ hs hv => ⟨hv, hs.bitmap⟩

theorem setContext_keeps {c : AllocationContext} (h : c.bitmap.size = 4096) :
    Keeps (GuardedAllocating sb A B) (setContext c) fun _ => True :=
  .modify fun _ hs => ⟨hs.volume, h⟩

end

theorem flushAllocationContext_keeps (hsb : Accepted sb) :
    Keeps (GuardedAllocating sb A B) flushAllocationContext fun _ => True := by
  refine Keeps.get.bind fun s hs => .ite (fun _ => .pure trivial) fun _ => ?_
  refine (blockSize_keeps (hsb.guarded hs.volume)).bind fun blockSize hsize => ?_
  refine (onVolume_keeps (writeBlock_keeps ?_)).bind fun _ _ => ?_
  · rw [hs.bitmap, Nat.zero_add]
    exact hsize.le.2
  refine (onVolume_keeps (writeGroupDescriptor_keeps hsb _ _)).bind fun _ _ => ?_
  exact setContext_keeps hs.bitmap

variable {blockSize : Nat}

theorem loadGroup_keeps (hsb : Accepted sb) (hsize : blockSize ≤ 4096)
    (group : Nat) : Keeps (GuardedAllocating sb A B) (loadGroup blockSize group) fun _ => True := by
  refine Keeps.get.bind fun s _ => .ite (fun _ => ?_) fun _ => .pure trivial
  refine (flushAllocationContext_keeps hsb).bind fun _ _ => ?_
  refine (onVolume_keeps (readGroupDescriptor_keeps hsb group)).bind fun d _ => ?_
  refine (Keeps.modify fun _ hs => ⟨hs.volume, hs.bitmap⟩).bind fun _ _ => ?_
  refine .ite (fun _ => ?_) fun _ => ?_
  · exact (Keeps.modify fun _ hs => ⟨hs.volume, hs.bitmap⟩).bind fun _ _ => .pure trivial
  · refine Keeps.get.bind fun s hs => ?_
    have hroom : blockSize ≤ s.context.bitmap.size := by
      rw [hs.bitmap]
      exact hsize
    refine (onVolume_keeps (readBlock_keeps hroom)).bind fun bitmap hbitmap => ?_
    exact (Keeps.modify fun _ ht => ⟨ht.volume, hbitmap.trans hs.bitmap⟩).bind fun _ _ =>
      .pure trivial

/-- The search of a bitmap stays in its array. -/
theorem findFreeBlock_keeps {I : Volume → Prop} {b : Buffer} (hb : b.size = 4096) {left bit : Nat}
    (hbits : bit + left ≤ bitmapBits) :
    Keeps I (findFreeBlock b left bit) fun r => ∀ found ∈ r, found < bitmapBits := by
  induction left generalizing bit with
  | zero => exact .pure nofun
  | succ left ih =>
    refine (testBit_keeps hb (by omega)).bind fun used _ => ?_
    refine .ite (fun _ => @ih (bit + 1) (by omega)) fun _ => .pure fun found hfound => ?_
    obtain rfl := Option.some.inj hfound
    omega

theorem blocksInGroup_guarded {v : Volume} (h : Guarded sb A B v) (group : Nat) :
    blocksInGroup v.superblock group = blocksInGroup sb group := by
  unfold blocksInGroup groupFirstBlock
  rw [h.geometry.blocksPerGroup, h.geometry.blockCount, h.geometry.firstDataBlock]

/-- The search of the groups. -/
theorem allocateBlockFrom_keeps (hsb : Accepted sb) (hfit : BlocksFit sb) (hA : A)
    (hsize : blockSize ≤ 4096) {left group : Nat}
    (hgroups : group + left ≤ blockGroupCount sb) :
    Keeps (GuardedAllocating sb A B) (allocateBlockFrom blockSize left group) fun _ => True := by
  induction left generalizing group with
  | zero => exact .fail
  | succ left ih =>
    have hrest := @ih (group + 1) (by omega)
    refine (loadGroup_keeps hsb hsize group).bind fun loaded _ => ?_
    refine .ite (fun _ => hrest) fun _ => Keeps.get.bind fun s hs => ?_
    have hbits : 0 + blocksInGroup s.volume.superblock group ≤ bitmapBits := by
      rw [Nat.zero_add, blocksInGroup_guarded hs.volume]
      exact hfit.groups group (by omega)
    refine (onVolume_keeps (findFreeBlock_keeps hs.bitmap hbits)).bind fun found hfound => ?_
    cases found with
    | some bit =>
      refine (onVolume_keeps (setBit_keeps hs.bitmap (hfound bit rfl))).bind
        fun bitmap hbitmap => ?_
      refine (setContext_keeps hbitmap).bind fun _ _ => ?_
      refine (onVolume_keeps (.modify ?_)).bind fun _ _ => .pure trivial
      exact fun _ hv => hv.setFreeBlockCount hA _
    | none =>
      refine (flushAllocationContext_keeps hsb).bind fun _ _ => ?_
      exact (Keeps.modify fun _ hs => ⟨hs.volume, hs.bitmap⟩).bind fun _ _ => hrest

/-- A block is handed out only while the count of free ones is not zero. -/
theorem allocateBlock_keeps (hsb : Accepted sb) (hfit : A → BlocksFit sb) :
    Keeps (GuardedAllocating sb A B) allocateBlock fun _ => A := by
  refine Keeps.get.bind fun s hs => ?_
  refine (blockSize_keeps (hsb.guarded hs.volume)).bind fun blockSize hsize => ?_
  refine .require fun _ => .require fun hfree => ?_
  have hA := hs.volume.blocks hfree
  refine (divide_keeps ?_).bind fun groupCount hcount => ?_
  · rw [hs.volume.geometry.blocksPerGroup]
    exact (hfit hA).nonempty
  refine (allocateBlockFrom_keeps hsb (hfit hA) hA hsize.le.2 ?_).mono fun _ _ => hA
  rw [hcount, hs.volume.geometry.blocksPerGroup, hs.volume.geometry.blockCount,
    hs.volume.geometry.firstDataBlock, Nat.zero_add]
  exact Nat.le_refl _

/-! ## The block map -/

/-- The tables in a cache are arrays of 4096 bytes. -/
structure BlockCache.Arrays (c : BlockCache) : Prop where
  single : c.single.entries.size = 4096
  doubleRoot : c.doubleRoot.entries.size = 4096
  doubleLeaf : c.doubleLeaf.entries.size = 4096

/-- The state of a call on a file. -/
structure GuardedWorking (sb : Superblock) (A B : Prop) (s : Working) : Prop where
  allocating : GuardedAllocating sb A B s.allocating
  cache : s.cache.Arrays

section
variable {α : Type} {Q : α → Prop} {t : CachedTable} {blockSize n i : Nat}

theorem onAllocating_keeps {m : Effect Allocating α} (hm : Keeps (GuardedAllocating sb A B) m Q) :
    Keeps (GuardedWorking sb A B) (onAllocating m) Q :=
  hm.zoom (fun _ hs => hs.allocating) fun _ _ hs hv => ⟨hv, hs.cache⟩

theorem onDevice_keeps {m : Effect Volume α} (hm : Keeps (Guarded sb A B) m Q) :
    Keeps (GuardedWorking sb A B) (onDevice m) Q :=
  onAllocating_keeps (onVolume_keeps hm)

theorem setSingle_keeps (h : t.entries.size = 4096) :
    Keeps (GuardedWorking sb A B) (setSingle t) fun _ => True :=
  .modify fun _ hs => ⟨hs.allocating, ⟨h, hs.cache.doubleRoot, hs.cache.doubleLeaf⟩⟩

theorem setDoubleRoot_keeps (h : t.entries.size = 4096) :
    Keeps (GuardedWorking sb A B) (setDoubleRoot t) fun _ => True :=
  .modify fun _ hs => ⟨hs.allocating, ⟨hs.cache.single, h, hs.cache.doubleLeaf⟩⟩

theorem setDoubleLeaf_keeps (h : t.entries.size = 4096) :
    Keeps (GuardedWorking sb A B) (setDoubleLeaf t) fun _ => True :=
  .modify fun _ hs => ⟨hs.allocating, ⟨hs.cache.single, hs.cache.doubleRoot, h⟩⟩

theorem inodeBlock_keeps {I : Working → Prop} (h : i < 15) :
    Keeps I (inodeBlock i) fun _ => True :=
  .demand h (Keeps.get.bind fun _ _ => .pure trivial)

section

variable (ht : t.entries.size = 4096)

include ht

theorem entry_keeps {I : σ → Prop} (hi : i < 1024) :
    Keeps I (t.entry i) fun _ => True :=
  (get32_keeps (by omega)).mono fun _ _ => trivial

/-- A table of pointers fits its array. -/
theorem readTable_keeps (hsize : blockSize ≤ 4096) :
    Keeps (GuardedWorking sb A B) (onDevice (readBlock blockSize n t.entries)) fun r =>
      r.size = 4096 := by
  refine onDevice_keeps ((readBlock_keeps ?_).mono fun r hr => hr.trans ht)
  rw [ht]
  exact hsize

/-- A table is written from an array that holds a block. -/
theorem flushTable_keeps (hsize : blockSize ≤ 4096) :
    Keeps (Guarded sb A B) (flushTable blockSize t) fun r => r.entries.size = 4096 := by
  refine .ite (fun _ => (writeBlock_keeps ?_).bind fun _ _ => .pure ht) fun _ => .pure ht
  rw [ht, Nat.zero_add]
  exact hsize

theorem newTable_keeps {I : σ → Prop} (hsize : blockSize ≤ 4096) :
    Keeps I (newTable blockSize n t) fun r => r.entries.size = 4096 := by
  refine (fill_keeps ?_).bind fun b hb => .pure (hb.trans ht)
  rw [ht, Nat.zero_add]
  exact hsize

end

end

theorem flushBlockCache_keeps (hsb : Accepted sb) :
    Keeps (GuardedWorking sb A B) flushBlockCache fun _ => True := by
  refine Keeps.get.bind fun s hs => ?_
  refine (blockSize_keeps (hsb.guarded hs.allocating.volume)).bind fun blockSize hsize => ?_
  have hle := hsize.le.2
  refine (onDevice_keeps (flushTable_keeps hs.cache.single hle)).bind fun t ht => ?_
  refine (setSingle_keeps ht).bind fun _ _ => ?_
  refine (onDevice_keeps (flushTable_keeps hs.cache.doubleLeaf hle)).bind fun t ht => ?_
  refine (setDoubleLeaf_keeps ht).bind fun _ _ => ?_
  refine (onDevice_keeps (flushTable_keeps hs.cache.doubleRoot hle)).bind fun t ht => ?_
  exact setDoubleRoot_keeps ht

/-- An index of a table that has `blockSize / 4` entries. -/
theorem table_index {blockSize i : Nat} (hsize : BlockSized blockSize) (h : i < blockSize / 4) :
    i < 1024 := by
  have hle := hsize.le
  omega

/-- Every index of a look-up is inside its table. -/
theorem getDataBlock_keeps (hsb : Accepted sb) (n : Nat) :
    Keeps (GuardedWorking sb A B) (getDataBlock n) fun _ => True := by
  refine .ite (fun hn => inodeBlock_keeps (by omega)) fun _ => Keeps.get.bind fun s hs => ?_
  refine (blockSize_keeps (hsb.guarded hs.allocating.volume)).bind fun blockSize hsize => ?_
  refine .require fun hle => .require fun hentries => .ite (fun hindex => ?_) fun _ => ?_
  · refine (inodeBlock_keeps (by decide)).bind fun block _ => ?_
    refine .ite (fun _ => .pure trivial) fun _ => ?_
    refine (Keeps.when fun _ => ?_).bind fun _ _ => Keeps.get.bind fun s hs => ?_
    · exact (readTable_keeps hs.cache.single hle).bind fun entries hsize => setSingle_keeps hsize
    · exact entry_keeps hs.cache.single (table_index hsize hindex)
  · refine .ite (fun hcapacity => ?_) fun _ => .fail
    refine (inodeBlock_keeps (by decide)).bind fun root _ => ?_
    refine .ite (fun _ => .pure trivial) fun _ => ?_
    refine (divide_keeps hentries).bind fun first hfirst => ?_
    refine (modulo_keeps hentries).bind fun second hsecond => ?_
    have hfirst' : first < 1024 :=
      table_index hsize (hfirst ▸ Nat.div_lt_of_lt_mul hcapacity)
    have hsecond' : second < 1024 :=
      table_index hsize (hsecond ▸ Nat.mod_lt _ (Nat.pos_of_ne_zero hentries))
    refine (Keeps.when fun _ => ?_).bind fun _ _ => Keeps.get.bind fun s hs => ?_
    · refine (readTable_keeps hs.cache.doubleRoot hle).bind fun entries hsize => ?_
      exact (setDoubleRoot_keeps hsize).bind fun _ _ => setDoubleLeaf_keeps hs.cache.doubleLeaf
    refine (entry_keeps hs.cache.doubleRoot hfirst').bind fun leaf _ => ?_
    refine .ite (fun _ => .pure trivial) fun _ => ?_
    refine (Keeps.when fun _ => ?_).bind fun _ _ => Keeps.get.bind fun s hs => ?_
    · exact (readTable_keeps hs.cache.doubleLeaf hle).bind fun entries hsize =>
        setDoubleLeaf_keeps hsize
    · exact entry_keeps hs.cache.doubleLeaf hsecond'

theorem allocateNew_keeps (hsb : Accepted sb) (hfit : A → BlocksFit sb) :
    Keeps (GuardedWorking sb A B) allocateNew fun _ => True :=
  (onAllocating_keeps (allocateBlock_keeps hsb hfit)).bind fun _ _ =>
    .require fun _ => .pure trivial

theorem addBlock_keeps {change : Inode → Inode} :
    Keeps (GuardedWorking sb A B) (addBlock blockSize change) fun _ => True :=
  .modify fun _ hs => ⟨hs.allocating, hs.cache⟩

theorem entryOrNew_keeps (hsb : Accepted sb) (hfit : A → BlocksFit sb) {blockSize i : Nat}
    {table : Working → CachedTable}
    {setTable : CachedTable → Effect Working Unit} (hi : i < 1024)
    (htable : ∀ s, GuardedWorking sb A B s → (table s).entries.size = 4096)
    (hset : ∀ t : CachedTable, t.entries.size = 4096 →
      Keeps (GuardedWorking sb A B) (setTable t) fun _ => True) :
    Keeps (GuardedWorking sb A B) (entryOrNew blockSize i table setTable) fun _ => True := by
  refine Keeps.get.bind fun s hs => ?_
  have hsize := htable s hs
  refine (entry_keeps hsize hi).bind fun block _ => .ite (fun _ => .pure trivial) fun _ => ?_
  refine (allocateNew_keeps hsb hfit).bind fun newBlock _ => ?_
  refine (put32_keeps (by omega)).bind fun entries hentries => ?_
  refine (hset _ (hentries.trans hsize)).bind fun _ _ => ?_
  exact addBlock_keeps.bind fun _ _ => .pure trivial

section
variable {blockSize : Nat}

theorem loadSingle_keeps (hsb : Accepted sb) (hfit : A → BlocksFit sb) (hsize : blockSize ≤ 4096) :
    Keeps (GuardedWorking sb A B) (loadSingle blockSize) fun _ => True := by
  refine (inodeBlock_keeps (by decide)).bind fun block _ => .ite (fun _ => ?_) fun _ => ?_
  · refine (allocateNew_keeps hsb hfit).bind fun newBlock _ => Keeps.get.bind fun s hs => ?_
    refine (newTable_keeps hs.cache.single hsize).bind fun t ht => ?_
    exact addBlock_keeps.bind fun _ _ => setSingle_keeps ht
  · refine Keeps.get.bind fun s hs => .when fun _ => ?_
    exact (readTable_keeps hs.cache.single hsize).bind fun entries hentries =>
      setSingle_keeps hentries

theorem loadRoot_keeps (hsb : Accepted sb) (hfit : A → BlocksFit sb) (hsize : blockSize ≤ 4096) :
    Keeps (GuardedWorking sb A B) (loadRoot blockSize) fun _ => True := by
  refine (inodeBlock_keeps (by decide)).bind fun block _ => .ite (fun _ => ?_) fun _ => ?_
  · refine (allocateNew_keeps hsb hfit).bind fun newBlock _ => Keeps.get.bind fun s hs => ?_
    refine (newTable_keeps hs.cache.doubleRoot hsize).bind fun t ht => ?_
    refine addBlock_keeps.bind fun _ _ => (setDoubleRoot_keeps ht).bind fun _ _ => ?_
    exact setDoubleLeaf_keeps hs.cache.doubleLeaf
  · refine Keeps.get.bind fun s hs => .when fun _ => ?_
    refine (readTable_keeps hs.cache.doubleRoot hsize).bind fun entries hentries => ?_
    exact (setDoubleRoot_keeps hentries).bind fun _ _ => setDoubleLeaf_keeps hs.cache.doubleLeaf

/-- The path to a leaf table. -/
theorem loadLeaf_keeps (hsb : Accepted sb) (hfit : A → BlocksFit sb) (hsize : blockSize ≤ 4096)
    {i : Nat} (hi : i < 1024) :
    Keeps (GuardedWorking sb A B) (loadLeaf blockSize i) fun _ => True := by
  refine Keeps.get.bind fun s hs => (entry_keeps hs.cache.doubleRoot hi).bind fun leaf _ => ?_
  have hflush : Keeps (GuardedWorking sb A B) (onDevice (flushTable blockSize s.cache.doubleLeaf))
      fun r => r.entries.size = 4096 :=
    onDevice_keeps (flushTable_keeps hs.cache.doubleLeaf hsize)
  refine .ite (fun _ => ?_) fun _ => .when fun _ => ?_
  · refine hflush.bind fun old hold => (setDoubleLeaf_keeps hold).bind fun _ _ => ?_
    refine (allocateNew_keeps hsb hfit).bind fun newBlock _ => ?_
    refine (newTable_keeps hold hsize).bind fun t ht => Keeps.get.bind fun s hs => ?_
    have hroot := hs.cache.doubleRoot
    refine (put32_keeps (by omega)).bind fun entries hentries => ?_
    refine (setDoubleRoot_keeps (hentries.trans hroot)).bind fun _ _ => ?_
    exact addBlock_keeps.bind fun _ _ => setDoubleLeaf_keeps ht
  · refine hflush.bind fun old hold => (setDoubleLeaf_keeps hold).bind fun _ _ => ?_
    exact (readTable_keeps hold hsize).bind fun entries hentries => setDoubleLeaf_keeps hentries

end

/-- And every index where blocks are allocated on the way. -/
theorem getOrAllocateDataBlock_keeps (hsb : Accepted sb) (hfit : A → BlocksFit sb) (n : Nat) :
    Keeps (GuardedWorking sb A B) (getOrAllocateDataBlock n) fun _ => True := by
  refine Keeps.get.bind fun s hs => ?_
  refine (blockSize_keeps (hsb.guarded hs.allocating.volume)).bind fun blockSize hsize => ?_
  refine .require fun hle => .require fun _ => .require fun hentries => ?_
  refine .ite (fun hn => ?_) fun _ => ?_
  · refine (inodeBlock_keeps (by omega)).bind fun block _ => ?_
    refine .ite (fun _ => .pure trivial) fun _ => ?_
    refine (allocateNew_keeps hsb hfit).bind fun newBlock _ => ?_
    exact addBlock_keeps.bind fun _ _ => .pure trivial
  · refine .ite (fun hindex => ?_) fun _ => .require fun hcapacity => ?_
    · refine (loadSingle_keeps hsb hfit hle.2).bind fun _ _ => ?_
      exact entryOrNew_keeps hsb hfit (table_index hsize hindex) (fun _ hs => hs.cache.single)
        fun _ => setSingle_keeps
    · refine (divide_keeps hentries).bind fun root hroot => ?_
      refine (modulo_keeps hentries).bind fun leaf hleaf => ?_
      have hroot' : root < 1024 := table_index hsize (hroot ▸ Nat.div_lt_of_lt_mul hcapacity)
      have hleaf' : leaf < 1024 :=
        table_index hsize (hleaf ▸ Nat.mod_lt _ (Nat.pos_of_ne_zero hentries))
      refine (loadRoot_keeps hsb hfit hle.2).bind fun _ _ => ?_
      refine (loadLeaf_keeps hsb hfit hle.2 hroot').bind fun _ _ => ?_
      exact entryOrNew_keeps hsb hfit hleaf' (fun _ hs => hs.cache.doubleLeaf) fun _ =>
        setDoubleLeaf_keeps

end

end MeatySkeleton.Ext2
