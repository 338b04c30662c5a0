import MeatySkeleton.Ext2.Volume

/-!
# Inodes of a volume

Reading, writing and allocating inodes. `ext2_read_inode` keeps the index within the group
in 16 bits where its siblings keep 32.
-/

namespace MeatySkeleton.Ext2

open Lib Lib.Effect

/-- Bit `bit` of a bitmap. -/
def testBit (bitmap : Buffer) (bit : Nat) : Effect Volume Bool := do
  let byte ← bitmap.get8 (bit / 8)
  return byte.testBit (bit % 8)

def setBit (bitmap : Buffer) (bit : Nat) : Effect Volume Buffer := do
  let byte ← bitmap.get8 (bit / 8)
  bitmap.put8 (bit / 8) (byte ||| 2 ^ (bit % 8))

def clearBit (bitmap : Buffer) (bit : Nat) : Effect Volume Buffer := do
  let byte ← bitmap.get8 (bit / 8)
  bitmap.put8 (bit / 8) (byte - if byte.testBit (bit % 8) then 2 ^ (bit % 8) else 0)

/-- The block and the offset in it of an inode record. -/
def inodePlace (sb : Superblock) (descriptor : GroupDescriptor) (blockSize indexInGroup : Nat) :
    Effect Volume (Nat × Nat) := do
  let byteOffset := indexInGroup * sb.inodeSize
  let block ← divide byteOffset blockSize
  let offset ← modulo byteOffset blockSize
  return (u32 (descriptor.inodeTable + u32 block), u32 offset)

/-- `ext2_read_inode`. -/
def readInode (inodeNumber : Nat) : Effect Volume Inode := do
  let v ← get
  let sb := v.superblock
  require (inodeNumber ≠ 0 ∧ inodeNumber ≤ sb.inodeCount)
  let blockSize ← sb.blockSize
  let group ← divide (inodeNumber - 1) sb.inodesPerGroup
  let index ← modulo (inodeNumber - 1) sb.inodesPerGroup
  -- `uint16_t index_in_group`
  let descriptor ← readGroupDescriptor group
  let (blockNumber, offset) ← inodePlace sb descriptor blockSize (u16 index)
  require (offset + Inode.bytes ≤ blockSize)
  require (blockSize ≤ 4096)
  let block ← readBlock blockSize blockNumber v.array
  block.slice offset Inode.bytes

/-- `ext2_write_inode`. -/
def writeInode (inodeNumber : Nat) (inode : Inode) : Effect Volume Unit := do
  let v ← get
  let sb := v.superblock
  require (inodeNumber ≠ 0 ∧ inodeNumber ≤ sb.inodeCount)
  let blockSize ← sb.blockSize
  require (blockSize ≤ 4096)
  let group ← divide (inodeNumber - 1) sb.inodesPerGroup
  let index ← modulo (inodeNumber - 1) sb.inodesPerGroup
  let descriptor ← readGroupDescriptor group
  let (blockNumber, offset) ← inodePlace sb descriptor blockSize index
  require (offset + Inode.bytes ≤ blockSize)
  let block ← readBlock blockSize blockNumber v.array
  let block ← block.store offset inode Inode.bytes
  writeBlock blockSize blockNumber block 0

/-- `ext2_initialize_new_inode`. -/
def initializeNewInode (inodeNumber mode : Nat) : Effect Volume Unit := do
  let v ← get
  let sb := v.superblock
  require (inodeNumber ≠ 0 ∧ inodeNumber ≤ sb.inodeCount)
  let blockSize ← sb.blockSize
  require (blockSize ≠ 0 ∧ blockSize ≤ 4096)
  require (Inode.bytes ≤ sb.inodeSize ∧ sb.inodeSize ≤ blockSize)
  let group ← divide (inodeNumber - 1) sb.inodesPerGroup
  let index ← modulo (inodeNumber - 1) sb.inodesPerGroup
  let descriptor ← readGroupDescriptor group
  let (blockNumber, offset) ← inodePlace sb descriptor blockSize index
  require (offset + sb.inodeSize ≤ blockSize)
  let block ← readBlock blockSize blockNumber v.array
  let block ← block.fill offset sb.inodeSize 0
  -- the other fields that are set are zero already
  let block ← block.put16 offset mode
  writeBlock blockSize blockNumber block 0

/-! ## Allocation -/

/-- The first inode that is not reserved. -/
def firstUsableInode (sb : Superblock) : Nat :=
  if sb.revisionLevel = 0 then 11 else sb.firstNonReservedInode

/-- `inodes_in_group` of `ext2_allocate_inode_with_mode`. -/
def inodesInGroup (sb : Superblock) (group : Nat) : Nat :=
  let firstInodeIndex := u32 (group * sb.inodesPerGroup)
  if u32 (firstInodeIndex + sb.inodesPerGroup) > sb.inodeCount then
    u32sub sb.inodeCount firstInodeIndex
  else sb.inodesPerGroup

/-- The search for a clear bit of a usable inode, from `bit` on. -/
def findFreeInode (sb : Superblock) (bitmap : Buffer) (firstInodeIndex : Nat) :
    Nat → Nat → Effect Volume (Option Nat)
  | 0, _ => return none
  | left + 1, bit =>
    if u32 (firstInodeIndex + bit + 1) < firstUsableInode sb then
      findFreeInode sb bitmap firstInodeIndex left (bit + 1)
    else do
      let used ← testBit bitmap bit
      if used then findFreeInode sb bitmap firstInodeIndex left (bit + 1) else return some bit

/-- The loop over the groups of `ext2_allocate_inode_with_mode`. -/
def allocateInodeFrom (blockSize mode : Nat) : Nat → Nat → Effect Volume Nat
  | 0, _ => fail
  | left + 1, group => do
    let v ← get
    let sb := v.superblock
    let descriptor ← readGroupDescriptor group
    if descriptor.freeInodesCount = 0 then allocateInodeFrom blockSize mode left (group + 1)
    else
      let bitmap ← readBlock blockSize descriptor.inodeBitmap v.array
      let firstInodeIndex := u32 (group * sb.inodesPerGroup)
      let found ← findFreeInode sb bitmap firstInodeIndex (inodesInGroup sb group) 0
      match found with
      | none => allocateInodeFrom blockSize mode left (group + 1)
      | some bit =>
        let candidate := u32 (firstInodeIndex + bit + 1)
        initializeNewInode candidate mode
        let bitmap ← setBit bitmap bit
        writeBlock blockSize descriptor.inodeBitmap bitmap 0
        writeGroupDescriptor group (descriptor.setFreeInodesCount (descriptor.freeInodesCount - 1))
        modify fun v =>
          { v with superblock := v.superblock.setFreeInodeCount (v.superblock.freeInodeCount - 1) }
        writeSuperblock
        return candidate

/-- `ext2_allocate_inode_with_mode`. -/
def allocateInodeWithMode (mode : Nat) : Effect Volume Nat := do
  let v ← get
  let sb := v.superblock
  require (sb.inodeCount ≠ 0 ∧ sb.inodesPerGroup ≠ 0 ∧ sb.freeInodeCount ≠ 0)
  let blockSize ← sb.blockSize
  require (blockSize ≠ 0 ∧ blockSize ≤ 4096)
  let groupCount ← divide (u32 (sb.inodeCount + sb.inodesPerGroup + 2 ^ 32 - 1)) sb.inodesPerGroup
  allocateInodeFrom blockSize mode groupCount 0

/-- `ext2_allocate_inode`. -/
def allocateInode : Effect Volume Nat := allocateInodeWithMode (formatRegular + 0o644)

end MeatySkeleton.Ext2
