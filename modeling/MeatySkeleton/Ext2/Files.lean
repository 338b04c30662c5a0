import MeatySkeleton.Ext2.Blocks
import MeatySkeleton.Ext2.Directory

/-!
# Files of a volume

The operations of ext2 vnodes and `ext2_mount`. A vnode holds its inode in memory, with a
block cache once it has been read or written.
-/

namespace MeatySkeleton.Ext2

open Lib Lib.Effect

/-- `vnode_t` with its `ext2_vnode_data_t`. -/
structure Vnode where
  directory : Bool
  inodeNumber : Nat
  inode : Inode
  cache : Option BlockCache
  size : Nat

/-- A volume during an operation on one vnode. -/
structure Opened where
  volume : Volume
  vnode : Vnode

def onOpened {α : Type} : Effect Volume α → Effect Opened α :=
  zoom Opened.volume fun s volume => { s with volume }

/-! ## Reading -/

/-- `EXT2_MAX_READ_RUN_BLOCKS`. -/
def maxReadRunBlocks : Nat := 16

/-- The length of the run of consecutive blocks behind a block, up to `maxBlocks`. -/
def runLength (logicalBlock blockNumber : Nat) : Nat → Nat → Effect Working Nat
  | 0, runBlocks => return runBlocks
  | left + 1, runBlocks => do
    let nextBlockNumber ← getDataBlock (u32 (logicalBlock + runBlocks))
    if nextBlockNumber = 0 ∨ nextBlockNumber ≠ u32 (blockNumber + runBlocks) then return runBlocks
    else runLength logicalBlock blockNumber left (runBlocks + 1)

/-- The loop of `ext2_read_file_cached`: the caller's buffer and how much of it is read. -/
def readFrom (blockSize offset wanted : Nat) :
    Nat → Nat → Buffer → Buffer → Effect Working (Buffer × Nat)
  | 0, _, _, _ => crash
  | fuel + 1, total, block, buffer =>
    if wanted ≤ total then return (buffer, total)
    else do
      let fileOffset := u32 (offset + total)
      let logicalBlock ← divide fileOffset blockSize
      let offsetInBlock ← modulo fileOffset blockSize
      let blockNumber ← getDataBlock logicalBlock
      if blockNumber = 0 then return (buffer, total)
      else
        let remaining := wanted - total
        if offsetInBlock = 0 ∧ blockSize ≤ remaining then
          let maxBlocks := min (remaining / blockSize) maxReadRunBlocks
          let runBlocks ← runLength logicalBlock blockNumber (maxBlocks - 1) 1
          let sectorsPerBlock := blockSize / 512
          let buffer ← onDevice
            (blockRead (blockNumber * sectorsPerBlock) (runBlocks * sectorsPerBlock) buffer total)
          readFrom blockSize offset wanted fuel (total + runBlocks * blockSize) block buffer
        else
          let block ← onDevice (readBlock blockSize blockNumber block)
          let chunk := min (blockSize - offsetInBlock) remaining
          let bytes ← block.slice offsetInBlock chunk
          let buffer ← buffer.store total bytes chunk
          readFrom blockSize offset wanted fuel (total + chunk) block buffer

/-- `ext2_read_file_cached`. -/
def readFileCached (offset : Nat) (buffer : Buffer) : Effect Working (Buffer × Nat) := do
  let s ← get
  require (s.inode.format = formatRegular)
  let blockSize ← s.volume.superblock.blockSize
  require (blockSize ≤ 4096)
  if s.inode.sizeLow ≤ offset then return (buffer, 0)
  else
    let wanted := min buffer.size (s.inode.sizeLow - offset)
    readFrom blockSize offset wanted (wanted + 1) 0 s.volume.array buffer

/-- A vnode's block cache, allocated at its first use. -/
def blockCache : Effect Opened BlockCache := do
  let s ← get
  match s.vnode.cache with
  | some cache => return cache
  | none =>
    onOpened kmalloc
    modify fun s => { s with vnode := { s.vnode with cache := some .empty } }
    return .empty

/-- A computation on the inode and the cache of a vnode. -/
def onFile {α : Type} (cache : BlockCache) (m : Effect Working α) : Effect Opened α :=
  zoom (fun s => ⟨⟨s.volume, .empty⟩, s.vnode.inode, cache⟩)
    (fun s w => ⟨w.volume, { s.vnode with inode := w.inode, cache := some w.cache }⟩) m

/-- `ext2_vnode_read`. -/
def vnodeRead (offset : Nat) (buffer : Buffer) : Effect Opened (Buffer × Nat) := do
  let cache ← blockCache
  onFile cache (readFileCached offset buffer)

/-! ## Writing -/

/-- What a partial write changes: a new block is zero. -/
def oldContents (blockSize oldBlockNumber blockNumber : Nat) (block : Buffer) :
    Effect Working Buffer :=
  if oldBlockNumber = 0 then block.fill 0 blockSize 0
  else onDevice (readBlock blockSize blockNumber block)

/-- The loop of `ext2_vnode_write`. -/
def writeFrom (blockSize offset : Nat) (buffer : Buffer) : Nat → Nat → Buffer → Effect Working Unit
  | 0, _, _ => crash
  | fuel + 1, total, block =>
    if buffer.size ≤ total then return
    else do
      let fileOffset := u32 (offset + total)
      let logicalBlock ← divide fileOffset blockSize
      let offsetInBlock ← modulo fileOffset blockSize
      let chunk := min (blockSize - offsetInBlock) (buffer.size - total)
      let oldBlockNumber ← getDataBlock logicalBlock
      let blockNumber ← getOrAllocateDataBlock logicalBlock
      require (blockNumber ≠ 0)
      if offsetInBlock = 0 ∧ chunk = blockSize then
        onDevice (writeBlock blockSize blockNumber buffer total)
        writeFrom blockSize offset buffer fuel (total + chunk) block
      else
        let block ← oldContents blockSize oldBlockNumber blockNumber block
        let bytes ← buffer.slice total chunk
        let block ← block.store offsetInBlock bytes chunk
        onDevice (writeBlock blockSize blockNumber block 0)
        writeFrom blockSize offset buffer fuel (total + chunk) block

/-- The commit phase of `ext2_vnode_write`. -/
def commitWrite (inodeNumber : Nat) : Effect Working Unit := do
  flushBlockCache
  onAllocating flushAllocationContext
  let s ← get
  when (0 < s.allocating.context.allocatedBlocks) (onDevice writeSuperblock)
  onDevice (writeInode inodeNumber s.inode)

/-- What a file can hold: twelve direct blocks, the single- and the double-indirect ones. -/
def supportedBytes (blockSize : Nat) : Nat :=
  (12 + blockSize / 4 + blockSize / 4 * (blockSize / 4)) * blockSize

/-- `ext2_vnode_write`: the number of bytes written. -/
def vnodeWrite (offset : Nat) (buffer : Buffer) : Effect Opened Nat := do
  let s ← get
  if buffer.size = 0 then return 0
  else
    require (offset ≤ s.vnode.inode.sizeLow)
    require (buffer.size ≤ 2 ^ 32 - 1 - offset)
    let endOffset := offset + buffer.size
    let blockSize ← s.volume.superblock.blockSize
    require (blockSize ≠ 0 ∧ blockSize ≤ 4096)
    require (blockSize % 512 = 0)
    require (blockSize / 4 ≠ 0)
    require (endOffset ≤ supportedBytes blockSize)
    let cache ← blockCache
    onFile cache do
      let w ← get
      writeFrom blockSize offset buffer (buffer.size + 1) 0 w.volume.array
      modify fun w =>
        if w.inode.sizeLow < endOffset then { w with inode := w.inode.setSizeLow endOffset } else w
      commitWrite s.vnode.inodeNumber
    modify fun s => { s with vnode := { s.vnode with size := s.vnode.inode.sizeLow } }
    return buffer.size

/-! ## Truncation -/

/-- Free the blocks of the entries of a table, from entry `i` on. -/
def freeEntries (table : Buffer) : Nat → Nat → Effect Volume Unit
  | 0, _ => return
  | left + 1, i => do
    let block ← table.get32 (4 * i)
    when (block ≠ 0) (freeBlock block)
    freeEntries table left (i + 1)

/-- Free the blocks of the leaf tables of a root table, and the leaf tables. -/
def freeLeaves (blockSize : Nat) (root : Buffer) : Nat → Nat → Buffer → Effect Volume Unit
  | 0, _, _ => return
  | left + 1, i, leaf => do
    let leafBlock ← root.get32 (4 * i)
    if leafBlock = 0 then freeLeaves blockSize root left (i + 1) leaf
    else
      let leaf ← readBlock blockSize leafBlock leaf
      freeEntries leaf (blockSize / 4) 0
      freeBlock leafBlock
      freeLeaves blockSize root left (i + 1) leaf

def setInodeBlock (i block : Nat) : Effect Opened Unit :=
  modify fun s => { s with vnode := { s.vnode with inode := s.vnode.inode.setBlock i block } }

/-- The loop over the direct blocks in `ext2_vnode_truncate`. -/
def freeDirect : Nat → Nat → Effect Opened Unit
  | 0, _ => return
  | left + 1, i => do
    demand (i < 15)
    let s ← get
    let block := s.vnode.inode.block i
    when (block ≠ 0) do
      onOpened (freeBlock block)
      setInodeBlock i 0
    freeDirect left (i + 1)

/-- `ext2_vnode_truncate`. -/
def vnodeTruncate (size : Nat) : Effect Opened Unit := do
  let s ← get
  require (size = 0)
  require (s.vnode.directory = false)
  let blockSize ← s.volume.superblock.blockSize
  require (blockSize ≠ 0 ∧ blockSize ≤ 4096)
  let entriesPerBlock := blockSize / 4
  require (entriesPerBlock ≠ 0)
  -- all three calls are made before their results are looked at
  let block ← onOpened (attempt kmalloc)
  let rootBlock ← onOpened (attempt kmalloc)
  let leafBlock ← onOpened (attempt kmalloc)
  require (block.isSome ∧ rootBlock.isSome ∧ leafBlock.isSome)
  let array : Buffer := ⟨blockSize, s.volume.stale⟩
  freeDirect 12 0
  let single := s.vnode.inode.block 12
  when (single ≠ 0) do
    let table ← onOpened (readBlock blockSize single array)
    onOpened (freeEntries table entriesPerBlock 0)
    onOpened (freeBlock single)
    setInodeBlock 12 0
  let doubleRoot := s.vnode.inode.block 13
  when (doubleRoot ≠ 0) do
    let root ← onOpened (readBlock blockSize doubleRoot array)
    onOpened (freeLeaves blockSize root entriesPerBlock 0 array)
    onOpened (freeBlock doubleRoot)
    setInodeBlock 13 0
  let s ← get
  require (s.vnode.inode.block 14 = 0)
  let inode := ((s.vnode.inode.setSizeLow 0).setSizeHigh 0).setSectorCount 0
  modify fun s => { s with vnode := { s.vnode with inode } }
  onOpened (writeInode s.vnode.inodeNumber inode)
  modify fun s =>
    { s with vnode := { s.vnode with size := 0, cache := s.vnode.cache.map fun _ => .empty } }

/-! ## Vnodes -/

/-- `ext2_vnode_lookup`. -/
def vnodeLookup (directory : Inode) (name : Name) : Effect Volume Vnode := do
  let inodeNumber ← lookup directory name
  let inode ← readInode inodeNumber
  -- the vnode and its private data
  kmalloc
  kmalloc
  require (inode.format = formatDirectory ∨ inode.format = formatRegular)
  return ⟨inode.format = formatDirectory, inodeNumber, inode, none, inode.sizeLow⟩

/-- `ext2_vnode_create`, on a vnode whose inode number and inode are given. -/
def vnodeCreate (directoryNumber : Nat) (directory : Inode) (name : Name) :
    Effect Volume Vnode := do
  let existing ← attempt (vnodeLookup directory name)
  require (existing.isNone)
  let inodeNumber ← allocateInode
  linkNewRegularFile directoryNumber name inodeNumber
  vnodeLookup directory name

/-- The block of a new directory. -/
def newDirectoryBlock (blockSize inodeNumber parentNumber : Nat) (block : Buffer) :
    Effect Volume Buffer := do
  let block ← block.fill 0 blockSize 0
  let dotSize := directoryEntrySize 1
  let block ← putRecord block 0 ⟨inodeNumber, dotSize, 1, typeDirectory⟩ [46]
  putRecord block dotSize ⟨parentNumber, u16 (blockSize - dotSize), 2, typeDirectory⟩ [46, 46]

/-- The block of a new directory is allocated, and the allocation is written. -/
def allocateDirectoryBlock : Effect Volume Nat :=
  zoom (fun v => ⟨v, .empty⟩) (fun _ s => s.volume) do
    let directoryBlock ← allocateBlock
    require (directoryBlock ≠ 0)
    flushAllocationContext
    let s ← get
    when (0 < s.context.allocatedBlocks) (onVolume writeSuperblock)
    return directoryBlock

/-- `ext2_vnode_mkdir` up to the link: the number of the new inode, its group and the
descriptor of that group. -/
def prepareDirectory (parentNumber : Nat) : Effect Volume (Nat × Nat × GroupDescriptor) := do
  let inodeNumber ← allocateInodeWithMode (formatDirectory + 0o755)
  let child ← readInode inodeNumber
  let v ← get
  let blockSize ← v.superblock.blockSize
  require (blockSize ≠ 0 ∧ blockSize ≤ 4096)
  require (blockSize % 512 = 0)
  let directoryBlock ← allocateDirectoryBlock
  let block ← newDirectoryBlock blockSize inodeNumber parentNumber v.array
  let written ← attempt (writeBlock blockSize directoryBlock block 0)
  when (written.isNone) do
    let _ ← attempt (freeBlock directoryBlock)
    fail
  let child := (child.setMode (formatDirectory + 0o755)).setSizeLow blockSize
  let child := (child.setSizeHigh 0).setLinkCount 0
  let child := (child.setBlock 0 directoryBlock).setSectorCount (blockSize / 512)
  let written ← attempt (writeInode inodeNumber child)
  when (written.isNone) do
    let _ ← attempt (freeBlock directoryBlock)
    fail
  let group ← divide (inodeNumber - 1) v.superblock.inodesPerGroup
  let descriptor ← readGroupDescriptor group
  require (descriptor.usedDirsCount ≠ 2 ^ 16 - 1)
  let descriptor := descriptor.setUsedDirsCount (descriptor.usedDirsCount + 1)
  writeGroupDescriptor group descriptor
  return (inodeNumber, group, descriptor)

/-- `ext2_vnode_mkdir`. -/
def vnodeMkdir (directoryNumber : Nat) (directory : Inode) (name : Name) : Effect Volume Vnode := do
  require (name.length ≠ 0 ∧ name.length ≤ 255)
  require (name ≠ [46] ∧ name ≠ [46, 46])
  let existing ← attempt (vnodeLookup directory name)
  require (existing.isNone)
  let (inodeNumber, group, descriptor) ← prepareDirectory directoryNumber
  let linked ← attempt (linkNewChild directoryNumber name inodeNumber typeDirectory 2)
  when (linked.isNone) do
    when (0 < descriptor.usedDirsCount) do
      let _ ← attempt
        (writeGroupDescriptor group (descriptor.setUsedDirsCount (descriptor.usedDirsCount - 1)))
    fail
  vnodeLookup directory name

/-- `EXT2_ROOT_INODE`. -/
def rootInode : Nat := 2

/-- `ext2_mount`: the root vnode. -/
def mount : Effect Volume Vnode := do
  readSuperblock
  let inode ← readInode rootInode
  require (inode.format = formatDirectory)
  kmalloc
  return ⟨true, rootInode, inode, none, inode.sizeLow⟩

end MeatySkeleton.Ext2
