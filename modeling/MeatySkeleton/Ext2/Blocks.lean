import MeatySkeleton.Ext2.Inodes

/-!
# Blocks of a volume

The block allocator with its context, and the block map of an inode: twelve direct blocks,
a single-indirect and a double-indirect tree, whose tables are cached one at a time.
-/

namespace MeatySkeleton.Ext2

open Lib Lib.Effect

/-! ## Allocation -/

/-- `ext2_allocation_context_t` without the pointer to the volume. -/
structure AllocationContext where
  groupLoaded : Bool
  group : Nat
  descriptor : GroupDescriptor
  bitmap : Buffer
  dirty : Bool
  allocatedBlocks : Nat

/-- A context after `memset`. -/
def AllocationContext.empty : AllocationContext :=
  ⟨false, 0, fun _ => 0, ⟨4096, fun _ => 0⟩, false, 0⟩

/-- A volume during an operation that allocates. -/
structure Allocating where
  volume : Volume
  context : AllocationContext

def onVolume {α : Type} : Effect Volume α → Effect Allocating α :=
  zoom Allocating.volume fun s volume => { s with volume }

def setContext (context : AllocationContext) : Effect Allocating Unit :=
  modify fun s => { s with context }

/-- `ext2_flush_allocation_context`. -/
def flushAllocationContext : Effect Allocating Unit := do
  let s ← get
  if s.context.groupLoaded = false ∨ s.context.dirty = false then return
  else
    let blockSize ← s.volume.superblock.blockSize
    onVolume (writeBlock blockSize s.context.descriptor.blockBitmap s.context.bitmap 0)
    onVolume (writeGroupDescriptor s.context.group s.context.descriptor)
    setContext { s.context with dirty := false }

/-- `group_first_block` and `blocks_in_group` of `ext2_allocate_block`. -/
def groupFirstBlock (sb : Superblock) (group : Nat) : Nat :=
  u32 (sb.firstDataBlock + u32 (group * sb.blocksPerGroup))

def blocksInGroup (sb : Superblock) (group : Nat) : Nat :=
  if u32 (groupFirstBlock sb group + sb.blocksPerGroup) > sb.blockCount then
    u32sub sb.blockCount (groupFirstBlock sb group)
  else sb.blocksPerGroup

/-- The search for a clear bit, from `bit` on. -/
def findFreeBlock (bitmap : Buffer) : Nat → Nat → Effect Volume (Option Nat)
  | 0, _ => return none
  | left + 1, bit => do
    let used ← testBit bitmap bit
    if used then findFreeBlock bitmap left (bit + 1) else return some bit

/-- The bitmap of the group is in the context; `false` if the group has no free block. -/
def loadGroup (blockSize group : Nat) : Effect Allocating Bool := do
  let s ← get
  if s.context.groupLoaded = false ∨ s.context.group ≠ group then
    flushAllocationContext
    let descriptor ← onVolume (readGroupDescriptor group)
    modify fun s => { s with context := { s.context with descriptor } }
    if descriptor.freeBlocksCount = 0 then
      modify fun s => { s with context := { s.context with groupLoaded := false } }
      return false
    else
      let s ← get
      let bitmap ← onVolume (readBlock blockSize descriptor.blockBitmap s.context.bitmap)
      modify fun s =>
        { s with context := { s.context with bitmap, group, groupLoaded := true, dirty := false } }
      return true
  else return true

/-- The loop over the groups of `ext2_allocate_block`. -/
def allocateBlockFrom (blockSize : Nat) : Nat → Nat → Effect Allocating Nat
  | 0, _ => fail
  | left + 1, group => do
    let loaded ← loadGroup blockSize group
    if loaded = false then allocateBlockFrom blockSize left (group + 1)
    else
      let s ← get
      let sb := s.volume.superblock
      let found ← onVolume (findFreeBlock s.context.bitmap (blocksInGroup sb group) 0)
      match found with
      | some bit =>
        let bitmap ← onVolume (setBit s.context.bitmap bit)
        let descriptor := s.context.descriptor
        setContext
          { s.context with
            bitmap
            descriptor := descriptor.setFreeBlocksCount (descriptor.freeBlocksCount + 2 ^ 16 - 1)
            allocatedBlocks := u32 (s.context.allocatedBlocks + 1)
            dirty := true }
        onVolume (modify fun v =>
          { v with superblock := v.superblock.setFreeBlockCount (v.superblock.freeBlockCount - 1) })
        return u32 (groupFirstBlock sb group + bit)
      | none =>
        flushAllocationContext
        modify fun s => { s with context := { s.context with groupLoaded := false } }
        allocateBlockFrom blockSize left (group + 1)

/-- `ext2_allocate_block`. -/
def allocateBlock : Effect Allocating Nat := do
  let s ← get
  let sb := s.volume.superblock
  let blockSize ← sb.blockSize
  require (blockSize ≠ 0 ∧ blockSize ≤ 4096)
  require (sb.freeBlockCount ≠ 0)
  let dataBlocks := u32sub sb.blockCount sb.firstDataBlock
  let groupCount ← divide (u32 (dataBlocks + sb.blocksPerGroup + 2 ^ 32 - 1)) sb.blocksPerGroup
  allocateBlockFrom blockSize groupCount 0

/-- `ext2_free_block`. -/
def freeBlock (blockNumber : Nat) : Effect Volume Unit := do
  let v ← get
  let sb := v.superblock
  require (blockNumber ≠ 0)
  let blockSize ← sb.blockSize
  require (blockSize ≠ 0 ∧ blockSize ≤ 4096 ∧ sb.blocksPerGroup ≠ 0)
  require (sb.firstDataBlock ≤ blockNumber ∧ blockNumber < sb.blockCount)
  let group ← divide (blockNumber - sb.firstDataBlock) sb.blocksPerGroup
  let bit ← modulo (blockNumber - sb.firstDataBlock) sb.blocksPerGroup
  let descriptor ← readGroupDescriptor group
  let bitmap ← readBlock blockSize descriptor.blockBitmap v.array
  let used ← testBit bitmap bit
  require (used = true)
  let bitmap ← clearBit bitmap bit
  writeBlock blockSize descriptor.blockBitmap bitmap 0
  writeGroupDescriptor group (descriptor.setFreeBlocksCount (descriptor.freeBlocksCount + 1))
  modify fun v =>
    { v with superblock := v.superblock.setFreeBlockCount (v.superblock.freeBlockCount + 1) }
  writeSuperblock

/-! ## The block map -/

/-- One table of `ext2_block_cache`. -/
structure CachedTable where
  valid : Bool
  dirty : Bool
  blockNumber : Nat
  entries : Buffer

structure BlockCache where
  single : CachedTable
  doubleRoot : CachedTable
  doubleLeaf : CachedTable

def CachedTable.empty : CachedTable := ⟨false, false, 0, ⟨4096, fun _ => 0⟩⟩

/-- A cache after `memset`. -/
def BlockCache.empty : BlockCache := ⟨.empty, .empty, .empty⟩

/-- `entries[i]` of a table of `uint32_t`. -/
def CachedTable.entry {σ : Type} (t : CachedTable) (i : Nat) : Effect σ Nat :=
  t.entries.get32 (4 * i)

/-- Write a table back if it is valid and dirty. -/
def flushTable (blockSize : Nat) (t : CachedTable) : Effect Volume CachedTable := do
  if t.valid ∧ t.dirty then
    writeBlock blockSize t.blockNumber t.entries 0
    return { t with dirty := false }
  else return t

/-- A volume during an operation on a file: its inode in memory and its cache. -/
structure Working where
  allocating : Allocating
  inode : Inode
  cache : BlockCache

def Working.volume (s : Working) : Volume := s.allocating.volume

def onAllocating {α : Type} : Effect Allocating α → Effect Working α :=
  zoom Working.allocating fun s allocating => { s with allocating }

def onDevice {α : Type} (m : Effect Volume α) : Effect Working α := onAllocating (onVolume m)

def setSingle (t : CachedTable) : Effect Working Unit :=
  modify fun s => { s with cache := { s.cache with single := t } }

def setDoubleRoot (t : CachedTable) : Effect Working Unit :=
  modify fun s => { s with cache := { s.cache with doubleRoot := t } }

def setDoubleLeaf (t : CachedTable) : Effect Working Unit :=
  modify fun s => { s with cache := { s.cache with doubleLeaf := t } }

/-- `ext2_flush_block_cache`. -/
def flushBlockCache : Effect Working Unit := do
  let s ← get
  let blockSize ← s.volume.superblock.blockSize
  let single ← onDevice (flushTable blockSize s.cache.single)
  setSingle single
  let doubleLeaf ← onDevice (flushTable blockSize s.cache.doubleLeaf)
  setDoubleLeaf doubleLeaf
  let doubleRoot ← onDevice (flushTable blockSize s.cache.doubleRoot)
  setDoubleRoot doubleRoot

/-- Whether a table in the cache is that of a block. -/
def CachedTable.Holds (t : CachedTable) (blockNumber : Nat) : Prop :=
  t.valid = true ∧ t.blockNumber = blockNumber

instance (t : CachedTable) (blockNumber : Nat) : Decidable (t.Holds blockNumber) :=
  inferInstanceAs (Decidable (_ ∧ _))

/-- `inode->block[i]`. -/
def inodeBlock (i : Nat) : Effect Working Nat := do
  demand (i < 15)
  let s ← get
  return s.inode.block i

/-- `ext2_get_data_block`; it leaves the dirty flags as they are. -/
def getDataBlock (logicalBlock : Nat) : Effect Working Nat := do
  if logicalBlock < 12 then inodeBlock logicalBlock
  else
    let s ← get
    let blockSize ← s.volume.superblock.blockSize
    require (blockSize ≤ 4096)
    let entriesPerBlock := blockSize / 4
    require (entriesPerBlock ≠ 0)
    let index := logicalBlock - 12
    if index < entriesPerBlock then
      let indirectBlock ← inodeBlock 12
      if indirectBlock = 0 then return 0
      else
        when (¬s.cache.single.Holds indirectBlock) do
          let entries ← onDevice (readBlock blockSize indirectBlock s.cache.single.entries)
          setSingle { s.cache.single with entries, blockNumber := indirectBlock, valid := true }
        let s ← get
        s.cache.single.entry index
    else
      let index := index - entriesPerBlock
      if index < entriesPerBlock * entriesPerBlock then
        let rootBlock ← inodeBlock 13
        if rootBlock = 0 then return 0
        else
          let firstLevelIndex ← divide index entriesPerBlock
          let secondLevelIndex ← modulo index entriesPerBlock
          when (¬s.cache.doubleRoot.Holds rootBlock) do
            let entries ← onDevice (readBlock blockSize rootBlock s.cache.doubleRoot.entries)
            setDoubleRoot
              { s.cache.doubleRoot with entries, blockNumber := rootBlock, valid := true }
            setDoubleLeaf { s.cache.doubleLeaf with valid := false }
          let s ← get
          let leafBlock ← s.cache.doubleRoot.entry firstLevelIndex
          if leafBlock = 0 then return 0
          else
            when (¬s.cache.doubleLeaf.Holds leafBlock) do
              let entries ← onDevice (readBlock blockSize leafBlock s.cache.doubleLeaf.entries)
              setDoubleLeaf
                { s.cache.doubleLeaf with entries, blockNumber := leafBlock, valid := true }
            let s ← get
            s.cache.doubleLeaf.entry secondLevelIndex
      else fail

/-- A new block, which may not be block zero. -/
def allocateNew : Effect Working Nat := do
  let block ← onAllocating allocateBlock
  require (block ≠ 0)
  return block

/-- A change of the map, and `sector_count += sectors_per_block`. -/
def addBlock (blockSize : Nat) (change : Inode → Inode) : Effect Working Unit :=
  modify fun s =>
    let inode := change s.inode
    { s with inode := inode.setSectorCount (inode.sectorCount + blockSize / 512) }

/-- A table of zeros for a new block. -/
def newTable {σ : Type} (blockSize blockNumber : Nat) (t : CachedTable) : Effect σ CachedTable := do
  let entries ← t.entries.fill 0 blockSize 0
  return ⟨true, true, blockNumber, entries⟩

/-- `entries[i]` of a table, with a new block if it is zero. -/
def entryOrNew (blockSize i : Nat) (table : Working → CachedTable)
    (setTable : CachedTable → Effect Working Unit) : Effect Working Nat := do
  let s ← get
  let block ← (table s).entry i
  if block ≠ 0 then return block
  else
    let newBlock ← allocateNew
    let entries ← (table s).entries.put32 (4 * i) newBlock
    setTable { table s with entries, dirty := true }
    addBlock blockSize id
    return newBlock

/-- The table of the single-indirect path. -/
def loadSingle (blockSize : Nat) : Effect Working Unit := do
  let indirectBlock ← inodeBlock 12
  if indirectBlock = 0 then
    let indirectBlock ← allocateNew
    let s ← get
    let t ← newTable blockSize indirectBlock s.cache.single
    addBlock blockSize fun inode => inode.setBlock 12 indirectBlock
    setSingle t
  else
    let s ← get
    when (¬s.cache.single.Holds indirectBlock) do
      let entries ← onDevice (readBlock blockSize indirectBlock s.cache.single.entries)
      setSingle ⟨true, false, indirectBlock, entries⟩

/-- The root table of the double-indirect path. -/
def loadRoot (blockSize : Nat) : Effect Working Unit := do
  let rootBlock ← inodeBlock 13
  if rootBlock = 0 then
    let rootBlock ← allocateNew
    let s ← get
    let t ← newTable blockSize rootBlock s.cache.doubleRoot
    addBlock blockSize fun inode => inode.setBlock 13 rootBlock
    setDoubleRoot t
    setDoubleLeaf { s.cache.doubleLeaf with valid := false, dirty := false }
  else
    let s ← get
    when (¬s.cache.doubleRoot.Holds rootBlock) do
      let entries ← onDevice (readBlock blockSize rootBlock s.cache.doubleRoot.entries)
      setDoubleRoot ⟨true, false, rootBlock, entries⟩
      setDoubleLeaf { s.cache.doubleLeaf with valid := false, dirty := false }

/-- The leaf table of the double-indirect path. -/
def loadLeaf (blockSize rootIndex : Nat) : Effect Working Unit := do
  let s ← get
  let leafBlock ← s.cache.doubleRoot.entry rootIndex
  if leafBlock = 0 then
    let old ← onDevice (flushTable blockSize s.cache.doubleLeaf)
    setDoubleLeaf old
    let leafBlock ← allocateNew
    let t ← newTable blockSize leafBlock old
    let s ← get
    let entries ← s.cache.doubleRoot.entries.put32 (4 * rootIndex) leafBlock
    setDoubleRoot { s.cache.doubleRoot with entries, dirty := true }
    addBlock blockSize id
    setDoubleLeaf t
  else
    when (¬s.cache.doubleLeaf.Holds leafBlock) do
      let old ← onDevice (flushTable blockSize s.cache.doubleLeaf)
      setDoubleLeaf old
      let entries ← onDevice (readBlock blockSize leafBlock old.entries)
      setDoubleLeaf ⟨true, false, leafBlock, entries⟩

/-- `ext2_get_or_allocate_data_block`. -/
def getOrAllocateDataBlock (logicalBlock : Nat) : Effect Working Nat := do
  let s ← get
  let blockSize ← s.volume.superblock.blockSize
  require (blockSize ≠ 0 ∧ blockSize ≤ 4096)
  require (blockSize % 512 = 0)
  let entriesPerBlock := blockSize / 4
  require (entriesPerBlock ≠ 0)
  if logicalBlock < 12 then
    let block ← inodeBlock logicalBlock
    if block ≠ 0 then return block
    else
      let newBlock ← allocateNew
      addBlock blockSize fun inode => inode.setBlock logicalBlock newBlock
      return newBlock
  else
    let index := logicalBlock - 12
    if index < entriesPerBlock then
      loadSingle blockSize
      entryOrNew blockSize index (fun s => s.cache.single) setSingle
    else
      let index := index - entriesPerBlock
      require (index < entriesPerBlock * entriesPerBlock)
      let rootIndex ← divide index entriesPerBlock
      let leafIndex ← modulo index entriesPerBlock
      loadRoot blockSize
      loadLeaf blockSize rootIndex
      entryOrNew blockSize leafIndex (fun s => s.cache.doubleLeaf) setDoubleLeaf

end MeatySkeleton.Ext2
