import MeatySkeleton.Lib.Bytes
import MeatySkeleton.Lib.Effect

/-!
# Volumes

The lowest layer of `fs/ext2.c`: arrays that know their size, the block device, and the
superblock and group descriptors of a mounted volume. The packed structures are kept as
the bytes they are in memory, read and written at the offsets of their fields.

Each division, each shift and each access to an array is a `demand`, so that a computation
faults where the C code would do what the language does not define. Every device has
sectors of 512 bytes and can be written.
-/

namespace MeatySkeleton.Ext2

open Lib Lib.Effect

/-! ## What the language asks for -/

variable {σ : Type}

/-- Results of `uint32_t` and `uint16_t` arithmetic. -/
def u32 (n : Nat) : Nat := n % 2 ^ 32

def u16 (n : Nat) : Nat := n % 2 ^ 16

def u32sub (a b : Nat) : Nat := (a + 2 ^ 32 - b) % 2 ^ 32

def shiftLeft (a n : Nat) : Effect σ Nat := do
  demand (n < 32)
  return u32 (a * 2 ^ n)

def divide (a b : Nat) : Effect σ Nat := do
  demand (b ≠ 0)
  return a / b

def modulo (a b : Nat) : Effect σ Nat := do
  demand (b ≠ 0)
  return a % b

/-- An array of bytes. -/
structure Buffer where
  size : Nat
  bytes : Mem

namespace Buffer

section

variable (b : Buffer)

def get8 (i : Nat) : Effect σ Nat := do
  demand (i < b.size)
  return (b.bytes i).toNat

def get16 (i : Nat) : Effect σ Nat := do
  demand (i + 2 ≤ b.size)
  return Lib.get16 b.bytes i

def get32 (i : Nat) : Effect σ Nat := do
  demand (i + 4 ≤ b.size)
  return Lib.get32 b.bytes i

def put8 (i v : Nat) : Effect σ Buffer := do
  demand (i < b.size)
  return { b with bytes := Lib.put8 b.bytes i (UInt8.ofNat v) }

def put16 (i v : Nat) : Effect σ Buffer := do
  demand (i + 2 ≤ b.size)
  return { b with bytes := Lib.put16 b.bytes i v }

def put32 (i v : Nat) : Effect σ Buffer := do
  demand (i + 4 ≤ b.size)
  return { b with bytes := Lib.put32 b.bytes i v }

/-- `memset`. -/
def fill (i n : Nat) (v : UInt8) : Effect σ Buffer := do
  demand (i + n ≤ b.size)
  return { b with bytes := Lib.fill b.bytes i n v }

/-- `memcpy` out of the array. -/
def slice (i n : Nat) : Effect σ Mem := do
  demand (i + n ≤ b.size)
  return fun x => b.bytes (i + x)

/-- `memcpy` into the array. -/
def store (i : Nat) (source : Mem) (n : Nat) : Effect σ Buffer := do
  demand (i + n ≤ b.size)
  return { b with bytes := copyFrom b.bytes i source 0 n }

end

end Buffer

/-! ## Packed structures -/

abbrev Superblock := Mem

namespace Superblock

section

variable (sb : Superblock)

def inodeCount : Nat := get32 sb 0
def blockCount : Nat := get32 sb 4
def freeBlockCount : Nat := get32 sb 12
def freeInodeCount : Nat := get32 sb 16
def firstDataBlock : Nat := get32 sb 20
def logBlockSize : Nat := get32 sb 24
def blocksPerGroup : Nat := get32 sb 32
def inodesPerGroup : Nat := get32 sb 40
def magic : Nat := Lib.get16 sb 56
def revisionLevel : Nat := get32 sb 76
def firstNonReservedInode : Nat := get32 sb 84
def inodeSize : Nat := Lib.get16 sb 88

def setFreeBlockCount (n : Nat) : Superblock := put32 sb 12 n
def setFreeInodeCount (n : Nat) : Superblock := put32 sb 16 n

end

/-- `sizeof(ext2_superblock_t)`. -/
def bytes : Nat := 92

/-- `1024u << log_block_size`. -/
def blockSize (sb : Superblock) : Effect σ Nat := shiftLeft 1024 sb.logBlockSize

end Superblock

/-- `ext2_block_group_descriptor_t`. -/
abbrev GroupDescriptor := Mem

namespace GroupDescriptor

section

variable (d : GroupDescriptor)

def blockBitmap : Nat := get32 d 0
def inodeBitmap : Nat := get32 d 4
def inodeTable : Nat := get32 d 8
def freeBlocksCount : Nat := Lib.get16 d 12
def freeInodesCount : Nat := Lib.get16 d 14
def usedDirsCount : Nat := Lib.get16 d 16

def setFreeBlocksCount (n : Nat) : GroupDescriptor := put16 d 12 n
def setFreeInodesCount (n : Nat) : GroupDescriptor := put16 d 14 n
def setUsedDirsCount (n : Nat) : GroupDescriptor := put16 d 16 n

end

def bytes : Nat := 32

end GroupDescriptor

abbrev Inode := Mem

namespace Inode

section

variable (inode : Inode)

def mode : Nat := Lib.get16 inode 0
def sizeLow : Nat := get32 inode 4
def linkCount : Nat := Lib.get16 inode 26
def sectorCount : Nat := get32 inode 28
def block (i : Nat) : Nat := get32 inode (40 + 4 * i)

def setMode (n : Nat) : Inode := put16 inode 0 n
def setSizeLow (n : Nat) : Inode := put32 inode 4 n
def setLinkCount (n : Nat) : Inode := put16 inode 26 n
def setSectorCount (n : Nat) : Inode := put32 inode 28 n
def setBlock (i n : Nat) : Inode := put32 inode (40 + 4 * i) n
def setSizeHigh (n : Nat) : Inode := put32 inode 108 n

end

def bytes : Nat := 128

/-- `mode & EXT2_S_IFMT`. -/
def format (inode : Inode) : Nat := inode.mode / 4096 * 4096

end Inode

/-- `EXT2_S_IFDIR` and `EXT2_S_IFREG`. -/
def formatDirectory : Nat := 0x4000

def formatRegular : Nat := 0x8000

/-! ## The device -/

/-- `ext2_fs_t` with its device. -/
structure Volume where
  sectorCount : Nat
  image : Mem
  superblock : Superblock
  /-- What the next calls of `kmalloc` come to; one beyond the list fails. -/
  kmallocs : List Bool
  /-- What an array holds before it is written. -/
  stale : Mem

/-- `uint8_t block[4096]`. -/
def Volume.array (v : Volume) : Buffer := ⟨4096, v.stale⟩

/-- `kmalloc`, as far as whether there is room. -/
def kmalloc : Effect Volume Unit := do
  let v ← get
  match v.kmallocs with
  | true :: rest => modify fun v => { v with kmallocs := rest }
  | false :: rest =>
    modify fun v => { v with kmallocs := rest }
    fail
  | [] => fail

/-- `block_read`, to `offset` in an array. -/
def blockRead (lba count : Nat) (b : Buffer) (offset : Nat) : Effect Volume Buffer := do
  let v ← get
  require (count ≠ 0)
  require (v.sectorCount ≠ 0)
  require (lba < v.sectorCount)
  require (count ≤ v.sectorCount - lba)
  demand (offset + count * 512 ≤ b.size)
  return { b with bytes := copyFrom b.bytes offset v.image (lba * 512) (count * 512) }

/-- `block_write`, from `offset` in an array. -/
def blockWrite (lba count : Nat) (b : Buffer) (offset : Nat) : Effect Volume Unit := do
  let v ← get
  require (count ≠ 0)
  require (v.sectorCount ≠ 0)
  require (lba < v.sectorCount)
  require (count ≤ v.sectorCount - lba)
  demand (offset + count * 512 ≤ b.size)
  modify fun v =>
    { v with image := copyFrom v.image (lba * 512) b.bytes offset (count * 512) }

/-- `ext2_read_block`. -/
def readBlock (blockSize blockNumber : Nat) (b : Buffer) : Effect Volume Buffer := do
  require (blockSize ≠ 0)
  require (blockSize % 512 = 0)
  let sectorsPerBlock := blockSize / 512
  blockRead (blockNumber * sectorsPerBlock) sectorsPerBlock b 0

/-- `ext2_write_block`. -/
def writeBlock (blockSize blockNumber : Nat) (b : Buffer) (offset : Nat) : Effect Volume Unit := do
  require (blockSize ≠ 0)
  require (blockSize % 512 = 0)
  let sectorsPerBlock := blockSize / 512
  blockWrite (blockNumber * sectorsPerBlock) sectorsPerBlock b offset

/-- `ext2_read_superblock`. -/
def readSuperblock : Effect Volume Unit := do
  let v ← get
  let buffer ← blockRead 2 2 ⟨1024, v.stale⟩ 0
  let superblock ← buffer.slice 0 Superblock.bytes
  modify fun v => { v with superblock }
  require (Superblock.magic superblock = 0xEF53)

/-- `ext2_write_superblock`. -/
def writeSuperblock : Effect Volume Unit := do
  let v ← get
  let buffer ← blockRead 2 2 ⟨1024, v.stale⟩ 0
  let buffer ← buffer.store 0 v.superblock Superblock.bytes
  blockWrite 2 2 buffer 0

/-! ## Group descriptors -/

/-- The block of a group descriptor and its index there. -/
def descriptorPlace (sb : Superblock) (blockSize group : Nat) : Nat × Nat :=
  let descriptorsPerBlock := blockSize / GroupDescriptor.bytes
  (u32 (u32 (sb.firstDataBlock + 1) + group / descriptorsPerBlock), group % descriptorsPerBlock)

/-- `ext2_read_group_descriptor`. -/
def readGroupDescriptor (group : Nat) : Effect Volume GroupDescriptor := do
  let v ← get
  let blockSize ← v.superblock.blockSize
  require (blockSize / GroupDescriptor.bytes ≠ 0)
  let (descriptorBlock, index) := descriptorPlace v.superblock blockSize group
  require (blockSize ≤ 4096)
  let block ← readBlock blockSize descriptorBlock v.array
  block.slice (index * GroupDescriptor.bytes) GroupDescriptor.bytes

/-- `ext2_write_group_descriptor`. -/
def writeGroupDescriptor (group : Nat) (descriptor : GroupDescriptor) : Effect Volume Unit := do
  let v ← get
  let blockSize ← v.superblock.blockSize
  require (blockSize ≤ 4096)
  require (blockSize / GroupDescriptor.bytes ≠ 0)
  let (descriptorBlock, index) := descriptorPlace v.superblock blockSize group
  let block ← readBlock blockSize descriptorBlock v.array
  let block ← block.store (index * GroupDescriptor.bytes) descriptor GroupDescriptor.bytes
  writeBlock blockSize descriptorBlock block 0

end MeatySkeleton.Ext2
