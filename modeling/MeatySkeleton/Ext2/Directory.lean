import MeatySkeleton.Ext2.Inodes

/-!
# Directories of a volume

The scans of directory blocks: `ext2_lookup`, `ext2_list_directory`, `ext2_link_new_child` and
`ext2_vnode_readdir`. They look at the twelve direct blocks of a directory only. A record has
eight bytes of header and a name; the loops step from record to record, with the size of the
block as fuel.
-/

namespace MeatySkeleton.Ext2

open Lib Lib.Effect

/-- A name without its terminator. -/
abbrev Name := List UInt8

/-- `EXT2_FT_REG_FILE` and `EXT2_FT_DIR`. -/
def typeRegular : Nat := 1

def typeDirectory : Nat := 2

/-- The header of an `ext2_directory_entry_t`. -/
structure Record where
  inode : Nat
  recordLength : Nat
  nameLength : Nat
  fileType : Nat

/-- The record at `offset`, with the three checks of every scan. -/
def readRecord (blockSize offset : Nat) (block : Buffer) : Effect Volume Record := do
  let recordLength ← block.get16 (offset + 4)
  require (8 ≤ recordLength)
  require (offset + recordLength ≤ blockSize)
  let nameLength ← block.get8 (offset + 6)
  require (nameLength ≤ recordLength - 8)
  let inode ← block.get32 offset
  let fileType ← block.get8 (offset + 7)
  return ⟨inode, recordLength, nameLength, fileType⟩

/-- The name of a record of that name length. -/
def readName (block : Buffer) (offset nameLength : Nat) : Effect Volume Name := do
  let bytes ← block.slice (offset + 8) nameLength
  return (List.range nameLength).map bytes

/-- Whether a record is live and has the name. -/
def matchesName (block : Buffer) (offset : Nat) (record : Record) (name : Name) :
    Effect Volume Bool := do
  if record.inode ≠ 0 ∧ record.nameLength = name.length then
    let stored ← readName block offset record.nameLength
    return stored = name
  else return false

/-! ## Lookup -/

/-- The scan of one block in `ext2_lookup`. -/
def searchBlock (blockSize : Nat) (name : Name) (block : Buffer) :
    Nat → Nat → Effect Volume (Option Nat)
  | 0, _ => crash
  | fuel + 1, offset =>
    if blockSize ≤ offset then return none
    else do
      let record ← readRecord blockSize offset block
      let found ← matchesName block offset record name
      if found then return some record.inode
      else searchBlock blockSize name block fuel (offset + record.recordLength)

/-- The loop over the direct blocks in `ext2_lookup`. -/
def lookupFrom (blockSize : Nat) (directory : Inode) (name : Name) :
    Nat → Nat → Buffer → Effect Volume Nat
  | 0, _, _ => fail
  | left + 1, i, block => do
    demand (i < 15)
    if directory.block i = 0 then lookupFrom blockSize directory name left (i + 1) block
    else
      let block ← readBlock blockSize (directory.block i) block
      let found ← searchBlock blockSize name block (blockSize + 1) 0
      match found with
      | some inodeNumber => return inodeNumber
      | none => lookupFrom blockSize directory name left (i + 1) block

/-- `ext2_lookup`. -/
def lookup (directory : Inode) (name : Name) : Effect Volume Nat := do
  let v ← get
  require (directory.format = formatDirectory)
  let blockSize ← v.superblock.blockSize
  require (blockSize ≤ 4096)
  lookupFrom blockSize directory name 12 0 v.array

/-- The scan of `ext2_list_directory`, with the records that it has printed. -/
def listBlock (blockSize : Nat) (block : Buffer) :
    Nat → Nat → List (Record × Name) → Effect Volume (List (Record × Name))
  | 0, _, _ => crash
  | fuel + 1, offset, printed =>
    if blockSize ≤ offset then return printed
    else do
      let record ← readRecord blockSize offset block
      if record.inode = 0 then
        listBlock blockSize block fuel (offset + record.recordLength) printed
      else
        require (record.nameLength < 256)
        let name ← readName block offset record.nameLength
        listBlock blockSize block fuel (offset + record.recordLength) (printed ++ [(record, name)])

/-! ## Insertion -/

/-- `ext2_directory_entry_size`. -/
def directoryEntrySize (nameLength : Nat) : Nat := (u16 (8 + nameLength) + 3) / 4 * 4

/-- A record written at `offset`. -/
def putRecord (block : Buffer) (offset : Nat) (record : Record) (name : Name) :
    Effect Volume Buffer := do
  let block ← block.put32 offset record.inode
  let block ← block.put16 (offset + 4) record.recordLength
  let block ← block.put8 (offset + 6) record.nameLength
  let block ← block.put8 (offset + 7) record.fileType
  block.store (offset + 8) (fun i => name.getD i 0) name.length

/-- The link of a child, once its record is in the array. -/
structure Linking where
  directoryNumber : Nat
  directory : Inode
  childNumber : Nat
  child : Inode
  fileType : Nat
  childLinkCount : Nat

/-- The last part of `ext2_link_new_child`: the inodes first, then the block. -/
def publishChild (l : Linking) (blockSize blockNumber : Nat) (block : Buffer) :
    Effect Volume Unit := do
  let child := l.child.setLinkCount l.childLinkCount
  let unlinked := l.child.setLinkCount 0
  writeInode l.childNumber child
  when (l.fileType = typeDirectory) do
    when (l.directory.linkCount = 2 ^ 16 - 1) do
      let _ ← attempt (writeInode l.childNumber unlinked)
      fail
    let written ← attempt
      (writeInode l.directoryNumber (l.directory.setLinkCount (l.directory.linkCount + 1)))
    when (written.isNone) do
      let _ ← attempt (writeInode l.childNumber unlinked)
      fail
  let written ← attempt (writeBlock blockSize blockNumber block 0)
  when (written.isNone) do
    when (l.fileType = typeDirectory) do
      let _ ← attempt (writeInode l.directoryNumber l.directory)
    let _ ← attempt (writeInode l.childNumber unlinked)
    fail

/-- The scan of one block in `ext2_link_new_child`: the block with the new record, if it
has room for one. -/
def insertIntoBlock (blockSize : Nat) (name : Name) (inodeNumber fileType : Nat) (block : Buffer) :
    Nat → Nat → Effect Volume (Option Buffer)
  | 0, _ => crash
  | fuel + 1, offset =>
    if blockSize ≤ offset then return none
    else do
      let needed := directoryEntrySize name.length
      let record ← readRecord blockSize offset block
      let found ← matchesName block offset record name
      require (found = false)
      if record.inode = 0 ∧ needed ≤ record.recordLength then
        let block ← putRecord block offset
          ⟨inodeNumber, record.recordLength, name.length, fileType⟩ name
        return some block
      else
        let actual := directoryEntrySize record.nameLength
        if record.inode ≠ 0 ∧ actual + needed ≤ record.recordLength then
          -- the slack of a live record
          let block ← block.put16 (offset + 4) actual
          let block ← putRecord block (offset + actual)
            ⟨inodeNumber, record.recordLength - actual, name.length, fileType⟩ name
          return some block
        else
          insertIntoBlock blockSize name inodeNumber fileType block fuel
            (offset + record.recordLength)

/-- The loop over the direct blocks in `ext2_link_new_child`: the first block with room, with
the new record in it, and its number. -/
def insertFrom (blockSize : Nat) (directory : Inode) (name : Name) (inodeNumber fileType : Nat) :
    Nat → Nat → Buffer → Effect Volume (Nat × Buffer)
  | 0, _, _ => fail
  | left + 1, i, block => do
    demand (i < 15)
    if directory.block i = 0 then
      insertFrom blockSize directory name inodeNumber fileType left (i + 1) block
    else
      let block ← readBlock blockSize (directory.block i) block
      let inserted ← insertIntoBlock blockSize name inodeNumber fileType block (blockSize + 1) 0
      match inserted with
      | some block => return (directory.block i, block)
      | none => insertFrom blockSize directory name inodeNumber fileType left (i + 1) block

/-- `ext2_link_new_child`. -/
def linkNewChild (directoryNumber : Nat) (name : Name) (inodeNumber fileType childLinkCount : Nat) :
    Effect Volume Unit := do
  let v ← get
  require (fileType = typeRegular ∨ fileType = typeDirectory)
  require (name.length ≠ 0 ∧ name.length ≤ 255)
  let directory ← readInode directoryNumber
  require (directory.format = formatDirectory)
  let child ← readInode inodeNumber
  require (child.format = if fileType = typeRegular then formatRegular else formatDirectory)
  require (child.linkCount = 0)
  let blockSize ← v.superblock.blockSize
  require (blockSize ≠ 0 ∧ blockSize ≤ 4096)
  let (blockNumber, block) ←
    insertFrom blockSize directory name inodeNumber fileType 12 0 v.array
  publishChild ⟨directoryNumber, directory, inodeNumber, child, fileType, childLinkCount⟩ blockSize
    blockNumber block

/-- `ext2_link_new_regular_file`. -/
def linkNewRegularFile (directoryNumber : Nat) (name : Name) (inodeNumber : Nat) :
    Effect Volume Unit :=
  linkNewChild directoryNumber name inodeNumber typeRegular 1

/-! ## Listing -/

/-- `vfs_dirent_t`. -/
structure Dirent where
  inode : Nat
  directory : Bool
  name : Name

/-- The type of a record in `ext2_vnode_readdir`. -/
def recordIsDirectory (record : Record) : Effect Volume Bool := do
  if record.fileType = typeDirectory then return true
  else if record.fileType = typeRegular then return false
  else
    let child ← readInode record.inode
    if child.format = formatDirectory then return true
    else
      require (child.format = formatRegular)
      return false

/-- The loop of `ext2_vnode_readdir`: the next entry, if there is one, and the offset behind
it. -/
def readdirFrom (blockSize directorySize : Nat) (inode : Inode) :
    Nat → Nat → Effect Volume (Option Dirent × Nat)
  | 0, _ => crash
  | fuel + 1, offset =>
    if directorySize ≤ offset then return (none, directorySize)
    else do
      let logicalBlock ← divide offset blockSize
      require (logicalBlock < 12)
      let offsetInBlock ← modulo offset blockSize
      demand (logicalBlock < 15)
      let blockNumber := inode.block logicalBlock
      if blockNumber = 0 then
        let next := u32 ((logicalBlock + 1) * blockSize)
        require (offset < next)
        readdirFrom blockSize directorySize inode fuel next
      else
        let v ← get
        let block ← readBlock blockSize blockNumber v.array
        require (offsetInBlock + 8 ≤ blockSize)
        let record ← readRecord blockSize offsetInBlock block
        let followingOffset := u32 (offset + record.recordLength)
        require (offset < followingOffset)
        require (followingOffset ≤ directorySize)
        if record.inode = 0 then readdirFrom blockSize directorySize inode fuel followingOffset
        else
          require (record.nameLength < 256)
          let name ← readName block offsetInBlock record.nameLength
          let directory ← recordIsDirectory record
          return (some ⟨record.inode, directory, name⟩, followingOffset)

/-- `ext2_vnode_readdir`. -/
def readdir (inode : Inode) (offset : Nat) : Effect Volume (Option Dirent × Nat) := do
  let v ← get
  require (inode.format = formatDirectory)
  let blockSize ← v.superblock.blockSize
  require (blockSize ≠ 0 ∧ blockSize ≤ 4096)
  readdirFrom blockSize inode.sizeLow inode (inode.sizeLow + 1) offset

end MeatySkeleton.Ext2
