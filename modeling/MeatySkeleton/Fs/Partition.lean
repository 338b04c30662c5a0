import MeatySkeleton.Lib.Attempt
import MeatySkeleton.Lib.Bytes
import Mathlib.Data.List.Range

/-!
# Partitions of a disk

`block_read` and `block_write` of `block_device.c`, and of `partition.c` the block
device of a partition and the two scanners. What a disk holds is up to its driver, and
a command may fail. Every function logs the commands its disk receives and the 64-bit
sums and differences of LBAs it computes, so that "touches only these sectors" and
"nothing wraps around" are statements about the log.

The scanners trust no field of the disk: `DiskEvent.Fits` holds of everything they do, for
any contents, and what they return lies inside the disk.
-/

namespace MeatySkeleton.Fs

open List Lib Lib.Attempt

inductive DiskEvent where
  | read (lba count : Nat)
  | write (lba count : Nat)
  /-- The sum of two 64-bit numbers, about to be cut to 64 bits. -/
  | sum (a b : Nat)
  | difference (a b : Nat)

abbrev Io := Attempt DiskEvent

/-- `block_device_t`; `none` for a null function pointer. -/
structure BlockDevice where
  sectorSize : Nat
  sectorCount : Nat
  read : Option (Nat → Nat → Io Mem)
  write : Option (Nat → Nat → Mem → Io Unit)

/-! ## Block devices -/

def sum64 (a b : Nat) : Io Nat := do
  emit (.sum a b)
  return (a + b) % 2 ^ 64

def difference64 (a b : Nat) : Io Nat := do
  emit (.difference a b)
  return (a + 2 ^ 64 - b) % 2 ^ 64

/-- `block_device_valid`. -/
def BlockDevice.Valid (device : BlockDevice) : Prop :=
  device.sectorSize ≠ 0 ∧ device.sectorCount ≠ 0 ∧ device.read.isSome

instance (device : BlockDevice) : Decidable device.Valid :=
  inferInstanceAs (Decidable (_ ∧ _))

/-- The range check of `block_read`, `block_write` and of a partition's two functions. -/
def checkRange (sectorCount lba count : Nat) : Io Unit := do
  require (lba < sectorCount)
  let left ← difference64 sectorCount lba
  require (count ≤ left)

def blockRead (device : BlockDevice) (lba count : Nat) : Io Mem := do
  require (count ≠ 0)
  require device.Valid
  checkRange device.sectorCount lba count
  match device.read with
  | some read => read lba count
  | none => fail

def blockWrite (device : BlockDevice) (lba count : Nat) (buffer : Mem) : Io Unit := do
  require (count ≠ 0)
  require device.Valid
  match device.write with
  | some write =>
    checkRange device.sectorCount lba count
    write lba count buffer
  | none => fail

/-- A disk and its driver. -/
structure Drive where
  sectorSize : Nat
  sectorCount : Nat
  sectorCount_lt : sectorCount < 2 ^ 64
  /-- What a read command returns, if it succeeds. -/
  read : Option (Nat → Nat → Option Mem)
  /-- Whether a write command succeeds. -/
  write : Option (Nat → Nat → Mem → Bool)

/-- The drive as a block device that logs the commands it gets. -/
def Drive.device (drive : Drive) : BlockDevice where
  sectorSize := drive.sectorSize
  sectorCount := drive.sectorCount
  read := drive.read.map fun read lba count => ⟨read lba count, [.read lba count]⟩
  write := drive.write.map fun write lba count buffer =>
    ⟨if write lba count buffer then some () else none, [.write lba count]⟩

/-! ## The block device of a partition -/

structure PartitionDevice where
  parent : BlockDevice
  startLba : Nat
  sectorCount : Nat
  name : String

def partitionRead (partition : PartitionDevice) (lba count : Nat) : Io Mem := do
  require (count ≠ 0)
  require partition.parent.read.isSome
  checkRange partition.sectorCount lba count
  blockRead partition.parent (← sum64 partition.startLba lba) count

def partitionWrite (partition : PartitionDevice) (lba count : Nat) (buffer : Mem) : Io Unit := do
  require (count ≠ 0)
  require partition.parent.write.isSome
  checkRange partition.sectorCount lba count
  blockWrite partition.parent (← sum64 partition.startLba lba) count buffer

/-- `partition->block`, as `partition_initialize` fills it in. -/
def PartitionDevice.block (partition : PartitionDevice) : BlockDevice where
  sectorSize := partition.parent.sectorSize
  sectorCount := partition.sectorCount
  read := some (partitionRead partition)
  write := some (partitionWrite partition)

/-! ## The partition table of a master boot record -/

def mbrPartitionCount : Nat := 4

/-- The fields of `mbr_partition_entry_t` the code reads. -/
structure MbrPartitionEntry where
  type : UInt8
  startLba : Nat
  sectorCount : Nat

def mbrEntry (sector : Mem) (index : Nat) : MbrPartitionEntry where
  type := sector (446 + 16 * index + 4)
  startLba := get32 sector (446 + 16 * index + 8)
  sectorCount := get32 sector (446 + 16 * index + 12)

/-- The signature at the end of the boot sector. -/
def HasBootSignature (sector : Mem) : Prop := sector 510 = 0x55 ∧ sector 511 = 0xAA

instance (sector : Mem) : Decidable (HasBootSignature sector) :=
  inferInstanceAs (Decidable (_ ∧ _))

def partitionFromMbr (disk : BlockDevice) (index : Nat) : Io PartitionDevice := do
  require (index < mbrPartitionCount)
  require (disk.sectorSize = 512)
  let sector ← blockRead disk 0 1
  require (HasBootSignature sector)
  let entry := mbrEntry sector index
  require (entry.type ≠ 0 ∧ entry.sectorCount ≠ 0)
  checkRange disk.sectorCount entry.startLba entry.sectorCount
  return { parent := disk, startLba := entry.startLba, sectorCount := entry.sectorCount,
           name := "mbr-partition" }

def mbrIsProtectiveGpt (disk : BlockDevice) : Io Bool := do
  let sector ← blockRead disk 0 1
  require (HasBootSignature sector)
  return (List.range mbrPartitionCount).any fun i => (mbrEntry sector i).type = 0xEE

/-- The loop of the scanners: `parse` every index until the array is full. -/
def scanIndices (parse : Nat → Io PartitionDevice) (maxPartitions : Nat) :
    List Nat → List PartitionDevice → Io (List PartitionDevice)
  | [], found => return found
  | index :: indices, found =>
    if found.length < maxPartitions then do
      let partition ← attempt (parse index)
      scanIndices parse maxPartitions indices (found ++ partition.toList)
    else return found

def partitionScanMbr (disk : BlockDevice) (maxPartitions : Nat) : Io (List PartitionDevice) :=
  scanIndices (partitionFromMbr disk) maxPartitions (List.range mbrPartitionCount) []

/-! ## GUID partition tables -/

def crcBit (crc : BitVec 32) : BitVec 32 :=
  if crc &&& 1#32 = 1#32 then (crc >>> 1) ^^^ 0xEDB88320#32 else crc >>> 1

def crc32Update (crc : BitVec 32) (data : Mem) (length : Nat) : BitVec 32 :=
  (List.range length).foldl (fun crc i => Nat.iterate crcBit 8 (crc ^^^ (data i).toBitVec.setWidth 32)) crc

def crc32Finish (crc : BitVec 32) : BitVec 32 := ~~~crc

def crc32Compute (data : Mem) (length : Nat) : BitVec 32 :=
  crc32Finish (crc32Update 0xFFFFFFFF#32 data length)

/-- The check value of this CRC: that of the digits 1 to 9. -/
example : crc32Compute (fun i => UInt8.ofNat (0x31 + i)) 9 = 0xCBF43926#32 := by decide +kernel

def gptHeaderSignature : Nat := 0x5452415020494645

/-- The fields of `gpt_header_t` the code reads. -/
structure GptHeader where
  signature : Nat
  headerSize : Nat
  headerCrc32 : Nat
  firstUsableLba : Nat
  lastUsableLba : Nat
  partitionEntriesLba : Nat
  partitionEntryCount : Nat
  partitionEntrySize : Nat
  partitionEntriesCrc32 : Nat

def gptHeader (sector : Mem) : GptHeader where
  signature := get64 sector 0
  headerSize := get32 sector 12
  headerCrc32 := get32 sector 16
  firstUsableLba := get64 sector 40
  lastUsableLba := get64 sector 48
  partitionEntriesLba := get64 sector 72
  partitionEntryCount := get32 sector 80
  partitionEntrySize := get32 sector 84
  partitionEntriesCrc32 := get32 sector 88

/-- `sizeof(gpt_partition_entry_t)`. -/
def gptPartitionEntrySize : Nat := 128

structure GptPartitionEntry where
  typeGuid : List UInt8
  firstLba : Nat
  lastLba : Nat

def gptEntry (sector : Mem) (offset : Nat) : GptPartitionEntry where
  typeGuid := (List.range 16).map fun i => sector (offset + i)
  firstLba := get64 sector (offset + 32)
  lastLba := get64 sector (offset + 40)

/-- The loop over the sectors of the entry table, with the CRC of the bytes so far. -/
def tableCrc (disk : BlockDevice) (remaining tableLba : Nat) (crc : BitVec 32) : Io (BitVec 32) :=
  if 0 < remaining then do
    let sector ← blockRead disk tableLba 1
    let chunk := if remaining < 512 then remaining else 512
    let next ← sum64 tableLba 1
    tableCrc disk (remaining - chunk) next (crc32Update crc sector chunk)
  else return crc
termination_by remaining
decreasing_by split <;> omega

/-- The body of the loop over the entries: `continue` is giving up. -/
def gptPartitionAt (disk : BlockDevice) (header : GptHeader) (index : Nat) :
    Io PartitionDevice := do
  let byteOffset := index * header.partitionEntrySize
  let entryLba ← sum64 header.partitionEntriesLba (byteOffset / disk.sectorSize)
  let offset := byteOffset % disk.sectorSize
  require (offset + header.partitionEntrySize ≤ disk.sectorSize)
  let entrySector ← blockRead disk entryLba 1
  let entry := gptEntry entrySector offset
  require (entry.typeGuid.any (· ≠ 0))
  require (entry.firstLba ≤ entry.lastLba)
  require (header.firstUsableLba ≤ entry.firstLba)
  require (entry.lastLba ≤ header.lastUsableLba)
  require (entry.lastLba < disk.sectorCount)
  let sectorCount ← sum64 (← difference64 entry.lastLba entry.firstLba) 1
  return { parent := disk, startLba := entry.firstLba, sectorCount, name := "gpt-partition" }

def partitionScanGpt (disk : BlockDevice) (maxPartitions : Nat) : Io (List PartitionDevice) := do
  require (disk.sectorSize = 512)
  let headerSector ← blockRead disk 1 1
  let header := gptHeader headerSector
  require (header.signature = gptHeaderSignature)
  require (92 ≤ header.headerSize ∧ header.headerSize ≤ disk.sectorSize)
  require (gptPartitionEntrySize ≤ header.partitionEntrySize)
  -- the checksum is taken with its own field set to zero
  require ((crc32Compute (put32 headerSector 16 0) header.headerSize).toNat = header.headerCrc32)
  let tableBytes := header.partitionEntryCount * header.partitionEntrySize
  let crc ← tableCrc disk tableBytes header.partitionEntriesLba 0xFFFFFFFF#32
  require ((crc32Finish crc).toNat = header.partitionEntriesCrc32)
  scanIndices (gptPartitionAt disk header) maxPartitions (List.range header.partitionEntryCount) []

/-- `partition_scan`; its result counts as no partition where a scanner gave up. -/
def partitionScan (disk : BlockDevice) (maxPartitions : Nat) : Io (List PartitionDevice) := do
  if maxPartitions = 0 then return []
  let protective ← attempt (mbrIsProtectiveGpt disk)
  let found ← attempt
    (if protective = some true then partitionScanGpt disk maxPartitions
      else partitionScanMbr disk maxPartitions)
  return found.getD []

/-! ## Nothing leaves its range -/

/-- A command stays between `lo` and `hi`, and 64-bit arithmetic does not wrap around. -/
def DiskEvent.Fits (lo hi : Nat) : DiskEvent → Prop
  | .read lba count | .write lba count => 0 < count ∧ lo ≤ lba ∧ lba + count ≤ hi
  | .sum a b => a + b < 2 ^ 64
  | .difference a b => b ≤ a

variable {lo hi a b lba count n : Nat} {drive : Drive} {buffer : Mem} {partition : PartitionDevice}

theorem sum64_meets (h : a + b < 2 ^ 64) :
    Meets (DiskEvent.Fits lo hi) (sum64 a b) fun r => r = a + b := by
  have hfits : DiskEvent.Fits lo hi (.sum a b) := h
  exact (Meets.emit hfits).bind fun _ _ => .pure (Nat.mod_eq_of_lt h)

theorem difference64_meets (h : b ≤ a) (ha : a < 2 ^ 64) :
    Meets (DiskEvent.Fits lo hi) (difference64 a b) fun r => r = a - b := by
  have hfits : DiskEvent.Fits lo hi (.difference a b) := h
  exact (Meets.emit hfits).bind fun _ _ => .pure (by omega)

theorem checkRange_meets (hn : n < 2 ^ 64) :
    Meets (DiskEvent.Fits lo hi) (checkRange n lba count) fun _ => lba + count ≤ n := by
  refine .require fun hlba => (difference64_meets (Nat.le_of_lt hlba) hn).bind ?_
  rintro left rfl
  exact Meets.check.mono fun _ hcount => by omega

/-- A read from the drive issues one command, for the sectors that were asked for. -/
theorem driveRead_meets
    (hrange : 0 < count → lba + count ≤ drive.sectorCount → lo ≤ lba ∧ lba + count ≤ hi) :
    Meets (DiskEvent.Fits lo hi) (blockRead drive.device lba count) fun data =>
      lba + count ≤ drive.sectorCount ∧
        ∃ read, drive.read = some read ∧ read lba count = some data := by
  refine .require fun hcount => .require fun _ =>
    (checkRange_meets drive.sectorCount_lt).bind fun _ hfits => ?_
  have hpos : 0 < count := Nat.pos_of_ne_zero hcount
  cases hread : drive.read with
  | none =>
    rw [Drive.device, hread]
    exact .fail
  | some read =>
    rw [Drive.device, hread]
    constructor
    case log => exact fun e he => mem_singleton.mp he ▸ ⟨hpos, hrange hpos hfits⟩
    case value => exact fun data hdata => ⟨hfits, read, rfl, hdata⟩

theorem driveWrite_meets
    (hrange : 0 < count → lba + count ≤ drive.sectorCount → lo ≤ lba ∧ lba + count ≤ hi) :
    Meets (DiskEvent.Fits lo hi) (blockWrite drive.device lba count buffer) fun _ =>
      lba + count ≤ drive.sectorCount := by
  refine .require fun hcount => .require fun _ => ?_
  have hpos : 0 < count := Nat.pos_of_ne_zero hcount
  cases hwrite : drive.write with
  | none =>
    rw [Drive.device, hwrite]
    exact .fail
  | some write =>
    rw [Drive.device, hwrite]
    refine (checkRange_meets drive.sectorCount_lt).bind fun _ hfits => ?_
    constructor
    case log => exact fun e he => mem_singleton.mp he ▸ ⟨hpos, hrange hpos hfits⟩
    case value => exact fun _ _ => hfits

/-- A partition of the drive that lies inside it. -/
structure PartitionDevice.On (partition : PartitionDevice) (drive : Drive) : Prop where
  parent : partition.parent = drive.device
  nonempty : 0 < partition.sectorCount
  inside : partition.startLba + partition.sectorCount ≤ drive.sectorCount

section

variable (h : partition.On drive)

include h

theorem partitionRead_meets :
    Meets (DiskEvent.Fits partition.startLba (partition.startLba + partition.sectorCount))
      (partitionRead partition lba count) fun data => lba + count ≤ partition.sectorCount ∧
        ∃ read, drive.read = some read ∧ read (partition.startLba + lba) count = some data := by
  have hlt := drive.sectorCount_lt
  have hinside := h.inside
  refine .require fun _ => .require fun _ =>
    (checkRange_meets (by omega)).bind fun _ hrange => (sum64_meets (by omega)).bind ?_
  rintro _ rfl
  rw [h.parent]
  exact (driveRead_meets fun _ _ => by omega).mono fun data hdata => ⟨hrange, hdata.2⟩

theorem partitionWrite_meets :
    Meets (DiskEvent.Fits partition.startLba (partition.startLba + partition.sectorCount))
      (partitionWrite partition lba count buffer) fun _ => lba + count ≤ partition.sectorCount := by
  have hlt := drive.sectorCount_lt
  have hinside := h.inside
  refine .require fun _ => .require fun _ =>
    (checkRange_meets (by omega)).bind fun _ hrange => (sum64_meets (by omega)).bind ?_
  rintro _ rfl
  rw [h.parent]
  exact (driveWrite_meets fun _ _ => by omega).mono fun _ _ => hrange

/-- A read through the block device of a partition. -/
theorem blockRead_partition :
    Meets (DiskEvent.Fits partition.startLba (partition.startLba + partition.sectorCount))
      (blockRead partition.block lba count) fun data => lba + count ≤ partition.sectorCount ∧
        ∃ read, drive.read = some read ∧ read (partition.startLba + lba) count = some data := by
  have hlt := drive.sectorCount_lt
  have hinside := h.inside
  refine .require fun _ => .require fun _ => ?_
  have hcount : partition.block.sectorCount < 2 ^ 64 := by
    change partition.sectorCount < 2 ^ 64
    omega
  exact (checkRange_meets hcount).bind fun _ _ => partitionRead_meets h

theorem blockWrite_partition :
    Meets (DiskEvent.Fits partition.startLba (partition.startLba + partition.sectorCount))
      (blockWrite partition.block lba count buffer) fun _ =>
        lba + count ≤ partition.sectorCount := by
  have hlt := drive.sectorCount_lt
  have hinside := h.inside
  refine .require fun _ => .require fun _ => ?_
  have hcount : partition.block.sectorCount < 2 ^ 64 := by
    change partition.sectorCount < 2 ^ 64
    omega
  exact (checkRange_meets hcount).bind fun _ _ => partitionWrite_meets h

end

/-! ## The scanners -/

theorem partitionFromMbr_meets (index : Nat) :
    Meets (DiskEvent.Fits 0 drive.sectorCount) (partitionFromMbr drive.device index) fun p =>
      p.On drive := by
  refine .require fun _ => .require fun _ =>
    (driveRead_meets fun _ h => ⟨Nat.zero_le _, h⟩).bind fun sector _ => .require fun _ =>
    .require fun hentry => (checkRange_meets drive.sectorCount_lt).bind fun _ hfits => .pure ?_
  exact ⟨rfl, Nat.pos_of_ne_zero hentry.2, hfits⟩

theorem mbrIsProtectiveGpt_meets :
    Meets (DiskEvent.Fits 0 drive.sectorCount) (mbrIsProtectiveGpt drive.device) fun _ => True :=
  (driveRead_meets fun _ h => ⟨Nat.zero_le _, h⟩).bind fun _ _ => .require fun _ => .pure trivial

/-- The loop keeps what its body establishes, and fills at most the array. -/
theorem scanIndices_meets {P : DiskEvent → Prop} {Q : PartitionDevice → Prop}
    {parse : Nat → Io PartitionDevice} {maxPartitions : Nat} :
    ∀ {indices : List Nat} {found : List PartitionDevice},
      (∀ index ∈ indices, Meets P (parse index) Q) → (∀ p ∈ found, Q p) →
      found.length ≤ maxPartitions →
      Meets P (scanIndices parse maxPartitions indices found) fun found =>
        found.length ≤ maxPartitions ∧ ∀ p ∈ found, Q p
  | [], found, _, hfound, hlength => .pure ⟨hlength, hfound⟩
  | index :: indices, found, hparse, hfound, hlength => by
    rw [scanIndices]
    split
    next hroom =>
      refine (hparse index mem_cons_self).attempt.bind fun o ho => ?_
      refine scanIndices_meets (fun i hi => hparse i (mem_cons_of_mem _ hi)) ?_ ?_
      · intro p hp
        rcases mem_append.mp hp with hp | hp
        · exact hfound p hp
        · exact ho p (Option.mem_toList.mp hp)
      · rw [length_append]
        have hone : o.toList.length ≤ 1 := by cases o <;> simp
        omega
    next => exact .pure ⟨hlength, hfound⟩

theorem partitionScanMbr_meets (maxPartitions : Nat) :
    Meets (DiskEvent.Fits 0 drive.sectorCount) (partitionScanMbr drive.device maxPartitions)
      fun found => found.length ≤ maxPartitions ∧ ∀ p ∈ found, p.On drive :=
  scanIndices_meets (fun index _ => partitionFromMbr_meets index)
    (fun _ hp => absurd hp not_mem_nil) (Nat.zero_le _)

/-- The table the loop got through lies on the drive. -/
theorem tableCrc_meets : ∀ (remaining tableLba : Nat) (crc : BitVec 32),
    Meets (DiskEvent.Fits 0 drive.sectorCount) (tableCrc drive.device remaining tableLba crc)
      fun _ => ∀ i, 512 * i < remaining → tableLba + i < drive.sectorCount := by
  intro remaining
  induction remaining using Nat.strong_induction_on with
  | _ remaining ih =>
    intro tableLba crc
    have hlt := drive.sectorCount_lt
    rw [tableCrc]
    split
    next hpos =>
      refine (driveRead_meets fun _ h => ⟨Nat.zero_le _, h⟩).bind fun sector hread => ?_
      obtain ⟨hlba, -⟩ := hread
      refine (sum64_meets (by omega)).bind ?_
      rintro _ rfl
      refine (ih _ (by split <;> omega) _ _).mono fun _ hrest i hi => ?_
      cases i with
      | zero => exact hlba
      | succ i =>
        have hnext := hrest i
        split at hnext <;> omega
    next hzero => exact .pure fun i hi => by omega

theorem gptPartitionAt_meets {header : GptHeader} {index : Nat}
    (hsize : drive.sectorSize = 512)
    (hentry : header.partitionEntriesLba + index * header.partitionEntrySize / 512 < 2 ^ 64) :
    Meets (DiskEvent.Fits 0 drive.sectorCount) (gptPartitionAt drive.device header index)
      fun p => p.On drive := by
  have hlt := drive.sectorCount_lt
  have hsize' : drive.device.sectorSize = 512 := hsize
  rw [gptPartitionAt, hsize']
  refine (sum64_meets hentry).bind fun entryLba _ => .require fun _ =>
    (driveRead_meets fun _ h => ⟨Nat.zero_le _, h⟩).bind fun sector _ => .require fun _ =>
    .require fun hordered => .require fun _ => .require fun _ => .require fun hlast => ?_
  change _ < drive.sectorCount at hlast
  refine (difference64_meets hordered (by omega)).bind ?_
  rintro _ rfl
  refine (sum64_meets (by omega)).bind ?_
  rintro _ rfl
  exact .pure ⟨rfl, Nat.succ_pos _, by dsimp only; omega⟩

theorem partitionScanGpt_meets (maxPartitions : Nat) :
    Meets (DiskEvent.Fits 0 drive.sectorCount) (partitionScanGpt drive.device maxPartitions)
      fun found => found.length ≤ maxPartitions ∧ ∀ p ∈ found, p.On drive := by
  have hlt := drive.sectorCount_lt
  refine .require fun hsize => (driveRead_meets fun _ h => ⟨Nat.zero_le _, h⟩).bind fun sector _ => ?_
  dsimp only
  generalize gptHeader sector = header
  refine .require fun _ => .require fun _ => .require fun hentrySize => .require fun _ =>
    (tableCrc_meets _ _ _).bind fun crc htable => .require fun _ => ?_
  refine scanIndices_meets (fun index hindex => gptPartitionAt_meets hsize ?_)
    (fun _ hp => absurd hp not_mem_nil) (Nat.zero_le _)
  -- the entry starts in a sector of the table, and all of these were read
  have hindex := mem_range.mp hindex
  have hbefore : index * header.partitionEntrySize <
      header.partitionEntryCount * header.partitionEntrySize :=
    Nat.mul_lt_mul_of_pos_right hindex (by rw [gptPartitionEntrySize] at hentrySize; omega)
  have hsector := htable (index * header.partitionEntrySize / 512)
    (Nat.lt_of_le_of_lt (Nat.mul_div_le _ _) hbefore)
  omega

theorem partitionScan_meets (drive : Drive) (maxPartitions : Nat) :
    Meets (DiskEvent.Fits 0 drive.sectorCount) (partitionScan drive.device maxPartitions)
      fun found => found.length ≤ maxPartitions ∧ ∀ p ∈ found, p.On drive := by
  have hnone : ∀ p ∈ ([] : List PartitionDevice), p.On drive := fun _ hp =>
    absurd hp not_mem_nil
  rw [partitionScan]
  split
  next => exact .pure ⟨Nat.zero_le _, hnone⟩
  next =>
    refine mbrIsProtectiveGpt_meets.attempt.bind fun protective _ => ?_
    have hscan : Meets (DiskEvent.Fits 0 drive.sectorCount)
        (if protective = some true then partitionScanGpt drive.device maxPartitions
          else partitionScanMbr drive.device maxPartitions)
        fun found => found.length ≤ maxPartitions ∧ ∀ p ∈ found, p.On drive := by
      split
      · exact partitionScanGpt_meets maxPartitions
      · exact partitionScanMbr_meets maxPartitions
    refine hscan.attempt.bind fun o ho => .pure ?_
    cases o with
    | none => exact ⟨Nat.zero_le _, hnone⟩
    | some found => exact ho found rfl

/-- The scan itself never gives up. -/
theorem partitionScan_returns (disk : BlockDevice) (maxPartitions : Nat) :
    ∃ found, (partitionScan disk maxPartitions).value = some found := by
  rw [partitionScan]
  split
  · exact ⟨[], rfl⟩
  · exact ⟨_, rfl⟩

/-- What a read or write through a partition may do: fail without a command for the drive, or
reach only sectors of the partition. -/
def PartitionDevice.Keeps {α : Type} (partition : PartitionDevice) (m : Io α) : Prop :=
  ∀ e ∈ m.log, e.Fits partition.startLba (partition.startLba + partition.sectorCount)

/-- Whatever the drive holds: the scan stays on the drive and its arithmetic does not wrap
around, every partition it returns lies inside the drive, and so does all that is read or
written through it. -/
theorem partitionScan_safe (drive : Drive) (maxPartitions : Nat) :
    (∀ e ∈ (partitionScan drive.device maxPartitions).log, e.Fits 0 drive.sectorCount) ∧
    ∃ found, (partitionScan drive.device maxPartitions).value = some found ∧
      found.length ≤ maxPartitions ∧
      ∀ p ∈ found, p.On drive ∧ ∀ lba count,
        p.Keeps (blockRead p.block lba count) ∧
        (∀ data, (blockRead p.block lba count).value = some data →
          ∃ read, drive.read = some read ∧ read (p.startLba + lba) count = some data) ∧
        ∀ buffer, p.Keeps (blockWrite p.block lba count buffer) := by
  have hscan := partitionScan_meets drive maxPartitions
  obtain ⟨found, hfound⟩ := partitionScan_returns drive.device maxPartitions
  obtain ⟨hlength, hon⟩ := hscan.value found hfound
  refine ⟨hscan.log, found, hfound, hlength, fun p hp => ⟨hon p hp, fun lba count => ?_⟩⟩
  have hread : Meets _ (blockRead p.block lba count) _ := blockRead_partition (hon p hp)
  exact ⟨hread.log, fun data hdata => (hread.value data hdata).2,
    fun buffer => (blockWrite_partition (hon p hp)).log⟩

end MeatySkeleton.Fs
