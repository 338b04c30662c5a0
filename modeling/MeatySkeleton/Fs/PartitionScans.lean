import MeatySkeleton.Fs.Partition

/-!
# The two readers of a GUID partition table

`partition_from_gpt` reads one entry of the table, and `partition_scan` all of them. The first
checks beforehand where the table and the entry lie; the scan leaves that to `block_read`. Both
take the checksum of the table sector by sector (`tableCrc_eq`), and they accept the same entries
(`partitionFromGpt_eq`).
-/

namespace MeatySkeleton.Fs

open List Option Lib Lib.Attempt

/-- `partition_from_gpt`. -/
def partitionFromGpt (disk : BlockDevice) (index : Nat) : Io PartitionDevice := do
  require (disk.sectorSize = 512)
  let headerSector ← blockRead disk 1 1
  let header := gptHeader headerSector
  require (header.signature = gptHeaderSignature)
  require (92 ≤ header.headerSize ∧ header.headerSize ≤ disk.sectorSize)
  require ((crc32Compute (put32 headerSector 16 0) header.headerSize).toNat = header.headerCrc32)
  require (gptPartitionEntrySize ≤ header.partitionEntrySize)
  require (index < header.partitionEntryCount)
  require (header.partitionEntriesLba < disk.sectorCount)
  let tableBytes := header.partitionEntryCount * header.partitionEntrySize
  let rounded ← sum64 tableBytes (disk.sectorSize - 1)
  let left ← difference64 disk.sectorCount header.partitionEntriesLba
  require (rounded / disk.sectorSize ≤ left)
  -- a chunk is a sector, and a sector has 512 bytes
  let crc ← tableCrc disk tableBytes header.partitionEntriesLba 0xFFFFFFFF#32
  require ((crc32Finish crc).toNat = header.partitionEntriesCrc32)
  let entryOffset := index * header.partitionEntrySize
  let entryLba ← sum64 header.partitionEntriesLba (entryOffset / disk.sectorSize)
  let offsetInSector := entryOffset % disk.sectorSize
  require (entryLba < disk.sectorCount)
  require (offsetInSector + header.partitionEntrySize ≤ disk.sectorSize)
  let entrySector ← blockRead disk entryLba 1
  let entry := gptEntry entrySector offsetInSector
  require (entry.typeGuid.any (· ≠ 0))
  require (entry.firstLba ≤ entry.lastLba)
  require (entry.firstLba < disk.sectorCount)
  require (entry.lastLba < disk.sectorCount)
  require (header.firstUsableLba ≤ entry.firstLba ∧ entry.lastLba ≤ header.lastUsableLba)
  let sectorCount ← sum64 (← difference64 entry.lastLba entry.firstLba) 1
  return { parent := disk, startLba := entry.firstLba, sectorCount, name := "gpt-partition" }

/-! ## The checksum of the table -/

/-- Byte `x` of what the disk holds from sector `lba` on. -/
def storedByte (disk : BlockDevice) (lba x : Nat) : UInt8 :=
  match (blockRead disk (lba + x / 512) 1).value with
  | some sector => sector (x % 512)
  | none => 0

/-- The sectors of the next `length` bytes can be read. -/
def Readable (disk : BlockDevice) (lba length : Nat) : Prop :=
  ∀ i, 512 * i < length → (blockRead disk (lba + i) 1).value.isSome

variable {drive : Drive} {disk : BlockDevice} {crc : BitVec 32} {data data' : Mem}
  {lba length index k : Nat}

theorem crc32Update_congr (h : ∀ i < length, data i = data' i) :
    crc32Update crc data length = crc32Update crc data' length := by
  unfold crc32Update
  apply foldl_ext
  intro crc i hi
  rw [h i (mem_range.mp hi)]

/-- The checksum of a part and of the rest. -/
theorem crc32Update_add (crc : BitVec 32) (data : Mem) (k length : Nat) :
    crc32Update (crc32Update crc data k) (fun i => data (k + i)) length =
      crc32Update crc data (k + length) := by
  unfold crc32Update
  rw [range_add, foldl_append, foldl_map]

theorem storedByte_succ (x : Nat) : storedByte disk (lba + 1) x = storedByte disk lba (512 + x) := by
  have hsector : lba + (512 + x) / 512 = lba + 1 + x / 512 := by omega
  have hbyte : (512 + x) % 512 = x % 512 := by omega
  unfold storedByte
  rw [hsector, hbyte]

theorem blockRead_some {sector : Mem} (h : (blockRead drive.device lba 1).value = some sector) :
    lba < drive.sectorCount := by
  have hmeets : Meets (DiskEvent.Fits 0 drive.sectorCount) (blockRead drive.device lba 1) _ :=
    driveRead_meets fun _ hin => ⟨Nat.zero_le _, hin⟩
  have hin := (hmeets.value sector h).1
  omega

/-- The loop over the sectors computes the checksum of the bytes that are stored. -/
theorem tableCrc_eq (h : Readable drive.device lba length) :
    (tableCrc drive.device length lba crc).value =
      some (crc32Update crc (storedByte drive.device lba) length) := by
  induction length using Nat.strong_induction_on generalizing lba crc with
  | _ length ih =>
    rw [tableCrc]
    split
    next hpos =>
      obtain ⟨sector, hsector⟩ := isSome_iff_exists.mp (h 0 hpos)
      rw [Nat.add_zero] at hsector
      have hlba := blockRead_some hsector
      have hcount := drive.sectorCount_lt
      have hnext : (sum64 lba 1).value = some (lba + 1) :=
        congrArg some (Nat.mod_eq_of_lt (by omega))
      have hbytes : ∀ i < 512, sector i = storedByte drive.device lba i := by
        intro i hi
        have hfirst : lba + i / 512 = lba := by omega
        unfold storedByte
        rw [hfirst, hsector, Nat.mod_eq_of_lt hi]
      rw [value_bind_some hsector]
      dsimp only
      rw [value_bind_some hnext]
      split
      case isTrue hlast =>
        -- the last sector, of which a part is used
        have hrest : Readable drive.device (lba + 1) (length - length) := by
          intro i hi
          omega
        rw [ih _ (by omega) hrest, Nat.sub_self, crc32Update_congr fun i hi => hbytes i (by omega)]
        rfl
      case isFalse hmore =>
        have hrest : Readable drive.device (lba + 1) (length - 512) := by
          intro i hi
          rw [Nat.add_assoc, Nat.add_comm 1 i]
          exact h (i + 1) (by omega)
        have hwhole := crc32Update_add crc (storedByte drive.device lba) 512 (length - 512)
        rw [Nat.add_sub_cancel' (Nat.le_of_not_lt hmore)] at hwhole
        have htail : storedByte drive.device (lba + 1) =
            fun i => storedByte drive.device lba (512 + i) := funext storedByte_succ
        rw [ih _ (by omega) hrest, crc32Update_congr hbytes, htail, hwhole]
    next hzero =>
      obtain rfl : length = 0 := by omega
      rfl

theorem tableCrc_readable (h : (tableCrc drive.device length lba crc).value.isSome) :
    Readable drive.device lba length := by
  induction length using Nat.strong_induction_on generalizing lba crc with
  | _ length ih =>
    intro i hi
    rw [tableCrc, if_pos (by omega)] at h
    cases hsector : (blockRead drive.device lba 1).value with
    | none =>
      rw [value_bind_none hsector] at h
      cases h
    | some sector =>
      have hlba := blockRead_some hsector
      have hcount := drive.sectorCount_lt
      have hnext : (sum64 lba 1).value = some (lba + 1) :=
        congrArg some (Nat.mod_eq_of_lt (by omega))
      rw [value_bind_some hsector] at h
      dsimp only at h
      rw [value_bind_some hnext] at h
      cases i with
      | zero => exact hsector ▸ rfl
      | succ i =>
        have hmore : ¬length < 512 := by omega
        rw [if_neg hmore] at h
        rw [Nat.add_comm i 1, ← Nat.add_assoc]
        exact ih _ (by omega) h i (by omega)

theorem Readable.lt (h : Readable drive.device lba length) (hk : 512 * k < length) :
    lba + k < drive.device.sectorCount := by
  obtain ⟨sector, hsector⟩ := isSome_iff_exists.mp (h k hk)
  exact blockRead_some hsector

/-! ## One entry -/

/-- A table that passes the checks of both readers, by the header in `sector`. -/
structure Verified (disk : BlockDevice) (sector : Mem) (crc : BitVec 32) : Prop where
  sectorSize : disk.sectorSize = 512
  header : (blockRead disk 1 1).value = some sector
  signature : (gptHeader sector).signature = gptHeaderSignature
  headerSize : 92 ≤ (gptHeader sector).headerSize ∧ (gptHeader sector).headerSize ≤ disk.sectorSize
  entrySize : gptPartitionEntrySize ≤ (gptHeader sector).partitionEntrySize
  headerCrc : (crc32Compute (put32 sector 16 0) (gptHeader sector).headerSize).toNat =
    (gptHeader sector).headerCrc32
  table : (tableCrc disk
    ((gptHeader sector).partitionEntryCount * (gptHeader sector).partitionEntrySize)
    (gptHeader sector).partitionEntriesLba 0xFFFFFFFF#32).value = some crc
  tableCrc : (crc32Finish crc).toNat = (gptHeader sector).partitionEntriesCrc32

variable {sector : Mem}

/-- The checks of the range of an entry, in the order of either reader. -/
theorem range_checks {α : Type} {first last usable usable' n : Nat} (hordered : first ≤ last)
    (x : Option α) :
    (if first < n then if last < n then if usable ≤ first ∧ last ≤ usable' then x else none
      else none else none) =
    if usable ≤ first then if last ≤ usable' then if last < n then x else none else none
      else none := by
  by_cases hlast : last < n
  · rw [if_pos (Nat.lt_of_le_of_lt hordered hlast), if_pos hlast, if_pos hlast]
    by_cases hfirst : usable ≤ first
    · simp [hfirst]
    · simp [hfirst]
  · simp [hlast]

/-- On a table that passes the checks both accept the same entries. -/
theorem partitionFromGpt_eq (h : Verified drive.device sector crc)
    (hindex : index < (gptHeader sector).partitionEntryCount) :
    (partitionFromGpt drive.device index).value =
      (gptPartitionAt drive.device (gptHeader sector) index).value := by
  obtain ⟨hsize, hheader, hsignature, hheaderSize, hroom, hheaderCrc, htable, hcrc⟩ := h
  have hread := tableCrc_readable (isSome_iff_exists.mpr ⟨crc, htable⟩)
  have hcount : (gptHeader sector).partitionEntryCount < 2 ^ 32 := get32_lt sector 80
  have hentry : (gptHeader sector).partitionEntrySize < 2 ^ 32 := get32_lt sector 84
  unfold partitionFromGpt gptPartitionAt
  rw [value_require, if_pos hsize, value_bind_some hheader]
  dsimp only
  rw [value_require, if_pos hsignature, value_require, if_pos hheaderSize, value_require,
    if_pos hheaderCrc, value_require, if_pos hroom, value_require, if_pos hindex]
  generalize gptHeader sector = header at *
  have hbytes : header.partitionEntryCount * header.partitionEntrySize ≤ (2 ^ 32 - 1) * (2 ^ 32 - 1) :=
    Nat.mul_le_mul (by omega) (by omega)
  -- the entry lies in the table, and the table on the disk
  have hbefore : index * header.partitionEntrySize + header.partitionEntrySize ≤
      header.partitionEntryCount * header.partitionEntrySize := by
    rw [← Nat.succ_mul]
    exact Nat.mul_le_mul_right _ hindex
  rw [gptPartitionEntrySize] at hroom
  have hpos : 0 < header.partitionEntryCount * header.partitionEntrySize := by omega
  generalize header.partitionEntryCount * header.partitionEntrySize = bytes at *
  generalize index * header.partitionEntrySize = entryOffset at *
  have hfirst := hread.lt (k := 0) (by omega)
  have hlast := hread.lt (k := (bytes - 1) / 512) (by omega)
  have hplace := hread.lt (k := entryOffset / 512) (by omega)
  have hlimit : drive.device.sectorCount < 2 ^ 64 := drive.sectorCount_lt
  rw [Nat.add_zero] at hfirst
  have hrounded : (sum64 bytes (512 - 1)).value = some (bytes + 511) :=
    congrArg some (Nat.mod_eq_of_lt (by omega))
  have hleft : (difference64 drive.device.sectorCount header.partitionEntriesLba).value =
      some (drive.device.sectorCount - header.partitionEntriesLba) := by
    apply congrArg some
    omega
  have hentryLba : (sum64 header.partitionEntriesLba (entryOffset / 512)).value =
      some (header.partitionEntriesLba + entryOffset / 512) :=
    congrArg some (Nat.mod_eq_of_lt (by omega))
  rw [hsize, value_require, if_pos hfirst, value_bind_some hrounded, value_bind_some hleft,
    value_require, if_pos (by omega), value_bind_some htable, value_require, if_pos hcrc,
    value_bind_some hentryLba, value_require, if_pos hplace, value_bind_some hentryLba,
    value_require, value_require]
  refine ite_congr rfl (fun hfits => ?_) fun _ => rfl
  rw [value_bind, value_bind]
  refine bind_congr fun entrySector _ => ?_
  generalize gptEntry entrySector (entryOffset % 512) = entry
  simp only [value_require]
  refine ite_congr rfl (fun hused => ?_) fun _ => rfl
  refine ite_congr rfl (fun hordered => ?_) fun _ => rfl
  exact range_checks hordered _

theorem partitionFromGpt_verified {partition : PartitionDevice}
    (h : (partitionFromGpt disk index).value = some partition) :
    ∃ sector crc, Verified disk sector crc ∧ index < (gptHeader sector).partitionEntryCount := by
  unfold partitionFromGpt at h
  rw [value_require_eq_some, value_bind_eq_some] at h
  obtain ⟨hsize, sector, hheader, h⟩ := h
  dsimp only at h
  rw [value_require_eq_some, value_require_eq_some, value_require_eq_some, value_require_eq_some,
    value_require_eq_some, value_require_eq_some, value_bind_eq_some] at h
  obtain ⟨hsignature, hheaderSize, hheaderCrc, hroom, hindex, -, rounded, -, h⟩ := h
  rw [value_bind_eq_some] at h
  obtain ⟨left, -, h⟩ := h
  rw [value_require_eq_some, value_bind_eq_some] at h
  obtain ⟨-, crc, htable, h⟩ := h
  rw [value_require_eq_some] at h
  exact ⟨sector, crc, ⟨hsize, hheader, hsignature, hheaderSize, hroom, hheaderCrc, htable, h.1⟩,
    hindex⟩

/-! ## The scan -/

/-- The loop of the scanners fills the array with what `parse` accepts. -/
theorem scanIndices_eq (parse : Nat → Io PartitionDevice) (maxPartitions : Nat)
    (indices : List Nat) (found : List PartitionDevice) (hfound : found.length ≤ maxPartitions) :
    (scanIndices parse maxPartitions indices found).value =
      some ((found ++ indices.filterMap fun index => (parse index).value).take maxPartitions) := by
  induction indices generalizing found with
  | nil =>
    rw [filterMap_nil, append_nil, take_of_length_le hfound]
    rfl
  | cons index indices ih =>
    rw [scanIndices]
    split
    case isTrue hroom =>
      have hattempt : (attempt (parse index)).value = some (parse index).value := rfl
      have hlength : (found ++ (parse index).value.toList).length ≤ maxPartitions := by
        rw [length_append]
        have hone : (parse index).value.toList.length ≤ 1 := length_toList_le
        omega
      rw [value_bind_some hattempt, ih _ hlength, append_assoc, filterMap_cons]
      cases (parse index).value with
      | none => rfl
      | some partition => rfl
    case isFalse hfull =>
      rw [take_append_of_le_length (by omega), take_of_length_le hfound]
      rfl

variable {maxPartitions : Nat}

theorem partitionScanGpt_verified {found : List PartitionDevice}
    (h : (partitionScanGpt disk maxPartitions).value = some found) :
    ∃ sector crc, Verified disk sector crc := by
  unfold partitionScanGpt at h
  rw [value_require_eq_some, value_bind_eq_some] at h
  obtain ⟨hsize, sector, hheader, h⟩ := h
  dsimp only at h
  rw [value_require_eq_some, value_require_eq_some, value_require_eq_some, value_require_eq_some,
    value_bind_eq_some] at h
  obtain ⟨hsignature, hheaderSize, hroom, hheaderCrc, crc, htable, h⟩ := h
  rw [value_require_eq_some] at h
  exact ⟨sector, crc, hsize, hheader, hsignature, hheaderSize, hroom, hheaderCrc, htable, h.1⟩

theorem partitionScanGpt_eq (h : Verified disk sector crc) (maxPartitions : Nat) :
    (partitionScanGpt disk maxPartitions).value =
      some (((List.range (gptHeader sector).partitionEntryCount).filterMap fun index =>
        (gptPartitionAt disk (gptHeader sector) index).value).take maxPartitions) := by
  obtain ⟨hsize, hheader, hsignature, hheaderSize, hroom, hheaderCrc, htable, hcrc⟩ := h
  unfold partitionScanGpt
  rw [value_require, if_pos hsize, value_bind_some hheader]
  dsimp only
  rw [value_require, if_pos hsignature, value_require, if_pos hheaderSize, value_require,
    if_pos hroom, value_require, if_pos hheaderCrc, value_bind_some htable, value_require,
    if_pos hcrc, scanIndices_eq _ _ _ _ (Nat.zero_le _), nil_append]

/-- A scan that gives up reports nothing. -/
theorem partitionScan_protective
    (hgpt : (mbrIsProtectiveGpt disk).value = some true) (hpos : maxPartitions ≠ 0) :
    (partitionScan disk maxPartitions).value =
      some ((partitionScanGpt disk maxPartitions).value.getD []) := by
  have hprotective : (attempt (mbrIsProtectiveGpt disk)).value = some (some true) :=
    congrArg some hgpt
  unfold partitionScan
  rw [if_neg hpos, value_bind_some hprotective, if_pos rfl]
  rfl

/-- The scan and the entries read one by one. -/
theorem partitionScan_entries
    (hgpt : (mbrIsProtectiveGpt drive.device).value = some true) :
    ∃ count, (∀ index, count ≤ index → (partitionFromGpt drive.device index).value = none) ∧
      (partitionScan drive.device maxPartitions).value =
        some (((List.range count).filterMap fun index =>
          (partitionFromGpt drive.device index).value).take maxPartitions) := by
  by_cases hverified : ∃ sector crc, Verified drive.device sector crc
  · obtain ⟨sector, crc, h⟩ := hverified
    refine ⟨(gptHeader sector).partitionEntryCount, ?_, ?_⟩
    · intro index hle
      by_contra hsome
      obtain ⟨partition, hpartition⟩ := ne_none_iff_exists'.mp hsome
      obtain ⟨sector', crc', h', hlt⟩ := partitionFromGpt_verified hpartition
      obtain rfl : sector' = sector := some.inj (h'.header.symm.trans h.header)
      omega
    · have hentries : ((List.range (gptHeader sector).partitionEntryCount).filterMap fun index =>
            (partitionFromGpt drive.device index).value) =
          (List.range (gptHeader sector).partitionEntryCount).filterMap fun index =>
            (gptPartitionAt drive.device (gptHeader sector) index).value := by
        apply filterMap_congr
        intro index hindex
        exact partitionFromGpt_eq h (mem_range.mp hindex)
      rw [hentries]
      by_cases hpos : maxPartitions = 0
      · rw [partitionScan, if_pos hpos, hpos, take_zero]
        rfl
      · rw [partitionScan_protective hgpt hpos, partitionScanGpt_eq h]
        rfl
  · -- neither reader gets past the checks
    refine ⟨0, ?_, ?_⟩
    · intro index _
      by_contra hsome
      obtain ⟨partition, hpartition⟩ := ne_none_iff_exists'.mp hsome
      obtain ⟨sector, crc, h, -⟩ := partitionFromGpt_verified hpartition
      exact hverified ⟨sector, crc, h⟩
    · rw [range_zero, filterMap_nil, take_nil]
      by_cases hpos : maxPartitions = 0
      · rw [partitionScan, if_pos hpos]
        rfl
      · have hnone : (partitionScanGpt drive.device maxPartitions).value = none := by
          by_contra hsome
          obtain ⟨found, hfound⟩ := ne_none_iff_exists'.mp hsome
          exact hverified (partitionScanGpt_verified hfound)
        rw [partitionScan_protective hgpt hpos, hnone]
        rfl

/-- On a disk with a GUID partition table a scan reports the first partitions that
`partition_from_gpt` accepts, as many as there is room for, in the order of their indices. The
checksum over the sectors of a table is that of the bytes that are stored there. -/
theorem partitionScan_gpt (drive : Drive) (maxPartitions : Nat)
    (hgpt : (mbrIsProtectiveGpt drive.device).value = some true) :
    (∃ count, (∀ index, count ≤ index → (partitionFromGpt drive.device index).value = none) ∧
      (partitionScan drive.device maxPartitions).value =
        some (((List.range count).filterMap fun index =>
          (partitionFromGpt drive.device index).value).take maxPartitions)) ∧
    ∀ lba length,
      (Readable drive.device lba length →
        (tableCrc drive.device length lba 0xFFFFFFFF#32).value.map crc32Finish =
          some (crc32Compute (storedByte drive.device lba) length)) ∧
      (¬Readable drive.device lba length →
        (tableCrc drive.device length lba 0xFFFFFFFF#32).value = none) := by
  refine ⟨partitionScan_entries hgpt, fun lba length => ⟨?_, ?_⟩⟩
  · intro hread
    rw [tableCrc_eq hread]
    rfl
  · intro hread
    by_contra hsome
    exact hread (tableCrc_readable (Option.isSome_iff_ne_none.mpr hsome))

/-- Two partitions of ten sectors each, in a table of two entries. The checksums are left out. -/
def plainImage : Mem :=
  [(448, 0xEE0000), (508, 0xAA550000),
    (512, 0x20494645), (516, 0x54524150), (524, 92), (552, 3), (560, 62), (584, 2), (592, 2),
    (596, 128), (1024, 1), (1056, 10), (1064, 19), (1152, 1), (1184, 20), (1192, 29)].foldr
      (fun word image => put32 image word.1 word.2) fun _ => 0

/-- The image with the checksum of its table. -/
def summedImage : Mem :=
  put32 plainImage 600 (crc32Compute (fun x => plainImage (1024 + x)) 256).toNat

/-- The image with both. -/
def twoPartitionImage : Mem :=
  put32 summedImage 528 (crc32Compute (fun x => summedImage (512 + x)) 92).toNat

def twoPartitionDrive : Drive where
  sectorSize := 512
  sectorCount := 64
  sectorCount_lt := by decide
  read := some fun lba _ => some fun x => twoPartitionImage (512 * lba + x)
  write := none

def twoPartitionHeader : Mem := fun x => twoPartitionImage (512 + x)

theorem get32_sum (m : Mem) (a : Nat) (sum : BitVec 32) :
    get32 (put32 m a sum.toNat) a = sum.toNat := by
  rw [get32_put32, Nat.mod_eq_of_lt sum.isLt]

theorem twoPartitionHeader_word {a k : Nat} (hk : 512 + a = k) :
    get32 twoPartitionHeader a = get32 twoPartitionImage k := by
  subst hk
  unfold get32 twoPartitionHeader
  simp only [Nat.add_assoc]

/-- The checksum of the header is that of the image without it. -/
theorem twoPartitionHeader_crc :
    (crc32Compute (put32 twoPartitionHeader 16 0) 92).toNat =
      (gptHeader twoPartitionHeader).headerCrc32 := by
  have hstored : get32 twoPartitionHeader 16 = get32 twoPartitionImage 528 :=
    twoPartitionHeader_word rfl
  have hbytes : ∀ i < 92, put32 twoPartitionHeader 16 0 i = summedImage (512 + i) := by
    intro i hi
    by_cases hfield : i < 16 ∨ 20 ≤ i
    · rw [put32_within _ _ _ i (by omega)]
      exact put32_within _ _ _ (512 + i) (by omega)
    · obtain ⟨k, rfl⟩ : ∃ k : Fin 4, i = 16 + k := ⟨⟨i - 16, by omega⟩, by dsimp only; omega⟩
      revert k
      decide +kernel
  show _ = get32 twoPartitionHeader 16
  rw [hstored, twoPartitionImage, get32_sum]
  unfold crc32Compute
  rw [crc32Update_congr hbytes]

theorem twoPartitionDrive_stored {x : Nat} (hx : x < 256) :
    storedByte twoPartitionDrive.device 2 x = plainImage (1024 + x) := by
  have hsector : 2 + x / 512 = 2 := by omega
  have hread : (blockRead twoPartitionDrive.device 2 1).value =
      some fun x => twoPartitionImage (512 * 2 + x) := rfl
  unfold storedByte
  rw [hsector, hread]
  dsimp only
  rw [Nat.mod_eq_of_lt (by omega), twoPartitionImage, put32_within _ _ _ _ (by omega), summedImage,
    put32_within _ _ _ _ (by omega)]

theorem twoPartitionDrive_verified :
    ∃ crc, Verified twoPartitionDrive.device twoPartitionHeader crc := by
  have hentries : (gptHeader twoPartitionHeader).partitionEntriesLba = 2 := by decide +kernel
  have hcount : (gptHeader twoPartitionHeader).partitionEntryCount = 2 := by decide +kernel
  have hentrySize : (gptHeader twoPartitionHeader).partitionEntrySize = 128 := by decide +kernel
  have hheaderSize : (gptHeader twoPartitionHeader).headerSize = 92 := by decide +kernel
  have hread : Readable twoPartitionDrive.device 2 256 := by
    intro i hi
    obtain rfl : i = 0 := by omega
    rfl
  have hstored : get32 twoPartitionHeader 88 = get32 twoPartitionImage 600 :=
    twoPartitionHeader_word rfl
  refine ⟨crc32Update 0xFFFFFFFF#32 (storedByte twoPartitionDrive.device 2) 256, ?_⟩
  constructor
  case sectorSize => rfl
  case header => rfl
  case signature => decide +kernel
  case headerSize =>
    rw [hheaderSize]
    decide
  case entrySize =>
    rw [hentrySize]
    decide
  case headerCrc =>
    rw [hheaderSize]
    exact twoPartitionHeader_crc
  case table =>
    rw [hcount, hentrySize, hentries]
    exact tableCrc_eq hread
  case tableCrc =>
    show _ = get32 twoPartitionHeader 88
    rw [hstored, twoPartitionImage, (put32_within _ _ _).get32 (by omega), summedImage, get32_sum,
      crc32Update_congr fun x hx => twoPartitionDrive_stored hx]
    rfl

theorem twoPartitionDrive_scan : ∃ count,
    (∀ index, count ≤ index → (partitionFromGpt twoPartitionDrive.device index).value = none) ∧
    (partitionScan twoPartitionDrive.device 128).value =
      some (((List.range count).filterMap fun index =>
        (partitionFromGpt twoPartitionDrive.device index).value).take 128) :=
  (partitionScan_gpt twoPartitionDrive 128 (by decide +kernel)).1

/-- Where there is room for one partition the second is not reported. -/
theorem twoPartitionDrive_unreported : ∃ partition found,
    (partitionFromGpt twoPartitionDrive.device 1).value = some partition ∧
    partition.startLba = 20 ∧
    (partitionScan twoPartitionDrive.device 1).value = some found ∧ ∀ p ∈ found, p.startLba = 10 := by
  obtain ⟨crc, h⟩ := twoPartitionDrive_verified
  have hcount : (gptHeader twoPartitionHeader).partitionEntryCount = 2 := by decide +kernel
  have hgpt : (mbrIsProtectiveGpt twoPartitionDrive.device).value = some true := by decide +kernel
  have hfirst : ((gptPartitionAt twoPartitionDrive.device (gptHeader twoPartitionHeader) 0).value.map
      (·.startLba)) = some 10 := by decide +kernel
  have hsecond : ((gptPartitionAt twoPartitionDrive.device (gptHeader twoPartitionHeader) 1).value.map
      (·.startLba)) = some 20 := by decide +kernel
  obtain ⟨first, hfirst, hten⟩ := Option.map_eq_some_iff.mp hfirst
  obtain ⟨second, hsecond, htwenty⟩ := Option.map_eq_some_iff.mp hsecond
  refine ⟨second, [first], ?_, htwenty, ?_, ?_⟩
  · rw [partitionFromGpt_eq h (by omega), hsecond]
  · rw [partitionScan_protective hgpt Nat.one_ne_zero, partitionScanGpt_eq h, hcount]
    simp [List.range_succ, hfirst, hsecond]
  · intro p hp
    obtain rfl := List.mem_singleton.mp hp
    exact hten

end MeatySkeleton.Fs
