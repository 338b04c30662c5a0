import MeatySkeleton.Ext2.Layout
import MeatySkeleton.Ext2.Runs

/-!
# Inode records by revision

From revision 1 on the superblock has the size of an inode record; in revision 0 it is 128
bytes, and the field is not part of the format. The functions that look for an inode take the
field in every revision. `Volume.formatted` is the volume with the size that the format means.
-/

namespace MeatySkeleton.Ext2

open Lib Lib.Effect

/-- The size of an inode record by the format. -/
def Superblock.recordSize (sb : Superblock) : Nat :=
  if sb.revisionLevel = 0 then Inode.bytes else sb.inodeSize

namespace Volume

/-- The volume with another size of an inode record in its superblock. -/
def resized (size : Nat) (v : Volume) : Volume :=
  { v with superblock := put16 v.superblock 88 size }

/-- The volume as the format describes it. -/
def formatted (v : Volume) : Volume := v.resized v.superblock.recordSize

/-- The record of inode `n` by the format. -/
def recordAddress (v : Volume) (n : Nat) : Nat := v.formatted.inodeAddress n

/-- The block and the offset in it where the functions look for inode `n`. -/
def inodeBlock (v : Volume) (n : Nat) : Nat :=
  u32 ((v.descriptor ((n - 1) / v.superblock.inodesPerGroup)).inodeTable +
    u32 ((n - 1) % v.superblock.inodesPerGroup * v.superblock.inodeSize / v.blockBytes))

def inodeOffset (v : Volume) (n : Nat) : Nat :=
  u32 ((n - 1) % v.superblock.inodesPerGroup * v.superblock.inodeSize % v.blockBytes)

end Volume

/-- The record of inode `n` is written, and nothing else. -/
structure InodeWritten (v : Volume) (n : Nat) (inode : Inode) (w : Volume) : Prop where
  record : ∀ x < Inode.bytes, w.image (v.recordAddress n + x) = inode x
  others : ∀ k, 0 < k → k ≤ v.superblock.inodeCount → k ≠ n → ∀ x < v.superblock.recordSize,
    w.image (v.recordAddress k + x) = v.image (v.recordAddress k + x)
  blocks : ∀ k, k ≠ v.recordAddress n / v.blockBytes → ∀ x < v.blockBytes, w.block k x = v.block k x

/-- Whatever is written as inode `n` is read again. -/
def InodeRoundTrip (v : Volume) (n : Nat) : Prop :=
  ∀ inode, ∃ w, writeInode n inode v = .done () w ∧ InodeWritten v n inode w ∧
    ∃ r, readInode n w = .done r w ∧ ∀ x < Inode.bytes, r x = inode x

open Inode (bytes)
variable {v w : Volume} {g n k size x : Nat}

/-! ## The field alone -/

theorem resized_resized (v : Volume) (size size' : Nat) :
    (v.resized size).resized size' = v.resized size' := by
  unfold Volume.resized
  rw [put16_put16]

theorem resized_self (v : Volume) : v.resized v.superblock.inodeSize = v := by
  unfold Volume.resized Superblock.inodeSize
  rw [put16_get16]

theorem formatted_resized (v : Volume) : v.formatted.resized v.superblock.inodeSize = v :=
  (resized_resized v _ _).trans (resized_self v)

theorem recordSize_lt (sb : Superblock) : sb.recordSize < 2 ^ 16 := by
  unfold Superblock.recordSize
  split
  next => decide
  next =>
    have hlow := UInt8.toNat_lt (sb 88)
    have hhigh := UInt8.toNat_lt (sb 89)
    show (sb 88).toNat + 256 * (sb 89).toNat < 2 ^ 16
    omega

theorem formatted_inodeSize (v : Volume) :
    v.formatted.superblock.inodeSize = v.superblock.recordSize :=
  (get16_put16 _ _ _).trans (Nat.mod_eq_of_lt (recordSize_lt _))

theorem formatted_eq (h : v.superblock.revisionLevel ≠ 0 ∨ v.superblock.inodeSize = bytes) :
    v.formatted = v := by
  have hsize : v.superblock.recordSize = v.superblock.inodeSize := by
    unfold Superblock.recordSize
    split
    next hzero => exact (h.resolve_left (not_not.mpr hzero)).symm
    next => rfl
  unfold Volume.formatted
  rw [hsize]
  exact resized_self v

section
variable (size : Nat) (v : Volume)

theorem resized_within : Within v.superblock (v.resized size).superblock 88 90 :=
  put16_within _ _ _

theorem resized_logBlockSize : (v.resized size).superblock.logBlockSize = v.superblock.logBlockSize :=
  (resized_within size v).get32 (.inl (by decide))

theorem resized_firstDataBlock :
    (v.resized size).superblock.firstDataBlock = v.superblock.firstDataBlock :=
  (resized_within size v).get32 (.inl (by decide))

theorem resized_inodesPerGroup :
    (v.resized size).superblock.inodesPerGroup = v.superblock.inodesPerGroup :=
  (resized_within size v).get32 (.inl (by decide))

theorem resized_inodeCount : (v.resized size).superblock.inodeCount = v.superblock.inodeCount :=
  (resized_within size v).get32 (.inl (by decide))

theorem resized_blockBytes : (v.resized size).blockBytes = v.blockBytes := by
  show u32 (1024 * 2 ^ (v.resized size).superblock.logBlockSize) =
    u32 (1024 * 2 ^ v.superblock.logBlockSize)
  rw [resized_logBlockSize]

theorem resized_groupCount : (v.resized size).groupCount = v.groupCount := by
  have hblocks : (v.resized size).superblock.blockCount = v.superblock.blockCount :=
    (resized_within size v).get32 (.inl (by decide))
  have hper : (v.resized size).superblock.blocksPerGroup = v.superblock.blocksPerGroup :=
    (resized_within size v).get32 (.inl (by decide))
  unfold Volume.groupCount
  rw [hblocks, hper, resized_firstDataBlock]

theorem resized_descriptor (g : Nat) : (v.resized size).descriptor g = v.descriptor g := by
  unfold Volume.descriptor Volume.descriptorAddress
  rw [resized_firstDataBlock, resized_blockBytes]
  rfl

end

/-! ## Functions that do not look at it -/

section
variable {σ : Type} {r : σ → σ}

theorem unaware_shiftLeft (a k : Nat) : Unaware r (shiftLeft a k) :=
  Unaware.bind .demand fun _ => .pure

theorem unaware_slice (b : Buffer) (i len : Nat) : Unaware r (b.slice i len) :=
  Unaware.bind .demand fun _ => .pure

end

theorem unaware_blockRead (lba count : Nat) (b : Buffer) (offset : Nat) :
    Unaware (Volume.resized size) (blockRead lba count b offset) := by
  refine Unaware.get (fun _ => rfl) fun s => ?_
  refine .require fun _ => ?_
  refine .require fun _ => ?_
  refine .require fun _ => ?_
  refine .require fun _ => ?_
  exact Unaware.bind .demand fun _ => .pure

theorem unaware_readBlock (blockSize blockNumber : Nat) (b : Buffer) :
    Unaware (Volume.resized size) (readBlock blockSize blockNumber b) := by
  refine .require fun _ => ?_
  exact .require fun _ => unaware_blockRead _ _ _ _

theorem unaware_readGroupDescriptor (g : Nat) :
    Unaware (Volume.resized size) (readGroupDescriptor g) := by
  refine Unaware.get (fun s => ?_) fun s => ?_
  · unfold Superblock.blockSize descriptorPlace
    rw [resized_logBlockSize, resized_firstDataBlock]
    rfl
  · refine Unaware.bind (unaware_shiftLeft _ _) fun blockSize => ?_
    refine .require fun _ => ?_
    refine .require fun _ => ?_
    exact Unaware.bind (unaware_readBlock _ _ _) fun _ => unaware_slice _ _ _

/-! ## Where the functions look -/

theorem Layout.formatted_blockBytes (_ : Layout v.formatted) :
    v.formatted.blockBytes = v.blockBytes := resized_blockBytes _ _

section

variable (h : Layout v.formatted)

include h

theorem Layout.formatted_sized : BlockSized v.blockBytes :=
  h.formatted_blockBytes ▸ h.sized

theorem Layout.formatted_blockSize {σ : Type} (s : σ) :
    v.superblock.blockSize s = .done v.blockBytes s := by
  have hdone := h.blockSize s
  unfold Superblock.blockSize at hdone ⊢
  rw [h.formatted_blockBytes] at hdone
  have hlog : v.formatted.superblock.logBlockSize = v.superblock.logBlockSize :=
    resized_logBlockSize _ _
  rwa [hlog] at hdone

theorem Layout.formatted_inodes : v.superblock.inodesPerGroup ≠ 0 :=
  (resized_inodesPerGroup v.superblock.recordSize v).symm ▸ h.accepted.inodes

theorem Layout.formatted_descriptor (hg : g < v.formatted.groupCount) :
    ∃ d, Ext2.readGroupDescriptor g v = .done d v ∧
      ∀ x < GroupDescriptor.bytes, d x = v.descriptor g x := by
  obtain ⟨d, hread, hd⟩ := h.readGroupDescriptor hg
  have hunaware : Unaware (Volume.resized v.superblock.inodeSize) (Ext2.readGroupDescriptor g) :=
    unaware_readGroupDescriptor g
  have hsame := hunaware v.formatted
  rw [hread, formatted_resized] at hsame
  refine ⟨d, hsame.trans ?_, fun x hx => ?_⟩
  · exact congrArg _ (formatted_resized v)
  · rw [hd x hx]
    exact congrFun (resized_descriptor _ v g) x

end

section
variable (h : Layout v.formatted) (hpos : 0 < n) (hn : n ≤ v.superblock.inodeCount)
include h hpos hn

/-- The group of an inode and its index there. -/
theorem Layout.formatted_group :
    (n - 1) / v.superblock.inodesPerGroup < v.formatted.groupCount ∧
      (n - 1) % v.superblock.inodesPerGroup < v.superblock.inodesPerGroup ∧
      v.superblock.inodesPerGroup ≤ 8 * v.blockBytes := by
  have hcount : v.formatted.superblock.inodeCount = v.superblock.inodeCount :=
    resized_inodeCount _ _
  have hper : v.formatted.superblock.inodesPerGroup = v.superblock.inodesPerGroup :=
    resized_inodesPerGroup _ _
  obtain ⟨hg, hi⟩ := h.inodeGroup hpos (hcount.symm ▸ hn)
  have hbits := h.inodesPerGroup
  rw [hper] at hg hi hbits
  rw [h.formatted_blockBytes] at hbits
  exact ⟨hg, hi, hbits⟩

/-- The first steps of reading and of writing an inode. -/
theorem Layout.inodeSteps_at : ∃ d,
    Ext2.readGroupDescriptor ((n - 1) / v.superblock.inodesPerGroup) v = .done d v ∧
      Ext2.inodePlace v.superblock d v.blockBytes ((n - 1) % v.superblock.inodesPerGroup) v =
        .done (v.inodeBlock n, v.inodeOffset n) v := by
  obtain ⟨hg, -, -⟩ := h.formatted_group hpos hn
  obtain ⟨d, hread, hd⟩ := h.formatted_descriptor hg
  have hbytes : v.blockBytes ≠ 0 := Nat.ne_of_gt (h.formatted_blockBytes ▸ h.blockBytes_pos)
  have htable : d.inodeTable =
      (v.descriptor ((n - 1) / v.superblock.inodesPerGroup)).inodeTable :=
    get32_congr fun k hk => hd _ (by unfold GroupDescriptor.bytes; omega)
  refine ⟨d, hread, ?_⟩
  unfold Ext2.inodePlace
  rw [bind_done (divide_done hbytes), bind_done (modulo_done hbytes), htable]
  rfl

/-- `ext2_write_inode`, with any size in the superblock. -/
theorem Layout.writeInode_at (inode : Inode) : Ext2.writeInode n inode v =
    if v.inodeOffset n + bytes ≤ v.blockBytes ∧ v.HasBlock v.blockBytes (v.inodeBlock n) then
      .done () { v with
        image := copyFrom v.image (v.inodeBlock n * v.blockBytes + v.inodeOffset n) inode 0 bytes }
    else .failed v := by
  obtain ⟨d, hread, hplace⟩ := h.inodeSteps_at hpos hn
  have hsized := h.formatted_sized
  have hle := hsized.le.2
  unfold Ext2.writeInode
  rw [get_bind, require_bind ⟨Nat.ne_of_gt hpos, hn⟩, bind_done (h.formatted_blockSize v),
    require_bind hle, bind_done (divide_done h.formatted_inodes),
    bind_done (modulo_done h.formatted_inodes), bind_done hread, bind_done hplace]
  dsimp only
  by_cases hrecord : v.inodeOffset n + bytes ≤ v.blockBytes
  · rw [require_bind hrecord]
    by_cases hblock : v.HasBlock v.blockBytes (v.inodeBlock n)
    · rw [bind_done (readBlock_done hsized hblock hle),
        bind_done (store_done (Nat.le_trans hrecord hle)),
        writeBlock_done hsized hblock (by rw [Nat.zero_add]; exact hle), copyFrom_back hrecord,
        if_pos ⟨hrecord, hblock⟩]
    · rw [bind_failed (readBlock_failed hsized hblock), if_neg fun hboth => hblock hboth.2]
  · rw [require_failed hrecord, if_neg fun hboth => hrecord hboth.1]

/-- `ext2_read_inode`, where the record is in one block of the device. -/
theorem Layout.readInode_at (hrecord : v.inodeOffset n + bytes ≤ v.blockBytes)
    (hblock : v.HasBlock v.blockBytes (v.inodeBlock n)) : ∃ r, Ext2.readInode n v = .done r v ∧
      ∀ x < bytes, r x = v.image (v.inodeBlock n * v.blockBytes + v.inodeOffset n + x) := by
  obtain ⟨d, hread, hplace⟩ := h.inodeSteps_at hpos hn
  obtain ⟨-, hi, hbits⟩ := h.formatted_group hpos hn
  have hsized := h.formatted_sized
  have hle := hsized.le.2
  have hindex : u16 ((n - 1) % v.superblock.inodesPerGroup) =
      (n - 1) % v.superblock.inodesPerGroup := Nat.mod_eq_of_lt (by omega)
  refine ⟨fun x => copyFrom v.stale 0 v.image (v.inodeBlock n * v.blockBytes) v.blockBytes
    (v.inodeOffset n + x), ?_, fun x hx => ?_⟩
  · unfold Ext2.readInode
    rw [get_bind, require_bind ⟨Nat.ne_of_gt hpos, hn⟩, bind_done (h.formatted_blockSize v),
      bind_done (divide_done h.formatted_inodes), bind_done (modulo_done h.formatted_inodes),
      bind_done hread, hindex, bind_done hplace]
    dsimp only
    rw [require_bind hrecord, require_bind hle, bind_done (readBlock_done hsized hblock hle)]
    exact slice_done (Nat.le_trans hrecord hle)
  · show copyFrom _ _ _ _ _ _ = _
    rw [copyFrom_low (by omega), Nat.add_assoc]

/-- Where the record of an inode is by the format: in one block. -/
theorem Layout.record_place : ∃ block offset,
    block = (v.descriptor ((n - 1) / v.superblock.inodesPerGroup)).inodeTable +
      (n - 1) % v.superblock.inodesPerGroup * v.superblock.recordSize / v.blockBytes ∧
    offset = (n - 1) % v.superblock.inodesPerGroup * v.superblock.recordSize % v.blockBytes ∧
    v.recordAddress n = block * v.blockBytes + offset ∧ block < 2 ^ 32 ∧
    v.HasBlock v.blockBytes block ∧ offset + v.superblock.recordSize ≤ v.blockBytes := by
  obtain ⟨hg, hi, -⟩ := h.formatted_group hpos hn
  have hper : v.formatted.superblock.inodesPerGroup = v.superblock.inodesPerGroup :=
    resized_inodesPerGroup _ _
  have hbytes := h.blockBytes_pos
  have hlt := h.blockCount_lt
  have hsize := h.inodeSize.1
  obtain ⟨block, offset, -, hblock, hroom, haddress⟩ :=
    h.inodePlace hg (fun _ _ => rfl) (i := (n - 1) % v.superblock.inodesPerGroup) (hper.symm ▸ hi)
  have hdevice := h.hasBlock hblock
  have htable : v.formatted.descriptor = v.descriptor := funext fun g => resized_descriptor _ v g
  rw [formatted_inodeSize] at hsize hroom haddress
  rw [h.formatted_blockBytes] at hbytes hroom haddress hdevice
  rw [htable] at haddress
  unfold bytes at hsize
  have hplace : v.recordAddress n = block * v.blockBytes + offset := by
    unfold Volume.recordAddress Volume.inodeAddress
    rw [hper, h.formatted_blockBytes, formatted_inodeSize, htable]
    exact haddress
  refine ⟨block, offset, ?_, ?_, hplace, by omega, hdevice, hroom⟩
  · rw [Nat.add_comm, ← Nat.add_mul_div_right _ _ hbytes, Nat.add_comm (_ * v.superblock.recordSize),
      haddress, Nat.add_comm, Nat.add_mul_div_right _ _ hbytes, Nat.div_eq_of_lt (by omega),
      Nat.zero_add]
  · rw [← Nat.mul_add_mod_self_right (v.descriptor ((n - 1) / v.superblock.inodesPerGroup)).inodeTable,
      haddress, Nat.mul_add_mod_self_right, Nat.mod_eq_of_lt (by omega)]

/-- The functions look there if the index times the size in the superblock is that place. -/
theorem Layout.place_eq (hsame : (n - 1) % v.superblock.inodesPerGroup * v.superblock.inodeSize =
      (n - 1) % v.superblock.inodesPerGroup * v.superblock.recordSize) :
    v.inodeBlock n * v.blockBytes + v.inodeOffset n = v.recordAddress n ∧
      v.HasBlock v.blockBytes (v.inodeBlock n) ∧
      v.inodeOffset n + v.superblock.recordSize ≤ v.blockBytes := by
  obtain ⟨block, offset, hblock, hoffset, hplace, hlt, hdevice, hroom⟩ := h.record_place hpos hn
  have hle := h.formatted_sized.le.2
  have hblock' : v.inodeBlock n = block := by
    unfold Volume.inodeBlock
    rw [hsame, u32_of_lt (n := _ / _) (by omega), u32_of_lt (by omega), hblock]
  have hoffset' : v.inodeOffset n = offset := by
    unfold Volume.inodeOffset
    rw [hsame, u32_of_lt (by omega), hoffset]
  rw [hblock', hoffset']
  exact ⟨hplace.symm, hdevice, hroom⟩

/-- Else they look somewhere else. -/
theorem Layout.place_ne (hdiff : (n - 1) % v.superblock.inodesPerGroup * v.superblock.inodeSize ≠
      (n - 1) % v.superblock.inodesPerGroup * v.superblock.recordSize) :
    v.inodeBlock n * v.blockBytes + v.inodeOffset n ≠ v.recordAddress n := by
  obtain ⟨block, offset, hblock, hoffset, hplace, hlt, -, hroom⟩ := h.record_place hpos hn
  obtain ⟨-, hi, hbits⟩ := h.formatted_group hpos hn
  have hsize : v.superblock.inodeSize < 2 ^ 16 := by
    show (v.superblock 88).toNat + 256 * (v.superblock 89).toNat < 2 ^ 16
    have hlow := UInt8.toNat_lt (v.superblock 88)
    have hhigh := UInt8.toNat_lt (v.superblock 89)
    omega
  have hle := h.formatted_sized.le.2
  have hproduct : (n - 1) % v.superblock.inodesPerGroup * v.superblock.inodeSize < 2 ^ 15 * 2 ^ 16 :=
    Nat.mul_lt_mul'' (by omega) hsize
  have hproduct' : (n - 1) % v.superblock.inodesPerGroup * v.superblock.recordSize < 2 ^ 15 * 2 ^ 16 :=
    Nat.mul_lt_mul'' (by omega) (recordSize_lt _)
  rw [hplace, hblock, hoffset]
  unfold Volume.inodeBlock Volume.inodeOffset u32
  generalize (n - 1) % v.superblock.inodesPerGroup * v.superblock.inodeSize = p at *
  generalize (n - 1) % v.superblock.inodesPerGroup * v.superblock.recordSize = q at *
  generalize (v.descriptor ((n - 1) / v.superblock.inodesPerGroup)).inodeTable = table at *
  rcases h.formatted_sized with hbs | hbs | hbs
  all_goals
    rw [hbs] at hblock ⊢
    omega

/-- The volume with that record written. -/
theorem Layout.inodeWritten (inode : Inode) : InodeWritten v n inode
    { v with image := copyFrom v.image (v.recordAddress n) inode 0 bytes } := by
  obtain ⟨block, offset, -, -, hplace, -, -, hroom⟩ := h.record_place hpos hn
  have hcount : v.formatted.superblock.inodeCount = v.superblock.inodeCount :=
    resized_inodeCount _ _
  have hsize := h.inodeSize.1
  rw [formatted_inodeSize] at hsize
  have hpositive : 0 < bytes := by decide
  refine ⟨fun x hx => copyFrom_add hx, fun k hk hk' hne x hx => ?_, fun k hne x hx => ?_⟩
  · have happart := h.inodes_apart hpos (hcount.symm ▸ hn) hk (hcount.symm ▸ hk') hne.symm
    rw [formatted_inodeSize] at happart
    change v.recordAddress n + _ ≤ v.recordAddress k ∨ v.recordAddress k + _ ≤ v.recordAddress n
      at happart
    exact copyFrom_within _ _ _ _ _ _ (by omega)
  · have hblock : v.recordAddress n / v.blockBytes = block := by
      rw [hplace, Nat.add_comm, Nat.add_mul_div_right _ _ (by omega), Nat.div_eq_of_lt (by omega),
        Nat.zero_add]
    rw [hblock] at hne
    refine copyFrom_within _ _ _ _ _ (k * v.blockBytes + x) ?_
    rw [hplace]
    rcases Nat.lt_or_gt_of_ne hne with hlt | hgt
    · have hle := Nat.mul_le_mul_right v.blockBytes (Nat.succ_le_of_lt hlt)
      rw [Nat.succ_mul] at hle
      omega
    · have hle := Nat.mul_le_mul_right v.blockBytes (Nat.succ_le_of_lt hgt)
      rw [Nat.succ_mul] at hle
      omega

theorem Layout.roundTrip (hsame : (n - 1) % v.superblock.inodesPerGroup * v.superblock.inodeSize =
    (n - 1) % v.superblock.inodesPerGroup * v.superblock.recordSize) : InodeRoundTrip v n := by
  intro inode
  have hsize := h.inodeSize.1
  rw [formatted_inodeSize] at hsize
  have hcount : v.formatted.superblock.inodeCount = v.superblock.inodeCount :=
    resized_inodeCount _ _
  obtain ⟨hplace, hdevice, hroom⟩ := h.place_eq hpos hn hsame
  have hrecord := Nat.le_trans (Nat.add_le_add_left hsize _) hroom
  refine ⟨_, ?_, h.inodeWritten hpos hn inode, ?_⟩
  · rw [h.writeInode_at hpos hn, if_pos ⟨hrecord, hdevice⟩, hplace]
  · have hplaces := (h.withInode_maps hpos (hcount.symm ▸ hn) inode).places
    have hlayout : Layout (Volume.formatted { v with
        image := copyFrom v.image (v.recordAddress n) inode 0 bytes }) := hplaces.layout h
    obtain ⟨hplace', hdevice', hroom'⟩ := hlayout.place_eq hpos hn hsame
    obtain ⟨r, hread, hr⟩ := hlayout.readInode_at hpos hn
      (Nat.le_trans (Nat.add_le_add_left hsize _) hroom') hdevice'
    refine ⟨r, hread, fun x hx => (hr x hx).trans ?_⟩
    rw [hplace']
    have haddress : Volume.recordAddress { v with
        image := copyFrom v.image (v.recordAddress n) inode 0 bytes } n = v.recordAddress n :=
      hplaces.inodeAddress h hpos (hcount.symm ▸ hn)
    rw [haddress]
    exact copyFrom_add hx

omit h hpos hn in
theorem byte_ne_succ (byte : UInt8) : byte ≠ byte + 1 := by
  intro heq
  have hbyte := congrArg UInt8.toNat heq
  rw [UInt8.toNat_add] at hbyte
  have hone : UInt8.toNat 1 = 1 := rfl
  omega

/-- An inode that is written somewhere else is not written where the format has it. -/
theorem Layout.no_roundTrip
    (hdiff : (n - 1) % v.superblock.inodesPerGroup * v.superblock.inodeSize ≠
      (n - 1) % v.superblock.inodesPerGroup * v.superblock.recordSize) : ¬InodeRoundTrip v n := by
  intro hround
  have hne := h.place_ne hpos hn hdiff
  -- a byte of the record that the functions do not reach
  obtain ⟨x, hx, hout⟩ : ∃ x < bytes,
      v.recordAddress n + x < v.inodeBlock n * v.blockBytes + v.inodeOffset n ∨
        v.inodeBlock n * v.blockBytes + v.inodeOffset n + bytes ≤ v.recordAddress n + x := by
    rcases Nat.lt_or_gt_of_ne hne with hlt | hgt
    · exact ⟨127, by decide, .inr (by unfold bytes; omega)⟩
    · exact ⟨0, by decide, .inl hgt⟩
  obtain ⟨w, hwrite, hwritten, -⟩ := hround fun _ => v.image (v.recordAddress n + x) + 1
  rw [h.writeInode_at hpos hn] at hwrite
  split at hwrite
  next =>
    cases hwrite
    have hbyte := hwritten.record x hx
    dsimp only at hbyte
    rw [copyFrom_within _ _ _ _ _ _ hout] at hbyte
    exact byte_ne_succ _ hbyte
  next => cases hwrite

end

/-- On a volume of any revision, an inode is written where the format has it and read again,
unless it is not the first of its group and the volume is of revision 0 with another size than
128 in the superblock. -/
theorem inode_roundTrip (v : Volume) (n : Nat) (h : Layout v.formatted) (hpos : 0 < n)
    (hn : n ≤ v.superblock.inodeCount) : InodeRoundTrip v n ↔
      v.superblock.revisionLevel ≠ 0 ∨ v.superblock.inodeSize = Inode.bytes ∨
        (n - 1) % v.superblock.inodesPerGroup = 0 := by
  have hsame : (n - 1) % v.superblock.inodesPerGroup * v.superblock.inodeSize =
      (n - 1) % v.superblock.inodesPerGroup * v.superblock.recordSize ↔
        v.superblock.revisionLevel ≠ 0 ∨ v.superblock.inodeSize = Inode.bytes ∨
          (n - 1) % v.superblock.inodesPerGroup = 0 := by
    by_cases hfirst : (n - 1) % v.superblock.inodesPerGroup = 0
    · rw [hfirst, Nat.zero_mul, Nat.zero_mul]
      exact ⟨fun _ => .inr (.inr rfl), fun _ => rfl⟩
    · rw [Nat.mul_left_cancel_iff (Nat.pos_of_ne_zero hfirst)]
      unfold Superblock.recordSize
      split
      next hzero =>
        constructor
        · exact fun heq => .inr (.inl heq)
        · exact fun hcases => (hcases.resolve_left (not_not.mpr hzero)).resolve_right hfirst
      next hone => exact ⟨fun _ => .inl hone, fun _ => rfl⟩
  rw [← hsame]
  constructor
  · intro hround
    by_contra hdiff
    exact h.no_roundTrip hpos hn hdiff hround
  · exact h.roundTrip hpos hn

/-! ## A volume of revision 0 -/

/-- 64 blocks and sixteen inodes, with zeros behind the superblock of revision 0. The inodes 1
and 2 are directories, so that it can be mounted. -/
def firstRevisionImage : Mem :=
  imageOf
    [(1024, 16), (1028, 64), (1036, 55), (1040, 5), (1044, 1), (1056, 8192), (1064, 16),
      (1080, 0xEF53), (2048, 3), (2052, 4), (2056, 5), (2060, 55 + 5 * 65536), (3072, 0x8007f),
      (4096, 0x7ff), (5120, 0x41ed), (5248, 0x41ed)]

def firstRevision : Volume where
  sectorCount := 128
  image := firstRevisionImage
  superblock := fun x => firstRevisionImage (1024 + x)
  kmallocs := [true]
  stale := fun _ => 0

theorem firstRevision_group : OneGroup firstRevision.formatted :=
  ⟨by decide +kernel, by decide +kernel, by decide +kernel, by decide +kernel⟩

/-- The first inode of the group. -/
theorem firstRevision_first : InodeRoundTrip firstRevision 1 :=
  (inode_roundTrip firstRevision 1 firstRevision_group.layout (by decide) (by decide +kernel)).mpr
    (.inr (.inr (Nat.zero_mod _)))

/-- Inode 12 is written over inode 1. -/
theorem firstRevision_twelfth : Layout firstRevision.formatted ∧
    firstRevision.superblock.revisionLevel = 0 ∧ 12 ≤ firstRevision.superblock.inodeCount ∧
    ¬InodeRoundTrip firstRevision 12 :=
  ⟨firstRevision_group.layout, by decide +kernel, by decide +kernel,
    firstRevision_group.layout.no_roundTrip (by decide) (by decide +kernel) (by decide +kernel)⟩

end MeatySkeleton.Ext2
