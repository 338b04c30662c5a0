import MeatySkeleton.Ext2.BlockMap

/-!
# The layout of a volume

Where the parts of a consistent volume lie (`Layout`): the superblock, the group descriptors,
and for each group its two bitmaps and its inode table are areas of blocks that do not touch.
On such a volume every read and write of these parts succeeds, and is a read or a write at one
address of the image.
-/

namespace MeatySkeleton.Ext2

open Lib Lib.Effect

namespace Volume

variable (v : Volume)

/-- The number of block groups. -/
def groupCount : Nat :=
  (v.superblock.blockCount - v.superblock.firstDataBlock + v.superblock.blocksPerGroup - 1) /
    v.superblock.blocksPerGroup

/-- The group of block `n`. -/
def groupOf (n : Nat) : Nat := (n - v.superblock.firstDataBlock) / v.superblock.blocksPerGroup

/-- Its bit in the bitmap of the group. -/
def bitOf (n : Nat) : Nat := (n - v.superblock.firstDataBlock) % v.superblock.blocksPerGroup

def descriptorAddress (g : Nat) : Nat :=
  (v.superblock.firstDataBlock + 1) * v.blockBytes + g * GroupDescriptor.bytes

/-- The descriptor of group `g` on the device. -/
def descriptor (g : Nat) : GroupDescriptor := fun x => v.image (v.descriptorAddress g + x)

/-- The byte of the bitmaps with the bit of block `n`. -/
def bitAddress (n : Nat) : Nat :=
  (v.descriptor (v.groupOf n)).blockBitmap * v.blockBytes + v.bitOf n / 8

/-- Bit `i` of the block bitmap of group `g`. -/
def bitmapBit (g i : Nat) : Bool :=
  (v.image ((v.descriptor g).blockBitmap * v.blockBytes + i / 8)).toNat.testBit (i % 8)

/-- Whether block `n` is in use. -/
def usedBit (n : Nat) : Bool := v.bitmapBit (v.groupOf n) (v.bitOf n)

/-- The record of inode `n`, counted from one. -/
def inodeAddress (n : Nat) : Nat :=
  (v.descriptor ((n - 1) / v.superblock.inodesPerGroup)).inodeTable * v.blockBytes +
    (n - 1) % v.superblock.inodesPerGroup * v.superblock.inodeSize

/-- What that record holds. -/
def inodeRecord (n : Nat) : Inode := fun x => v.image (v.inodeAddress n + x)

end Volume

/-! ## Areas -/

/-- The parts of a volume that hold no files. -/
inductive Area where
  | superblock
  | descriptors
  | blockBitmap (g : Nat)
  | inodeBitmap (g : Nat)
  | inodeTable (g : Nat)
deriving DecidableEq

namespace Area

/-- The first block of an area. -/
def first (v : Volume) : Area → Nat
  | .superblock => v.superblock.firstDataBlock
  | .descriptors => v.superblock.firstDataBlock + 1
  | .blockBitmap g => (v.descriptor g).blockBitmap
  | .inodeBitmap g => (v.descriptor g).inodeBitmap
  | .inodeTable g => (v.descriptor g).inodeTable

/-- The number of its blocks. -/
def count (v : Volume) : Area → Nat
  | .superblock => 1
  | .descriptors => (v.groupCount * GroupDescriptor.bytes + v.blockBytes - 1) / v.blockBytes
  | .blockBitmap _ => 1
  | .inodeBitmap _ => 1
  | .inodeTable _ =>
    (v.superblock.inodesPerGroup * v.superblock.inodeSize + v.blockBytes - 1) / v.blockBytes

/-- An area that the volume has. -/
def Valid (v : Volume) : Area → Prop
  | .superblock => True
  | .descriptors => True
  | .blockBitmap g => g < v.groupCount
  | .inodeBitmap g => g < v.groupCount
  | .inodeTable g => g < v.groupCount

/-- Block `n` is in the area. -/
def Has (v : Volume) (a : Area) (n : Nat) : Prop := a.first v ≤ n ∧ n < a.first v + a.count v

end Area

/-- A block for files. -/
structure Volume.Data (v : Volume) (n : Nat) : Prop where
  low : v.superblock.firstDataBlock ≤ n
  high : n < v.superblock.blockCount
  apart : ∀ a : Area, a.Valid v → ¬a.Has v n

/-- The parts of the volume fit the device and do not touch. -/
structure Layout (v : Volume) : Prop where
  accepted : Accepted v.superblock
  blocks : v.superblock.firstDataBlock < v.superblock.blockCount
  firstData : v.superblock.firstDataBlock = 1024 / v.blockBytes
  perGroup : 0 < v.superblock.blocksPerGroup ∧ v.superblock.blocksPerGroup ≤ 8 * v.blockBytes
  device : v.superblock.blockCount * (v.blockBytes / 512) ≤ v.sectorCount
  inodeSize : Inode.bytes ≤ v.superblock.inodeSize ∧ v.blockBytes % v.superblock.inodeSize = 0
  inodesPerGroup : v.superblock.inodesPerGroup ≤ 8 * v.blockBytes
  inodes : v.superblock.inodeCount ≤ v.groupCount * v.superblock.inodesPerGroup
  within : ∀ a : Area, a.Valid v →
    v.superblock.firstDataBlock ≤ a.first v ∧ a.first v + a.count v ≤ v.superblock.blockCount
  apart : ∀ a b : Area, a.Valid v → b.Valid v → a ≠ b →
    a.first v + a.count v ≤ b.first v ∨ b.first v + b.count v ≤ a.first v

variable {v w : Volume} {g n x : Nat}

theorem Layout.sized (h : Layout v) : BlockSized v.blockBytes := h.accepted.blockSized

theorem Layout.blockSize {σ : Type} (h : Layout v) (s : σ) :
    v.superblock.blockSize s = .done v.blockBytes s := h.accepted.blockSize s

theorem Layout.blockBytes_pos (h : Layout v) : 0 < v.blockBytes := by
  have hle := h.sized.le
  omega

theorem Layout.hasBlock (h : Layout v) (hn : n < v.superblock.blockCount) :
    v.HasBlock v.blockBytes n :=
  Nat.le_trans (Nat.mul_le_mul_right _ hn) h.device

theorem Layout.blockCount_lt (_ : Layout v) : v.superblock.blockCount < 2 ^ 32 := get32_lt _ _

/-- Blocks of the volume and their groups. -/
theorem Layout.groupOf_lt (h : Layout v) (hlow : v.superblock.firstDataBlock ≤ n)
    (hn : n < v.superblock.blockCount) : v.groupOf n < v.groupCount := by
  unfold Volume.groupOf Volume.groupCount
  rw [Nat.div_lt_iff_lt_mul h.perGroup.1]
  have hpos := h.perGroup.1
  generalize v.superblock.blocksPerGroup = p at hpos ⊢
  have hdiv := Nat.div_add_mod (v.superblock.blockCount - v.superblock.firstDataBlock + p - 1) p
  have hmod := Nat.mod_lt (v.superblock.blockCount - v.superblock.firstDataBlock + p - 1) hpos
  rw [Nat.mul_comm] at hdiv
  omega

/-! ## Blocks -/

theorem writeBlock_done {b : Buffer} {offset blockSize : Nat} (h : BlockSized blockSize)
    (hblock : v.HasBlock blockSize n) (hb : offset + blockSize ≤ b.size) :
    writeBlock blockSize n b offset v =
      .done () { v with image := copyFrom v.image (n * blockSize) b.bytes offset blockSize } := by
  have hle := h.le
  obtain ⟨hpos, hsize, haligned⟩ := h.sectors
  obtain ⟨h1, h2, h3, h4⟩ := (hasSectors_iff h).mpr hblock
  unfold writeBlock
  rw [require_bind (by omega), require_bind haligned]
  unfold blockWrite
  rw [get_bind, require_bind h1, require_bind h2, require_bind h3, require_bind h4,
    demand_bind (by omega), Nat.mul_assoc, hsize]
  rfl

/-- A block read into a fresh array. -/
theorem Layout.readArray (h : Layout v) (hn : n < v.superblock.blockCount) :
    readBlock v.blockBytes n v.array v =
      .done ⟨4096, copyFrom v.stale 0 v.image (n * v.blockBytes) v.blockBytes⟩ v :=
  readBlock_done h.sized (h.hasBlock hn) h.sized.le.2

/-! ## Group descriptors -/

open GroupDescriptor (bytes)

theorem GroupDescriptor.perBlock {bs : Nat} (h : BlockSized bs) :
    0 < bs / bytes ∧ bs / bytes * bytes = bs := by
  unfold BlockSized at h
  unfold bytes
  omega

section

variable (h : Layout v)

include h

/-- The block of a descriptor and the place in it. -/
theorem Layout.descriptorPlace (hg : g < v.groupCount) :
    ∃ block index, Ext2.descriptorPlace v.superblock v.blockBytes g = (block, index) ∧
      block < v.superblock.blockCount ∧
      index * bytes + bytes ≤ v.blockBytes ∧
      v.descriptorAddress g = block * v.blockBytes + index * bytes := by
  obtain ⟨hpos, hwhole⟩ := GroupDescriptor.perBlock h.sized
  obtain ⟨-, hend⟩ := h.within .descriptors trivial
  have hlt := h.blockCount_lt
  generalize hd : v.blockBytes / bytes = d at hpos hwhole
  have hmod := Nat.mod_lt g hpos
  have hdiv := Nat.div_add_mod g d
  have hindex : (g % d + 1) * bytes ≤ d * bytes :=
    Nat.mul_le_mul_right _ hmod
  -- the last descriptor is in the last block of the area
  have hblock : g / d < Area.count v .descriptors := by
    show g / d < (v.groupCount * bytes + v.blockBytes - 1) / v.blockBytes
    rw [← hwhole]
    refine (Nat.le_div_iff_mul_le (by rw [hwhole]; exact h.blockBytes_pos)).mpr ?_
    have hfull : g / d * (d * bytes) + bytes ≤ v.groupCount * bytes := by
      rw [← Nat.mul_assoc, ← Nat.succ_mul]
      refine Nat.mul_le_mul_right _ (Nat.lt_of_le_of_lt ?_ hg)
      rw [Nat.mul_comm]
      exact Nat.mul_div_le g d
    have hone : 0 < bytes := by decide
    rw [Nat.succ_mul]
    omega
  change v.superblock.firstDataBlock + 1 + Area.count v .descriptors ≤ _ at hend
  refine ⟨v.superblock.firstDataBlock + 1 + g / d, g % d, ?_, by omega, ?_, ?_⟩
  · unfold Ext2.descriptorPlace u32
    dsimp only
    rw [hd, Nat.mod_eq_of_lt (b := 2 ^ 32) (a := v.superblock.firstDataBlock + 1) (by omega),
      Nat.mod_eq_of_lt (by omega)]
  · rw [← hwhole, ← Nat.succ_mul]
    exact hindex
  · unfold Volume.descriptorAddress
    rw [Nat.add_mul _ (g / d), Nat.add_assoc]
    congr 1
    rw [← hwhole, ← Nat.mul_assoc, ← Nat.add_mul, Nat.mul_comm (g / d), hdiv]

/-- The descriptor of a group is read. -/
theorem Layout.readGroupDescriptor (hg : g < v.groupCount) :
    ∃ d, Ext2.readGroupDescriptor g v = .done d v ∧
      ∀ x < bytes, d x = v.descriptor g x := by
  obtain ⟨block, index, hplace, hblock, hroom, haddress⟩ := h.descriptorPlace hg
  have hle := h.sized.le.2
  have hper := (GroupDescriptor.perBlock h.sized).1
  refine ⟨fun x => copyFrom v.stale 0 v.image (block * v.blockBytes) v.blockBytes
    (index * bytes + x), ?_, fun x hx => ?_⟩
  · unfold Ext2.readGroupDescriptor
    rw [get_bind, bind_done (h.blockSize v), require_bind (Nat.ne_of_gt hper), hplace]
    dsimp only
    rw [require_bind hle, bind_done (h.readArray hblock), slice_done (Nat.le_trans hroom hle)]
  · show copyFrom _ _ _ _ _ _ = v.image (v.descriptorAddress g + x)
    rw [copyFrom_low (by omega), haddress, Nat.add_assoc]

/-- It is written, and nothing else is. -/
theorem Layout.writeGroupDescriptor (hg : g < v.groupCount) (d : GroupDescriptor) :
    Ext2.writeGroupDescriptor g d v =
      .done () { v with
        image := copyFrom v.image (v.descriptorAddress g) d 0 bytes } := by
  obtain ⟨block, index, hplace, hblock, hroom, haddress⟩ := h.descriptorPlace hg
  have hle := h.sized.le.2
  have hper := (GroupDescriptor.perBlock h.sized).1
  unfold Ext2.writeGroupDescriptor
  rw [get_bind, bind_done (h.blockSize v), require_bind hle, require_bind (Nat.ne_of_gt hper), hplace]
  dsimp only
  rw [bind_done (h.readArray hblock), bind_done (store_done (Nat.le_trans hroom hle)),
    writeBlock_done h.sized (h.hasBlock hblock) (by rw [Nat.zero_add]; exact hle), copyFrom_back hroom,
    haddress]

theorem Layout.sectors : 4 ≤ v.sectorCount := by
  have hdevice := h.device
  have hblocks := h.blocks
  have hfirst := h.firstData
  rcases h.sized with hbs | hbs | hbs
  all_goals
    rw [hbs] at hdevice hfirst
    omega

theorem Layout.writeSuperblock : Ext2.writeSuperblock v =
    .done () { v with image := copyFrom v.image 1024 v.superblock 0 Superblock.bytes } := by
  have hsectors := h.sectors
  have hread : blockRead 2 2 ⟨1024, v.stale⟩ 0 v =
      .done ⟨1024, copyFrom v.stale 0 v.image 1024 1024⟩ v :=
    blockRead_eq_done.mpr ⟨⟨by decide, by omega, by omega, by omega⟩, Nat.le_refl 1024, rfl, rfl⟩
  have hroom : 0 + Superblock.bytes ≤ 1024 := by decide
  unfold Ext2.writeSuperblock
  rw [get_bind, bind_done hread, bind_done (store_done hroom)]
  unfold blockWrite
  rw [get_bind, require_bind (by decide), require_bind (by omega), require_bind (by omega),
    require_bind (by omega), demand_bind (Nat.le_refl 1024)]
  have hback := @copyFrom_back v.image v.stale v.superblock 1024 1024 0 Superblock.bytes hroom
  rw [Nat.add_zero] at hback
  rw [← hback]
  rfl

/-! ## Inodes -/

/-- The group of an inode, and its index there. -/
theorem Layout.inodeGroup (hpos : 0 < n) (hn : n ≤ v.superblock.inodeCount) :
    (n - 1) / v.superblock.inodesPerGroup < v.groupCount ∧
      (n - 1) % v.superblock.inodesPerGroup < v.superblock.inodesPerGroup := by
  have hinodes := h.inodes
  have hper : 0 < v.superblock.inodesPerGroup := Nat.pos_of_ne_zero h.accepted.inodes
  refine ⟨(Nat.div_lt_iff_lt_mul hper).mpr ?_, Nat.mod_lt _ hper⟩
  omega

/-- The record of an inode within its block. -/
theorem Layout.inodePlace {d : GroupDescriptor} (hg : g < v.groupCount)
    (hd : ∀ x < bytes, d x = v.descriptor g x) {i : Nat}
    (hi : i < v.superblock.inodesPerGroup) :
    ∃ block offset, Ext2.inodePlace v.superblock d v.blockBytes i v = .done (block, offset) v ∧
      block < v.superblock.blockCount ∧ offset + v.superblock.inodeSize ≤ v.blockBytes ∧
      (v.descriptor g).inodeTable * v.blockBytes + i * v.superblock.inodeSize =
        block * v.blockBytes + offset := by
  have hpos := h.blockBytes_pos
  have hle := h.sized.le.2
  have hlt := h.blockCount_lt
  obtain ⟨hsize, hdivides⟩ := h.inodeSize
  obtain ⟨-, hend⟩ := h.within (.inodeTable g) hg
  have htable : d.inodeTable = (v.descriptor g).inodeTable :=
    get32_congr fun k hk => hd _ (by unfold bytes; omega)
  change (v.descriptor g).inodeTable + (v.superblock.inodesPerGroup * v.superblock.inodeSize +
    v.blockBytes - 1) / v.blockBytes ≤ _ at hend
  generalize hs : v.superblock.inodeSize = size at *
  generalize hbs : v.blockBytes = bs at *
  obtain ⟨k, hk⟩ := Nat.dvd_of_mod_eq_zero hdivides
  have hsizepos : 0 < size := by
    unfold Inode.bytes at hsize
    omega
  have hmod := Nat.mod_lt (i * size) hpos
  have hdiv := Nat.div_add_mod (i * size) bs
  -- the offset is a multiple of the size of a record
  have hoffset : i * size % bs + size ≤ bs := by
    have hmultiple : i * size % bs = size * (i % k) := by
      rw [hk, Nat.mul_comm i size, Nat.mul_mod_mul_left]
    have hkpos : 0 < k := by
      rcases Nat.eq_zero_or_pos k with hzero | hkpos
      · rw [hzero, Nat.mul_zero] at hk
        omega
      · exact hkpos
    rw [hmultiple, hk, ← Nat.mul_succ]
    exact Nat.mul_le_mul_left _ (Nat.mod_lt _ hkpos)
  have hblock : i * size / bs < (v.superblock.inodesPerGroup * size + bs - 1) / bs := by
    refine (Nat.le_div_iff_mul_le hpos).mpr ?_
    have hrecords : i * size + size ≤ v.superblock.inodesPerGroup * size := by
      rw [← Nat.succ_mul]
      exact Nat.mul_le_mul_right _ hi
    rw [Nat.succ_mul, Nat.mul_comm (i * size / bs)]
    omega
  have hsum : (v.descriptor g).inodeTable + i * size / bs < v.superblock.blockCount := by omega
  refine ⟨(v.descriptor g).inodeTable + i * size / bs, i * size % bs, ?_, hsum, hoffset, ?_⟩
  · have hquotient : u32 (i * size / bs) = i * size / bs := Nat.mod_eq_of_lt (by omega)
    have hrest : u32 (i * size % bs) = i * size % bs :=
      Nat.mod_eq_of_lt (by have hbsle := h.sized.le.2; omega)
    unfold Ext2.inodePlace
    rw [hs, bind_done (divide_done (Nat.ne_of_gt hpos)), bind_done (modulo_done (Nat.ne_of_gt hpos)),
      htable, hquotient, hrest, u32_of_lt (by omega)]
    rfl
  · rw [Nat.add_mul, Nat.add_assoc, Nat.mul_comm (i * size / bs), hdiv]

/-- Where the functions look for an inode, and what they find there. -/
theorem Layout.inodeSteps (hpos : 0 < n) (hn : n ≤ v.superblock.inodeCount) :
    ∃ d block offset, Ext2.readGroupDescriptor ((n - 1) / v.superblock.inodesPerGroup) v = .done d v ∧
      Ext2.inodePlace v.superblock d v.blockBytes ((n - 1) % v.superblock.inodesPerGroup) v =
        .done (block, offset) v ∧
      block < v.superblock.blockCount ∧ offset + v.superblock.inodeSize ≤ v.blockBytes ∧
      v.inodeAddress n = block * v.blockBytes + offset := by
  obtain ⟨hg, hi⟩ := h.inodeGroup hpos hn
  obtain ⟨d, hread, hd⟩ := h.readGroupDescriptor hg
  obtain ⟨block, offset, hplace, hblock, hroom, haddress⟩ := h.inodePlace hg hd hi
  exact ⟨d, block, offset, hread, hplace, hblock, hroom, haddress⟩

end

/-- The volume with another record of inode `n`. -/
def Volume.withInode (v : Volume) (n : Nat) (inode : Inode) : Volume :=
  { v with image := copyFrom v.image (v.inodeAddress n) inode 0 Inode.bytes }

theorem Layout.writeInode (h : Layout v) (hpos : 0 < n) (hn : n ≤ v.superblock.inodeCount)
    (inode : Inode) : Ext2.writeInode n inode v = .done () (v.withInode n inode) := by
  obtain ⟨d, block, offset, hread, hplace, hblock, hroom, haddress⟩ := h.inodeSteps hpos hn
  have hle := h.sized.le.2
  have hsize := h.inodeSize.1
  have hrecord : offset + Inode.bytes ≤ v.blockBytes := by omega
  unfold Ext2.writeInode
  rw [get_bind, require_bind ⟨Nat.ne_of_gt hpos, hn⟩, bind_done (h.blockSize v), require_bind hle,
    bind_done (divide_done h.accepted.inodes), bind_done (modulo_done h.accepted.inodes),
    bind_done hread, bind_done hplace]
  dsimp only
  rw [require_bind hrecord, bind_done (h.readArray hblock),
    bind_done (store_done (Nat.le_trans hrecord hle)),
    writeBlock_done h.sized (h.hasBlock hblock) (by rw [Nat.zero_add]; exact hle),
    copyFrom_back hrecord, ← haddress]
  rfl

theorem Layout.readInode (h : Layout v) (hpos : 0 < n) (hn : n ≤ v.superblock.inodeCount) :
    ∃ inode, Ext2.readInode n v = .done inode v ∧
      ∀ x < Inode.bytes, inode x = v.inodeRecord n x := by
  obtain ⟨d, block, offset, hread, hplace, hblock, hroom, haddress⟩ := h.inodeSteps hpos hn
  have hle := h.sized.le.2
  have hsize := h.inodeSize.1
  have hper := h.inodesPerGroup
  have hrecord : offset + Inode.bytes ≤ v.blockBytes := by omega
  -- the index fits the 16 bits it is kept in
  have hindex : u16 ((n - 1) % v.superblock.inodesPerGroup) =
      (n - 1) % v.superblock.inodesPerGroup := by
    have hlt := (h.inodeGroup hpos hn).2
    exact Nat.mod_eq_of_lt (by omega)
  refine ⟨fun x => copyFrom v.stale 0 v.image (block * v.blockBytes) v.blockBytes (offset + x), ?_,
    fun x hx => ?_⟩
  · unfold Ext2.readInode
    rw [get_bind, require_bind ⟨Nat.ne_of_gt hpos, hn⟩, bind_done (h.blockSize v),
      bind_done (divide_done h.accepted.inodes), bind_done (modulo_done h.accepted.inodes),
      bind_done hread, hindex, bind_done hplace]
    dsimp only
    rw [require_bind hrecord, require_bind hle, bind_done (h.readArray hblock),
      slice_done (Nat.le_trans hrecord hle)]
  · show copyFrom _ _ _ _ _ _ = v.image (v.inodeAddress n + x)
    rw [copyFrom_low (by omega), haddress, Nat.add_assoc]

/-! ## The bytes of an area -/

/-- The `len` bytes at `lo` are in the area. -/
def Area.Covers (v : Volume) (a : Area) (lo len : Nat) : Prop :=
  a.first v * v.blockBytes ≤ lo ∧ lo + len ≤ (a.first v + a.count v) * v.blockBytes

section
variable {a b : Area} {lo len lo' len' : Nat}

theorem Area.Covers.mono (h : a.Covers v lo len) (hlo : lo ≤ lo') (hhi : lo' + len' ≤ lo + len) :
    a.Covers v lo' len' := ⟨Nat.le_trans h.1 hlo, Nat.le_trans hhi h.2⟩

/-- What two areas cover is apart. -/
theorem Layout.covers_apart (h : Layout v) (ha : a.Valid v) (hb : b.Valid v) (hne : a ≠ b)
    (hlo : a.Covers v lo len) (hlo' : b.Covers v lo' len') : lo + len ≤ lo' ∨ lo' + len' ≤ lo := by
  obtain hbefore | hbehind := h.apart a b ha hb hne
  · have hle := Nat.mul_le_mul_right v.blockBytes hbefore
    exact .inl (Nat.le_trans hlo.2 (Nat.le_trans hle hlo'.1))
  · have hle := Nat.mul_le_mul_right v.blockBytes hbehind
    exact .inr (Nat.le_trans hlo'.2 (Nat.le_trans hle hlo.1))

/-- A block for files and an area. -/
theorem Volume.Data.covers_apart (h : v.Data n) (ha : a.Valid v) (hlo : a.Covers v lo len) :
    lo + len ≤ n * v.blockBytes ∨ (n + 1) * v.blockBytes ≤ lo := by
  have hout := h.apart a ha
  unfold Area.Has at hout
  by_cases hbefore : n < a.first v
  · exact .inr (Nat.le_trans (Nat.mul_le_mul_right _ hbefore) hlo.1)
  · have hbehind : a.first v + a.count v ≤ n := by omega
    exact .inl (Nat.le_trans hlo.2 (Nat.mul_le_mul_right _ hbehind))

end

theorem le_blocks (k : Nat) {d : Nat} (hd : 0 < d) : k ≤ (k + d - 1) / d * d := by
  have hdiv := Nat.div_add_mod (k + d - 1) d
  have hmod := Nat.mod_lt (k + d - 1) hd
  rw [Nat.mul_comm] at hdiv
  omega

theorem Layout.superblock_covered (h : Layout v) : Area.superblock.Covers v 1024 1024 := by
  show v.superblock.firstDataBlock * v.blockBytes ≤ 1024 ∧
    1024 + 1024 ≤ (v.superblock.firstDataBlock + 1) * v.blockBytes
  rw [h.firstData]
  rcases h.sized with hbs | hbs | hbs
  all_goals
    rw [hbs]
    decide

theorem Layout.descriptor_covered (h : Layout v) (hg : g < v.groupCount) :
    Area.descriptors.Covers v (v.descriptorAddress g) bytes := by
  unfold Volume.descriptorAddress
  refine ⟨Nat.le_add_right _ _, ?_⟩
  show _ ≤ (v.superblock.firstDataBlock + 1 +
    (v.groupCount * bytes + v.blockBytes - 1) / v.blockBytes) * v.blockBytes
  have hle : (g + 1) * bytes ≤ v.groupCount * bytes :=
    Nat.mul_le_mul_right _ hg
  have hblocks := le_blocks (v.groupCount * bytes) h.blockBytes_pos
  rw [Nat.add_mul _ (_ / _), Nat.add_assoc]
  rw [Nat.succ_mul] at hle
  exact Nat.add_le_add_left (Nat.le_trans hle hblocks) _

/-- The byte of a bit lies in its bitmap. -/
theorem bitmap_covered (g : Nat) {i : Nat} (hi : i < 8 * v.blockBytes) :
    (Area.blockBitmap g).Covers v ((v.descriptor g).blockBitmap * v.blockBytes + i / 8) 1 := by
  refine ⟨Nat.le_add_right _ _, ?_⟩
  show _ ≤ ((v.descriptor g).blockBitmap + 1) * v.blockBytes
  rw [Nat.succ_mul]
  omega

theorem Layout.bitOf_lt (h : Layout v) (n : Nat) : v.bitOf n < 8 * v.blockBytes :=
  Nat.lt_of_lt_of_le (Nat.mod_lt _ h.perGroup.1) h.perGroup.2

/-- A record lies in the inode table of its group. -/
theorem Layout.inode_covered (h : Layout v) (hpos : 0 < n) (hn : n ≤ v.superblock.inodeCount) :
    (Area.inodeTable ((n - 1) / v.superblock.inodesPerGroup)).Covers v (v.inodeAddress n)
      v.superblock.inodeSize := by
  obtain ⟨-, hi⟩ := h.inodeGroup hpos hn
  unfold Volume.inodeAddress
  refine ⟨Nat.le_add_right _ _, ?_⟩
  show _ ≤ (_ + (v.superblock.inodesPerGroup * v.superblock.inodeSize + v.blockBytes - 1) /
    v.blockBytes) * v.blockBytes
  have hle := Nat.mul_le_mul_right v.superblock.inodeSize (Nat.succ_le_of_lt hi)
  have hblocks := le_blocks (v.superblock.inodesPerGroup * v.superblock.inodeSize) h.blockBytes_pos
  rw [Nat.add_mul _ (_ / _), Nat.add_assoc]
  rw [Nat.succ_mul] at hle
  exact Nat.add_le_add_left (Nat.le_trans hle hblocks) _

variable {k : Nat}

/-- The records of two inodes. -/
theorem Layout.inodes_apart (h : Layout v) (hpos : 0 < n)
    (hn : n ≤ v.superblock.inodeCount) (hk : 0 < k) (hk' : k ≤ v.superblock.inodeCount)
    (hne : n ≠ k) : v.inodeAddress n + v.superblock.inodeSize ≤ v.inodeAddress k ∨
      v.inodeAddress k + v.superblock.inodeSize ≤ v.inodeAddress n := by
  have hcovered := h.inode_covered hpos hn
  have hcovered' := h.inode_covered hk hk'
  by_cases hgroup : (n - 1) / v.superblock.inodesPerGroup = (k - 1) / v.superblock.inodesPerGroup
  · -- in one table the indices differ
    have hindex : (n - 1) % v.superblock.inodesPerGroup ≠ (k - 1) % v.superblock.inodesPerGroup := by
      intro hsame
      have hn' := Nat.div_add_mod (n - 1) v.superblock.inodesPerGroup
      have hk'' := Nat.div_add_mod (k - 1) v.superblock.inodesPerGroup
      rw [hgroup, hsame, hk''] at hn'
      omega
    unfold Volume.inodeAddress
    rw [hgroup, Nat.add_assoc, Nat.add_assoc, ← Nat.succ_mul, ← Nat.succ_mul]
    rcases Nat.lt_or_gt_of_ne hindex with hlt | hgt
    · exact .inl (Nat.add_le_add_left (Nat.mul_le_mul_right _ hlt) _)
    · exact .inr (Nat.add_le_add_left (Nat.mul_le_mul_right _ hgt) _)
  · have hvalid : (Area.inodeTable ((n - 1) / v.superblock.inodesPerGroup)).Valid v :=
      (h.inodeGroup hpos hn).1
    have hvalid' : (Area.inodeTable ((k - 1) / v.superblock.inodesPerGroup)).Valid v :=
      (h.inodeGroup hk hk').1
    exact h.covers_apart hvalid hvalid' (fun hsame => hgroup (Area.inodeTable.inj hsame)) hcovered
      hcovered'

/-! ## Volumes with the same parts -/

/-- `w` has its parts where `v` has them: the counts of the superblock and of the descriptors
may differ. -/
structure SamePlaces (v w : Volume) : Prop where
  superblock : Within v.superblock w.superblock 12 20
  sectors : w.sectorCount = v.sectorCount
  descriptors : ∀ g < v.groupCount, ∀ x < 12, w.descriptor g x = v.descriptor g x

namespace SamePlaces

variable {u : Volume}

theorem refl (v : Volume) : SamePlaces v v := ⟨.refl _ _ _, rfl, fun _ _ _ _ => rfl⟩

section

variable (h : SamePlaces v w)

include h

theorem blockCount : w.superblock.blockCount = v.superblock.blockCount :=
  h.superblock.get32 (.inl (by decide))

theorem firstDataBlock :
    w.superblock.firstDataBlock = v.superblock.firstDataBlock :=
  h.superblock.get32 (.inr (by decide))

theorem blocksPerGroup :
    w.superblock.blocksPerGroup = v.superblock.blocksPerGroup :=
  h.superblock.get32 (.inr (by decide))

theorem inodeCount : w.superblock.inodeCount = v.superblock.inodeCount :=
  h.superblock.get32 (.inl (by decide))

theorem inodesPerGroup :
    w.superblock.inodesPerGroup = v.superblock.inodesPerGroup :=
  h.superblock.get32 (.inr (by decide))

theorem inodeSize : w.superblock.inodeSize = v.superblock.inodeSize :=
  h.superblock.get16 (.inr (by decide))

theorem logBlockSize : w.superblock.logBlockSize = v.superblock.logBlockSize :=
  h.superblock.get32 (.inr (by decide))

theorem blockBytes : w.blockBytes = v.blockBytes := by
  show u32 (1024 * 2 ^ w.superblock.logBlockSize) = u32 (1024 * 2 ^ v.superblock.logBlockSize)
  rw [h.logBlockSize]

theorem groupCount : w.groupCount = v.groupCount := by
  unfold Volume.groupCount
  rw [h.blockCount, h.firstDataBlock, h.blocksPerGroup]

theorem groupOf (n : Nat) : w.groupOf n = v.groupOf n := by
  unfold Volume.groupOf
  rw [h.firstDataBlock, h.blocksPerGroup]

theorem bitOf (n : Nat) : w.bitOf n = v.bitOf n := by
  unfold Volume.bitOf
  rw [h.firstDataBlock, h.blocksPerGroup]

theorem descriptorAddress (g : Nat) :
    w.descriptorAddress g = v.descriptorAddress g := by
  unfold Volume.descriptorAddress
  rw [h.firstDataBlock, h.blockBytes]

theorem place (hg : g < v.groupCount) (hx : x + 4 ≤ 12) :
    get32 (w.descriptor g) x = get32 (v.descriptor g) x :=
  get32_congr fun _ _ => h.descriptors g hg _ (by omega)

theorem blockBitmap (hg : g < v.groupCount) :
    (w.descriptor g).blockBitmap = (v.descriptor g).blockBitmap := h.place hg (by decide)

theorem trans (h' : SamePlaces w u) : SamePlaces v u where
  superblock := h.superblock.trans h'.superblock
  sectors := h'.sectors.trans h.sectors
  descriptors g hg x hx :=
    (h'.descriptors g (h.groupCount ▸ hg) x hx).trans (h.descriptors g hg x hx)

theorem symm : SamePlaces w v where
  superblock x hx := (h.superblock x hx).symm
  sectors := h.sectors.symm
  descriptors g hg x hx := (h.descriptors g (h.groupCount ▸ hg) x hx).symm

theorem valid (a : Area) : a.Valid w ↔ a.Valid v := by
  cases a
  all_goals
    unfold Area.Valid
    rw [h.groupCount]

theorem count (a : Area) : a.count w = a.count v := by
  unfold Area.count
  rw [h.groupCount, h.blockBytes, h.inodesPerGroup, h.inodeSize]

theorem first {a : Area} (ha : a.Valid v) : a.first w = a.first v := by
  cases a with
  | superblock => exact h.firstDataBlock
  | descriptors => exact congrArg (· + 1) h.firstDataBlock
  | blockBitmap g => exact h.place ha (by decide)
  | inodeBitmap g => exact h.place ha (by decide)
  | inodeTable g => exact h.place ha (by decide)

theorem bitAddress (hv : Layout v) (hlow : v.superblock.firstDataBlock ≤ n)
    (hhigh : n < v.superblock.blockCount) : w.bitAddress n = v.bitAddress n := by
  unfold Volume.bitAddress
  rw [h.groupOf, h.bitOf, h.blockBitmap (hv.groupOf_lt hlow hhigh), h.blockBytes]

theorem inodeAddress (hv : Layout v) (hpos : 0 < n)
    (hn : n ≤ v.superblock.inodeCount) : w.inodeAddress n = v.inodeAddress n := by
  unfold Volume.inodeAddress
  have htable : (w.descriptor _).inodeTable = (v.descriptor _).inodeTable :=
    h.place (hv.inodeGroup hpos hn).1 (by decide)
  rw [h.inodesPerGroup, h.blockBytes, h.inodeSize, htable]

theorem data (hn : v.Data n) : w.Data n where
  low := h.firstDataBlock ▸ hn.low
  high := h.blockCount ▸ hn.high
  apart a ha := by
    have ha' := (h.valid a).mp ha
    unfold Area.Has
    rw [h.first ha', h.count]
    exact hn.apart a ha'

/-- So the parts still fit. -/
theorem layout (hv : Layout v) : Layout w where
  accepted := ⟨h.logBlockSize ▸ hv.accepted.blocks, h.inodesPerGroup ▸ hv.accepted.inodes⟩
  blocks := h.firstDataBlock ▸ h.blockCount ▸ hv.blocks
  firstData := by
    rw [h.firstDataBlock, h.blockBytes]
    exact hv.firstData
  perGroup := by
    rw [h.blocksPerGroup, h.blockBytes]
    exact hv.perGroup
  device := by
    rw [h.blockCount, h.blockBytes, h.sectors]
    exact hv.device
  inodeSize := by
    rw [h.inodeSize, h.blockBytes]
    exact hv.inodeSize
  inodesPerGroup := by
    rw [h.inodesPerGroup, h.blockBytes]
    exact hv.inodesPerGroup
  inodes := by
    rw [h.inodeCount, h.groupCount, h.inodesPerGroup]
    exact hv.inodes
  within a ha := by
    have ha' := (h.valid a).mp ha
    rw [h.first ha', h.count, h.firstDataBlock, h.blockCount]
    exact hv.within a ha'
  apart a b ha hb hne := by
    have ha' := (h.valid a).mp ha
    have hb' := (h.valid b).mp hb
    rw [h.first ha', h.first hb', h.count, h.count]
    exact hv.apart a b ha' hb' hne

end

/-- A change of the image that leaves the descriptors alone up to their counts. -/
theorem of_image {image : Mem} {lo hi : Nat} (hw : Within v.image image lo hi)
    (hclear : ∀ g < v.groupCount, v.descriptorAddress g + 12 ≤ lo ∨ hi ≤ v.descriptorAddress g) :
    SamePlaces v { v with image } := by
  refine ⟨.refl _ _ _, rfl, fun g hg x hx => hw (v.descriptorAddress g + x) ?_⟩
  have happart := hclear g hg
  omega

end SamePlaces

/-- A change in an area. -/
theorem Layout.same_area (h : Layout v) {a : Area} {lo len : Nat} {image : Mem} (ha : a.Valid v)
    (hne : a ≠ .descriptors) (hlo : a.Covers v lo len)
    (hw : Within v.image image lo (lo + len)) : SamePlaces v { v with image } := by
  refine SamePlaces.of_image hw fun g hg => ?_
  have hd := (h.descriptor_covered hg).mono (Nat.le_refl _)
    (Nat.add_le_add_left (by decide : 12 ≤ bytes) _)
  have hvalid : Area.descriptors.Valid v := trivial
  rcases h.covers_apart ha hvalid hne hlo hd with hbefore | hbehind
  · exact .inr hbefore
  · exact .inl hbehind

/-! ## Volumes with the same bitmaps and counts -/

/-- Nothing that says which blocks are in use has changed. -/
structure SameMaps (v w : Volume) : Prop where
  sectors : w.sectorCount = v.sectorCount
  superblock : w.superblock = v.superblock
  written : ∀ x < Superblock.bytes, w.image (1024 + x) = v.image (1024 + x)
  descriptors : ∀ g < v.groupCount, ∀ x < bytes, w.descriptor g x = v.descriptor g x
  bits : ∀ g < v.groupCount, ∀ i < 8 * v.blockBytes, w.bitmapBit g i = v.bitmapBit g i

theorem SameMaps.places (h : SameMaps v w) : SamePlaces v w where
  superblock := by
    rw [h.superblock]
    exact .refl _ _ _
  sectors := h.sectors
  descriptors g hg x hx := h.descriptors g hg x (Nat.lt_trans hx (by decide))

theorem SameMaps.trans {u : Volume} (h : SameMaps v w) (h' : SameMaps w u) : SameMaps v u where
  sectors := h'.sectors.trans h.sectors
  superblock := h'.superblock.trans h.superblock
  written x hx := (h'.written x hx).trans (h.written x hx)
  descriptors g hg x hx :=
    (h'.descriptors g (h.places.groupCount.symm ▸ hg) x hx).trans (h.descriptors g hg x hx)
  bits g hg i hi :=
    (h'.bits g (h.places.groupCount.symm ▸ hg) i (h.places.blockBytes.symm ▸ hi)).trans
      (h.bits g hg i hi)

/-- A range of bytes away from the superblock, the descriptors and the block bitmaps. -/
structure Volume.Clear (v : Volume) (lo hi : Nat) : Prop where
  superblock : 1024 + Superblock.bytes ≤ lo ∨ hi ≤ 1024
  descriptors : ∀ g < v.groupCount, v.descriptorAddress g + bytes ≤ lo ∨ hi ≤ v.descriptorAddress g
  bitmaps : ∀ g < v.groupCount, ∀ i < 8 * v.blockBytes,
    (v.descriptor g).blockBitmap * v.blockBytes + i / 8 + 1 ≤ lo ∨
      hi ≤ (v.descriptor g).blockBitmap * v.blockBytes + i / 8

/-- It can be written without a change of them. -/
theorem SameMaps.of_within {image : Mem} {lo hi : Nat} (hclear : v.Clear lo hi)
    (hw : Within v.image image lo hi) : SameMaps v { v with image } := by
  have hplaces : SamePlaces v { v with image } := by
    refine SamePlaces.of_image hw fun g hg => ?_
    have happart := hclear.descriptors g hg
    unfold bytes at happart
    omega
  refine ⟨rfl, rfl, fun x hx => hw _ ?_, fun g hg x hx => ?_, fun g hg i hi => ?_⟩
  · have happart := hclear.superblock
    omega
  · have happart := hclear.descriptors g hg
    exact hw (v.descriptorAddress g + x) (by omega)
  · have happart := hclear.bitmaps g hg i hi
    unfold Volume.bitmapBit
    rw [hplaces.blockBitmap hg, hplaces.blockBytes]
    exact congrArg (fun byte : UInt8 => byte.toNat.testBit (i % 8)) (hw _ (by omega))

section

variable (h : Layout v)

include h

/-- A block for files is such a range. -/
theorem Layout.clear_data (hn : v.Data n) :
    v.Clear (n * v.blockBytes) ((n + 1) * v.blockBytes) where
  superblock := hn.covers_apart (a := .superblock) trivial
    (h.superblock_covered.mono (Nat.le_refl _) (by decide))
  descriptors _ hg := hn.covers_apart (a := .descriptors) trivial (h.descriptor_covered hg)
  bitmaps g hg _ hi := by
    have hvalid : (Area.blockBitmap g).Valid v := hg
    exact hn.covers_apart hvalid (bitmap_covered g hi)

/-- So is the record of an inode. -/
theorem Layout.clear_inode (hpos : 0 < n) (hn : n ≤ v.superblock.inodeCount) :
    v.Clear (v.inodeAddress n) (v.inodeAddress n + v.superblock.inodeSize) := by
  have hvalid : (Area.inodeTable ((n - 1) / v.superblock.inodesPerGroup)).Valid v :=
    (h.inodeGroup hpos hn).1
  have hcovered := h.inode_covered hpos hn
  refine ⟨?_, fun g hg => ?_, fun g hg i hi => ?_⟩
  · exact h.covers_apart (a := .superblock) trivial hvalid nofun
      (h.superblock_covered.mono (Nat.le_refl _) (by decide)) hcovered
  · exact h.covers_apart (a := .descriptors) trivial hvalid nofun (h.descriptor_covered hg) hcovered
  · have hvalid' : (Area.blockBitmap g).Valid v := hg
    exact h.covers_apart hvalid' hvalid nofun (bitmap_covered g hi) hcovered

theorem Layout.withInode_within (n : Nat) (inode : Inode) :
    Within v.image (v.withInode n inode).image (v.inodeAddress n)
      (v.inodeAddress n + v.superblock.inodeSize) :=
  (copyFrom_within _ _ _ _ _).mono (Nat.le_refl _) (Nat.add_le_add_left h.inodeSize.1 _)

theorem Layout.withInode_maps (hpos : 0 < n) (hn : n ≤ v.superblock.inodeCount)
    (inode : Inode) : SameMaps v (v.withInode n inode) :=
  SameMaps.of_within (h.clear_inode hpos hn) (h.withInode_within n inode)

theorem Layout.withInode_record (hpos : 0 < n) (hn : n ≤ v.superblock.inodeCount)
    (inode : Inode) (hx : x < Inode.bytes) : (v.withInode n inode).inodeRecord n x = inode x := by
  unfold Volume.inodeRecord
  rw [(h.withInode_maps hpos hn inode).places.inodeAddress h hpos hn]
  show copyFrom _ _ _ _ _ _ = _
  unfold copyFrom
  rw [if_pos (by omega), Nat.add_sub_cancel_left, Nat.zero_add]

/-- The other records. -/
theorem Layout.withInode_other (hpos : 0 < n) (hn : n ≤ v.superblock.inodeCount)
    (hk : 0 < k) (hk' : k ≤ v.superblock.inodeCount) (hne : n ≠ k) (inode : Inode)
    (hx : x < Inode.bytes) : (v.withInode n inode).inodeRecord k x = v.inodeRecord k x := by
  have happart := h.inodes_apart hpos hn hk hk' hne
  have hsize := h.inodeSize.1
  unfold Volume.inodeRecord
  rw [(h.withInode_maps hpos hn inode).places.inodeAddress h hk hk']
  exact h.withInode_within n inode _ (by omega)

/-- The blocks for files. -/
theorem Layout.withInode_data (hpos : 0 < n) (hn : n ≤ v.superblock.inodeCount)
    (inode : Inode) (hk : v.Data k) (hx : x < v.blockBytes) :
    (v.withInode n inode).image (k * v.blockBytes + x) = v.image (k * v.blockBytes + x) := by
  have hvalid : (Area.inodeTable ((n - 1) / v.superblock.inodesPerGroup)).Valid v :=
    (h.inodeGroup hpos hn).1
  have happart := hk.covers_apart hvalid (h.inode_covered hpos hn)
  rw [Nat.succ_mul] at happart
  exact h.withInode_within n inode _ (by omega)

end

/-- The volume with other contents of block `n`. -/
def Volume.withBlock (v : Volume) (n : Nat) (bytes : Mem) : Volume :=
  { v with image := copyFrom v.image (n * v.blockBytes) bytes 0 v.blockBytes }

theorem Layout.writeBlock (h : Layout v) {b : Buffer} (hn : n < v.superblock.blockCount)
    (hb : v.blockBytes ≤ b.size) :
    Ext2.writeBlock v.blockBytes n b 0 v = .done () (v.withBlock n b.bytes) :=
  writeBlock_done h.sized (h.hasBlock hn) (by rw [Nat.zero_add]; exact hb)

theorem withBlock_within (v : Volume) (n : Nat) (bytes : Mem) :
    Within v.image (v.withBlock n bytes).image (n * v.blockBytes) ((n + 1) * v.blockBytes) :=
  (copyFrom_within _ _ _ _ _).mono (Nat.le_refl _) (Nat.le_of_eq (Nat.succ_mul _ _).symm)

theorem Layout.withBlock_maps (h : Layout v) (hn : v.Data n) (bytes : Mem) :
    SameMaps v (v.withBlock n bytes) :=
  SameMaps.of_within (h.clear_data hn) (withBlock_within v n bytes)

theorem withBlock_block (v : Volume) (n : Nat) (bytes : Mem) (hx : x < v.blockBytes) :
    (v.withBlock n bytes).block n x = bytes x := by
  show copyFrom v.image (n * v.blockBytes) bytes 0 v.blockBytes (n * v.blockBytes + x) = bytes x
  unfold copyFrom
  rw [if_pos (by omega), Nat.add_sub_cancel_left, Nat.zero_add]

theorem withBlock_other (v : Volume) (hne : n ≠ k) (bytes : Mem)
    (hx : x < v.blockBytes) : (v.withBlock n bytes).block k x = v.block k x := by
  refine withBlock_within v n bytes _ ?_
  rcases Nat.lt_or_gt_of_ne hne with hlt | hgt
  · have hle := Nat.mul_le_mul_right v.blockBytes (Nat.succ_le_of_lt hlt)
    exact .inr (Nat.le_trans hle (Nat.le_add_right _ _))
  · have hle := Nat.mul_le_mul_right v.blockBytes (Nat.succ_le_of_lt hgt)
    rw [Nat.succ_mul] at hle
    exact .inl (by show k * v.blockBytes + x < _; omega)

theorem Layout.withBlock_record (h : Layout v) (hn : v.Data n) (bytes : Mem)
    (hk : 0 < k) (hk' : k ≤ v.superblock.inodeCount) (hx : x < Inode.bytes) :
    (v.withBlock n bytes).inodeRecord k x = v.inodeRecord k x := by
  have hvalid : (Area.inodeTable ((k - 1) / v.superblock.inodesPerGroup)).Valid v :=
    (h.inodeGroup hk hk').1
  have happart := hn.covers_apart hvalid (h.inode_covered hk hk')
  have hsize := h.inodeSize.1
  unfold Volume.inodeRecord
  rw [(h.withBlock_maps hn bytes).places.inodeAddress h hk hk']
  exact withBlock_within v n bytes _ (by omega)

/-! ## Volumes of one group -/

/-- 64 blocks of 1024 bytes in one group, with sixteen inodes: the parts without files are
the blocks 1 to 6. -/
structure OneGroup (v : Volume) : Prop where
  size : v.superblock.logBlockSize = 0 ∧ v.sectorCount = 128
  blocks : v.superblock.firstDataBlock = 1 ∧ v.superblock.blockCount = 64 ∧
    v.superblock.blocksPerGroup = 8192
  inodes : v.superblock.inodesPerGroup = 16 ∧ v.superblock.inodeCount = 16 ∧
    v.superblock.inodeSize = 128
  descriptor : (v.descriptor 0).blockBitmap = 3 ∧ (v.descriptor 0).inodeBitmap = 4 ∧
    (v.descriptor 0).inodeTable = 5

namespace OneGroup

theorem blockBytes (h : OneGroup v) : v.blockBytes = 1024 := by
  show u32 (1024 * 2 ^ v.superblock.logBlockSize) = 1024
  rw [h.size.1]
  rfl

theorem groupCount (h : OneGroup v) : v.groupCount = 1 := by
  unfold Volume.groupCount
  rw [h.blocks.1, h.blocks.2.1, h.blocks.2.2]

/-- The places of the areas. -/
theorem area (h : OneGroup v) {a : Area} (ha : a.Valid v) :
    (a = .superblock ∧ a.first v = 1 ∧ a.count v = 1) ∨
    (a = .descriptors ∧ a.first v = 2 ∧ a.count v = 1) ∨
    (a = .blockBitmap 0 ∧ a.first v = 3 ∧ a.count v = 1) ∨
    (a = .inodeBitmap 0 ∧ a.first v = 4 ∧ a.count v = 1) ∨
    (a = .inodeTable 0 ∧ a.first v = 5 ∧ a.count v = 2) := by
  have hgroups := h.groupCount
  obtain ⟨hfirst, -, -⟩ := h.blocks
  obtain ⟨hbitmap, hinodes, htable⟩ := h.descriptor
  cases a with
  | superblock => exact .inl ⟨rfl, hfirst, rfl⟩
  | descriptors =>
    refine .inr (.inl ⟨rfl, congrArg (· + 1) hfirst, ?_⟩)
    unfold Area.count
    rw [hgroups, h.blockBytes]
    rfl
  | blockBitmap g =>
    obtain rfl : g = 0 := Nat.lt_one_iff.mp (hgroups ▸ ha)
    exact .inr (.inr (.inl ⟨rfl, hbitmap, rfl⟩))
  | inodeBitmap g =>
    obtain rfl : g = 0 := Nat.lt_one_iff.mp (hgroups ▸ ha)
    exact .inr (.inr (.inr (.inl ⟨rfl, hinodes, rfl⟩)))
  | inodeTable g =>
    obtain rfl : g = 0 := Nat.lt_one_iff.mp (hgroups ▸ ha)
    refine .inr (.inr (.inr (.inr ⟨rfl, htable, ?_⟩)))
    unfold Area.count
    rw [h.inodes.1, h.inodes.2.2, h.blockBytes]

theorem layout (h : OneGroup v) : Layout v where
  accepted := ⟨by rw [h.size.1]; decide, by rw [h.inodes.1]; decide⟩
  blocks := by
    rw [h.blocks.1, h.blocks.2.1]
    decide
  firstData := by rw [h.blocks.1, h.blockBytes]
  perGroup := by
    rw [h.blocks.2.2, h.blockBytes]
    decide
  device := Nat.le_of_eq (by rw [h.blocks.2.1, h.blockBytes, h.size.2])
  inodeSize := by
    rw [h.inodes.2.2, h.blockBytes]
    decide
  inodesPerGroup := by
    rw [h.inodes.1, h.blockBytes]
    decide
  inodes := Nat.le_of_eq (by rw [h.inodes.1, h.inodes.2.1, h.groupCount])
  within a ha := by
    rw [h.blocks.1, h.blocks.2.1]
    have hplace := h.area ha
    omega
  apart a b ha hb hne := by
    have hplace := h.area ha
    have hplace' := h.area hb
    rcases hplace with ⟨rfl, h1, h2⟩ | ⟨rfl, h1, h2⟩ | ⟨rfl, h1, h2⟩ | ⟨rfl, h1, h2⟩ | ⟨rfl, h1, h2⟩
    all_goals
      rcases hplace' with ⟨rfl, h3, h4⟩ | ⟨rfl, h3, h4⟩ | ⟨rfl, h3, h4⟩ | ⟨rfl, h3, h4⟩ | ⟨rfl, h3, h4⟩
      all_goals first | exact absurd rfl hne | omega

theorem data (h : OneGroup v) (hlow : 7 ≤ n) (hhigh : n < 64) : v.Data n where
  low := by
    rw [h.blocks.1]
    omega
  high := by
    rw [h.blocks.2.1]
    exact hhigh
  apart a ha := by
    have hplace := h.area ha
    unfold Area.Has
    omega

end OneGroup

end MeatySkeleton.Ext2
