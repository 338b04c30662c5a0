import MeatySkeleton.Ext2.Allocation
import MeatySkeleton.Ext2.Revisions

/-!
# The inode allocator

`ext2_allocate_inode` takes the first inode that is neither reserved nor in use, writes an empty
record for it, and then its bit, the count of its group and the one of the superblock
(`TookInode`). It has no context: what it changes is on the device at once.
-/

namespace MeatySkeleton.Ext2

open Lib Lib.Effect
open GroupDescriptor (bytes)

namespace Volume

variable (v : Volume)

/-- Bit `i` of the inode bitmap of group `g`. -/
def inodeBit (g i : Nat) : Bool :=
  (v.image ((v.descriptor g).inodeBitmap * v.blockBytes + i / 8)).toNat.testBit (i % 8)

def inodeGroup (n : Nat) : Nat := (n - 1) / v.superblock.inodesPerGroup

def inodeIndex (n : Nat) : Nat := (n - 1) % v.superblock.inodesPerGroup

/-- Whether inode `n` is in use, counted from one. -/
def inodeUsed (n : Nat) : Bool := v.inodeBit (v.inodeGroup n) (v.inodeIndex n)

/-- The byte of the bitmaps with the bit of inode `n`. -/
def inodeBitAddress (n : Nat) : Nat :=
  (v.descriptor (v.inodeGroup n)).inodeBitmap * v.blockBytes + v.inodeIndex n / 8

/-- An inode that is not reserved. -/
structure Usable (n : Nat) : Prop where
  positive : 0 < n
  high : n ≤ v.superblock.inodeCount
  first : firstUsableInode v.superblock ≤ n

/-- No inode of group `g` that is not reserved is free, by the count or by the bitmap. -/
def InodesFull (g : Nat) : Prop :=
  (v.descriptor g).freeInodesCount = 0 ∨ ∀ n, v.Usable n → v.inodeGroup n = g → v.inodeUsed n = true

end Volume

/-- The record of a new inode. -/
def newInode (mode : Nat) : Inode := put16 (fun _ => 0) 0 mode

/-- Inode `n` was free and is in use now. -/
structure TookInode (n : Nat) (v w : Volume) : Prop where
  places : SamePlaces v w
  usable : v.Usable n
  fresh : v.inodeUsed n = false
  superblock : w.superblock = v.superblock.setFreeInodeCount (v.superblock.freeInodeCount - 1)
  descriptors : ∀ g < v.groupCount, ∀ x < bytes, w.descriptor g x =
    if v.inodeGroup n = g then
      (v.descriptor g).setFreeInodesCount ((v.descriptor g).freeInodesCount - 1) x
    else v.descriptor g x
  inodeBits : ∀ g < v.groupCount, ∀ i < 8 * v.blockBytes, w.inodeBit g i =
    (v.inodeBit g i || decide (v.inodeGroup n = g ∧ v.inodeIndex n = i))
  bits : ∀ g < v.groupCount, ∀ i < 8 * v.blockBytes, w.bitmapBit g i = v.bitmapBit g i
  blocks : ∀ k, v.Data k → ∀ x < v.blockBytes, w.block k x = v.block k x

variable {v w : Volume} {g i k n mode x : Nat}

/-! ## The parts that are written -/

/-- A change in one area leaves the others alone. -/
theorem Layout.area_kept (h : Layout v) {a b : Area} {lo len y : Nat} {m m' : Mem} (ha : a.Valid v)
    (hb : b.Valid v) (hne : a ≠ b) (hlo : a.Covers v lo len) (hw : Within m m' lo (lo + len))
    (hy : b.Covers v y 1) : m' y = m y := by
  have happart := h.covers_apart ha hb hne hlo hy
  exact hw y (by omega)

theorem Layout.data_kept (h : Layout v) {a : Area} {lo len : Nat} {m m' : Mem} (ha : a.Valid v)
    (hlo : a.Covers v lo len) (hw : Within m m' lo (lo + len)) (hk : v.Data k)
    (hx : x < v.blockBytes) : m' (k * v.blockBytes + x) = m (k * v.blockBytes + x) := by
  have happart := hk.covers_apart ha hlo
  rw [Nat.succ_mul] at happart
  exact hw _ (by have hpos := h.blockBytes_pos; omega)

theorem inodeBitmap_covered (g : Nat) (hi : i < 8 * v.blockBytes) :
    (Area.inodeBitmap g).Covers v ((v.descriptor g).inodeBitmap * v.blockBytes + i / 8) 1 := by
  refine ⟨Nat.le_add_right _ _, ?_⟩
  show _ ≤ ((v.descriptor g).inodeBitmap + 1) * v.blockBytes
  rw [Nat.succ_mul]
  omega

theorem inodeBitmap_block (g : Nat) : (Area.inodeBitmap g).Covers v
    ((v.descriptor g).inodeBitmap * v.blockBytes) v.blockBytes := by
  refine ⟨Nat.le_refl _, ?_⟩
  show _ ≤ ((v.descriptor g).inodeBitmap + 1) * v.blockBytes
  rw [Nat.succ_mul]

theorem Layout.inodeIndex_lt (h : Layout v) (n : Nat) : v.inodeIndex n < 8 * v.blockBytes :=
  Nat.lt_of_lt_of_le (Nat.mod_lt _ (Nat.pos_of_ne_zero h.accepted.inodes)) h.inodesPerGroup

namespace Volume

variable (v : Volume) (n mode : Nat)

/-- The image with the record of a new inode. -/
def inodeCleared : Mem :=
  copyFrom v.image (v.inodeAddress n) (newInode mode) 0 v.superblock.inodeSize

/-- The image with the bit of inode `n` set. -/
def inodeMarked : Mem :=
  put8 (v.inodeCleared n mode) (v.inodeBitAddress n)
    (UInt8.ofNat ((v.image (v.inodeBitAddress n)).toNat ||| 2 ^ (v.inodeIndex n % 8)))

/-- The image with that inode counted in its group. -/
def inodeCounted : Mem :=
  put16 (v.inodeMarked n mode) (v.descriptorAddress (v.inodeGroup n) + 14)
    ((v.descriptor (v.inodeGroup n)).freeInodesCount - 1)

/-- The volume after inode `n` is allocated. -/
def inodeTaken : Volume :=
  let superblock := v.superblock.setFreeInodeCount (v.superblock.freeInodeCount - 1)
  { v with superblock, image := copyFrom (v.inodeCounted n mode) 1024 superblock 0 Superblock.bytes }

end Volume

/-- One byte of a group descriptor. -/
theorem Layout.descriptor_byte (h : Layout v) (hg : g < v.groupCount) (hx : x < bytes) :
    Area.descriptors.Covers v (v.descriptorAddress g + x) 1 :=
  (h.descriptor_covered hg).mono (Nat.le_add_right _ _) (by omega)

theorem Layout.inodeTaken_area (h : Layout v) {b : Area} {y : Nat} (hb : b.Valid v) (hne : b ≠ .superblock)
    (hy : b.Covers v y 1) : (v.inodeTaken n mode).image y = v.inodeCounted n mode y := by
  have hcovered := h.superblock_covered.mono (Nat.le_refl _)
    (by decide : 1024 + Superblock.bytes ≤ 1024 + 1024)
  exact h.area_kept (a := .superblock) trivial hb hne.symm hcovered (copyFrom_within _ _ _ _ _) hy

section
variable (h : Layout v) (hpos : 0 < n) (hn : n ≤ v.superblock.inodeCount)
include h hpos hn

theorem Layout.inodeGroup_lt : v.inodeGroup n < v.groupCount := (h.inodeGroup hpos hn).1

theorem Layout.inodeCleared_area {b : Area} {y : Nat} (hb : b.Valid v)
    (hne : b ≠ .inodeTable (v.inodeGroup n)) (hy : b.Covers v y 1) :
    v.inodeCleared n mode y = v.image y := by
  have hvalid : (Area.inodeTable (v.inodeGroup n)).Valid v := h.inodeGroup_lt hpos hn
  exact h.area_kept hvalid hb hne.symm (h.inode_covered hpos hn) (copyFrom_within _ _ _ _ _) hy

theorem Layout.inodeMarked_area {b : Area} {y : Nat} (hb : b.Valid v)
    (hne : b ≠ .inodeBitmap (v.inodeGroup n)) (hy : b.Covers v y 1) :
    v.inodeMarked n mode y = v.inodeCleared n mode y := by
  have hvalid : (Area.inodeBitmap (v.inodeGroup n)).Valid v := h.inodeGroup_lt hpos hn
  exact h.area_kept hvalid hb hne.symm (inodeBitmap_covered _ (h.inodeIndex_lt n))
    (put8_within _ _ _) hy

theorem Layout.inodeCounted_area {b : Area} {y : Nat} (hb : b.Valid v) (hne : b ≠ .descriptors)
    (hy : b.Covers v y 1) : v.inodeCounted n mode y = v.inodeMarked n mode y := by
  have hcovered := (h.descriptor_covered (h.inodeGroup_lt hpos hn)).mono (Nat.le_add_right _ 14)
    (by unfold bytes; omega : _ + 14 + 2 ≤ _ + bytes)
  exact h.area_kept (a := .descriptors) trivial hb hne.symm hcovered (put16_within _ _ _) hy

theorem Layout.inodeMarked_descriptor (hg : g < v.groupCount) (hx : x < bytes) :
    v.inodeMarked n mode (v.descriptorAddress g + x) = v.descriptor g x := by
  have hbyte := h.descriptor_byte hg hx
  rw [h.inodeMarked_area hpos hn (b := .descriptors) trivial nofun hbyte]
  exact h.inodeCleared_area hpos hn (b := .descriptors) trivial nofun hbyte

theorem Layout.inodeMarked_same : SamePlaces v { v with image := v.inodeMarked n mode } :=
  ⟨.refl _ _ _, rfl, fun _ hg _ hx =>
    h.inodeMarked_descriptor hpos hn hg (Nat.lt_trans hx (by decide))⟩

theorem Layout.inodeCleared_same : SamePlaces v { v with image := v.inodeCleared n mode } :=
  ⟨.refl _ _ _, rfl, fun _ hg _ hx => h.inodeCleared_area hpos hn (b := .descriptors) trivial nofun
    (h.descriptor_byte hg (Nat.lt_trans hx (by decide)))⟩

/-- The descriptors then. -/
theorem Layout.inodeCounted_descriptor (hg : g < v.groupCount) (hx : x < bytes) :
    v.inodeCounted n mode (v.descriptorAddress g + x) = if v.inodeGroup n = g then
      (v.descriptor g).setFreeInodesCount ((v.descriptor g).freeInodesCount - 1) x
    else v.descriptor g x := by
  have hmarked : v.inodeMarked n mode (v.descriptorAddress g + x) = v.descriptor g x :=
    h.inodeMarked_descriptor hpos hn hg hx
  unfold Volume.inodeCounted
  split
  next heq =>
    rw [heq]
    show put16 (v.inodeMarked n mode) (v.descriptorAddress g + 14) _ (v.descriptorAddress g + x) =
      put16 (v.descriptor g) 14 _ x
    unfold put16
    rw [hmarked]
    by_cases h0 : x = 14
    · rw [if_pos (by omega), if_pos h0]
    · by_cases h1 : x = 15
      · rw [if_neg (by omega), if_pos (by omega), if_neg h0, if_pos h1]
      · rw [if_neg (by omega), if_neg (by omega), if_neg h0, if_neg (by omega)]
  next hne =>
    refine (put16_within _ _ _ _ ?_).trans hmarked
    unfold bytes at hx
    unfold Volume.descriptorAddress bytes
    omega

theorem Layout.inodeTaken_descriptor (hg : g < v.groupCount) (hx : x < bytes) :
    (v.inodeTaken n mode).image (v.descriptorAddress g + x) = if v.inodeGroup n = g then
      (v.descriptor g).setFreeInodesCount ((v.descriptor g).freeInodesCount - 1) x
    else v.descriptor g x := by
  rw [h.inodeTaken_area (b := .descriptors) trivial nofun (h.descriptor_byte hg hx)]
  exact h.inodeCounted_descriptor hpos hn hg hx

theorem Layout.inodeCounted_same : SamePlaces v { v with image := v.inodeCounted n mode } := by
  refine ⟨.refl _ _ _, rfl, fun g hg x hx => ?_⟩
  refine (h.inodeCounted_descriptor hpos hn hg (Nat.lt_trans hx (by decide))).trans ?_
  split
  next => exact put16_within _ _ _ x (.inl (Nat.lt_trans hx (by decide)))
  next => rfl

theorem Layout.inodeTaken_same : SamePlaces v (v.inodeTaken n mode) := by
  refine ⟨(put32_within _ _ _).mono (by decide) (by decide), rfl, fun g hg x hx => ?_⟩
  refine (h.inodeTaken_descriptor hpos hn hg (Nat.lt_trans hx (by decide))).trans ?_
  split
  next => exact put16_within _ _ _ x (.inl (Nat.lt_trans hx (by decide)))
  next => rfl

/-- The bytes of the inode bitmaps then. -/
theorem Layout.inodeTaken_bit (hg : g < v.groupCount) (hi : i < 8 * v.blockBytes) :
    (v.inodeTaken n mode).inodeBit g i =
      (v.inodeBit g i || decide (v.inodeGroup n = g ∧ v.inodeIndex n = i)) := by
  have hplaces : SamePlaces v (v.inodeTaken n mode) := h.inodeTaken_same hpos hn
  have hvalid : (Area.inodeBitmap g).Valid v := hg
  have hcovered := inodeBitmap_covered (v := v) g hi
  have htable : ((v.inodeTaken n mode).descriptor g).inodeBitmap = (v.descriptor g).inodeBitmap :=
    hplaces.place hg (by decide)
  have hindex := h.inodeIndex_lt n
  have hcleared : ∀ y, (Area.inodeBitmap g).Covers v y 1 →
      v.inodeCleared n mode y = v.image y :=
    fun y hy => h.inodeCleared_area hpos hn hvalid nofun hy
  unfold Volume.inodeBit
  rw [htable, hplaces.blockBytes, h.inodeTaken_area hvalid nofun hcovered,
    h.inodeCounted_area hpos hn hvalid nofun hcovered]
  by_cases hgroup : v.inodeGroup n = g
  · have hset := bit_set ⟨v.blockBytes, fun x =>
      v.image ((v.descriptor g).inodeBitmap * v.blockBytes + x)⟩ (v.inodeIndex n) i
    have hdecide : decide (v.inodeGroup n = g ∧ v.inodeIndex n = i) = decide (v.inodeIndex n = i) :=
      decide_eq_decide.mpr ⟨And.right, fun heq => ⟨hgroup, heq⟩⟩
    rw [hdecide]
    refine Eq.trans ?_ hset
    unfold Volume.inodeMarked Buffer.bit Volume.inodeBitAddress
    dsimp only
    rw [hgroup]
    by_cases hbyte : i / 8 = v.inodeIndex n / 8
    · rw [hbyte, put8_self, put8_self]
    · rw [put8_within _ _ _ _ (by omega), put8_within _ _ _ _ (by omega), hcleared _ hcovered]
  · have hne : Area.inodeBitmap g ≠ .inodeBitmap (v.inodeGroup n) :=
      fun heq => hgroup (Area.inodeBitmap.inj heq).symm
    rw [h.inodeMarked_area hpos hn hvalid hne hcovered, hcleared _ hcovered,
      decide_eq_false fun hboth => hgroup hboth.1, Bool.or_false]

theorem Layout.inodeTaken_blockBit (hg : g < v.groupCount) (hi : i < 8 * v.blockBytes) :
    (v.inodeTaken n mode).bitmapBit g i = v.bitmapBit g i := by
  have hplaces : SamePlaces v (v.inodeTaken n mode) := h.inodeTaken_same hpos hn
  have hvalid : (Area.blockBitmap g).Valid v := hg
  have hcovered := bitmap_covered (v := v) g hi
  unfold Volume.bitmapBit
  rw [hplaces.blockBitmap hg, hplaces.blockBytes, h.inodeTaken_area hvalid nofun hcovered,
    h.inodeCounted_area hpos hn hvalid nofun hcovered,
    h.inodeMarked_area hpos hn hvalid nofun hcovered, h.inodeCleared_area hpos hn hvalid nofun hcovered]

theorem Layout.inodeTaken_block (hk : v.Data k) (hx : x < v.blockBytes) :
    (v.inodeTaken n mode).block k x = v.block k x := by
  have hplaces : SamePlaces v (v.inodeTaken n mode) := h.inodeTaken_same hpos hn
  have hgroup := h.inodeGroup_lt hpos hn
  have hsuper := h.superblock_covered.mono (Nat.le_refl _)
    (by decide : 1024 + Superblock.bytes ≤ 1024 + 1024)
  have hcount := (h.descriptor_covered hgroup).mono (Nat.le_add_right _ 14)
    (by unfold bytes; omega : _ + 14 + 2 ≤ _ + bytes)
  have hbitmap : (Area.inodeBitmap (v.inodeGroup n)).Valid v := hgroup
  have htable : (Area.inodeTable (v.inodeGroup n)).Valid v := hgroup
  unfold Volume.block
  rw [hplaces.blockBytes]
  refine (h.data_kept (a := .superblock) trivial hsuper (copyFrom_within _ _ _ _ _) hk hx).trans ?_
  refine (h.data_kept (a := .descriptors) trivial hcount (put16_within _ _ _) hk hx).trans ?_
  refine (h.data_kept hbitmap (inodeBitmap_covered _ (h.inodeIndex_lt n)) (put8_within _ _ _) hk
    hx).trans ?_
  exact h.data_kept htable (h.inode_covered hpos hn) (copyFrom_within _ _ _ _ _) hk hx

end

theorem Layout.tookInode (h : Layout v) (hn : v.Usable n) (hfree : v.inodeUsed n = false) :
    TookInode n v (v.inodeTaken n mode) where
  places := h.inodeTaken_same hn.positive hn.high
  usable := hn
  fresh := hfree
  superblock := rfl
  descriptors _ hg _ hx := h.inodeTaken_descriptor hn.positive hn.high hg hx
  inodeBits _ hg _ hi := h.inodeTaken_bit hn.positive hn.high hg hi
  bits _ hg _ hi := h.inodeTaken_blockBit hn.positive hn.high hg hi
  blocks _ hk _ hx := h.inodeTaken_block hn.positive hn.high hk hx

/-! ## The steps of the allocator -/

/-- Zeros with the mode in them are the record of a new inode. -/
theorem fill_put16 {m : Mem} {offset size : Nat} (hsize : 2 ≤ size) :
    put16 (fill m offset size 0) offset mode = copyFrom m offset (newInode mode) 0 size := by
  funext x
  unfold put16 copyFrom newInode fill put16
  by_cases h0 : x = offset
  · rw [if_pos h0, if_pos (by omega), if_pos (by omega)]
  · by_cases h1 : x = offset + 1
    · rw [if_neg h0, if_pos h1, if_pos (by omega), if_neg (by omega), if_pos (by omega)]
    · rw [if_neg h0, if_neg h1]
      by_cases hin : offset ≤ x ∧ x < offset + size
      · rw [if_pos hin, if_pos hin, if_neg (by omega), if_neg (by omega)]
      · rw [if_neg hin, if_neg hin]

theorem Layout.initializeNewInode (h : Layout v) (hpos : 0 < n) (hn : n ≤ v.superblock.inodeCount)
    (mode : Nat) : Ext2.initializeNewInode n mode v =
      .done () { v with image := v.inodeCleared n mode } := by
  obtain ⟨d, block, offset, hread, hplace, hblock, hroom, haddress⟩ := h.inodeSteps hpos hn
  obtain ⟨hmin, hmax⟩ := h.sized.le
  have hsize := h.inodeSize.1
  have htwo : 2 ≤ v.superblock.inodeSize := Nat.le_trans (by decide) hsize
  unfold Ext2.initializeNewInode
  rw [get_bind, require_bind ⟨Nat.ne_of_gt hpos, hn⟩, bind_done (h.blockSize v),
    require_bind ⟨by omega, hmax⟩, require_bind ⟨hsize, by omega⟩,
    bind_done (divide_done h.accepted.inodes), bind_done (modulo_done h.accepted.inodes),
    bind_done hread, bind_done hplace]
  dsimp only
  rw [require_bind hroom, bind_done (h.readArray hblock),
    bind_done (fill_done (Nat.le_trans hroom hmax)),
    bind_done (put16_done (by show offset + 2 ≤ 4096; omega)), fill_put16 htwo,
    writeBlock_done h.sized (h.hasBlock hblock) (by rw [Nat.zero_add]; exact hmax),
    copyFrom_back hroom, ← haddress]
  rfl

/-- The first bit that is clear and not that of a reserved inode. -/
theorem findFreeInode_done (b : Buffer) (first : Nat) {bit left : Nat} (h : bit + left ≤ 8 * b.size)
    (hfit : first + bit + left < 2 ^ 32) :
    ∃ r, findFreeInode v.superblock b first left bit w = .done r w ∧
      (∀ i, r = some i → i < bit + left ∧ firstUsableInode v.superblock ≤ first + i + 1 ∧
        b.bit i = false) ∧
      (r = none → ∀ i, bit ≤ i → i < bit + left →
        firstUsableInode v.superblock ≤ first + i + 1 → b.bit i = true) := by
  induction left generalizing bit with
  | zero => exact ⟨none, rfl, nofun, fun _ i _ _ => by omega⟩
  | succ left ih =>
    obtain ⟨r, hdone, hfree, hall⟩ := ih (by omega : bit + 1 + left ≤ 8 * b.size) (by omega)
    have hbehind : ∀ i, r = some i → i < bit + (left + 1) ∧
        firstUsableInode v.superblock ≤ first + i + 1 ∧ b.bit i = false := by
      intro i hi
      obtain ⟨hlt, hrest⟩ := hfree i hi
      exact ⟨by omega, hrest⟩
    unfold findFreeInode
    rw [u32_of_lt (by omega)]
    by_cases hreserved : first + bit + 1 < firstUsableInode v.superblock
    · rw [if_pos hreserved]
      refine ⟨r, hdone, hbehind, fun hnone i hlow hhigh hfirst => ?_⟩
      exact hall hnone i (by omega) (by omega) hfirst
    · rw [if_neg hreserved, bind_done (testBit_done (by omega))]
      split
      next hset =>
        refine ⟨r, hdone, hbehind, fun hnone i hlow hhigh hfirst => ?_⟩
        by_cases heq : i = bit
        · exact heq ▸ hset
        · exact hall hnone i (by omega) (by omega) hfirst
      next hclear =>
        refine ⟨some bit, rfl, fun i hi => ?_, nofun⟩
        cases hi
        exact ⟨by omega, by omega, Bool.eq_false_iff.mpr hclear⟩

/-! ## The loop over the groups -/

/-- The number of groups with inodes. -/
def Volume.inodeGroups (v : Volume) : Nat :=
  (v.superblock.inodeCount + v.superblock.inodesPerGroup - 1) / v.superblock.inodesPerGroup

/-- What is done with the bit that was found. -/
theorem Layout.takeInode (h : Layout v) (hpos : 0 < n) (hn : n ≤ v.superblock.inodeCount) (mode : Nat)
    {d : GroupDescriptor} (hd : ∀ x < bytes, d x = v.descriptor (v.inodeGroup n) x) :
    (do
      Ext2.initializeNewInode n mode
      let bitmap ← setBit ⟨4096, copyFrom v.stale 0 v.image
        ((v.descriptor (v.inodeGroup n)).inodeBitmap * v.blockBytes) v.blockBytes⟩ (v.inodeIndex n)
      Ext2.writeBlock v.blockBytes d.inodeBitmap bitmap 0
      Ext2.writeGroupDescriptor (v.inodeGroup n) (d.setFreeInodesCount (d.freeInodesCount - 1))
      modify fun v =>
        { v with superblock := v.superblock.setFreeInodeCount (v.superblock.freeInodeCount - 1) }
      Ext2.writeSuperblock
      return n : Effect Volume Nat) v = .done n (v.inodeTaken n mode) := by
  obtain ⟨hmin, hmax⟩ := h.sized.le
  have hindex := h.inodeIndex_lt n
  have hgroup := h.inodeGroup_lt hpos hn
  have hvalid : (Area.inodeBitmap (v.inodeGroup n)).Valid v := hgroup
  have hcleared : Layout { v with image := v.inodeCleared n mode } :=
    (h.inodeCleared_same hpos hn).layout h
  have hmarked : Layout { v with image := v.inodeMarked n mode } :=
    (h.inodeMarked_same hpos hn).layout h
  have hcounted : Layout { v with image := v.inodeCounted n mode } :=
    (h.inodeCounted_same hpos hn).layout h
  have hbitmap : d.inodeBitmap = (v.descriptor (v.inodeGroup n)).inodeBitmap :=
    get32_congr fun k hk => hd _ (by unfold bytes; omega)
  have hfree : d.freeInodesCount = (v.descriptor (v.inodeGroup n)).freeInodesCount :=
    get16_congr fun k hk => hd _ (by unfold bytes; omega)
  have hblock := (h.within _ hvalid).2
  change (v.descriptor (v.inodeGroup n)).inodeBitmap + 1 ≤ _ at hblock
  -- the bitmap was read before the record was written
  have hread : copyFrom v.stale 0 v.image
      ((v.descriptor (v.inodeGroup n)).inodeBitmap * v.blockBytes) v.blockBytes =
        copyFrom v.stale 0 (v.inodeCleared n mode)
          ((v.descriptor (v.inodeGroup n)).inodeBitmap * v.blockBytes) v.blockBytes := by
    funext x
    unfold copyFrom
    split
    next hx =>
      have hcovered := (inodeBitmap_block (v := v) (v.inodeGroup n)).mono
        (Nat.le_add_right _ (x - 0)) (by omega : _ + (x - 0) + 1 ≤ _)
      exact (h.inodeCleared_area hpos hn hvalid nofun hcovered).symm
    next => rfl
  rw [bind_done (h.initializeNewInode hpos hn mode), bind_done (setBit_done (by show _ < 4096; omega)),
    hbitmap]
  dsimp only
  rw [copyFrom_low (by omega), hread, put8_eq_copyFrom,
    bind_done (writeBlock_done h.sized (hcleared.hasBlock hblock) (by rw [Nat.zero_add]; exact hmax)),
    copyFrom_back (by omega), ← put8_eq_copyFrom]
  have hgroup' : v.inodeGroup n < Volume.groupCount { v with image := v.inodeMarked n mode } := hgroup
  have hcount : copyFrom (v.inodeMarked n mode) (v.descriptorAddress (v.inodeGroup n))
      (d.setFreeInodesCount (d.freeInodesCount - 1)) 0 bytes =
        v.inodeCounted n mode := by
    rw [hfree]
    refine copyFrom_put16 (by decide) fun x hx => ?_
    exact (hd x hx).trans (h.inodeMarked_descriptor hpos hn hgroup hx).symm
  have hwrite : Ext2.writeGroupDescriptor (v.inodeGroup n)
      (d.setFreeInodesCount (d.freeInodesCount - 1)) { v with image := v.inodeMarked n mode } =
        .done () { v with image := v.inodeCounted n mode } :=
    (hmarked.writeGroupDescriptor hgroup' _).trans
      (congrArg (fun image => Ending.done () { v with image := image }) hcount)
  refine (bind_done hwrite).trans ?_
  rw [modify_bind]
  have hlast : SamePlaces v { v with
      image := v.inodeCounted n mode
      superblock := v.superblock.setFreeInodeCount (v.superblock.freeInodeCount - 1) } :=
    ⟨(put32_within _ _ _).mono (by decide) (by decide), rfl,
      (h.inodeCounted_same hpos hn).descriptors⟩
  exact bind_done (hlast.layout h).writeSuperblock

theorem formatted_groupCount (v : Volume) : v.formatted.groupCount = v.groupCount :=
  resized_groupCount _ _

section
variable (h : Layout v.formatted)
include h

theorem Layout.inodeGroups_le : v.inodeGroups ≤ v.groupCount := by
  have hinodes := h.inodes
  have hper := Nat.pos_of_ne_zero h.formatted_inodes
  have hcount : v.formatted.superblock.inodeCount = v.superblock.inodeCount :=
    resized_inodeCount _ _
  have hsame : v.formatted.superblock.inodesPerGroup = v.superblock.inodesPerGroup :=
    resized_inodesPerGroup _ _
  rw [hcount, hsame, (formatted_groupCount v)] at hinodes
  unfold Volume.inodeGroups
  refine Nat.le_of_lt_succ ((Nat.div_lt_iff_lt_mul hper).mpr ?_)
  rw [Nat.succ_mul]
  omega

/-- The first inode of a group, and how many are looked at. -/
theorem Layout.inodes_first (hfit : v.superblock.inodeCount + v.superblock.inodesPerGroup ≤ 2 ^ 32)
    (hg : g < v.inodeGroups) :
    u32 (g * v.superblock.inodesPerGroup) = g * v.superblock.inodesPerGroup ∧
    g * v.superblock.inodesPerGroup < v.superblock.inodeCount ∧
    inodesInGroup v.superblock g ≤ v.superblock.inodesPerGroup ∧
    g * v.superblock.inodesPerGroup + inodesInGroup v.superblock g ≤ v.superblock.inodeCount ∧
    (g * v.superblock.inodesPerGroup + inodesInGroup v.superblock g = v.superblock.inodeCount ∨
      inodesInGroup v.superblock g = v.superblock.inodesPerGroup) := by
  have hper := Nat.pos_of_ne_zero h.formatted_inodes
  have hroom : (g + 1) * v.superblock.inodesPerGroup ≤
      v.superblock.inodeCount + v.superblock.inodesPerGroup - 1 :=
    (Nat.le_div_iff_mul_le hper).mp hg
  rw [Nat.succ_mul] at hroom
  have hfirst : u32 (g * v.superblock.inodesPerGroup) = g * v.superblock.inodesPerGroup :=
    u32_of_lt (by omega)
  unfold inodesInGroup
  rw [hfirst]
  dsimp only
  generalize g * v.superblock.inodesPerGroup = first at *
  rw [u32_of_lt (by omega)]
  split
  next hpast =>
    have hsub : u32sub v.superblock.inodeCount first = v.superblock.inodeCount - first := by
      unfold u32sub
      rw [Nat.sub_add_comm (by omega), Nat.add_mod_right]
      exact Nat.mod_eq_of_lt (by omega)
    rw [hsub]
    omega
  next hwhole => omega

/-- The inode of a bit. -/
theorem Layout.inode_place (hi : i < v.superblock.inodesPerGroup) :
    v.inodeGroup (g * v.superblock.inodesPerGroup + i + 1) = g ∧
      v.inodeIndex (g * v.superblock.inodesPerGroup + i + 1) = i := by
  have hper := Nat.pos_of_ne_zero h.formatted_inodes
  have hsub : g * v.superblock.inodesPerGroup + i + 1 - 1 = i + v.superblock.inodesPerGroup * g := by
    rw [Nat.mul_comm g]
    omega
  unfold Volume.inodeGroup Volume.inodeIndex
  rw [hsub, Nat.add_mul_div_left _ _ hper, Nat.add_mul_mod_self_left, Nat.div_eq_of_lt hi,
    Nat.mod_eq_of_lt hi, Nat.zero_add]
  exact ⟨rfl, rfl⟩

/-- The bitmap of a group, read into an array. -/
theorem Layout.readInodeBitmap (hg : g < v.groupCount) :
    readBlock v.blockBytes (v.descriptor g).inodeBitmap v.array v =
        .done ⟨4096, copyFrom v.stale 0 v.image ((v.descriptor g).inodeBitmap * v.blockBytes)
          v.blockBytes⟩ v ∧
      ∀ i < 8 * v.blockBytes, Buffer.bit ⟨4096, copyFrom v.stale 0 v.image
        ((v.descriptor g).inodeBitmap * v.blockBytes) v.blockBytes⟩ i = v.inodeBit g i := by
  have hvalid : (Area.inodeBitmap g).Valid v.formatted := by
    show g < v.formatted.groupCount
    rw [formatted_groupCount]
    exact hg
  have hbitmap : (v.formatted.descriptor g).inodeBitmap = (v.descriptor g).inodeBitmap :=
    congrArg GroupDescriptor.inodeBitmap (resized_descriptor _ v g)
  obtain ⟨-, hend⟩ := h.within _ hvalid
  change (v.formatted.descriptor g).inodeBitmap + 1 ≤ _ at hend
  have hdevice := h.hasBlock hend
  rw [h.formatted_blockBytes, hbitmap] at hdevice
  refine ⟨readBlock_done h.formatted_sized hdevice h.formatted_sized.le.2, fun i hi => ?_⟩
  unfold Buffer.bit Volume.inodeBit
  dsimp only
  rw [copyFrom_low (by omega)]

/-- The loop over the groups. -/
theorem Layout.allocateInodeFrom {left : Nat}
    (hfit : v.superblock.inodeCount + v.superblock.inodesPerGroup ≤ 2 ^ 32)
    (hsize : v.formatted = v ∨ ∀ n, v.Usable n → v.inodeUsed n = true) (hg : g + left ≤ v.inodeGroups) :
    (Ext2.allocateInodeFrom v.blockBytes mode left g v).Meets
      (fun n w => w = v.inodeTaken n mode ∧ v.Usable n ∧ v.inodeUsed n = false)
      fun w => w = v ∧ ∀ k, g ≤ k → k < g + left → v.InodesFull k := by
  induction left generalizing g with
  | zero => exact ⟨rfl, fun k _ _ => by omega⟩
  | succ left ih =>
    have hgroups := h.inodeGroups_le
    have hgroup : g < v.groupCount := by omega
    obtain ⟨d, hread, hd⟩ := h.formatted_descriptor ((formatted_groupCount v).symm ▸ hgroup)
    obtain ⟨hfirst, hlt, hcount, hlast, hwhole⟩ := h.inodes_first hfit (by omega : g < _)
    have hbitmap : d.inodeBitmap = (v.descriptor g).inodeBitmap :=
      get32_congr fun k hk => hd _ (by unfold bytes; omega)
    have hfree : d.freeInodesCount = (v.descriptor g).freeInodesCount :=
      get16_congr fun k hk => hd _ (by unfold bytes; omega)
    have hper : v.superblock.inodesPerGroup ≤ 8 * v.blockBytes := by
      have hsame : v.formatted.superblock.inodesPerGroup = v.superblock.inodesPerGroup :=
        resized_inodesPerGroup _ _
      rw [← hsame, ← h.formatted_blockBytes]
      exact h.inodesPerGroup
    have hmax := h.formatted_sized.le.2
    -- the groups behind this one
    have hnext : v.InodesFull g → (Ext2.allocateInodeFrom v.blockBytes mode left (g + 1) v).Meets
        (fun n w => w = v.inodeTaken n mode ∧ v.Usable n ∧ v.inodeUsed n = false)
        fun w => w = v ∧ ∀ k, g ≤ k → k < g + (left + 1) → v.InodesFull k := by
      intro hfull
      refine meets_mono (ih (by omega)) (fun _ _ hdone => hdone) ?_
      intro w ⟨hw, hall⟩
      refine ⟨hw, fun k hlow hhigh => ?_⟩
      by_cases heq : k = g
      · exact heq ▸ hfull
      · exact hall k (by omega) (by omega)
    unfold Ext2.allocateInodeFrom
    rw [get_bind, bind_done hread]
    by_cases hnone : d.freeInodesCount = 0
    · rw [if_pos hnone]
      exact hnext (.inl (hfree ▸ hnone))
    · obtain ⟨hblock, hbits⟩ := h.readInodeBitmap hgroup
      obtain ⟨r, hfind, hfound, hall⟩ := findFreeInode_done (v := v) (w := v)
        ⟨4096, copyFrom v.stale 0 v.image ((v.descriptor g).inodeBitmap * v.blockBytes) v.blockBytes⟩
        (g * v.superblock.inodesPerGroup)
        (by show 0 + _ ≤ 8 * 4096; omega : 0 + inodesInGroup v.superblock g ≤ _)
        (by have hlt := get32_lt v.superblock 0; unfold Superblock.inodeCount at hlast; omega)
      rw [if_neg hnone, hbitmap, bind_done hblock, hfirst, bind_done hfind]
      cases r with
      | none =>
        refine hnext (.inr fun n hn heq => ?_)
        have hhigh := hn.high
        have hindex := Nat.div_add_mod (n - 1) v.superblock.inodesPerGroup
        have hless : v.inodeIndex n < v.superblock.inodesPerGroup :=
          Nat.mod_lt _ (Nat.pos_of_ne_zero h.formatted_inodes)
        change v.superblock.inodesPerGroup * v.inodeGroup n + v.inodeIndex n = n - 1 at hindex
        rw [heq, Nat.mul_comm] at hindex
        have hpos := hn.positive
        have hnumber : g * v.superblock.inodesPerGroup + v.inodeIndex n + 1 = n := by omega
        unfold Volume.inodeUsed
        rw [heq, ← hbits _ (by omega)]
        exact hall rfl _ (Nat.zero_le _) (by omega) (hnumber.symm ▸ hn.first)
      | some i =>
        obtain ⟨hi, husable, hclear⟩ := hfound i rfl
        rw [Nat.zero_add] at hi
        obtain ⟨hplace, hindex⟩ := h.inode_place (g := g) (by omega : i < v.superblock.inodesPerGroup)
        have hcandidate : u32 (g * v.superblock.inodesPerGroup + i + 1) =
            g * v.superblock.inodesPerGroup + i + 1 :=
          u32_of_lt (by have hlt := get32_lt v.superblock 0; unfold Superblock.inodeCount at hlast; omega)
        have husable' : v.Usable (g * v.superblock.inodesPerGroup + i + 1) :=
          ⟨Nat.succ_pos _, by omega, husable⟩
        have hunused : v.inodeUsed (g * v.superblock.inodesPerGroup + i + 1) = false := by
          unfold Volume.inodeUsed
          rw [hplace, hindex, ← hbits i (by omega)]
          exact hclear
        -- the volume is one where the functions look at the right place
        have hlayout : Layout v := by
          rcases hsize with hsame | hnone
          · exact hsame ▸ h
          · rw [hnone _ husable'] at hunused
            cases hunused
        have htake := hlayout.takeInode (n := g * v.superblock.inodesPerGroup + i + 1) (Nat.succ_pos _)
          (by omega) mode (d := d) (by rw [hplace]; exact hd)
        rw [hplace, hindex, hbitmap] at htake
        dsimp only
        rw [hcandidate, htake]
        exact ⟨rfl, husable', hunused⟩

end

/-- `ext2_allocate_inode_with_mode`. -/
theorem Layout.allocateInode (h : Layout v.formatted)
    (hsize : v.formatted = v ∨ ∀ n, v.Usable n → v.inodeUsed n = true) :
    (allocateInodeWithMode mode v).Meets (fun n w => w = v.inodeTaken n mode ∧ v.Usable n ∧
        v.inodeUsed n = false ∧ Layout v)
      fun w => w = v ∧ (v.superblock.freeInodeCount = 0 ∨
        (v.superblock.inodeCount + v.superblock.inodesPerGroup ≤ 2 ^ 32 →
          ∀ g < v.inodeGroups, v.InodesFull g)) := by
  obtain ⟨hmin, hmax⟩ := h.formatted_sized.le
  have hper := Nat.pos_of_ne_zero h.formatted_inodes
  have hcount : v.superblock.inodeCount < 2 ^ 32 := get32_lt _ _
  have hper' : v.superblock.inodesPerGroup < 2 ^ 32 := get32_lt _ _
  unfold allocateInodeWithMode
  rw [get_bind]
  by_cases hnone : v.superblock.inodeCount = 0
  · rw [require_failed fun hall => hall.1 hnone]
    refine ⟨rfl, .inr fun _ g hg => ?_⟩
    unfold Volume.inodeGroups at hg
    rw [hnone, Nat.div_eq_of_lt (by omega)] at hg
    exact absurd hg (Nat.not_lt_zero g)
  by_cases hfree : v.superblock.freeInodeCount = 0
  · rw [require_failed fun hall => hall.2.2 hfree]
    exact ⟨rfl, .inl hfree⟩
  rw [require_bind ⟨hnone, h.formatted_inodes, hfree⟩, bind_done (h.formatted_blockSize v),
    require_bind ⟨by omega, hmax⟩, bind_done (divide_done h.formatted_inodes)]
  by_cases hfit : v.superblock.inodeCount + v.superblock.inodesPerGroup ≤ 2 ^ 32
  · have hgroups : u32 (v.superblock.inodeCount + v.superblock.inodesPerGroup + 2 ^ 32 - 1) /
        v.superblock.inodesPerGroup = v.inodeGroups := by
      unfold u32 Volume.inodeGroups
      rw [Nat.sub_add_comm (by omega), Nat.add_mod_right, Nat.mod_eq_of_lt (by omega)]
    rw [hgroups]
    refine meets_mono (h.allocateInodeFrom hfit hsize (by omega)) ?_ ?_
    · intro n w ⟨hw, husable, hclear⟩
      refine ⟨hw, husable, hclear, ?_⟩
      rcases hsize with hsame | hnone
      · exact hsame ▸ h
      · rw [hnone n husable] at hclear
        cases hclear
    · intro w ⟨hw, hfull⟩
      exact ⟨hw, .inr fun _ g hg => hfull g (Nat.zero_le g) (by omega)⟩
  · -- the sum wraps, and no group is left
    have hgroups : u32 (v.superblock.inodeCount + v.superblock.inodesPerGroup + 2 ^ 32 - 1) /
        v.superblock.inodesPerGroup = 0 := by
      refine Nat.div_eq_of_lt ?_
      unfold u32
      omega
    rw [hgroups]
    exact ⟨rfl, .inr fun hfit' => absurd hfit' hfit⟩

end MeatySkeleton.Ext2
