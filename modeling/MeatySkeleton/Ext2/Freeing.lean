import Mathlib.Data.Finset.Card
import MeatySkeleton.Ext2.Layout

/-!
# Freeing blocks

`ext2_free_block` clears a bit, raises the count of its group and the one of the superblock
(`Volume.freed`), or fails and changes nothing. Freeing a list of blocks goes on up to the
first that is not in use (`Volume.freeing`).
-/

namespace MeatySkeleton.Ext2

open List Lib Lib.Effect
open Superblock (bytes)

/-! ## Bits -/

section
variable {b : Buffer} {i bit : Nat} {v : Volume}

theorem get8_done {σ : Type} {x : σ} (h : i < b.size) : b.get8 i x = .done (b.bytes i).toNat x := by
  unfold Buffer.get8
  rw [demand_bind h]
  rfl

theorem put8_done {σ : Type} {x : σ} {k : Nat} (h : i < b.size) :
    b.put8 i k x = .done { b with bytes := put8 b.bytes i (UInt8.ofNat k) } x := by
  unfold Buffer.put8
  rw [demand_bind h]
  rfl

theorem put16_done {σ : Type} {x : σ} {k : Nat} (h : i + 2 ≤ b.size) :
    b.put16 i k x = .done { b with bytes := put16 b.bytes i k } x := by
  unfold Buffer.put16
  rw [demand_bind h]
  rfl

theorem get16_done {σ : Type} {x : σ} (h : i + 2 ≤ b.size) :
    b.get16 i x = .done (get16 b.bytes i) x := by
  unfold Buffer.get16
  rw [demand_bind h]
  rfl

theorem put32_done {σ : Type} {x : σ} {k : Nat} (h : i + 4 ≤ b.size) :
    b.put32 i k x = .done { b with bytes := put32 b.bytes i k } x := by
  unfold Buffer.put32
  rw [demand_bind h]
  rfl

theorem fill_done {σ : Type} {x : σ} {k : Nat} {byte : UInt8} (h : i + k ≤ b.size) :
    b.fill i k byte x = .done { b with bytes := fill b.bytes i k byte } x := by
  unfold Buffer.fill
  rw [demand_bind h]
  rfl

theorem testBit_done (h : bit / 8 < b.size) :
    testBit b bit v = .done ((b.bytes (bit / 8)).toNat.testBit (bit % 8)) v := by
  unfold testBit
  rw [bind_done (get8_done h)]
  rfl

theorem clearBit_done (h : bit / 8 < b.size)
    (hset : (b.bytes (bit / 8)).toNat.testBit (bit % 8) = true) :
    clearBit b bit v = .done ⟨b.size, put8 b.bytes (bit / 8)
      (UInt8.ofNat ((b.bytes (bit / 8)).toNat - 2 ^ (bit % 8)))⟩ v := by
  unfold clearBit
  rw [bind_done (get8_done h), if_pos hset, put8_done h]

/-- A bit that is set is subtracted. -/
theorem sub_eq_xor : ∀ (k : Fin 8) (byte : Fin 256), byte.val.testBit k = true →
    byte.val - 2 ^ k.val = byte.val ^^^ 2 ^ k.val := by decide +kernel

theorem testBit_clear {byte k j : Nat} (hbyte : byte < 256) (hk : k < 8)
    (h : byte.testBit k = true) :
    (byte - 2 ^ k).testBit j = (byte.testBit j && !decide (j = k)) := by
  rw [sub_eq_xor ⟨k, hk⟩ ⟨byte, hbyte⟩ h]
  show (byte ^^^ 2 ^ k).testBit j = _
  rw [Nat.testBit_xor, Nat.testBit_two_pow]
  by_cases hj : j = k
  · rw [hj, h, decide_eq_true rfl]
    rfl
  · rw [decide_eq_false hj, decide_eq_false (Ne.symm hj), Bool.xor_false, Bool.not_false,
      Bool.and_true]

end

/-! ## One block -/

variable {v w : Volume} {n g : Nat}

/-- What `ext2_free_block` asks for. -/
structure Volume.CanFree (v : Volume) (n : Nat) : Prop where
  nonzero : n ≠ 0
  low : v.superblock.firstDataBlock ≤ n
  high : n < v.superblock.blockCount
  used : v.usedBit n = true

instance (v : Volume) (n : Nat) : Decidable (v.CanFree n) :=
  decidable_of_iff (n ≠ 0 ∧ v.superblock.firstDataBlock ≤ n ∧ n < v.superblock.blockCount ∧
      v.usedBit n = true)
    ⟨fun ⟨h1, h2, h3, h4⟩ => ⟨h1, h2, h3, h4⟩, fun ⟨h1, h2, h3, h4⟩ => ⟨h1, h2, h3, h4⟩⟩

/-- The image with the bit of block `n` cleared. -/
def Volume.bitCleared (v : Volume) (n : Nat) : Mem :=
  put8 v.image (v.bitAddress n)
    (UInt8.ofNat ((v.image (v.bitAddress n)).toNat - 2 ^ (v.bitOf n % 8)))

/-- The image with that block counted in its group. -/
def Volume.groupRaised (v : Volume) (n : Nat) : Mem :=
  put16 (v.bitCleared n) (v.descriptorAddress (v.groupOf n) + 12)
    ((v.descriptor (v.groupOf n)).freeBlocksCount + 1)

/-- The volume after block `n` is freed. -/
def Volume.freed (v : Volume) (n : Nat) : Volume :=
  let superblock := v.superblock.setFreeBlockCount (v.superblock.freeBlockCount + 1)
  { v with superblock, image := copyFrom (v.groupRaised n) 1024 superblock 0 bytes }

section
variable (h : Layout v) (hlow : v.superblock.firstDataBlock ≤ n)
  (hhigh : n < v.superblock.blockCount)
include h hlow hhigh

theorem Layout.bitCleared_same : SamePlaces v { v with image := v.bitCleared n } := by
  have hvalid : (Area.blockBitmap (v.groupOf n)).Valid v := h.groupOf_lt hlow hhigh
  refine h.same_area hvalid nofun (bitmap_covered _ (h.bitOf_lt n)) ?_
  exact put8_within _ _ _

theorem Layout.groupRaised_same : SamePlaces v { v with image := v.groupRaised n } := by
  refine (h.bitCleared_same hlow hhigh).trans ?_
  refine SamePlaces.of_image (put16_within _ _ _) fun g' _ => ?_
  show v.descriptorAddress g' + 12 ≤ _ ∨ _ ≤ v.descriptorAddress g'
  unfold Volume.descriptorAddress GroupDescriptor.bytes
  omega

theorem Layout.freed_same : SamePlaces v (v.freed n) := by
  have hraised := h.groupRaised_same hlow hhigh
  have hcovered := ((hraised.layout h).superblock_covered).mono (Nat.le_refl _)
    (by decide : 1024 + bytes ≤ 1024 + 1024)
  have hwritten := (hraised.layout h).same_area (a := .superblock) trivial nofun hcovered
    (copyFrom_within (v.groupRaised n) 1024
      (v.superblock.setFreeBlockCount (v.superblock.freeBlockCount + 1)) 0 bytes)
  have hplaces := hraised.trans hwritten
  exact ⟨(put32_within _ _ _).mono (by decide) (by decide), rfl, hplaces.descriptors⟩

end

/-- The part of `ext2_free_block` behind its last check. -/
def clearBlock (blockSize n : Nat) (d : GroupDescriptor) (bitmap : Buffer) (v : Volume) :
    Effect Volume Unit := do
  let bitmap ← clearBit bitmap (v.bitOf n)
  writeBlock blockSize d.blockBitmap bitmap 0
  writeGroupDescriptor (v.groupOf n) (d.setFreeBlocksCount (d.freeBlocksCount + 1))
  modify fun v =>
    { v with superblock := v.superblock.setFreeBlockCount (v.superblock.freeBlockCount + 1) }
  writeSuperblock

/-- What `ext2_free_block` has read by its last check. -/
theorem freeBlock_checked (h : Layout v) (hne : n ≠ 0) (hlow : v.superblock.firstDataBlock ≤ n)
    (hhigh : n < v.superblock.blockCount) :
    ∃ d b, (∀ x < GroupDescriptor.bytes, d x = v.descriptor (v.groupOf n) x) ∧ b.size = 4096 ∧
      b.bytes = copyFrom v.stale 0 v.image
        ((v.descriptor (v.groupOf n)).blockBitmap * v.blockBytes) v.blockBytes ∧
      freeBlock n v = (require (v.usedBit n = true) >>= fun _ =>
        clearBlock v.blockBytes n d b v) v := by
  obtain ⟨hmin, hmax⟩ := h.sized.le
  have hg := h.groupOf_lt hlow hhigh
  obtain ⟨d, hread, hd⟩ := h.readGroupDescriptor hg
  have hbitmap : d.blockBitmap = (v.descriptor (v.groupOf n)).blockBitmap :=
    get32_congr fun k hk => hd _ (by unfold GroupDescriptor.bytes; omega)
  obtain ⟨-, hend⟩ := h.within (.blockBitmap (v.groupOf n)) hg
  change (v.descriptor (v.groupOf n)).blockBitmap + 1 ≤ _ at hend
  have hbit := h.bitOf_lt n
  have hread' := h.readArray hend
  rw [← hbitmap] at hread'
  refine ⟨d, ⟨4096, copyFrom v.stale 0 v.image (d.blockBitmap * v.blockBytes) v.blockBytes⟩, hd, rfl,
    by rw [hbitmap], ?_⟩
  have hgroup : (n - v.superblock.firstDataBlock) / v.superblock.blocksPerGroup = v.groupOf n := rfl
  have hindex : (n - v.superblock.firstDataBlock) % v.superblock.blocksPerGroup = v.bitOf n := rfl
  have hused : (copyFrom v.stale 0 v.image (d.blockBitmap * v.blockBytes) v.blockBytes
      (v.bitOf n / 8)).toNat.testBit (v.bitOf n % 8) = v.usedBit n := by
    rw [copyFrom_low (by omega), hbitmap]
    rfl
  unfold freeBlock
  rw [get_bind, require_bind hne, bind_done (h.blockSize v),
    require_bind ⟨by omega, hmax, Nat.ne_of_gt h.perGroup.1⟩, require_bind ⟨hlow, hhigh⟩,
    bind_done (divide_done (Nat.ne_of_gt h.perGroup.1)),
    bind_done (modulo_done (Nat.ne_of_gt h.perGroup.1)), hgroup, hindex, bind_done hread,
    bind_done hread', bind_done (testBit_done (by show v.bitOf n / 8 < 4096; omega)), ← hused]
  rfl

/-- Freeing a block that is in use. -/
theorem freeBlock_done (h : Layout v) (hn : v.CanFree n) :
    freeBlock n v = .done () (v.freed n) := by
  obtain ⟨hne, hlow, hhigh, hused⟩ := hn
  have hg := h.groupOf_lt hlow hhigh
  obtain ⟨d, b, hd, hsize, hbytes, heq⟩ := freeBlock_checked h hne hlow hhigh
  have hbitmap : d.blockBitmap = (v.descriptor (v.groupOf n)).blockBitmap :=
    get32_congr fun k hk => hd _ (by unfold GroupDescriptor.bytes; omega)
  have hcount : d.freeBlocksCount = (v.descriptor (v.groupOf n)).freeBlocksCount := by
    show get16 d 12 = get16 (v.descriptor (v.groupOf n)) 12
    unfold get16
    rw [hd 12 (by decide), hd 13 (by decide)]
  obtain ⟨-, hend⟩ := h.within (.blockBitmap (v.groupOf n)) hg
  change (v.descriptor (v.groupOf n)).blockBitmap + 1 ≤ _ at hend
  have hmax := h.sized.le.2
  have hbit := h.bitOf_lt n
  have hplace : v.bitOf n / 8 + 1 ≤ v.blockBytes := by omega
  have hroom : v.bitOf n / 8 < b.size := by omega
  have hbyte : b.bytes (v.bitOf n / 8) = v.image (v.bitAddress n) := by
    rw [hbytes]
    exact copyFrom_low hplace
  have hcleared := h.bitCleared_same hlow hhigh
  have hraised := h.groupRaised_same hlow hhigh
  have hwritten : copyFrom v.image ((v.descriptor (v.groupOf n)).blockBitmap * v.blockBytes)
      (put8 b.bytes (v.bitOf n / 8) (UInt8.ofNat ((v.image (v.bitAddress n)).toNat -
        2 ^ (v.bitOf n % 8)))) 0 v.blockBytes = v.bitCleared n := by
    rw [hbytes, put8_eq_copyFrom, copyFrom_back hplace]
    unfold Volume.bitCleared
    rw [put8_eq_copyFrom]
    rfl
  have hset : copyFrom (v.bitCleared n) (v.descriptorAddress (v.groupOf n))
      (d.setFreeBlocksCount ((v.descriptor (v.groupOf n)).freeBlocksCount + 1)) 0
        GroupDescriptor.bytes = v.groupRaised n := by
    refine copyFrom_put16 (by decide) fun x hx => ?_
    rw [hd x hx]
    have hvalid : (Area.blockBitmap (v.groupOf n)).Valid v := hg
    have hvalid' : Area.descriptors.Valid v := trivial
    have happart := h.covers_apart hvalid hvalid' nofun (bitmap_covered _ (h.bitOf_lt n))
      (h.descriptor_covered hg)
    change v.bitAddress n + 1 ≤ _ ∨ _ ≤ v.bitAddress n at happart
    exact (put8_within v.image (v.bitAddress n) _ _ (by omega)).symm
  have haddress := hcleared.descriptorAddress (v.groupOf n)
  have hlayout : Layout { v with image := v.groupRaised n, superblock := (v.freed n).superblock } :=
    SamePlaces.layout ⟨(put32_within _ _ _).mono (by decide) (by decide), rfl, hraised.descriptors⟩ h
  rw [heq, require_bind hused]
  unfold clearBlock
  rw [bind_done (clearBit_done hroom (by rw [hbyte]; exact hused)), hbyte, hbitmap, hcount,
    bind_done (writeBlock_done h.sized (h.hasBlock hend) (by rw [Nat.zero_add]; exact hsize ▸ hmax)),
    hwritten, bind_done ((hcleared.layout h).writeGroupDescriptor (hcleared.groupCount.symm ▸ hg) _),
    haddress]
  dsimp only
  rw [hset, modify_bind]
  exact hlayout.writeSuperblock

/-- Freeing another block changes nothing. -/
theorem freeBlock_failed (h : Layout v) (hn : ¬v.CanFree n) : freeBlock n v = .failed v := by
  by_cases hne : n ≠ 0
  · by_cases hrange : v.superblock.firstDataBlock ≤ n ∧ n < v.superblock.blockCount
    · obtain ⟨d, b, -, -, -, heq⟩ := freeBlock_checked h hne hrange.1 hrange.2
      rw [heq]
      exact require_failed fun hused => hn ⟨hne, hrange.1, hrange.2, hused⟩
    · obtain ⟨hmin, hmax⟩ := h.sized.le
      unfold freeBlock
      rw [get_bind, require_bind hne, bind_done (h.blockSize v),
        require_bind ⟨by omega, hmax, Nat.ne_of_gt h.perGroup.1⟩]
      exact require_failed hrange
  · unfold freeBlock
    rw [get_bind]
    exact require_failed hne

/-! ## What is changed -/

variable {i k x : Nat}

theorem freed_image (hbit : x ≠ v.bitAddress n)
    (hcount : x < v.descriptorAddress (v.groupOf n) + 12 ∨
      v.descriptorAddress (v.groupOf n) + 14 ≤ x)
    (hsuper : x < 1024 ∨ 1024 + bytes ≤ x) : (v.freed n).image x = v.image x := by
  show copyFrom (v.groupRaised n) 1024 _ 0 bytes x = _
  rw [copyFrom_within _ _ _ _ _ x hsuper]
  show put16 (v.bitCleared n) _ _ x = _
  rw [put16_within _ _ _ x hcount]
  exact put8_within _ _ _ x (by omega)

/-- The superblock on the device is the one in memory. -/
def Volume.Synced (v : Volume) : Prop :=
  ∀ x < bytes, v.image (1024 + x) = v.superblock x

theorem freed_synced (v : Volume) (n : Nat) : (v.freed n).Synced := by
  intro x hx
  show copyFrom (v.groupRaised n) 1024 _ 0 bytes (1024 + x) = _
  unfold copyFrom
  rw [if_pos (by omega), Nat.add_sub_cancel_left, Nat.zero_add]
  rfl

/-- Neither in the free count of a group nor in the one of the superblock. -/
def Volume.OutsideCounts (v : Volume) (x : Nat) : Prop :=
  (∀ g < v.groupCount, x < v.descriptorAddress g + 12 ∨ v.descriptorAddress g + 14 ≤ x) ∧
    (x < 1024 + 12 ∨ 1024 + 16 ≤ x)

theorem freed_elsewhere (h : Layout v) (hn : v.CanFree n) (hsynced : v.Synced)
    (hbit : x ≠ v.bitAddress n) (hx : v.OutsideCounts x) : (v.freed n).image x = v.image x := by
  have hcount := hx.1 _ (h.groupOf_lt hn.low hn.high)
  by_cases hsuper : 1024 ≤ x ∧ x < 1024 + bytes
  · obtain ⟨y, rfl⟩ := Nat.exists_eq_add_of_le hsuper.1
    have hy : y < bytes := by omega
    rw [freed_synced v n y hy, hsynced y hy]
    exact put32_within _ _ _ y (by have hout := hx.2; omega)
  · exact freed_image hbit hcount (by omega)

/-- The contents of the blocks for files. -/
theorem freed_data (h : Layout v) (hn : v.CanFree n) (hk : v.Data k) (hx : x < v.blockBytes) :
    (v.freed n).block k x = v.block k x := by
  have hg := h.groupOf_lt hn.low hn.high
  have hvalid : (Area.blockBitmap (v.groupOf n)).Valid v := hg
  have hbit := hk.covers_apart hvalid (bitmap_covered _ (h.bitOf_lt n))
  have hcount := hk.covers_apart (a := .descriptors) trivial (h.descriptor_covered hg)
  have hsuper := hk.covers_apart (a := .superblock) trivial h.superblock_covered
  change v.bitAddress n + 1 ≤ _ ∨ _ ≤ v.bitAddress n at hbit
  rw [Nat.succ_mul] at hbit hcount hsuper
  unfold GroupDescriptor.bytes at hcount
  unfold Volume.block
  rw [(h.freed_same hn.low hn.high).blockBytes]
  refine freed_image ?_ ?_ ?_
  · omega
  · omega
  · unfold bytes
    omega

/-- The bytes of the bitmaps. -/
theorem freed_bitmap (h : Layout v) (hn : v.CanFree n) (hg : g < v.groupCount)
    (hi : i < 8 * v.blockBytes) :
    (v.freed n).image ((v.descriptor g).blockBitmap * v.blockBytes + i / 8) =
      v.bitCleared n ((v.descriptor g).blockBitmap * v.blockBytes + i / 8) := by
  have hvalid : (Area.blockBitmap g).Valid v := hg
  have hsuper := h.covers_apart (b := .superblock) hvalid trivial nofun (bitmap_covered g hi)
    h.superblock_covered
  have hcount := h.covers_apart (b := .descriptors) hvalid trivial nofun (bitmap_covered g hi)
    (h.descriptor_covered (h.groupOf_lt hn.low hn.high))
  unfold GroupDescriptor.bytes at hcount
  show copyFrom (v.groupRaised n) 1024 _ 0 bytes _ = _
  rw [copyFrom_within _ _ _ _ _ _ (by unfold bytes; omega)]
  exact put16_within _ _ _ _ (by omega)

/-- One bit of the bitmaps is cleared. -/
theorem freed_bit (h : Layout v) (hn : v.CanFree n) (hg : g < v.groupCount)
    (hi : i < 8 * v.blockBytes) : (v.freed n).bitmapBit g i =
      (v.bitmapBit g i && !decide (v.groupOf n = g ∧ v.bitOf n = i)) := by
  have hsame := h.freed_same hn.low hn.high
  have hg' := h.groupOf_lt hn.low hn.high
  have hbit := h.bitOf_lt n
  unfold Volume.bitmapBit
  rw [hsame.blockBitmap hg, hsame.blockBytes, freed_bitmap h hn hg hi]
  by_cases hbyte : (v.descriptor g).blockBitmap * v.blockBytes + i / 8 = v.bitAddress n
  · -- the byte with the bit: its group is the one of the block
    have hgroup : v.groupOf n = g := by
      by_contra hne
      have hvalid : (Area.blockBitmap g).Valid v := hg
      have hvalid' : (Area.blockBitmap (v.groupOf n)).Valid v := hg'
      have happart := h.covers_apart hvalid hvalid'
        (fun hsame => hne (Area.blockBitmap.inj hsame).symm) (bitmap_covered g hi)
        (bitmap_covered (v.groupOf n) hbit)
      change _ + 1 ≤ v.bitAddress n ∨ v.bitAddress n + 1 ≤ _ at happart
      omega
    have hsub : (v.image (v.bitAddress n)).toNat - 2 ^ (v.bitOf n % 8) < 2 ^ 8 :=
      Nat.lt_of_le_of_lt (Nat.sub_le _ _) (UInt8.toNat_lt _)
    have hset : (v.image (v.bitAddress n)).toNat.testBit (v.bitOf n % 8) = true := hn.used
    rw [hbyte]
    unfold Volume.bitCleared
    rw [put8_self, UInt8.toNat_ofNat', Nat.mod_eq_of_lt hsub,
      testBit_clear (UInt8.toNat_lt _) (Nat.mod_lt _ (by decide)) hset]
    congr 2
    refine decide_eq_decide.mpr ⟨fun hrest => ⟨hgroup, ?_⟩, fun hsame => by rw [hsame.2]⟩
    have hdiv : i / 8 = v.bitOf n / 8 := by
      unfold Volume.bitAddress at hbyte
      rw [hgroup] at hbyte
      omega
    omega
  · have hother : ¬(v.groupOf n = g ∧ v.bitOf n = i) := by
      rintro ⟨rfl, rfl⟩
      exact hbyte rfl
    rw [decide_eq_false hother, Bool.not_false, Bool.and_true]
    unfold Volume.bitCleared
    rw [put8_within _ _ _ _ (by omega)]

theorem place_inj (hn : v.superblock.firstDataBlock ≤ n) (hk : v.superblock.firstDataBlock ≤ k)
    (hgroup : v.groupOf n = v.groupOf k) (hbit : v.bitOf n = v.bitOf k) : n = k := by
  unfold Volume.groupOf at hgroup
  unfold Volume.bitOf at hbit
  have hdiv := Nat.div_add_mod (n - v.superblock.firstDataBlock) v.superblock.blocksPerGroup
  have hdiv' := Nat.div_add_mod (k - v.superblock.firstDataBlock) v.superblock.blocksPerGroup
  rw [hgroup, hbit, hdiv'] at hdiv
  omega

/-- Whether another block is in use stays as it is. -/
theorem freed_used (h : Layout v) (hn : v.CanFree n) (hk : v.superblock.firstDataBlock ≤ k)
    (hk' : k < v.superblock.blockCount) :
    (v.freed n).usedBit k = (v.usedBit k && !decide (n = k)) := by
  have hsame := h.freed_same hn.low hn.high
  unfold Volume.usedBit
  rw [hsame.groupOf, hsame.bitOf, freed_bit h hn (h.groupOf_lt hk hk') (h.bitOf_lt k)]
  congr 2
  exact decide_eq_decide.mpr ⟨fun heq => place_inj hn.low hk heq.1 heq.2,
    fun heq => heq ▸ ⟨rfl, rfl⟩⟩

/-! ## Counts -/

/-- The blocks that are not in use. -/
def Volume.freeBlocks (v : Volume) : Finset Nat :=
  (Finset.range v.superblock.blockCount).filter fun n =>
    v.superblock.firstDataBlock ≤ n ∧ v.usedBit n = false

def Volume.freeIn (v : Volume) (g : Nat) : Finset Nat :=
  v.freeBlocks.filter fun n => v.groupOf n = g

/-- The counts are those of the bitmaps. -/
structure Counted (v : Volume) : Prop where
  groups : ∀ g < v.groupCount, (v.descriptor g).freeBlocksCount = (v.freeIn g).card
  total : v.superblock.freeBlockCount = v.freeBlocks.card

theorem mem_freeBlocks : k ∈ v.freeBlocks ↔ k < v.superblock.blockCount ∧
    v.superblock.firstDataBlock ≤ k ∧ v.usedBit k = false := by
  unfold Volume.freeBlocks
  rw [Finset.mem_filter, Finset.mem_range]

theorem mem_freeIn : k ∈ v.freeIn g ↔ k ∈ v.freeBlocks ∧ v.groupOf k = g := by
  unfold Volume.freeIn
  rw [Finset.mem_filter]

theorem freed_freeBlocks (h : Layout v) (hn : v.CanFree n) :
    (v.freed n).freeBlocks = insert n v.freeBlocks := by
  have hsame := h.freed_same hn.low hn.high
  ext k
  rw [Finset.mem_insert, mem_freeBlocks, mem_freeBlocks, hsame.blockCount, hsame.firstDataBlock]
  constructor
  · rintro ⟨hhigh, hlow, hused⟩
    rw [freed_used h hn hlow hhigh] at hused
    by_cases hk : k = n
    · exact .inl hk
    · rw [decide_eq_false (Ne.symm hk), Bool.not_false, Bool.and_true] at hused
      exact .inr ⟨hhigh, hlow, hused⟩
  · rintro (rfl | ⟨hhigh, hlow, hused⟩)
    · refine ⟨hn.high, hn.low, ?_⟩
      rw [freed_used h hn hn.low hn.high, decide_eq_true rfl, Bool.not_true, Bool.and_false]
    · refine ⟨hhigh, hlow, ?_⟩
      rw [freed_used h hn hlow hhigh, hused, Bool.false_and]

theorem freed_freeIn (h : Layout v) (hn : v.CanFree n) (g : Nat) : (v.freed n).freeIn g =
    if v.groupOf n = g then insert n (v.freeIn g) else v.freeIn g := by
  have hsame := h.freed_same hn.low hn.high
  unfold Volume.freeIn
  simp only [hsame.groupOf]
  rw [freed_freeBlocks h hn, Finset.filter_insert]

theorem notMem_freeBlocks (hn : v.CanFree n) : n ∉ v.freeBlocks := by
  intro hmem
  have hfree := (mem_freeBlocks.mp hmem).2.2
  rw [hn.used] at hfree
  cases hfree

/-- A group has no more free blocks than blocks. -/
theorem freeIn_card (h : Layout v) (g : Nat) : (v.freeIn g).card ≤ v.superblock.blocksPerGroup := by
  rw [← Finset.card_range v.superblock.blocksPerGroup]
  refine Finset.card_le_card_of_injOn v.bitOf (fun k _ => ?_) fun k hk k' hk' hbit => ?_
  · exact Finset.mem_coe.mpr (Finset.mem_range.mpr (Nat.mod_lt _ h.perGroup.1))
  · have hfree := mem_freeIn.mp hk
    have hfree' := mem_freeIn.mp hk'
    exact place_inj (mem_freeBlocks.mp hfree.1).2.1 (mem_freeBlocks.mp hfree'.1).2.1
      (hfree.2.trans hfree'.2.symm) hbit

theorem freeBlocks_card (v : Volume) : v.freeBlocks.card ≤ v.superblock.blockCount := by
  rw [← Finset.card_range v.superblock.blockCount]
  exact Finset.card_le_card (Finset.filter_subset _ _)

theorem freed_freeIn_card (h : Layout v) (hn : v.CanFree n) (g : Nat) :
    ((v.freed n).freeIn g).card = (v.freeIn g).card + if v.groupOf n = g then 1 else 0 := by
  rw [freed_freeIn h hn]
  split
  next => exact Finset.card_insert_of_notMem fun hmem => notMem_freeBlocks hn (mem_freeIn.mp hmem).1
  next => rfl

/-- A group descriptor is apart from the superblock and from the bit of a block. -/
theorem Volume.CanFree.descriptor_apart (hn : v.CanFree n) (h : Layout v) (hg : g < v.groupCount) :
    (1024 + 1024 ≤ v.descriptorAddress g ∨ v.descriptorAddress g + 32 ≤ 1024) ∧
      (v.bitAddress n + 1 ≤ v.descriptorAddress g ∨
        v.descriptorAddress g + 32 ≤ v.bitAddress n) := by
  have hcovered := h.descriptor_covered hg
  have hvalid : (Area.blockBitmap (v.groupOf n)).Valid v := h.groupOf_lt hn.low hn.high
  exact ⟨h.covers_apart (a := .superblock) (b := .descriptors) trivial trivial nofun
      h.superblock_covered hcovered,
    h.covers_apart (b := .descriptors) hvalid trivial nofun (bitmap_covered _ (h.bitOf_lt n))
      hcovered⟩

/-- The count of a group. -/
theorem freed_count (h : Layout v) (hn : v.CanFree n) (hg : g < v.groupCount) :
    ((v.freed n).descriptor g).freeBlocksCount =
      if v.groupOf n = g then ((v.descriptor g).freeBlocksCount + 1) % 2 ^ 16
      else (v.descriptor g).freeBlocksCount := by
  have hsame := h.freed_same hn.low hn.high
  obtain ⟨hsuper, hbit⟩ := hn.descriptor_apart h hg
  have haddress : ((v.freed n).descriptor g).freeBlocksCount =
      get16 (v.freed n).image (v.descriptorAddress g + 12) := by
    rw [← hsame.descriptorAddress]
    rfl
  have hwritten : get16 (v.freed n).image (v.descriptorAddress g + 12) =
      get16 (v.groupRaised n) (v.descriptorAddress g + 12) :=
    (copyFrom_within _ _ _ _ _).get16 (by unfold bytes; omega)
  rw [haddress, hwritten]
  unfold Volume.groupRaised
  split
  next heq =>
    rw [heq, get16_put16]
  next hne =>
    have hplace : v.descriptorAddress g + 12 + 2 ≤ v.descriptorAddress (v.groupOf n) + 12 ∨
        v.descriptorAddress (v.groupOf n) + 12 + 2 ≤ v.descriptorAddress g + 12 := by
      unfold Volume.descriptorAddress GroupDescriptor.bytes
      omega
    rw [(put16_within _ _ _).get16 hplace]
    exact (put8_within v.image (v.bitAddress n) _).get16 (by omega)

theorem freed_freeBlocks_card (h : Layout v) (hn : v.CanFree n) :
    (v.freed n).freeBlocks.card = v.freeBlocks.card + 1 := by
  rw [freed_freeBlocks h hn]
  exact Finset.card_insert_of_notMem (notMem_freeBlocks hn)

theorem freed_counted (h : Layout v) (hn : v.CanFree n) (hc : Counted v) : Counted (v.freed n) where
  groups g hg := by
    have hsame := h.freed_same hn.low hn.high
    rw [hsame.groupCount] at hg
    have hcard := freed_freeIn_card h hn g
    have hle := freeIn_card (hsame.layout h) g
    obtain ⟨-, hper⟩ := (hsame.layout h).perGroup
    have hmax := (hsame.layout h).sized.le.2
    rw [freed_count h hn hg, hc.groups g hg, hcard]
    split
    next heq =>
      rw [hcard, if_pos heq] at hle
      exact Nat.mod_eq_of_lt (by omega)
    next => rfl
  total := by
    have hcard := freed_freeBlocks_card h hn
    have hle := freeBlocks_card (v.freed n)
    have hlt : (v.freed n).superblock.blockCount < 2 ^ 32 := get32_lt _ _
    show get32 (put32 _ 12 _) 12 = _
    rw [get32_put32, hc.total, hcard]
    exact Nat.mod_eq_of_lt (by omega)

section

variable (h : SameMaps v w)

include h

theorem SameMaps.synced (hs : v.Synced) : w.Synced := by
  intro x hx
  rw [h.written x hx, h.superblock]
  exact hs x hx

theorem SameMaps.used (hv : Layout v) (hlow : v.superblock.firstDataBlock ≤ n)
    (hhigh : n < v.superblock.blockCount) : w.usedBit n = v.usedBit n := by
  unfold Volume.usedBit
  rw [h.places.groupOf, h.places.bitOf]
  exact h.bits _ (hv.groupOf_lt hlow hhigh) _ (hv.bitOf_lt n)

theorem SameMaps.count (hg : g < v.groupCount) :
    (w.descriptor g).freeBlocksCount = (v.descriptor g).freeBlocksCount := by
  show get16 (w.descriptor g) 12 = get16 (v.descriptor g) 12
  unfold get16
  rw [h.descriptors g hg 12 (by decide), h.descriptors g hg 13 (by decide)]

theorem SameMaps.freeBlocks (hv : Layout v) : w.freeBlocks = v.freeBlocks := by
  ext k
  rw [mem_freeBlocks, mem_freeBlocks, h.superblock]
  constructor
  · rintro ⟨hhigh, hlow, hused⟩
    exact ⟨hhigh, hlow, h.used hv hlow hhigh ▸ hused⟩
  · rintro ⟨hhigh, hlow, hused⟩
    exact ⟨hhigh, hlow, (h.used hv hlow hhigh).trans hused⟩

theorem SameMaps.counted (hv : Layout v) (hc : Counted v) : Counted w where
  groups g hg := by
    have hfree : w.freeIn g = v.freeIn g := by
      unfold Volume.freeIn
      simp only [h.freeBlocks hv, h.places.groupOf]
    rw [h.places.groupCount] at hg
    rw [h.count hg, hc.groups g hg, hfree]
  total := by
    rw [h.freeBlocks hv, h.superblock]
    exact hc.total

end

/-! ## Lists of blocks -/

variable {l l' : List Nat}

def freeList : List Nat → Effect Volume Unit
  | [] => return
  | n :: l => do
    freeBlock n
    freeList l

def Volume.freedAll (v : Volume) (l : List Nat) : Volume := l.foldl Volume.freed v

/-- The blocks of a list can be freed one after another. -/
structure Volume.Freeable (v : Volume) (l : List Nat) : Prop where
  nodup : l.Nodup
  used : ∀ n ∈ l, v.CanFree n

theorem Volume.Freeable.nil (v : Volume) : v.Freeable [] := ⟨.nil, nofun⟩

theorem canFree_freed (h : Layout v) (hn : v.CanFree n) :
    (v.freed n).CanFree k ↔ v.CanFree k ∧ n ≠ k := by
  have hsame := h.freed_same hn.low hn.high
  constructor
  · rintro ⟨hne, hlow, hhigh, hused⟩
    rw [hsame.firstDataBlock] at hlow
    rw [hsame.blockCount] at hhigh
    rw [freed_used h hn hlow hhigh, Bool.and_eq_true, Bool.not_eq_true', decide_eq_false_iff_not]
      at hused
    exact ⟨⟨hne, hlow, hhigh, hused.1⟩, hused.2⟩
  · rintro ⟨hk, hne⟩
    refine ⟨hk.nonzero, hsame.firstDataBlock ▸ hk.low, hsame.blockCount ▸ hk.high, ?_⟩
    rw [freed_used h hn hk.low hk.high, hk.used, decide_eq_false hne]
    rfl

theorem freeable_cons (h : Layout v) (hn : v.CanFree n) :
    v.Freeable (n :: l) ↔ (v.freed n).Freeable l := by
  constructor
  · rintro ⟨hnodup, hused⟩
    obtain ⟨hnotin, hrest⟩ := nodup_cons.mp hnodup
    exact ⟨hrest, fun k hk => (canFree_freed h hn).mpr
      ⟨hused k (mem_cons_of_mem _ hk), fun heq => hnotin (heq ▸ hk)⟩⟩
  · rintro ⟨hnodup, hused⟩
    have hboth : ∀ k ∈ l, v.CanFree k ∧ n ≠ k := fun k hk => (canFree_freed h hn).mp (hused k hk)
    refine ⟨nodup_cons.mpr ⟨fun hmem => (hboth n hmem).2 rfl, hnodup⟩, fun k hk => ?_⟩
    rcases mem_cons.mp hk with rfl | hmem
    · exact hn
    · exact (hboth k hmem).1

theorem freedAll_append (v : Volume) (l l' : List Nat) :
    v.freedAll (l ++ l') = (v.freedAll l).freedAll l' := foldl_append

theorem freeable_append (h : Layout v) :
    v.Freeable (l ++ l') ↔ v.Freeable l ∧ (v.freedAll l).Freeable l' := by
  induction l generalizing v with
  | nil => exact ⟨fun hl => ⟨.nil v, hl⟩, And.right⟩
  | cons n l ih =>
    show v.Freeable (n :: (l ++ l')) ↔ _ ∧ ((v.freed n).freedAll l).Freeable l'
    by_cases hn : v.CanFree n
    · rw [freeable_cons h hn, freeable_cons h hn, ih ((h.freed_same hn.low hn.high).layout h)]
    · constructor
      · exact fun hl => absurd (hl.used n mem_cons_self) hn
      · exact fun hl => absurd (hl.1.used n mem_cons_self) hn

theorem freeList_done (h : Layout v) (hl : v.Freeable l) :
    freeList l v = .done () (v.freedAll l) := by
  induction l generalizing v with
  | nil => rfl
  | cons n l ih =>
    have hn := hl.used n mem_cons_self
    unfold freeList
    rw [bind_done (freeBlock_done h hn)]
    exact ih ((h.freed_same hn.low hn.high).layout h) ((freeable_cons h hn).mp hl)

/-- It stops at the first block that can not be freed. -/
theorem freeList_stopped (h : Layout v) (hl : ¬v.Freeable l) :
    ∃ l₁ n l₂, l = l₁ ++ n :: l₂ ∧ v.Freeable l₁ ∧ ¬(v.freedAll l₁).CanFree n ∧
      freeList l v = .failed (v.freedAll l₁) := by
  induction l generalizing v with
  | nil => exact absurd (.nil v) hl
  | cons n l ih =>
    unfold freeList
    by_cases hn : v.CanFree n
    · obtain ⟨l₁, k, l₂, rfl, hl1, hk, hfailed⟩ := ih ((h.freed_same hn.low hn.high).layout h)
        fun hrest => hl ((freeable_cons h hn).mpr hrest)
      rw [bind_done (freeBlock_done h hn)]
      exact ⟨n :: l₁, k, l₂, rfl, (freeable_cons h hn).mpr hl1, hk, hfailed⟩
    · rw [bind_failed (freeBlock_failed h hn)]
      exact ⟨[], n, l, rfl, .nil v, hn, rfl⟩

theorem freeList_eq_done (h : Layout v) (hdone : freeList l v = .done () w) :
    v.Freeable l ∧ w = v.freedAll l := by
  by_cases hl : v.Freeable l
  · rw [freeList_done h hl] at hdone
    cases hdone
    exact ⟨hl, rfl⟩
  · obtain ⟨l1, k, l2, -, -, -, hfailed⟩ := freeList_stopped h hl
    rw [hfailed] at hdone
    cases hdone

theorem freeList_append (l l' : List Nat) (v : Volume) :
    freeList (l ++ l') v = (freeList l >>= fun _ => freeList l') v := by
  induction l generalizing v with
  | nil => rfl
  | cons n l ih =>
    show (freeBlock n >>= fun _ => freeList (l ++ l')) v =
      ((freeBlock n >>= fun _ => freeList l) >>= fun _ => freeList l') v
    rw [bind_bind_eq]
    exact bind_cont fun _ w _ => ih w

/-- What freeing the blocks of a list has changed. -/
structure Released (v w : Volume) (l : List Nat) : Prop where
  same : SamePlaces v w
  data : ∀ k, v.Data k → ∀ x < v.blockBytes, w.block k x = v.block k x
  bits : ∀ g < v.groupCount, ∀ i < 8 * v.blockBytes, w.bitmapBit g i =
    (v.bitmapBit g i && !decide (∃ n ∈ l, v.groupOf n = g ∧ v.bitOf n = i))
  synced : v.Synced → w.Synced
  elsewhere : v.Synced → ∀ x, v.OutsideCounts x → (∀ n ∈ l, x ≠ v.bitAddress n) →
    w.image x = v.image x
  counted : Counted v → Counted w
  groups : Counted v → ∀ g < v.groupCount, (w.descriptor g).freeBlocksCount =
    (v.descriptor g).freeBlocksCount + (l.filter fun n => v.groupOf n = g).length
  total : Counted v → w.superblock.freeBlockCount = v.superblock.freeBlockCount + l.length

theorem Released.nil (v : Volume) : Released v v [] where
  same := .refl v
  data _ _ _ _ := rfl
  bits g _ i _ := by
    rw [decide_eq_false (fun ⟨_, hmem, _⟩ => nomatch hmem), Bool.not_false, Bool.and_true]
  synced := id
  elsewhere _ _ _ _ := rfl
  counted := id
  groups _ _ _ := rfl
  total _ := rfl

/-- One block first. -/
theorem Released.cons (h : Layout v) (hn : v.CanFree n) (hl : ∀ k ∈ l, v.CanFree k)
    (hrest : Released (v.freed n) w l) : Released v w (n :: l) := by
  have hsame := h.freed_same hn.low hn.high
  have hbytes := hsame.blockBytes
  have hgroups := hsame.groupCount
  refine ⟨hsame.trans hrest.same, fun k hk x hx => ?_, fun g hg i hi => ?_,
    fun _ => hrest.synced (freed_synced v n), fun hs x hx hout => ?_,
    fun hc => hrest.counted (freed_counted h hn hc), fun hc g hg => ?_, fun hc => ?_⟩
  · rw [hrest.data k (hsame.data hk) x (hbytes.symm ▸ hx), freed_data h hn hk hx]
  · rw [hrest.bits g (hgroups.symm ▸ hg) i (hbytes.symm ▸ hi), freed_bit h hn hg hi, Bool.and_assoc,
      ← Bool.not_or]
    simp only [hsame.groupOf, hsame.bitOf, exists_mem_cons_iff, Bool.decide_or]
  · have hx' : (v.freed n).OutsideCounts x := by
      refine ⟨fun g hg => ?_, hx.2⟩
      rw [hsame.descriptorAddress]
      exact hx.1 g (hgroups ▸ hg)
    have hbits : ∀ k ∈ l, x ≠ (v.freed n).bitAddress k := by
      intro k hk
      rw [hsame.bitAddress h (hl k hk).low (hl k hk).high]
      exact hout k (mem_cons_of_mem _ hk)
    rw [hrest.elsewhere (freed_synced v n) x hx' hbits,
      freed_elsewhere h hn hs (hout n mem_cons_self) hx]
  · have hcount := (freed_counted h hn hc).groups g (hgroups.symm ▸ hg)
    rw [freed_freeIn_card h hn, ← hc.groups g hg] at hcount
    rw [hrest.groups (freed_counted h hn hc) g (hgroups.symm ▸ hg), hcount]
    simp only [hsame.groupOf, filter_cons, decide_eq_true_eq]
    split
    next =>
      rw [length_cons]
      omega
    next => rfl
  · have htotal := (freed_counted h hn hc).total
    rw [freed_freeBlocks_card h hn, ← hc.total] at htotal
    rw [hrest.total (freed_counted h hn hc), htotal, length_cons]
    omega

theorem released (h : Layout v) (hl : v.Freeable l) : Released v (v.freedAll l) l := by
  induction l generalizing v with
  | nil => exact .nil v
  | cons n l ih =>
    have hn := hl.used n mem_cons_self
    exact .cons h hn (fun k hk => hl.used k (mem_cons_of_mem _ hk)) (ih ((h.freed_same hn.low hn.high).layout h) ((freeable_cons h hn).mp hl))

end MeatySkeleton.Ext2
