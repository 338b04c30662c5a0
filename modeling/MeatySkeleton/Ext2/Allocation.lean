import MeatySkeleton.Ext2.Freeing

/-!
# The block allocator

While an operation allocates, the bitmap of one group is in its context, and the one on the
device may be older. `ext2_allocate_block` returns a block that is not in use by either
(`Took`), and `ext2_flush_allocation_context` writes the bitmap back, which changes nothing in
this view (`SameUse`).
-/

namespace MeatySkeleton.Ext2

open Lib Lib.Effect
open GroupDescriptor (bytes)

/-- Bit `i` of an array. -/
def Buffer.bit (b : Buffer) (i : Nat) : Bool := (b.bytes (i / 8)).toNat.testBit (i % 8)

/-- The block of bit `i` in the bitmap of group `g`. -/
def Volume.blockAt (v : Volume) (g i : Nat) : Nat :=
  v.superblock.firstDataBlock + g * v.superblock.blocksPerGroup + i

/-- A byte that is neither in a block bitmap nor in a group descriptor. -/
structure Volume.OutsideMaps (v : Volume) (x : Nat) : Prop where
  bitmaps : ∀ g < v.groupCount, x < (v.descriptor g).blockBitmap * v.blockBytes ∨
    ((v.descriptor g).blockBitmap + 1) * v.blockBytes ≤ x
  descriptors : ∀ g < v.groupCount, x < v.descriptorAddress g ∨ v.descriptorAddress g + bytes ≤ x

namespace Allocating

/-- Bit `i` of the bitmap of group `g`, in the context or on the device. -/
def bit (s : Allocating) (g i : Nat) : Bool :=
  if s.context.groupLoaded = true ∧ s.context.group = g then s.context.bitmap.bit i
  else s.volume.bitmapBit g i

/-- Whether block `n` is in use. -/
def used (s : Allocating) (n : Nat) : Bool := s.bit (s.volume.groupOf n) (s.volume.bitOf n)

/-- The descriptor of group `g`, in the context or on the device. -/
def descriptor (s : Allocating) (g : Nat) : GroupDescriptor :=
  if s.context.groupLoaded = true ∧ s.context.group = g then s.context.descriptor
  else s.volume.descriptor g

/-- No block of group `g` is free, by the count or by the bitmap. -/
def Full (s : Allocating) (g : Nat) : Prop :=
  (s.descriptor g).freeBlocksCount = 0 ∨ ∀ i < blocksInGroup s.volume.superblock g, s.bit g i = true

end Allocating

/-- A byte of a group descriptor that is not in the count of free blocks. -/
def GroupDescriptor.Fixed (x : Nat) : Prop := x < 12 ∨ 14 ≤ x ∧ x < bytes

theorem GroupDescriptor.Fixed.lt {x : Nat} (h : Fixed x) : x < bytes := by
  unfold Fixed at h
  unfold bytes at *
  omega

/-- A consistent volume with its context: the bitmap and the descriptor in it are those of its
group, and the device has them unless they are dirty. The blocks that are not in use are blocks
for files. -/
structure Sound (s : Allocating) : Prop where
  layout : Layout s.volume
  array : s.context.bitmap.size = 4096
  group : s.context.groupLoaded = true → s.context.group < s.volume.groupCount ∧
    ∀ x, GroupDescriptor.Fixed x → s.context.descriptor x = s.volume.descriptor s.context.group x
  clean : s.context.groupLoaded = true → s.context.dirty = false →
    (∀ x < bytes, s.context.descriptor x = s.volume.descriptor s.context.group x) ∧
    ∀ i < 8 * s.volume.blockBytes, s.context.bitmap.bit i = s.volume.bitmapBit s.context.group i
  free : ∀ g < s.volume.groupCount, ∀ i < blocksInGroup s.volume.superblock g,
    s.bit g i = false → s.volume.Data (s.volume.blockAt g i)

/-- The same blocks are in use. -/
structure SameUse (s t : Allocating) : Prop where
  places : SamePlaces s.volume t.volume
  elsewhere : ∀ x, s.volume.OutsideMaps x → t.volume.image x = s.volume.image x
  superblock : t.volume.superblock = s.volume.superblock
  descriptors : ∀ g < s.volume.groupCount, ∀ x < bytes, t.descriptor g x = s.descriptor g x
  bits : ∀ g < s.volume.groupCount, ∀ i < 8 * s.volume.blockBytes, t.bit g i = s.bit g i

/-- Block `n` was not in use, and is now. -/
structure Took (n : Nat) (s t : Allocating) : Prop where
  places : SamePlaces s.volume t.volume
  elsewhere : ∀ x, s.volume.OutsideMaps x → t.volume.image x = s.volume.image x
  superblock : t.volume.superblock =
    s.volume.superblock.setFreeBlockCount (s.volume.superblock.freeBlockCount - 1)
  descriptors : ∀ g < s.volume.groupCount, ∀ x < bytes, t.descriptor g x =
    if s.volume.groupOf n = g then (s.descriptor g).setFreeBlocksCount
      ((s.descriptor g).freeBlocksCount + 2 ^ 16 - 1) x
    else s.descriptor g x
  bits : ∀ g < s.volume.groupCount, ∀ i < 8 * s.volume.blockBytes,
    t.bit g i = (s.bit g i || decide (s.volume.groupOf n = g ∧ s.volume.bitOf n = i))
  data : s.volume.Data n
  fresh : s.used n = false

variable {s t u : Allocating} {v w : Volume} {g i n k x : Nat}

/-! ## The frame -/

theorem SamePlaces.outsideMaps (h : SamePlaces v w) : w.OutsideMaps x ↔ v.OutsideMaps x := by
  constructor
  · intro hx
    refine ⟨fun g hg => ?_, fun g hg => ?_⟩
    · have hout := hx.bitmaps g (h.groupCount.symm ▸ hg)
      rw [h.blockBitmap hg, h.blockBytes] at hout
      exact hout
    · have hout := hx.descriptors g (h.groupCount.symm ▸ hg)
      rw [h.descriptorAddress] at hout
      exact hout
  · intro hx
    refine ⟨fun g hg => ?_, fun g hg => ?_⟩
    · rw [h.groupCount] at hg
      rw [h.blockBitmap hg, h.blockBytes]
      exact hx.bitmaps g hg
    · rw [h.groupCount] at hg
      rw [h.descriptorAddress]
      exact hx.descriptors g hg

theorem Layout.bitmap_block (_ : Layout v) (g : Nat) :
    (Area.blockBitmap g).Covers v ((v.descriptor g).blockBitmap * v.blockBytes) v.blockBytes := by
  refine ⟨Nat.le_refl _, ?_⟩
  show _ ≤ ((v.descriptor g).blockBitmap + 1) * v.blockBytes
  rw [Nat.succ_mul]

/-- The blocks for files are outside. -/
theorem Layout.outside_data (h : Layout v) (hn : v.Data n) (hx : x < v.blockBytes) :
    v.OutsideMaps (n * v.blockBytes + x) := by
  refine ⟨fun g hg => ?_, fun g hg => ?_⟩
  · have hvalid : (Area.blockBitmap g).Valid v := hg
    have happart := hn.covers_apart hvalid (h.bitmap_block g)
    rw [Nat.succ_mul n] at happart
    rw [Nat.succ_mul]
    omega
  · have happart := hn.covers_apart (a := .descriptors) trivial (h.descriptor_covered hg)
    rw [Nat.succ_mul] at happart
    omega

theorem SameUse.refl (s : Allocating) : SameUse s s :=
  ⟨.refl _, fun _ _ => rfl, rfl, fun _ _ _ _ => rfl, fun _ _ _ _ => rfl⟩

theorem SameUse.trans (h : SameUse s t) (h' : SameUse t u) : SameUse s u where
  places := h.places.trans h'.places
  elsewhere x hx := (h'.elsewhere x (h.places.outsideMaps.mpr hx)).trans (h.elsewhere x hx)
  superblock := h'.superblock.trans h.superblock
  descriptors g hg x hx :=
    (h'.descriptors g (h.places.groupCount.symm ▸ hg) x hx).trans (h.descriptors g hg x hx)
  bits g hg i hi := (h'.bits g (h.places.groupCount.symm ▸ hg) i
    (h.places.blockBytes.symm ▸ hi)).trans (h.bits g hg i hi)

theorem SameUse.used (h : SameUse s t) (hs : Sound s) (hn : s.volume.Data n) :
    t.used n = s.used n := by
  unfold Allocating.used
  rw [h.places.groupOf, h.places.bitOf]
  exact h.bits _ (hs.layout.groupOf_lt hn.low hn.high) _ (hs.layout.bitOf_lt n)

/-- The counts of free blocks. -/
theorem SameUse.count (h : SameUse s t) (hg : g < s.volume.groupCount) :
    (t.descriptor g).freeBlocksCount = (s.descriptor g).freeBlocksCount :=
  get16_congr fun k hk => h.descriptors g hg _ (by unfold bytes; omega)

theorem SameUse.took (h : SameUse s t) (hs : Sound s) (h' : Took n t u) : Took n s u where
  places := h.places.trans h'.places
  elsewhere x hx := (h'.elsewhere x (h.places.outsideMaps.mpr hx)).trans (h.elsewhere x hx)
  superblock := by
    rw [h'.superblock, h.superblock]
  descriptors g hg x hx := by
    rw [h'.descriptors g (h.places.groupCount.symm ▸ hg) x hx, h.places.groupOf, h.count hg,
      h.descriptors g hg x hx]
    split
    next => exact put16_congr (h.descriptors g hg x hx) _
    next => rfl
  bits g hg i hi := by
    rw [h'.bits g (h.places.groupCount.symm ▸ hg) i (h.places.blockBytes.symm ▸ hi),
      h.bits g hg i hi, h.places.groupOf, h.places.bitOf]
  data := h.places.symm.data h'.data
  fresh := (h.used hs (h.places.symm.data h'.data)).symm.trans h'.fresh

theorem Took.used (h : Took n s t) (hs : Sound s) (hk : s.volume.Data k) :
    t.used k = (s.used k || decide (n = k)) := by
  unfold Allocating.used
  rw [h.places.groupOf, h.places.bitOf,
    h.bits _ (hs.layout.groupOf_lt hk.low hk.high) _ (hs.layout.bitOf_lt k)]
  congr 1
  exact decide_eq_decide.mpr ⟨fun heq => place_inj h.data.low hk.low heq.1 heq.2,
    fun heq => heq ▸ ⟨rfl, rfl⟩⟩

theorem block_kept (h : Layout v) (hplaces : SamePlaces v w)
    (helse : ∀ x, v.OutsideMaps x → w.image x = v.image x) (hn : v.Data n)
    (hx : x < v.blockBytes) : w.block n x = v.block n x := by
  unfold Volume.block
  rw [hplaces.blockBytes]
  exact helse _ (h.outside_data hn hx)

/-! ## Groups -/

theorem Layout.group_first (h : Layout v) (hg : g < v.groupCount) :
    groupFirstBlock v.superblock g = v.superblock.firstDataBlock + g * v.superblock.blocksPerGroup ∧
      v.superblock.firstDataBlock + g * v.superblock.blocksPerGroup < v.superblock.blockCount := by
  have hlt := h.blockCount_lt
  have hblocks := h.blocks
  have hpos := h.perGroup.1
  have hfit : (g + 1) * v.superblock.blocksPerGroup ≤ v.superblock.blockCount -
      v.superblock.firstDataBlock + v.superblock.blocksPerGroup - 1 :=
    (Nat.le_div_iff_mul_le hpos).mp hg
  rw [Nat.succ_mul] at hfit
  refine ⟨?_, by omega⟩
  unfold groupFirstBlock
  rw [u32_of_lt (n := g * v.superblock.blocksPerGroup) (by omega), u32_of_lt (by omega)]

theorem Layout.blocksInGroup_le (h : Layout v) (hg : g < v.groupCount) :
    blocksInGroup v.superblock g ≤ v.superblock.blocksPerGroup := by
  obtain ⟨hfirst, hlt⟩ := h.group_first hg
  have hcount := h.blockCount_lt
  unfold blocksInGroup
  rw [hfirst]
  split
  next hpast =>
    have hmod : u32 (v.superblock.firstDataBlock + g * v.superblock.blocksPerGroup +
        v.superblock.blocksPerGroup) ≤ _ := Nat.mod_le _ _
    have hsub : u32sub v.superblock.blockCount (v.superblock.firstDataBlock +
        g * v.superblock.blocksPerGroup) = v.superblock.blockCount -
          (v.superblock.firstDataBlock + g * v.superblock.blocksPerGroup) := by
      unfold u32sub
      rw [Nat.sub_add_comm (Nat.le_of_lt hlt), Nat.add_mod_right]
      exact Nat.mod_eq_of_lt (by omega)
    rw [hsub]
    omega
  next => exact Nat.le_refl _

theorem Layout.blockAt_place (h : Layout v) (hi : i < v.superblock.blocksPerGroup) :
    v.groupOf (v.blockAt g i) = g ∧ v.bitOf (v.blockAt g i) = i := by
  have hsub : v.blockAt g i - v.superblock.firstDataBlock = i + v.superblock.blocksPerGroup * g := by
    unfold Volume.blockAt
    rw [Nat.mul_comm g]
    omega
  unfold Volume.groupOf Volume.bitOf
  rw [hsub, Nat.add_mul_div_left _ _ h.perGroup.1, Nat.add_mul_mod_self_left, Nat.div_eq_of_lt hi,
    Nat.mod_eq_of_lt hi, Nat.zero_add]
  exact ⟨rfl, rfl⟩

/-- A bit that is looked at is one of the bitmap. -/
theorem Layout.bit_lt (h : Layout v) (hg : g < v.groupCount)
    (hi : i < blocksInGroup v.superblock g) : i < 8 * v.blockBytes :=
  Nat.lt_of_lt_of_le hi (Nat.le_trans (h.blocksInGroup_le hg) h.perGroup.2)

theorem SameUse.full (h : SameUse s t) (hs : Sound s) (hg : g < s.volume.groupCount)
    (hfull : t.Full g) : s.Full g := by
  rcases hfull with hnone | hall
  · exact .inl ((h.count hg).symm.trans hnone)
  · refine .inr fun i hi => ?_
    have hbit := hall i (h.superblock.symm ▸ hi)
    rwa [h.bits g hg i (hs.layout.bit_lt hg hi)] at hbit

/-! ## Bits in use -/

/-- The bits are those on the device, unless the bitmap in the context is dirty. -/
theorem Sound.bit_device (h : Sound s) (hclean : s.context.groupLoaded = false ∨ s.context.dirty = false)
    (hi : i < 8 * s.volume.blockBytes) : s.bit g i = s.volume.bitmapBit g i := by
  unfold Allocating.bit
  split
  next hloaded =>
    obtain ⟨hloaded, rfl⟩ := hloaded
    rcases hclean with hnone | hclean
    · rw [hnone] at hloaded
      cases hloaded
    · exact (h.clean hloaded hclean).2 i hi
  next => rfl

theorem Sound.descriptor_device (h : Sound s)
    (hclean : s.context.groupLoaded = false ∨ s.context.dirty = false)
    (hx : x < bytes) : s.descriptor g x = s.volume.descriptor g x := by
  unfold Allocating.descriptor
  split
  next hloaded =>
    obtain ⟨hloaded, rfl⟩ := hloaded
    rcases hclean with hnone | hclean
    · rw [hnone] at hloaded
      cases hloaded
    · exact (h.clean hloaded hclean).1 x hx
  next => rfl

/-- A context with a bitmap that is on the device, or with none. -/
theorem Sound.settled (h : Sound s) (hclean : s.context.groupLoaded = false ∨ s.context.dirty = false)
    {context : AllocationContext} (harray : context.bitmap.size = 4096)
    (hgroup : context.groupLoaded = true → context.group < s.volume.groupCount ∧
      ∀ x < bytes, context.descriptor x = s.volume.descriptor context.group x)
    (hbits : context.groupLoaded = true → ∀ i < 8 * s.volume.blockBytes,
      context.bitmap.bit i = s.volume.bitmapBit context.group i) :
    Sound ⟨s.volume, context⟩ ∧ SameUse s ⟨s.volume, context⟩ := by
  have hsame : ∀ g, ∀ i < 8 * s.volume.blockBytes,
      (Allocating.mk s.volume context).bit g i = s.bit g i := by
    intro g i hi
    rw [h.bit_device hclean hi]
    unfold Allocating.bit
    split
    next hloaded =>
      obtain ⟨hloaded, rfl⟩ := hloaded
      exact hbits hloaded i hi
    next => rfl
  have hdescriptor : ∀ g, ∀ x < bytes,
      (Allocating.mk s.volume context).descriptor g x = s.descriptor g x := by
    intro g x hx
    rw [h.descriptor_device hclean hx]
    unfold Allocating.descriptor
    split
    next hloaded =>
      obtain ⟨hloaded, rfl⟩ := hloaded
      exact (hgroup hloaded).2 x hx
    next => rfl
  refine ⟨⟨h.layout, harray, fun hloaded => ⟨(hgroup hloaded).1, fun x hx => ?_⟩,
    fun hloaded _ => ⟨(hgroup hloaded).2, hbits hloaded⟩, fun g hg i hi hfree => ?_⟩,
    .refl _, fun _ _ => rfl, rfl, fun g _ => hdescriptor g, fun g _ => hsame g⟩
  · exact (hgroup hloaded).2 x hx.lt
  exact h.free g hg i hi ((hsame g i (h.layout.bit_lt hg hi)).symm.trans hfree)

/-! ## Writing the bitmap back -/

/-- The image with the bitmap of the context. -/
def Allocating.bitmapImage (s : Allocating) : Mem :=
  copyFrom s.volume.image (s.context.descriptor.blockBitmap * s.volume.blockBytes)
    s.context.bitmap.bytes 0 s.volume.blockBytes

/-- The image with its descriptor, too. -/
def Allocating.writtenImage (s : Allocating) : Mem :=
  copyFrom s.bitmapImage (s.volume.descriptorAddress s.context.group) s.context.descriptor 0 bytes

def Allocating.flushed (s : Allocating) : Allocating :=
  ⟨{ s.volume with image := s.writtenImage }, { s.context with dirty := false }⟩

theorem onVolume_done {α : Type} {m : Effect Volume α} {a : α} (h : m s.volume = .done a w) :
    onVolume m s = .done a { s with volume := w } := zoom_done h

section
variable (h : Sound s) (hloaded : s.context.groupLoaded = true)
include h hloaded

theorem Sound.bitmap_place : s.context.descriptor.blockBitmap =
    (s.volume.descriptor s.context.group).blockBitmap :=
  get32_congr fun k hk => (h.group hloaded).2 _ (.inl (by omega))

theorem Sound.bitmap_same : SamePlaces s.volume { s.volume with image := s.bitmapImage } := by
  have hvalid : (Area.blockBitmap s.context.group).Valid s.volume := (h.group hloaded).1
  unfold Allocating.bitmapImage
  rw [h.bitmap_place hloaded]
  exact h.layout.same_area hvalid nofun (h.layout.bitmap_block _) (copyFrom_within _ _ _ _ _)

theorem Sound.written_same : SamePlaces s.volume s.flushed.volume := by
  have hbitmap := h.bitmap_same hloaded
  obtain ⟨hgroup, hdescriptor⟩ := h.group hloaded
  refine ⟨.refl _ _ _, rfl, fun g hg x hx => ?_⟩
  show copyFrom _ (s.volume.descriptorAddress s.context.group) s.context.descriptor 0
    bytes (s.volume.descriptorAddress g + x) = _
  by_cases heq : g = s.context.group
  · rw [heq, copyFrom_add (Nat.lt_trans hx (by decide))]
    exact hdescriptor x (.inl hx)
  · refine (copyFrom_within _ _ _ _ _ _ ?_).trans (hbitmap.descriptors g hg x hx)
    unfold Volume.descriptorAddress bytes
    omega

theorem flush_writes (hdirty : s.context.dirty = true) :
    flushAllocationContext s = .done () s.flushed := by
  obtain ⟨hgroup, -⟩ := h.group hloaded
  have hbitmap := h.bitmap_same hloaded
  obtain ⟨-, hend⟩ := h.layout.within (.blockBitmap s.context.group) hgroup
  change (s.volume.descriptor s.context.group).blockBitmap + 1 ≤ _ at hend
  have hmax := h.layout.sized.le.2
  have harray := h.array
  have hwrite : writeBlock s.volume.blockBytes s.context.descriptor.blockBitmap s.context.bitmap 0
      s.volume = .done () { s.volume with image := s.bitmapImage } :=
    writeBlock_done h.layout.sized (h.layout.hasBlock (by rw [h.bitmap_place hloaded]; exact hend))
      (by omega)
  have hdescriptor := (hbitmap.layout h.layout).writeGroupDescriptor (hbitmap.groupCount.symm ▸ hgroup)
    s.context.descriptor
  rw [hbitmap.descriptorAddress] at hdescriptor
  have hnot : ¬(s.context.groupLoaded = false ∨ s.context.dirty = false) := by
    rw [hloaded, hdirty]
    decide
  unfold flushAllocationContext
  rw [get_bind, if_neg hnot, bind_done (h.layout.blockSize s), bind_done (onVolume_done hwrite),
    bind_done (onVolume_done hdescriptor)]
  rfl

/-- A byte of a bitmap is not one of the descriptor. -/
theorem Sound.written_bitmap (hg : g < s.volume.groupCount) (hi : i < 8 * s.volume.blockBytes) :
    s.writtenImage ((s.volume.descriptor g).blockBitmap * s.volume.blockBytes + i / 8) =
      s.bitmapImage ((s.volume.descriptor g).blockBitmap * s.volume.blockBytes + i / 8) := by
  have hvalid : (Area.blockBitmap g).Valid s.volume := hg
  have happart := h.layout.covers_apart (b := .descriptors) hvalid trivial nofun
    (bitmap_covered g hi) (h.layout.descriptor_covered (h.group hloaded).1)
  exact copyFrom_within _ _ _ _ _ _ (by omega)

theorem Sound.written_bits (hg : g < s.volume.groupCount) (hi : i < 8 * s.volume.blockBytes) :
    s.flushed.volume.bitmapBit g i = if s.context.group = g then s.context.bitmap.bit i
      else s.volume.bitmapBit g i := by
  have hplaces := h.written_same hloaded
  have hgroup := (h.group hloaded).1
  unfold Volume.bitmapBit
  rw [hplaces.blockBitmap hg, hplaces.blockBytes]
  show (s.writtenImage _).toNat.testBit (i % 8) = _
  rw [h.written_bitmap hloaded hg hi]
  unfold Allocating.bitmapImage
  rw [h.bitmap_place hloaded]
  split
  next heq =>
    rw [heq, copyFrom_add (by omega)]
    rfl
  next hne =>
    have hvalid : (Area.blockBitmap g).Valid s.volume := hg
    have hvalid' : (Area.blockBitmap s.context.group).Valid s.volume := hgroup
    have happart := h.layout.covers_apart hvalid hvalid'
      (fun hsame => hne (Area.blockBitmap.inj hsame).symm) (bitmap_covered g hi)
      (h.layout.bitmap_block s.context.group)
    rw [copyFrom_within _ _ _ _ _ _ (by omega)]

/-- A byte of a descriptor is not one of the bitmap. -/
theorem Sound.written_descriptor (hg : g < s.volume.groupCount) (hx : x < bytes) :
    s.flushed.volume.descriptor g x = if s.context.group = g then s.context.descriptor x
      else s.volume.descriptor g x := by
  show copyFrom s.bitmapImage (s.volume.descriptorAddress s.context.group) s.context.descriptor 0
    bytes (s.volume.descriptorAddress g + x) = _
  split
  next heq => rw [heq, copyFrom_add hx]
  next hne =>
    have hvalid : (Area.blockBitmap s.context.group).Valid s.volume := (h.group hloaded).1
    have happart := h.layout.covers_apart (b := .descriptors) hvalid trivial nofun
      (h.layout.bitmap_block _) (h.layout.descriptor_covered hg)
    unfold bytes at hx happart
    rw [copyFrom_within _ _ _ _ _ _ (by
      unfold Volume.descriptorAddress bytes
      omega)]
    unfold Allocating.bitmapImage
    rw [h.bitmap_place hloaded]
    exact copyFrom_within _ _ _ _ _ _ (by omega)

theorem Sound.flushed : Sound s.flushed ∧ SameUse s s.flushed := by
  have hplaces := h.written_same hloaded
  obtain ⟨hgroup, hdescriptor⟩ := h.group hloaded
  have hdescriptors : ∀ g < s.volume.groupCount, ∀ x < bytes,
      s.flushed.descriptor g x = s.descriptor g x := by
    intro g hg x hx
    unfold Allocating.descriptor
    by_cases heq : s.context.group = g
    · rw [if_pos ⟨hloaded, heq⟩, if_pos ⟨hloaded, heq⟩]
      rfl
    · rw [if_neg fun hboth => heq hboth.2, if_neg fun hboth => heq hboth.2,
        h.written_descriptor hloaded hg hx, if_neg heq]
  have hbits : ∀ g < s.volume.groupCount, ∀ i < 8 * s.volume.blockBytes,
      s.flushed.bit g i = s.bit g i := by
    intro g hg i hi
    unfold Allocating.bit
    by_cases heq : s.context.group = g
    · rw [if_pos ⟨hloaded, heq⟩, if_pos ⟨hloaded, heq⟩]
      rfl
    · rw [if_neg fun hboth => heq hboth.2, if_neg fun hboth => heq hboth.2,
        h.written_bits hloaded hg hi, if_neg heq]
  have hself : ∀ x < bytes,
      s.context.descriptor x = s.flushed.volume.descriptor s.context.group x := by
    intro x hx
    rw [h.written_descriptor hloaded hgroup hx, if_pos rfl]
  refine ⟨⟨hplaces.layout h.layout, h.array,
    fun _ => ⟨hplaces.groupCount.symm ▸ hgroup, fun x hx => hself x hx.lt⟩,
    fun _ _ => ⟨hself, fun i hi => ?_⟩, fun g hg i hi hfree => ?_⟩,
    hplaces, fun x hx => ?_, rfl, hdescriptors, hbits⟩
  · rw [hplaces.blockBytes] at hi
    show s.context.bitmap.bit i = s.flushed.volume.bitmapBit s.context.group i
    rw [h.written_bits hloaded hgroup hi, if_pos rfl]
  · rw [hplaces.groupCount] at hg
    exact hplaces.data (h.free g hg i hi ((hbits g hg i (h.layout.bit_lt hg hi)).symm.trans hfree))
  · show s.writtenImage x = _
    unfold Allocating.writtenImage Allocating.bitmapImage
    rw [copyFrom_within _ _ _ _ _ _ (hx.descriptors _ hgroup), h.bitmap_place hloaded]
    have hout := hx.bitmaps _ hgroup
    rw [Nat.succ_mul] at hout
    exact copyFrom_within _ _ _ _ _ _ hout

end

/-- The bitmap is on the device afterwards. -/
theorem flushAllocationContext_done (h : Sound s) : ∃ t, flushAllocationContext s = .done () t ∧
    Sound t ∧ SameUse s t ∧ t.context.bitmap = s.context.bitmap ∧
    (t.context.groupLoaded = false ∨ t.context.dirty = false) := by
  by_cases hclean : s.context.groupLoaded = false ∨ s.context.dirty = false
  · refine ⟨s, ?_, h, .refl s, rfl, hclean⟩
    unfold flushAllocationContext
    rw [get_bind, if_pos hclean]
    rfl
  · rw [not_or, Bool.not_eq_false, Bool.not_eq_false] at hclean
    obtain ⟨hsound, hsame⟩ := h.flushed hclean.1
    exact ⟨s.flushed, flush_writes h hclean.1 hclean.2, hsound, hsame, rfl, .inr rfl⟩

/-! ## A free bit -/

section
variable {b : Buffer} {bit left : Nat}

theorem setBit_done (h : bit / 8 < b.size) : setBit b bit v = .done ⟨b.size, put8 b.bytes (bit / 8)
    (UInt8.ofNat ((b.bytes (bit / 8)).toNat ||| 2 ^ (bit % 8)))⟩ v := by
  unfold setBit
  rw [bind_done (get8_done h), put8_done h]

theorem bit_set (b : Buffer) (bit i : Nat) :
    (Buffer.mk b.size (put8 b.bytes (bit / 8)
      (UInt8.ofNat ((b.bytes (bit / 8)).toNat ||| 2 ^ (bit % 8))))).bit i =
        (b.bit i || decide (bit = i)) := by
  unfold Buffer.bit
  show (put8 b.bytes (bit / 8) _ (i / 8)).toNat.testBit (i % 8) = _
  by_cases hbyte : i / 8 = bit / 8
  · have hlt : (b.bytes (bit / 8)).toNat ||| 2 ^ (bit % 8) < 2 ^ 8 :=
      Nat.or_lt_two_pow (UInt8.toNat_lt _) (Nat.pow_lt_pow_right (by decide) (Nat.mod_lt _ (by decide)))
    rw [hbyte, put8_self, UInt8.toNat_ofNat', Nat.mod_eq_of_lt hlt, Nat.testBit_or,
      Nat.testBit_two_pow]
    congr 1
    exact decide_eq_decide.mpr ⟨fun hrest => by omega, fun heq => by rw [heq]⟩
  · have hne : bit ≠ i := fun heq => hbyte (heq ▸ rfl)
    rw [put8_within _ _ _ _ (by omega), decide_eq_false hne, Bool.or_false]

/-- The first bit that is clear. -/
theorem findFreeBlock_done (h : bit + left ≤ 8 * b.size) :
    ∃ r, findFreeBlock b left bit v = .done r v ∧
      (∀ i, r = some i → i < bit + left ∧ b.bit i = false) ∧
      (r = none → ∀ i, bit ≤ i → i < bit + left → b.bit i = true) := by
  induction left generalizing bit with
  | zero => exact ⟨none, rfl, nofun, fun _ i _ _ => by omega⟩
  | succ left ih =>
    unfold findFreeBlock
    rw [bind_done (testBit_done (by omega))]
    split
    next hset =>
      obtain ⟨r, hdone, hfree, hall⟩ := ih (by omega : bit + 1 + left ≤ 8 * b.size)
      refine ⟨r, hdone, fun i hi => ?_, fun hnone i hlow hhigh => ?_⟩
      · obtain ⟨hlt, hbit⟩ := hfree i hi
        exact ⟨by omega, hbit⟩
      · by_cases heq : i = bit
        · exact heq ▸ hset
        · exact hall hnone i (by omega) (by omega)
    next hclear =>
      refine ⟨some bit, rfl, fun i hi => ?_, nofun⟩
      cases hi
      exact ⟨by omega, Bool.eq_false_iff.mpr hclear⟩

end

/-! ## Taking a block -/

/-- The bitmap of a group is loaded. -/
theorem loadGroup_done (h : Sound s) (hg : g < s.volume.groupCount) :
    ∃ r t, loadGroup s.volume.blockBytes g s = .done r t ∧ Sound t ∧ SameUse s t ∧
      (r = true → t.context.groupLoaded = true ∧ t.context.group = g) ∧
      (r = false → s.Full g) := by
  by_cases hmiss : s.context.groupLoaded = false ∨ s.context.group ≠ g
  · obtain ⟨t, hflush, hsound, hsame, hbitmap, hclean⟩ := flushAllocationContext_done h
    have hg' : g < t.volume.groupCount := hsame.places.groupCount.symm ▸ hg
    obtain ⟨d, hread, hd⟩ := hsound.layout.readGroupDescriptor hg'
    unfold loadGroup
    rw [get_bind, if_pos hmiss, bind_done hflush, bind_done (onVolume_done hread), modify_bind]
    by_cases hnone : d.freeBlocksCount = 0
    · rw [if_pos hnone]
      obtain ⟨hsound', hsame'⟩ := @Sound.settled t hsound hclean
        { t.context with descriptor := d, groupLoaded := false } hsound.array nofun nofun
      refine ⟨false, _, rfl, hsound', hsame.trans hsame', nofun, fun _ => .inl ?_⟩
      rw [← hsame.count hg, ← hnone]
      refine get16_congr fun k hk => ?_
      have hx : 12 + k < bytes := by
        unfold bytes
        omega
      exact (hsound.descriptor_device hclean hx).trans (hd _ hx).symm
    · rw [if_neg hnone, get_bind]
      obtain ⟨-, hend⟩ := hsound.layout.within (.blockBitmap g) hg'
      change (t.volume.descriptor g).blockBitmap + 1 ≤ _ at hend
      have hplace : d.blockBitmap = (t.volume.descriptor g).blockBitmap :=
        get32_congr fun k hk => hd _ (by unfold bytes; omega)
      have hmax := hsound.layout.sized.le.2
      have harray := hsound.array
      have hblock := readBlock_done (b := t.context.bitmap) hsound.layout.sized
        (hsound.layout.hasBlock hend) (by omega)
      rw [hsame.places.blockBytes, ← hplace] at hblock
      have hbits : ∀ i < 8 * t.volume.blockBytes, Buffer.bit ⟨t.context.bitmap.size,
          copyFrom t.context.bitmap.bytes 0 t.volume.image (d.blockBitmap * s.volume.blockBytes)
            s.volume.blockBytes⟩ i = t.volume.bitmapBit g i := by
        intro i hi
        rw [hsame.places.blockBytes] at hi
        unfold Buffer.bit Volume.bitmapBit
        dsimp only
        rw [copyFrom_low (by omega), hplace, hsame.places.blockBytes]
      obtain ⟨hsound', hsame'⟩ := @Sound.settled t hsound hclean
        ⟨true, g, d, ⟨t.context.bitmap.size, copyFrom t.context.bitmap.bytes 0 t.volume.image
          (d.blockBitmap * s.volume.blockBytes) s.volume.blockBytes⟩, false,
            t.context.allocatedBlocks⟩ harray
        (fun _ => ⟨hg', hd⟩) fun _ => hbits
      exact ⟨true, _, bind_done (onVolume_done hblock), hsound', hsame.trans hsame',
        fun _ => ⟨rfl, rfl⟩, nofun⟩
  · unfold loadGroup
    rw [get_bind, if_neg hmiss]
    rw [not_or, Bool.not_eq_false, not_not] at hmiss
    exact ⟨true, s, rfl, h, .refl s, fun _ => hmiss, nofun⟩

/-- The state with bit `i` of the loaded group taken. -/
def Allocating.taken (s : Allocating) (i : Nat) : Allocating where
  volume :=
    { s.volume with
      superblock := s.volume.superblock.setFreeBlockCount (s.volume.superblock.freeBlockCount - 1) }
  context :=
    { s.context with
      bitmap := ⟨s.context.bitmap.size, put8 s.context.bitmap.bytes (i / 8)
        (UInt8.ofNat ((s.context.bitmap.bytes (i / 8)).toNat ||| 2 ^ (i % 8)))⟩
      descriptor := s.context.descriptor.setFreeBlocksCount
        (s.context.descriptor.freeBlocksCount + 2 ^ 16 - 1)
      allocatedBlocks := u32 (s.context.allocatedBlocks + 1)
      dirty := true }

theorem taken_same (s : Allocating) (i : Nat) : SamePlaces s.volume (s.taken i).volume :=
  ⟨(put32_within _ _ _).mono (by decide) (by decide), rfl, fun _ _ _ _ => rfl⟩

theorem Sound.taken (h : Sound s) (hloaded : s.context.groupLoaded = true)
    (hi : i < blocksInGroup s.volume.superblock s.context.group)
    (hfree : s.context.bitmap.bit i = false) :
    Sound (s.taken i) ∧ Took (s.volume.blockAt s.context.group i) s (s.taken i) := by
  obtain ⟨hgroup, hdescriptor⟩ := h.group hloaded
  have hplaces := taken_same s i
  have hlt : i < s.volume.superblock.blocksPerGroup :=
    Nat.lt_of_lt_of_le hi (h.layout.blocksInGroup_le hgroup)
  obtain ⟨hg, hb⟩ := h.layout.blockAt_place (g := s.context.group) hlt
  have hbit : s.bit s.context.group i = false := (if_pos ⟨hloaded, rfl⟩).trans hfree
  have hbits : ∀ g k, (s.taken i).bit g k = (s.bit g k || decide (s.context.group = g ∧ i = k)) := by
    intro g k
    unfold Allocating.bit
    by_cases heq : s.context.group = g
    · rw [if_pos ⟨hloaded, heq⟩, if_pos ⟨hloaded, heq⟩]
      refine (bit_set s.context.bitmap i k).trans ?_
      congr 1
      exact decide_eq_decide.mpr ⟨fun hk => ⟨heq, hk⟩, And.right⟩
    · rw [if_neg fun hboth => heq hboth.2, if_neg fun hboth => heq hboth.2,
        decide_eq_false fun hboth => heq hboth.1, Bool.or_false]
      rfl
  refine ⟨⟨hplaces.layout h.layout, h.array, fun _ => ⟨?_, fun x hx => ?_⟩, fun _ => nofun,
    fun g hg i' hi' hfree' => ?_⟩, hplaces, fun _ _ => rfl, rfl, fun g _ x _ => ?_,
    fun g _ k _ => ?_, ?_, ?_⟩
  · exact hplaces.groupCount.symm ▸ hgroup
  · have hout : x < 12 ∨ 12 + 2 ≤ x := hx.imp_right And.left
    exact (put16_within _ _ _ x hout).trans (hdescriptor x hx)
  · rw [hbits, Bool.or_eq_false_iff] at hfree'
    exact hplaces.data (h.free g (hplaces.groupCount ▸ hg) i' hi' hfree'.1)
  · rw [hg]
    unfold Allocating.descriptor
    by_cases heq : s.context.group = g
    · rw [if_pos ⟨hloaded, heq⟩, if_pos heq, if_pos ⟨hloaded, heq⟩]
      rfl
    · rw [if_neg fun hboth => heq hboth.2, if_neg heq, if_neg fun hboth => heq hboth.2]
      rfl
  · rw [hbits, hg, hb]
  · exact h.free _ hgroup i hi hbit
  · unfold Allocating.used
    rw [hg, hb]
    exact hbit

/-- The loop over the groups. -/
theorem allocateBlockFrom_meets {left : Nat} (h : Sound s) (hg : g + left ≤ s.volume.groupCount) :
    (allocateBlockFrom s.volume.blockBytes left g s).Meets (fun n t => Sound t ∧ Took n s t)
      fun t => Sound t ∧ SameUse s t ∧ ∀ k, g ≤ k → k < g + left → s.Full k := by
  induction left generalizing s g with
  | zero => exact ⟨h, .refl s, fun k _ _ => by omega⟩
  | succ left ih =>
    obtain ⟨r, t, hload, hsound, hsame, hloaded, hnone⟩ := loadGroup_done h (by omega : g < _)
    have hbytes := hsame.places.blockBytes
    have hcount := hsame.places.groupCount
    -- the groups behind this one
    have hnext : ∀ u, Sound u → SameUse s u → s.Full g →
        (allocateBlockFrom s.volume.blockBytes left (g + 1) u).Meets (fun n w => Sound w ∧ Took n s w)
          fun w => Sound w ∧ SameUse s w ∧ ∀ k, g ≤ k → k < g + (left + 1) → s.Full k := by
      intro u hu hsu hfull
      rw [← hsu.places.blockBytes]
      refine meets_mono (ih hu (by rw [hsu.places.groupCount]; omega)) ?_ ?_
      · exact fun n w hw => ⟨hw.1, hsu.took h hw.2⟩
      · refine fun w hw => ⟨hw.1, hsu.trans hw.2.1, fun k hlow hhigh => ?_⟩
        by_cases heq : k = g
        · exact heq ▸ hfull
        · exact hsu.full h (by omega) (hw.2.2 k (by omega) (by omega))
    unfold allocateBlockFrom
    rw [bind_done hload]
    cases r with
    | false =>
      rw [if_pos rfl]
      exact hnext t hsound hsame (hnone rfl)
    | true =>
      obtain ⟨hheld, rfl⟩ := hloaded rfl
      have hgroup := (hsound.group hheld).1
      have hroom := hsound.layout.blocksInGroup_le hgroup
      have hper := hsound.layout.perGroup.2
      have hmax := hsound.layout.sized.le.2
      have harray := hsound.array
      obtain ⟨r, hfind, hfree, hall⟩ := findFreeBlock_done (v := t.volume) (b := t.context.bitmap)
        (by omega : 0 + blocksInGroup t.volume.superblock t.context.group ≤ _)
      rw [if_neg (by decide), get_bind, bind_done (onVolume_done hfind)]
      cases r with
      | none =>
        obtain ⟨u, hflush, hsound', hsame', -, hclean⟩ := flushAllocationContext_done hsound
        obtain ⟨hsound2, hsame2⟩ := @Sound.settled u hsound' hclean
          { u.context with groupLoaded := false } hsound'.array nofun nofun
        dsimp only
        rw [bind_done hflush, modify_bind]
        refine hnext _ hsound2 (hsame.trans (hsame'.trans hsame2)) (hsame.full h (by omega) (.inr ?_))
        intro i hi
        exact (if_pos ⟨hheld, rfl⟩).trans (hall rfl i (Nat.zero_le i) (by omega))
      | some i =>
        obtain ⟨hi, hclear⟩ := hfree i rfl
        rw [Nat.zero_add] at hi
        obtain ⟨hsound', htook⟩ := hsound.taken hheld hi hclear
        obtain ⟨hfirst, hlt⟩ := hsound.layout.group_first hgroup
        have hnumber : u32 (groupFirstBlock t.volume.superblock t.context.group + i) =
            t.volume.blockAt t.context.group i := by
          have hhigh := htook.data.high
          have hcount := hsound.layout.blockCount_lt
          rw [hfirst]
          exact u32_of_lt (Nat.lt_trans hhigh hcount)
        dsimp only
        rw [bind_done (onVolume_done (setBit_done (by omega))), hnumber]
        exact ⟨hsound', hsame.took h htook⟩

/-- The number of groups that the code computes may be too small, but not too large. -/
theorem Layout.codeGroups_le (h : Layout v) :
    u32 (u32sub v.superblock.blockCount v.superblock.firstDataBlock +
      v.superblock.blocksPerGroup + 2 ^ 32 - 1) / v.superblock.blocksPerGroup ≤ v.groupCount ∧
    (v.superblock.blockCount - v.superblock.firstDataBlock + v.superblock.blocksPerGroup ≤ 2 ^ 32 →
      u32 (u32sub v.superblock.blockCount v.superblock.firstDataBlock +
        v.superblock.blocksPerGroup + 2 ^ 32 - 1) / v.superblock.blocksPerGroup = v.groupCount) := by
  have hblocks := h.blocks
  have hcount := h.blockCount_lt
  have hpos := h.perGroup.1
  have hsub : u32sub v.superblock.blockCount v.superblock.firstDataBlock =
      v.superblock.blockCount - v.superblock.firstDataBlock := by
    unfold u32sub
    rw [Nat.sub_add_comm (Nat.le_of_lt hblocks), Nat.add_mod_right]
    exact Nat.mod_eq_of_lt (by omega)
  rw [hsub, Nat.sub_add_comm (by omega)]
  unfold u32
  rw [Nat.add_mod_right]
  refine ⟨Nat.div_le_div_right (Nat.mod_le _ _), fun hfit => ?_⟩
  rw [Nat.mod_eq_of_lt (by omega)]
  rfl

theorem allocateBlock_meets (h : Sound s) :
    (allocateBlock s).Meets (fun n t => Sound t ∧ Took n s t) fun t => Sound t ∧ SameUse s t ∧
      (s.volume.superblock.freeBlockCount = 0 ∨
        (s.volume.superblock.blockCount - s.volume.superblock.firstDataBlock +
          s.volume.superblock.blocksPerGroup ≤ 2 ^ 32 → ∀ g < s.volume.groupCount, s.Full g)) := by
  obtain ⟨hmin, hmax⟩ := h.layout.sized.le
  obtain ⟨hgroups, hexact⟩ := h.layout.codeGroups_le
  have hpos := h.layout.perGroup.1
  unfold allocateBlock
  rw [get_bind, bind_done (h.layout.blockSize s), require_bind ⟨by omega, hmax⟩]
  by_cases hfree : s.volume.superblock.freeBlockCount ≠ 0
  · rw [require_bind hfree, bind_done (divide_done (Nat.ne_of_gt hpos))]
    refine meets_mono (allocateBlockFrom_meets h (by omega)) (fun _ _ hdone => hdone) ?_
    intro t ⟨hsound, hsame, hfull⟩
    refine ⟨hsound, hsame, .inr fun hfit g hg => hfull g (Nat.zero_le g) ?_⟩
    rw [hexact hfit, Nat.zero_add]
    exact hg
  · rw [require_failed hfree]
    exact ⟨h, .refl s, .inl (not_not.mp hfree)⟩

/-! ## A volume of one group -/

theorem OneGroup.blocksInGroup (h : OneGroup v) : Ext2.blocksInGroup v.superblock 0 = 63 := by
  unfold Ext2.blocksInGroup groupFirstBlock
  rw [h.blocks.1, h.blocks.2.1, h.blocks.2.2]
  decide

/-- It is consistent where the parts without files are in use. -/
theorem OneGroup.sound (h : OneGroup v) (hused : ∀ i < 63, v.bitmapBit 0 i = false → 6 ≤ i) :
    Sound ⟨v, .empty⟩ where
  layout := h.layout
  array := rfl
  group := nofun
  clean := nofun
  free g hg i hi hfree := by
    obtain rfl : g = 0 := Nat.lt_one_iff.mp (h.groupCount ▸ hg)
    have hhigh : i < 63 := h.blocksInGroup ▸ hi
    have hlow := hused i hhigh hfree
    have hplace : v.blockAt 0 i = 1 + 0 * 8192 + i := by
      unfold Volume.blockAt
      rw [h.blocks.1, h.blocks.2.2]
    show v.Data (v.blockAt 0 i)
    rw [hplace]
    exact h.data (by omega) (by omega)

end MeatySkeleton.Ext2
