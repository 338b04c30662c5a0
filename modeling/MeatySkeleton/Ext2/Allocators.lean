import MeatySkeleton.Ext2.InodeAllocation
import MeatySkeleton.Ext2.Truncating

/-!
# Both allocators

Allocations of blocks and inodes, and frees of blocks, one after the other, on a volume whose
counts are those of its bitmaps (`Consistent`). Each allocation hands out an object that was
free, and marks and counts that one only, and no object is handed out twice without a free
(`allocatorRun_correct`).

The allocators give up although objects are free where the number of groups does not fit 32
bits, and `ext2_allocate_inode` on a volume of revision 0 without the size of a record in its
superblock. And a context that is dropped with a dirty bitmap takes its allocations along: a
write that fails between two blocks does that.
-/

namespace MeatySkeleton.Ext2

open Lib Lib.Effect

/-- What an allocator hands out. -/
inductive Object where
  | block (n : Nat)
  | inode (n : Nat)
deriving DecidableEq

namespace Object

variable (v : Volume) (g i : Nat)

/-- Whether it has bit `i` in the block bitmap of group `g`. -/
def marksBlock : Option Object → Bool
  | some (block n) => decide (v.groupOf n = g ∧ v.bitOf n = i)
  | _ => false

def marksInode : Option Object → Bool
  | some (inode n) => decide (v.inodeGroup n = g ∧ v.inodeIndex n = i)
  | _ => false

/-- What it takes from the count of free blocks of group `g`. -/
def blocksIn : Option Object → Nat
  | some (block n) => if v.groupOf n = g then 1 else 0
  | _ => 0

def inodesIn : Option Object → Nat
  | some (inode n) => if v.inodeGroup n = g then 1 else 0
  | _ => 0

/-- What it takes from the count of free blocks of the superblock. -/
def blocks : Option Object → Nat
  | some (block _) => 1
  | _ => 0

def inodes : Option Object → Nat
  | some (inode _) => 1
  | _ => 0

end Object

namespace Allocating

variable (s : Allocating)

/-- The blocks that are not in use. -/
def freeBlocks : Finset Nat :=
  (Finset.range s.volume.superblock.blockCount).filter fun n =>
    s.volume.superblock.firstDataBlock ≤ n ∧ s.used n = false

def freeBlocksIn (g : Nat) : Finset Nat := s.freeBlocks.filter fun n => s.volume.groupOf n = g

/-- The inodes that are not in use. -/
def freeInodes : Finset Nat :=
  (Finset.range (s.volume.superblock.inodeCount + 1)).filter fun n =>
    0 < n ∧ s.volume.inodeUsed n = false

def freeInodesIn (g : Nat) : Finset Nat :=
  s.freeInodes.filter fun n => s.volume.inodeGroup n = g

/-- Whether an object of the volume is free: a block for files, or an inode that is not
reserved. -/
def Free : Object → Prop
  | .block n => s.volume.Data n ∧ s.used n = false
  | .inode n => s.volume.Usable n ∧ s.volume.inodeUsed n = false

/-- Whether an object of the volume is in use. -/
def InUse : Object → Prop
  | .block n => (s.volume.superblock.firstDataBlock ≤ n ∧ n < s.volume.superblock.blockCount) ∧
      s.used n = true
  | .inode n => (0 < n ∧ n ≤ s.volume.superblock.inodeCount) ∧ s.volume.inodeUsed n = true

/-- The same with a volume as the format describes it. -/
def formatted : Allocating := { s with volume := s.volume.formatted }

end Allocating

def Allocating.resized (size : Nat) (s : Allocating) : Allocating :=
  { s with volume := s.volume.resized size }

open Allocating (resized)

/-- A consistent volume with its context, whose counts are those of the bitmaps. -/
structure Consistent (s : Allocating) : Prop where
  sound : Sound s
  blocks : ∀ g < s.volume.groupCount, (s.descriptor g).freeBlocksCount = (s.freeBlocksIn g).card
  blockTotal : s.volume.superblock.freeBlockCount = s.freeBlocks.card
  inodes : ∀ g < s.volume.groupCount, (s.descriptor g).freeInodesCount = (s.freeInodesIn g).card
  inodeTotal : s.volume.superblock.freeInodeCount = s.freeInodes.card

/-- The bits and the counts change by this object, and by nothing else. -/
structure Hands (o : Option Object) (s t : Allocating) : Prop where
  places : SamePlaces s.volume t.volume
  bits : ∀ g < s.volume.groupCount, ∀ i < 8 * s.volume.blockBytes,
    t.bit g i = (s.bit g i || Object.marksBlock s.volume g i o)
  inodeBits : ∀ g < s.volume.groupCount, ∀ i < 8 * s.volume.blockBytes,
    t.volume.inodeBit g i = (s.volume.inodeBit g i || Object.marksInode s.volume g i o)
  blocks : ∀ g < s.volume.groupCount, (s.descriptor g).freeBlocksCount =
    (t.descriptor g).freeBlocksCount + Object.blocksIn s.volume g o
  blockTotal : s.volume.superblock.freeBlockCount =
    t.volume.superblock.freeBlockCount + Object.blocks o
  inodes : ∀ g < s.volume.groupCount, (s.descriptor g).freeInodesCount =
    (t.descriptor g).freeInodesCount + Object.inodesIn s.volume g o
  inodeTotal : s.volume.superblock.freeInodeCount =
    t.volume.superblock.freeInodeCount + Object.inodes o

variable {s t : Allocating} {v w : Volume} {o : Option Object} {g i n k x : Nat}

/-! ## Free objects -/

theorem mem_freeBlocks' : n ∈ s.freeBlocks ↔ n < s.volume.superblock.blockCount ∧
    s.volume.superblock.firstDataBlock ≤ n ∧ s.used n = false := by
  unfold Allocating.freeBlocks
  rw [Finset.mem_filter, Finset.mem_range]

theorem mem_freeBlocksIn : n ∈ s.freeBlocksIn g ↔ n ∈ s.freeBlocks ∧ s.volume.groupOf n = g := by
  unfold Allocating.freeBlocksIn
  rw [Finset.mem_filter]

theorem mem_freeInodes : n ∈ s.freeInodes ↔ n ≤ s.volume.superblock.inodeCount ∧ 0 < n ∧
    s.volume.inodeUsed n = false := by
  unfold Allocating.freeInodes
  rw [Finset.mem_filter, Finset.mem_range, Nat.lt_succ_iff]

theorem mem_freeInodesIn : n ∈ s.freeInodesIn g ↔ n ∈ s.freeInodes ∧ s.volume.inodeGroup n = g := by
  unfold Allocating.freeInodesIn
  rw [Finset.mem_filter]

/-- The place of a block in its group. -/
theorem Layout.bitOf_inGroup (h : Layout v) (hlow : v.superblock.firstDataBlock ≤ n)
    (hhigh : n < v.superblock.blockCount) : v.bitOf n < blocksInGroup v.superblock (v.groupOf n) ∧
      v.blockAt (v.groupOf n) (v.bitOf n) = n := by
  obtain ⟨hfirst, hlt⟩ := h.group_first (h.groupOf_lt hlow hhigh)
  have hcount := h.blockCount_lt
  have hbit : v.bitOf n < v.superblock.blocksPerGroup := Nat.mod_lt _ h.perGroup.1
  have hdiv := Nat.div_add_mod (n - v.superblock.firstDataBlock) v.superblock.blocksPerGroup
  change v.superblock.blocksPerGroup * v.groupOf n + v.bitOf n = _ at hdiv
  rw [Nat.mul_comm] at hdiv
  refine ⟨?_, ?_⟩
  · unfold blocksInGroup
    rw [hfirst]
    split
    next hpast =>
      have hsub : u32sub v.superblock.blockCount (v.superblock.firstDataBlock +
          v.groupOf n * v.superblock.blocksPerGroup) = v.superblock.blockCount -
            (v.superblock.firstDataBlock + v.groupOf n * v.superblock.blocksPerGroup) := by
        unfold u32sub
        rw [Nat.sub_add_comm (Nat.le_of_lt hlt), Nat.add_mod_right]
        exact Nat.mod_eq_of_lt (by omega)
      rw [hsub]
      omega
    next => exact hbit
  · unfold Volume.blockAt
    omega

/-- A block that is not in use is a block for files. -/
theorem Sound.data (h : Sound s) (hn : n ∈ s.freeBlocks) : s.volume.Data n := by
  obtain ⟨hhigh, hlow, hfree⟩ := mem_freeBlocks'.mp hn
  obtain ⟨hbit, hplace⟩ := h.layout.bitOf_inGroup hlow hhigh
  have hdata := h.free _ (h.layout.groupOf_lt hlow hhigh) _ hbit hfree
  rwa [hplace] at hdata

theorem Sound.free_iff (h : Sound s) : s.Free (.block n) ↔ n ∈ s.freeBlocks := by
  constructor
  · intro ⟨hdata, hfree⟩
    exact mem_freeBlocks'.mpr ⟨hdata.high, hdata.low, hfree⟩
  · intro hn
    exact ⟨h.data hn, (mem_freeBlocks'.mp hn).2.2⟩

/-- No block of a full group is free. -/
theorem Consistent.full (h : Consistent s) (hg : g < s.volume.groupCount) (hfull : s.Full g)
    (hn : s.Free (.block n)) : s.volume.groupOf n ≠ g := by
  intro heq
  have hfree := h.sound.free_iff.mp hn
  rcases hfull with hnone | hall
  · rw [h.blocks g hg, Finset.card_eq_zero] at hnone
    have hmem := mem_freeBlocksIn.mpr ⟨hfree, heq⟩
    rw [hnone] at hmem
    exact Finset.notMem_empty n hmem
  · obtain ⟨hbit, -⟩ := h.sound.layout.bitOf_inGroup hn.1.low hn.1.high
    have hused := hall (s.volume.bitOf n) (heq ▸ hbit)
    have hfree' : s.bit (s.volume.groupOf n) (s.volume.bitOf n) = false := hn.2
    rw [heq, hused] at hfree'
    cases hfree'

theorem Consistent.none_free (h : Consistent s) (hnone : s.volume.superblock.freeBlockCount = 0) :
    ¬s.Free (.block n) := by
  intro hn
  have hmem := h.sound.free_iff.mp hn
  rw [h.blockTotal, Finset.card_eq_zero] at hnone
  rw [hnone] at hmem
  exact Finset.notMem_empty n hmem

/-- An inode that is free is one of those that are not in use. -/
theorem mem_of_free (hn : s.Free (.inode n)) : n ∈ s.freeInodes :=
  mem_freeInodes.mpr ⟨hn.1.high, hn.1.positive, hn.2⟩

/-! ## What is handed out -/

theorem Hands.used (h : Hands o s t) (hs : Layout s.volume) (hlow : s.volume.superblock.firstDataBlock ≤ k)
    (hhigh : k < s.volume.superblock.blockCount) : t.used k =
      (s.used k || Object.marksBlock s.volume (s.volume.groupOf k) (s.volume.bitOf k) o) := by
  unfold Allocating.used
  rw [h.places.groupOf, h.places.bitOf]
  exact h.bits _ (hs.groupOf_lt hlow hhigh) _ (hs.bitOf_lt k)

theorem SamePlaces.inodeGroup (h : SamePlaces v w) (n : Nat) : w.inodeGroup n = v.inodeGroup n := by
  unfold Volume.inodeGroup
  rw [h.inodesPerGroup]

theorem SamePlaces.inodeIndex (h : SamePlaces v w) (n : Nat) : w.inodeIndex n = v.inodeIndex n := by
  unfold Volume.inodeIndex
  rw [h.inodesPerGroup]

theorem Hands.inodeUsed (h : Hands o s t) (hs : Layout s.volume) (hpos : 0 < k)
    (hhigh : k ≤ s.volume.superblock.inodeCount) : t.volume.inodeUsed k = (s.volume.inodeUsed k ||
      Object.marksInode s.volume (s.volume.inodeGroup k) (s.volume.inodeIndex k) o) := by
  unfold Volume.inodeUsed
  rw [h.places.inodeGroup, h.places.inodeIndex]
  exact h.inodeBits _ (hs.inodeGroup_lt hpos hhigh) _ (hs.inodeIndex_lt k)

/-- Inodes have different bits. -/
theorem inodePlace_inj (hn : 0 < n) (hk : 0 < k) (hgroup : v.inodeGroup n = v.inodeGroup k)
    (hindex : v.inodeIndex n = v.inodeIndex k) : n = k := by
  have hdiv := Nat.div_add_mod (n - 1) v.superblock.inodesPerGroup
  have hdiv' := Nat.div_add_mod (k - 1) v.superblock.inodesPerGroup
  unfold Volume.inodeGroup at hgroup
  unfold Volume.inodeIndex at hindex
  rw [hgroup, hindex, hdiv'] at hdiv
  omega

/-- The free blocks are those from before without the one that is handed out. -/
theorem Hands.freeBlocks (h : Hands o s t) (hs : Sound s) (hfree : ∀ o', o = some o' → s.Free o') :
    n ∈ t.freeBlocks ↔ n ∈ s.freeBlocks ∧ o ≠ some (.block n) := by
  rw [mem_freeBlocks', mem_freeBlocks', h.places.blockCount, h.places.firstDataBlock]
  constructor
  · intro ⟨hhigh, hlow, hused⟩
    rw [h.used hs.layout hlow hhigh, Bool.or_eq_false_iff] at hused
    refine ⟨⟨hhigh, hlow, hused.1⟩, fun heq => ?_⟩
    have hmarks := hused.2
    rw [heq] at hmarks
    exact of_decide_eq_false hmarks ⟨rfl, rfl⟩
  · intro ⟨⟨hhigh, hlow, hused⟩, hne⟩
    refine ⟨hhigh, hlow, ?_⟩
    rw [h.used hs.layout hlow hhigh, hused, Bool.false_or]
    unfold Object.marksBlock
    split
    next k =>
      have hk := hfree _ rfl
      refine decide_eq_false fun hboth => hne ?_
      rw [place_inj hk.1.low hlow hboth.1 hboth.2]
    next => rfl

theorem Hands.freeInodes (h : Hands o s t) (hs : Sound s) (hfree : ∀ o', o = some o' → s.Free o') :
    n ∈ t.freeInodes ↔ n ∈ s.freeInodes ∧ o ≠ some (.inode n) := by
  rw [mem_freeInodes, mem_freeInodes, h.places.inodeCount]
  constructor
  · intro ⟨hhigh, hpos, hused⟩
    rw [h.inodeUsed hs.layout hpos hhigh, Bool.or_eq_false_iff] at hused
    refine ⟨⟨hhigh, hpos, hused.1⟩, fun heq => ?_⟩
    have hmarks := hused.2
    rw [heq] at hmarks
    exact of_decide_eq_false hmarks ⟨rfl, rfl⟩
  · intro ⟨⟨hhigh, hpos, hused⟩, hne⟩
    refine ⟨hhigh, hpos, ?_⟩
    rw [h.inodeUsed hs.layout hpos hhigh, hused, Bool.false_or]
    unfold Object.marksInode
    split
    next k =>
      have hk := hfree _ rfl
      refine decide_eq_false fun hboth => hne ?_
      rw [inodePlace_inj hk.1.positive hpos hboth.1 hboth.2]
    next => rfl

/-! ## Counts -/

theorem card_without {A B : Finset Nat} (hn : n ∈ A) (h : ∀ k, k ∈ B ↔ k ∈ A ∧ k ≠ n) :
    A.card = B.card + 1 := by
  have hB : B = A.erase n := by
    ext k
    rw [h, Finset.mem_erase]
    exact And.comm
  rw [hB]
  exact (Finset.card_erase_add_one hn).symm

theorem card_same {A B : Finset Nat} (h : ∀ k, k ∈ B ↔ k ∈ A) : A.card = B.card :=
  congrArg Finset.card (Finset.ext h).symm

/-- Without `n`, which is in the set if `p` holds. -/
theorem card_without_if {A B : Finset Nat} (p : Prop) [Decidable p] (hn : n ∈ A ↔ p)
    (h : ∀ k, k ∈ B ↔ k ∈ A ∧ k ≠ n) : A.card = B.card + if p then 1 else 0 := by
  split
  next hp => exact card_without (hn.mpr hp) h
  next hp =>
    exact card_same fun k => (h k).trans (and_iff_left_of_imp fun hk heq => hp (hn.mp (heq ▸ hk)))

theorem block_ne : some (Object.block n) ≠ some (.block k) ↔ k ≠ n := by
  rw [ne_comm, ne_eq, Option.some.injEq, Object.block.injEq]

theorem inode_ne : some (Object.inode n) ≠ some (.inode k) ↔ k ≠ n := by
  rw [ne_comm, ne_eq, Option.some.injEq, Object.inode.injEq]

section
variable (h : Hands o s t) (hs : Sound s) (hfree : ∀ o', o = some o' → s.Free o')
include h hs hfree

theorem Hands.mem_blocksIn : n ∈ t.freeBlocksIn g ↔ n ∈ s.freeBlocksIn g ∧ o ≠ some (.block n) := by
  rw [mem_freeBlocksIn, mem_freeBlocksIn, h.places.groupOf, h.freeBlocks hs hfree]
  exact and_right_comm

theorem Hands.mem_inodesIn : n ∈ t.freeInodesIn g ↔ n ∈ s.freeInodesIn g ∧ o ≠ some (.inode n) := by
  rw [mem_freeInodesIn, mem_freeInodesIn, h.places.inodeGroup, h.freeInodes hs hfree]
  exact and_right_comm

theorem Hands.card_blocks : s.freeBlocks.card = t.freeBlocks.card + Object.blocks o := by
  have hmem := fun k => h.freeBlocks (n := k) hs hfree
  cases o with
  | none => exact card_same fun k => (hmem k).trans (and_iff_left nofun)
  | some o =>
    cases o with
    | block n =>
      refine card_without (hs.free_iff.mp (hfree _ rfl)) fun k => (hmem k).trans ?_
      exact and_congr_right fun _ => block_ne
    | inode n => exact card_same fun k => (hmem k).trans (and_iff_left nofun)

theorem Hands.card_inodes : s.freeInodes.card = t.freeInodes.card + Object.inodes o := by
  have hmem := fun k => h.freeInodes (n := k) hs hfree
  cases o with
  | none => exact card_same fun k => (hmem k).trans (and_iff_left nofun)
  | some o =>
    cases o with
    | block n => exact card_same fun k => (hmem k).trans (and_iff_left nofun)
    | inode n =>
      refine card_without (mem_of_free (hfree _ rfl)) fun k => (hmem k).trans ?_
      exact and_congr_right fun _ => inode_ne

theorem Hands.card_blocksIn (g : Nat) : (s.freeBlocksIn g).card =
    (t.freeBlocksIn g).card + Object.blocksIn s.volume g o := by
  have hmem := fun k => h.mem_blocksIn (n := k) (g := g) hs hfree
  cases o with
  | none => exact card_same fun k => (hmem k).trans (and_iff_left nofun)
  | some o =>
    cases o with
    | block n =>
      have hn := hs.free_iff.mp (hfree _ rfl)
      refine card_without_if _ (mem_freeBlocksIn.trans (and_iff_right hn)) fun k => (hmem k).trans ?_
      exact and_congr_right fun _ => block_ne
    | inode n => exact card_same fun k => (hmem k).trans (and_iff_left nofun)

theorem Hands.card_inodesIn (g : Nat) : (s.freeInodesIn g).card =
    (t.freeInodesIn g).card + Object.inodesIn s.volume g o := by
  have hmem := fun k => h.mem_inodesIn (n := k) (g := g) hs hfree
  cases o with
  | none => exact card_same fun k => (hmem k).trans (and_iff_left nofun)
  | some o =>
    cases o with
    | block n => exact card_same fun k => (hmem k).trans (and_iff_left nofun)
    | inode n =>
      have hn := mem_of_free (hfree _ rfl)
      refine card_without_if _ (mem_freeInodesIn.trans (and_iff_right hn)) fun k => (hmem k).trans ?_
      exact and_congr_right fun _ => inode_ne

end

/-- Handing out and giving back leave the counts those of the bitmaps. -/
theorem Hands.consistent_iff (h : Hands o s t) (hs : Sound s) (ht : Sound t)
    (hfree : ∀ o', o = some o' → s.Free o') : Consistent s ↔ Consistent t := by
  have hgroups := h.places.groupCount
  have hblocks : ∀ g < s.volume.groupCount,
      (s.descriptor g).freeBlocksCount = (s.freeBlocksIn g).card ↔
        (t.descriptor g).freeBlocksCount = (t.freeBlocksIn g).card := by
    intro g hg
    rw [h.blocks g hg, h.card_blocksIn hs hfree g, Nat.add_right_cancel_iff]
  have hinodes : ∀ g < s.volume.groupCount,
      (s.descriptor g).freeInodesCount = (s.freeInodesIn g).card ↔
        (t.descriptor g).freeInodesCount = (t.freeInodesIn g).card := by
    intro g hg
    rw [h.inodes g hg, h.card_inodesIn hs hfree g, Nat.add_right_cancel_iff]
  have htotal := h.blockTotal
  have hcard := h.card_blocks hs hfree
  have hinodeTotal := h.inodeTotal
  have hinodeCard := h.card_inodes hs hfree
  constructor
  · intro hc
    obtain ⟨-, -, hc1, -, hc2⟩ := id hc
    refine ⟨ht, fun g hg => (hblocks g (hgroups ▸ hg)).mp (hc.blocks g (hgroups ▸ hg)), by omega,
      fun g hg => (hinodes g (hgroups ▸ hg)).mp (hc.inodes g (hgroups ▸ hg)), by omega⟩
  · intro hc
    obtain ⟨-, -, hc1, -, hc2⟩ := id hc
    exact ⟨hs, fun g hg => (hblocks g hg).mpr (hc.blocks g (hgroups ▸ hg)), by omega,
      fun g hg => (hinodes g hg).mpr (hc.inodes g (hgroups ▸ hg)), by omega⟩

theorem Hands.consistent (h : Hands o s t) (hs : Consistent s) (ht : Sound t)
    (hfree : ∀ o', o = some o' → s.Free o') : Consistent t :=
  (h.consistent_iff hs.sound ht hfree).mp hs

/-! ## The counts of a descriptor -/

section
variable {d d' : GroupDescriptor} {c : Nat}

theorem counts_congr (h : ∀ x < GroupDescriptor.bytes, d' x = d x) :
    d'.freeBlocksCount = d.freeBlocksCount ∧ d'.freeInodesCount = d.freeInodesCount := by
  unfold GroupDescriptor.bytes at h
  exact ⟨get16_congr fun k hk => h _ (by omega), get16_congr fun k hk => h _ (by omega)⟩

theorem setFreeBlocksCount_counts (h : ∀ x < GroupDescriptor.bytes, d' x = d.setFreeBlocksCount c x) :
    d'.freeBlocksCount = c % 2 ^ 16 ∧ d'.freeInodesCount = d.freeInodesCount := by
  obtain ⟨hblocks, hinodes⟩ := counts_congr h
  exact ⟨hblocks.trans (get16_put16 _ _ _),
    hinodes.trans ((put16_within _ _ _).get16 (.inr (Nat.le_refl _)))⟩

theorem setFreeInodesCount_counts (h : ∀ x < GroupDescriptor.bytes, d' x = d.setFreeInodesCount c x) :
    d'.freeInodesCount = c % 2 ^ 16 ∧ d'.freeBlocksCount = d.freeBlocksCount := by
  obtain ⟨hblocks, hinodes⟩ := counts_congr h
  exact ⟨hinodes.trans (get16_put16 _ _ _),
    hblocks.trans ((put16_within _ _ _).get16 (.inl (Nat.le_refl _)))⟩

end

/-! ## Blocks -/

/-- The inode bitmaps are away from the block bitmaps and the descriptors. -/
theorem Layout.outside_inodeBitmap (h : Layout v) (hg : g < v.groupCount) (hi : i < 8 * v.blockBytes) :
    v.OutsideMaps ((v.descriptor g).inodeBitmap * v.blockBytes + i / 8) := by
  have hvalid : (Area.inodeBitmap g).Valid v := hg
  have hcovered := inodeBitmap_covered (v := v) g hi
  refine ⟨fun g' hg' => ?_, fun g' hg' => ?_⟩
  · have hvalid' : (Area.blockBitmap g').Valid v := hg'
    have happart := h.covers_apart hvalid hvalid' nofun hcovered (h.bitmap_block g')
    rw [Nat.succ_mul]
    omega
  · have happart := h.covers_apart (b := .descriptors) hvalid trivial nofun hcovered
      (h.descriptor_covered hg')
    omega

theorem Layout.inodeBit_kept (h : Layout s.volume) (hplaces : SamePlaces s.volume t.volume)
    (helse : ∀ x, s.volume.OutsideMaps x → t.volume.image x = s.volume.image x)
    (hg : g < s.volume.groupCount) (hi : i < 8 * s.volume.blockBytes) :
    t.volume.inodeBit g i = s.volume.inodeBit g i := by
  have hbitmap : (t.volume.descriptor g).inodeBitmap = (s.volume.descriptor g).inodeBitmap :=
    hplaces.place hg (by decide)
  unfold Volume.inodeBit
  rw [hbitmap, hplaces.blockBytes, helse _ (h.outside_inodeBitmap hg hi)]

theorem SameUse.hands (h : SameUse s t) (hs : Sound s) : Hands none s t where
  places := h.places
  bits g hg i hi := (h.bits g hg i hi).trans (Bool.or_false _).symm
  inodeBits g hg i hi :=
    (hs.layout.inodeBit_kept h.places h.elsewhere hg hi).trans (Bool.or_false _).symm
  blocks g hg := (h.count hg).symm
  blockTotal := by
    rw [h.superblock]
    rfl
  inodes g hg := (counts_congr (h.descriptors g hg)).2.symm
  inodeTotal := by
    rw [h.superblock]
    rfl

theorem Took.free (h : Took n s t) : s.Free (.block n) := ⟨h.data, h.fresh⟩

theorem Took.hands (h : Took n s t) (hs : Consistent s) : Hands (some (.block n)) s t where
  places := h.places
  bits := h.bits
  inodeBits g hg i hi :=
    (hs.sound.layout.inodeBit_kept h.places h.elsewhere hg hi).trans (Bool.or_false _).symm
  blocks g hg := by
    have hbytes := h.descriptors g hg
    show _ = _ + if s.volume.groupOf n = g then 1 else 0
    split at hbytes
    next hgroup =>
      have hmem := mem_freeBlocksIn.mpr ⟨hs.sound.free_iff.mp h.free, hgroup⟩
      have hpos := Finset.card_pos.mpr ⟨n, hmem⟩
      have hlt : (s.descriptor g).freeBlocksCount < 2 ^ 16 := get16_lt _ _
      rw [← hs.blocks g hg] at hpos
      rw [(setFreeBlocksCount_counts hbytes).1, if_pos hgroup]
      omega
    next hgroup => rw [(counts_congr hbytes).1, if_neg hgroup, Nat.add_zero]
  blockTotal := by
    have hmem := hs.sound.free_iff.mp h.free
    have hpos := Finset.card_pos.mpr ⟨n, hmem⟩
    have hlt : s.volume.superblock.freeBlockCount < 2 ^ 32 := get32_lt _ _
    rw [← hs.blockTotal] at hpos
    rw [h.superblock]
    have hput : (s.volume.superblock.setFreeBlockCount
        (s.volume.superblock.freeBlockCount - 1)).freeBlockCount = _ := get32_put32 _ _ _
    rw [hput]
    show _ = _ + 1
    omega
  inodes g hg := by
    have hbytes := h.descriptors g hg
    split at hbytes
    next => exact (setFreeBlocksCount_counts hbytes).2.symm
    next => exact (counts_congr hbytes).2.symm
  inodeTotal := by
    rw [h.superblock]
    exact ((put32_within _ _ _).get32 (.inr (by decide))).symm

/-! ## Inodes -/

section
variable (hs : Consistent s) (hcontext : s.context.groupLoaded = false)
include hs hcontext

omit hs in
theorem unloaded (w : Volume) (g : Nat) : s.descriptor g = s.volume.descriptor g ∧ (∀ i, s.bit g i = s.volume.bitmapBit g i) ∧
      Allocating.descriptor { s with volume := w } g = w.descriptor g ∧
      ∀ i, Allocating.bit { s with volume := w } g i = w.bitmapBit g i := by
  have hnot : ¬(s.context.groupLoaded = true ∧ s.context.group = g) := by
    intro hboth
    rw [hcontext] at hboth
    cases hboth.1
  exact ⟨if_neg hnot, fun _ => if_neg hnot, if_neg hnot, fun _ => if_neg hnot⟩

/-- Another volume with the same parts, whose free blocks are blocks for files. -/
theorem Sound.replaced (hplaces : SamePlaces s.volume w)
    (hfree : ∀ g < s.volume.groupCount, ∀ i < blocksInGroup s.volume.superblock g,
      w.bitmapBit g i = false → s.volume.Data (s.volume.blockAt g i)) :
    Sound { s with volume := w } where
  layout := hplaces.layout hs.sound.layout
  array := hs.sound.array
  group hloaded := by
    rw [hcontext] at hloaded
    cases hloaded
  clean hloaded := by
    rw [hcontext] at hloaded
    cases hloaded
  free g hg i hi hbit := by
    obtain ⟨-, -, -, hafter⟩ := unloaded hcontext w g
    have hi' : i < blocksInGroup s.volume.superblock g := by
      have hcount : w.superblock.blockCount = s.volume.superblock.blockCount := hplaces.blockCount
      have hfirst : w.superblock.firstDataBlock = s.volume.superblock.firstDataBlock :=
        hplaces.firstDataBlock
      have hper : w.superblock.blocksPerGroup = s.volume.superblock.blocksPerGroup :=
        hplaces.blocksPerGroup
      unfold blocksInGroup groupFirstBlock at hi ⊢
      rw [hcount, hfirst, hper] at hi
      exact hi
    have hblock : w.blockAt g i = s.volume.blockAt g i := by
      unfold Volume.blockAt
      rw [hplaces.firstDataBlock, hplaces.blocksPerGroup]
    rw [hafter] at hbit
    show w.Data (w.blockAt g i)
    rw [hblock]
    exact hplaces.data (hfree g (hplaces.groupCount ▸ hg) i hi' hbit)

theorem TookInode.sound (h : TookInode n s.volume w) : Sound { s with volume := w } := by
  refine Sound.replaced hs hcontext h.places fun g hg i hi hbit => ?_
  obtain ⟨-, hbefore, -⟩ := unloaded hcontext w g
  rw [h.bits g hg i (hs.sound.layout.bit_lt hg hi), ← hbefore] at hbit
  exact hs.sound.free g hg i hi hbit

theorem TookInode.hands (h : TookInode n s.volume w) :
    Hands (some (.inode n)) s { s with volume := w } where
  places := h.places
  bits g hg i hi := by
    obtain ⟨-, hbefore, -, hafter⟩ := unloaded hcontext w g
    rw [hafter, hbefore, h.bits g hg i hi]
    exact (Bool.or_false _).symm
  inodeBits := h.inodeBits
  blocks g hg := by
    obtain ⟨hbefore, -, hafter, -⟩ := unloaded hcontext w g
    have hbytes := h.descriptors g hg
    rw [hafter, hbefore]
    split at hbytes
    next => exact (setFreeInodesCount_counts hbytes).2.symm
    next => exact (counts_congr hbytes).1.symm
  blockTotal := by
    show _ = w.superblock.freeBlockCount + 0
    rw [h.superblock]
    exact ((put32_within _ _ _).get32 (.inl (by decide))).symm
  inodes g hg := by
    obtain ⟨hbefore, -, hafter, -⟩ := unloaded hcontext w g
    have hbytes := h.descriptors g hg
    have hcount := hs.inodes g hg
    rw [hafter, hbefore]
    rw [hbefore] at hcount
    show _ = _ + if s.volume.inodeGroup n = g then 1 else 0
    split at hbytes
    next hgroup =>
      have hmem : n ∈ s.freeInodesIn g := mem_freeInodesIn.mpr
        ⟨mem_freeInodes.mpr ⟨h.usable.high, h.usable.positive, h.fresh⟩, hgroup⟩
      have hpos := Finset.card_pos.mpr ⟨n, hmem⟩
      have hlt : (s.volume.descriptor g).freeInodesCount < 2 ^ 16 := get16_lt _ _
      rw [if_pos hgroup, (setFreeInodesCount_counts hbytes).1]
      omega
    next hgroup => rw [if_neg hgroup, Nat.add_zero, (counts_congr hbytes).2]
  inodeTotal := by
    have hmem : n ∈ s.freeInodes := mem_freeInodes.mpr ⟨h.usable.high, h.usable.positive, h.fresh⟩
    have hpos := Finset.card_pos.mpr ⟨n, hmem⟩
    have hlt : s.volume.superblock.freeInodeCount < 2 ^ 32 := get32_lt _ _
    have hput : (s.volume.superblock.setFreeInodeCount
        (s.volume.superblock.freeInodeCount - 1)).freeInodeCount = _ := get32_put32 _ _ _
    rw [← hs.inodeTotal] at hpos
    show _ = w.superblock.freeInodeCount + 1
    rw [h.superblock, hput]
    omega

end

/-! ## Frees -/

section
variable (h : Layout v) (hn : v.CanFree n) (hg : g < v.groupCount)
include h hn hg

/-- A free leaves the inode bitmaps and the counts of inodes alone. -/
theorem freed_inodeBit (hi : i < 8 * v.blockBytes) : (v.freed n).inodeBit g i = v.inodeBit g i := by
  have hsame := h.freed_same hn.low hn.high
  have hg' := h.groupOf_lt hn.low hn.high
  have hvalid : (Area.inodeBitmap g).Valid v := hg
  have hvalid' : (Area.blockBitmap (v.groupOf n)).Valid v := hg'
  have hcovered := inodeBitmap_covered (v := v) g hi
  have hbit := h.covers_apart hvalid hvalid' nofun hcovered (bitmap_covered _ (h.bitOf_lt n))
  have hcount := h.covers_apart (b := .descriptors) hvalid trivial nofun hcovered
    (h.descriptor_covered hg')
  have hsuper := h.covers_apart (b := .superblock) hvalid trivial nofun hcovered
    h.superblock_covered
  have hbitmap : ((v.freed n).descriptor g).inodeBitmap = (v.descriptor g).inodeBitmap :=
    hsame.place hg (by decide)
  change _ ≤ v.bitAddress n ∨ v.bitAddress n + 1 ≤ _ at hbit
  unfold GroupDescriptor.bytes at hcount
  unfold Volume.inodeBit
  rw [hbitmap, hsame.blockBytes,
    freed_image (by omega) (by omega) (by unfold Superblock.bytes; omega)]

theorem freed_freeInodesCount :
    ((v.freed n).descriptor g).freeInodesCount = (v.descriptor g).freeInodesCount := by
  refine get16_congr fun k hk => ?_
  obtain ⟨hsuper, hbit⟩ := hn.descriptor_apart h hg
  show (v.freed n).image ((v.freed n).descriptorAddress g + (14 + k)) =
    v.image (v.descriptorAddress g + (14 + k))
  rw [(h.freed_same hn.low hn.high).descriptorAddress]
  refine freed_image (by omega) ?_ (by unfold Superblock.bytes; omega)
  unfold Volume.descriptorAddress GroupDescriptor.bytes
  omega

end

section
variable (hs : Consistent s) (hcontext : s.context.groupLoaded = false)
include hs hcontext

theorem Consistent.counted : Counted s.volume := by
  have hused : ∀ k, s.used k = s.volume.usedBit k := fun k => (unloaded hcontext s.volume _).2.1 _
  have hblocks : s.freeBlocks = s.volume.freeBlocks := by
    unfold Allocating.freeBlocks Volume.freeBlocks
    simp only [hused]
  refine ⟨fun g hg => ?_, hblocks ▸ hs.blockTotal⟩
  have hcount := hs.blocks g hg
  rw [(unloaded hcontext s.volume g).1] at hcount
  rw [hcount, Allocating.freeBlocksIn, hblocks]
  rfl

variable (hn : s.volume.CanFree n)
include hn

/-- A free is the reverse of an allocation. -/
theorem freed_hands : Hands (some (.block n)) { s with volume := s.volume.freed n } s := by
  have hl := hs.sound.layout
  have hc := hs.counted hcontext
  have hsame := hl.freed_same hn.low hn.high
  have hfreed := freed_counted hl hn hc
  have hgroups : (s.volume.freed n).groupCount = s.volume.groupCount := hsame.groupCount
  refine
    { places := hsame.symm
      bits := fun g hg i hi => ?_
      inodeBits := fun g hg i hi => ?_
      blocks := fun g hg => ?_
      blockTotal := ?_
      inodes := fun g hg => ?_
      inodeTotal := ((put32_within _ _ _).get32 (.inr (by decide))) }
  · obtain ⟨-, hbit, -, hbit'⟩ := unloaded hcontext (s.volume.freed n) g
    replace hg : g < s.volume.groupCount := hgroups ▸ hg
    replace hi : i < 8 * s.volume.blockBytes := hsame.blockBytes ▸ hi
    rw [hbit', hbit, freed_bit hl hn hg hi]
    show _ = (_ || decide ((s.volume.freed n).groupOf n = g ∧ (s.volume.freed n).bitOf n = i))
    rw [hsame.groupOf, hsame.bitOf]
    by_cases hplace : s.volume.groupOf n = g ∧ s.volume.bitOf n = i
    · have hused : s.volume.bitmapBit (s.volume.groupOf n) (s.volume.bitOf n) = true := hn.used
      rw [hplace.1, hplace.2] at hused
      rw [hused, decide_eq_true hplace]
      rfl
    · rw [decide_eq_false hplace, Bool.not_false, Bool.and_true, Bool.or_false]
  · rw [freed_inodeBit hl hn (hgroups ▸ hg) (hsame.blockBytes ▸ hi)]
    exact (Bool.or_false _).symm
  · obtain ⟨hbefore, -, hafter, -⟩ := unloaded hcontext (s.volume.freed n) g
    rw [hafter, hbefore, hfreed.groups g hg, freed_freeIn_card hl hn, ← hc.groups g (hgroups ▸ hg)]
    show _ = _ + if (s.volume.freed n).groupOf n = g then 1 else 0
    rw [hsame.groupOf]
  · show (s.volume.freed n).superblock.freeBlockCount = _ + 1
    rw [hfreed.total, freed_freeBlocks_card hl hn, ← hc.total]
  · obtain ⟨hbefore, -, hafter, -⟩ := unloaded hcontext (s.volume.freed n) g
    rw [hafter, hbefore, freed_freeInodesCount hl hn (hgroups ▸ hg)]
    rfl

theorem freed_consistent (hdata : s.volume.Data n) :
    Consistent { s with volume := s.volume.freed n } ∧
      Allocating.Free { s with volume := s.volume.freed n } (.block n) := by
  have hl := hs.sound.layout
  have hsame := hl.freed_same hn.low hn.high
  have hsound : Sound { s with volume := s.volume.freed n } := by
    refine Sound.replaced hs hcontext hsame fun g hg i hi hbit => ?_
    rw [freed_bit hl hn hg (hl.bit_lt hg hi), Bool.and_eq_false_iff, Bool.not_eq_false',
      decide_eq_true_iff] at hbit
    rcases hbit with hclear | hplace
    · refine hs.sound.free g hg i hi ?_
      rw [(unloaded hcontext s.volume g).2.1, hclear]
    · obtain ⟨rfl, rfl⟩ := hplace
      rwa [(hl.bitOf_inGroup hn.low hn.high).2]
  have hfree : Allocating.Free { s with volume := s.volume.freed n } (.block n) := by
    refine ⟨hsame.data hdata, ?_⟩
    show Allocating.bit _ ((s.volume.freed n).groupOf n) ((s.volume.freed n).bitOf n) = false
    rw [(unloaded hcontext (s.volume.freed n) _).2.2.2, hsame.groupOf, hsame.bitOf,
      freed_bit hl hn (hl.groupOf_lt hn.low hn.high) (hl.bitOf_lt n), decide_eq_true ⟨rfl, rfl⟩]
    exact Bool.and_false _
  refine ⟨((freed_hands hs hcontext hn).consistent_iff hsound hs.sound fun o ho => ?_).mpr hs, hfree⟩
  cases ho
  exact hfree

end

/-- No inode of a full group is free. -/
theorem Consistent.inodesFull (h : Consistent s) (hcontext : s.context.groupLoaded = false)
    (hg : g < s.volume.groupCount) (hfull : s.volume.InodesFull g) (hn : s.Free (.inode n)) :
    s.volume.inodeGroup n ≠ g := by
  intro heq
  obtain ⟨hbefore, -⟩ := unloaded hcontext s.volume g
  rcases hfull with hnone | hall
  · rw [← hbefore, h.inodes g hg, Finset.card_eq_zero] at hnone
    have hmem := mem_freeInodesIn.mpr ⟨mem_of_free hn, heq⟩
    rw [hnone] at hmem
    exact Finset.notMem_empty n hmem
  · have hused := hall n hn.1 heq
    rw [hn.2] at hused
    cases hused

/-! ## Without the size of an inode record -/

section
variable {size : Nat}

theorem unaware_onVolume {α : Type} {m : Effect Volume α} (h : Unaware (Volume.resized size) m) :
    Unaware (resized size) (onVolume m) :=
  Unaware.zoom h (fun _ => rfl) fun _ _ => rfl

theorem unaware_testBit {r : Volume → Volume} (b : Buffer) (bit : Nat) :
    Unaware r (testBit b bit) :=
  Unaware.bind (Unaware.bind .demand fun _ => .pure) fun _ => .pure

theorem unaware_findFreeBlock (b : Buffer) (left bit : Nat) :
    Unaware (Volume.resized size) (findFreeBlock b left bit) := by
  induction left generalizing bit with
  | zero => exact .pure
  | succ left ih => exact Unaware.bind (unaware_testBit b bit) fun _ => .ite (ih _) .pure

theorem unaware_writeBlock (blockSize blockNumber : Nat) (b : Buffer) (offset : Nat) :
    Unaware (Volume.resized size) (writeBlock blockSize blockNumber b offset) := by
  refine .require fun _ => ?_
  refine .require fun _ => ?_
  refine Unaware.get (fun _ => rfl) fun s => ?_
  refine .require fun _ => ?_
  refine .require fun _ => ?_
  refine .require fun _ => ?_
  refine .require fun _ => ?_
  exact Unaware.bind .demand fun _ => .modify fun _ => rfl

theorem unaware_writeGroupDescriptor (g : Nat) (d : GroupDescriptor) :
    Unaware (Volume.resized size) (writeGroupDescriptor g d) := by
  refine Unaware.get (fun s => ?_) fun s => ?_
  · unfold Superblock.blockSize descriptorPlace
    rw [resized_logBlockSize, resized_firstDataBlock]
    rfl
  · refine Unaware.bind (unaware_shiftLeft _ _) fun blockSize => ?_
    refine .require fun _ => ?_
    refine .require fun _ => ?_
    refine Unaware.bind (unaware_readBlock _ _ _) fun b => ?_
    exact Unaware.bind (Unaware.bind .demand fun _ => .pure) fun _ => unaware_writeBlock _ _ _ _

theorem resized_blockSize {σ : Type} (v : Volume) :
    ((v.resized size).superblock.blockSize : Effect σ Nat) = v.superblock.blockSize := by
  unfold Superblock.blockSize
  rw [resized_logBlockSize]

theorem resized_blocks (size : Nat) (v : Volume) :
    (v.resized size).superblock.blockCount = v.superblock.blockCount ∧
    (v.resized size).superblock.blocksPerGroup = v.superblock.blocksPerGroup ∧
    (v.resized size).superblock.freeBlockCount = v.superblock.freeBlockCount :=
  ⟨(resized_within size v).get32 (.inl (by decide)), (resized_within size v).get32 (.inl (by decide)),
    (resized_within size v).get32 (.inl (by decide))⟩

theorem unaware_flush : Unaware (resized size) flushAllocationContext := by
  refine Unaware.get (fun s => ?_) fun s => ?_
  · show (if _ then _ else (s.volume.resized size).superblock.blockSize >>= _) = _
    rw [resized_blockSize]
    rfl
  · refine .ite .pure (Unaware.bind (unaware_shiftLeft _ _) fun blockSize => ?_)
    refine Unaware.bind (unaware_onVolume (unaware_writeBlock _ _ _ _)) fun _ => ?_
    refine Unaware.bind (unaware_onVolume (unaware_writeGroupDescriptor _ _)) fun _ => ?_
    exact .modify fun _ => rfl

theorem unaware_loadGroup (blockSize g : Nat) : Unaware (resized size) (loadGroup blockSize g) := by
  refine Unaware.get (fun _ => rfl) fun s => .ite ?_ .pure
  refine Unaware.bind unaware_flush fun _ => ?_
  refine Unaware.bind (unaware_onVolume (unaware_readGroupDescriptor g)) fun d => ?_
  refine Unaware.bind (.modify fun _ => rfl) fun _ => .ite ?_ ?_
  · exact Unaware.bind (.modify fun _ => rfl) fun _ => .pure
  · refine Unaware.get (fun _ => rfl) fun s => ?_
    refine Unaware.bind (unaware_onVolume (unaware_readBlock _ _ _)) fun b => ?_
    exact Unaware.bind (.modify fun _ => rfl) fun _ => .pure

/-- The count of free blocks is another field. -/
theorem resized_counted (v : Volume) (c : Nat) :
    (v.resized size).superblock.setFreeBlockCount c =
      put16 (v.superblock.setFreeBlockCount c) 88 size := by
  funext x
  show put32 (put16 v.superblock 88 size) 12 c x = put16 (put32 v.superblock 12 c) 88 size x
  by_cases hx : x < 16
  · have hsame : put16 (put32 v.superblock 12 c) 88 size x = put32 v.superblock 12 c x :=
      put16_within _ _ _ _ (.inl (by omega))
    have hbelow : put16 v.superblock 88 size x = v.superblock x :=
      put16_within _ _ _ _ (.inl (by omega))
    rw [hsame]
    unfold put32
    rw [hbelow]
  · rw [put32_within _ _ _ _ (.inr (by omega))]
    have hbelow : put32 v.superblock 12 c x = v.superblock x :=
      put32_within _ _ _ _ (.inr (by omega))
    exact (put16_congr hbelow size).symm

theorem unaware_allocateBlockFrom (blockSize left g : Nat) :
    Unaware (resized size) (allocateBlockFrom blockSize left g) := by
  induction left generalizing g with
  | zero => exact .fail
  | succ left ih =>
    refine Unaware.bind (unaware_loadGroup blockSize g) fun loaded => .ite (ih _) ?_
    refine Unaware.get (fun s => ?_) fun s => ?_
    · obtain ⟨hcount, hper, -⟩ := resized_blocks size s.volume
      show (onVolume (findFreeBlock _ (blocksInGroup (s.volume.resized size).superblock g) 0) >>= _) = _
      unfold blocksInGroup groupFirstBlock
      rw [hcount, hper, resized_firstDataBlock]
      rfl
    · refine Unaware.bind (unaware_onVolume (unaware_findFreeBlock _ _ _)) fun found => ?_
      cases found with
      | none =>
        refine Unaware.bind unaware_flush fun _ => ?_
        exact Unaware.bind (.modify fun _ => rfl) fun _ => ih _
      | some bit =>
        refine Unaware.bind (unaware_onVolume ?_) fun b => ?_
        · exact Unaware.bind (Unaware.bind .demand fun _ => .pure) fun _ =>
            Unaware.bind .demand fun _ => .pure
        refine Unaware.bind (.modify fun _ => rfl) fun _ => ?_
        refine Unaware.bind (unaware_onVolume (.modify fun v => ?_)) fun _ => .pure
        show Volume.mk _ _ ((v.resized size).superblock.setFreeBlockCount
          ((v.resized size).superblock.freeBlockCount - 1)) _ _ = _
        rw [resized_counted, (resized_blocks _ v).2.2]
        rfl

theorem unaware_allocateBlock : Unaware (resized size) allocateBlock := by
  refine Unaware.get (fun s => ?_) fun s => ?_
  · obtain ⟨hcount, hper, hfree⟩ := resized_blocks size s.volume
    show ((s.volume.resized size).superblock.blockSize >>= _) = _
    rw [resized_blockSize]
    show (_ >>= fun blockSize => require _ >>= fun _ =>
      require ((s.volume.resized size).superblock.freeBlockCount ≠ 0) >>= fun _ =>
        divide (u32 (u32sub (s.volume.resized size).superblock.blockCount
          (s.volume.resized size).superblock.firstDataBlock +
            (s.volume.resized size).superblock.blocksPerGroup + 2 ^ 32 - 1))
          (s.volume.resized size).superblock.blocksPerGroup >>= _) = _
    rw [hcount, hper, hfree, resized_firstDataBlock]
  · refine Unaware.bind (unaware_shiftLeft _ _) fun blockSize => ?_
    refine .require fun _ => ?_
    refine .require fun _ => ?_
    refine Unaware.bind (Unaware.bind .demand fun _ => .pure) fun groups => ?_
    exact unaware_allocateBlockFrom _ _ _

theorem resized_inodeUsed (v : Volume) (n : Nat) : (v.resized size).inodeUsed n = v.inodeUsed n := by
  unfold Volume.inodeUsed Volume.inodeBit Volume.inodeGroup Volume.inodeIndex
  rw [resized_inodesPerGroup, resized_blockBytes, resized_descriptor]
  rfl

theorem resized_usable (v : Volume) (n : Nat) : (v.resized size).Usable n ↔ v.Usable n := by
  have hrevision : (v.resized size).superblock.revisionLevel = v.superblock.revisionLevel :=
    (resized_within size v).get32 (.inl (by decide))
  have hreserved : (v.resized size).superblock.firstNonReservedInode =
      v.superblock.firstNonReservedInode := (resized_within size v).get32 (.inl (by decide))
  have hfirst : firstUsableInode (v.resized size).superblock = firstUsableInode v.superblock := by
    unfold firstUsableInode
    rw [hrevision, hreserved]
  constructor
  · intro ⟨hpos, hhigh, hlow⟩
    exact ⟨hpos, resized_inodeCount size v ▸ hhigh, hfirst ▸ hlow⟩
  · intro ⟨hpos, hhigh, hlow⟩
    exact ⟨hpos, (resized_inodeCount size v).symm ▸ hhigh, hfirst.symm ▸ hlow⟩

end

theorem formatted_free : s.formatted.Free (.inode n) ↔
    s.volume.Usable n ∧ s.volume.inodeUsed n = false := by
  show s.volume.formatted.Usable n ∧ s.volume.formatted.inodeUsed n = false ↔ _
  unfold Volume.formatted
  rw [resized_usable, resized_inodeUsed]

/-- The volume after a computation that does not look at the size. -/
theorem formatted_after (h : SamePlaces s.volume.formatted t.volume) :
    (t.resized s.volume.superblock.inodeSize).formatted = t := by
  have hsize : t.volume.superblock.inodeSize = s.volume.superblock.recordSize :=
    h.inodeSize.trans (formatted_inodeSize _)
  have hrevision : (t.volume.resized s.volume.superblock.inodeSize).superblock.revisionLevel =
      s.volume.superblock.revisionLevel :=
    ((resized_within _ t.volume).get32 (.inl (by decide))).trans
      ((h.superblock.get32 (.inr (by decide))).trans
        ((resized_within _ s.volume).get32 (.inl (by decide))))
  have hfield : (t.volume.resized s.volume.superblock.inodeSize).superblock.inodeSize =
      s.volume.superblock.inodeSize := (get16_put16 _ _ _).trans (Nat.mod_eq_of_lt (get16_lt _ _))
  have hrecord : (t.volume.resized s.volume.superblock.inodeSize).superblock.recordSize =
      t.volume.superblock.inodeSize := by
    rw [hsize]
    unfold Superblock.recordSize
    rw [hrevision, hfield]
  show Allocating.mk ((t.volume.resized _).resized
    (t.volume.resized s.volume.superblock.inodeSize).superblock.recordSize) t.context = t
  rw [resized_resized, hrecord, resized_self]

/-- What such a computation does on the volume as the format describes it. -/
theorem Unaware.formatted {α : Type} {m : Effect Allocating α} {Q : α → Allocating → Prop}
    {E : Allocating → Prop} (hm : Unaware (resized s.volume.superblock.inodeSize) m)
    (hmeets : (m s.formatted).Meets (fun a t => SamePlaces s.volume.formatted t.volume ∧ Q a t)
      fun t => SamePlaces s.volume.formatted t.volume ∧ E t) :
    (m s).Meets (fun a t => Q a t.formatted) fun t => E t.formatted := by
  have hsame : s.formatted.resized s.volume.superblock.inodeSize = s :=
    congrArg (fun volume => Allocating.mk volume s.context) (formatted_resized s.volume)
  have heq := hm s.formatted
  rw [hsame] at heq
  rw [heq]
  cases hend : m s.formatted with
  | done a t =>
    rw [hend] at hmeets
    show Q a (t.resized _).formatted
    rw [formatted_after hmeets.1]
    exact hmeets.2
  | failed t =>
    rw [hend] at hmeets
    show E (t.resized _).formatted
    rw [formatted_after hmeets.1]
    exact hmeets.2
  | fault =>
    rw [hend] at hmeets
    exact hmeets

/-! ## Runs -/

/-- An operation that allocates, the flush at the end of one, the next context, which drops the
last one also where an operation has failed, or `ext2_free_block`. -/
inductive AllocatorOp where
  | block
  | inode (mode : Nat)
  | flush
  | renew
  | release (n : Nat)

namespace AllocatorOp

def apply : AllocatorOp → Effect Allocating (Option Object)
  | block => do
    let n ← allocateBlock
    return some (.block n)
  | inode mode => do
    let n ← onVolume (allocateInodeWithMode mode)
    return some (.inode n)
  | flush => do
    flushAllocationContext
    return none
  | renew => do
    setContext .empty
    return none
  | release n => do
    onVolume (freeBlock n)
    return none

/-- No object of that kind is free. A block that is freed already is not freed again. -/
def Exhausted (s : Allocating) : AllocatorOp → Prop
  | block => ∀ n, ¬s.Free (.block n)
  | inode _ => ∀ n, ¬s.Free (.inode n)
  | flush | renew => False
  | release n => s.Free (.block n)

/-- The number of groups fits 32 bits, and the superblock has the size of an inode record.
Inodes are allocated and blocks freed, blocks for files only, while no bitmap is loaded, and a
context is dropped after its bitmap is written back. -/
def Safe (s : Allocating) : AllocatorOp → Prop
  | block => s.volume.superblock.blockCount - s.volume.superblock.firstDataBlock +
      s.volume.superblock.blocksPerGroup ≤ 2 ^ 32 ∨ Exhausted s.formatted block
  | inode mode => s.context.groupLoaded = false ∧
      ((s.volume.superblock.inodeCount + s.volume.superblock.inodesPerGroup ≤ 2 ^ 32 ∧
        (s.volume.superblock.revisionLevel ≠ 0 ∨ s.volume.superblock.inodeSize = Inode.bytes)) ∨
        Exhausted s.formatted (inode mode))
  | flush => True
  | renew => s.context.groupLoaded = false ∨ s.context.dirty = false
  | release n => s.context.groupLoaded = false ∧ s.volume.Data n ∧
      (s.volume.superblock.revisionLevel ≠ 0 ∨ s.volume.superblock.inodeSize = Inode.bytes)

/-- What an operation that succeeds takes, or gives back. -/
def Moves (o : Option Object) (s t : Allocating) : AllocatorOp → Prop
  | release n => o = none ∧ Hands (some (.block n)) t s ∧ t.Free (.block n)
  | _ => Hands o s t ∧ ∀ o', o = some o' → s.Free o'

end AllocatorOp

/-- An operation of a run, with what it returned unless it failed. -/
structure AllocatorEvent where
  before : Allocating
  op : AllocatorOp
  outcome : Option (Option Object)
  after : Allocating

namespace AllocatorEvent

/-- The operation ended this way. -/
def Happens (e : AllocatorEvent) : Prop :=
  match e.outcome with
  | some o => e.op.apply e.before = .done o e.after
  | none => e.op.apply e.before = .failed e.after

/-- An object that is returned was free, and its bit and the counts are all that changes. The
operation fails only if there is none. -/
structure Correct (e : AllocatorEvent) : Prop where
  moves : ∀ o, e.outcome = some o → e.op.Moves o e.before.formatted e.after.formatted
  failed : e.outcome = none →
    Hands none e.before.formatted e.after.formatted ∧ e.op.Exhausted e.before.formatted

/-- The block is freed. -/
def Releases (e : AllocatorEvent) (o : Object) : Prop :=
  ∃ n, o = .block n ∧ e.op = .release n ∧ e.outcome ≠ none

end AllocatorEvent

/-- Operations on one volume, one after the other. -/
def AllocatorRun : Allocating → List AllocatorEvent → Allocating → Prop
  | s, [], t => s = t
  | s, e :: events, t =>
    e.before = s ∧ e.Happens ∧ AllocatorRun e.after events t

/-- The object is not returned before it is freed. -/
def Withheld (o : Object) : List AllocatorEvent → Prop
  | [] => True
  | e :: events => e.outcome ≠ some (some o) ∧ (e.Releases o ∨ Withheld o events)

/-- No object is returned twice without a free in between. -/
def HandedOnce : List AllocatorEvent → Prop
  | [] => True
  | e :: events => (∀ o, e.outcome = some (some o) → Withheld o events) ∧ HandedOnce events

/-- What an operation does on a consistent volume. -/
structure Stepped (o : Option Object) (s t : Allocating) : Prop where
  consistent : Consistent t
  hands : Hands o s t
  free : ∀ o', o = some o' → s.Free o'

theorem SameUse.stepped (h : SameUse s t) (hs : Consistent s) (ht : Sound t) : Stepped none s t :=
  ⟨(h.hands hs.sound).consistent hs ht nofun, h.hands hs.sound, nofun⟩

theorem Took.stepped (h : Took n s t) (hs : Consistent s) (ht : Sound t) :
    Stepped (some (.block n)) s t := by
  have hfree : ∀ o', some (Object.block n) = some o' → s.Free o' := by
    intro o' ho
    cases ho
    exact h.free
  exact ⟨(h.hands hs).consistent hs ht hfree, h.hands hs, hfree⟩

theorem allocateBlock_stepped (h : Consistent s.formatted) (hsafe : AllocatorOp.Safe s .block) :
    (allocateBlock s).Meets (fun n t => Stepped (some (.block n)) s.formatted t.formatted)
      fun t => Stepped none s.formatted t.formatted ∧ AllocatorOp.Exhausted s.formatted .block := by
  refine Unaware.formatted (Q := fun n t => Stepped (some (.block n)) s.formatted t)
    (E := fun t => Stepped none s.formatted t ∧ AllocatorOp.Exhausted s.formatted .block)
    unaware_allocateBlock (meets_mono (allocateBlock_meets h.sound) ?_ ?_)
  · intro n t ⟨hsound, htook⟩
    exact ⟨htook.places, htook.stepped h hsound⟩
  · intro t ⟨hsound, hsame, hfull⟩
    refine ⟨hsame.places, hsame.stepped h hsound, fun n hn => ?_⟩
    rcases hfull with hzero | hfull
    · exact h.none_free hzero hn
    · rcases hsafe with hfit | hnone
      · obtain ⟨hcount, hper, -⟩ :=
          resized_blocks s.volume.superblock.recordSize s.volume
        have hfirst := resized_firstDataBlock s.volume.superblock.recordSize s.volume
        rw [← hcount, ← hper, ← hfirst] at hfit
        have hgroup := h.sound.layout.groupOf_lt hn.1.low hn.1.high
        exact h.full hgroup (hfull hfit _ hgroup) hn rfl
      · exact hnone n hn

/-- The superblock keeps its revision and its size of a record. -/
theorem formatted_kept (hsame : s.volume.formatted = s.volume) (hplaces : SamePlaces s.volume w) :
    Allocating.formatted { s with volume := w } = { s with volume := w } := by
  have hback := formatted_after (s := s) (t := { s with volume := w }) (hsame.symm ▸ hplaces)
  have hself : resized s.volume.superblock.inodeSize { s with volume := w } =
      { s with volume := w } := by
    show Allocating.mk (w.resized _) s.context = _
    rw [← hplaces.inodeSize, resized_self]
  rwa [hself] at hback

theorem allocateInode_stepped (h : Consistent s.formatted) (mode : Nat)
    (hsafe : AllocatorOp.Safe s (.inode mode)) :
    (onVolume (allocateInodeWithMode mode) s).Meets
      (fun n t => Stepped (some (.inode n)) s.formatted t.formatted)
      fun t => Stepped none s.formatted t.formatted ∧ AllocatorOp.Exhausted s.formatted (.inode mode) := by
  obtain ⟨hready, hsafe⟩ := hsafe
  have hsize : s.volume.formatted = s.volume ∨
      ∀ n, s.volume.Usable n → s.volume.inodeUsed n = true := by
    rcases hsafe with ⟨-, hrevision⟩ | hnone
    · exact .inl (formatted_eq hrevision)
    · refine .inr fun n hn => ?_
      by_contra hfree
      exact hnone n (formatted_free.mpr ⟨hn, Bool.eq_false_iff.mpr hfree⟩)
  refine meets_zoom (meets_mono (h.sound.layout.allocateInode hsize) ?_ ?_)
  · intro n w ⟨hw, husable, hclear, hlayout⟩
    have hsame : s.volume.formatted = s.volume := by
      rcases hsize with hsame | hnone
      · exact hsame
      · rw [hnone n husable] at hclear
        cases hclear
    have hformatted : s.formatted = s := congrArg (fun volume => Allocating.mk volume s.context) hsame
    have htook : TookInode n s.volume w := hw ▸ hlayout.tookInode husable hclear
    have hafter := formatted_kept hsame htook.places
    rw [hformatted] at h ⊢
    rw [hafter]
    have hfree : ∀ o', some (Object.inode n) = some o' → s.Free o' := by
      intro o' ho
      cases ho
      exact ⟨husable, hclear⟩
    have hhands := htook.hands h hready
    exact ⟨hhands.consistent h (htook.sound h hready) hfree, hhands, hfree⟩
  · intro w ⟨hw, hfull⟩
    subst hw
    refine ⟨(SameUse.refl _).stepped h h.sound, fun n hn => ?_⟩
    rcases hsafe with ⟨hfit, -⟩ | hnone
    · obtain ⟨husable, hclear⟩ := formatted_free.mp hn
      have hzero : s.formatted.volume.superblock.freeInodeCount =
          s.volume.superblock.freeInodeCount := (resized_within _ s.volume).get32 (.inl (by decide))
      rcases hfull with hcount | hfull
      · have hmem := mem_of_free hn
        rw [← hzero, h.inodeTotal, Finset.card_eq_zero] at hcount
        rw [hcount] at hmem
        exact Finset.notMem_empty n hmem
      · have hhigh := husable.high
        have hpos := husable.positive
        have hper := Nat.pos_of_ne_zero h.sound.layout.formatted_inodes
        have hgroup : s.volume.inodeGroup n < s.volume.inodeGroups := by
          unfold Volume.inodeGroup Volume.inodeGroups
          rw [Nat.div_lt_iff_lt_mul hper]
          have hceil := le_blocks s.volume.superblock.inodeCount hper
          omega
        have hgroup' : s.volume.inodeGroup n < s.formatted.volume.groupCount :=
          (formatted_groupCount s.volume).symm ▸
            Nat.lt_of_lt_of_le hgroup h.sound.layout.inodeGroups_le
        rcases hfull hfit _ hgroup with hcount | hall
        · have hcount' : (s.formatted.volume.descriptor (s.volume.inodeGroup n)).freeInodesCount = 0 :=
            (congrArg GroupDescriptor.freeInodesCount (resized_descriptor _ s.volume _)).trans hcount
          refine h.inodesFull hready hgroup' (.inl hcount') hn ?_
          unfold Volume.inodeGroup
          exact congrArg ((n - 1) / ·) (resized_inodesPerGroup _ s.volume)
        · rw [hall n husable rfl] at hclear
          cases hclear
    · exact hnone n hn

theorem freeBlock_stepped (h : Consistent s.formatted) (hsafe : AllocatorOp.Safe s (.release n)) :
    (onVolume (freeBlock n) s).Meets
      (fun _ t => Consistent t.formatted ∧
        AllocatorOp.Moves none s.formatted t.formatted (.release n))
      fun t => Stepped none s.formatted t.formatted ∧
        AllocatorOp.Exhausted s.formatted (.release n) := by
  obtain ⟨hready, hdata, hrevision⟩ := hsafe
  have hsame := formatted_eq hrevision
  have hformatted : s.formatted = s := congrArg (fun volume => Allocating.mk volume s.context) hsame
  rw [hformatted] at h ⊢
  have hl := h.sound.layout
  refine meets_zoom ?_
  by_cases hn : s.volume.CanFree n
  · rw [freeBlock_done hl hn]
    have hafter := formatted_kept hsame (hl.freed_same hn.low hn.high)
    obtain ⟨hconsistent, hfree⟩ := freed_consistent h hready hn hdata
    show Consistent (Allocating.formatted { s with volume := s.volume.freed n }) ∧ _
    rw [hafter]
    exact ⟨hconsistent, rfl, freed_hands h hready hn, hfree⟩
  · rw [freeBlock_failed hl hn]
    show Stepped none s s.formatted ∧ s.Free (.block n)
    rw [hformatted]
    refine ⟨(SameUse.refl s).stepped h h.sound, hdata, ?_⟩
    have hnonzero : n ≠ 0 := by
      rintro rfl
      -- block 0 can only be that of the superblock
      exact hdata.apart .superblock trivial ⟨hdata.low, Nat.succ_pos _⟩
    by_contra hused
    rw [Bool.not_eq_false] at hused
    refine hn ⟨hnonzero, hdata.low, hdata.high, ?_⟩
    rw [← hused]
    exact ((unloaded hready s.volume _).2.1 _).symm

/-- One operation. -/
theorem AllocatorOp.stepped (op : AllocatorOp) (h : Consistent s.formatted)
    (hsafe : op.Safe s) : (op.apply s).Meets
      (fun o t => Consistent t.formatted ∧ op.Moves o s.formatted t.formatted)
      fun t => Stepped none s.formatted t.formatted ∧ op.Exhausted s.formatted := by
  cases op with
  | block =>
    exact meets_bind (allocateBlock_stepped h hsafe) fun n t ht => ⟨ht.consistent, ht.hands, ht.free⟩
  | inode mode =>
    exact meets_bind (allocateInode_stepped h mode hsafe) fun n t ht =>
      ⟨ht.consistent, ht.hands, ht.free⟩
  | release n => exact meets_bind (freeBlock_stepped h hsafe) fun _ t ht => ht
  | flush =>
    refine meets_bind (Unaware.formatted (Q := fun _ t => Stepped none s.formatted t)
      (E := fun t => Stepped none s.formatted t ∧ False) unaware_flush ?_) fun _ t ht =>
        ⟨ht.consistent, ht.hands, ht.free⟩
    obtain ⟨t, hdone, hsound, hsame, -⟩ := flushAllocationContext_done h.sound
    rw [hdone]
    exact ⟨hsame.places, hsame.stepped h hsound⟩
  | renew =>
    obtain ⟨hsound, hsame⟩ := @Sound.settled s.formatted h.sound hsafe .empty rfl nofun nofun
    have ht := hsame.stepped h hsound
    exact ⟨ht.consistent, ht.hands, ht.free⟩

/-! ## No object twice -/

theorem Hands.inUse {o' : Object} (h : Hands o s t) (hs : Layout s.volume) (ho : s.InUse o') :
    t.InUse o' := by
  cases o' with
  | block n =>
    obtain ⟨⟨hlow, hhigh⟩, hused⟩ := ho
    refine ⟨⟨h.places.firstDataBlock ▸ hlow, h.places.blockCount ▸ hhigh⟩, ?_⟩
    rw [h.used hs hlow hhigh, hused, Bool.true_or]
  | inode n =>
    obtain ⟨⟨hpos, hhigh⟩, hused⟩ := ho
    refine ⟨⟨hpos, h.places.inodeCount ▸ hhigh⟩, ?_⟩
    rw [h.inodeUsed hs hpos hhigh, hused, Bool.true_or]

theorem Hands.handed {o' : Object} (h : Hands (some o') s t) (hs : Layout s.volume)
    (ho : s.Free o') : t.InUse o' := by
  cases o' with
  | block n =>
    refine ⟨⟨h.places.firstDataBlock ▸ ho.1.low, h.places.blockCount ▸ ho.1.high⟩, ?_⟩
    rw [h.used hs ho.1.low ho.1.high]
    exact Bool.or_eq_true_iff.mpr (.inr (decide_eq_true ⟨rfl, rfl⟩))
  | inode n =>
    refine ⟨⟨ho.1.positive, h.places.inodeCount ▸ ho.1.high⟩, ?_⟩
    rw [h.inodeUsed hs ho.1.positive ho.1.high]
    exact Bool.or_eq_true_iff.mpr (.inr (decide_eq_true ⟨rfl, rfl⟩))

/-- A block that is given back is not in use any more; everything else stays so. -/
theorem Hands.inUse_before {o' : Object} (h : Hands (some (.block n)) s t) (hs : Layout s.volume)
    (hfree : s.Free (.block n)) (ho : t.InUse o') : o' = .block n ∨ s.InUse o' := by
  cases o' with
  | block k =>
    obtain ⟨⟨hlow, hhigh⟩, hused⟩ := ho
    rw [h.places.firstDataBlock] at hlow
    rw [h.places.blockCount] at hhigh
    rw [h.used hs hlow hhigh, Bool.or_eq_true_iff] at hused
    by_cases hk : k = n
    · exact .inl (congrArg Object.block hk)
    · refine .inr ⟨⟨hlow, hhigh⟩, hused.resolve_right fun hmarks => hk ?_⟩
      have hplace : s.volume.groupOf n = s.volume.groupOf k ∧ s.volume.bitOf n = s.volume.bitOf k :=
        of_decide_eq_true hmarks
      exact (place_inj hfree.1.low hlow hplace.1 hplace.2).symm
  | inode k =>
    obtain ⟨⟨hpos, hhigh⟩, hused⟩ := ho
    rw [h.places.inodeCount] at hhigh
    rw [h.inodeUsed hs hpos hhigh] at hused
    exact .inr ⟨⟨hpos, hhigh⟩, (Bool.or_false _).symm.trans hused⟩

theorem Allocating.InUse.not_free {o : Object} (h : s.InUse o) : ¬s.Free o := by
  cases o with
  | block n =>
    intro hfree
    exact absurd (h.2.symm.trans hfree.2) (by decide)
  | inode n =>
    intro hfree
    exact absurd (h.2.symm.trans hfree.2) (by decide)

variable {e : AllocatorEvent} {events : List AllocatorEvent}

/-- One operation of a run. -/
theorem AllocatorEvent.step (h : Consistent e.before.formatted) (happens : e.Happens)
    (hsafe : e.op.Safe e.before) : e.Correct ∧ Consistent e.after.formatted := by
  obtain ⟨s, op, outcome, t⟩ := e
  have hmeets := op.stepped h hsafe
  unfold Happens at happens
  cases outcome with
  | some o =>
    obtain ⟨hafter, hmoves⟩ := meets_done hmeets happens
    refine ⟨⟨fun o' ho => ?_, nofun⟩, hafter⟩
    cases ho
    exact hmoves
  | none =>
    obtain ⟨hstep, hnone⟩ := meets_failed hmeets happens
    exact ⟨⟨nofun, fun _ => ⟨hstep.hands, hnone⟩⟩, hstep.consistent⟩

/-- An object that is returned was free, and is in use then. -/
theorem AllocatorEvent.Correct.returned {o : Object} (hcorrect : e.Correct)
    (h : Consistent e.before.formatted) (ho : e.outcome = some (some o)) : e.before.formatted.Free o ∧ e.after.formatted.InUse o := by
  have hmoves := hcorrect.moves _ ho
  obtain ⟨s, op, outcome, t⟩ := e
  cases op with
  | release n =>
    -- a free returns nothing
    cases hmoves.1
  | _ => exact ⟨hmoves.2 o rfl, hmoves.1.handed h.sound.layout (hmoves.2 o rfl)⟩

/-- An object stays in use until it is freed. -/
theorem AllocatorEvent.Correct.keeps {o : Object} (hcorrect : e.Correct)
    (h : Consistent e.before.formatted) (hafter : Consistent e.after.formatted)
    (ho : e.before.formatted.InUse o) : e.Releases o ∨ e.after.formatted.InUse o := by
  obtain ⟨s, op, outcome, t⟩ := e
  cases outcome with
  | none => exact .inr ((hcorrect.failed rfl).1.inUse h.sound.layout ho)
  | some o' =>
    have hmoves := hcorrect.moves o' rfl
    cases op with
    | release n =>
      refine (hmoves.2.1.inUse_before hafter.sound.layout hmoves.2.2 ho).imp_left fun heq => ?_
      exact ⟨n, heq, rfl, nofun⟩
    | _ => exact .inr (hmoves.1.inUse h.sound.layout ho)

/-- An object that is in use is not returned before it is freed. -/
theorem AllocatorRun.withheld {o : Object} (hrun : AllocatorRun s events t)
    (h : Consistent s.formatted) (hsafe : ∀ e ∈ events, e.op.Safe e.before)
    (ho : s.formatted.InUse o) : Withheld o events := by
  induction events generalizing s with
  | nil => trivial
  | cons e events ih =>
    obtain ⟨rfl, happens, hrest⟩ := hrun
    obtain ⟨hcorrect, hafter⟩ := e.step h happens (hsafe e (List.mem_cons_self ..))
    refine ⟨fun hreturned => ho.not_free (hcorrect.returned h hreturned).1, ?_⟩
    refine (hcorrect.keeps h hafter ho).imp_right fun hstill => ?_
    exact ih hrest hafter (fun e' he' => hsafe e' (List.mem_cons_of_mem _ he')) hstill

/-- On a consistent volume the allocators return free objects, mark and count just these, give
up only when there is none, and return none twice without a free in between, in every run
without the defects. -/
theorem allocatorRun_correct (s t : Allocating) (events : List AllocatorEvent)
    (h : Consistent s.formatted) (hrun : AllocatorRun s events t)
    (hsafe : ∀ e ∈ events, e.op.Safe e.before) :
    (∀ e ∈ events, e.Correct) ∧ HandedOnce events ∧
      ∀ op : AllocatorOp, op.Safe t → op.apply t ≠ .fault := by
  induction events generalizing s with
  | nil =>
    obtain rfl := hrun
    refine ⟨fun e he => absurd he List.not_mem_nil, trivial, fun op hsafe hfault => ?_⟩
    have hmeets := op.stepped h hsafe
    rw [hfault] at hmeets
    exact hmeets
  | cons e events ih =>
    obtain ⟨rfl, happens, hrest⟩ := hrun
    have hlater := fun e' he' => hsafe e' (List.mem_cons_of_mem e he')
    obtain ⟨hcorrect, hafter⟩ := e.step h happens (hsafe e (List.mem_cons_self ..))
    obtain ⟨hall, honce, hends⟩ := ih e.after hafter hrest hlater
    refine ⟨fun e' he' => ?_, ⟨fun o ho => ?_, honce⟩, hends⟩
    · rcases List.mem_cons.mp he' with rfl | he'
      · exact hcorrect
      · exact hall e' he'
    · exact hrest.withheld hafter hlater (hcorrect.returned h ho).2

/-! ## Volumes of one group -/

theorem OneGroup.consistent (h : OneGroup v) (hused : ∀ i < 63, v.bitmapBit 0 i = false → 6 ≤ i)
    (hblocks : (v.descriptor 0).freeBlocksCount = (Allocating.freeBlocksIn ⟨v, .empty⟩ 0).card)
    (hblockTotal : v.superblock.freeBlockCount = (Allocating.freeBlocks ⟨v, .empty⟩).card)
    (hinodes : (v.descriptor 0).freeInodesCount = (Allocating.freeInodesIn ⟨v, .empty⟩ 0).card)
    (hinodeTotal : v.superblock.freeInodeCount = (Allocating.freeInodes ⟨v, .empty⟩).card) :
    Consistent ⟨v, .empty⟩ := by
  refine ⟨h.sound hused, fun g hg => ?_, hblockTotal, fun g hg => ?_, hinodeTotal⟩
  · obtain rfl : g = 0 := Nat.lt_one_iff.mp (h.groupCount ▸ hg)
    exact hblocks
  · obtain rfl : g = 0 := Nat.lt_one_iff.mp (h.groupCount ▸ hg)
    exact hinodes

/-- An inode and a block from a volume of revision 1. -/
theorem oneFileVolume_allocates : ∃ s t,
    (∀ e ∈ [AllocatorEvent.mk ⟨oneFileVolume, .empty⟩ (.inode 0x81a4) (some (some (.inode 12))) s,
      ⟨s, .block, some (some (.block 8)), t⟩], e.Correct) ∧
    HandedOnce [⟨⟨oneFileVolume, .empty⟩, .inode 0x81a4, some (some (.inode 12)), s⟩,
      ⟨s, .block, some (some (.block 8)), t⟩] := by
  have hreturns : (AllocatorOp.apply (.inode 0x81a4) ⟨oneFileVolume, .empty⟩).returns (fun o s =>
      decide (o = some (.inode 12) ∧ s.volume.superblock.blockCount -
        s.volume.superblock.firstDataBlock + s.volume.superblock.blocksPerGroup ≤ 2 ^ 32) &&
      (AllocatorOp.apply .block s).returns fun o _ => decide (o = some (.block 8))) = true := by
    decide +kernel
  obtain ⟨o, s, hinode, hrest⟩ := Ending.exists_done hreturns
  obtain ⟨hfirst, hblock⟩ := Bool.and_eq_true_iff.mp hrest
  obtain ⟨rfl, hfit⟩ := of_decide_eq_true hfirst
  obtain ⟨o, t, hblock, hsecond⟩ := Ending.exists_done hblock
  obtain rfl := of_decide_eq_true hsecond
  have hrevision : oneFileVolume.superblock.revisionLevel ≠ 0 := by decide +kernel
  have hformatted : Allocating.formatted ⟨oneFileVolume, .empty⟩ = ⟨oneFileVolume, .empty⟩ :=
    congrArg (fun volume => Allocating.mk volume .empty) (formatted_eq (.inl hrevision))
  have hconsistent : Consistent ⟨oneFileVolume, .empty⟩ :=
    oneFileVolume_group.consistent (by decide +kernel) (by decide +kernel) (by decide +kernel)
      (by decide +kernel) (by decide +kernel)
  have hsafe : ∀ e ∈ [AllocatorEvent.mk ⟨oneFileVolume, .empty⟩ (.inode 0x81a4)
      (some (some (.inode 12))) s, ⟨s, .block, some (some (.block 8)), t⟩], e.op.Safe e.before := by
    intro e he
    rcases List.mem_cons.mp he with rfl | he
    · have hcount : oneFileVolume.superblock.inodeCount + oneFileVolume.superblock.inodesPerGroup ≤
          2 ^ 32 := by decide +kernel
      exact ⟨rfl, .inl ⟨hcount, .inl hrevision⟩⟩
    · obtain rfl := List.mem_singleton.mp he
      exact .inl hfit
  have hrun : AllocatorRun ⟨oneFileVolume, .empty⟩
      [⟨⟨oneFileVolume, .empty⟩, .inode 0x81a4, some (some (.inode 12)), s⟩,
        ⟨s, .block, some (some (.block 8)), t⟩] t := ⟨rfl, hinode, rfl, hblock, rfl⟩
  obtain ⟨hcorrect, honce, -⟩ := allocatorRun_correct ⟨oneFileVolume, .empty⟩ t _
    (hformatted.symm ▸ hconsistent) hrun hsafe
  exact ⟨s, t, hcorrect, honce⟩

/-- On a volume of revision 0 no inode is allocated, though there are free ones. -/
theorem firstRevision_fails : (∃ root v, mount firstRevision = .done root v) ∧
    ∃ t, Consistent (Allocating.formatted ⟨firstRevision, .empty⟩) ∧ AllocatorRun ⟨firstRevision, .empty⟩
      [⟨⟨firstRevision, .empty⟩, .inode 0x81a4, none, t⟩] t ∧
    ¬(AllocatorEvent.mk ⟨firstRevision, .empty⟩ (.inode 0x81a4) none t).Correct := by
  have hfails : (match AllocatorOp.apply (.inode 0x81a4) ⟨firstRevision, .empty⟩ with
      | .failed _ => true
      | _ => false) = true := by decide +kernel
  split at hfails
  next t hend =>
    have hconsistent : Consistent ⟨firstRevision.formatted, .empty⟩ :=
      firstRevision_group.consistent (by decide +kernel) (by decide +kernel) (by decide +kernel)
        (by decide +kernel) (by decide +kernel)
    have hmounts : (mount firstRevision).returns (fun _ _ => true) = true := by decide +kernel
    obtain ⟨root, v, hmount, -⟩ := Ending.exists_done hmounts
    refine ⟨⟨root, v, hmount⟩, t, hconsistent, ⟨rfl, hend, rfl⟩, fun hcorrect => ?_⟩
    have husable : firstRevision.formatted.Usable 12 :=
      ⟨by decide, by decide +kernel, by decide +kernel⟩
    have hfree : firstRevision.formatted.inodeUsed 12 = false := by decide +kernel
    exact (hcorrect.failed rfl).2 12 ⟨husable, hfree⟩
  next => cases hfails

end MeatySkeleton.Ext2
