import MeatySkeleton.Ext2.Mounted
import MeatySkeleton.Ext2.Scans

/-!
# Operations within bounds

Reading is safe on whatever volume was accepted, writing and truncating where the groups
of the superblock fit their bitmaps. Mounting is safe where the root inode can be looked for,
and accepts no superblock that is not `Accepted`.
-/

namespace MeatySkeleton.Ext2

open Lib Lib.Effect

variable {A B : Prop}

/-! ## Files -/

section
variable {sb : Superblock} {blockSize offset : Nat} {b : Buffer}

section

variable (hsb : Accepted sb)

include hsb

theorem runLength_keeps {logicalBlock blockNumber left runBlocks limit : Nat}
    (hlimit : runBlocks + left ≤ limit) :
    Keeps (GuardedWorking sb A B) (runLength logicalBlock blockNumber left runBlocks) fun r =>
      runBlocks ≤ r ∧ r ≤ limit := by
  induction left generalizing runBlocks with
  | zero => exact .pure ⟨Nat.le_refl _, by omega⟩
  | succ left ih =>
    refine (getDataBlock_keeps hsb _).bind fun next _ => ?_
    refine .ite (fun _ => .pure ⟨Nat.le_refl _, by omega⟩) fun _ => ?_
    exact (@ih (runBlocks + 1) (by omega)).mono fun r hr => ⟨by omega, hr.2⟩

/-- The loop of a read stays inside the buffer of the caller. -/
theorem readFrom_keeps (hsize : BlockSized blockSize) (hb : b.size = 4096)
    {wanted fuel total : Nat} {buffer : Buffer} (hwanted : wanted ≤ buffer.size)
    (hfuel : wanted < total + fuel) (htotal : total ≤ wanted) :
    Keeps (GuardedWorking sb A B) (readFrom blockSize offset wanted fuel total b buffer) fun _ =>
      True := by
  have hle := hsize.le
  have hsectors : blockSize / 512 * 512 = blockSize := by
    unfold BlockSized at hsize
    omega
  have hne : blockSize ≠ 0 := by omega
  induction fuel generalizing total b buffer with
  | zero => omega
  | succ fuel ih =>
    refine .ite (fun _ => .pure trivial) fun hlt => ?_
    refine (divide_keeps hne).bind fun logicalBlock _ => ?_
    refine (modulo_keeps hne).bind fun offsetInBlock hoffset => ?_
    refine (getDataBlock_keeps hsb _).bind fun blockNumber _ => ?_
    refine .ite (fun _ => .pure trivial) fun _ => .ite (fun hfast => ?_) fun _ => ?_
    · -- a run of blocks goes to the caller's buffer
      have hblocks : 0 < (wanted - total) / blockSize := Nat.div_pos hfast.2 (by omega)
      refine Keeps.bind (Q := fun run => 1 ≤ run ∧ run ≤ (wanted - total) / blockSize)
        (runLength_keeps hsb ?_) fun run hrun => ?_
      · unfold maxReadRunBlocks
        omega
      have hroom : run * blockSize ≤ wanted - total :=
        Nat.le_trans (Nat.mul_le_mul_right _ hrun.2) (Nat.div_mul_le_self _ _)
      have hone : blockSize ≤ run * blockSize := Nat.le_mul_of_pos_left _ hrun.1
      refine (onDevice_keeps (blockRead_keeps ?_)).bind fun buffer' hbuffer' => ?_
      · rw [Nat.mul_assoc, hsectors]
        omega
      · exact ih hb (hbuffer' ▸ hwanted) (by omega) (by omega)
    · refine (onDevice_keeps (readBlock_keeps ?_)).bind fun b' hb' => ?_
      · omega
      replace hb' := hb'.trans hb
      have hmod : offsetInBlock < blockSize := hoffset ▸ Nat.mod_lt _ (Nat.pos_of_ne_zero hne)
      refine (slice_keeps (by omega)).bind fun bytes _ => ?_
      refine (store_keeps (by omega)).bind fun buffer' hbuffer' => ?_
      exact ih hb' (hbuffer' ▸ hwanted) (by omega) (by omega)

theorem readFileCached_keeps (offset : Nat) (buffer : Buffer) :
    Keeps (GuardedWorking sb A B) (readFileCached offset buffer) fun _ => True := by
  refine Keeps.get.bind fun s hs => .require fun _ => ?_
  refine (blockSize_keeps (hsb.guarded hs.allocating.volume)).bind fun blockSize hsize => ?_
  refine .require fun _ => .ite (fun _ => .pure trivial) fun _ => ?_
  exact readFrom_keeps hsb hsize rfl (by omega) (by omega) (by omega)

/-- So does the loop of a write. -/
theorem writeFrom_keeps (hfit : A → BlocksFit sb)
    (hsize : BlockSized blockSize) (hb : b.size = 4096)
    {fuel total : Nat} {buffer : Buffer} (hfuel : buffer.size < total + fuel)
    (htotal : total ≤ buffer.size) :
    Keeps (GuardedWorking sb A B) (writeFrom blockSize offset buffer fuel total b)
      fun _ => True := by
  have hle := hsize.le
  have hne : blockSize ≠ 0 := by omega
  induction fuel generalizing total b with
  | zero => omega
  | succ fuel ih =>
    refine .ite (fun _ => .pure trivial) fun hlt => ?_
    refine (divide_keeps hne).bind fun logicalBlock _ => ?_
    refine (modulo_keeps hne).bind fun offsetInBlock hoffset => ?_
    have hmod : offsetInBlock < blockSize := hoffset ▸ Nat.mod_lt _ (Nat.pos_of_ne_zero hne)
    refine (getDataBlock_keeps hsb _).bind fun oldBlock _ => ?_
    refine (getOrAllocateDataBlock_keeps hsb hfit _).bind fun block _ => .require fun _ => ?_
    refine .ite (fun hwhole => ?_) fun _ => ?_
    · refine (onDevice_keeps (writeBlock_keeps ?_)).bind fun _ _ => ih hb (by omega) (by omega)
      omega
    · have hold : Keeps (GuardedWorking sb A B) (oldContents blockSize oldBlock block b) fun r =>
          r.size = 4096 := by
        refine .ite (fun _ => ?_) fun _ => ?_
        · exact (fill_keeps (by omega)).mono fun _ hr => hr.trans hb
        · exact onDevice_keeps ((readBlock_keeps (by omega)).mono fun _ hr => hr.trans hb)
      refine hold.bind fun b1 h1 => (slice_keeps ?_).bind fun bytes _ => ?_
      · omega
      refine (store_keeps (by omega)).bind fun b2 h2 => ?_
      refine (onDevice_keeps (writeBlock_keeps ?_)).bind fun _ _ =>
        ih (h2.trans h1) (by omega) (by omega)
      rw [h2, h1, Nat.zero_add]
      exact hle.2

/-- The end of a write. -/
theorem commitWrite_keeps (n : Nat) :
    Keeps (GuardedWorking sb A B) (commitWrite n) fun _ => True := by
  refine (flushBlockCache_keeps hsb).bind fun _ _ => ?_
  refine (onAllocating_keeps (flushAllocationContext_keeps hsb)).bind fun _ _ => ?_
  refine Keeps.get.bind fun s _ => (Keeps.when fun _ => ?_).bind fun _ _ => ?_
  · exact onDevice_keeps writeSuperblock_keeps
  · exact onDevice_keeps (writeInode_keeps hsb n _)

end

/-! ## Vnodes -/

/-- The tables of a vnode's cache are arrays of 4096 bytes. -/
def Vnode.Arrays (node : Vnode) : Prop := ∀ cache ∈ node.cache, cache.Arrays

/-- The volume of an open file is guarded, and so are its tables. -/
structure GuardedOpened (sb : Superblock) (A B : Prop) (s : Opened) : Prop where
  volume : Guarded sb A B s.volume
  vnode : s.vnode.Arrays

theorem BlockCache.empty_arrays : BlockCache.empty.Arrays := ⟨rfl, rfl, rfl⟩

section
variable {α : Type} {Q : α → Prop}

theorem onOpened_keeps {m : Effect Volume α} (hm : Keeps (Guarded sb A B) m Q) :
    Keeps (GuardedOpened sb A B) (onOpened m) Q :=
  hm.zoom (fun _ hs => hs.volume) fun _ _ hs hv => ⟨hv, hs.vnode⟩

theorem onFile_keeps {m : Effect Working α} {cache : BlockCache} (hcache : cache.Arrays)
    (hm : Keeps (GuardedWorking sb A B) m Q) : Keeps (GuardedOpened sb A B) (onFile cache m) Q := by
  refine hm.zoom (fun s hs => ⟨⟨hs.volume, rfl⟩, hcache⟩) fun s w _ hw => ?_
  refine ⟨hw.allocating.volume, fun c hc => ?_⟩
  obtain rfl : w.cache = c := Option.some.inj hc
  exact hw.cache

end

theorem blockCache_keeps : Keeps (GuardedOpened sb A B) blockCache BlockCache.Arrays := by
  refine Keeps.get.bind fun s hs => ?_
  cases hcache : s.vnode.cache with
  | some cache => exact .pure (hs.vnode cache hcache)
  | none =>
    refine (onOpened_keeps kmalloc_keeps).bind fun _ _ => ?_
    refine (Keeps.modify fun t ht => ⟨ht.volume, fun c hc => ?_⟩).bind fun _ _ =>
      .pure BlockCache.empty_arrays
    obtain rfl : BlockCache.empty = c := Option.some.inj hc
    exact BlockCache.empty_arrays

/-- Reading is safe on every volume that was accepted. -/
theorem vnodeRead_keeps (hsb : Accepted sb) (offset : Nat) (buffer : Buffer) :
    Keeps (GuardedOpened sb A B) (vnodeRead offset buffer) fun _ => True :=
  blockCache_keeps.bind fun _ hcache => onFile_keeps hcache (readFileCached_keeps hsb offset buffer)

/-- Writing is, where the groups fit their bitmaps. -/
theorem vnodeWrite_keeps (hsb : Accepted sb) (hfit : A → BlocksFit sb) (offset : Nat)
    (buffer : Buffer) :
    Keeps (GuardedOpened sb A B) (vnodeWrite offset buffer) fun _ => True := by
  refine Keeps.get.bind fun s hs => .ite (fun _ => .pure trivial) fun _ => ?_
  refine .require fun _ => .require fun _ => ?_
  refine (blockSize_keeps (hsb.guarded hs.volume)).bind fun blockSize hsize => ?_
  refine .require fun _ => .require fun _ => .require fun _ => .require fun _ => ?_
  refine blockCache_keeps.bind fun cache hcache => ?_
  refine (onFile_keeps (Q := fun _ => True) hcache ?_).bind fun _ _ => ?_
  · refine Keeps.get.bind fun w _ => ?_
    refine (writeFrom_keeps hsb hfit hsize rfl (by omega) (by omega)).bind fun _ _ => ?_
    refine (Keeps.modify fun w hw => ?_).bind fun _ _ => commitWrite_keeps hsb _
    split
    next => exact ⟨hw.allocating, hw.cache⟩
    next => exact hw
  · exact (Keeps.modify fun s hs => ⟨hs.volume, hs.vnode⟩).bind fun _ _ => .pure trivial

/-- The entries of one table are freed. -/
theorem freeEntries_keeps (hsb : Accepted sb) (hfit : FreedFit sb) (hA : A) {table : Buffer}
    {left i : Nat}
    (hroom : 4 * (i + left) ≤ table.size) :
    Keeps (Guarded sb A B) (freeEntries table left i) fun _ => True := by
  induction left generalizing i with
  | zero => exact .pure trivial
  | succ left ih =>
    refine (get32_keeps (by omega)).bind fun block _ => ?_
    exact (Keeps.when fun _ => freeBlock_keeps hsb hfit hA block).bind fun _ _ => ih (by omega)

/-- So are the leaf tables under a root. -/
theorem freeLeaves_keeps (hsb : Accepted sb) (hfit : FreedFit sb) (hA : A) {root leaf : Buffer}
    {left i : Nat} (hroom : 4 * (i + left) ≤ root.size) (hleaf : leaf.size = blockSize) :
    Keeps (Guarded sb A B) (freeLeaves blockSize root left i leaf) fun _ => True := by
  induction left generalizing i leaf with
  | zero => exact .pure trivial
  | succ left ih =>
    refine (get32_keeps (by omega)).bind fun block _ => ?_
    refine .ite (fun _ => ih (by omega) hleaf) fun _ => ?_
    refine (readBlock_keeps (Nat.le_of_eq hleaf.symm)).bind fun leaf' hleaf' => ?_
    replace hleaf' := hleaf'.trans hleaf
    refine (freeEntries_keeps hsb hfit hA (by omega)).bind fun _ _ => ?_
    exact (freeBlock_keeps hsb hfit hA block).bind fun _ _ => ih (by omega) hleaf'

theorem setInodeBlock_keeps (i block : Nat) :
    Keeps (GuardedOpened sb A B) (setInodeBlock i block) fun _ => True :=
  .modify fun _ hs => ⟨hs.volume, hs.vnode⟩

/-- And the direct blocks. -/
theorem freeDirect_keeps (hsb : Accepted sb) (hfit : FreedFit sb) (hA : A) {left i : Nat}
    (hi : i + left ≤ 12) : Keeps (GuardedOpened sb A B) (freeDirect left i) fun _ => True := by
  induction left generalizing i with
  | zero => exact .pure trivial
  | succ left ih =>
    refine .demand (by omega) (Keeps.get.bind fun s _ => ?_)
    refine (Keeps.when fun _ => ?_).bind fun _ _ => ?_
    · exact (onOpened_keeps (freeBlock_keeps hsb hfit hA _)).bind fun _ _ => setInodeBlock_keeps i 0
    · exact ih (by omega)

/-- Truncating is, where the bits of freed blocks fit them too. -/
theorem vnodeTruncate_keeps (hsb : Accepted sb) (hfit : FreedFit sb) (hA : A) (size : Nat) :
    Keeps (GuardedOpened sb A B) (vnodeTruncate size) fun _ => True := by
  refine Keeps.get.bind fun s hs => .require fun _ => .require fun _ => ?_
  refine (blockSize_keeps (hsb.guarded hs.volume)).bind fun blockSize hsize => ?_
  refine .require fun _ => .require fun _ => ?_
  have hmalloc : Keeps (GuardedOpened sb A B) (onOpened (attempt kmalloc)) fun _ => True :=
    onOpened_keeps (kmalloc_keeps.attempt.mono fun _ _ => trivial)
  refine hmalloc.bind fun _ _ => hmalloc.bind fun _ _ => hmalloc.bind fun _ _ => ?_
  refine .require fun _ => ?_
  refine (freeDirect_keeps hsb hfit hA (by decide)).bind fun _ _ => ?_
  have hleaf : (Buffer.mk blockSize s.volume.stale).size = blockSize := rfl
  have hroom := Nat.le_of_eq hleaf.symm
  refine (Keeps.when fun _ => ?_).bind fun _ _ => (Keeps.when fun _ => ?_).bind fun _ _ => ?_
  · refine (onOpened_keeps (readBlock_keeps hroom)).bind fun table htable => ?_
    replace htable : table.size = blockSize := htable
    refine (onOpened_keeps (freeEntries_keeps hsb hfit hA (by omega))).bind fun _ _ => ?_
    exact (onOpened_keeps (freeBlock_keeps hsb hfit hA _)).bind fun _ _ => setInodeBlock_keeps 12 0
  · refine (onOpened_keeps (readBlock_keeps hroom)).bind fun root hroot => ?_
    replace hroot : root.size = blockSize := hroot
    refine (onOpened_keeps (freeLeaves_keeps hsb hfit hA ?_ hleaf)).bind fun _ _ => ?_
    · omega
    exact (onOpened_keeps (freeBlock_keeps hsb hfit hA _)).bind fun _ _ => setInodeBlock_keeps 13 0
  · refine Keeps.get.bind fun s _ => .require fun _ => ?_
    refine (Keeps.modify fun s hs => ⟨hs.volume, hs.vnode⟩).bind fun _ _ => ?_
    refine (onOpened_keeps (writeInode_keeps hsb _ _)).bind fun _ _ => ?_
    refine Keeps.modify fun s hs => ⟨hs.volume, fun c hc => ?_⟩
    obtain ⟨cache, -, rfl⟩ := Option.map_eq_some_iff.mp hc
    exact BlockCache.empty_arrays

end

/-! ## Mounting -/

/-- The superblock on the device. -/
def Volume.onDevice (v : Volume) : Superblock := fun x => v.image (1024 + x)

/-- The root inode can be looked for: there is one, the shift is defined and the divisor is
not zero. -/
def MountFits (sb : Superblock) : Prop :=
  2 ≤ sb.inodeCount → sb.logBlockSize < 32 ∧ sb.inodesPerGroup ≠ 0

theorem blockSize_large : ∀ n < 32, 2 < n → u32 (1024 * 2 ^ n) = 0 ∨ 4096 < u32 (1024 * 2 ^ n) := by
  decide

/-- No inode is read where blocks are too large. -/
theorem readGroupDescriptor_large {v : Volume} (hlog : v.superblock.logBlockSize < 32)
    (hlarge : 2 < v.superblock.logBlockSize) (group : Nat) :
    Keeps (fun w => w = v) (readGroupDescriptor group) fun _ => False := by
  refine Keeps.get.bind fun w hw => ?_
  subst hw
  refine (blockSize_value hlog).bind fun blockSize hsize => ?_
  refine .require fun hnonzero => .require fun hle => ?_
  exfalso
  obtain hzero | hmore := blockSize_large _ hlog hlarge
  · rw [hsize, hzero] at hnonzero
    exact hnonzero rfl
  · rw [hsize] at hle
    exact absurd hle (Nat.not_le.mpr hmore)

/-- Where the root inode can be read, the superblock is `Accepted`. -/
theorem readRoot_keeps {v : Volume} (h : MountFits v.superblock) :
    Keeps (fun w => w = v) (readInode rootInode) fun _ => Accepted v.superblock := by
  by_cases hsmall : Accepted v.superblock
  · have hguarded : ∀ w, w = v → Guarded v.superblock True True w := fun w hw =>
      hw ▸ ⟨.refl _ _ _, fun _ => trivial, fun _ => trivial⟩
    exact (readInode_any hguarded hsmall _).mono fun _ _ => hsmall
  · refine Keeps.get.bind fun w hw => .require fun hcount => ?_
    subst hw
    obtain ⟨hlog, hinodes⟩ := h hcount.2
    have hlarge : 2 < w.superblock.logBlockSize := by
      by_contra hle
      exact hsmall ⟨by omega, hinodes⟩
    refine (blockSize_value hlog).bind fun _ _ => (divide_keeps hinodes).bind fun group _ => ?_
    refine (modulo_keeps hinodes).bind fun index _ => ?_
    exact (readGroupDescriptor_large hlog hlarge group).bind fun _ hfalse => hfalse.elim

/-- The superblock in memory is that of the device. -/
theorem readSuperblock_meets (v : Volume) :
    Meets (fun w => w = v) readSuperblock
      (fun _ w => ∀ x < Superblock.bytes, w.superblock x = v.onDevice x) fun _ => True := by
  have htrue : ∀ w : Volume, w = v → True := fun _ _ => trivial
  refine Keeps.meets Keeps.get htrue fun w hw => ?_
  subst hw
  have hread : Keeps (fun u => u = w) (blockRead 2 2 ⟨1024, w.stale⟩ 0) fun r =>
      r = ⟨1024, copyFrom w.stale 0 w.image (2 * 512) (2 * 512)⟩ := by
    refine Keeps.get.bind fun u hu => ?_
    subst hu
    refine .require fun _ => .require fun _ => .require fun _ => .require fun _ => ?_
    exact .demand (by show 0 + 2 * 512 ≤ 1024; decide) (.pure rfl)
  refine Keeps.meets hread htrue fun buffer hbuffer => ?_
  subst hbuffer
  have hslice : Keeps (fun u => u = w)
      (Buffer.slice ⟨1024, copyFrom w.stale 0 w.image (2 * 512) (2 * 512)⟩ 0 Superblock.bytes)
      fun sb => ∀ x < Superblock.bytes, sb x = w.onDevice x := by
    refine .demand (by show 0 + Superblock.bytes ≤ 1024; decide) (.pure fun x hx => ?_)
    unfold Superblock.bytes at hx
    show copyFrom w.stale 0 w.image (2 * 512) (2 * 512) (0 + x) = w.image (1024 + x)
    unfold copyFrom
    rw [if_pos (by omega)]
    congr 1
    omega
  refine Keeps.meets hslice htrue fun sb hsb => ?_
  -- what was read is kept, also when the magic is not ext2's
  intro u _
  show Ending.Meets _ _ (Effect.require (Superblock.magic sb = 0xEF53) { u with superblock := sb })
  unfold Effect.require
  split
  next => exact hsb
  next => exact trivial

/-- Mounting is safe, and accepts no superblock that is not `Accepted`. -/
theorem mount_meets {v : Volume} (h : MountFits v.onDevice) :
    Meets (fun w => w = v) mount (fun root w => Accepted w.superblock ∧
      SameGeometry v.onDevice w.superblock ∧ root.cache = none) fun _ => True := by
  refine (readSuperblock_meets v).bind fun _ w hw => ?_
  have hword : ∀ a, a + 4 ≤ Superblock.bytes → get32 w.superblock a = get32 v.onDevice a :=
    fun a ha => get32_congr fun i hi => hw _ (by omega)
  have hsame : SameGeometry v.onDevice w.superblock :=
    ⟨hword 0 (by decide), hword 4 (by decide), hword 20 (by decide), hword 24 (by decide),
      hword 32 (by decide), hword 40 (by decide)⟩
  have hfits : MountFits w.superblock := by
    unfold MountFits
    rw [hsame.inodeCount, hsame.logBlockSize, hsame.inodesPerGroup]
    exact h
  refine Keeps.meets (readRoot_keeps hfits) (fun _ _ => trivial) (fun inode hsb => ?_) w rfl
  refine .require (fun _ _ => trivial) fun _ => ?_
  have haccepted : ∀ u, u = w → Guarded w.superblock True True u := fun u hu =>
    hu ▸ ⟨.refl _ _ _, fun _ => trivial, fun _ => trivial⟩
  refine Meets.mono (P := Guarded w.superblock True True) (Keeps.bind kmalloc_keeps fun _ _ => ?_)
    haccepted (fun root u hu => ⟨hsb.guarded hu.1, hsame.trans hu.1.geometry, hu.2⟩)
    fun _ _ => trivial
  exact .pure rfl

end MeatySkeleton.Ext2
