import MeatySkeleton.Ext2.Files
import MeatySkeleton.Ext2.Safety

/-!
# Lookups in the block map

`ext2_get_data_block` may load up to two tables into the cache on its way. A lookup that
returned can be repeated: the tables it needs are in the cache then, so it returns the same
block and changes nothing (`getDataBlock_again`).
-/

namespace MeatySkeleton.Ext2

open Lib Lib.Effect

/-! ## Blocks of the device -/

/-- The device has all sectors of block `n`. -/
def Volume.HasBlock (v : Volume) (blockSize n : Nat) : Prop :=
  (n + 1) * (blockSize / 512) ≤ v.sectorCount

instance (v : Volume) (blockSize n : Nat) : Decidable (v.HasBlock blockSize n) :=
  inferInstanceAs (Decidable (_ ≤ _))

section
variable {v : Volume} {b : Buffer} {blockSize n lba count offset : Nat}

/-- Sectors that the device has. -/
def Volume.HasSectors (v : Volume) (lba count : Nat) : Prop :=
  count ≠ 0 ∧ v.sectorCount ≠ 0 ∧ lba < v.sectorCount ∧ count ≤ v.sectorCount - lba

theorem blockRead_eq_done {b' : Buffer} {w : Volume} :
    blockRead lba count b offset v = .done b' w ↔
      v.HasSectors lba count ∧ offset + count * 512 ≤ b.size ∧
        { b with bytes := copyFrom b.bytes offset v.image (lba * 512) (count * 512) } = b' ∧
        v = w := by
  unfold blockRead Volume.HasSectors
  rw [get_bind, require_eq_done, require_eq_done, require_eq_done, require_eq_done, demand_eq_done,
    pure_eq_done]
  simp only [and_assoc]

theorem BlockSized.sectors (h : BlockSized blockSize) :
    0 < blockSize / 512 ∧ blockSize / 512 * 512 = blockSize ∧ blockSize % 512 = 0 := by
  unfold BlockSized at h
  omega

theorem hasSectors_iff (h : BlockSized blockSize) :
    v.HasSectors (n * (blockSize / 512)) (blockSize / 512) ↔ v.HasBlock blockSize n := by
  have hsectors := h.sectors.1
  unfold Volume.HasSectors Volume.HasBlock
  rw [Nat.succ_mul]
  omega

/-- Reading a block leaves the volume alone. -/
theorem readBlock_eq_done {b' : Buffer} {w : Volume} (h : readBlock blockSize n b v = .done b' w) :
    v = w ∧ b'.size = b.size := by
  unfold readBlock at h
  rw [require_eq_done, require_eq_done, blockRead_eq_done] at h
  obtain ⟨-, -, -, -, rfl, rfl⟩ := h
  exact ⟨rfl, rfl⟩

theorem readBlock_done (h : BlockSized blockSize) (hblock : v.HasBlock blockSize n)
    (hb : blockSize ≤ b.size) : readBlock blockSize n b v =
      .done { b with bytes := copyFrom b.bytes 0 v.image (n * blockSize) blockSize } v := by
  have hle := h.le
  obtain ⟨-, hsize, haligned⟩ := h.sectors
  unfold readBlock
  rw [require_bind (by omega), require_bind haligned]
  refine blockRead_eq_done.mpr ⟨(hasSectors_iff h).mpr hblock, by omega, ?_, rfl⟩
  rw [Nat.mul_assoc, hsize]

theorem readBlock_failed (h : BlockSized blockSize) (hblock : ¬v.HasBlock blockSize n) :
    readBlock blockSize n b v = .failed v := by
  have hle := h.le
  obtain ⟨-, -, haligned⟩ := h.sectors
  unfold readBlock
  rw [require_bind (by omega), require_bind haligned]
  unfold blockRead
  rw [get_bind]
  -- the first of the four checks that does not hold
  by_cases h1 : blockSize / 512 ≠ 0
  · rw [require_bind h1]
    by_cases h2 : v.sectorCount ≠ 0
    · rw [require_bind h2]
      by_cases h3 : n * (blockSize / 512) < v.sectorCount
      · rw [require_bind h3]
        exact require_failed fun h4 => hblock ((hasSectors_iff h).mp ⟨h1, h2, h3, h4⟩)
      · exact require_failed h3
    · exact require_failed h2
  · exact require_failed h1

end

/-! ## A lookup and the same lookup again -/

variable {s t : Working} {i n blockSize : Nat}

theorem inodeBlock_eq_done : inodeBlock i s = .done n t ↔ i < 15 ∧ s.inode.block i = n ∧ s = t := by
  unfold inodeBlock
  rw [demand_eq_done, get_bind, pure_eq_done]

theorem onDevice_eq_done {α : Type} {m : Effect Volume α} {a : α} :
    onDevice m s = .done a t ↔ ∃ v, m s.volume = .done a v ∧
      { s with allocating := { s.allocating with volume := v } } = t := by
  unfold onDevice onAllocating onVolume
  rw [zoom_eq_done]
  constructor
  · rintro ⟨v, hv, ht⟩
    obtain ⟨w, hw, rfl⟩ := zoom_eq_done.mp hv
    exact ⟨w, hw, ht⟩
  · rintro ⟨v, hv, ht⟩
    exact ⟨_, zoom_eq_done.mpr ⟨v, hv, rfl⟩, ht⟩

theorem blockSize_again {σ : Type} {sb : Superblock} {a a' : σ} {r : Nat}
    (h : sb.blockSize a = .done r a') : a = a' ∧ r = u32 (1024 * 2 ^ sb.logBlockSize) ∧
      ∀ {τ : Type} (x : τ), sb.blockSize x = .done r x := by
  unfold Superblock.blockSize shiftLeft at h ⊢
  rw [demand_eq_done, pure_eq_done] at h
  obtain ⟨hlog, rfl, rfl⟩ := h
  refine ⟨rfl, rfl, fun x => ?_⟩
  rw [demand_bind hlog]
  rfl

theorem divide_eq_done {σ : Type} {a b r : Nat} {x y : σ} :
    divide a b x = .done r y ↔ b ≠ 0 ∧ a / b = r ∧ x = y := by
  unfold divide
  rw [demand_eq_done, pure_eq_done]

theorem modulo_eq_done {σ : Type} {a b r : Nat} {x y : σ} :
    modulo a b x = .done r y ↔ b ≠ 0 ∧ a % b = r ∧ x = y := by
  unfold modulo
  rw [demand_eq_done, pure_eq_done]

theorem u32_of_lt {n : Nat} (h : n < 2 ^ 32) : u32 n = n := Nat.mod_eq_of_lt h

theorem divide_done {σ : Type} {a b : Nat} {x : σ} (h : b ≠ 0) : divide a b x = .done (a / b) x :=
  divide_eq_done.mpr ⟨h, rfl, rfl⟩

theorem modulo_done {σ : Type} {a b : Nat} {x : σ} (h : b ≠ 0) : modulo a b x = .done (a % b) x :=
  modulo_eq_done.mpr ⟨h, rfl, rfl⟩

theorem slice_eq_done {σ : Type} {b : Buffer} {i k : Nat} {bytes : Mem} {x y : σ} :
    b.slice i k x = .done bytes y ↔ i + k ≤ b.size ∧ (fun j => b.bytes (i + j)) = bytes ∧ x = y := by
  unfold Buffer.slice
  rw [demand_eq_done, pure_eq_done]

theorem store_done {σ : Type} {b : Buffer} {i k : Nat} {bytes : Mem} {x : σ} (h : i + k ≤ b.size) :
    b.store i bytes k x = .done { b with bytes := copyFrom b.bytes i bytes 0 k } x := by
  unfold Buffer.store
  rw [demand_bind h]
  rfl

theorem slice_done {σ : Type} {b : Buffer} {i k : Nat} {x : σ} (h : i + k ≤ b.size) :
    b.slice i k x = .done (fun j => b.bytes (i + j)) x :=
  slice_eq_done.mpr ⟨h, rfl, rfl⟩

theorem entry_eq_done {σ : Type} {table : CachedTable} {x y : σ} :
    table.entry i x = .done n y ↔
      4 * i + 4 ≤ table.entries.size ∧ get32 table.entries.bytes (4 * i) = n ∧ x = y := by
  unfold CachedTable.entry Buffer.get32
  rw [demand_eq_done, pure_eq_done]

/-- What is done unless the condition holds has left the state alone, or was done. -/
theorem when_eq_done {σ : Type} {c : Prop} [Decidable c] {m : Effect σ Unit} {x y : σ} {u : Unit}
    (h : when c m x = .done u y) : (¬c ∧ x = y) ∨ (c ∧ m x = .done u y) := by
  unfold when at h
  split at h
  next hc => exact .inr ⟨hc, h⟩
  next hc => exact .inl ⟨hc, (pure_eq_done.mp h).2⟩

theorem when_neg {σ : Type} {c : Prop} [Decidable c] {m : Effect σ Unit} {β : Type}
    {k : Unit → Effect σ β} {x : σ} (hc : ¬c) : (when c m >>= k) x = k () x := by
  unfold when
  rw [if_neg hc]
  rfl

theorem when_pos {σ : Type} {c : Prop} [Decidable c] {m : Effect σ Unit} {β : Type}
    {k : Unit → Effect σ β} {x : σ} (hc : c) : (when c m >>= k) x = (m >>= k) x := by
  unfold when
  rw [if_pos hc]

/-! ## The tables of the cache -/

inductive Slot where
  | single
  | root
  | leaf
deriving DecidableEq

def BlockCache.table (c : BlockCache) : Slot → CachedTable
  | .single => c.single
  | .root => c.doubleRoot
  | .leaf => c.doubleLeaf

/-- A table read from block `n` by a lookup. The leaf table in the cache belonged to the root
table before. -/
def BlockCache.loaded (c : BlockCache) (slot : Slot) (n : Nat) (entries : Buffer) : BlockCache :=
  match slot with
  | .single => { c with single := { c.single with entries, blockNumber := n, valid := true } }
  | .root =>
    { c with
      doubleRoot := { c.doubleRoot with entries, blockNumber := n, valid := true }
      doubleLeaf := { c.doubleLeaf with valid := false } }
  | .leaf =>
    { c with doubleLeaf := { c.doubleLeaf with entries, blockNumber := n, valid := true } }

theorem BlockCache.loaded_table (c : BlockCache) (slot : Slot) (n : Nat) (entries : Buffer) :
    (c.loaded slot n entries).table slot =
      { c.table slot with entries, blockNumber := n, valid := true } := by
  cases slot with
  | single => rfl
  | root => rfl
  | leaf => rfl

/-- The table of block `n` is in its place in the cache. -/
def hold (blockSize : Nat) (slot : Slot) (n : Nat) : Effect Working Unit := do
  let s ← get
  when (¬(s.cache.table slot).Holds n) do
    let entries ← onDevice (readBlock blockSize n (s.cache.table slot).entries)
    modify fun s => { s with cache := s.cache.loaded slot n entries }

def entryOf (slot : Slot) (i : Nat) : Effect Working Nat := do
  let s ← get
  (s.cache.table slot).entry i

/-- The single-indirect branch of `ext2_get_data_block`. -/
def lookupSingle (blockSize index : Nat) : Effect Working Nat := do
  let table ← inodeBlock 12
  if table = 0 then return 0
  else
    hold blockSize .single table
    entryOf .single index

/-- Its double-indirect branch. -/
def lookupDouble (blockSize index : Nat) : Effect Working Nat := do
  let root ← inodeBlock 13
  if root = 0 then return 0
  else
    hold blockSize .root root
    let leaf ← entryOf .root (index / (blockSize / 4))
    if leaf = 0 then return 0
    else
      hold blockSize .leaf leaf
      entryOf .leaf (index % (blockSize / 4))

theorem onDevice_bind {α β : Type} (m : Effect Volume α) (f : α → Effect Working β) (s : Working) :
    (onDevice m >>= f) s =
      match m s.volume with
      | .done a v => f a { s with allocating := { s.allocating with volume := v } }
      | .failed v => .failed { s with allocating := { s.allocating with volume := v } }
      | .fault => .fault := by
  show Effect.bind (onDevice m) f s = _
  unfold Effect.bind onDevice onAllocating onVolume zoom
  cases hm : m s.volume with
  | done a v =>
    rw [Working.volume] at hm
    dsimp only
    rw [hm]
  | failed v =>
    rw [Working.volume] at hm
    dsimp only
    rw [hm]
  | fault =>
    rw [Working.volume] at hm
    dsimp only
    rw [hm]

theorem when_congr {σ : Type} {c : Prop} [Decidable c] {m m' : Effect σ Unit} {s : σ}
    (h : c → m s = m' s) : when c m s = when c m' s := by
  unfold when
  split
  next hc => exact h hc
  next => rfl

/-- `hold`, as it stands in `ext2_get_data_block`. -/
theorem hold_single (blockSize n : Nat) (s : Working) :
    when (¬s.cache.single.Holds n) (do
      let entries ← onDevice (readBlock blockSize n s.cache.single.entries)
      setSingle { s.cache.single with entries, blockNumber := n, valid := true }) s =
    hold blockSize .single n s := by
  refine when_congr fun _ => ?_
  rw [onDevice_bind, onDevice_bind]
  rfl

theorem hold_root (blockSize n : Nat) (s : Working) :
    when (¬s.cache.doubleRoot.Holds n) (do
      let entries ← onDevice (readBlock blockSize n s.cache.doubleRoot.entries)
      setDoubleRoot { s.cache.doubleRoot with entries, blockNumber := n, valid := true }
      setDoubleLeaf { s.cache.doubleLeaf with valid := false }) s =
    hold blockSize .root n s := by
  refine when_congr fun _ => ?_
  rw [onDevice_bind, onDevice_bind]
  rfl

theorem hold_leaf (blockSize n : Nat) (s : Working) :
    when (¬s.cache.doubleLeaf.Holds n) (do
      let entries ← onDevice (readBlock blockSize n s.cache.doubleLeaf.entries)
      setDoubleLeaf { s.cache.doubleLeaf with entries, blockNumber := n, valid := true }) s =
    hold blockSize .leaf n s := by
  refine when_congr fun _ => ?_
  rw [onDevice_bind, onDevice_bind]
  rfl

theorem getDataBlock_eq {bs : Nat} (hsize : s.volume.superblock.blockSize s = .done bs s)
    (hle : bs ≤ 4096) (hbs : bs / 4 ≠ 0) :
    getDataBlock i s = (if i < 12 then inodeBlock i
      else if i - 12 < bs / 4 then lookupSingle bs (i - 12)
      else if i - 12 - bs / 4 < bs / 4 * (bs / 4) then lookupDouble bs (i - 12 - bs / 4)
      else fail : Effect Working Nat) s := by
  unfold getDataBlock
  by_cases hdirect : i < 12
  · rw [if_pos hdirect, if_pos hdirect]
  rw [if_neg hdirect, if_neg hdirect, get_bind, bind_done hsize, require_bind hle, require_bind hbs]
  by_cases hsingle : i - 12 < bs / 4
  · rw [if_pos hsingle, if_pos hsingle]
    unfold lookupSingle
    have htable : inodeBlock 12 s = .done (s.inode.block 12) s := rfl
    rw [bind_done htable, bind_done htable]
    by_cases hzero : s.inode.block 12 = 0
    · rw [if_pos hzero, if_pos hzero]
    · rw [if_neg hzero, if_neg hzero]
      exact bind_congr (hold_single bs _ s)
  rw [if_neg hsingle, if_neg hsingle]
  by_cases hdouble : i - 12 - bs / 4 < bs / 4 * (bs / 4)
  · rw [if_pos hdouble, if_pos hdouble]
    unfold lookupDouble divide modulo
    have hroot : inodeBlock 13 s = .done (s.inode.block 13) s := rfl
    rw [bind_done hroot, bind_done hroot]
    by_cases hzero : s.inode.block 13 = 0
    · rw [if_pos hzero, if_pos hzero]
    rw [if_neg hzero, if_neg hzero, demand_pos hbs]
    refine (bind_congr (hold_root bs _ s)).trans (bind_cont fun _ t _ => ?_)
    rw [get_bind]
    refine bind_cont fun leaf u hleaf => ?_
    obtain ⟨-, -, rfl⟩ := entry_eq_done.mp hleaf
    by_cases habsent : leaf = 0
    · rw [if_pos habsent, if_pos habsent]
    · rw [if_neg habsent, if_neg habsent]
      exact bind_congr (hold_leaf bs leaf t)
  · rw [if_neg hdouble, if_neg hdouble]

/-! ## Once more -/

/-- A lookup changes nothing but the cache. -/
structure SameFile (s t : Working) : Prop where
  allocating : t.allocating = s.allocating
  inode : t.inode = s.inode

theorem SameFile.refl (s : Working) : SameFile s s := ⟨rfl, rfl⟩

theorem SameFile.trans {u : Working} (h : SameFile s t) (h' : SameFile t u) : SameFile s u :=
  ⟨h'.allocating.trans h.allocating, h'.inode.trans h.inode⟩

variable {slot : Slot}

theorem hold_held (h : (s.cache.table slot).Holds n) : hold blockSize slot n s = .done () s := by
  unfold hold
  rw [get_bind]
  unfold when
  rw [if_neg (not_not.mpr h)]
  rfl

theorem hold_cases {u : Unit} (h : hold blockSize slot n s = .done u t) :
    ((s.cache.table slot).Holds n ∧ t = s) ∨ (¬(s.cache.table slot).Holds n ∧ ∃ entries,
      readBlock blockSize n (s.cache.table slot).entries s.volume = .done entries s.volume ∧
      t = { s with cache := s.cache.loaded slot n entries }) := by
  by_cases hheld : (s.cache.table slot).Holds n
  · rw [hold_held hheld] at h
    cases h
    exact .inl ⟨hheld, rfl⟩
  · unfold hold at h
    rw [get_bind] at h
    unfold when at h
    rw [if_pos hheld] at h
    obtain ⟨entries, s1, hread, hset⟩ := bind_eq_done.mp h
    obtain ⟨v, hv, rfl⟩ := onDevice_eq_done.mp hread
    obtain ⟨rfl, -⟩ := readBlock_eq_done hv
    cases hset
    exact .inr ⟨hheld, entries, hv, rfl⟩

/-- The table is in the cache afterwards. -/
theorem hold_done {u : Unit} (h : hold blockSize slot n s = .done u t) :
    SameFile s t ∧ (t.cache.table slot).Holds n := by
  rcases hold_cases h with ⟨hheld, rfl⟩ | ⟨-, entries, -, rfl⟩
  · exact ⟨.refl _, hheld⟩
  · refine ⟨⟨rfl, rfl⟩, ?_⟩
    show ((s.cache.loaded slot n entries).table slot).Holds n
    rw [BlockCache.loaded_table]
    exact ⟨rfl, rfl⟩

/-- Loading a leaf table leaves the root table in the cache. -/
theorem hold_leaf_root {u : Unit} (h : hold blockSize .leaf n s = .done u t) :
    t.cache.table .root = s.cache.table .root := by
  rcases hold_cases h with ⟨-, rfl⟩ | ⟨-, entries, -, rfl⟩
  · rfl
  · rfl

theorem entryOf_eq_done : entryOf slot i s = .done n t ↔
    4 * i + 4 ≤ (s.cache.table slot).entries.size ∧
      get32 (s.cache.table slot).entries.bytes (4 * i) = n ∧ s = t := by
  unfold entryOf
  rw [get_bind, entry_eq_done]

theorem lookupSingle_again (h : lookupSingle blockSize i s = .done n t) :
    SameFile s t ∧ n < 2 ^ 32 ∧ lookupSingle blockSize i t = .done n t := by
  unfold lookupSingle at h ⊢
  obtain ⟨table, s1, htable, h⟩ := bind_eq_done.mp h
  obtain ⟨hi, hnumber, rfl⟩ := inodeBlock_eq_done.mp htable
  by_cases hzero : table = 0
  · rw [if_pos hzero] at h
    obtain ⟨rfl, rfl⟩ := pure_eq_done.mp h
    refine ⟨.refl s, by decide, ?_⟩
    rw [bind_done (inodeBlock_eq_done.mpr ⟨hi, hnumber, rfl⟩), if_pos hzero]
    rfl
  · rw [if_neg hzero] at h
    obtain ⟨u, s1, hhold, hentry⟩ := bind_eq_done.mp h
    obtain ⟨hsame, hheld⟩ := hold_done hhold
    obtain ⟨hroom, hn, rfl⟩ := entryOf_eq_done.mp hentry
    refine ⟨hsame, hn ▸ get32_lt _ _, ?_⟩
    rw [bind_done (inodeBlock_eq_done.mpr ⟨hi, hsame.inode ▸ hnumber, rfl⟩), if_neg hzero,
      bind_done (hold_held hheld)]
    exact hentry

theorem lookupDouble_again (h : lookupDouble blockSize i s = .done n t) :
    SameFile s t ∧ n < 2 ^ 32 ∧ lookupDouble blockSize i t = .done n t := by
  unfold lookupDouble at h ⊢
  obtain ⟨root, s1, hroot, h⟩ := bind_eq_done.mp h
  obtain ⟨hi, hnumber, rfl⟩ := inodeBlock_eq_done.mp hroot
  by_cases hzero : root = 0
  · rw [if_pos hzero] at h
    obtain ⟨rfl, rfl⟩ := pure_eq_done.mp h
    refine ⟨.refl s, by decide, ?_⟩
    rw [bind_done (inodeBlock_eq_done.mpr ⟨hi, hnumber, rfl⟩), if_pos hzero]
    rfl
  rw [if_neg hzero] at h
  obtain ⟨u, s1, hhold, h⟩ := bind_eq_done.mp h
  obtain ⟨hsame, hheld⟩ := hold_done hhold
  obtain ⟨leaf, s2, hleaf, h⟩ := bind_eq_done.mp h
  obtain ⟨hroom, hentry, rfl⟩ := entryOf_eq_done.mp hleaf
  by_cases habsent : leaf = 0
  · rw [if_pos habsent] at h
    obtain ⟨rfl, rfl⟩ := pure_eq_done.mp h
    refine ⟨hsame, by decide, ?_⟩
    rw [bind_done (inodeBlock_eq_done.mpr ⟨hi, hsame.inode ▸ hnumber, rfl⟩), if_neg hzero,
      bind_done (hold_held hheld), bind_done hleaf, if_pos habsent]
    rfl
  · rw [if_neg habsent] at h
    obtain ⟨u, s3, hhold', hlast⟩ := bind_eq_done.mp h
    obtain ⟨hsame', hheld'⟩ := hold_done hhold'
    obtain ⟨hroom', hn, rfl⟩ := entryOf_eq_done.mp hlast
    -- the root table is still there
    have hkept := hold_leaf_root hhold'
    have hall := hsame.trans hsame'
    have hleaf' : entryOf .root (i / (blockSize / 4)) s3 = .done leaf s3 := by
      rw [entryOf_eq_done, hkept]
      exact ⟨hroom, hentry, rfl⟩
    refine ⟨hall, hn ▸ get32_lt _ _, ?_⟩
    rw [bind_done (inodeBlock_eq_done.mpr ⟨hi, hall.inode ▸ hnumber, rfl⟩), if_neg hzero,
      bind_done (hold_held (hkept ▸ hheld)), bind_done hleaf', if_neg habsent,
      bind_done (hold_held hheld')]
    exact hlast

/-- A lookup beyond the direct blocks has a block size, which does not change. -/
theorem getDataBlock_size (hdirect : ¬i < 12) (h : getDataBlock i s = .done n t) :
    ∃ bs, bs ≤ 4096 ∧ bs / 4 ≠ 0 ∧ bs = u32 (1024 * 2 ^ s.volume.superblock.logBlockSize) ∧
      ∀ {τ : Type} (x : τ), s.volume.superblock.blockSize x = .done bs x := by
  unfold getDataBlock at h
  rw [if_neg hdirect, get_bind] at h
  obtain ⟨bs, s1, hsize, h⟩ := bind_eq_done.mp h
  obtain ⟨rfl, hbs, hsize'⟩ := blockSize_again hsize
  rw [require_eq_done, require_eq_done] at h
  exact ⟨bs, h.1, h.2.1, hbs, hsize'⟩

/-- A lookup leaves the file alone, and the same lookup again leaves the cache alone, too. -/
theorem getDataBlock_again (h : getDataBlock i s = .done n t) :
    SameFile s t ∧ n < 2 ^ 32 ∧ getDataBlock i t = .done n t := by
  by_cases hdirect : i < 12
  · have h' := h
    unfold getDataBlock at h'
    rw [if_pos hdirect] at h'
    obtain ⟨-, hn, rfl⟩ := inodeBlock_eq_done.mp h'
    exact ⟨.refl s, hn ▸ get32_lt _ _, h⟩
  obtain ⟨bs, hle, hbs, -, hsize⟩ := getDataBlock_size hdirect h
  rw [getDataBlock_eq (hsize s) hle hbs, if_neg hdirect] at h
  have hback : ∀ {m : Effect Working Nat},
      (if i < 12 then inodeBlock i
        else if i - 12 < bs / 4 then lookupSingle bs (i - 12)
        else if i - 12 - bs / 4 < bs / 4 * (bs / 4) then lookupDouble bs (i - 12 - bs / 4)
        else fail) = m → SameFile s t → m t = .done n t → getDataBlock i t = .done n t := by
    intro m hm hsame hresult
    rw [@getDataBlock_eq t i bs ?_ hle hbs, hm, hresult]
    rw [Working.volume, hsame.allocating]
    exact hsize t
  by_cases hsingle : i - 12 < bs / 4
  · rw [if_pos hsingle] at h
    obtain ⟨hsame, hn, hresult⟩ := lookupSingle_again h
    refine ⟨hsame, hn, hback ?_ hsame hresult⟩
    rw [if_neg hdirect, if_pos hsingle]
  rw [if_neg hsingle] at h
  by_cases hdouble : i - 12 - bs / 4 < bs / 4 * (bs / 4)
  · rw [if_pos hdouble] at h
    obtain ⟨hsame, hn, hresult⟩ := lookupDouble_again h
    refine ⟨hsame, hn, hback ?_ hsame hresult⟩
    rw [if_neg hdirect, if_neg hsingle, if_pos hdouble]
  · rw [if_neg hdouble] at h
    cases h

end MeatySkeleton.Ext2
