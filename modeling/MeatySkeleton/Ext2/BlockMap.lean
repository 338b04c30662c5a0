import MeatySkeleton.Ext2.Lookups

/-!
# The block map of a file

What the entries of an inode and of the tables in the cache or on the device map the blocks of
a file to, and that `ext2_get_data_block` returns just that. A lookup may replace the tables in
the cache, but not what is mapped, as long as the leaf table there is the one on the device.
-/

namespace MeatySkeleton.Ext2

open Lib Lib.Effect

/-- The size of a block, where the shift is defined. -/
def Superblock.blockBytes (sb : Superblock) : Nat := u32 (1024 * 2 ^ sb.logBlockSize)

def Volume.blockBytes (v : Volume) : Nat := v.superblock.blockBytes

/-- The contents of block `n` of the device. -/
def Volume.block (v : Volume) (n : Nat) : Mem := fun x => v.image (n * v.blockBytes + x)

/-- The table of block `n`, in the cache or on the device. -/
def Working.tableAt (s : Working) (slot : Slot) (n : Nat) : Mem :=
  if (s.cache.table slot).Holds n then (s.cache.table slot).entries.bytes else s.volume.block n

/-- An entry of the table of block `n`; no table has holes only. -/
def Working.entryAt (s : Working) (slot : Slot) (n i : Nat) : Nat :=
  if n = 0 then 0 else get32 (s.tableAt slot n) (4 * i)

/-- The leaf table for an index behind the single-indirect blocks. -/
def Working.leafOf (s : Working) (index : Nat) : Nat :=
  s.entryAt .root (s.inode.block 13) (index / (s.volume.blockBytes / 4))

/-- The block that block `i` of the file is mapped to, zero for a hole. -/
def Working.mapped (s : Working) (i : Nat) : Option Nat :=
  let entries := s.volume.blockBytes / 4
  if i < 12 then some (s.inode.block i)
  else if i - 12 < entries then some (s.entryAt .single (s.inode.block 12) (i - 12))
  else if i - 12 - entries < entries * entries then
    some (s.entryAt .leaf (s.leafOf (i - 12 - entries)) ((i - 12 - entries) % entries))
  else none

/-- A file on an accepted volume, with no unwritten entries in the leaf table of the cache. -/
structure Settled (s : Working) : Prop where
  accepted : Accepted s.volume.superblock
  arrays : s.cache.Arrays
  leaf : s.cache.doubleLeaf.valid = true → ∀ x < s.volume.blockBytes,
    s.cache.doubleLeaf.entries.bytes x = s.volume.block s.cache.doubleLeaf.blockNumber x

/-- A file on an accepted volume. -/
structure Usable (s : Working) : Prop where
  accepted : Accepted s.volume.superblock
  arrays : s.cache.Arrays

variable {s t : Working} {slot : Slot} {i n : Nat}

theorem Settled.usable (h : Settled s) : Usable s := ⟨h.accepted, h.arrays⟩

theorem Accepted.blockSized {sb : Superblock} (h : Accepted sb) : BlockSized sb.blockBytes := by
  have hlog : sb.logBlockSize < 3 := Nat.lt_succ_of_le h.blocks
  have hall : ∀ log < 3, BlockSized (u32 (1024 * 2 ^ log)) := by
    unfold BlockSized
    decide
  exact hall _ hlog

theorem Accepted.blockSize {σ : Type} {sb : Superblock} (h : Accepted sb) (x : σ) :
    sb.blockSize x = .done sb.blockBytes x := by
  have hlog := h.blocks
  unfold Superblock.blockSize shiftLeft
  rw [demand_bind (by omega)]
  rfl

theorem BlockCache.Arrays.table {c : BlockCache} (h : c.Arrays) (slot : Slot) :
    (c.table slot).entries.size = 4096 := by
  cases slot with
  | single => exact h.single
  | root => exact h.doubleRoot
  | leaf => exact h.doubleLeaf

theorem BlockCache.Arrays.loaded {c : BlockCache} (h : c.Arrays) {entries : Buffer}
    (hentries : entries.size = 4096) (slot : Slot) (n : Nat) : (c.loaded slot n entries).Arrays := by
  cases slot with
  | single => exact ⟨hentries, h.doubleRoot, h.doubleLeaf⟩
  | root => exact ⟨h.single, hentries, h.doubleLeaf⟩
  | leaf => exact ⟨h.single, h.doubleRoot, hentries⟩

/-! ## Loading a table -/

/-- Block `n`, read into the array of a table. -/
def Working.readInto (s : Working) (slot : Slot) (n : Nat) : Buffer :=
  { (s.cache.table slot).entries with
    bytes := copyFrom (s.cache.table slot).entries.bytes 0 s.volume.image (n * s.volume.blockBytes)
      s.volume.blockBytes }

/-- The state once the table of block `n` is in the cache. -/
def Working.holding (s : Working) (slot : Slot) (n : Nat) : Working :=
  if (s.cache.table slot).Holds n then s
  else { s with cache := s.cache.loaded slot n (s.readInto slot n) }

theorem readInto_bytes {x : Nat} (h : x < s.volume.blockBytes) :
    (s.readInto slot n).bytes x = s.volume.block n x := by
  show copyFrom _ 0 _ _ _ x = _
  unfold copyFrom
  rw [if_pos (by omega), Nat.sub_zero]
  rfl

theorem Settled.blockSized (h : Settled s) : BlockSized s.volume.blockBytes := h.accepted.blockSized

theorem Usable.blockSized (h : Usable s) : BlockSized s.volume.blockBytes := h.accepted.blockSized

/-- What `hold` does, unless the device fails. -/
theorem hold_done_holding (h : Settled s) {u : Unit}
    (hdone : hold s.volume.blockBytes slot n s = .done u t) : t = s.holding slot n := by
  unfold Working.holding
  rcases hold_cases hdone with ⟨hheld, rfl⟩ | ⟨hheld, entries, hread, rfl⟩
  · rw [if_pos hheld]
  · rw [if_neg hheld]
    have hsized := h.blockSized
    have hdevice : s.volume.HasBlock s.volume.blockBytes n := by
      by_contra hnone
      rw [readBlock_failed hsized hnone] at hread
      cases hread
    have hroom : s.volume.blockBytes ≤ (s.cache.table slot).entries.size := by
      rw [h.arrays.table]
      exact hsized.le.2
    rw [readBlock_done hsized hdevice hroom] at hread
    cases hread
    rfl

theorem hold_of_hasBlock (slot : Slot) (h : Usable s) (hdevice : s.volume.HasBlock s.volume.blockBytes n) :
    hold s.volume.blockBytes slot n s = .done () (s.holding slot n) := by
  unfold Working.holding
  by_cases hheld : (s.cache.table slot).Holds n
  · rw [hold_held hheld, if_pos hheld]
  · have hroom : s.volume.blockBytes ≤ (s.cache.table slot).entries.size := by
      rw [h.arrays.table]
      exact h.blockSized.le.2
    unfold hold
    rw [get_bind, if_neg hheld]
    unfold when
    rw [if_pos hheld, onDevice_bind, readBlock_done h.blockSized hdevice hroom]
    rfl

theorem holding_same (s : Working) (slot : Slot) (n : Nat) : SameFile s (s.holding slot n) := by
  unfold Working.holding
  split
  next => exact .refl s
  next => exact ⟨rfl, rfl⟩

theorem SameFile.volume (h : SameFile s t) : t.volume = s.volume :=
  congrArg Allocating.volume h.allocating

theorem holding_held (s : Working) (slot : Slot) (n : Nat) :
    ((s.holding slot n).cache.table slot).Holds n := by
  unfold Working.holding
  split
  next h => exact h
  next =>
    rw [BlockCache.loaded_table]
    exact ⟨rfl, rfl⟩

/-- The table that is held is the one that was mapped. -/
theorem holding_entry (hi : 4 * i + 4 ≤ s.volume.blockBytes) :
    get32 ((s.holding slot n).cache.table slot).entries.bytes (4 * i) =
      get32 (s.tableAt slot n) (4 * i) := by
  unfold Working.holding Working.tableAt
  by_cases hheld : (s.cache.table slot).Holds n
  · rw [if_pos hheld, if_pos hheld]
  · rw [if_neg hheld, if_neg hheld, BlockCache.loaded_table]
    exact get32_congr fun k hk => readInto_bytes (by omega)

theorem Usable.holding (h : Usable s) (slot : Slot) (n : Nat) : Usable (s.holding slot n) := by
  unfold Working.holding
  split
  next => exact h
  next =>
    have hsize : (s.readInto slot n).size = 4096 := h.arrays.table slot
    exact ⟨h.accepted, h.arrays.loaded hsize slot n⟩

theorem Settled.holding (h : Settled s) (slot : Slot) (n : Nat) : Settled (s.holding slot n) := by
  unfold Working.holding
  split
  next => exact h
  next =>
    have hsize : (s.readInto slot n).size = 4096 := h.arrays.table slot
    refine ⟨h.accepted, h.arrays.loaded hsize slot n, ?_⟩
    cases slot with
    | single => exact h.leaf
    | root => exact nofun
    | leaf => exact fun _ x hx => readInto_bytes hx

/-- The leaf tables are those on the device. -/
theorem Settled.leafAt (h : Settled s) (n : Nat) {x : Nat} (hx : x < s.volume.blockBytes) :
    s.tableAt .leaf n x = s.volume.block n x := by
  unfold Working.tableAt
  split
  next hheld =>
    obtain ⟨hvalid, rfl⟩ := hheld
    exact h.leaf hvalid x hx
  next => rfl

/-! ## What a lookup leaves alone -/

/-- Only the cache has changed, and no table that is mapped. -/
structure Looked (s t : Working) : Prop where
  same : SameFile s t
  settled : Settled t
  single : ∀ i, 4 * i + 4 ≤ s.volume.blockBytes →
    get32 (t.tableAt .single (s.inode.block 12)) (4 * i) =
      get32 (s.tableAt .single (s.inode.block 12)) (4 * i)
  root : ∀ i, 4 * i + 4 ≤ s.volume.blockBytes →
    get32 (t.tableAt .root (s.inode.block 13)) (4 * i) =
      get32 (s.tableAt .root (s.inode.block 13)) (4 * i)

theorem Looked.refl (h : Settled s) : Looked s s := ⟨.refl s, h, fun _ _ => rfl, fun _ _ => rfl⟩

theorem Looked.trans {u : Working} (h : Looked s t) (h' : Looked t u) : Looked s u where
  same := h.same.trans h'.same
  settled := h'.settled
  single := fun i hi => by
    rw [← h.single i hi, ← h.same.inode]
    exact h'.single i (h.same.volume ▸ hi)
  root := fun i hi => by
    rw [← h.root i hi, ← h.same.inode]
    exact h'.root i (h.same.volume ▸ hi)

theorem holding_tableAt (hi : 4 * i + 4 ≤ s.volume.blockBytes) :
    get32 ((s.holding slot n).tableAt slot n) (4 * i) = get32 (s.tableAt slot n) (4 * i) := by
  rw [← holding_entry hi]
  exact congrArg (get32 · (4 * i)) (if_pos (holding_held s slot n))

theorem holding_other {slot' : Slot} (hne : slot' ≠ slot) (hleaf : slot' ≠ .leaf) (m : Nat) :
    (s.holding slot n).tableAt slot' m = s.tableAt slot' m := by
  unfold Working.holding
  split
  next => rfl
  next =>
    cases slot with
    | single =>
      cases slot' with
      | single => exact absurd rfl hne
      | root => rfl
      | leaf => rfl
    | root =>
      cases slot' with
      | single => rfl
      | root => exact absurd rfl hne
      | leaf => exact absurd rfl hleaf
    | leaf =>
      cases slot' with
      | single => rfl
      | root => rfl
      | leaf => exact absurd rfl hne

theorem looked_single (h : Settled s) : Looked s (s.holding .single (s.inode.block 12)) where
  same := holding_same s _ _
  settled := h.holding _ _
  single := fun _ hi => holding_tableAt hi
  root := fun i _ => congrArg (get32 · (4 * i)) (holding_other (by decide) (by decide) _)

theorem looked_root (h : Settled s) : Looked s (s.holding .root (s.inode.block 13)) where
  same := holding_same s _ _
  settled := h.holding _ _
  single := fun i _ => congrArg (get32 · (4 * i)) (holding_other (by decide) (by decide) _)
  root := fun _ hi => holding_tableAt hi

theorem looked_leaf (h : Settled s) (n : Nat) : Looked s (s.holding .leaf n) where
  same := holding_same s _ _
  settled := h.holding _ _
  single := fun i _ => congrArg (get32 · (4 * i)) (holding_other (by decide) (by decide) _)
  root := fun i _ => congrArg (get32 · (4 * i)) (holding_other (by decide) (by decide) _)

theorem Looked.leaf (h : Looked s t) (hs : Settled s) (n : Nat)
    (hi : 4 * i + 4 ≤ s.volume.blockBytes) :
    get32 (t.tableAt .leaf n) (4 * i) = get32 (s.tableAt .leaf n) (4 * i) := by
  refine get32_congr fun k hk => ?_
  rw [hs.leafAt n (by omega), h.settled.leafAt n (by rw [h.same.volume]; omega), h.same.volume]

/-- An index within a table. -/
theorem entry_room {bs index : Nat} (h : index < bs / 4) : 4 * index + 4 ≤ bs := by omega

theorem Looked.leafOf (h : Looked s t) {index : Nat}
    (hindex : index < s.volume.blockBytes / 4 * (s.volume.blockBytes / 4)) :
    t.leafOf index = s.leafOf index := by
  unfold Working.leafOf Working.entryAt
  rw [h.same.inode, h.same.volume, h.root _ (entry_room (Nat.div_lt_of_lt_mul hindex))]

/-- The map is the same. -/
theorem Looked.mapped (h : Looked s t) (hs : Settled s) (i : Nat) : t.mapped i = s.mapped i := by
  unfold Working.mapped
  dsimp only
  rw [h.same.inode, h.same.volume]
  by_cases hdirect : i < 12
  · rw [if_pos hdirect, if_pos hdirect]
  rw [if_neg hdirect, if_neg hdirect]
  by_cases hsingle : i - 12 < s.volume.blockBytes / 4
  · rw [if_pos hsingle, if_pos hsingle]
    unfold Working.entryAt
    rw [h.single _ (entry_room hsingle)]
  rw [if_neg hsingle, if_neg hsingle]
  by_cases hdouble : i - 12 - s.volume.blockBytes / 4 <
      s.volume.blockBytes / 4 * (s.volume.blockBytes / 4)
  · rw [if_pos hdouble, if_pos hdouble, h.leafOf hdouble]
    unfold Working.entryAt
    rw [h.leaf hs _ (entry_room (Nat.mod_lt _ _))]
    have hsized := h.settled.blockSized.le
    rw [h.same.volume] at hsized
    omega
  · rw [if_neg hdouble, if_neg hdouble]

/-! ## Lookups -/

theorem entryOf_done (h : Usable s) (hi : 4 * i + 4 ≤ s.volume.blockBytes) :
    entryOf slot i s = .done (get32 (s.cache.table slot).entries.bytes (4 * i)) s := by
  have hle := h.blockSized.le.2
  rw [entryOf_eq_done, h.arrays.table]
  exact ⟨by omega, rfl, rfl⟩

/-- An entry of a table that has been held. -/
theorem entryOf_holding (h : Usable s) (hn : n ≠ 0) (hi : 4 * i + 4 ≤ s.volume.blockBytes) :
    entryOf slot i (s.holding slot n) = .done (s.entryAt slot n i) (s.holding slot n) := by
  rw [entryOf_done (h.holding slot n) ((holding_same s slot n).volume ▸ hi), holding_entry hi]
  unfold Working.entryAt
  rw [if_neg hn]

theorem inodeBlock_done (hi : i < 15) : inodeBlock i s = .done (s.inode.block i) s :=
  inodeBlock_eq_done.mpr ⟨hi, rfl, rfl⟩

theorem lookupSingle_looked (h : Settled s) (hi : i < s.volume.blockBytes / 4)
    (hdone : lookupSingle s.volume.blockBytes i s = .done n t) :
    n = s.entryAt .single (s.inode.block 12) i ∧ Looked s t := by
  unfold lookupSingle at hdone
  rw [bind_done (inodeBlock_done (by decide))] at hdone
  by_cases hzero : s.inode.block 12 = 0
  · rw [if_pos hzero] at hdone
    obtain ⟨rfl, rfl⟩ := pure_eq_done.mp hdone
    exact ⟨(if_pos hzero).symm, .refl h⟩
  · rw [if_neg hzero] at hdone
    obtain ⟨u, s1, hhold, hentry⟩ := bind_eq_done.mp hdone
    obtain rfl := hold_done_holding h hhold
    rw [entryOf_holding h.usable hzero (entry_room hi)] at hentry
    cases hentry
    exact ⟨rfl, looked_single h⟩

theorem lookupDouble_looked (h : Settled s)
    (hi : i < s.volume.blockBytes / 4 * (s.volume.blockBytes / 4))
    (hdone : lookupDouble s.volume.blockBytes i s = .done n t) :
    n = s.entryAt .leaf (s.leafOf i) (i % (s.volume.blockBytes / 4)) ∧ Looked s t := by
  have hsized := h.blockSized.le
  have hfirst := entry_room (Nat.div_lt_of_lt_mul hi)
  have hsecond : 4 * (i % (s.volume.blockBytes / 4)) + 4 ≤ s.volume.blockBytes :=
    entry_room (Nat.mod_lt _ (by omega))
  unfold lookupDouble at hdone
  rw [bind_done (inodeBlock_done (by decide))] at hdone
  by_cases hzero : s.inode.block 13 = 0
  · rw [if_pos hzero] at hdone
    obtain ⟨rfl, rfl⟩ := pure_eq_done.mp hdone
    refine ⟨?_, .refl h⟩
    unfold Working.leafOf
    rw [Working.entryAt, if_pos]
    exact if_pos hzero
  rw [if_neg hzero] at hdone
  obtain ⟨u, s1, hhold, hdone⟩ := bind_eq_done.mp hdone
  obtain rfl := hold_done_holding h hhold
  have hleaf : entryOf .root (i / (s.volume.blockBytes / 4)) (s.holding .root (s.inode.block 13)) =
      .done (s.leafOf i) (s.holding .root (s.inode.block 13)) := entryOf_holding h.usable hzero hfirst
  rw [bind_done hleaf] at hdone
  by_cases habsent : s.leafOf i = 0
  · rw [if_pos habsent] at hdone
    obtain ⟨rfl, rfl⟩ := pure_eq_done.mp hdone
    exact ⟨(if_pos habsent).symm, looked_root h⟩
  · have hroot := looked_root h
    have hvolume := hroot.same.volume
    rw [if_neg habsent] at hdone
    obtain ⟨u', s2, hhold', hentry⟩ := bind_eq_done.mp hdone
    rw [← hvolume] at hhold'
    obtain rfl := hold_done_holding hroot.settled hhold'
    rw [entryOf_holding hroot.settled.usable habsent (hvolume ▸ hsecond)] at hentry
    cases hentry
    refine ⟨?_, hroot.trans (looked_leaf hroot.settled _)⟩
    unfold Working.entryAt
    exact congrArg (if s.leafOf i = 0 then 0 else ·) (hroot.leaf h _ hsecond)

theorem getDataBlock_at (h : Usable s) (i : Nat) :
    getDataBlock i s = (if i < 12 then inodeBlock i
      else if i - 12 < s.volume.blockBytes / 4 then lookupSingle s.volume.blockBytes (i - 12)
      else if i - 12 - s.volume.blockBytes / 4 <
        s.volume.blockBytes / 4 * (s.volume.blockBytes / 4)
      then lookupDouble s.volume.blockBytes (i - 12 - s.volume.blockBytes / 4)
      else fail : Effect Working Nat) s := by
  have hsized := h.blockSized.le
  refine getDataBlock_eq (h.accepted.blockSize s) hsized.2 ?_
  show s.volume.blockBytes / 4 ≠ 0
  omega

/-- What a lookup returns is mapped. -/
theorem getDataBlock_looked (h : Settled s) (hdone : getDataBlock i s = .done n t) :
    s.mapped i = some n ∧ Looked s t := by
  unfold Working.mapped
  dsimp only
  rw [getDataBlock_at h.usable] at hdone
  by_cases hdirect : i < 12
  · rw [if_pos hdirect] at hdone ⊢
    obtain ⟨-, rfl, rfl⟩ := inodeBlock_eq_done.mp hdone
    exact ⟨rfl, .refl h⟩
  rw [if_neg hdirect] at hdone ⊢
  by_cases hsingle : i - 12 < s.volume.blockBytes / 4
  · rw [if_pos hsingle] at hdone ⊢
    obtain ⟨rfl, hlooked⟩ := lookupSingle_looked h hsingle hdone
    exact ⟨rfl, hlooked⟩
  rw [if_neg hsingle] at hdone ⊢
  by_cases hdouble : i - 12 - s.volume.blockBytes / 4 <
      s.volume.blockBytes / 4 * (s.volume.blockBytes / 4)
  · rw [if_pos hdouble] at hdone ⊢
    obtain ⟨rfl, hlooked⟩ := lookupDouble_looked h hdouble hdone
    exact ⟨rfl, hlooked⟩
  · rw [if_neg hdouble] at hdone
    cases hdone

/-- Whether a block can be read, if it is one. -/
def Volume.CanRead (v : Volume) (n : Nat) : Prop := n ≠ 0 → v.HasBlock v.blockBytes n

/-- The tables for the lookup of block `i` can be read. -/
def Working.HasTables (s : Working) (i : Nat) : Prop :=
  let entries := s.volume.blockBytes / 4
  (12 ≤ i ∧ i - 12 < entries → s.volume.CanRead (s.inode.block 12)) ∧
    (12 + entries ≤ i → s.volume.CanRead (s.inode.block 13) ∧
      s.volume.CanRead (s.leafOf (i - 12 - entries)))

theorem lookupSingle_returns (h : Settled s) (hi : i < s.volume.blockBytes / 4)
    (htable : s.volume.CanRead (s.inode.block 12)) :
    ∃ n t, lookupSingle s.volume.blockBytes i s = .done n t := by
  unfold lookupSingle
  rw [bind_done (inodeBlock_done (by decide))]
  by_cases hzero : s.inode.block 12 = 0
  · rw [if_pos hzero]
    exact ⟨0, s, rfl⟩
  · rw [if_neg hzero, bind_done (hold_of_hasBlock _ h.usable (htable hzero)),
      entryOf_holding h.usable hzero (entry_room hi)]
    exact ⟨_, _, rfl⟩

theorem lookupDouble_returns (h : Settled s)
    (hi : i < s.volume.blockBytes / 4 * (s.volume.blockBytes / 4))
    (hroot : s.volume.CanRead (s.inode.block 13)) (hleaf : s.volume.CanRead (s.leafOf i)) :
    ∃ n t, lookupDouble s.volume.blockBytes i s = .done n t := by
  have hsized := h.blockSized.le
  have hfirst := entry_room (Nat.div_lt_of_lt_mul hi)
  have hsecond : 4 * (i % (s.volume.blockBytes / 4)) + 4 ≤ s.volume.blockBytes :=
    entry_room (Nat.mod_lt _ (by omega))
  unfold lookupDouble
  rw [bind_done (inodeBlock_done (by decide))]
  by_cases hzero : s.inode.block 13 = 0
  · rw [if_pos hzero]
    exact ⟨0, s, rfl⟩
  have hentry : entryOf .root (i / (s.volume.blockBytes / 4))
      (s.holding .root (s.inode.block 13)) =
        .done (s.leafOf i) (s.holding .root (s.inode.block 13)) := entryOf_holding h.usable hzero hfirst
  rw [if_neg hzero, bind_done (hold_of_hasBlock _ h.usable (hroot hzero)), bind_done hentry]
  by_cases habsent : s.leafOf i = 0
  · rw [if_pos habsent]
    exact ⟨0, _, rfl⟩
  · have hlooked := looked_root h
    have hvolume := hlooked.same.volume
    have hdevice : (s.holding .root (s.inode.block 13)).volume.HasBlock
        (s.holding .root (s.inode.block 13)).volume.blockBytes (s.leafOf i) := by
      rw [hvolume]
      exact hleaf habsent
    have hhold := hold_of_hasBlock .leaf hlooked.settled.usable hdevice
    rw [hvolume] at hhold
    rw [if_neg habsent, bind_done hhold,
      entryOf_holding hlooked.settled.usable habsent (hvolume ▸ hsecond)]
    exact ⟨_, _, rfl⟩

/-- A lookup within the three levels returns what is mapped, unless the device fails. -/
theorem getDataBlock_returns (h : Settled s) (htables : s.HasTables i) (hmapped : s.mapped i = some n) :
    ∃ t, getDataBlock i s = .done n t ∧ Looked s t := by
  have hsome : ∃ m t, getDataBlock i s = .done m t := by
    unfold Working.mapped at hmapped
    dsimp only at hmapped
    rw [getDataBlock_at h.usable]
    by_cases hdirect : i < 12
    · rw [if_pos hdirect, inodeBlock_done (by omega)]
      exact ⟨_, _, rfl⟩
    rw [if_neg hdirect] at hmapped ⊢
    by_cases hsingle : i - 12 < s.volume.blockBytes / 4
    · rw [if_pos hsingle]
      exact lookupSingle_returns h hsingle (htables.1 ⟨by omega, hsingle⟩)
    rw [if_neg hsingle] at hmapped ⊢
    by_cases hdouble : i - 12 - s.volume.blockBytes / 4 <
        s.volume.blockBytes / 4 * (s.volume.blockBytes / 4)
    · obtain ⟨hroot, hleaf⟩ := htables.2 (by omega)
      rw [if_pos hdouble]
      exact lookupDouble_returns h hdouble hroot hleaf
    · rw [if_neg hdouble] at hmapped
      cases hmapped
  obtain ⟨m, t, hdone⟩ := hsome
  obtain ⟨hm, hlooked⟩ := getDataBlock_looked h hdone
  rw [hmapped] at hm
  cases hm
  exact ⟨t, hdone, hlooked⟩

theorem Working.index_lt (h : s.mapped i ≠ none) (hi : 12 + s.volume.blockBytes / 4 ≤ i) :
    i - 12 - s.volume.blockBytes / 4 < s.volume.blockBytes / 4 * (s.volume.blockBytes / 4) := by
  by_contra hout
  refine h ?_
  unfold Working.mapped
  dsimp only
  rw [if_neg (by omega), if_neg (by omega), if_neg hout]

theorem Looked.hasTables (h : Looked s t) (hi : s.mapped i ≠ none) (htables : s.HasTables i) :
    t.HasTables i := by
  unfold Working.HasTables
  dsimp only
  rw [h.same.inode, h.same.volume]
  refine ⟨htables.1, fun hdouble => ?_⟩
  rw [h.leafOf (Working.index_lt hi hdouble)]
  exact htables.2 hdouble

end MeatySkeleton.Ext2
