import MeatySkeleton.Ext2.Allocation

/-!
# The pointers of a file

The block numbers that an inode and its tables hold, by their places: what `Working.mapped`
finds at the end of a path. A state is `Coherent` when each table in the cache belongs to a
place and is the one on the device unless it is dirty, and when no block is named at two
places.
-/

namespace MeatySkeleton.Ext2

open Lib Lib.Effect

/-- A place for a block number: in the inode, or in one of the tables below it. -/
inductive Place where
  | direct (i : Nat)
  | single
  | entry (i : Nat)
  | root
  | leaf (j : Nat)
  | below (j i : Nat)
deriving DecidableEq

namespace Place

/-- The place exists, with `entries` block numbers in a table. -/
def Valid (entries : Nat) : Place → Prop
  | direct i => i < 12
  | single => True
  | entry i => i < entries
  | root => True
  | leaf j => j < entries
  | below j i => j < entries ∧ i < entries

/-- Where the cache holds the table that is named at a place. -/
def slot : Place → Option Slot
  | direct _ => none
  | single => some .single
  | entry _ => none
  | root => some .root
  | leaf _ => some .leaf
  | below _ _ => none

end Place

/-- The number of block numbers in a table. -/
def Working.entries (s : Working) : Nat := s.volume.blockBytes / 4

/-- The block named at a place. -/
def Working.pointer (s : Working) : Place → Nat
  | .direct i => s.inode.block i
  | .single => s.inode.block 12
  | .entry i => s.entryAt .single (s.inode.block 12) i
  | .root => s.inode.block 13
  | .leaf j => s.entryAt .root (s.inode.block 13) j
  | .below j i => s.entryAt .leaf (s.entryAt .root (s.inode.block 13) j) i

/-- The place for block `i` of a file. -/
def placeOf (entries i : Nat) : Place :=
  if i < 12 then .direct i
  else if i - 12 < entries then .entry (i - 12)
  else .below ((i - 12 - entries) / entries) ((i - 12 - entries) % entries)

/-- The blocks of a file that have a place. -/
def reach (entries : Nat) : Nat := 12 + entries + entries * entries

variable {s t u : Working} {slot : Slot} {p q : Place} {i j n x : Nat}

theorem placeOf_valid {entries : Nat} (hi : i < reach entries) :
    (placeOf entries i).Valid entries := by
  unfold reach at hi
  unfold placeOf
  split
  next hdirect => exact hdirect
  next =>
    split
    next hsingle => exact hsingle
    next =>
      have hlt : i - 12 - entries < entries * entries := by omega
      have hpos : 0 < entries := Nat.pos_of_mul_pos_left (Nat.zero_lt_of_lt hlt)
      exact ⟨Nat.div_lt_of_lt_mul hlt, Nat.mod_lt _ hpos⟩

/-! ## Coherence -/

/-- On a sound volume each table in the cache is that of a place, and the one on the device
unless it is dirty. The blocks of the file are in use, each at one place. -/
structure Coherent (s : Working) : Prop where
  sound : Sound s.allocating
  arrays : s.cache.Arrays
  cached : ∀ slot, (s.cache.table slot).valid = true → ∃ p : Place, p.Valid s.entries ∧
    p.slot = some slot ∧ s.pointer p = (s.cache.table slot).blockNumber ∧ s.pointer p ≠ 0
  rooted : s.cache.doubleLeaf.valid = true → s.cache.doubleRoot.valid = true
  clean : ∀ slot, (s.cache.table slot).valid = true → (s.cache.table slot).dirty = false →
    ∀ x < s.volume.blockBytes, (s.cache.table slot).entries.bytes x =
      s.volume.block (s.cache.table slot).blockNumber x
  once : ∀ p q : Place, p.Valid s.entries → q.Valid s.entries → s.pointer p = s.pointer q →
    s.pointer p ≠ 0 → p = q
  data : ∀ p : Place, p.Valid s.entries → s.pointer p ≠ 0 →
    s.volume.Data (s.pointer p) ∧ s.allocating.used (s.pointer p) = true

/-- No table has left the cache before it was on the device. -/
def Kept (s t : Working) : Prop :=
  ∀ slot, (s.cache.table slot).valid = true →
    (t.cache.table slot).Holds (s.cache.table slot).blockNumber ∨
    ∀ x < s.volume.blockBytes, t.volume.block (s.cache.table slot).blockNumber x =
      (s.cache.table slot).entries.bytes x

/-- The tables that were valid are the same. -/
def Untouched (s t : Working) : Prop :=
  ∀ slot, (s.cache.table slot).valid = true → t.cache.table slot = s.cache.table slot

theorem Untouched.kept {s t : Working} (h : Untouched s t) : Kept s t := by
  intro slot hvalid
  rw [h slot hvalid]
  exact .inl ⟨hvalid, rfl⟩

/-- The same blocks are named at the same places of volumes with the same parts. -/
structure SamePointers (s t : Working) : Prop where
  places : SamePlaces s.volume t.volume
  pointers : ∀ p : Place, p.Valid s.entries → t.pointer p = s.pointer p

theorem Coherent.layout (h : Coherent s) : Layout s.volume := h.sound.layout

theorem Coherent.usable (h : Coherent s) : Usable s := ⟨h.layout.accepted, h.arrays⟩

theorem SamePlaces.entries (h : SamePlaces s.volume t.volume) : t.entries = s.entries := by
  unfold Working.entries
  rw [h.blockBytes]

theorem SamePointers.refl (s : Working) : SamePointers s s := ⟨.refl _, fun _ _ => rfl⟩

theorem SamePointers.trans (h : SamePointers s t) (h' : SamePointers t u) : SamePointers s u where
  places := h.places.trans h'.places
  pointers p hp := (h'.pointers p (h.places.entries.symm ▸ hp)).trans (h.pointers p hp)

theorem tableEntry_congr {t : Working} (hi : 4 * i + 4 ≤ s.volume.blockBytes)
    (h : n ≠ 0 → ∀ x < s.volume.blockBytes, t.tableAt slot n x = s.tableAt slot n x) :
    t.entryAt slot n i = s.entryAt slot n i := by
  unfold Working.entryAt
  split
  next => rfl
  next hn => exact get32_congr fun k hk => h hn _ (by omega)

theorem pointer_entry {t : Working} (hinode : t.inode.block 12 = s.inode.block 12)
    (htable : s.inode.block 12 ≠ 0 → ∀ x < s.volume.blockBytes,
      t.tableAt .single (s.inode.block 12) x = s.tableAt .single (s.inode.block 12) x)
    (hi : i < s.entries) : t.pointer (.entry i) = s.pointer (.entry i) := by
  show t.entryAt .single (t.inode.block 12) i = s.entryAt .single (s.inode.block 12) i
  rw [hinode]
  exact tableEntry_congr (entry_room hi) htable

theorem pointer_leaf {t : Working} (hinode : t.inode.block 13 = s.inode.block 13)
    (htable : s.inode.block 13 ≠ 0 → ∀ x < s.volume.blockBytes,
      t.tableAt .root (s.inode.block 13) x = s.tableAt .root (s.inode.block 13) x)
    (hj : j < s.entries) : t.pointer (.leaf j) = s.pointer (.leaf j) := by
  show t.entryAt .root (t.inode.block 13) j = s.entryAt .root (s.inode.block 13) j
  rw [hinode]
  exact tableEntry_congr (entry_room hj) htable

theorem pointer_below {t : Working} (hleaf : t.pointer (.leaf j) = s.pointer (.leaf j))
    (htable : s.pointer (.leaf j) ≠ 0 → ∀ x < s.volume.blockBytes,
      t.tableAt .leaf (s.pointer (.leaf j)) x = s.tableAt .leaf (s.pointer (.leaf j)) x)
    (hi : i < s.entries) : t.pointer (.below j i) = s.pointer (.below j i) := by
  show t.entryAt .leaf (t.pointer (.leaf j)) i = s.entryAt .leaf (s.pointer (.leaf j)) i
  rw [hleaf]
  exact tableEntry_congr (entry_room hi) htable

/-- The pointers are the same where the inode and the tables are. -/
theorem pointers_same (hinode : ∀ i < 14, t.inode.block i = s.inode.block i)
    (htables : ∀ p : Place, ∀ slot, p.Valid s.entries → p.slot = some slot → s.pointer p ≠ 0 →
      ∀ x < s.volume.blockBytes, t.tableAt slot (s.pointer p) x = s.tableAt slot (s.pointer p) x)
    (hp : p.Valid s.entries) : t.pointer p = s.pointer p := by
  have hleaf : ∀ j, j < s.entries → t.pointer (.leaf j) = s.pointer (.leaf j) := fun j hj =>
    pointer_leaf (hinode 13 (by decide)) (fun hne => htables .root .root trivial rfl hne) hj
  cases p with
  | direct i => exact hinode i (Nat.lt_trans hp (by decide))
  | single => exact hinode 12 (by decide)
  | entry i =>
    exact pointer_entry (hinode 12 (by decide))
      (fun hne => htables .single .single trivial rfl hne) hp
  | root => exact hinode 13 (by decide)
  | leaf j => exact hleaf j hp
  | below j i =>
    exact pointer_below (hleaf j hp.1) (fun hne => htables (.leaf j) .leaf hp.1 rfl hne) hp.2

theorem tableAt_held (h : (s.cache.table slot).Holds n) :
    s.tableAt slot n = (s.cache.table slot).entries.bytes := if_pos h

theorem tableAt_device (h : ¬(s.cache.table slot).Holds n) : s.tableAt slot n = s.volume.block n :=
  if_neg h

/-- Two tables in the cache have different blocks. -/
theorem Coherent.apart (h : Coherent s) {slot' : Slot} (hne : slot ≠ slot')
    (hvalid : (s.cache.table slot).valid = true) (hp : p.Valid s.entries)
    (hslot : p.slot = some slot') (hp0 : s.pointer p ≠ 0) :
    (s.cache.table slot).blockNumber ≠ s.pointer p := by
  intro heq
  obtain ⟨q, hq, hslot', hnumber, hne'⟩ := h.cached slot hvalid
  obtain rfl := h.once q p hq hp (hnumber.trans heq) hne'
  rw [hslot] at hslot'
  exact hne (Option.some.inj hslot').symm

/-- A valid table of the root is the one that the inode names. -/
theorem Coherent.root_held (h : Coherent s) (hvalid : s.cache.doubleRoot.valid = true) :
    (s.cache.table .root).Holds (s.inode.block 13) := by
  obtain ⟨q, -, hslot, hnumber, -⟩ := h.cached .root hvalid
  cases q with
  | root => exact ⟨hvalid, hnumber.symm⟩
  | _ => cases hslot

theorem Coherent.single_held (h : Coherent s) (hvalid : s.cache.single.valid = true) :
    (s.cache.table .single).Holds (s.inode.block 12) := by
  obtain ⟨q, -, hslot, hnumber, -⟩ := h.cached .single hvalid
  cases q with
  | single => exact ⟨hvalid, hnumber.symm⟩
  | _ => cases hslot

/-- The blocks of the file keep their places. -/
theorem Coherent.of_same (h : Coherent s) (hsame : SamePointers s t) (hsound : Sound t.allocating)
    (harrays : t.cache.Arrays)
    (hcached : ∀ slot, (t.cache.table slot).valid = true → ∃ p : Place, p.Valid s.entries ∧
      p.slot = some slot ∧ s.pointer p = (t.cache.table slot).blockNumber ∧ s.pointer p ≠ 0)
    (hrooted : t.cache.doubleLeaf.valid = true → t.cache.doubleRoot.valid = true)
    (hclean : ∀ slot, (t.cache.table slot).valid = true → (t.cache.table slot).dirty = false →
      ∀ x < s.volume.blockBytes, (t.cache.table slot).entries.bytes x =
        t.volume.block (t.cache.table slot).blockNumber x)
    (hused : ∀ n, s.volume.Data n → s.allocating.used n = true → t.allocating.used n = true) :
    Coherent t := by
  have hentries := hsame.places.entries
  refine ⟨hsound, harrays, fun slot hvalid => ?_, hrooted, fun slot hvalid hdirty x hx => ?_,
    fun p q hp hq heq hne => ?_, fun p hp hne => ?_⟩
  · obtain ⟨p, hp, hslot, hnumber, hne⟩ := hcached slot hvalid
    rw [← hsame.pointers p hp] at hnumber hne
    exact ⟨p, hentries.symm ▸ hp, hslot, hnumber, hne⟩
  · exact hclean slot hvalid hdirty x (hsame.places.blockBytes ▸ hx)
  · rw [hentries] at hp hq
    rw [hsame.pointers p hp] at heq hne
    rw [hsame.pointers q hq] at heq
    exact h.once p q hp hq heq hne
  · rw [hentries] at hp
    rw [hsame.pointers p hp] at hne ⊢
    obtain ⟨hdata, hin⟩ := h.data p hp hne
    exact ⟨hsame.places.data hdata, hused _ hdata hin⟩

/-! ## Other blocks -/

/-- The allocator has done something. -/
theorem Coherent.allocated (h : Coherent s) {a : Allocating} (hsound : Sound a)
    (hplaces : SamePlaces s.volume a.volume)
    (helse : ∀ x, s.volume.OutsideMaps x → a.volume.image x = s.volume.image x)
    (hused : ∀ n, s.volume.Data n → s.allocating.used n = true → a.used n = true) :
    Coherent { s with allocating := a } ∧ SamePointers s { s with allocating := a } := by
  have hblocks : ∀ n, s.volume.Data n → ∀ x < s.volume.blockBytes,
      a.volume.block n x = s.volume.block n x :=
    fun n hn x hx => block_kept h.layout hplaces helse hn hx
  have hpointers : SamePointers s { s with allocating := a } := by
    refine ⟨hplaces, fun p hp => pointers_same (fun _ _ => rfl) (fun p slot hp _ hne x hx => ?_) hp⟩
    by_cases hheld : (s.cache.table slot).Holds (s.pointer p)
    · rw [tableAt_held hheld]
      exact congrFun (tableAt_held (s := { s with allocating := a }) hheld) x
    · rw [tableAt_device hheld]
      refine (congrFun (tableAt_device (s := { s with allocating := a }) hheld) x).trans ?_
      exact hblocks _ (h.data p hp hne).1 x hx
  refine ⟨h.of_same hpointers hsound h.arrays h.cached h.rooted (fun slot hvalid hdirty x hx => ?_)
    hused, hpointers⟩
  obtain ⟨p, hp, -, hnumber, hne⟩ := h.cached slot hvalid
  refine (h.clean slot hvalid hdirty x hx).trans (hblocks _ ?_ x hx).symm
  exact hnumber ▸ (h.data p hp hne).1

theorem Sound.withBlock {s : Allocating} (h : Sound s) (hn : s.volume.Data n) (bytes : Mem) :
    Sound { s with volume := s.volume.withBlock n bytes } ∧
      ∀ k, s.volume.Data k →
        Allocating.used { s with volume := s.volume.withBlock n bytes } k = s.used k := by
  have hmaps := h.layout.withBlock_maps hn bytes
  have hplaces := hmaps.places
  have hbits : ∀ g < s.volume.groupCount, ∀ i < 8 * s.volume.blockBytes,
      Allocating.bit { s with volume := s.volume.withBlock n bytes } g i = s.bit g i := by
    intro g hg i hi
    unfold Allocating.bit
    split
    next => rfl
    next => exact hmaps.bits g hg i hi
  refine ⟨⟨hplaces.layout h.layout, h.array, fun hloaded => ?_, fun hloaded hclean => ?_,
    fun g hg i hi hfree => ?_⟩, fun k hk => ?_⟩
  · obtain ⟨hg, hd⟩ := h.group hloaded
    exact ⟨hplaces.groupCount.symm ▸ hg, fun x hx => (hd x hx).trans
      (hmaps.descriptors _ hg x hx.lt).symm⟩
  · have hg := (h.group hloaded).1
    obtain ⟨hd, hbits⟩ := h.clean hloaded hclean
    refine ⟨fun x hx => (hd x hx).trans (hmaps.descriptors _ hg x hx).symm, fun i hi => ?_⟩
    have hi' : i < 8 * s.volume.blockBytes := hplaces.blockBytes ▸ hi
    exact (hbits i hi').trans (hmaps.bits _ hg i hi').symm
  · rw [hplaces.groupCount] at hg
    have hi' : i < 8 * s.volume.blockBytes := h.layout.bit_lt hg hi
    exact hplaces.data (h.free g hg i hi ((hbits g hg i hi').symm.trans hfree))
  · exact hbits _ (h.layout.groupOf_lt hk.low hk.high) _ (h.layout.bitOf_lt k)

/-- The file with other contents of block `n`. -/
def Working.withBlock (s : Working) (n : Nat) (bytes : Mem) : Working :=
  { s with allocating := { s.allocating with volume := s.volume.withBlock n bytes } }

/-! ## Tables of the cache -/

def BlockCache.withTable (c : BlockCache) (slot : Slot) (table : CachedTable) : BlockCache :=
  match slot with
  | .single => { c with single := table }
  | .root => { c with doubleRoot := table }
  | .leaf => { c with doubleLeaf := table }

theorem withTable_self (c : BlockCache) (slot : Slot) (table : CachedTable) :
    (c.withTable slot table).table slot = table := by
  cases slot
  all_goals rfl

theorem withTable_other (c : BlockCache) {slot slot' : Slot} (hne : slot' ≠ slot)
    (table : CachedTable) : (c.withTable slot table).table slot' = c.table slot' := by
  cases slot
  all_goals
    cases slot'
    all_goals first | rfl | exact absurd rfl hne

theorem BlockCache.Arrays.withTable {c : BlockCache} (h : c.Arrays) {table : CachedTable}
    (htable : table.entries.size = 4096) (slot : Slot) : (c.withTable slot table).Arrays := by
  cases slot with
  | single => exact ⟨htable, h.doubleRoot, h.doubleLeaf⟩
  | root => exact ⟨h.single, htable, h.doubleLeaf⟩
  | leaf => exact ⟨h.single, h.doubleRoot, htable⟩

/-- The file with a table of the cache written to its block. -/
def Working.written (s : Working) (slot : Slot) : Working :=
  let table := s.cache.table slot
  { s.withBlock table.blockNumber table.entries.bytes with
    cache := s.cache.withTable slot { table with dirty := false } }

theorem written_table (s : Working) (slot slot' : Slot) :
    (s.written slot).cache.table slot' = if slot' = slot then
      { s.cache.table slot with dirty := false } else s.cache.table slot' := by
  split
  next heq =>
    subst heq
    exact withTable_self _ _ _
  next hne => exact withTable_other _ hne _

/-- Its block has what was in the cache. -/
theorem Coherent.written (h : Coherent s) (hvalid : (s.cache.table slot).valid = true) :
    Coherent (s.written slot) ∧ SamePointers s (s.written slot) := by
  obtain ⟨q, hq, hslot, hnumber, hne⟩ := h.cached slot hvalid
  have hn : s.volume.Data (s.cache.table slot).blockNumber := hnumber ▸ (h.data q hq hne).1
  obtain ⟨hsound, hused⟩ := h.sound.withBlock hn (s.cache.table slot).entries.bytes
  have hholds : ∀ slot' m, ((s.written slot).cache.table slot').Holds m ↔
      (s.cache.table slot').Holds m := by
    intro slot' m
    rw [written_table]
    split
    next heq =>
      subst heq
      exact Iff.rfl
    next => exact Iff.rfl
  have hbytes : ∀ slot', ((s.written slot).cache.table slot').entries =
      (s.cache.table slot').entries := by
    intro slot'
    rw [written_table]
    split
    next heq =>
      subst heq
      rfl
    next => rfl
  have hpointers : SamePointers s (s.written slot) := by
    refine ⟨(h.layout.withBlock_maps hn _).places, fun p hp => pointers_same (fun _ _ => rfl)
      (fun p slot' hp hslot' hne' x hx => ?_) hp⟩
    by_cases hheld : (s.cache.table slot').Holds (s.pointer p)
    · rw [tableAt_held hheld, tableAt_held ((hholds _ _).mpr hheld), hbytes]
    · rw [tableAt_device hheld, tableAt_device fun hheld' => hheld ((hholds _ _).mp hheld')]
      refine withBlock_other s.volume (fun heq => hheld ?_) _ hx
      -- the block that was written is in the cache
      obtain rfl := h.once q p hq hp (hnumber.trans heq) hne
      rw [hslot'] at hslot
      cases hslot
      exact ⟨hvalid, heq⟩
  have harray : (CachedTable.entries { s.cache.table slot with dirty := false }).size = 4096 :=
    h.arrays.table slot
  refine ⟨h.of_same hpointers hsound (h.arrays.withTable harray slot) (fun slot' hvalid' => ?_) (fun hleaf => ?_) (fun slot' hvalid' hdirty x hx => ?_)
    fun k hk hin => (hused k hk).trans hin, hpointers⟩
  · have hheld := (hholds slot' _).mp ⟨hvalid', rfl⟩
    obtain ⟨p, hp, hslot', hnumber', hne'⟩ := h.cached slot' hheld.1
    exact ⟨p, hp, hslot', hnumber'.trans hheld.2, hne'⟩
  · have hheld := (hholds .leaf _).mp ⟨hleaf, rfl⟩
    exact ((hholds .root _).mpr ⟨h.rooted hheld.1, rfl⟩).1
  · rw [written_table] at hvalid' hdirty ⊢
    split
    next => exact (withBlock_block s.volume _ _ hx).symm
    next hne' =>
      rw [if_neg hne'] at hvalid' hdirty
      obtain ⟨p, hp, hslot', hnumber', hne0⟩ := h.cached slot' hvalid'
      have hother := h.apart (Ne.symm hne') hvalid hp hslot' hne0
      rw [hnumber'] at hother
      exact (h.clean slot' hvalid' hdirty x hx).trans (withBlock_other s.volume hother _ hx).symm

/-- A table has been read into the cache in the place of one that is on the device. -/
theorem Coherent.loaded (h : Coherent s) (hallocating : t.allocating = s.allocating)
    (hinode : t.inode = s.inode) (harrays : t.cache.Arrays) (hp : p.Valid s.entries)
    (hslot : p.slot = some slot) (hne : s.pointer p ≠ 0)
    (hmiss : ¬(s.cache.table slot).Holds (s.pointer p))
    (hheld : (t.cache.table slot).Holds (s.pointer p))
    (hentries : ∀ x < s.volume.blockBytes,
      (t.cache.table slot).entries.bytes x = s.volume.block (s.pointer p) x)
    (hothers : ∀ slot', slot' ≠ slot → t.cache.table slot' = s.cache.table slot' ∨
      (slot = .root ∧ slot' = .leaf ∧ (t.cache.table slot').valid = false))
    (hdevice : (s.cache.table slot).valid = true → ∀ x < s.volume.blockBytes,
      s.volume.block (s.cache.table slot).blockNumber x = (s.cache.table slot).entries.bytes x)
    (hroot : slot = .leaf → s.cache.doubleRoot.valid = true) :
    Coherent t ∧ SamePointers s t ∧ ∀ slot', slot' ≠ slot →
      (s.cache.table slot').valid = true → t.cache.table slot' = s.cache.table slot' := by
  have hvolume : t.volume = s.volume := congrArg Allocating.volume hallocating
  -- with the root table the leaf table goes, which was not valid either
  have hleaf : slot = .root → s.cache.doubleLeaf.valid = false := by
    intro heq
    subst heq
    refine Bool.eq_false_iff.mpr fun hvalid => hmiss ?_
    cases p with
    | root => exact h.root_held (h.rooted hvalid)
    | _ => cases hslot
  have hpointers : SamePointers s t := by
    refine ⟨hvolume ▸ .refl _, fun q hq => pointers_same (fun _ _ => by rw [hinode])
      (fun q slot' hq hslot' hne' x hx => ?_) hq⟩
    by_cases hsame : slot' = slot
    · subst hsame
      by_cases hq' : s.pointer q = s.pointer p
      · rw [hq', tableAt_held hheld, tableAt_device hmiss]
        exact hentries x hx
      · have hout : ¬(t.cache.table slot').Holds (s.pointer q) :=
          fun hheld' => hq' (hheld'.2.symm.trans hheld.2)
        rw [tableAt_device hout, hvolume]
        by_cases hold : (s.cache.table slot').Holds (s.pointer q)
        · rw [tableAt_held hold, ← hold.2]
          exact hdevice hold.1 x hx
        · rw [tableAt_device hold]
    · rcases hothers slot' hsame with htable | ⟨hroot', rfl, hinvalid⟩
      · unfold Working.tableAt
        rw [htable, hvolume]
      · have hout : ¬(t.cache.table .leaf).Holds (s.pointer q) := fun hheld' => by
          have hvalid := hheld'.1
          rw [hinvalid] at hvalid
          cases hvalid
        have hout' : ¬(s.cache.table .leaf).Holds (s.pointer q) := fun hheld' => by
          have hvalid : s.cache.doubleLeaf.valid = true := hheld'.1
          rw [hleaf hroot'] at hvalid
          cases hvalid
        rw [tableAt_device hout, tableAt_device hout', hvolume]
  have hcases : ∀ slot', (t.cache.table slot').valid = true → slot' = slot ∨
      t.cache.table slot' = s.cache.table slot' := by
    intro slot' hvalid
    by_cases hsame : slot' = slot
    · exact .inl hsame
    · rcases hothers slot' hsame with htable | ⟨-, -, hinvalid⟩
      · exact .inr htable
      · rw [hinvalid] at hvalid
        cases hvalid
  refine ⟨h.of_same hpointers (hallocating ▸ h.sound) harrays (fun slot' hvalid => ?_)
    (fun hvalid => ?_) (fun slot' hvalid hdirty x hx => ?_)
    fun k _ hin => by rw [hallocating]; exact hin, hpointers, fun slot' hsame hvalid => ?_⟩
  · rcases hcases slot' hvalid with rfl | htable
    · exact ⟨p, hp, hslot, hheld.2.symm, hne⟩
    · rw [htable] at hvalid ⊢
      exact h.cached slot' hvalid
  · by_cases hsame : slot = .root
    · subst hsame
      exact hheld.1
    · have htable : t.cache.table .root = s.cache.table .root := by
        rcases hothers .root (Ne.symm hsame) with htable | ⟨hroot', -, -⟩
        · exact htable
        · exact absurd hroot' hsame
      show (t.cache.table .root).valid = true
      rw [htable]
      rcases hcases .leaf hvalid with hslot' | hkept
      · exact hroot hslot'.symm
      · have hvalid' : (t.cache.table .leaf).valid = true := hvalid
        rw [hkept] at hvalid'
        exact h.rooted hvalid'
  · rcases hcases slot' hvalid with rfl | htable
    · rw [hentries x hx, hheld.2, hvolume]
    · rw [htable] at hvalid hdirty ⊢
      rw [hvolume]
      exact h.clean slot' hvalid hdirty x hx
  · rcases hothers slot' hsame with htable | ⟨hroot', rfl, -⟩
    · exact htable
    · have hvalid' : s.cache.doubleLeaf.valid = true := hvalid
      rw [hleaf hroot'] at hvalid'
      cases hvalid'

/-! ## A new block -/

/-- A block for files that is in use and has no place yet. -/
structure Spare (s : Working) (n : Nat) : Prop where
  nonzero : n ≠ 0
  data : s.volume.Data n
  used : s.allocating.used n = true
  fresh : ∀ p : Place, p.Valid s.entries → s.pointer p ≠ n

/-- Block `n` is named at `p`, where none was. -/
structure Named (p : Place) (n : Nat) (s t : Working) : Prop where
  allocating : t.allocating = s.allocating
  hole : s.pointer p = 0
  pointers : ∀ q : Place, q.Valid s.entries → t.pointer q = if q = p then n else s.pointer q

theorem Named.volume (h : Named p n s t) : t.volume = s.volume :=
  congrArg Allocating.volume h.allocating

theorem Named.entries (h : Named p n s t) : t.entries = s.entries := by
  unfold Working.entries
  rw [h.volume]

theorem Spare.lt (h : Spare s n) (hs : Coherent s) : n < 2 ^ 32 :=
  Nat.lt_trans h.data.high hs.layout.blockCount_lt

theorem Coherent.of_named (h : Coherent s) (hn : Spare s n) (hnamed : Named p n s t)
    (harrays : t.cache.Arrays)
    (hcached : ∀ slot, (t.cache.table slot).valid = true → ∃ q : Place, q.Valid s.entries ∧
      q.slot = some slot ∧ t.pointer q = (t.cache.table slot).blockNumber ∧ t.pointer q ≠ 0)
    (hrooted : t.cache.doubleLeaf.valid = true → t.cache.doubleRoot.valid = true)
    (hclean : ∀ slot, (t.cache.table slot).valid = true → (t.cache.table slot).dirty = false →
      t.cache.table slot = s.cache.table slot) : Coherent t := by
  have hvolume := hnamed.volume
  have hentries := hnamed.entries
  refine ⟨hnamed.allocating ▸ h.sound, harrays, fun slot hvalid => ?_, hrooted,
    fun slot hvalid hdirty x hx => ?_, fun q q' hq hq' heq hne => ?_, fun q hq hne => ?_⟩
  · obtain ⟨q, hq, hslot, hnumber, hne⟩ := hcached slot hvalid
    exact ⟨q, hentries.symm ▸ hq, hslot, hnumber, hne⟩
  · have htable := hclean slot hvalid hdirty
    rw [htable] at hvalid hdirty ⊢
    rw [hvolume] at hx ⊢
    exact h.clean slot hvalid hdirty x hx
  · rw [hentries] at hq hq'
    rw [hnamed.pointers q hq] at heq hne
    rw [hnamed.pointers q' hq'] at heq
    by_cases hqp : q = p
    · by_cases hqp' : q' = p
      · exact hqp.trans hqp'.symm
      · rw [if_pos hqp, if_neg hqp'] at heq
        exact absurd heq.symm (hn.fresh q' hq')
    · rw [if_neg hqp] at heq hne
      by_cases hqp' : q' = p
      · rw [if_pos hqp'] at heq
        exact absurd heq (hn.fresh q hq)
      · rw [if_neg hqp'] at heq
        exact h.once q q' hq hq' heq hne
  · rw [hentries] at hq
    rw [hnamed.pointers q hq] at hne ⊢
    rw [hvolume, hnamed.allocating]
    split
    next => exact ⟨hn.data, hn.used⟩
    next hqp =>
      rw [if_neg hqp] at hne
      exact h.data q hq hne

/-- The inode with block `n` at `i`. -/
def Inode.withBlock (inode : Inode) (i n sectors : Nat) : Inode :=
  (inode.setBlock i n).setSectorCount sectors

theorem withBlock_self (inode : Inode) (i sectors : Nat) (hn : n < 2 ^ 32) :
    (inode.withBlock i n sectors).block i = n := by
  unfold Inode.withBlock Inode.setSectorCount Inode.setBlock Inode.block
  rw [(put32_within _ _ _).get32 (by omega), get32_put32]
  exact Nat.mod_eq_of_lt hn

theorem withBlock_ne (inode : Inode) {i j : Nat} (n sectors : Nat) (hne : j ≠ i) :
    (inode.withBlock i n sectors).block j = inode.block j := by
  unfold Inode.withBlock Inode.setSectorCount Inode.setBlock Inode.block
  rw [(put32_within _ _ _).get32 (by omega), (put32_within _ _ _).get32 (by omega)]

/-- The tables in the cache stay valid where only the inode has a new block. -/
theorem Coherent.cached_named (h : Coherent s) (hnamed : Named p n s t)
    (hvalid : (s.cache.table slot).valid = true) : ∃ q : Place, q.Valid s.entries ∧
      q.slot = some slot ∧ t.pointer q = (s.cache.table slot).blockNumber ∧ t.pointer q ≠ 0 := by
  obtain ⟨q, hq, hslot, hnumber, hne⟩ := h.cached slot hvalid
  have hqp : q ≠ p := fun heq => hne (heq ▸ hnamed.hole)
  have hsame : t.pointer q = s.pointer q := (hnamed.pointers q hq).trans (if_neg hqp)
  rw [← hsame] at hnumber hne
  exact ⟨q, hq, hslot, hnumber, hne⟩

/-- A direct block. -/
theorem Coherent.direct (h : Coherent s) (hn : Spare s n) (hi : i < 12)
    (hzero : s.inode.block i = 0) (sectors : Nat) :
    Coherent { s with inode := s.inode.withBlock i n sectors } ∧
      Named (.direct i) n s { s with inode := s.inode.withBlock i n sectors } := by
  have hother : ∀ j, j ≠ i → (s.inode.withBlock i n sectors).block j = s.inode.block j :=
    fun j hne => withBlock_ne s.inode n sectors hne
  have hleaf : ∀ j, j < s.entries →
      Working.pointer { s with inode := s.inode.withBlock i n sectors } (.leaf j) =
        s.pointer (.leaf j) :=
    fun j hj => pointer_leaf (hother 13 (by omega)) (fun _ _ _ => rfl) hj
  have hnamed : Named (.direct i) n s { s with inode := s.inode.withBlock i n sectors } := by
    refine ⟨rfl, hzero, fun q hq => ?_⟩
    split
    next heq =>
      subst heq
      exact withBlock_self s.inode i sectors (hn.lt h)
    next hne =>
      cases q with
      | direct j => exact hother j fun heq => hne (congrArg Place.direct heq)
      | single => exact hother 12 (by omega)
      | root => exact hother 13 (by omega)
      | entry j => exact pointer_entry (hother 12 (by omega)) (fun _ _ _ => rfl) hq
      | leaf j => exact hleaf j hq
      | below j k => exact pointer_below (hleaf j hq.1) (fun _ _ _ => rfl) hq.2
  exact ⟨h.of_named hn hnamed h.arrays (fun _ hvalid => h.cached_named hnamed hvalid) h.rooted
    fun _ _ _ => rfl, hnamed⟩

/-- A table of zeros has no pointers. -/
theorem tableAt_zeros {t : Working} (hheld : (t.cache.table slot).Holds n)
    (hzeros : ∀ x < t.volume.blockBytes, (t.cache.table slot).entries.bytes x = 0)
    (hi : i < t.entries) : t.entryAt slot n i = 0 := by
  have hroom : 4 * i + 4 ≤ t.volume.blockBytes := entry_room hi
  unfold Working.entryAt
  split
  next => rfl
  next =>
    rw [tableAt_held hheld]
    unfold get32
    rw [hzeros _ (by omega), hzeros _ (by omega), hzeros _ (by omega), hzeros _ (by omega)]
    rfl

/-- A table of zeros for block `n`. -/
def CachedTable.zeroed (table : CachedTable) (blockSize n : Nat) : CachedTable :=
  ⟨true, true, n, { table.entries with bytes := fill table.entries.bytes 0 blockSize 0 }⟩

theorem zeroed_bytes (table : CachedTable) {blockSize : Nat} (n : Nat) (hx : x < blockSize) :
    (table.zeroed blockSize n).entries.bytes x = 0 := by
  show (if 0 ≤ x ∧ x < 0 + blockSize then _ else _) = _
  rw [if_pos (by omega)]

/-- The file with a new single-indirect table. -/
def Working.newSingle (s : Working) (n sectors : Nat) : Working where
  allocating := s.allocating
  inode := s.inode.withBlock 12 n sectors
  cache := { s.cache with single := s.cache.single.zeroed s.volume.blockBytes n }

theorem Coherent.newSingle (h : Coherent s) (hn : Spare s n) (hzero : s.inode.block 12 = 0)
    (sectors : Nat) : Coherent (s.newSingle n sectors) ∧
      Named .single n s (s.newSingle n sectors) ∧ Untouched s (s.newSingle n sectors) := by
  have hother : ∀ j, j ≠ 12 → (s.newSingle n sectors).inode.block j = s.inode.block j :=
    fun j hne => withBlock_ne s.inode n sectors hne
  have hself : (s.newSingle n sectors).inode.block 12 = n :=
    withBlock_self s.inode 12 sectors (hn.lt h)
  have hinvalid : s.cache.single.valid = false :=
    Bool.eq_false_iff.mpr fun hvalid => by
      obtain ⟨q, -, hslot, -, hne⟩ := h.cached .single hvalid
      cases q with
      | single => exact hne hzero
      | _ => cases hslot
  have htable : ∀ slot, slot ≠ .single →
      (s.newSingle n sectors).cache.table slot = s.cache.table slot := by
    intro slot hne
    cases slot with
    | single => exact absurd rfl hne
    | root => rfl
    | leaf => rfl
  have hleaf : ∀ j, j < s.entries →
      (s.newSingle n sectors).pointer (.leaf j) = s.pointer (.leaf j) :=
    fun j hj => pointer_leaf (hother 13 (by decide)) (fun _ _ _ => rfl) hj
  have hnamed : Named .single n s (s.newSingle n sectors) := by
    refine ⟨rfl, hzero, fun q hq => ?_⟩
    split
    next heq =>
      subst heq
      exact hself
    next hne =>
      cases q with
      | direct j =>
        have hj : j < 12 := hq
        exact hother j (by omega)
      | single => exact absurd rfl hne
      | root => exact hother 13 (by decide)
      | entry j =>
        have hs : s.pointer (.entry j) = 0 := if_pos hzero
        show (s.newSingle n sectors).entryAt .single ((s.newSingle n sectors).inode.block 12) j = _
        rw [hs, hself]
        exact tableAt_zeros ⟨rfl, rfl⟩ (fun x hx => zeroed_bytes _ n hx) hq
      | leaf j => exact hleaf j hq
      | below j k => exact pointer_below (hleaf j hq.1) (fun _ _ _ => rfl) hq.2
  refine ⟨h.of_named hn hnamed ⟨h.arrays.single, h.arrays.doubleRoot, h.arrays.doubleLeaf⟩
    (fun slot hvalid => ?_) h.rooted (fun slot hvalid hdirty => ?_), hnamed, fun slot hvalid => ?_⟩
  · by_cases hslot : slot = .single
    · subst hslot
      exact ⟨.single, trivial, rfl, hself, fun heq => hn.nonzero (hself.symm.trans heq)⟩
    · rw [htable slot hslot] at hvalid ⊢
      exact h.cached_named hnamed hvalid
  · refine htable slot fun hslot => ?_
    subst hslot
    cases hdirty
  · refine htable slot fun hslot => ?_
    subst hslot
    have hvalid' : s.cache.single.valid = true := hvalid
    rw [hinvalid] at hvalid'
    cases hvalid'

/-- The file with a new double-indirect root. -/
def Working.newRoot (s : Working) (n sectors : Nat) : Working where
  allocating := s.allocating
  inode := s.inode.withBlock 13 n sectors
  cache :=
    { s.cache with
      doubleRoot := s.cache.doubleRoot.zeroed s.volume.blockBytes n
      doubleLeaf := { s.cache.doubleLeaf with valid := false, dirty := false } }

theorem Coherent.newRoot (h : Coherent s) (hn : Spare s n) (hzero : s.inode.block 13 = 0)
    (sectors : Nat) : Coherent (s.newRoot n sectors) ∧
      Named .root n s (s.newRoot n sectors) ∧ Untouched s (s.newRoot n sectors) := by
  have hother : ∀ j, j ≠ 13 → (s.newRoot n sectors).inode.block j = s.inode.block j :=
    fun j hne => withBlock_ne s.inode n sectors hne
  have hself : (s.newRoot n sectors).inode.block 13 = n :=
    withBlock_self s.inode 13 sectors (hn.lt h)
  have hinvalid : s.cache.doubleRoot.valid = false :=
    Bool.eq_false_iff.mpr fun hvalid => by
      obtain ⟨q, -, hslot, -, hne⟩ := h.cached .root hvalid
      cases q with
      | root => exact hne hzero
      | _ => cases hslot
  have hleaf : s.cache.doubleLeaf.valid = false :=
    Bool.eq_false_iff.mpr fun hvalid => by
      have hroot := h.rooted hvalid
      rw [hinvalid] at hroot
      cases hroot
  have hnamed : Named .root n s (s.newRoot n sectors) := by
    have habsent : ∀ j, j < s.entries → (s.newRoot n sectors).pointer (.leaf j) = 0 := by
      intro j hj
      show (s.newRoot n sectors).entryAt .root ((s.newRoot n sectors).inode.block 13) j = 0
      rw [hself]
      exact tableAt_zeros ⟨rfl, rfl⟩ (fun x hx => zeroed_bytes _ n hx) hj
    have habsent' : ∀ j, s.pointer (.leaf j) = 0 := fun j => if_pos hzero
    refine ⟨rfl, hzero, fun q hq => ?_⟩
    split
    next heq =>
      subst heq
      exact hself
    next hne =>
      cases q with
      | direct j =>
        have hj : j < 12 := hq
        exact hother j (by omega)
      | single => exact hother 12 (by decide)
      | root => exact absurd rfl hne
      | entry j => exact pointer_entry (hother 12 (by decide)) (fun _ _ _ => rfl) hq
      | leaf j => exact (habsent j hq).trans (habsent' j).symm
      | below j k =>
        have hs : s.pointer (.below j k) = 0 := if_pos (habsent' j)
        have ht : (s.newRoot n sectors).pointer (.below j k) = 0 := if_pos (habsent j hq.1)
        exact ht.trans hs.symm
  refine ⟨h.of_named hn hnamed ⟨h.arrays.single, h.arrays.doubleRoot, h.arrays.doubleLeaf⟩
    (fun slot hvalid => ?_) (fun hvalid => nomatch hvalid) (fun slot hvalid hdirty => ?_), hnamed,
    fun slot hvalid => ?_⟩
  · cases slot with
    | single =>
      have hkept : (s.cache.table .single).valid = true := hvalid
      exact h.cached_named hnamed hkept
    | root => exact ⟨.root, trivial, rfl, hself, fun heq => hn.nonzero (hself.symm.trans heq)⟩
    | leaf => cases hvalid
  · cases slot with
    | single => rfl
    | root => cases hdirty
    | leaf => cases hvalid
  · cases slot with
    | single => rfl
    | root =>
      have hvalid' : s.cache.doubleRoot.valid = true := hvalid
      rw [hinvalid] at hvalid'
      cases hvalid'
    | leaf =>
      have hvalid' : s.cache.doubleLeaf.valid = true := hvalid
      rw [hleaf] at hvalid'
      cases hvalid'

/-- A table with another entry. -/
def CachedTable.withEntry (table : CachedTable) (i n : Nat) : CachedTable :=
  { table with entries := ⟨table.entries.size, put32 table.entries.bytes (4 * i) n⟩, dirty := true }

/-- The file with an entry put into a table of the cache. -/
def Working.withEntry (s : Working) (slot : Slot) (i n sectors : Nat) : Working where
  allocating := s.allocating
  inode := s.inode.setSectorCount sectors
  cache := s.cache.withTable slot ((s.cache.table slot).withEntry i n)

theorem sectorCount_block (inode : Inode) (sectors j : Nat) :
    (inode.setSectorCount sectors).block j = inode.block j :=
  (put32_within _ _ _).get32 (by omega)

theorem withEntry_table (s : Working) (slot slot' : Slot) (i n sectors : Nat) :
    (s.withEntry slot i n sectors).cache.table slot' =
      if slot' = slot then (s.cache.table slot).withEntry i n else s.cache.table slot' := by
  split
  next heq =>
    subst heq
    exact withTable_self _ _ _
  next hne => exact withTable_other _ hne _

theorem withEntry_holds (s : Working) (slot slot' : Slot) (i n sectors m : Nat) :
    ((s.withEntry slot i n sectors).cache.table slot').Holds m ↔ (s.cache.table slot').Holds m := by
  rw [withEntry_table]
  split
  next heq =>
    subst heq
    exact Iff.rfl
  next => exact Iff.rfl

/-- The entries of the tables then. -/
theorem withEntry_entryAt {m sectors : Nat} {slot' : Slot} {i' : Nat}
    (hheld : (s.cache.table slot).Holds m) (hm : m ≠ 0) (hn : n < 2 ^ 32) (k : Nat) :
    (s.withEntry slot i n sectors).entryAt slot' k i' =
      if slot' = slot ∧ k = m ∧ i' = i then n else s.entryAt slot' k i' := by
  unfold Working.entryAt
  by_cases hk : k = 0
  · rw [if_pos hk, if_pos hk, if_neg fun hall => hm (hall.2.1.symm.trans hk)]
  rw [if_neg hk, if_neg hk]
  by_cases hin : (s.cache.table slot').Holds k
  · rw [tableAt_held ((withEntry_holds s slot slot' i n sectors k).mpr hin), tableAt_held hin,
      withEntry_table]
    by_cases hslot : slot' = slot
    · subst hslot
      have hkm : k = m := hin.2.symm.trans hheld.2
      rw [if_pos rfl]
      show get32 (put32 (s.cache.table slot').entries.bytes (4 * i) n) (4 * i') = _
      by_cases hi : i' = i
      · rw [if_pos ⟨rfl, hkm, hi⟩, hi, get32_put32]
        exact Nat.mod_eq_of_lt hn
      · rw [if_neg fun hall => hi hall.2.2]
        exact (put32_within _ _ _).get32 (by omega)
    · rw [if_neg hslot, if_neg fun hall => hslot hall.1]
  · have hout : ¬((s.withEntry slot i n sectors).cache.table slot').Holds k :=
      fun hheld' => hin ((withEntry_holds s slot slot' i n sectors k).mp hheld')
    rw [tableAt_device hout, tableAt_device hin, if_neg]
    · rfl
    · rintro ⟨rfl, rfl, -⟩
      exact hin hheld

/-- A new block in a table of the cache. -/
theorem Coherent.withEntry (h : Coherent s) {sectors : Nat}
    (hnamed : Named p n s (s.withEntry slot i n sectors)) (hn : Spare s n) :
    Coherent (s.withEntry slot i n sectors) := by
  have hvalid : ∀ slot', ((s.withEntry slot i n sectors).cache.table slot').valid =
      (s.cache.table slot').valid := by
    intro slot'
    rw [withEntry_table]
    split
    next heq =>
      subst heq
      rfl
    next => rfl
  have harray : ((s.cache.table slot).withEntry i n).entries.size = 4096 := h.arrays.table slot
  refine h.of_named hn hnamed (h.arrays.withTable harray slot) (fun slot' hvalid' => ?_)
    (fun hleaf => ?_) fun slot' hvalid' hdirty => ?_
  · have hheld := (withEntry_holds s slot slot' i n sectors _).mp ⟨hvalid', rfl⟩
    obtain ⟨q, hq, hslot, hnumber, hne⟩ := h.cached_named hnamed hheld.1
    exact ⟨q, hq, hslot, hnumber.trans hheld.2, hne⟩
  · have hleaf' : (s.cache.table .leaf).valid = true := (hvalid .leaf).symm.trans hleaf
    exact (hvalid .root).trans (h.rooted hleaf')
  · rw [withEntry_table] at hdirty ⊢
    split
    next heq =>
      rw [if_pos heq] at hdirty
      cases hdirty
    next => rfl

theorem Coherent.newEntry (h : Coherent s) (hn : Spare s n)
    (hheld : (s.cache.table .single).Holds (s.inode.block 12)) (hne : s.inode.block 12 ≠ 0)
    (hhole : s.pointer (.entry i) = 0) (sectors : Nat) :
    Named (.entry i) n s (s.withEntry .single i n sectors) := by
  have hlt := hn.lt h
  have hblock : ∀ j, (s.withEntry .single i n sectors).inode.block j = s.inode.block j :=
    sectorCount_block s.inode sectors
  refine ⟨rfl, hhole, fun q hq => ?_⟩
  cases q with
  | direct j => exact hblock j
  | single => exact hblock 12
  | root => exact hblock 13
  | entry j =>
    show (s.withEntry .single i n sectors).entryAt .single
      ((s.withEntry .single i n sectors).inode.block 12) j = _
    rw [hblock, withEntry_entryAt hheld hne hlt]
    by_cases hj : j = i
    · rw [if_pos ⟨rfl, rfl, hj⟩, if_pos (congrArg Place.entry hj)]
    · rw [if_neg fun hall => hj hall.2.2, if_neg fun heq => hj (Place.entry.inj heq)]
      rfl
  | leaf j =>
    show (s.withEntry .single i n sectors).entryAt .root
      ((s.withEntry .single i n sectors).inode.block 13) j = _
    rw [hblock, withEntry_entryAt hheld hne hlt, if_neg (nomatch ·.1)]
    rfl
  | below j k =>
    show (s.withEntry .single i n sectors).entryAt .leaf ((s.withEntry .single i n sectors).entryAt
      .root ((s.withEntry .single i n sectors).inode.block 13) j) k = _
    rw [hblock, withEntry_entryAt hheld hne hlt, withEntry_entryAt hheld hne hlt,
      if_neg (nomatch ·.1), if_neg (nomatch ·.1)]
    rfl

theorem Coherent.newBelow (h : Coherent s) (hn : Spare s n) (hj : j < s.entries)
    (hheld : (s.cache.table .leaf).Holds (s.pointer (.leaf j))) (hne : s.pointer (.leaf j) ≠ 0)
    (hhole : s.pointer (.below j i) = 0) (sectors : Nat) :
    Named (.below j i) n s (s.withEntry .leaf i n sectors) := by
  have hlt := hn.lt h
  have hblock : ∀ k, (s.withEntry .leaf i n sectors).inode.block k = s.inode.block k :=
    sectorCount_block s.inode sectors
  have hleaf : ∀ k, (s.withEntry .leaf i n sectors).pointer (.leaf k) = s.pointer (.leaf k) := by
    intro k
    show (s.withEntry .leaf i n sectors).entryAt .root
      ((s.withEntry .leaf i n sectors).inode.block 13) k = _
    rw [hblock, withEntry_entryAt hheld hne hlt, if_neg (nomatch ·.1)]
    rfl
  refine ⟨rfl, hhole, fun q hq => ?_⟩
  cases q with
  | direct k => exact hblock k
  | single => exact hblock 12
  | root => exact hblock 13
  | entry k =>
    show (s.withEntry .leaf i n sectors).entryAt .single
      ((s.withEntry .leaf i n sectors).inode.block 12) k = _
    rw [hblock, withEntry_entryAt hheld hne hlt, if_neg (nomatch ·.1)]
    rfl
  | leaf k => exact hleaf k
  | below j' k =>
    show (s.withEntry .leaf i n sectors).entryAt .leaf
      ((s.withEntry .leaf i n sectors).pointer (.leaf j')) k = _
    rw [hleaf, withEntry_entryAt hheld hne hlt]
    by_cases hplace : j' = j ∧ k = i
    · rw [if_pos ⟨rfl, by rw [hplace.1], hplace.2⟩, if_pos (by rw [hplace.1, hplace.2])]
    · rw [if_neg fun hall => hplace ⟨?_, hall.2.2⟩, if_neg fun heq => hplace (Place.below.inj heq)]
      · rfl
      · -- the leaf tables are different blocks
        have hsame : s.pointer (.leaf j') = s.pointer (.leaf j) := hall.2.1
        exact Place.leaf.inj (h.once (.leaf j') (.leaf j) hq.1 hj hsame (hsame.symm ▸ hne))

/-- The file with a new leaf table in the place of one that is on the device. -/
def Working.newLeaf (s : Working) (j n sectors : Nat) : Working where
  allocating := s.allocating
  inode := s.inode.setSectorCount sectors
  cache :=
    { s.cache with
      doubleRoot := s.cache.doubleRoot.withEntry j n
      doubleLeaf := s.cache.doubleLeaf.zeroed s.volume.blockBytes n }

theorem Coherent.newLeaf (h : Coherent s) (hn : Spare s n)
    (hheld : (s.cache.table .root).Holds (s.inode.block 13)) (hne : s.inode.block 13 ≠ 0)
    (hj : j < s.entries) (hhole : s.pointer (.leaf j) = 0)
    (hdevice : s.cache.doubleLeaf.valid = true → ∀ x < s.volume.blockBytes,
      s.volume.block s.cache.doubleLeaf.blockNumber x = s.cache.doubleLeaf.entries.bytes x)
    (sectors : Nat) : Coherent (s.newLeaf j n sectors) ∧
      Named (.leaf j) n s (s.newLeaf j n sectors) ∧ Kept s (s.newLeaf j n sectors) := by
  have hlt := hn.lt h
  have hblock : ∀ k, (s.newLeaf j n sectors).inode.block k = s.inode.block k :=
    sectorCount_block s.inode sectors
  have hleaf : ∀ k, (s.newLeaf j n sectors).pointer (.leaf k) =
      if k = j then n else s.pointer (.leaf k) := by
    intro k
    have hroot : (s.newLeaf j n sectors).entryAt .root (s.inode.block 13) k =
        (s.withEntry .root j n sectors).entryAt .root (s.inode.block 13) k := rfl
    show (s.newLeaf j n sectors).entryAt .root ((s.newLeaf j n sectors).inode.block 13) k = _
    rw [hblock, hroot, withEntry_entryAt hheld hne hlt]
    by_cases hk : k = j
    · rw [if_pos ⟨rfl, rfl, hk⟩, if_pos hk]
    · rw [if_neg fun hall => hk hall.2.2, if_neg hk]
      rfl
  have hnamed : Named (.leaf j) n s (s.newLeaf j n sectors) := by
    refine ⟨rfl, hhole, fun q hq => ?_⟩
    cases q with
    | direct k => exact hblock k
    | single => exact hblock 12
    | root => exact hblock 13
    | entry k => exact pointer_entry (hblock 12) (fun _ _ _ => rfl) hq
    | leaf k =>
      rw [hleaf]
      by_cases hk : k = j
      · rw [if_pos hk, if_pos (congrArg Place.leaf hk)]
      · rw [if_neg hk, if_neg fun heq => hk (Place.leaf.inj heq)]
    | below k i =>
      rw [if_neg nofun]
      by_cases hk : k = j
      · have hs : s.pointer (.below k i) = 0 := if_pos (hk ▸ hhole)
        rw [hs]
        show (s.newLeaf j n sectors).entryAt .leaf ((s.newLeaf j n sectors).pointer (.leaf k)) i = 0
        rw [hleaf, if_pos hk]
        exact tableAt_zeros ⟨rfl, rfl⟩ (fun x hx => zeroed_bytes _ n hx) hq.2
      · refine pointer_below ((hleaf k).trans (if_neg hk)) (fun _ x hx => ?_) hq.2
        -- another leaf table is on the device now
        have hout : ¬((s.newLeaf j n sectors).cache.table .leaf).Holds (s.pointer (.leaf k)) :=
          fun hheld' => hn.fresh (.leaf k) hq.1 hheld'.2.symm
        rw [tableAt_device hout]
        by_cases hold : (s.cache.table .leaf).Holds (s.pointer (.leaf k))
        · rw [tableAt_held hold, ← hold.2]
          exact hdevice hold.1 x hx
        · rw [tableAt_device hold]
          rfl
  refine ⟨h.of_named hn hnamed ⟨h.arrays.single, h.arrays.doubleRoot, h.arrays.doubleLeaf⟩
    (fun slot hvalid => ?_) (fun _ => hheld.1) (fun slot hvalid hdirty => ?_), hnamed,
    fun slot hvalid => ?_⟩
  · cases slot with
    | single =>
      have hkept : (s.cache.table .single).valid = true := hvalid
      exact h.cached_named hnamed hkept
    | root =>
      have hkept : (s.cache.table .root).valid = true := hvalid
      exact h.cached_named hnamed hkept
    | leaf =>
      have hself : (s.newLeaf j n sectors).pointer (.leaf j) = n := (hleaf j).trans (if_pos rfl)
      exact ⟨.leaf j, hj, rfl, hself, fun heq => hn.nonzero (hself.symm.trans heq)⟩
  · cases slot with
    | single => rfl
    | root => cases hdirty
    | leaf => cases hdirty
  · cases slot with
    | single => exact .inl ⟨hvalid, rfl⟩
    | root => exact .inl ⟨hvalid, rfl⟩
    | leaf => exact .inr (hdevice hvalid)

end MeatySkeleton.Ext2
