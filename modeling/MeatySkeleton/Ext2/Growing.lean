import MeatySkeleton.Ext2.Mapping

/-!
# Allocations

`ext2_get_or_allocate_data_block` names new blocks only where there were holes, on the path to
the block asked for (`Grown`). It writes a leaf table back before another one takes its place,
so that no table leaves the cache before it is on the device (`Kept`).
-/

namespace MeatySkeleton.Ext2

open Lib Lib.Effect

variable {s t u : Working} {slot : Slot} {p : Place} {i j k n x : Nat} {l l' : List Place}

/-! ## What an allocation leaves alone -/

/-- A coherent file with new blocks at places of `l` that were holes. -/
structure Grown (l : List Place) (s t : Working) : Prop where
  coherent : Coherent t
  places : SamePlaces s.volume t.volume
  pointers : ∀ q : Place, q.Valid s.entries → t.pointer q = s.pointer q ∨ s.pointer q = 0 ∧ q ∈ l
  blocks : ∀ q : Place, q.Valid s.entries → q.slot = none → s.pointer q ≠ 0 →
    ∀ x < s.volume.blockBytes, t.volume.block (s.pointer q) x = s.volume.block (s.pointer q) x
  inode : ∀ x, x < 28 ∨ 100 ≤ x → t.inode x = s.inode x

theorem Grown.refl (h : Coherent s) (l : List Place) : Grown l s s :=
  ⟨h, .refl _, fun _ _ => .inl rfl, fun _ _ _ _ _ _ => rfl, fun _ _ => rfl⟩

theorem Grown.mono (h : Grown l s t) (hl : ∀ q ∈ l, q ∈ l') : Grown l' s t :=
  ⟨h.coherent, h.places, fun q hq => (h.pointers q hq).imp_right fun hnew => ⟨hnew.1, hl q hnew.2⟩,
    h.blocks, h.inode⟩

/-- A pointer stays. -/
theorem Grown.pointer (h : Grown l s t) (hp : p.Valid s.entries) (hne : s.pointer p ≠ 0) :
    t.pointer p = s.pointer p :=
  (h.pointers p hp).resolve_right fun hhole => hne hhole.1

theorem Grown.trans (h : Grown l s t) (h' : Grown l t u) : Grown l s u where
  coherent := h'.coherent
  places := h.places.trans h'.places
  pointers q hq := by
    rcases h.pointers q hq with hsame | hnew
    · rw [← hsame]
      exact h'.pointers q (h.places.entries.symm ▸ hq)
    · exact .inr hnew
  blocks q hq hslot hne x hx := by
    have hsame := h.pointer hq hne
    have hlater := h'.blocks q (h.places.entries.symm ▸ hq) hslot (hsame.symm ▸ hne) x
      (h.places.blockBytes.symm ▸ hx)
    rw [hsame] at hlater
    exact hlater.trans (h.blocks q hq hslot hne x hx)
  inode x hx := (h'.inode x hx).trans (h.inode x hx)

theorem Steady.grown (h : Steady s t) (l : List Place) : Grown l s t where
  coherent := h.coherent
  places := h.same.places
  pointers q hq := .inl (h.same.pointers q hq)
  blocks _ _ _ _ _ _ := by rw [h.file.volume]
  inode _ _ := by rw [h.file.inode]

theorem Named.grown (h : Named p n s t) (hcoherent : Coherent t) (hp : p ∈ l)
    (hinode : ∀ x, x < 28 ∨ 100 ≤ x → t.inode x = s.inode x) : Grown l s t where
  coherent := hcoherent
  places := by
    rw [h.volume]
    exact .refl _
  pointers q hq := by
    rw [h.pointers q hq]
    split
    next heq => exact .inr ⟨heq ▸ h.hole, heq ▸ hp⟩
    next => exact .inl rfl
  blocks _ _ _ _ _ _ := by rw [h.volume]
  inode := hinode

theorem withBlock_frame (inode : Inode) {i : Nat} (hi : i < 15) (n sectors : Nat)
    (hx : x < 28 ∨ 100 ≤ x) : inode.withBlock i n sectors x = inode x := by
  unfold Inode.withBlock Inode.setSectorCount Inode.setBlock
  rw [put32_within _ _ _ _ (by omega), put32_within _ _ _ _ (by omega)]

theorem sectorCount_frame (inode : Inode) (sectors : Nat) (hx : x < 28 ∨ 100 ≤ x) :
    inode.setSectorCount sectors x = inode x := put32_within _ _ _ _ (by omega)

/-! ## New blocks -/

/-- What a new block leaves of a file: the file and its blocks, with the cache as it was. -/
structure Reserved (s t : Working) : Prop where
  coherent : Coherent t
  same : SamePointers s t
  inode : t.inode = s.inode
  cache : t.cache = s.cache
  blocks : ∀ k, s.volume.Data k → ∀ x < s.volume.blockBytes, t.volume.block k x = s.volume.block k x

theorem Reserved.grown (h : Reserved s t) (hs : Coherent s) (l : List Place) : Grown l s t where
  coherent := h.coherent
  places := h.same.places
  pointers q hq := .inl (h.same.pointers q hq)
  blocks q hq _ hne := h.blocks _ (hs.data q hq hne).1
  inode _ _ := by rw [h.inode]

theorem Reserved.untouched (h : Reserved s t) : Untouched s t := by
  intro slot _
  rw [h.cache]

/-- A new block has no place yet. -/
theorem allocateNew_meets (h : Coherent s) :
    (allocateNew s).Meets (fun n t => Reserved s t ∧ Spare t n) fun t => Reserved s t := by
  have hkept : ∀ a : Allocating, Sound a → SamePlaces s.volume a.volume →
      (∀ x, s.volume.OutsideMaps x → a.volume.image x = s.volume.image x) →
      (∀ n, s.volume.Data n → s.allocating.used n = true → a.used n = true) →
      Reserved s { s with allocating := a } := by
    intro a hsound hplaces helse hused
    obtain ⟨hcoherent, hpointers⟩ := h.allocated hsound hplaces helse hused
    exact ⟨hcoherent, hpointers, rfl, rfl, fun k hk x hx => block_kept h.layout hplaces helse hk hx⟩
  unfold allocateNew
  refine meets_bind (Q := fun n t => Reserved s t ∧ (n ≠ 0 → Spare t n)) (meets_zoom ?_) ?_
  · refine meets_mono (allocateBlock_meets h.sound) ?_ ?_
    · rintro n a ⟨hsound, htook⟩
      have hreserved := hkept a hsound htook.places htook.elsewhere fun k hk hin => by
        rw [htook.used h.sound hk, hin]
        rfl
      refine ⟨hreserved, fun hne => ⟨hne, htook.places.data htook.data, ?_, fun p hp heq => ?_⟩⟩
      · show a.used n = true
        rw [htook.used h.sound htook.data, decide_eq_true rfl, Bool.or_true]
      · rw [hreserved.same.places.entries] at hp
        rw [hreserved.same.pointers p hp] at heq
        have hin := (h.data p hp (heq ▸ hne)).2
        have hfresh : s.allocating.used n = false := htook.fresh
        rw [heq, hfresh] at hin
        cases hin
    · rintro a ⟨hsound, hsame, -⟩
      exact hkept a hsound hsame.places hsame.elsewhere fun k hk hin =>
        (hsame.used h.sound hk).trans hin
  · rintro n t ⟨hreserved, hspare⟩
    by_cases hne : n ≠ 0
    · rw [require_bind hne]
      exact ⟨hreserved, hspare hne⟩
    · rw [require_failed hne]
      exact hreserved

/-! ## The tables in the cache -/

/-- The tables that were valid are still in the cache. -/
def Held (s t : Working) : Prop :=
  ∀ slot, (s.cache.table slot).valid = true →
    (t.cache.table slot).Holds (s.cache.table slot).blockNumber

/-- The blocks for files have the same contents. -/
def SameData (s t : Working) : Prop :=
  ∀ k, s.volume.Data k → ∀ x < s.volume.blockBytes, t.volume.block k x = s.volume.block k x

/-- The tables that were valid are still there, with the same entries. -/
def Unmoved (s t : Working) : Prop :=
  ∀ slot, (s.cache.table slot).valid = true →
    (t.cache.table slot).Holds (s.cache.table slot).blockNumber ∧
      (t.cache.table slot).entries = (s.cache.table slot).entries

theorem Unmoved.refl (s : Working) : Unmoved s s := fun _ hvalid => ⟨⟨hvalid, rfl⟩, rfl⟩

theorem Untouched.unmoved (h : Untouched s t) : Unmoved s t := by
  intro slot hvalid
  rw [h slot hvalid]
  exact ⟨⟨hvalid, rfl⟩, rfl⟩

theorem Unmoved.trans (h : Unmoved s t) (h' : Unmoved t u) : Unmoved s u := by
  intro slot hvalid
  obtain ⟨⟨hvalid', hnumber⟩, hentries⟩ := h slot hvalid
  obtain ⟨hheld, hentries'⟩ := h' slot hvalid'
  rw [hnumber] at hheld
  exact ⟨hheld, hentries'.trans hentries⟩

theorem Unmoved.kept (h : Unmoved s t) : Kept s t := fun slot hvalid => .inl (h slot hvalid).1

theorem Unmoved.trans_kept (h : Unmoved s t) (hbytes : t.volume.blockBytes = s.volume.blockBytes)
    (h' : Kept t u) : Kept s u := by
  intro slot hvalid
  obtain ⟨⟨hvalid', hnumber⟩, hentries⟩ := h slot hvalid
  have hkept := h' slot hvalid'
  rw [hnumber, hentries, hbytes] at hkept
  exact hkept

theorem Reserved.unmoved (h : Reserved s t) : Unmoved s t := h.untouched.unmoved

theorem Kept.trans_held (h : Kept s t) (hs : Coherent s) (hplaces : SamePlaces s.volume t.volume)
    (hheld : Held t u) (hdata : SameData t u) : Kept s u := by
  intro slot hvalid
  obtain ⟨p, hp, -, hnumber, hne⟩ := hs.cached slot hvalid
  rcases h slot hvalid with hstay | hdevice
  · left
    rw [← hstay.2]
    exact hheld slot hstay.1
  · right
    intro x hx
    have hblock := hplaces.data (hnumber ▸ (hs.data p hp hne).1)
    rw [hdata _ hblock x (hplaces.blockBytes.symm ▸ hx)]
    exact hdevice x hx

theorem newTable_done {table : CachedTable} {blockSize : Nat} {σ : Type} {y : σ}
    (hsize : table.entries.size = 4096) (h : blockSize ≤ 4096) :
    newTable blockSize n table y = .done (table.zeroed blockSize n) y := by
  unfold newTable
  rw [bind_done (fill_done (by omega))]
  rfl

/-- An entry of a table that is held. -/
theorem Coherent.entry_done (h : Coherent s) (slot : Slot) (hi : i < s.entries)
    (hheld : (s.cache.table slot).Holds n) (hn : n ≠ 0) :
    ((s.cache.table slot).entry i : Effect Working Nat) s = .done (s.entryAt slot n i) s := by
  have hroom : 4 * i + 4 ≤ s.volume.blockBytes := entry_room hi
  have hmax := h.usable.blockSized.le.2
  have harray := h.arrays.table slot
  unfold Working.entryAt CachedTable.entry Buffer.get32
  rw [demand_bind (by omega), if_neg hn, tableAt_held hheld]
  rfl

/-- The cache with the table of block `n` as it is on the device. -/
def BlockCache.fresh (c : BlockCache) (slot : Slot) (n : Nat) (entries : Buffer) : BlockCache :=
  match slot with
  | .single => { c with single := ⟨true, false, n, entries⟩ }
  | .root =>
    { c with
      doubleRoot := ⟨true, false, n, entries⟩
      doubleLeaf := { c.doubleLeaf with valid := false, dirty := false } }
  | .leaf => { c with doubleLeaf := ⟨true, false, n, entries⟩ }

theorem fresh_table (c : BlockCache) (slot : Slot) (n : Nat) (entries : Buffer) :
    (c.fresh slot n entries).table slot = ⟨true, false, n, entries⟩ := by
  cases slot
  all_goals rfl

/-- The file with the table at `p` read into the cache. -/
def Working.reread (s : Working) (slot : Slot) (p : Place) : Working :=
  { s with cache := s.cache.fresh slot (s.pointer p) (s.readInto slot (s.pointer p)) }

theorem Coherent.reread (h : Coherent s) (hp : p.Valid s.entries) (hslot : p.slot = some slot)
    (hne : s.pointer p ≠ 0) (hmiss : ¬(s.cache.table slot).Holds (s.pointer p))
    (hdevice : (s.cache.table slot).valid = true → ∀ x < s.volume.blockBytes,
      s.volume.block (s.cache.table slot).blockNumber x = (s.cache.table slot).entries.bytes x)
    (hroot : slot = .leaf → s.cache.doubleRoot.valid = true) :
    Steady s (s.reread slot p) ∧ Kept s (s.reread slot p) ∧
      ((s.reread slot p).cache.table slot).Holds (s.pointer p) ∧
      ∀ slot', slot' ≠ slot → (s.cache.table slot').valid = true →
        (s.reread slot p).cache.table slot' = s.cache.table slot' := by
  have harray : (s.readInto slot (s.pointer p)).size = 4096 := h.arrays.table slot
  have harrays : (s.reread slot p).cache.Arrays := by
    cases slot with
    | single => exact ⟨harray, h.arrays.doubleRoot, h.arrays.doubleLeaf⟩
    | root => exact ⟨h.arrays.single, harray, h.arrays.doubleLeaf⟩
    | leaf => exact ⟨h.arrays.single, h.arrays.doubleRoot, harray⟩
  have hheld : ((s.reread slot p).cache.table slot).Holds (s.pointer p) := by
    unfold Working.reread
    rw [fresh_table]
    exact ⟨rfl, rfl⟩
  have hentries : ∀ x < s.volume.blockBytes,
      ((s.reread slot p).cache.table slot).entries.bytes x = s.volume.block (s.pointer p) x := by
    intro x hx
    unfold Working.reread
    rw [fresh_table]
    exact readInto_bytes hx
  have hothers : ∀ slot', slot' ≠ slot → (s.reread slot p).cache.table slot' = s.cache.table slot' ∨
      (slot = .root ∧ slot' = .leaf ∧ ((s.reread slot p).cache.table slot').valid = false) := by
    intro slot' hother
    cases slot with
    | single =>
      cases slot' with
      | single => exact absurd rfl hother
      | _ => exact .inl rfl
    | root =>
      cases slot' with
      | single => exact .inl rfl
      | root => exact absurd rfl hother
      | leaf => exact .inr ⟨rfl, rfl, rfl⟩
    | leaf =>
      cases slot' with
      | leaf => exact absurd rfl hother
      | _ => exact .inl rfl
  obtain ⟨hcoherent, hpointers, hsame⟩ := h.loaded (t := s.reread slot p) rfl rfl harrays hp hslot
    hne hmiss hheld hentries hothers hdevice hroot
  refine ⟨⟨hcoherent, hpointers, rfl, rfl⟩, fun slot' hvalid => ?_, hheld, hsame⟩
  by_cases heq : slot' = slot
  · subst heq
    exact .inr (hdevice hvalid)
  · rw [hsame slot' heq hvalid]
    exact .inl ⟨hvalid, rfl⟩

theorem Coherent.read_done (h : Coherent s) (slot : Slot) (hp : p.Valid s.entries)
    (hne : s.pointer p ≠ 0) :
    readBlock s.volume.blockBytes (s.pointer p) (s.cache.table slot).entries s.volume =
      .done (s.readInto slot (s.pointer p)) s.volume := by
  refine readBlock_done h.usable.blockSized (h.hasBlock hp hne) ?_
  rw [h.arrays.table]
  exact h.usable.blockSized.le.2

/-- The single-indirect table is in the cache. -/
theorem loadSingle_meets (h : Coherent s) :
    (loadSingle s.volume.blockBytes s).Meets
      (fun _ t => Grown [.single] s t ∧ Kept s t ∧ t.pointer .single ≠ 0 ∧
        (t.cache.table .single).Holds (t.pointer .single))
      fun t => Grown [.single] s t ∧ Kept s t := by
  have hmax := h.usable.blockSized.le.2
  unfold loadSingle
  rw [bind_done (inodeBlock_done (by decide))]
  by_cases hzero : s.inode.block 12 = 0
  · rw [if_pos hzero]
    refine meets_bind (meets_mono (allocateNew_meets h) (fun _ _ hnew => hnew)
      fun t ht => ⟨ht.grown h _, ht.unmoved.kept⟩) ?_
    intro n t ⟨hreserved, hspare⟩
    have hbytes := hreserved.same.places.blockBytes
    have hnone : t.inode.block 12 = 0 := hreserved.inode.symm ▸ hzero
    have htable : newTable s.volume.blockBytes n t.cache.single t =
        .done (t.cache.single.zeroed s.volume.blockBytes n) t :=
      newTable_done hreserved.coherent.arrays.single hmax
    rw [get_bind, bind_done htable, ← hbytes]
    obtain ⟨hcoherent, hnamed, htouch⟩ := hreserved.coherent.newSingle hspare hnone
      ((t.inode.setBlock 12 n).sectorCount + t.volume.blockBytes / 512)
    have hself := hnamed.pointers .single trivial
    rw [if_pos rfl] at hself
    refine ⟨(hreserved.grown h _).trans (hnamed.grown hcoherent (List.mem_singleton_self _)
      fun x hx => withBlock_frame t.inode (by decide) _ _ hx), ?_, ?_⟩
    · exact hreserved.unmoved.trans_kept hbytes htouch.kept
    · show (t.newSingle n _).pointer .single ≠ 0 ∧ _
      rw [hself]
      exact ⟨hspare.nonzero, rfl, hself.symm⟩
  · have hne : s.pointer .single ≠ 0 := hzero
    rw [if_neg hzero, get_bind]
    unfold when
    by_cases hheld : s.cache.single.Holds (s.inode.block 12)
    · rw [if_neg (not_not.mpr hheld)]
      exact ⟨.refl h _, fun slot hvalid => .inl ⟨hvalid, rfl⟩, hzero, hheld⟩
    · obtain ⟨hsteady, hkept, hin, -⟩ := h.reread (p := .single) trivial rfl hne hheld
        (fun hvalid => absurd (h.single_held hvalid) hheld) nofun
      have hread : readBlock s.volume.blockBytes (s.inode.block 12) s.cache.single.entries s.volume =
          .done (s.readInto .single (s.inode.block 12)) s.volume :=
        h.read_done .single (p := .single) trivial hne
      rw [if_pos hheld, onDevice_bind, hread]
      exact ⟨hsteady.grown _, hkept, hzero, hin⟩

/-- The root table is in the cache; a leaf table is dropped with one that is not there. -/
theorem loadRoot_meets (h : Coherent s) :
    (loadRoot s.volume.blockBytes s).Meets
      (fun _ t => Grown [.root] s t ∧ Unmoved s t ∧ t.pointer .root ≠ 0 ∧
        (t.cache.table .root).Holds (t.pointer .root))
      fun t => Grown [.root] s t ∧ Unmoved s t := by
  have hmax := h.usable.blockSized.le.2
  unfold loadRoot
  rw [bind_done (inodeBlock_done (by decide))]
  by_cases hzero : s.inode.block 13 = 0
  · rw [if_pos hzero]
    refine meets_bind (meets_mono (allocateNew_meets h) (fun _ _ hnew => hnew)
      fun t ht => ⟨ht.grown h _, ht.unmoved⟩) ?_
    intro n t ⟨hreserved, hspare⟩
    have hbytes := hreserved.same.places.blockBytes
    have hnone : t.inode.block 13 = 0 := hreserved.inode.symm ▸ hzero
    have htable : newTable s.volume.blockBytes n t.cache.doubleRoot t =
        .done (t.cache.doubleRoot.zeroed s.volume.blockBytes n) t :=
      newTable_done hreserved.coherent.arrays.doubleRoot hmax
    rw [get_bind, bind_done htable, ← hbytes]
    obtain ⟨hcoherent, hnamed, htouch⟩ := hreserved.coherent.newRoot hspare hnone
      ((t.inode.setBlock 13 n).sectorCount + t.volume.blockBytes / 512)
    have hself := hnamed.pointers .root trivial
    rw [if_pos rfl] at hself
    refine ⟨(hreserved.grown h _).trans (hnamed.grown hcoherent (List.mem_singleton_self _)
      fun x hx => withBlock_frame t.inode (by decide) _ _ hx), ?_, ?_⟩
    · exact hreserved.unmoved.trans htouch.unmoved
    · show (t.newRoot n _).pointer .root ≠ 0 ∧ _
      rw [hself]
      exact ⟨hspare.nonzero, rfl, hself.symm⟩
  · have hne : s.pointer .root ≠ 0 := hzero
    rw [if_neg hzero, get_bind]
    unfold when
    by_cases hheld : s.cache.doubleRoot.Holds (s.inode.block 13)
    · rw [if_neg (not_not.mpr hheld)]
      exact ⟨.refl h _, .refl s, hzero, hheld⟩
    · obtain ⟨hsteady, -, hin, hothers⟩ := h.reread (p := .root) trivial rfl hne hheld
        (fun hvalid => absurd (h.root_held hvalid) hheld) nofun
      have hread : readBlock s.volume.blockBytes (s.inode.block 13) s.cache.doubleRoot.entries
          s.volume = .done (s.readInto .root (s.inode.block 13)) s.volume :=
        h.read_done .root (p := .root) trivial hne
      rw [if_pos hheld, onDevice_bind, hread]
      refine ⟨hsteady.grown _, fun slot hvalid => ?_, hzero, hin⟩
      have hother : slot ≠ .root := by
        intro heq
        subst heq
        exact hheld (h.root_held hvalid)
      have hsame := hothers slot hother hvalid
      exact ⟨⟨hsame ▸ hvalid, congrArg CachedTable.blockNumber hsame⟩,
        congrArg CachedTable.entries hsame⟩

/-! ### The leaf table -/

/-- The file with a table written back if it is dirty. -/
def Working.writtenBack (s : Working) (slot : Slot) : Working :=
  if (s.cache.table slot).valid = true ∧ (s.cache.table slot).dirty = true then s.written slot
  else s

theorem withTable_same (c : BlockCache) (slot : Slot) : c.withTable slot (c.table slot) = c := by
  cases slot
  all_goals rfl

/-- `ext2_flush_block_cache` for one table. -/
theorem flushTable_writtenBack (h : Coherent s) (slot : Slot) {α : Type}
    (f : CachedTable → Effect Working α) :
    (onDevice (flushTable s.volume.blockBytes (s.cache.table slot)) >>= fun table => do
      modify fun s => { s with cache := s.cache.withTable slot table }
      f table) s = f ((s.writtenBack slot).cache.table slot) (s.writtenBack slot) := by
  unfold Working.writtenBack flushTable
  by_cases hdirty : (s.cache.table slot).valid = true ∧ (s.cache.table slot).dirty = true
  · obtain ⟨p, hp, -, hnumber, hne⟩ := h.cached slot hdirty.1
    have hblock : (s.cache.table slot).blockNumber < s.volume.superblock.blockCount :=
      hnumber ▸ (h.data p hp hne).1.high
    have hroom : s.volume.blockBytes ≤ (s.cache.table slot).entries.size := by
      rw [h.arrays.table]
      exact h.usable.blockSized.le.2
    rw [if_pos hdirty, if_pos hdirty, onDevice_bind, bind_done (h.layout.writeBlock hblock hroom),
      written_table, if_pos rfl]
    rfl
  · rw [if_neg hdirty, if_neg hdirty, onDevice_bind]
    show f (s.cache.table slot) { s with cache := s.cache.withTable slot (s.cache.table slot) } = _
    rw [withTable_same]

theorem writtenBack_holds (s : Working) (slot slot' : Slot) (m : Nat) :
    ((s.writtenBack slot).cache.table slot').Holds m ↔ (s.cache.table slot').Holds m := by
  unfold Working.writtenBack
  split
  next =>
    rw [written_table]
    split
    next heq =>
      subst heq
      exact Iff.rfl
    next => exact Iff.rfl
  next => exact Iff.rfl

/-- Then its block has what is in the cache. -/
theorem Coherent.writtenBack (h : Coherent s) (slot : Slot) (l : List Place) :
    Grown l s (s.writtenBack slot) ∧ Unmoved s (s.writtenBack slot) ∧ SamePointers s (s.writtenBack slot) ∧
      (((s.writtenBack slot).cache.table slot).valid = true → ∀ x < s.volume.blockBytes,
        (s.writtenBack slot).volume.block ((s.writtenBack slot).cache.table slot).blockNumber x =
          ((s.writtenBack slot).cache.table slot).entries.bytes x) := by
  unfold Working.writtenBack
  split
  next hdirty =>
    obtain ⟨hcoherent, hpointers⟩ := h.written hdirty.1
    obtain ⟨p, hp, hslot, hnumber, hne⟩ := h.cached slot hdirty.1
    refine ⟨⟨hcoherent, hpointers.places, fun q hq => .inl (hpointers.pointers q hq),
      fun q hq hnone hne' x hx => ?_, fun _ _ => rfl⟩, fun slot' hvalid => ?_, hpointers,
      fun _ x hx => ?_⟩
    · refine withBlock_other s.volume (fun heq => ?_) _ hx
      obtain rfl := h.once p q hp hq (hnumber.trans heq) hne
      rw [hslot] at hnone
      cases hnone
    · rw [written_table]
      split
      next heq =>
        subst heq
        exact ⟨⟨hvalid, rfl⟩, rfl⟩
      next => exact ⟨⟨hvalid, rfl⟩, rfl⟩
    · rw [written_table, if_pos rfl]
      exact withBlock_block s.volume _ _ hx
  next hclean =>
    refine ⟨.refl h l, .refl s, .refl s, fun hvalid x hx => ?_⟩
    have hnot : (s.cache.table slot).dirty = false :=
      Bool.eq_false_iff.mpr fun hdirty => hclean ⟨hvalid, hdirty⟩
    exact (h.clean slot hvalid hnot x hx).symm

theorem loadLeaf_meets (h : Coherent s) (hj : j < s.entries) (hne : s.pointer .root ≠ 0)
    (hroot : (s.cache.table .root).Holds (s.pointer .root)) :
    (loadLeaf s.volume.blockBytes j s).Meets
      (fun _ t => Grown [.leaf j] s t ∧ Kept s t ∧ t.pointer (.leaf j) ≠ 0 ∧
        (t.cache.table .leaf).Holds (t.pointer (.leaf j)))
      fun t => Grown [.leaf j] s t ∧ Kept s t := by
  have hmax := h.usable.blockSized.le.2
  have hentry : (s.cache.doubleRoot.entry j : Effect Working Nat) s =
      .done (s.pointer (.leaf j)) s := h.entry_done .root hj hroot hne
  obtain ⟨hgrown, hunmoved, hsame, hdevice⟩ := h.writtenBack .leaf [.leaf j]
  have hflush := flushTable_writtenBack h .leaf (α := Unit)
  have hholds := writtenBack_holds s .leaf .leaf (s.pointer (.leaf j))
  have hbytes := hsame.places.blockBytes
  have hroot' : ((s.writtenBack .leaf).cache.table .root).Holds ((s.writtenBack .leaf).pointer .root) := by
    rw [hsame.pointers .root trivial, ← hroot.2]
    exact (hunmoved .root hroot.1).1
  have hleaf := hsame.pointers (.leaf j) hj
  have hj' : j < (s.writtenBack .leaf).entries := hsame.places.entries.symm ▸ hj
  have hne' : (s.writtenBack .leaf).pointer .root ≠ 0 := (hsame.pointers .root trivial).symm ▸ hne
  unfold loadLeaf
  rw [get_bind, bind_done hentry]
  generalize s.writtenBack .leaf = t at *
  by_cases hzero : s.pointer (.leaf j) = 0
  · rw [if_pos hzero]
    refine (hflush _).symm ▸ ?_
    refine meets_bind (meets_mono (allocateNew_meets hgrown.coherent) (fun _ _ hnew => hnew)
      fun u hu => ⟨hgrown.trans (hu.grown hgrown.coherent _), (hunmoved.trans hu.unmoved).kept⟩) ?_
    intro n u ⟨hreserved, hspare⟩
    have hcoherent := hreserved.coherent
    have hu := hreserved.same.places
    have htable : newTable s.volume.blockBytes n (t.cache.table .leaf) u =
        .done (u.cache.doubleLeaf.zeroed u.volume.blockBytes n) u := by
      rw [hu.blockBytes, hbytes, hreserved.cache]
      exact newTable_done (hgrown.coherent.arrays.table .leaf) hmax
    have hroot_u : (u.cache.table .root).Holds (u.pointer .root) := by
      rw [hreserved.same.pointers .root trivial, hreserved.cache]
      exact hroot'
    have hne_u : u.pointer .root ≠ 0 := (hreserved.same.pointers .root trivial).symm ▸ hne'
    have hhole : u.pointer (.leaf j) = 0 :=
      (hreserved.same.pointers (.leaf j) hj').trans (hleaf.trans hzero)
    have hroom : 4 * j + 4 ≤ s.volume.blockBytes := entry_room hj
    have hput : (u.cache.doubleRoot.entries.put32 (4 * j) n : Effect Working Buffer) u =
        .done ⟨u.cache.doubleRoot.entries.size, put32 u.cache.doubleRoot.entries.bytes (4 * j) n⟩ u := by
      refine put32_done ?_
      rw [hcoherent.arrays.doubleRoot]
      omega
    have hstill : u.cache.doubleLeaf.valid = true → ∀ x < u.volume.blockBytes,
        u.volume.block u.cache.doubleLeaf.blockNumber x = u.cache.doubleLeaf.entries.bytes x := by
      intro hvalid x hx
      rw [hreserved.cache] at hvalid ⊢
      obtain ⟨q, hq, -, hnumber, hq0⟩ := hgrown.coherent.cached .leaf hvalid
      have hdata : t.volume.Data t.cache.doubleLeaf.blockNumber :=
        hnumber ▸ (hgrown.coherent.data q hq hq0).1
      rw [hu.blockBytes] at hx
      rw [hreserved.blocks _ hdata x hx]
      exact hdevice hvalid x (hbytes ▸ hx)
    obtain ⟨hfinal, hnamed, hkept⟩ := hcoherent.newLeaf hspare hroot_u hne_u
      (hu.entries.symm ▸ hj') hhole hstill (u.inode.sectorCount + u.volume.blockBytes / 512)
    have hself := hnamed.pointers (.leaf j) (hu.entries.symm ▸ hj')
    rw [if_pos rfl] at hself
    rw [bind_done htable, get_bind, bind_done hput, ← hbytes, ← hu.blockBytes]
    exact ⟨hgrown.trans ((hreserved.grown hgrown.coherent _).trans (hnamed.grown hfinal
      (List.mem_singleton_self _) fun x hx => sectorCount_frame u.inode _ hx)),
      (hunmoved.trans hreserved.unmoved).trans_kept (hu.blockBytes.trans hbytes) hkept,
      fun heq => hspare.nonzero (hself.symm.trans heq), rfl, hself.symm⟩
  · rw [if_neg hzero]
    unfold when
    by_cases hheld : s.cache.doubleLeaf.Holds (s.pointer (.leaf j))
    · rw [if_neg (not_not.mpr hheld)]
      exact ⟨.refl h _, fun slot hvalid => .inl ⟨hvalid, rfl⟩, hzero, hheld⟩
    · have hmiss : ¬(t.cache.table .leaf).Holds (t.pointer (.leaf j)) := by
        rw [hleaf, hholds]
        exact hheld
      have hleaf0 : t.pointer (.leaf j) ≠ 0 := hleaf.symm ▸ hzero
      obtain ⟨hsteady, hkept, hin, -⟩ := hgrown.coherent.reread (p := .leaf j) hj' rfl hleaf0
        hmiss (fun hvalid x hx => hdevice hvalid x (hbytes ▸ hx)) fun _ => hroot'.1
      have hpointer := hsteady.same.pointers (.leaf j) hj'
      rw [← hpointer] at hin hleaf0
      rw [if_pos hheld]
      refine (hflush _).symm ▸ ?_
      rw [← hbytes, ← hleaf, onDevice_bind, hgrown.coherent.read_done .leaf (p := .leaf j) hj'
        (hleaf.symm ▸ hzero)]
      exact ⟨hgrown.trans (hsteady.grown _), hunmoved.trans_kept hbytes hkept, hleaf0, hin⟩

/-! ### The entry -/

theorem withEntry_held (s : Working) (slot : Slot) (i n sectors : Nat) :
    Held s (s.withEntry slot i n sectors) := by
  intro slot' hvalid
  exact (withEntry_holds s slot slot' i n sectors _).mpr ⟨hvalid, rfl⟩

/-- An entry of the table of block `k` is named, if it was a hole. -/
theorem entryOrNew_meets (h : Coherent s) (slot : Slot) (p : Place) (hi : i < s.entries) (hp : p.Valid s.entries)
    (hentry : s.pointer p = s.entryAt slot k i) (hheld : (s.cache.table slot).Holds k) (hk : k ≠ 0)
    (hnamed : ∀ t n, Coherent t → Reserved s t → Spare t n → s.pointer p = 0 → ∀ sectors,
      Named p n t (t.withEntry slot i n sectors)) :
    (entryOrNew s.volume.blockBytes i (fun s => s.cache.table slot)
      (fun table => modify fun s => { s with cache := s.cache.withTable slot table }) s).Meets
      (fun n t => (Grown [p] s t ∧ Held s t ∧ SameData s t) ∧ t.pointer p = n ∧ n ≠ 0)
      fun t => Grown [p] s t ∧ Held s t ∧ SameData s t := by
  have hdone := h.entry_done slot hi hheld hk
  rw [← hentry] at hdone
  unfold entryOrNew
  rw [get_bind, bind_done hdone]
  by_cases hzero : s.pointer p = 0
  · rw [if_neg (not_not.mpr hzero)]
    refine meets_bind (meets_mono (allocateNew_meets h) (fun _ _ hnew => hnew)
      fun t ht => ⟨ht.grown h _, fun slot hvalid => (ht.unmoved slot hvalid).1, ht.blocks⟩) ?_
    intro n t ⟨hreserved, hspare⟩
    have hcoherent := hreserved.coherent
    have hname := hnamed t n hcoherent hreserved hspare hzero
      (t.inode.sectorCount + t.volume.blockBytes / 512)
    have hself := hname.pointers p (hreserved.same.places.entries.symm ▸ hp)
    rw [if_pos rfl] at hself
    have hroom : 4 * i + 4 ≤ s.volume.blockBytes := entry_room hi
    have hmax := h.usable.blockSized.le.2
    have hput : ((s.cache.table slot).entries.put32 (4 * i) n : Effect Working Buffer) t =
        .done ⟨(s.cache.table slot).entries.size,
          put32 (s.cache.table slot).entries.bytes (4 * i) n⟩ t := by
      refine put32_done ?_
      rw [h.arrays.table]
      omega
    dsimp only
    rw [bind_done hput, ← hreserved.cache, ← hreserved.same.places.blockBytes]
    refine ⟨⟨(hreserved.grown h _).trans (hname.grown (hcoherent.withEntry hname hspare)
      (List.mem_singleton_self _) fun x hx => sectorCount_frame t.inode _ hx),
      fun slot' hvalid => ?_, hreserved.blocks⟩, hself, hspare.nonzero⟩
    rw [← hreserved.cache] at hvalid ⊢
    exact withEntry_held t slot i n _ slot' hvalid
  · rw [if_pos hzero]
    exact ⟨⟨.refl h _, fun slot hvalid => ⟨hvalid, rfl⟩, fun _ _ _ _ => rfl⟩, rfl, hzero⟩

/-! ### The path to a block -/

theorem Grown.append (h : Grown l s t) (h' : Grown l' t u) : Grown (l ++ l') s u :=
  (h.mono fun _ hq => List.mem_append_left l' hq).trans
    (h'.mono fun _ hq => List.mem_append_right l hq)

/-- The places on the way to block `i` of a file. -/
def path (entries i : Nat) : List Place :=
  if i < 12 then [.direct i]
  else if i - 12 < entries then [.single, .entry (i - 12)]
  else [.root, .leaf ((i - 12 - entries) / entries),
    .below ((i - 12 - entries) / entries) ((i - 12 - entries) % entries)]

/-- An allocation names blocks on the path only, and no table leaves the cache before it is on
the device. -/
theorem getOrAllocateDataBlock_meets (h : Coherent s) (hi : i < reach s.entries) :
    (getOrAllocateDataBlock i s).Meets
      (fun n t => (Grown (path s.entries i) s t ∧ Kept s t) ∧
        t.pointer (placeOf s.entries i) = n ∧ n ≠ 0)
      fun t => Grown (path s.entries i) s t ∧ Kept s t := by
  obtain ⟨hmin, hmax⟩ := h.usable.blockSized.le
  have hsectors : s.volume.blockBytes % 512 = 0 := h.usable.blockSized.sectors.2.2
  have hentries : s.volume.blockBytes / 4 = s.entries := rfl
  unfold getOrAllocateDataBlock
  rw [get_bind, bind_done (h.layout.blockSize s), require_bind ⟨by omega, hmax⟩,
    require_bind hsectors, require_bind (by omega)]
  unfold path placeOf
  by_cases hdirect : i < 12
  · rw [if_pos hdirect, if_pos hdirect, if_pos hdirect, bind_done (inodeBlock_done (by omega))]
    by_cases hzero : s.inode.block i = 0
    · rw [if_neg (not_not.mpr hzero)]
      refine meets_bind (meets_mono (allocateNew_meets h) (fun _ _ hnew => hnew)
        fun t ht => ⟨ht.grown h _, ht.unmoved.kept⟩) ?_
      intro n t ⟨hreserved, hspare⟩
      obtain ⟨hcoherent, hnamed⟩ := hreserved.coherent.direct hspare hdirect
        (hreserved.inode.symm ▸ hzero) ((t.inode.setBlock i n).sectorCount + s.volume.blockBytes / 512)
      have hself := hnamed.pointers (.direct i) hdirect
      rw [if_pos rfl] at hself
      exact ⟨⟨(hreserved.grown h _).trans (hnamed.grown hcoherent (List.mem_singleton_self _)
        fun x hx => withBlock_frame t.inode (by omega) _ _ hx), hreserved.unmoved.kept⟩, hself,
        hspare.nonzero⟩
    · rw [if_pos hzero]
      exact ⟨⟨.refl h _, (Unmoved.refl s).kept⟩, rfl, hzero⟩
  rw [if_neg hdirect, if_neg hdirect, if_neg hdirect, hentries]
  by_cases hsingle : i - 12 < s.entries
  · rw [if_pos hsingle, if_pos hsingle, if_pos hsingle]
    refine meets_bind (meets_mono (loadSingle_meets h) (fun _ _ hload => hload)
      fun t ht => ⟨ht.1.append (.refl ht.1.coherent [.entry (i - 12)]), ht.2⟩) ?_
    intro _ t ⟨hgrown, hkept, hne, hheld⟩
    have hp : (Place.entry (i - 12)).Valid t.entries := hgrown.places.entries.symm ▸ hsingle
    rw [← hgrown.places.blockBytes]
    refine meets_mono (entryOrNew_meets hgrown.coherent .single (.entry (i - 12)) hp hp rfl
      hheld hne ?_) ?_ ?_
    · intro u n hu hreserved hspare hzero sectors
      refine hu.newEntry hspare ?_ (hreserved.inode.symm ▸ hne)
        ((hreserved.same.pointers _ hp).trans hzero) sectors
      rw [hreserved.cache, hreserved.inode]
      exact hheld
    · exact fun n u hu => ⟨⟨hgrown.append hu.1.1, hkept.trans_held h hgrown.places hu.1.2.1 hu.1.2.2⟩,
        hu.2⟩
    · exact fun u hu => ⟨hgrown.append hu.1, hkept.trans_held h hgrown.places hu.2.1 hu.2.2⟩
  · unfold reach at hi
    have hlt : i - 12 - s.entries < s.entries * s.entries := by omega
    rw [if_neg hsingle, if_neg hsingle, if_neg hsingle, require_bind hlt]
    have hpos : s.entries ≠ 0 := by
      intro hzero
      rw [hzero] at hlt
      omega
    have hj : (i - 12 - s.entries) / s.entries < s.entries := Nat.div_lt_of_lt_mul hlt
    have hk : (i - 12 - s.entries) % s.entries < s.entries := Nat.mod_lt _ (Nat.pos_of_ne_zero hpos)
    rw [bind_done (divide_done hpos), bind_done (modulo_done hpos)]
    generalize (i - 12 - s.entries) / s.entries = j at *
    generalize (i - 12 - s.entries) % s.entries = k at *
    refine meets_bind (meets_mono (loadRoot_meets h) (fun _ _ hload => hload)
      fun t ht => ⟨ht.1.append (.refl ht.1.coherent [.leaf j, .below j k]), ht.2.kept⟩) ?_
    intro _ t ⟨hgrown, hunmoved, hne, hroot⟩
    have hentries_t := hgrown.places.entries
    rw [← hgrown.places.blockBytes]
    refine meets_bind (meets_mono (loadLeaf_meets hgrown.coherent (hentries_t.symm ▸ hj) hne hroot)
      (fun _ _ hload => hload) fun u hu => ⟨(hgrown.append hu.1).append (.refl hu.1.coherent [.below j k]),
        hunmoved.trans_kept hgrown.places.blockBytes hu.2⟩) ?_
    intro _ u ⟨hgrown', hkept, hne', hleaf⟩
    have hentries_u := hgrown'.places.entries.trans hentries_t
    have hall := hgrown.append hgrown'
    have hkept' := hunmoved.trans_kept hgrown.places.blockBytes hkept
    have hp : (Place.below j k).Valid u.entries := hentries_u.symm ▸ ⟨hj, hk⟩
    rw [← hgrown'.places.blockBytes]
    refine meets_mono (entryOrNew_meets hgrown'.coherent .leaf (.below j k) hp.2 hp rfl
      hleaf hne' ?_) ?_ ?_
    · intro w n hw hreserved hspare hzero sectors
      have hsame := hreserved.same.pointers (.leaf j) hp.1
      refine hw.newBelow hspare (hreserved.same.places.entries.symm ▸ hp.1) ?_ (hsame.symm ▸ hne')
        ((hreserved.same.pointers _ hp).trans hzero) sectors
      rw [hreserved.cache, hsame]
      exact hleaf
    · exact fun n w hw => ⟨⟨hall.append hw.1.1, hkept'.trans_held h hall.places hw.1.2.1 hw.1.2.2⟩,
        hw.2⟩
    · exact fun w hw => ⟨hall.append hw.1, hkept'.trans_held h hall.places hw.2.1 hw.2.2⟩

end MeatySkeleton.Ext2
