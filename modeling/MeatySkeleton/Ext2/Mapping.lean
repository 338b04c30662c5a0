import MeatySkeleton.Ext2.Pointers

/-!
# Lookups

On a coherent file `ext2_get_data_block` finds the pointer at the place of a block. It does not
write a leaf table back before it reads another one over it, and keeps the file coherent where
the leaf table in the cache stays or is on the device.
-/

namespace MeatySkeleton.Ext2

open Lib Lib.Effect

/-- A table of the cache that is not on the device. -/
def Working.Unwritten (s : Working) (slot : Slot) : Prop :=
  (s.cache.table slot).valid = true ∧ ∃ x < s.volume.blockBytes,
    (s.cache.table slot).entries.bytes x ≠ s.volume.block (s.cache.table slot).blockNumber x

/-- The lookup of block `i` reads a leaf table over one that is not on the device. -/
def Working.Displaces (s : Working) (i : Nat) : Prop :=
  i < reach s.entries ∧ ∃ j k, placeOf s.entries i = .below j k ∧ s.pointer (.leaf j) ≠ 0 ∧
    ¬(s.cache.table .leaf).Holds (s.pointer (.leaf j)) ∧ s.Unwritten .leaf

/-- A coherent file with the same pointers. -/
structure Steady (s t : Working) : Prop where
  coherent : Coherent t
  same : SamePointers s t
  file : SameFile s t

variable {s t u : Working} {slot : Slot} {p : Place} {i j k n x : Nat}

theorem Steady.refl (h : Coherent s) : Steady s s := ⟨h, .refl s, .refl s⟩

theorem Steady.trans (h : Steady s t) (h' : Steady t u) : Steady s u :=
  ⟨h'.coherent, h.same.trans h'.same, h.file.trans h'.file⟩

theorem Untouched.trans_kept (h : Untouched s t) (hbytes : t.volume.blockBytes = s.volume.blockBytes)
    (h' : Kept t u) : Kept s u := by
  intro slot hvalid
  have htable := h slot hvalid
  have hkept := h' slot (htable ▸ hvalid)
  rw [htable, hbytes] at hkept
  exact hkept

theorem Coherent.hasBlock (h : Coherent s) (hp : p.Valid s.entries) (hne : s.pointer p ≠ 0) :
    s.volume.HasBlock s.volume.blockBytes (s.pointer p) :=
  h.layout.hasBlock (h.data p hp hne).1.high

/-! ## Lookups -/

/-- A table is loaded, in the place of one that is on the device. -/
theorem Coherent.holding (h : Coherent s) (hp : p.Valid s.entries) (hslot : p.slot = some slot)
    (hne : s.pointer p ≠ 0)
    (hdevice : ¬(s.cache.table slot).Holds (s.pointer p) → (s.cache.table slot).valid = true →
      ∀ x < s.volume.blockBytes, s.volume.block (s.cache.table slot).blockNumber x =
        (s.cache.table slot).entries.bytes x)
    (hroot : slot = .leaf → s.cache.doubleRoot.valid = true) :
    Steady s (s.holding slot (s.pointer p)) ∧ Kept s (s.holding slot (s.pointer p)) := by
  have hsame := holding_same s slot (s.pointer p)
  have hheld := holding_held s slot (s.pointer p)
  have harrays := (h.usable.holding slot (s.pointer p)).arrays
  by_cases hold : (s.cache.table slot).Holds (s.pointer p)
  · have hstay : s.holding slot (s.pointer p) = s := if_pos hold
    rw [hstay]
    exact ⟨.refl h, fun slot hvalid => .inl ⟨hvalid, rfl⟩⟩
  · have hload : s.holding slot (s.pointer p) =
        { s with cache := s.cache.loaded slot (s.pointer p) (s.readInto slot (s.pointer p)) } :=
      if_neg hold
    have hread : ∀ x < s.volume.blockBytes,
        ((s.holding slot (s.pointer p)).cache.table slot).entries.bytes x =
          s.volume.block (s.pointer p) x := by
      intro x hx
      rw [hload, BlockCache.loaded_table]
      exact readInto_bytes hx
    have hkept : ∀ slot', slot' ≠ slot →
        (s.holding slot (s.pointer p)).cache.table slot' = s.cache.table slot' ∨
          (slot = .root ∧ slot' = .leaf ∧
            ((s.holding slot (s.pointer p)).cache.table slot').valid = false) := by
      intro slot' heq
      rw [hload]
      cases slot with
      | single =>
        cases slot' with
        | single => exact absurd rfl heq
        | _ => exact .inl rfl
      | root =>
        cases slot' with
        | single => exact .inl rfl
        | root => exact absurd rfl heq
        | leaf => exact .inr ⟨rfl, rfl, rfl⟩
      | leaf =>
        cases slot' with
        | leaf => exact absurd rfl heq
        | _ => exact .inl rfl
    obtain ⟨hcoherent, hpointers, hothers⟩ := h.loaded hsame.allocating hsame.inode harrays hp hslot
      hne hold hheld hread hkept (hdevice hold) hroot
    refine ⟨⟨hcoherent, hpointers, hsame⟩, fun slot' hvalid => ?_⟩
    by_cases heq : slot' = slot
    · subst heq
      rw [hsame.volume]
      exact .inr (hdevice hold hvalid)
    · rw [hothers slot' heq hvalid]
      exact .inl ⟨hvalid, rfl⟩

theorem Coherent.holding_single (h : Coherent s) (hne : s.inode.block 12 ≠ 0) :
    Steady s (s.holding .single (s.inode.block 12)) ∧
      Kept s (s.holding .single (s.inode.block 12)) :=
  h.holding (p := .single) trivial rfl hne (fun hmiss hvalid => absurd (h.single_held hvalid) hmiss)
    nofun

theorem Coherent.holding_root (h : Coherent s) (hne : s.inode.block 13 ≠ 0) :
    Steady s (s.holding .root (s.inode.block 13)) ∧
      Untouched s (s.holding .root (s.inode.block 13)) := by
  refine ⟨(h.holding (p := .root) trivial rfl hne
    (fun hmiss hvalid => absurd (h.root_held hvalid) hmiss) nofun).1, fun slot hvalid => ?_⟩
  unfold Working.holding
  split
  next => rfl
  next hmiss =>
    cases slot with
    | single => rfl
    | root => exact absurd (h.root_held hvalid) hmiss
    | leaf => exact absurd (h.root_held (h.rooted hvalid)) hmiss

/-- A leaf table is still in the cache only where the root table was. -/
theorem holding_root_leaf (hleaf : ((s.holding .root n).cache.table .leaf).valid = true) :
    s.holding .root n = s := by
  unfold Working.holding at *
  split at hleaf
  next hheld => exact if_pos hheld
  next => cases hleaf

theorem lookupSingle_coherent (h : Coherent s) (hi : i < s.entries) :
    ∃ t, lookupSingle s.volume.blockBytes i s = .done (s.pointer (.entry i)) t ∧ Steady s t ∧
      Kept s t := by
  unfold lookupSingle
  rw [bind_done (inodeBlock_done (by decide))]
  by_cases hzero : s.inode.block 12 = 0
  · have hhole : s.pointer (.entry i) = 0 := if_pos hzero
    rw [if_pos hzero, hhole]
    exact ⟨s, rfl, .refl h, fun slot hvalid => .inl ⟨hvalid, rfl⟩⟩
  · obtain ⟨hsteady, hkept⟩ := h.holding_single hzero
    have hhold : hold s.volume.blockBytes .single (s.inode.block 12) s =
        .done () (s.holding .single (s.inode.block 12)) :=
      hold_of_hasBlock .single h.usable (h.hasBlock (p := .single) trivial hzero)
    rw [if_neg hzero, bind_done hhold, entryOf_holding h.usable hzero (entry_room hi)]
    exact ⟨_, rfl, hsteady, hkept⟩

theorem lookupDouble_coherent (h : Coherent s) (hi : i < s.entries * s.entries) :
    ∃ t, lookupDouble s.volume.blockBytes i s =
        .done (s.pointer (.below (i / s.entries) (i % s.entries))) t ∧ SameFile s t ∧
      (s.pointer (.leaf (i / s.entries)) ≠ 0 →
        (t.cache.table .leaf).Holds (s.pointer (.leaf (i / s.entries)))) ∧
      ((s.pointer (.leaf (i / s.entries)) = 0 ∨
        (s.cache.table .leaf).Holds (s.pointer (.leaf (i / s.entries))) ∨ ¬s.Unwritten .leaf) →
          Steady s t ∧ Kept s t) := by
  have hj : i / s.entries < s.entries := Nat.div_lt_of_lt_mul hi
  have hk : i % s.entries < s.entries := Nat.mod_lt _ (Nat.zero_lt_of_lt hj)
  unfold lookupDouble
  rw [bind_done (inodeBlock_done (by decide))]
  by_cases hzero : s.inode.block 13 = 0
  · have hleaf : s.pointer (.leaf (i / s.entries)) = 0 := if_pos hzero
    have hhole : s.pointer (.below (i / s.entries) (i % s.entries)) = 0 := if_pos hleaf
    rw [if_pos hzero, hhole]
    exact ⟨s, rfl, .refl s, fun hne => absurd hleaf hne,
      fun _ => ⟨.refl h, fun slot hvalid => .inl ⟨hvalid, rfl⟩⟩⟩
  obtain ⟨hsteady, htouch⟩ := h.holding_root hzero
  have hvolume := hsteady.file.volume
  have hentry : entryOf .root (i / s.entries) (s.holding .root (s.inode.block 13)) =
      .done (s.pointer (.leaf (i / s.entries))) (s.holding .root (s.inode.block 13)) :=
    entryOf_holding h.usable hzero (entry_room hj)
  have hhold : hold s.volume.blockBytes .root (s.inode.block 13) s =
      .done () (s.holding .root (s.inode.block 13)) :=
    hold_of_hasBlock .root h.usable (h.hasBlock (p := .root) trivial hzero)
  have hbytes : s.volume.blockBytes / 4 = s.entries := rfl
  rw [if_neg hzero, bind_done hhold, hbytes, bind_done hentry]
  by_cases habsent : s.pointer (.leaf (i / s.entries)) = 0
  · have hhole : s.pointer (.below (i / s.entries) (i % s.entries)) = 0 := if_pos habsent
    rw [if_pos habsent, hhole]
    exact ⟨_, rfl, hsteady.file, fun hne => absurd habsent hne, fun _ => ⟨hsteady, htouch.kept⟩⟩
  have hvalid : (Place.leaf (i / s.entries)).Valid (s.holding .root (s.inode.block 13)).entries :=
    hsteady.same.places.entries.symm ▸ hj
  have hpointer := hsteady.same.pointers (.leaf (i / s.entries)) hj
  have hbelow := hsteady.same.pointers (.below (i / s.entries) (i % s.entries)) ⟨hj, hk⟩
  have hcoherent := hsteady.coherent
  generalize hs1 : s.holding .root (s.inode.block 13) = s1 at *
  have hne : s1.pointer (.leaf (i / s.entries)) ≠ 0 := fun heq => habsent (hpointer.symm.trans heq)
  have hhold' := hold_of_hasBlock .leaf hcoherent.usable (hcoherent.hasBlock hvalid hne)
  rw [hvolume, hpointer] at hhold'
  have hlast : entryOf .leaf (i % s.entries) (s1.holding .leaf (s.pointer (.leaf (i / s.entries)))) =
      .done (s.pointer (.below (i / s.entries) (i % s.entries)))
        (s1.holding .leaf (s.pointer (.leaf (i / s.entries)))) := by
    rw [entryOf_holding hcoherent.usable habsent (hvolume.symm ▸ entry_room hk), ← hbelow]
    show _ = Ending.done (s1.entryAt .leaf (s1.pointer (.leaf (i / s.entries))) _) _
    rw [hpointer]
  rw [if_neg habsent, bind_done hhold', hlast]
  refine ⟨_, rfl, hsteady.file.trans (holding_same _ _ _), fun _ => holding_held _ _ _,
    fun hkeep => ?_⟩
  -- a leaf table in the cache stayed with its root table
  have hdevice : ¬(s1.cache.table .leaf).Holds (s1.pointer (.leaf (i / s.entries))) →
      (s1.cache.table .leaf).valid = true → ∀ x < s1.volume.blockBytes,
        s1.volume.block (s1.cache.table .leaf).blockNumber x =
          (s1.cache.table .leaf).entries.bytes x := by
    intro hmiss hleaf x hx
    rw [← hs1] at hleaf
    obtain rfl := (holding_root_leaf hleaf).symm.trans hs1
    have hwritten : ¬s.Unwritten .leaf := (hkeep.resolve_left habsent).resolve_left hmiss
    by_contra hdiffer
    exact hwritten ⟨(holding_root_leaf hleaf) ▸ hleaf, x, hx, Ne.symm hdiffer⟩
  have hrooted : Slot.leaf = .leaf → s1.cache.doubleRoot.valid = true := by
    intro
    rw [← hs1]
    exact (holding_held s .root (s.inode.block 13)).1
  obtain ⟨hlast, hkept⟩ := hcoherent.holding hvalid rfl hne hdevice hrooted
  rw [hpointer] at hlast hkept
  exact ⟨hsteady.trans hlast, htouch.trans_kept hsteady.same.places.blockBytes hkept⟩

/-- A leaf table that is not on the device is lost. -/
theorem Working.Unwritten.lost (h : s.Unwritten .leaf) (hfile : SameFile s t)
    (hmiss : ¬(s.cache.table .leaf).Holds n) (hheld : (t.cache.table .leaf).Holds n) :
    ¬Kept s t := by
  intro hkept
  obtain ⟨hvalid, x, hx, hdiffer⟩ := h
  rcases hkept .leaf hvalid with hstay | hdevice
  · exact hmiss ⟨hvalid, hstay.2.symm.trans hheld.2⟩
  · have hblock := hdevice x hx
    rw [hfile.volume] at hblock
    exact hdiffer hblock.symm

/-- A lookup finds the pointer. The file stays coherent, unless entries of a leaf table are
lost. -/
theorem getDataBlock_coherent (h : Coherent s) (hi : i < reach s.entries) :
    ∃ t, getDataBlock i s = .done (s.pointer (placeOf s.entries i)) t ∧ SameFile s t ∧
      (¬s.Displaces i → Steady s t ∧ Kept s t) ∧ (s.Displaces i → ¬Kept s t) := by
  have hbytes : s.volume.blockBytes / 4 = s.entries := rfl
  rw [getDataBlock_at h.usable, hbytes]
  unfold Working.Displaces
  rw [and_iff_right hi]
  unfold placeOf reach at *
  by_cases hdirect : i < 12
  · rw [if_pos hdirect, if_pos hdirect, inodeBlock_done (by omega)]
    refine ⟨s, rfl, .refl s, fun _ => ⟨.refl h, fun slot hvalid => .inl ⟨hvalid, rfl⟩⟩, ?_⟩
    intro ⟨j, k, hplace, _⟩
    cases hplace
  rw [if_neg hdirect, if_neg hdirect]
  by_cases hsingle : i - 12 < s.entries
  · rw [if_pos hsingle, if_pos hsingle]
    obtain ⟨t, hdone, hsteady, hkept⟩ := lookupSingle_coherent h hsingle
    refine ⟨t, hdone, hsteady.file, fun _ => ⟨hsteady, hkept⟩, ?_⟩
    intro ⟨j, k, hplace, _⟩
    cases hplace
  · rw [if_neg hsingle, if_neg hsingle, if_pos (by omega)]
    obtain ⟨t, hdone, hfile, hheld, hkeep⟩ :=
      lookupDouble_coherent h (by omega : i - 12 - s.entries < _)
    refine ⟨t, hdone, hfile, fun hstay => hkeep ?_, ?_⟩
    · by_contra hlost
      rw [not_or, not_or, not_not] at hlost
      exact hstay ⟨_, _, rfl, hlost⟩
    · intro ⟨j, k, hplace, hne, hmiss, hlost⟩
      cases hplace
      exact hlost.lost hfile hmiss (hheld hne)

end MeatySkeleton.Ext2
