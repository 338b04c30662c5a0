import Mathlib.Data.List.GetD
import MeatySkeleton.Lib.Tiling
import MeatySkeleton.Ext2.Truncating

/-!
# The records of a directory

A well-formed directory block is tiled by its records. `ext2_link_new_child` puts the new
record in the place of a dead one or into the slack of a live one, and in both cases the
block is tiled again, with one live entry more.
-/

namespace MeatySkeleton.Ext2

open Function List Lib Lib.Effect

/-! ## Records -/

/-- Its length is a multiple of four, and the name has room. -/
structure Entry.Fits (e : Entry) : Prop where
  aligned : e.length % 4 = 0
  room : 8 + e.name.length ≤ e.length

/-- From `offset` on a block is tiled by the records of `l`. -/
structure Recorded (block : Mem) (blockSize offset : Nat) (l : List Entry) : Prop where
  tiles : Tiles (entryAt block) Entry.length blockSize offset l
  fits : ∀ e ∈ l, e.Fits

/-- The entries in use, by name and inode. -/
def live (l : List Entry) : List (Name × Nat) :=
  (l.filter fun e => e.inode ≠ 0).map fun e => (e.name, e.inode)

/-- `l'` has one live entry more than `l`. -/
def Added (name : Name) (inodeNumber : Nat) (l l' : List (Name × Nat)) : Prop :=
  ∃ l₁ l₂, l = l₁ ++ l₂ ∧ l' = l₁ ++ (name, inodeNumber) :: l₂

variable {block block' : Mem} {blockSize offset : Nat} {e : Entry} {l l' : List Entry}

theorem Recorded.congr (h : Recorded block blockSize offset l)
    (hbytes : ∀ x, offset ≤ x → x < blockSize → block' x = block x) :
    Recorded block' blockSize offset l where
  tiles := h.tiles.congr h.fits fun p hp hle hfits =>
    entryAt_congr hfits.room fun x hx hx' => hbytes x (by omega) (by omega)
  fits := h.fits

theorem Recorded.cons (he : entryAt block offset = e) (hle : offset + e.length ≤ blockSize)
    (hfits : e.Fits) (h : Recorded block blockSize (offset + e.length) l) :
    Recorded block blockSize offset (e :: l) where
  tiles := .cons_of_eq he hle h.tiles
  fits k hk := by
    rcases mem_cons.mp hk with rfl | hrest
    · exact hfits
    · exact h.fits k hrest

/-- The record at the start. -/
theorem Recorded.exists_cons (h : Recorded block blockSize offset l) (hlt : offset < blockSize) :
    ∃ l', l = entryAt block offset :: l' ∧ (entryAt block offset).Fits ∧
      offset + (entryAt block offset).length ≤ blockSize ∧
      Recorded block blockSize (offset + (entryAt block offset).length) l' := by
  obtain ⟨l', rfl, hle, hrest⟩ := h.tiles.exists_cons hlt
  exact ⟨l', rfl, h.fits _ mem_cons_self, hle, hrest,
    fun e he => h.fits e (mem_cons_of_mem _ he)⟩

theorem live_cons (e : Entry) (l : List Entry) :
    live (e :: l) = if e.inode = 0 then live l else (e.name, e.inode) :: live l := by
  unfold live
  rw [filter_cons]
  by_cases hzero : e.inode = 0
  · rw [if_pos hzero, if_neg (by rw [hzero]; decide)]
  · rw [if_neg hzero, if_pos (decide_eq_true hzero), map_cons]

/-- What `putRecord` leaves in a block. -/
def recorded (block : Mem) (offset : Nat) (r : Record) (name : Name) : Mem :=
  copyFrom (put8 (put8 (put16 (put32 block offset r.inode) (offset + 4) r.recordLength) (offset + 6)
    (UInt8.ofNat r.nameLength)) (offset + 7) (UInt8.ofNat r.fileType)) (offset + 8)
    (fun i => name.getD i 0) 0 name.length

section
variable {b : Buffer} {r : Record} {name : Name} {v w : Volume}

theorem putRecord_done (h : offset + 8 + name.length ≤ b.size) :
    putRecord b offset r name v = .done ⟨b.size, recorded b.bytes offset r name⟩ v := by
  unfold putRecord
  rw [bind_done (put32_done (by omega)), bind_done (put16_done (by show _ ≤ b.size; omega)),
    bind_done (put8_done (by show _ < b.size; omega)),
    bind_done (put8_done (by show _ < b.size; omega))]
  exact store_done h

theorem recorded_within (block : Mem) (offset : Nat) (r : Record) (name : Name) :
    Within block (recorded block offset r name) offset (offset + 8 + name.length) := by
  intro x hx
  unfold recorded
  rw [copyFrom_within _ _ _ _ _ x (by omega), put8_within _ _ _ x (by omega),
    put8_within _ _ _ x (by omega), put16_within _ _ _ x (by omega), put32_within _ _ _ x (by omega)]

theorem getD_range (name : Name) : (List.range name.length).map (fun i => name.getD i 0) = name := by
  refine ext_getElem (by rw [length_map, length_range]) fun i hi hi' => ?_
  rw [getElem_map, getElem_range]
  exact getD_eq_getElem _ _ hi'

/-- The record that was written is read back. -/
theorem entryAt_recorded (hinode : r.inode < 2 ^ 32) (hlength : r.recordLength < 2 ^ 16)
    (hname : r.nameLength = name.length) (hname' : name.length < 256) (htype : r.fileType < 256) :
    entryAt (recorded block offset r name) offset = ⟨r.inode, r.recordLength, r.fileType, name⟩ := by
  have hsize : (recorded block offset r name (offset + 6)).toNat = name.length := by
    unfold recorded
    rw [copyFrom_within _ _ _ _ _ _ (by omega), put8_within _ _ _ _ (by omega), put8_self,
      UInt8.toNat_ofNat', hname]
    exact Nat.mod_eq_of_lt hname'
  unfold entryAt
  rw [hsize]
  congr 1
  · unfold recorded
    rw [(copyFrom_within _ _ _ _ _).get32 (by omega), (put8_within _ _ _).get32 (by omega),
      (put8_within _ _ _).get32 (by omega), (put16_within _ _ _).get32 (by omega), get32_put32]
    exact Nat.mod_eq_of_lt hinode
  · unfold recorded
    rw [(copyFrom_within _ _ _ _ _).get16 (by omega), (put8_within _ _ _).get16 (by omega),
      (put8_within _ _ _).get16 (by omega), get16_put16]
    exact Nat.mod_eq_of_lt hlength
  · unfold recorded
    rw [copyFrom_within _ _ _ _ _ _ (by omega), put8_self, UInt8.toNat_ofNat']
    exact Nat.mod_eq_of_lt htype
  · refine (map_congr_left fun i hi => ?_).trans (getD_range name)
    have hlt := mem_range.mp hi
    show (if _ then _ else _) = _
    rw [if_pos (by omega), Nat.zero_add]
    congr 1
    omega

/-! ## The scan of a block -/

theorem Entry.Fits.passes (hfits : (entryAt block offset).Fits)
    (hle : offset + (entryAt block offset).length ≤ blockSize) : Passes block blockSize offset :=
  ⟨Nat.le_trans (Nat.le_add_right _ _) hfits.room, hle, hfits.room⟩

theorem readRecord_done (hpasses : Passes b.bytes blockSize offset) (hb : blockSize ≤ b.size) :
    readRecord blockSize offset b v = .done (recordAt b.bytes offset) v := by
  obtain ⟨hheader, hle, hroom⟩ := hpasses
  have hname := entryAt_name_length b.bytes offset
  have hlength : (entryAt b.bytes offset).length = get16 b.bytes (offset + 4) := rfl
  unfold readRecord
  rw [bind_done (get16_done (by omega)), require_bind (by omega), require_bind (by omega),
    bind_done (get8_done (by omega)), ← hname, require_bind (by omega),
    bind_done (get32_done (by omega)), bind_done (get8_done (by omega))]
  rfl

theorem directoryEntrySize_fits {n : Nat} (h : n ≤ 255) :
    directoryEntrySize n % 4 = 0 ∧ 8 + n ≤ directoryEntrySize n ∧ directoryEntrySize n < 2 ^ 16 := by
  have hsmall : (8 + n) % 2 ^ 16 = 8 + n := Nat.mod_eq_of_lt (by omega)
  unfold directoryEntrySize u16
  rw [hsmall]
  omega

/-- A block with a new record is a block of records again, with one live entry more. -/
structure Inserted (name : Name) (inodeNumber blockSize offset : Nat) (l : List Entry)
    (block block' : Mem) : Prop where
  within : Within block block' offset blockSize
  recorded : ∃ l', Recorded block' blockSize offset l' ∧ Added name inodeNumber (live l) (live l')

variable {inodeNumber fileType : Nat}

/-- A dead record is used again. -/
theorem inserted_dead (hl : Recorded block blockSize offset (e :: l))
    (he : entryAt block offset = e) (hdead : e.inode = 0)
    (hneeded : directoryEntrySize name.length ≤ e.length) (hname : name.length ≤ 255)
    (hinode : inodeNumber ≠ 0 ∧ inodeNumber < 2 ^ 32) (htype : fileType < 256)
    (hrest : Recorded block blockSize (offset + e.length) l)
    (hle : offset + e.length ≤ blockSize) :
    Inserted name inodeNumber blockSize offset (e :: l) block
      (recorded block offset ⟨inodeNumber, e.length, name.length, fileType⟩ name) := by
  obtain ⟨-, hsize, -⟩ := directoryEntrySize_fits hname
  have hwithin := recorded_within block offset ⟨inodeNumber, e.length, name.length, fileType⟩ name
  have hlength : e.length < 2 ^ 16 := he ▸ get16_lt _ _
  refine ⟨hwithin.mono (Nat.le_refl _) (by omega), ⟨inodeNumber, e.length, fileType, name⟩ :: l,
    .cons (entryAt_recorded hinode.2 hlength rfl (by omega) htype) hle
      ⟨(hl.fits e mem_cons_self).aligned, Nat.le_trans hsize hneeded⟩
      (hrest.congr fun x hx _ => hwithin x (.inr (by omega))), [], live l, ?_, ?_⟩
  · rw [live_cons, if_pos hdead]
    rfl
  · rw [live_cons, if_neg hinode.1]
    rfl

theorem entryAt_put16 (block : Mem) (offset : Nat) {k : Nat} (hk : k < 2 ^ 16) :
    entryAt (put16 block (offset + 4) k) offset = { entryAt block offset with length := k } := by
  have hsize : put16 block (offset + 4) k (offset + 6) = block (offset + 6) :=
    put16_within _ _ _ _ (by omega)
  unfold entryAt
  rw [hsize]
  congr 1
  · exact (put16_within _ _ _).get32 (by omega)
  · show get16 (put16 block (offset + 4) k) (offset + 4) = k
    rw [get16_put16]
    exact Nat.mod_eq_of_lt hk
  · show (put16 block (offset + 4) k (offset + 7)).toNat = _
    rw [put16_within _ _ _ _ (by omega)]
  · exact map_congr_left fun i _ => put16_within _ _ _ _ (by omega)

/-- A live record is cut to its own size, and the new one follows it. -/
theorem inserted_slack (hl : Recorded block blockSize offset (e :: l))
    (he : entryAt block offset = e) (hlive : e.inode ≠ 0)
    (hneeded : directoryEntrySize e.name.length + directoryEntrySize name.length ≤ e.length)
    (hname : name.length ≤ 255) (hinode : inodeNumber ≠ 0 ∧ inodeNumber < 2 ^ 32)
    (htype : fileType < 256) (hrest : Recorded block blockSize (offset + e.length) l)
    (hle : offset + e.length ≤ blockSize) :
    Inserted name inodeNumber blockSize offset (e :: l) block
      (recorded (put16 block (offset + 4) (directoryEntrySize e.name.length))
        (offset + directoryEntrySize e.name.length)
        ⟨inodeNumber, e.length - directoryEntrySize e.name.length, name.length, fileType⟩ name) := by
  have hlength : e.length < 2 ^ 16 := he ▸ get16_lt _ _
  have hold : e.name.length ≤ 255 := by
    have hbyte := UInt8.toNat_lt (block (offset + 6))
    rw [← he, entryAt_name_length]
    omega
  obtain ⟨haligned, hroom, hsmall⟩ := directoryEntrySize_fits hold
  obtain ⟨haligned', hroom', -⟩ := directoryEntrySize_fits hname
  have hfits := hl.fits e mem_cons_self
  generalize directoryEntrySize e.name.length = actual at *
  have hcut := put16_within block (offset + 4) actual
  have hput := recorded_within (put16 block (offset + 4) actual) (offset + actual)
    ⟨inodeNumber, e.length - actual, name.length, fileType⟩ name
  refine ⟨(hcut.mono (by omega) (by omega)).trans (hput.mono (by omega) (by omega)),
    { e with length := actual } :: ⟨inodeNumber, e.length - actual, fileType, name⟩ :: l, ?_,
    [(e.name, e.inode)], live l, ?_, ?_⟩
  · have hkept : entryAt (put16 block (offset + 4) actual) offset = { e with length := actual } := by
      rw [entryAt_put16 _ _ hsmall, he]
    refine .cons ?_ (by show offset + actual ≤ _; omega) ⟨haligned, hroom⟩
      (.cons (entryAt_recorded hinode.2 (by show e.length - actual < _; omega) rfl (by omega) htype)
        (by show offset + actual + (e.length - actual) ≤ _; omega)
        ⟨by have := hfits.aligned; show (e.length - actual) % 4 = 0; omega,
          by show 8 + name.length ≤ e.length - actual; omega⟩ ?_)
    · rw [← hkept]
      refine entryAt_congr (k := actual) ?_ fun x _ hx => hput x (.inl hx)
      rw [hkept]
      exact hroom
    · have hend : offset + actual + (e.length - actual) = offset + e.length := by omega
      show Recorded _ blockSize (offset + actual + (e.length - actual)) l
      rw [hend]
      exact hrest.congr fun x hx _ =>
        (hput x (.inr (by omega))).trans (hcut x (.inr (by omega)))
  · rw [live_cons, if_neg hlive]
    rfl
  · rw [live_cons, live_cons, if_neg hlive, if_neg hinode.1]
    rfl

theorem Added.cons {kept : Name × Nat} {l l' : List (Name × Nat)}
    (h : Added name inodeNumber l l') : Added name inodeNumber (kept :: l) (kept :: l') := by
  obtain ⟨l1, l2, rfl, rfl⟩ := h
  exact ⟨kept :: l1, l2, rfl, rfl⟩

/-- A record before the new one. -/
theorem Inserted.cons (he : entryAt block offset = e) (hfits : e.Fits)
    (hle : offset + e.length ≤ blockSize)
    (h : Inserted name inodeNumber blockSize (offset + e.length) l block block') :
    Inserted name inodeNumber blockSize offset (e :: l) block block' := by
  obtain ⟨l', hl', hadded⟩ := h.recorded
  refine ⟨h.within.mono (Nat.le_add_right _ _) (Nat.le_refl _), e :: l', .cons ?_ hle hfits hl', ?_⟩
  · subst he
    exact entryAt_congr (k := (entryAt block offset).length) hfits.room
      fun x _ hx => h.within x (.inl hx)
  · rw [live_cons, live_cons]
    split
    next => exact hadded
    next => exact hadded.cons

/-- The scan of a block of records. -/
theorem insertIntoBlock_inserted (hb : blockSize ≤ b.size) (hname : name.length ≤ 255)
    (hinode : inodeNumber ≠ 0 ∧ inodeNumber < 2 ^ 32) (htype : fileType < 256) {fuel : Nat}
    {r : Option Buffer} (hl : Recorded b.bytes blockSize offset l)
    (hdone : insertIntoBlock blockSize name inodeNumber fileType b fuel offset v = .done r w) :
    w = v ∧ ∀ b', r = some b' → b'.size = b.size ∧
      Inserted name inodeNumber blockSize offset l b.bytes b'.bytes := by
  induction fuel generalizing offset l with
  | zero => cases hdone
  | succ fuel ih =>
    unfold insertIntoBlock at hdone
    split at hdone
    next => cases hdone; exact ⟨rfl, fun b' h => nomatch h⟩
    next hlt =>
      obtain ⟨l, rfl, hfits, hle, hrest⟩ := hl.exists_cons (Nat.lt_of_not_le hlt)
      have hroom := hfits.room
      have hpasses := hfits.passes hle
      rw [bind_done (readRecord_done hpasses hb), bind_done (matchesName_done hb hpasses),
        require_eq_done] at hdone
      obtain ⟨-, hdone⟩ := hdone
      unfold recordAt at hdone
      have hneeded := (directoryEntrySize_fits hname).2.1
      split at hdone
      next hdead =>
        rw [bind_done (putRecord_done (by have := hdead.2; simp only at this; omega))] at hdone
        cases hdone
        refine ⟨rfl, fun b' h => ?_⟩
        cases h
        exact ⟨rfl, inserted_dead hl rfl hdead.1 hdead.2 hname hinode htype hrest hle⟩
      next =>
        simp only at hdone
        split at hdone
        next hlive =>
          obtain ⟨hne, hslack⟩ := hlive
          rw [bind_done (put16_done (by omega)),
            bind_done (putRecord_done (by show _ ≤ b.size; omega))] at hdone
          cases hdone
          refine ⟨rfl, fun b' h => ?_⟩
          cases h
          exact ⟨rfl, inserted_slack hl rfl hne hslack hname hinode htype hrest hle⟩
        next =>
          obtain ⟨rfl, hfirst⟩ := ih hrest hdone
          refine ⟨rfl, fun b' h => ?_⟩
          obtain ⟨hsize, hinserted⟩ := hfirst b' h
          exact ⟨hsize, hinserted.cons rfl hfits hle⟩

/-- The scan of the direct blocks: the block with room for the record, and what it becomes. -/
theorem insertFrom_inserted {directory : Inode} {left i n : Nat} {b' : Buffer} (h : Layout v)
    (hb : b.size = 4096) (hname : name.length ≤ 255)
    (hinode : inodeNumber ≠ 0 ∧ inodeNumber < 2 ^ 32) (htype : fileType < 256)
    (hblocks : ∀ k ∈ nonzero directory.block left i, k < v.superblock.blockCount ∧
      ∃ l, Recorded (v.block k) v.blockBytes 0 l)
    (hdone : insertFrom v.blockBytes directory name inodeNumber fileType left i b v =
      .done (n, b') w) :
    w = v ∧ n ∈ nonzero directory.block left i ∧ b'.size = 4096 ∧
      ∀ l, Recorded (v.block n) v.blockBytes 0 l →
        ∃ l', Recorded b'.bytes v.blockBytes 0 l' ∧ Added name inodeNumber (live l) (live l') := by
  induction left generalizing i b with
  | zero => cases hdone
  | succ left ih =>
    unfold insertFrom at hdone
    unfold nonzero at hblocks ⊢
    rw [demand_eq_done] at hdone
    obtain ⟨-, hdone⟩ := hdone
    by_cases hzero : directory.block i = 0
    · rw [if_pos hzero] at hdone hblocks ⊢
      exact ih hb hblocks hdone
    · rw [if_neg hzero] at hdone hblocks ⊢
      have hmax := h.sized.le.2
      obtain ⟨hin, l, hl⟩ := hblocks _ mem_cons_self
      have hread := readBlock_done (b := b) h.sized (h.hasBlock hin) (by omega)
      have hcopied : ∀ l, Recorded (v.block (directory.block i)) v.blockBytes 0 l →
          Recorded (copyFrom b.bytes 0 v.image (directory.block i * v.blockBytes) v.blockBytes)
            v.blockBytes 0 l :=
        fun l hl => hl.congr fun x _ hx => copyFrom_low hx
      rw [bind_done hread, bind_eq_done] at hdone
      obtain ⟨r, u, hscan, hdone⟩ := hdone
      have hinserted := fun l hl => insertIntoBlock_inserted (by show _ ≤ b.size; omega) hname
        hinode htype (hcopied l hl) hscan
      obtain ⟨rfl, -⟩ := hinserted l hl
      cases r with
      | none =>
        change insertFrom _ _ _ _ _ _ _ ⟨b.size, _⟩ _ = _ at hdone
        obtain ⟨hw, hmem, hsize, hadded⟩ :=
          ih (by exact hb) (fun k hk => hblocks k (mem_cons_of_mem _ hk)) hdone
        exact ⟨hw, mem_cons_of_mem _ hmem, hsize, hadded⟩
      | some b1 =>
        cases hdone
        refine ⟨rfl, mem_cons_self, ?_, fun l hl => ?_⟩
        · exact ((hinserted l hl).2 _ rfl).1.trans hb
        · exact ((hinserted l hl).2 _ rfl).2.recorded

end

/-! ## Publishing a child -/

variable {v w u : Volume} {n number : Nat}

/-- At most the link counts of inodes have changed. -/
structure Relinked (v w : Volume) (number : Nat) : Prop where
  maps : SameMaps v w
  data : ∀ k, v.Data k → ∀ x < v.blockBytes, w.block k x = v.block k x
  pointers : ∀ i < 15, (w.inodeRecord number).block i = (v.inodeRecord number).block i

theorem Relinked.trans (h : Relinked v w number) (h' : Relinked w u number) :
    Relinked v u number where
  maps := h.maps.trans h'.maps
  data k hk x hx := (h'.data k (h.maps.places.data hk) x (h.maps.places.blockBytes.symm ▸ hx)).trans
    (h.data k hk x hx)
  pointers i hi := (h'.pointers i hi).trans (h.pointers i hi)

theorem record_block {inode inode' : Inode} {i : Nat} (hi : i < 15)
    (h : ∀ x < Inode.bytes, inode' x = inode x) : inode'.block i = inode.block i :=
  get32_congr fun k hk => h _ (by unfold Inode.bytes; omega)

/-- An inode is written back with another link count. -/
theorem Layout.relinked (h : Layout v) (hpos : 0 < n) (hn : n ≤ v.superblock.inodeCount)
    (hnumber : 0 < number) (hnumber' : number ≤ v.superblock.inodeCount) {inode : Inode}
    (hinode : ∀ i < 15, inode.block i = (v.inodeRecord n).block i) :
    Relinked v (v.withInode n inode) number where
  maps := h.withInode_maps hpos hn inode
  data k hk x hx := h.withInode_data hpos hn inode hk hx
  pointers i hi := by
    by_cases hsame : n = number
    · subst hsame
      rw [← hinode i hi]
      exact record_block hi fun x hx => h.withInode_record hpos hn inode hx
    · exact record_block hi fun x hx =>
        h.withInode_other hpos hn hnumber hnumber' hsame inode hx

theorem setLinkCount_block (inode : Inode) (k i : Nat) :
    (inode.setLinkCount k).block i = inode.block i :=
  (put16_within _ _ _).get32 (by omega)

theorem attempt_done {σ α : Type} {m : Effect σ α} {s t : σ} {a : α} (h : m s = .done a t) :
    attempt m s = .done (some a) t := by
  unfold attempt
  rw [h]

/-- When a child was published, the block is written, and link counts. -/
theorem publishChild_done {l : Linking} {b : Buffer} (h : Layout v) (hn : v.Data n)
    (hb : b.size = 4096) (hchild : 0 < l.childNumber)
    (hchild' : l.childNumber ≤ v.superblock.inodeCount) (hnumber : 0 < l.directoryNumber)
    (hnumber' : l.directoryNumber ≤ v.superblock.inodeCount)
    (hinode : ∀ i < 15, l.child.block i = (v.inodeRecord l.childNumber).block i)
    (hdirectory : ∀ i < 15, l.directory.block i = (v.inodeRecord l.directoryNumber).block i)
    (hdone : publishChild l v.blockBytes n b v = .done () w) :
    ∃ u, Relinked v u l.directoryNumber ∧ w = u.withBlock n b.bytes := by
  have hfirst : Relinked v (v.withInode l.childNumber (l.child.setLinkCount l.childLinkCount))
      l.directoryNumber :=
    h.relinked hchild hchild' hnumber hnumber' fun i hi =>
      (setLinkCount_block _ _ i).trans (hinode i hi)
  unfold publishChild at hdone
  rw [bind_done (h.writeInode hchild hchild' _), bind_eq_done] at hdone
  obtain ⟨_, u, hparent, hdone⟩ := hdone
  have hrelinked : Relinked v u l.directoryNumber := by
    rcases when_eq_done hparent with ⟨-, rfl⟩ | ⟨-, hparent⟩
    · exact hfirst
    · obtain ⟨_, u', hguard, hparent⟩ := bind_eq_done.mp hparent
      rcases when_eq_done hguard with ⟨-, rfl⟩ | ⟨-, hfull⟩
      · have hlayout := hfirst.maps.places.layout h
        have hcount := hfirst.maps.places.inodeCount
        have hwrite := hlayout.writeInode hnumber (hcount.symm ▸ hnumber')
          (l.directory.setLinkCount (l.directory.linkCount + 1))
        rw [bind_done (attempt_done hwrite)] at hparent
        rcases when_eq_done hparent with ⟨-, rfl⟩ | ⟨hnone, -⟩
        · refine hfirst.trans (hlayout.relinked hnumber (hcount.symm ▸ hnumber') hnumber
            (hcount.symm ▸ hnumber') fun i hi => ?_)
          rw [setLinkCount_block, hfirst.pointers i hi]
          exact hdirectory i hi
        · cases hnone
      · obtain ⟨_, _, -, hfail⟩ := bind_eq_done.mp hfull
        cases hfail
  have hlayout := hrelinked.maps.places.layout h
  have hbytes := hrelinked.maps.places.blockBytes
  have hmax := hlayout.sized.le.2
  have hlast := hlayout.writeBlock (b := b) (hrelinked.maps.places.data hn).high (by omega)
  rw [← hbytes, bind_done (attempt_done hlast)] at hdone
  rcases when_eq_done hdone with ⟨-, rfl⟩ | ⟨hnone, -⟩
  · exact ⟨u, hrelinked, rfl⟩
  · cases hnone

/-! ## Directories -/

/-- The data blocks of a file, without its pointer tables. -/
def Volume.dataBlocks (v : Volume) (inode : Inode) : List Nat :=
  nonzero inode.block 12 0 ++ (if inode.block 12 = 0 then [] else v.pointers (inode.block 12)) ++
    if inode.block 13 = 0 then [] else (v.pointers (inode.block 13)).flatMap v.pointers

/-- A well-formed directory: its blocks are blocks for files, each named once, and each of
its data blocks is tiled by records. -/
structure WellFormed (v : Volume) (number : Nat) (records : Nat → List Entry) : Prop where
  numbered : 0 < number ∧ number ≤ v.superblock.inodeCount
  once : (v.fileBlocks (v.inodeRecord number)).Nodup
  data : ∀ n ∈ v.fileBlocks (v.inodeRecord number), v.Data n
  recorded : ∀ n ∈ v.dataBlocks (v.inodeRecord number),
    Recorded (v.block n) v.blockBytes 0 (records n)

/-- The live entries of a directory, in the order of its blocks. -/
def listing (v : Volume) (number : Nat) (records : Nat → List Entry) : List (Name × Nat) :=
  live ((v.dataBlocks (v.inodeRecord number)).flatMap records)

variable {inode inode' : Inode} {records : Nat → List Entry} {name : Name} {inodeNumber : Nat}

theorem live_append (l l' : List Entry) : live (l ++ l') = live l ++ live l' := by
  unfold live
  rw [filter_append, map_append]

/-- An entry added to the records of one block of a list. -/
theorem added_flatMap {blocks : List Nat} {l' : List Entry} (hnodup : blocks.Nodup)
    (hn : n ∈ blocks) (hadded : Added name inodeNumber (live (records n)) (live l')) :
    Added name inodeNumber (live (blocks.flatMap records))
      (live (blocks.flatMap (update records n l'))) := by
  obtain ⟨before, behind, rfl⟩ := append_of_mem hn
  obtain ⟨hbefore, hbehind, happart⟩ := nodup_append.mp hnodup
  have hkept : ∀ blocks : List Nat, n ∉ blocks →
      blocks.flatMap (update records n l') = blocks.flatMap records :=
    fun blocks hout => flatMap_congr fun k hk => by
      have hne : k ≠ n := fun heq => hout (heq ▸ hk)
      rw [update_of_ne hne]
  have hout : n ∉ before := fun hmem => happart n hmem n mem_cons_self rfl
  obtain ⟨l1, l2, hold, hnew⟩ := hadded
  rw [flatMap_append, flatMap_append, flatMap_cons, flatMap_cons,
    hkept before hout, hkept behind (nodup_cons.mp hbehind).1, update_self, live_append,
    live_append, live_append, live_append, hold, hnew]
  refine ⟨live (before.flatMap records) ++ l1, l2 ++ live (behind.flatMap records), ?_, ?_⟩
  · simp only [append_assoc]
  · simp only [append_assoc, cons_append]

theorem sublist_flatMap {l : List Nat} {f f' : Nat → List Nat}
    (h : ∀ k ∈ l, List.Sublist (f k) (f' k)) : List.Sublist (l.flatMap f) (l.flatMap f') := by
  induction l with
  | nil => exact List.Sublist.refl _
  | cons k l ih =>
    rw [flatMap_cons, flatMap_cons]
    exact (h k mem_cons_self).append (ih fun j hj => h j (mem_cons_of_mem _ hj))

theorem dataBlocks_sublist (v : Volume) (inode : Inode) :
    List.Sublist (v.dataBlocks inode) (v.fileBlocks inode) := by
  unfold Volume.dataBlocks Volume.fileBlocks
  refine ((List.Sublist.refl _).append ?_).append ?_
  · unfold Volume.singleBlocks
    split
    next => exact List.Sublist.refl _
    next => exact sublist_append_left _ _
  · unfold Volume.doubleBlocks
    split
    next => exact List.Sublist.refl _
    next =>
      refine (sublist_flatMap fun k hk => ?_).trans (sublist_append_left _ _)
      unfold Volume.singleBlocks
      rw [if_neg (mem_nonzero hk)]
      exact sublist_append_left _ _

/-- A change of a direct block leaves the pointer tables alone. -/
theorem blocks_congr (hbytes : w.blockBytes = v.blockBytes)
    (hinode : ∀ i < 15, inode'.block i = inode.block i)
    (honce : (v.fileBlocks inode).Nodup) (hn : n ∈ nonzero inode.block 12 0)
    (hdata : ∀ k ∈ v.fileBlocks inode, k ≠ n → ∀ x < v.blockBytes, w.block k x = v.block k x) :
    w.fileBlocks inode' = v.fileBlocks inode ∧ w.dataBlocks inode' = v.dataBlocks inode := by
  obtain ⟨hfirst, -, happart⟩ := nodup_append.mp honce
  obtain ⟨-, -, happart'⟩ := nodup_append.mp hfirst
  have hdirect : nonzero inode'.block 12 0 = nonzero inode.block 12 0 :=
    nonzero_congr fun j _ hj => hinode j (by omega)
  -- a table is not among the direct blocks
  have hsingle : inode.block 12 ≠ 0 → w.pointers (inode.block 12) = v.pointers (inode.block 12) := by
    intro hne
    have hmem : inode.block 12 ∈ v.singleBlocks (inode.block 12) := by
      unfold Volume.singleBlocks
      rw [if_neg hne]
      exact mem_append_right _ mem_cons_self
    exact pointers_congr hbytes (hdata _
      (mem_append_left _ (mem_append_right _ hmem)) (happart' n hn _ hmem).symm)
  have hdouble : ∀ k ∈ v.doubleBlocks (inode.block 13), w.pointers k = v.pointers k := fun k hk =>
    pointers_congr hbytes (hdata k (mem_append_right _ hk)
      (happart n (mem_append_left _ hn) k hk).symm)
  have hleaves : inode.block 13 ≠ 0 → w.pointers (inode.block 13) = v.pointers (inode.block 13) ∧
      ∀ k ∈ v.pointers (inode.block 13), w.pointers k = v.pointers k := by
    intro hne
    have hlist : v.doubleBlocks (inode.block 13) =
        (v.pointers (inode.block 13)).flatMap v.singleBlocks ++ [inode.block 13] := if_neg hne
    refine ⟨hdouble _ ?_, fun k hk => hdouble k ?_⟩
    · rw [hlist]
      exact mem_append_right _ mem_cons_self
    · rw [hlist]
      refine mem_append_left _ (mem_flatMap.mpr ⟨k, hk, ?_⟩)
      unfold Volume.singleBlocks
      rw [if_neg (mem_nonzero hk)]
      exact mem_append_right _ mem_cons_self
  constructor
  · unfold Volume.fileBlocks Volume.singleBlocks Volume.doubleBlocks
    rw [hdirect, hinode 12 (by decide), hinode 13 (by decide)]
    congr 1
    · congr 1
      split
      next => rfl
      next hne => rw [hsingle hne]
    · split
      next => rfl
      next hne =>
        rw [(hleaves hne).1]
        congr 1
        refine flatMap_congr fun k hk => ?_
        unfold Volume.singleBlocks
        rw [(hleaves hne).2 k hk]
  · unfold Volume.dataBlocks
    rw [hdirect, hinode 12 (by decide), hinode 13 (by decide)]
    congr 1
    · congr 1
      split
      next => rfl
      next hne => rw [hsingle hne]
    · split
      next => rfl
      next hne =>
        rw [(hleaves hne).1]
        exact flatMap_congr (hleaves hne).2

/-- An inode that was read is one of the volume. -/
theorem readInode_numbered {inode : Inode} (hdone : readInode n v = .done inode w) :
    0 < n ∧ n ≤ v.superblock.inodeCount := by
  unfold readInode at hdone
  rw [get_bind, require_eq_done] at hdone
  exact ⟨Nat.pos_of_ne_zero hdone.1.1, hdone.1.2⟩

/-- A child that is linked adds one entry to its directory. -/
theorem linkNewChild_adds (v w : Volume) (directoryNumber : Nat) (name : Name)
    (inodeNumber fileType childLinkCount : Nat) (records : Nat → List Entry) (h : Layout v)
    (hdirectory : WellFormed v directoryNumber records)
    (hdone : linkNewChild directoryNumber name inodeNumber fileType childLinkCount v =
      .done () w) :
    ∃ records', WellFormed w directoryNumber records' ∧
      Added name inodeNumber (listing v directoryNumber records)
        (listing w directoryNumber records') := by
  obtain ⟨hpos, hcount⟩ := hdirectory.numbered
  obtain ⟨directory, hreadDirectory, hdir⟩ := h.readInode hpos hcount
  have hblock : ∀ i < 15, directory.block i = (v.inodeRecord directoryNumber).block i :=
    fun i hi => record_block hi hdir
  unfold linkNewChild at hdone
  rw [get_bind, require_eq_done, require_eq_done, bind_done hreadDirectory, require_eq_done,
    bind_eq_done] at hdone
  obtain ⟨htype, hname, -, child, u, hreadChild, hdone⟩ := hdone
  obtain ⟨hchildPos, hchildCount⟩ := readInode_numbered hreadChild
  obtain ⟨child', hreadChild', hchild⟩ := h.readInode hchildPos hchildCount
  rw [hreadChild'] at hreadChild
  cases hreadChild
  rw [require_eq_done, require_eq_done, bind_done (h.blockSize v), require_eq_done,
    bind_eq_done] at hdone
  obtain ⟨-, -, -, ⟨n, b⟩, u, hinsert, hpublish⟩ := hdone
  have hlist : nonzero directory.block 12 0 = nonzero (v.inodeRecord directoryNumber).block 12 0 :=
    nonzero_congr fun j _ hj => hblock j (by omega)
  have hfile : ∀ k ∈ nonzero directory.block 12 0,
      k ∈ v.fileBlocks (v.inodeRecord directoryNumber) ∧
        k ∈ v.dataBlocks (v.inodeRecord directoryNumber) := by
    intro k hk
    rw [hlist] at hk
    exact ⟨List.mem_append_left _ (List.mem_append_left _ hk),
      List.mem_append_left _ (List.mem_append_left _ hk)⟩
  have hnumber : inodeNumber ≠ 0 ∧ inodeNumber < 2 ^ 32 :=
    ⟨Nat.ne_of_gt hchildPos, Nat.lt_of_le_of_lt hchildCount (get32_lt _ _)⟩
  have hsmall : fileType < 256 := by
    rcases htype with rfl | rfl
    all_goals decide
  obtain ⟨rfl, hmem, hb, hadded⟩ := insertFrom_inserted h rfl hname.2 hnumber hsmall
    (fun k hk => ⟨(hdirectory.data k (hfile k hk).1).high, _,
      hdirectory.recorded k (hfile k hk).2⟩) hinsert
  have hn := hdirectory.data n (hfile n hmem).1
  obtain ⟨w', hrelinked, rfl⟩ := publishChild_done h hn hb hchildPos hchildCount hpos hcount
    (fun i hi => record_block hi hchild) hblock hpublish
  obtain ⟨l', hl', hadded⟩ := hadded _ (hdirectory.recorded n (hfile n hmem).2)
  -- the volume behind differs in block `n` and in link counts
  have hsame := hrelinked.maps.places
  have hlayout := hsame.layout h
  have hlast := hlayout.withBlock_maps (hsame.data hn) b.bytes
  have hplaces := hsame.trans hlast.places
  have hbytes := hplaces.blockBytes
  have hpointers : ∀ i < 15, ((w'.withBlock n b.bytes).inodeRecord directoryNumber).block i =
      (u.inodeRecord directoryNumber).block i := by
    intro i hi
    rw [← hrelinked.pointers i hi]
    exact record_block hi fun x hx =>
      hlayout.withBlock_record (hsame.data hn) b.bytes hpos (hsame.inodeCount ▸ hcount) hx
  have hothers : ∀ k, u.Data k → k ≠ n → ∀ x < u.blockBytes,
      (w'.withBlock n b.bytes).block k x = u.block k x := by
    intro k hk hne x hx
    rw [withBlock_other w' hne.symm b.bytes (hsame.blockBytes.symm ▸ hx)]
    exact hrelinked.data k hk x hx
  obtain ⟨hfileBlocks, hdataBlocks⟩ := blocks_congr hbytes hpointers hdirectory.once
    (hlist ▸ hmem) fun k hk hne => hothers k (hdirectory.data k hk) hne
  refine ⟨Function.update records n l', ⟨⟨hpos, hplaces.inodeCount ▸ hcount⟩, ?_, ?_, ?_⟩, ?_⟩
  · rw [hfileBlocks]
    exact hdirectory.once
  · rw [hfileBlocks]
    exact fun k hk => hplaces.data (hdirectory.data k hk)
  · rw [hdataBlocks, hbytes]
    intro k hk
    by_cases hkn : k = n
    · rw [hkn, Function.update_self]
      exact hl'.congr fun x _ hx => withBlock_block w' n b.bytes (hsame.blockBytes.symm ▸ hx)
    · rw [Function.update_of_ne hkn]
      refine (hdirectory.recorded k hk).congr fun x _ hx => hothers k (hdirectory.data k ?_) hkn x hx
      exact (dataBlocks_sublist _ _).subset hk
  · unfold listing
    rw [hdataBlocks]
    exact added_flatMap (hdirectory.once.sublist (dataBlocks_sublist _ _)) (hfile n hmem).2 hadded

/-- An empty root directory in block 7, and inode 11 for a file that has no name yet. -/
def rootedVolume : Volume :=
  { emptyVolume with
    image := put32 emptyVolume.image 6400 0x81a4
    superblock := fun x => emptyVolume.image (1024 + x) }

theorem rootedVolume_group : OneGroup rootedVolume :=
  ⟨by decide +kernel, by decide +kernel, by decide +kernel, by decide +kernel⟩

/-- The records of its root directory. -/
def rootRecords : List Entry := [⟨2, 12, 2, [46]⟩, ⟨2, 1012, 2, [46, 46]⟩]

theorem rootedVolume_wellFormed : WellFormed rootedVolume 2 fun _ => rootRecords := by
  have hfile : rootedVolume.fileBlocks (rootedVolume.inodeRecord 2) = [7] := by decide +kernel
  have hdata : rootedVolume.dataBlocks (rootedVolume.inodeRecord 2) = [7] := by decide +kernel
  refine ⟨by decide +kernel, ?_, ?_, ?_⟩
  · rw [hfile]
    exact nodup_singleton 7
  · rw [hfile]
    intro n hn
    obtain rfl := mem_singleton.mp hn
    exact rootedVolume_group.data (by decide) (by decide)
  · rw [hdata, rootedVolume_group.blockBytes]
    intro n hn
    obtain rfl := mem_singleton.mp hn
    refine .cons (by decide +kernel) (by decide) ⟨by decide, by decide⟩
      (.cons (by decide +kernel) (by decide) ⟨by decide, by decide⟩ ⟨.nil, fun e he => nomatch he⟩)

theorem rootedVolume_added : ∃ w, linkNewChild 2 [97] 11 typeRegular 1 rootedVolume = .done () w ∧
    ∃ records', WellFormed w 2 records' ∧
      Added [97] 11 (listing rootedVolume 2 fun _ => rootRecords) (listing w 2 records') := by
  have hreturns : (linkNewChild 2 [97] 11 typeRegular 1 rootedVolume).returns
      (fun _ _ => true) = true := by
    decide +kernel
  obtain ⟨⟨⟩, w, hdone, -⟩ := Ending.exists_done hreturns
  exact ⟨w, hdone, linkNewChild_adds rootedVolume w 2 [97] 11 typeRegular 1 (fun _ => rootRecords)
    rootedVolume_group.layout rootedVolume_wellFormed hdone⟩

end MeatySkeleton.Ext2
