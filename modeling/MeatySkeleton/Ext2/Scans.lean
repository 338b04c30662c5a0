import MeatySkeleton.Ext2.Lookups

/-!
# Directory scans within bounds

A scan reads the header of a record before it knows that the header lies in the block. In a
block that fills its array it leaves the array at a record that begins in the last bytes
(`HeadersInside`); `ext2_vnode_readdir` alone looks at the offset first. The operations on
directories are safe where none of their scans comes to such a record. Each scan has its own
condition: an allocation may change the blocks of a malformed volume.
-/

namespace MeatySkeleton.Ext2

open Lib Lib.Effect

variable {A B : Prop}

/-! ## Directories -/

/-- A record with its name. -/
structure Entry where
  inode : Nat
  length : Nat
  fileType : Nat
  name : Name
deriving DecidableEq

/-- The record at `offset` in a block. -/
def entryAt (block : Mem) (offset : Nat) : Entry where
  inode := get32 block offset
  length := get16 block (offset + 4)
  fileType := (block (offset + 7)).toNat
  name := (List.range (block (offset + 6)).toNat).map fun i => block (offset + 8 + i)

/-- The record at `offset` passes the three checks. -/
structure Passes (block : Mem) (blockSize offset : Nat) : Prop where
  header : 8 ≤ (entryAt block offset).length
  inside : offset + (entryAt block offset).length ≤ blockSize
  name : 8 + (entryAt block offset).name.length ≤ (entryAt block offset).length

/-- A scan that ends at the records with `stop` comes from one offset to another. -/
inductive Walks (block : Mem) (blockSize : Nat) (stop : Nat → Prop) : Nat → Nat → Prop
  | here (offset : Nat) : Walks block blockSize stop offset offset
  | next {offset offset' : Nat} (hlt : offset < blockSize) (hpasses : Passes block blockSize offset)
      (hgoes : ¬stop offset)
      (hrest : Walks block blockSize stop (offset + (entryAt block offset).length) offset') :
      Walks block blockSize stop offset offset'

/-- What `readRecord` returns. -/
def recordAt (block : Mem) (offset : Nat) : Record :=
  ⟨(entryAt block offset).inode, (entryAt block offset).length,
    (entryAt block offset).name.length, (entryAt block offset).fileType⟩

/-- A record in use under the name, at which a lookup ends. -/
def Listed (name : Name) (e : Entry) : Prop := e.inode ≠ 0 ∧ e.name = name

instance (name : Name) (e : Entry) : Decidable (Listed name e) :=
  inferInstanceAs (Decidable (_ ∧ _))

/-- A record at which the scan of `ext2_link_new_child` ends: one under the name, or one with
room for a record under it. -/
def Suits (name : Name) (e : Entry) : Prop :=
  Listed name e ∨ (e.inode = 0 ∧ directoryEntrySize name.length ≤ e.length) ∨
    (e.inode ≠ 0 ∧ directoryEntrySize e.name.length + directoryEntrySize name.length ≤ e.length)

abbrev Comes (stop : Entry → Prop) (block : Mem) (blockSize : Nat) : Nat → Nat → Prop :=
  Walks block blockSize fun offset => stop (entryAt block offset)

/-- The record length of every record that the scan comes to lies within an array of 4096 bytes. -/
def HeadersInside (stop : Entry → Prop) (block : Mem) (blockSize offset : Nat) : Prop :=
  ∀ offset', Comes stop block blockSize offset offset' → offset' < blockSize → offset' + 6 ≤ 4096

theorem entryAt_name_length (block : Mem) (offset : Nat) :
    (entryAt block offset).name.length = (block (offset + 6)).toNat := by
  show ((List.range _).map _).length = _
  rw [List.length_map, List.length_range]

/-- A record depends on its own bytes only. -/
theorem entryAt_congr {block block' : Mem} {offset k : Nat}
    (hroom : 8 + (entryAt block offset).name.length ≤ k)
    (hbytes : ∀ x, offset ≤ x → x < offset + k → block' x = block x) :
    entryAt block' offset = entryAt block offset := by
  rw [entryAt_name_length] at hroom
  have hlength : block' (offset + 6) = block (offset + 6) := hbytes _ (by omega) (by omega)
  unfold entryAt get16
  rw [hlength, get32_congr fun i hi => hbytes (offset + i) (by omega) (by omega),
    hbytes (offset + 4) (by omega) (by omega), hbytes (offset + 4 + 1) (by omega) (by omega),
    hbytes (offset + 7) (by omega) (by omega)]
  congr 1
  refine List.map_congr_left fun i hi => hbytes _ (by omega) ?_
  have hlt := List.mem_range.mp hi
  omega

/-- A scan sees the bytes of the block only. -/
theorem Comes.congr {stop : Entry → Prop} {block block' : Mem} {blockSize offset offset' : Nat}
    (h : Comes stop block' blockSize offset offset') (heq : ∀ i < blockSize, block' i = block i) :
    Comes stop block blockSize offset offset' := by
  induction h with
  | here => exact .here _
  | @next offset offset' hlt hpasses hgoes _ ih =>
    have hinside := hpasses.inside
    have hsame : entryAt block offset = entryAt block' offset :=
      entryAt_congr hpasses.name fun x _ hx => (heq x (by omega)).symm
    obtain ⟨hheader, -, hname⟩ := hpasses
    rw [← hsame] at hheader hinside hname hgoes ih
    exact .next hlt ⟨hheader, hinside, hname⟩ hgoes ih

section
variable {sb : Superblock} {J : Volume → Prop} {blockSize offset : Nat} {b : Buffer} {name : Name}
  {stop : Entry → Prop}

theorem readRecord_keeps (hsize : blockSize ≤ b.size) (hheader : offset + 6 ≤ b.size) :
    Keeps J (readRecord blockSize offset b) fun r =>
      r = recordAt b.bytes offset ∧ Passes b.bytes blockSize offset := by
  refine (get16_keeps (by omega)).bind fun recordLength hlength => ?_
  refine .require fun hmin => .require fun hinside => ?_
  refine (get8_keeps (by omega)).bind fun nameLength hbyte => .require fun hname => ?_
  refine (get32_keeps (by omega)).bind fun inode hinode => ?_
  refine (get8_keeps (by omega)).bind fun fileType htype => .pure ?_
  rw [← entryAt_name_length] at hbyte
  subst hlength hbyte hinode htype
  exact ⟨rfl, hmin, hinside, by show _ + _ ≤ get16 b.bytes (offset + 4); omega⟩

theorem readName_keeps {n : Nat} (h : offset + 8 + n ≤ b.size) :
    Keeps J (readName b offset n) fun _ => True :=
  (slice_keeps h).bind fun _ _ => .pure trivial

/-- A name that lies in the block is read. -/
theorem readName_done {v : Volume}
    (hroom : offset + 8 + (entryAt b.bytes offset).name.length ≤ b.size) :
    readName b offset (entryAt b.bytes offset).name.length v =
      .done (entryAt b.bytes offset).name v := by
  unfold readName
  rw [bind_done (slice_done hroom), entryAt_name_length]
  rfl

/-- A name that lies in the block is compared. -/
theorem matchesName_done {v : Volume} (hb : blockSize ≤ b.size)
    (hpasses : Passes b.bytes blockSize offset) :
    matchesName b offset (recordAt b.bytes offset) name v =
      .done (decide (Listed name (entryAt b.bytes offset))) v := by
  obtain ⟨_, hend, hroom⟩ := hpasses
  have hread : readName b offset (entryAt b.bytes offset).name.length v =
      .done (entryAt b.bytes offset).name v := readName_done (by omega)
  unfold matchesName recordAt
  simp only
  by_cases hmatch : (entryAt b.bytes offset).inode ≠ 0 ∧
      (entryAt b.bytes offset).name.length = name.length
  · have hstored : decide (Listed name (entryAt b.bytes offset)) =
        decide ((entryAt b.bytes offset).name = name) :=
      decide_eq_decide.mpr ⟨And.right, fun h => ⟨hmatch.1, h⟩⟩
    rw [if_pos hmatch, hstored]
    exact bind_done hread
  · rw [if_neg hmatch, decide_eq_false]
    · rfl
    · intro ⟨hlive, hname⟩
      exact hmatch ⟨hlive, congrArg List.length hname⟩

theorem matchesName_keeps (hb : blockSize ≤ b.size) (hpasses : Passes b.bytes blockSize offset) :
    Keeps J (matchesName b offset (recordAt b.bytes offset) name) fun found =>
      found = true ↔ Listed name (entryAt b.bytes offset) := by
  intro w hw
  rw [matchesName_done hb hpasses]
  exact ⟨hw, decide_eq_true_iff⟩

theorem searchBlock_keeps (hb : b.size = 4096) (hsize : blockSize ≤ 4096) (hle : offset ≤ blockSize)
    (hinside : HeadersInside (Listed name) b.bytes blockSize offset) {fuel : Nat}
    (hfuel : blockSize < offset + fuel) :
    Keeps J (searchBlock blockSize name b fuel offset) fun r =>
      r = none → Comes (Listed name) b.bytes blockSize offset blockSize := by
  induction fuel generalizing offset with
  | zero => omega
  | succ fuel ih =>
    refine .ite (fun hend => .pure fun _ => ?_) fun hlt => ?_
    · rw [Nat.le_antisymm hle hend]
      exact .here _
    have hlt := Nat.lt_of_not_le hlt
    have hheader := hinside offset (.here _) hlt
    refine (readRecord_keeps (by omega) (by omega)).bind fun r hr => ?_
    obtain ⟨rfl, hpasses⟩ := hr
    refine (matchesName_keeps (by omega) hpasses).bind fun found hfound => ?_
    refine .ite (fun _ => .pure nofun) fun hno => ?_
    have hgoes := mt hfound.mpr hno
    have hmin := hpasses.header
    refine (ih hpasses.inside (fun o ho => hinside o (.next hlt hpasses hgoes ho)) ?_).mono
      fun _ hrest hnone => .next hlt hpasses hgoes (hrest hnone)
    show _ < offset + (entryAt b.bytes offset).length + _
    omega

theorem directoryEntrySize_le {n : Nat} (h : n ≤ 255) : 8 + n ≤ directoryEntrySize n := by
  unfold directoryEntrySize u16
  omega

theorem putRecord_keeps {r : Record} (h : offset + 8 + name.length ≤ b.size) :
    Keeps J (putRecord b offset r name) fun r => r.size = b.size := by
  refine (put32_keeps (by omega)).bind fun b1 h1 => ?_
  refine (put16_keeps (by omega)).bind fun b2 h2 => ?_
  refine (put8_keeps (by omega)).bind fun b3 h3 => ?_
  refine (put8_keeps (by omega)).bind fun b4 h4 => ?_
  refine (store_keeps (by omega)).mono fun b5 h5 => ?_
  rw [h5, h4, h3, h2, h1]

theorem insertIntoBlock_keeps (hb : b.size = 4096) (hsize : blockSize ≤ 4096)
    (hname : name.length ≤ 255) (hle : offset ≤ blockSize)
    (hinside : HeadersInside (Suits name) b.bytes blockSize offset) {n fileType fuel : Nat}
    (hfuel : blockSize < offset + fuel) :
    Keeps J (insertIntoBlock blockSize name n fileType b fuel offset) fun r =>
      (∀ b' ∈ r, b'.size = 4096) ∧
        (r = none → Comes (Suits name) b.bytes blockSize offset blockSize) := by
  induction fuel generalizing offset with
  | zero => omega
  | succ fuel ih =>
    refine .ite (fun hend => .pure ⟨nofun, fun _ => ?_⟩) fun hlt => ?_
    · rw [Nat.le_antisymm hle hend]
      exact .here _
    have hlt := Nat.lt_of_not_le hlt
    have hheader := hinside offset (.here _) hlt
    refine (readRecord_keeps (by omega) (by omega)).bind fun r hr => ?_
    obtain ⟨rfl, hpasses⟩ := hr
    refine (matchesName_keeps (by omega) hpasses).bind fun found hfound => .require fun hno => ?_
    have hend := hpasses.inside
    have hmin := hpasses.header
    have hneeded := directoryEntrySize_le hname
    refine .ite (fun hunused => ?_) fun hlive => .ite (fun hslack => ?_) fun hfull => ?_
    · have hroom : _ ≤ (entryAt b.bytes offset).length := hunused.2
      refine (putRecord_keeps (by omega)).bind fun b' hb' => .pure ⟨fun found hfound => ?_, nofun⟩
      rw [← Option.some.inj hfound, hb', hb]
    · have hroom : _ + _ ≤ (entryAt b.bytes offset).length := hslack.2
      refine (put16_keeps (by omega)).bind fun b' hb' => ?_
      refine (putRecord_keeps (by omega)).bind fun b'' hb'' => .pure ⟨fun found hfound => ?_, nofun⟩
      rw [← Option.some.inj hfound, hb'', hb', hb]
    · have hgoes : ¬Suits name (entryAt b.bytes offset) := by
        rintro (hnamed | hunused | hslack)
        · rw [hfound.mpr hnamed] at hno
          cases hno
        · exact hlive hunused
        · exact hfull hslack
      refine (ih hpasses.inside (fun o ho => hinside o (.next hlt hpasses hgoes ho)) ?_).mono
        fun _ hrest => ⟨hrest.1, fun hnone => .next hlt hpasses hgoes (hrest.2 hnone)⟩
      show _ < offset + (entryAt b.bytes offset).length + _
      omega

/-! ## Searches -/

/-- A block of 4096 bytes on the device. -/
def Volume.block4096 (v : Volume) (n : Nat) : Mem := fun i => v.image (n * 4096 + i)

variable {directory : Inode} {v : Volume} {i : Nat}

/-- A search of the direct blocks comes to block `i`: it has read the ones before to their end. -/
def Passed (stop : Entry → Prop) (directory : Inode) (v : Volume) (i : Nat) : Prop :=
  ∀ j < i, directory.block j ≠ 0 → (directory.block j + 1) * 8 ≤ v.sectorCount ∧
    Comes stop (v.block4096 (directory.block j)) 4096 0 4096

/-- The direct blocks of a directory can be searched, up to the record at which the search ends.
Where blocks are smaller than the array they are read into, every block can. -/
def Searchable (stop : Entry → Prop) (directory : Inode) (v : Volume) : Prop :=
  v.superblock.logBlockSize = 2 → ∀ i < 12, directory.block i ≠ 0 →
    (directory.block i + 1) * 8 ≤ v.sectorCount → Passed stop directory v i →
    HeadersInside stop (v.block4096 (directory.block i)) 4096 0

theorem Passed.succ (h : Passed stop directory v i)
    (hi : directory.block i ≠ 0 → (directory.block i + 1) * 8 ≤ v.sectorCount ∧
      Comes stop (v.block4096 (directory.block i)) 4096 0 4096) :
    Passed stop directory v (i + 1) := by
  intro j hj
  rcases Nat.lt_succ_iff_lt_or_eq.mp hj with hj | rfl
  · exact h j hj
  · exact hi

/-- A block on the device is in the array. -/
theorem readBlock_array (hsize : BlockSized blockSize) (hb : b.size = 4096) (n : Nat) :
    Keeps (fun w => w = v) (readBlock blockSize n b) fun r => r.size = 4096 ∧
      (blockSize = 4096 → (n + 1) * 8 ≤ v.sectorCount ∧ ∀ i < 4096, r.bytes i = v.block4096 n i) := by
  refine .require fun _ => .require fun hsectors => Keeps.get.bind fun w hw => ?_
  subst hw
  refine .require fun _ => .require fun _ => .require fun hlba => .require fun hcount => ?_
  have hle := hsize.le
  refine .demand (by omega) (.pure ⟨hb, fun hmax => ?_⟩)
  subst hmax
  refine ⟨by omega, fun j hj => ?_⟩
  show copyFrom b.bytes 0 w.image _ _ j = w.image (n * 4096 + j)
  unfold copyFrom
  rw [if_pos (by omega), show n * (4096 / 512) * 512 = n * 4096 by omega, Nat.sub_zero]

/-- The scan of the block that a search comes to. -/
theorem Searchable.inside (h : Searchable stop directory v) (hsize : BlockSized blockSize)
    (hlog : blockSize = 4096 → v.superblock.logBlockSize = 2)
    (hpassed : blockSize = 4096 → Passed stop directory v i) (hi : i < 12)
    (hblock : directory.block i ≠ 0)
    (harray : blockSize = 4096 → (directory.block i + 1) * 8 ≤ v.sectorCount ∧
      ∀ j < 4096, b.bytes j = v.block4096 (directory.block i) j) :
    HeadersInside stop b.bytes blockSize 0 := by
  intro o ho hlt
  by_cases hmax : blockSize = 4096
  · obtain ⟨hfits, hbytes⟩ := harray hmax
    have hinside := h (hlog hmax) i hi hblock hfits (hpassed hmax)
    subst hmax
    exact hinside o (ho.congr hbytes) hlt
  · unfold BlockSized at hsize
    omega

theorem lookupFrom_keeps (hsearch : Searchable (Listed name) directory v)
    (hsize : BlockSized blockSize) (hlog : blockSize = 4096 → v.superblock.logBlockSize = 2)
    (hb : b.size = 4096) {left : Nat} (hi : i + left ≤ 12)
    (hpassed : blockSize = 4096 → Passed (Listed name) directory v i) :
    Keeps (fun w => w = v) (lookupFrom blockSize directory name left i b) fun _ => True := by
  induction left generalizing i b with
  | zero => exact .fail
  | succ left ih =>
    refine .demand (by omega) (.ite (fun hzero => ?_) fun hblock => ?_)
    · exact ih hb (by omega) fun hmax => (hpassed hmax).succ fun hblock => absurd hzero hblock
    refine (readBlock_array hsize hb _).bind fun b' hb' => ?_
    have hinside := hsearch.inside hsize hlog hpassed (by omega) hblock hb'.2
    refine (searchBlock_keeps hb'.1 hsize.le.2 (Nat.zero_le _) hinside (by omega)).bind
      fun found hfound => ?_
    cases found with
    | some n => exact .pure trivial
    | none =>
      refine ih hb'.1 (by omega) fun hmax => (hpassed hmax).succ fun _ => ⟨(hb'.2 hmax).1, ?_⟩
      subst hmax
      exact (hfound rfl).congr (hb'.2 rfl).2

theorem lookup_keeps (hsb : Accepted sb) (hv : Guarded sb A B v)
    (hsearch : Searchable (Listed name) directory v) :
    Keeps (fun w => w = v) (lookup directory name) fun _ => True := by
  refine Keeps.get.bind fun w hw => .require fun _ => ?_
  subst hw
  refine (blockSize_log (hsb.guarded hv)).bind fun blockSize hsize => .require fun _ => ?_
  exact lookupFrom_keeps hsearch hsize.1 hsize.2 rfl (by decide) fun _ _ hj =>
    absurd hj (Nat.not_lt_zero _)

theorem kmalloc_keeps : Keeps (Guarded sb A B) kmalloc fun _ => True := by
  refine Keeps.get.bind fun v hv => ?_
  split
  next => exact .modify fun _ hw => ⟨hw.superblock, hw.blocks, hw.inodes⟩
  next =>
    exact (Keeps.modify fun _ hw => ⟨hw.superblock, hw.blocks, hw.inodes⟩).bind fun _ _ => .fail
  next => exact .fail

/-- `ext2_vnode_lookup` of a directory that can be searched; a new vnode has no cache. -/
theorem vnodeLookup_meets (hsb : Accepted sb) (directory : Inode) (name : Name) :
    Meets (fun v => Guarded sb A B v ∧ Searchable (Listed name) directory v)
      (vnodeLookup directory name) (fun node v => Guarded sb A B v ∧ node.cache = none) (Guarded sb A B) := by
  intro v hv
  have hkeep : ∀ w, w = v → Guarded sb A B w := fun w hw => hw ▸ hv.1
  refine Keeps.meets (lookup_keeps hsb hv.1 hv.2) hkeep (fun n _ => ?_) v rfl
  refine Keeps.meets (readInode_any hkeep hsb n) hkeep fun inode _ => ?_
  refine Meets.mono (P := Guarded sb A B) ?_ hkeep (fun _ _ hw => hw) fun _ hw => hw
  exact kmalloc_keeps.bind fun _ _ => kmalloc_keeps.bind fun _ _ =>
    Keeps.require fun _ => Keeps.pure rfl

theorem publishChild_keeps (hsb : Accepted sb) (hsize : blockSize ≤ 4096) (hb : b.size = 4096)
    (l : Linking) (n : Nat) : Keeps (Guarded sb A B)
    (publishChild l blockSize n b) fun _ => True := by
  have hwrite : ∀ (m : Nat) (inode : Inode), Keeps (Guarded sb A B) (attempt (writeInode m inode))
      fun _ => True :=
    fun m inode => (writeInode_keeps hsb m inode).attempt.mono fun _ _ => trivial
  have hblock : Keeps (Guarded sb A B) (attempt (writeBlock blockSize n b 0)) fun _ => True := by
    refine (writeBlock_keeps ?_).attempt.mono fun _ _ => trivial
    rw [hb, Nat.zero_add]
    exact hsize
  refine (writeInode_keeps hsb _ _).bind fun _ _ => (Keeps.when fun _ => ?_).bind fun _ _ => ?_
  · refine (Keeps.when fun _ => (hwrite _ _).bind fun _ _ => .fail).bind fun _ _ => ?_
    exact (hwrite _ _).bind fun _ _ => .when fun _ => (hwrite _ _).bind fun _ _ => .fail
  · refine hblock.bind fun _ _ => .when fun _ => ?_
    refine (Keeps.when fun _ => (hwrite _ _).bind fun _ _ => .pure trivial).bind fun _ _ => ?_
    exact (hwrite _ _).bind fun _ _ => .fail

theorem insertFrom_keeps (hsearch : Searchable (Suits name) directory v)
    (hname : name.length ≤ 255) (hsize : BlockSized blockSize)
    (hlog : blockSize = 4096 → v.superblock.logBlockSize = 2) (hb : b.size = 4096)
    {n fileType left : Nat} (hi : i + left ≤ 12)
    (hpassed : blockSize = 4096 → Passed (Suits name) directory v i) :
    Keeps (fun w => w = v) (insertFrom blockSize directory name n fileType left i b) fun r =>
      r.2.size = 4096 := by
  induction left generalizing i b with
  | zero => exact .fail
  | succ left ih =>
    refine .demand (by omega) (.ite (fun hzero => ?_) fun hblock => ?_)
    · exact ih hb (by omega) fun hmax => (hpassed hmax).succ fun hblock => absurd hzero hblock
    refine (readBlock_array hsize hb _).bind fun b' hb' => ?_
    have hinside := hsearch.inside hsize hlog hpassed (by omega) hblock hb'.2
    refine (insertIntoBlock_keeps hb'.1 hsize.le.2 hname (Nat.zero_le _) hinside (by omega)).bind
      fun inserted hinserted => ?_
    cases inserted with
    | some b'' => exact .pure (hinserted.1 b'' rfl)
    | none =>
      refine ih hb'.1 (by omega) fun hmax => (hpassed hmax).succ fun _ => ⟨(hb'.2 hmax).1, ?_⟩
      subst hmax
      exact (hinserted.2 rfl).congr (hb'.2 rfl).2

/-- The directory on the device can be searched for a place for the name. -/
def Linkable (directoryNumber : Nat) (name : Name) : Volume → Prop :=
  After (readInode directoryNumber) fun directory => Searchable (Suits name) directory

theorem linkNewChild_meets (hsb : Accepted sb) (directoryNumber : Nat) (name : Name)
    (n fileType links : Nat) :
    Meets (fun v => Guarded sb A B v ∧ Linkable directoryNumber name v)
      (linkNewChild directoryNumber name n fileType links) (fun _ => Guarded sb A B)
      (Guarded sb A B) := by
  intro v hv
  have hkeep : ∀ w, w = v → Guarded sb A B w := fun w hw => hw ▸ hv.1
  refine Keeps.meets Keeps.get hkeep (fun w hw => ?_) v rfl
  subst hw
  refine .require hkeep fun _ => .require hkeep fun hname => ?_
  refine Keeps.meets (readInode_any hkeep hsb _).result hkeep fun directory hdirectory => ?_
  have hsearch := hv.2 directory w hdirectory.2
  refine .require hkeep fun _ => Keeps.meets (readInode_any hkeep hsb n) hkeep fun child _ => ?_
  refine .require hkeep fun _ => .require hkeep fun _ => ?_
  refine Keeps.meets (blockSize_log (hsb.guarded hv.1)) hkeep fun blockSize hsize => ?_
  refine .require hkeep fun hle => ?_
  refine Keeps.meets (insertFrom_keeps hsearch hname.2 hsize.1 hsize.2 rfl (by decide)
    fun _ _ hj => absurd hj (Nat.not_lt_zero _)) hkeep fun r hr => ?_
  exact Meets.mono (publishChild_keeps hsb hle.2 hr _ _) hkeep (fun _ _ hw => hw.1) fun _ hw => hw

/-- The searches of `ext2_vnode_create`: before an inode is allocated, for the link, and for
the new vnode. -/
def Creatable (directoryNumber : Nat) (directory : Inode) (name : Name) (v : Volume) : Prop :=
  Searchable (Listed name) directory v ∧
    After (attempt (vnodeLookup directory name)) (fun existing v => existing = none →
      After allocateInode (fun n v => Linkable directoryNumber name v ∧
        After (linkNewRegularFile directoryNumber name n) (fun _ => Searchable (Listed name) directory) v) v) v

/-- A lookup whose failure is not the end. -/
theorem attemptLookup_meets (hsb : Accepted sb) {name : Name}
    {C : Option Vnode → Volume → Prop} :
    Meets (fun v => Guarded sb A B v ∧ Searchable (Listed name) directory v ∧
        After (attempt (vnodeLookup directory name)) C v)
      (attempt (vnodeLookup directory name)) (fun r v => Guarded sb A B v ∧ C r v)
      (Guarded sb A B) :=
  Meets.mono (Meets.after (Meets.attempt
      (Meets.mono (vnodeLookup_meets hsb directory name) (fun _ hv => hv) (fun _ _ hv => hv.1)
        fun _ hv => hv)))
    (fun _ hv => ⟨⟨hv.1, hv.2.1⟩, hv.2.2⟩) (fun _ _ hv => hv) fun _ hv => hv

theorem vnodeCreate_meets (hsb : Accepted sb) (hfit : B → InodesFit sb) (directoryNumber : Nat)
    (directory : Inode) (name : Name) :
    Meets (fun v => Guarded sb A B v ∧ Creatable directoryNumber directory name v)
      (vnodeCreate directoryNumber directory name)
      (fun node v => Guarded sb A B v ∧ node.cache = none) (Guarded sb A B) := by
  refine (attemptLookup_meets hsb).bind fun existing => ?_
  refine .require (fun _ hv => hv.1) fun hnone => ?_
  have hnone' : existing = none := Option.isNone_iff_eq_none.mp hnone
  -- an inode
  refine Meets.bind (Q := fun n v => Guarded sb A B v ∧ Linkable directoryNumber name v ∧
    After (linkNewRegularFile directoryNumber name n) (fun _ => Searchable (Listed name) directory) v) ?_
    fun n => ?_
  · exact Meets.mono (Meets.after (allocateInodeWithMode_keeps hsb hfit _))
      (fun v hv => ⟨hv.1, hv.2 hnone'⟩) (fun _ _ hv => ⟨hv.1.1, hv.2⟩) fun _ hv => hv
  -- the link, and the new vnode
  refine Meets.bind (Q := fun _ v => Guarded sb A B v ∧ Searchable (Listed name) directory v) ?_ fun _ =>
    vnodeLookup_meets hsb directory name
  exact Meets.mono (Meets.after (linkNewChild_meets hsb directoryNumber name n typeRegular 1))
    (fun v hv => ⟨⟨hv.1, hv.2.1⟩, hv.2.2⟩) (fun _ _ hv => hv) fun _ hv => hv

theorem newDirectoryBlock_keeps (hb : b.size = 4096) (hsize : BlockSized blockSize)
    (n parent : Nat) :
    Keeps J (newDirectoryBlock blockSize n parent b) fun r => r.size = 4096 := by
  have hle := hsize.le
  refine (fill_keeps (by omega)).bind fun b1 h1 => ?_
  have hdot : directoryEntrySize 1 = 12 := rfl
  refine (putRecord_keeps ?_).bind fun b2 h2 => (putRecord_keeps ?_).mono fun b3 h3 => ?_
  · rw [h1, hb]
    decide
  · rw [h2, h1, hb, hdot]
    decide
  · rw [h3, h2, h1, hb]

theorem allocateDirectoryBlock_keeps (hsb : Accepted sb) (hfit : A → BlocksFit sb) :
    Keeps (Guarded sb A B) allocateDirectoryBlock fun _ => A := by
  refine Keeps.zoom (J := GuardedAllocating sb A B) ?_ (fun _ hv => ⟨hv, rfl⟩)
    fun _ _ _ hs => hs.volume
  refine (allocateBlock_keeps hsb hfit).bind fun _ hA => .require fun _ => ?_
  refine (flushAllocationContext_keeps hsb).bind fun _ _ => Keeps.get.bind fun s _ => ?_
  exact (Keeps.when fun _ => onVolume_keeps writeSuperblock_keeps).bind fun _ _ => .pure hA

theorem prepareDirectory_keeps (hsb : Accepted sb) (hblocks : A → BlocksFit sb ∧ FreedFit sb)
    (hinodes : B → InodesFit sb) (parent : Nat) :
    Keeps (Guarded sb A B) (prepareDirectory parent) fun _ => True := by
  refine (allocateInodeWithMode_keeps hsb hinodes _).bind fun n _ => ?_
  refine (readInode_keeps hsb n).bind fun child _ => Keeps.get.bind fun v hv => ?_
  have haccepted := hsb.guarded hv
  refine (blockSize_keeps haccepted).bind fun blockSize hsize => ?_
  refine .require fun hle => .require fun _ => ?_
  have hfit : A → BlocksFit sb := fun hA => (hblocks hA).1
  refine (allocateDirectoryBlock_keeps hsb hfit).bind fun directoryBlock hA => ?_
  have hrollback : Keeps (Guarded sb A B) (do
      let _ ← attempt (freeBlock directoryBlock)
      fail) fun _ : Unit => True :=
    (freeBlock_keeps hsb (hblocks hA).2 hA directoryBlock).attempt.bind fun _ _ => .fail
  refine (newDirectoryBlock_keeps rfl hsize n parent).bind fun block hblock => ?_
  refine (writeBlock_keeps ?_).attempt.bind fun _ _ => ?_
  · rw [hblock, Nat.zero_add]
    exact hle.2
  refine (Keeps.when fun _ => hrollback).bind fun _ _ => ?_
  refine (writeInode_keeps hsb n _).attempt.bind fun _ _ => ?_
  refine (Keeps.when fun _ => hrollback).bind fun _ _ => ?_
  refine (divide_keeps haccepted.inodes).bind fun group _ => ?_
  refine (readGroupDescriptor_keeps hsb group).bind fun d _ => .require fun _ => ?_
  exact (writeGroupDescriptor_keeps hsb group _).bind fun _ _ => .pure trivial

/-- The searches of `ext2_vnode_mkdir`. -/
def Makeable (directoryNumber : Nat) (directory : Inode) (name : Name) (v : Volume) : Prop :=
  Searchable (Listed name) directory v ∧
    After (attempt (vnodeLookup directory name)) (fun existing v => existing = none →
      After (prepareDirectory directoryNumber) (fun r v => Linkable directoryNumber name v ∧
        After (attempt (linkNewChild directoryNumber name r.1 typeDirectory 2))
          (fun linked v => linked ≠ none → Searchable (Listed name) directory v) v) v) v

theorem vnodeMkdir_meets (hsb : Accepted sb) (hblocks : A → BlocksFit sb ∧ FreedFit sb)
    (hinodes : B → InodesFit sb) (directoryNumber : Nat) (directory : Inode) (name : Name) :
    Meets (fun v => Guarded sb A B v ∧ Makeable directoryNumber directory name v)
      (vnodeMkdir directoryNumber directory name)
      (fun node v => Guarded sb A B v ∧ node.cache = none) (Guarded sb A B) := by
  refine .require (fun _ hv => hv.1) fun _ => .require (fun _ hv => hv.1) fun _ => ?_
  refine (attemptLookup_meets hsb).bind fun existing => ?_
  refine .require (fun _ hv => hv.1) fun hnone => ?_
  have hnone' : existing = none := Option.isNone_iff_eq_none.mp hnone
  -- the new directory
  refine Meets.bind (Q := fun r v => Guarded sb A B v ∧ Linkable directoryNumber name v ∧
    After (attempt (linkNewChild directoryNumber name r.1 typeDirectory 2))
      (fun linked v => linked ≠ none → Searchable (Listed name) directory v) v) ?_ fun r => ?_
  · exact Meets.mono (Meets.after (prepareDirectory_keeps hsb hblocks hinodes directoryNumber))
      (fun v hv => ⟨hv.1, hv.2 hnone'⟩) (fun _ _ hv => ⟨hv.1.1, hv.2⟩) fun _ hv => hv
  -- the link
  refine Meets.bind (Q := fun linked v =>
    Guarded sb A B v ∧ (linked ≠ none → Searchable (Listed name) directory v)) ?_ fun linked => ?_
  · exact Meets.mono (Meets.after (Meets.attempt (E := Guarded sb A B)
        (linkNewChild_meets hsb directoryNumber name r.1 typeDirectory 2)))
      (fun v hv => ⟨⟨hv.1, hv.2.1⟩, hv.2.2⟩) (fun _ _ hv => hv) fun _ hv => hv
  cases linked with
  | none =>
    refine Meets.mono (P := Guarded sb A B) ?_ (fun _ hv => hv.1) (fun _ _ hv => hv) fun _ hv => hv
    refine Keeps.bind (Q := fun _ => False) ?_ fun _ h => h.elim
    refine .ite (fun _ => (Keeps.when fun _ => ?_).bind fun _ _ => .fail) fun h => absurd rfl h
    exact (writeGroupDescriptor_keeps hsb _ _).attempt.bind fun _ _ => .pure trivial
  | some _ =>
    exact Meets.mono (vnodeLookup_meets hsb directory name) (fun _ hv => ⟨hv.1, hv.2 nofun⟩)
      (fun _ _ hv => hv) fun _ hv => hv

theorem recordIsDirectory_keeps (hsb : Accepted sb) (r : Record) :
    Keeps (Guarded sb A B) (recordIsDirectory r) fun _ => True := by
  refine .ite (fun _ => .pure trivial) fun _ => .ite (fun _ => .pure trivial) fun _ => ?_
  refine (readInode_keeps hsb r.inode).bind fun child _ => ?_
  exact .ite (fun _ => .pure trivial) fun _ => .require fun _ => .pure trivial

/-- `ext2_vnode_readdir` checks that the header fits; each step moves the offset on. -/
theorem readdirFrom_keeps (hsb : Accepted sb) (hsize : BlockSized blockSize) {directorySize : Nat}
    {inode : Inode} {fuel : Nat} (hfuel : directorySize < min offset directorySize + fuel) :
    Keeps (Guarded sb A B) (readdirFrom blockSize directorySize inode fuel offset)
      fun _ => True := by
  have hne : blockSize ≠ 0 := by
    have hle := hsize.le
    omega
  induction fuel generalizing offset with
  | zero => omega
  | succ fuel ih =>
    refine .ite (fun _ => .pure trivial) fun hlt => ?_
    refine (divide_keeps hne).bind fun logicalBlock _ => .require fun hdirect => ?_
    refine (modulo_keeps hne).bind fun offsetInBlock hoffset => .demand (by omega) ?_
    refine .ite (fun _ => .require fun hnext => ih (by omega)) fun _ => ?_
    refine Keeps.get.bind fun v _ => (readBlock_keeps hsize.le.2).bind fun b hb => ?_
    refine .require fun hheader => ?_
    have hle := hsize.le
    replace hb : b.size = 4096 := hb
    refine (readRecord_keeps (by omega) (by omega)).bind fun r hr => ?_
    obtain ⟨rfl, -, hinside, hname⟩ := hr
    refine .require fun hnext => .require fun hend => ?_
    refine .ite (fun _ => ih (by omega)) fun _ => .require fun _ => ?_
    refine (readName_keeps ?_).bind fun name _ => ?_
    · show _ + 8 + (entryAt b.bytes offsetInBlock).name.length ≤ _
      omega
    exact (recordIsDirectory_keeps hsb _).bind fun _ _ => .pure trivial

theorem readdir_keeps (hsb : Accepted sb) (inode : Inode) (offset : Nat) :
    Keeps (Guarded sb A B) (readdir inode offset) fun _ => True := by
  refine Keeps.get.bind fun v hv => .require fun _ => ?_
  refine (blockSize_keeps (hsb.guarded hv)).bind fun blockSize hsize => .require fun _ => ?_
  exact readdirFrom_keeps hsb hsize (by omega)

end

end MeatySkeleton.Ext2
