import MeatySkeleton.Ext2.Records

/-!
# Scans of malformed blocks

The scans of a directory block, on an array that is the block and no longer. A scan faults
where it reads or writes outside. The loops of `ext2_lookup`, `ext2_list_directory` and
`ext2_link_new_child` read the length of a record that begins in the last five bytes of the
block, which is outside; this is all they do wrong (`scan_inside`). `ext2_vnode_readdir` looks
at the offset first.
-/

namespace MeatySkeleton.Ext2

open Lib Lib.Effect

/-- A scan comes to a record that begins in the last five bytes. -/
def RaggedFrom (block : Mem) (blockSize : Nat) (stop : Nat → Prop) (offset : Nat) : Prop :=
  ∃ offset', Walks block blockSize stop offset offset' ∧ offset' < blockSize ∧ blockSize < offset' + 6

/-- What `ext2_vnode_readdir` does with the block of an offset: the record there, and its name
unless it is dead. -/
def readdirBlock (blockSize directorySize offset : Nat) (block : Buffer) :
    Effect Volume (Record × Option Name) := do
  require (offset % blockSize + 8 ≤ blockSize)
  let record ← readRecord blockSize (offset % blockSize) block
  require (offset < u32 (offset + record.recordLength))
  require (u32 (offset + record.recordLength) ≤ directorySize)
  if record.inode = 0 then return (record, none)
  else
    require (record.nameLength < 256)
    let name ← readName block (offset % blockSize) record.nameLength
    return (record, some name)

/-- The scans of a directory block. -/
inductive Scan where
  | lookup (name : Name)
  | list
  | insert (name : Name) (inodeNumber fileType : Nat)
  | readdir (directorySize offset : Nat)

namespace Scan

/-- The scan of a block in an array of its size. -/
def run (block : Buffer) : Scan → Effect Volume Unit
  | lookup name => do
    let _ ← searchBlock block.size name block (block.size + 1) 0
  | list => do
    let _ ← listBlock block.size block (block.size + 1) 0 []
  | insert name inodeNumber fileType => do
    let _ ← insertIntoBlock block.size name inodeNumber fileType block (block.size + 1) 0
  | readdir directorySize offset => do
    let _ ← readdirBlock block.size directorySize offset block

/-- The names that `ext2_link_new_child` accepts. -/
def Admitted : Scan → Prop
  | insert name _ _ => name.length ≤ 255
  | _ => True

/-- The scan ends at the record at `offset`. -/
def Stops (block : Mem) (offset : Nat) : Scan → Prop
  | lookup name => Listed name (entryAt block offset)
  | list => False
  | insert name _ _ => Suits name (entryAt block offset)
  | readdir _ _ => True

/-- The scan of a block of that size ends, and it stays in the block. The scan of
`ext2_vnode_readdir` goes on over the blocks of the directory. -/
def Inside (block : Mem) (blockSize : Nat) : Scan → Prop
  | readdir directorySize offset =>
    (∀ v, readdirBlock blockSize directorySize offset ⟨blockSize, block⟩ v ≠ .fault) ∧
    ∀ v inode, BlockSized blockSize → Accepted v.superblock →
      readdirFrom blockSize directorySize inode (directorySize + 1) offset v ≠ .fault
  | scan => ∀ v, scan.run ⟨blockSize, block⟩ v ≠ .fault

/-- The scan comes to a record that begins in the last five bytes. -/
def Ragged (block : Mem) (blockSize : Nat) : Scan → Prop
  | readdir _ _ => False
  | scan => RaggedFrom block blockSize (fun offset => scan.Stops block offset) 0

end Scan

variable {b : Buffer} {block : Mem} {blockSize offset fuel : Nat} {stop : Nat → Prop} {v : Volume}
  {name : Name}

/-! ## Walks -/

theorem not_ragged_end (h : blockSize ≤ offset) : ¬RaggedFrom block blockSize stop offset := by
  intro ⟨offset', hwalks, hlt, _⟩
  cases hwalks with
  | here => omega
  | next hbefore _ _ _ => omega

theorem ragged_here (hlt : offset < blockSize) (hlast : blockSize < offset + 6) :
    RaggedFrom block blockSize stop offset := ⟨offset, .here offset, hlt, hlast⟩

theorem ragged_next (hlt : offset < blockSize) (hinside : offset + 6 ≤ blockSize) :
    RaggedFrom block blockSize stop offset ↔ Passes block blockSize offset ∧ ¬stop offset ∧
      RaggedFrom block blockSize stop (offset + (entryAt block offset).length) := by
  constructor
  · intro ⟨offset', hwalks, hlt', hlast⟩
    cases hwalks with
    | here => omega
    | next _ hpasses hgoes hrest => exact ⟨hpasses, hgoes, offset', hrest, hlt', hlast⟩
  · intro ⟨hpasses, hgoes, offset', hrest, hlt', hlast⟩
    exact ⟨offset', .next hlt hpasses hgoes hrest, hlt', hlast⟩

/-! ## One record -/

/-- The three ways to read a record: outside, at a failed check, and well. -/
theorem readRecord_cases (hlt : offset < b.size) :
    (b.size < offset + 6 ∧ readRecord b.size offset b v = .fault) ∨
    (offset + 6 ≤ b.size ∧ ¬Passes b.bytes b.size offset ∧ readRecord b.size offset b v = .failed v) ∨
    (offset + 6 ≤ b.size ∧ Passes b.bytes b.size offset ∧
      readRecord b.size offset b v = .done (recordAt b.bytes offset) v) := by
  have hname := entryAt_name_length b.bytes offset
  have hlength : (entryAt b.bytes offset).length = get16 b.bytes (offset + 4) := rfl
  by_cases hinside : offset + 6 ≤ b.size
  · refine .inr ?_
    by_cases hpasses : Passes b.bytes b.size offset
    · exact .inr ⟨hinside, hpasses, readRecord_done hpasses (Nat.le_refl _)⟩
    · refine .inl ⟨hinside, hpasses, ?_⟩
      unfold readRecord
      rw [bind_done (get16_done (by omega))]
      by_cases hheader : 8 ≤ get16 b.bytes (offset + 4)
      · rw [require_bind hheader]
        by_cases hend : offset + get16 b.bytes (offset + 4) ≤ b.size
        · rw [require_bind hend, bind_done (get8_done (by omega)), require_failed]
          intro hroom
          exact hpasses ⟨hheader, hend, by omega⟩
        · rw [require_failed hend]
      · rw [require_failed hheader]
  · refine .inl ⟨by omega, ?_⟩
    unfold readRecord
    refine bind_fault (bind_fault ?_)
    rw [demand_neg (by omega)]
    rfl

/-! ## One step -/

/-- What a scan does at a record: it faults, it ends, or it goes on behind the record. -/
inductive Scanned {α : Type} (b : Buffer) (stop : Nat → Prop) (offset : Nat)
    (rest : Ending Volume α → Prop) : Ending Volume α → Prop
  | outside (h : b.size < offset + 6) : Scanned b stop offset rest .fault
  | ended {e : Ending Volume α} (h : offset + 6 ≤ b.size)
      (hend : ¬Passes b.bytes b.size offset ∨ stop offset) (he : e ≠ .fault) :
      Scanned b stop offset rest e
  | passed {e : Ending Volume α} (h : offset + 6 ≤ b.size) (hpasses : Passes b.bytes b.size offset)
      (hgoes : ¬stop offset) (he : rest e) : Scanned b stop offset rest e

/-- A scan faults where it comes to a ragged record, and nowhere else. -/
theorem fault_iff {α κ : Type} (scan : Nat → Nat → κ → Effect Volume α) (k : κ)
    (hend : ∀ fuel offset k, b.size ≤ offset → scan (fuel + 1) offset k v ≠ .fault)
    (hstep : ∀ fuel offset k, offset < b.size → Scanned b stop offset
      (fun e => ∃ k', e = scan fuel (offset + (entryAt b.bytes offset).length) k' v)
      (scan (fuel + 1) offset k v)) (hle : offset ≤ b.size) (hfuel : b.size < offset + fuel) :
    scan fuel offset k v = .fault ↔ RaggedFrom b.bytes b.size stop offset := by
  induction fuel generalizing offset k with
  | zero => omega
  | succ fuel ih =>
    by_cases hlt : offset < b.size
    · have hscan := hstep fuel offset k hlt
      revert hscan
      generalize scan (fuel + 1) offset k v = e
      intro hscan
      cases hscan with
      | outside h => exact ⟨fun _ => ragged_here hlt h, fun _ => rfl⟩
      | ended h hends he =>
        refine ⟨fun hfault => absurd hfault he, fun hragged => ?_⟩
        obtain ⟨hpasses, hgoes, _⟩ := (ragged_next hlt h).mp hragged
        exact hends.elim (fun hno => absurd hpasses hno) fun hstop => absurd hstop hgoes
      | passed h hpasses hgoes he =>
        obtain ⟨k', rfl⟩ := he
        have hheader := hpasses.header
        rw [ih k' hpasses.inside (by omega), ragged_next hlt h]
        exact ⟨fun hragged => ⟨hpasses, hgoes, hragged⟩, fun hragged => hragged.2.2⟩
    · exact ⟨fun hfault => absurd hfault (hend fuel offset k (by omega)),
        fun hragged => absurd hragged (not_ragged_end (by omega))⟩

/-- How a scan starts on a record: the header, then the name. -/
theorem scanned_of_record {α : Type} {rest : Ending Volume α → Prop}
    {f : Record → Effect Volume α} (hlt : offset < b.size)
    (hf : Passes b.bytes b.size offset → offset + 6 ≤ b.size →
      Scanned b stop offset rest (f (recordAt b.bytes offset) v)) :
    Scanned b stop offset rest ((readRecord b.size offset b >>= f) v) := by
  rcases readRecord_cases (v := v) hlt with ⟨hlast, hread⟩ | ⟨hinside, hno, hread⟩ |
    ⟨hinside, hpasses, hread⟩
  · rw [bind_fault hread]
    exact .outside hlast
  · rw [bind_failed hread]
    exact .ended hinside (.inl hno) nofun
  · rw [bind_done hread]
    exact hf hpasses hinside

theorem searchBlock_scanned (hlt : offset < b.size) :
    Scanned b (fun o => Listed name (entryAt b.bytes o)) offset
      (fun e => ∃ _ : Unit,
        e = searchBlock b.size name b fuel (offset + (entryAt b.bytes offset).length) v)
      (searchBlock b.size name b (fuel + 1) offset v) := by
  rw [searchBlock, if_neg (Nat.not_le_of_lt hlt)]
  apply scanned_of_record hlt
  intro hpasses hinside
  rw [bind_done (matchesName_done (Nat.le_refl _) hpasses)]
  by_cases hfound : Listed name (entryAt b.bytes offset)
  · rw [if_pos (decide_eq_true hfound)]
    exact .ended hinside (.inr hfound) nofun
  · rw [if_neg fun h => hfound (of_decide_eq_true h)]
    exact .passed hinside hpasses hfound ⟨(), rfl⟩

theorem listBlock_scanned {printed : List (Record × Name)} (hlt : offset < b.size) :
    Scanned b (fun _ => False) offset
      (fun e => ∃ printed', e = listBlock b.size b fuel (offset + (entryAt b.bytes offset).length)
        printed' v)
      (listBlock b.size b (fuel + 1) offset printed v) := by
  rw [listBlock, if_neg (Nat.not_le_of_lt hlt)]
  apply scanned_of_record hlt
  intro hpasses hinside
  have hname := entryAt_name_length b.bytes offset
  have hbyte := UInt8.toNat_lt (b.bytes (offset + 6))
  have hend := hpasses.inside
  have hroom := hpasses.name
  unfold recordAt readName
  simp only
  split
  next => exact .passed hinside hpasses id ⟨_, rfl⟩
  next =>
    rw [require_bind (by omega), bind_bind_eq, bind_done (slice_done (by omega))]
    exact .passed hinside hpasses id ⟨_, rfl⟩

theorem insertIntoBlock_scanned {inodeNumber fileType : Nat} (hname : name.length ≤ 255)
    (hlt : offset < b.size) :
    Scanned b (fun o => (Scan.insert name inodeNumber fileType).Stops b.bytes o) offset
      (fun e => ∃ _ : Unit, e = insertIntoBlock b.size name inodeNumber fileType b fuel
        (offset + (entryAt b.bytes offset).length) v)
      (insertIntoBlock b.size name inodeNumber fileType b (fuel + 1) offset v) := by
  rw [insertIntoBlock, if_neg (Nat.not_le_of_lt hlt)]
  apply scanned_of_record hlt
  intro hpasses hinside
  have hend := hpasses.inside
  have hneeded := (directoryEntrySize_fits hname).2.1
  rw [bind_done (matchesName_done (Nat.le_refl _) hpasses)]
  by_cases hfound : Listed name (entryAt b.bytes offset)
  · rw [require_failed fun h => of_decide_eq_false h hfound]
    exact .ended hinside (.inr (.inl hfound)) nofun
  · rw [require_bind (decide_eq_false hfound)]
    unfold recordAt
    simp only
    split
    next hdead =>
      rw [bind_done (putRecord_done (by omega))]
      exact .ended hinside (.inr (.inr (.inl hdead))) nofun
    next hdead =>
      split
      next hslack =>
        have hactual := hslack.2
        rw [bind_done (put16_done (by omega)),
          bind_done (putRecord_done (by show _ ≤ b.size; omega))]
        exact .ended hinside (.inr (.inr (.inr hslack))) nofun
      next hslack =>
        refine .passed hinside hpasses ?_ ⟨(), rfl⟩
        intro hstops
        rcases hstops with h | h | h
        · exact hfound h
        · exact hdead h
        · exact hslack h

/-! ## Whole scans -/

theorem searchBlock_fault : searchBlock b.size name b (b.size + 1) 0 v = .fault ↔
    (Scan.lookup name).Ragged b.bytes b.size := by
  refine fault_iff (fun fuel offset (_ : Unit) => searchBlock b.size name b fuel offset) () ?_ ?_
    (Nat.zero_le _) (by omega)
  · intro fuel offset _ hle
    simp only [searchBlock, if_pos hle]
    exact nofun
  · intro fuel offset _ hlt
    exact searchBlock_scanned hlt

theorem listBlock_fault : listBlock b.size b (b.size + 1) 0 [] v = .fault ↔
    Scan.list.Ragged b.bytes b.size := by
  refine fault_iff (fun fuel offset printed => listBlock b.size b fuel offset printed) [] ?_ ?_
    (Nat.zero_le _) (by omega)
  · intro fuel offset printed hle
    simp only [listBlock, if_pos hle]
    exact nofun
  · intro fuel offset printed hlt
    exact listBlock_scanned hlt

theorem insertIntoBlock_fault {inodeNumber fileType : Nat} (hname : name.length ≤ 255) :
    insertIntoBlock b.size name inodeNumber fileType b (b.size + 1) 0 v = .fault ↔
      (Scan.insert name inodeNumber fileType).Ragged b.bytes b.size := by
  refine fault_iff (fun fuel offset (_ : Unit) =>
    insertIntoBlock b.size name inodeNumber fileType b fuel offset) () ?_ ?_
    (Nat.zero_le _) (by omega)
  · intro fuel offset _ hle
    simp only [insertIntoBlock, if_pos hle]
    exact nofun
  · intro fuel offset _ hlt
    exact insertIntoBlock_scanned hname hlt

/-- `let _ ← m` faults where `m` does. -/
theorem discarded_fault {α : Type} {m : Effect Volume α} :
    (m >>= fun _ => (pure () : Effect Volume Unit)) v = .fault ↔ m v = .fault := by
  cases hm : m v with
  | done a w =>
    rw [bind_done hm]
    exact ⟨nofun, nofun⟩
  | failed w =>
    rw [bind_failed hm]
    exact ⟨nofun, nofun⟩
  | fault =>
    rw [bind_fault hm]
    exact ⟨fun _ => rfl, fun _ => rfl⟩

/-- An iteration of the loop of `ext2_vnode_readdir`. -/
theorem readdirFrom_step {directorySize : Nat} {inode : Inode} (hlt : offset < directorySize)
    (hblock : inode.block (offset / blockSize) ≠ 0) (hdirect : offset / blockSize < 12)
    (hb : blockSize ≠ 0) :
    readdirFrom blockSize directorySize inode (fuel + 1) offset v =
      (do
        let block ← readBlock blockSize (inode.block (offset / blockSize)) v.array
        let (record, name) ← readdirBlock blockSize directorySize offset block
        match name with
        | none =>
          readdirFrom blockSize directorySize inode fuel (u32 (offset + record.recordLength))
        | some name =>
          let directory ← recordIsDirectory record
          return (some ⟨record.inode, directory, name⟩, u32 (offset + record.recordLength))) v := by
  rw [readdirFrom, if_neg (Nat.not_le_of_lt hlt), bind_done (divide_done hb), require_bind hdirect,
    bind_done (modulo_done hb), demand_bind (by omega), if_neg hblock, get_bind]
  refine bind_cont fun block w hread => ?_
  unfold readdirBlock
  by_cases hinside : offset % blockSize + 8 ≤ blockSize
  · rw [require_bind hinside, bind_bind_eq, require_bind hinside, bind_bind_eq]
    refine bind_cont fun record u _ => ?_
    by_cases hnext : offset < u32 (offset + record.recordLength)
    · by_cases hend : u32 (offset + record.recordLength) ≤ directorySize
      · rw [require_bind hnext, require_bind hend, bind_bind_eq, require_bind hnext, bind_bind_eq,
          require_bind hend]
        by_cases hdead : record.inode = 0
        · rw [if_pos hdead, if_pos hdead]
          rfl
        · rw [if_neg hdead, if_neg hdead]
          by_cases hname : record.nameLength < 256
          · rw [require_bind hname, bind_bind_eq, require_bind hname, bind_bind_eq]
            rfl
          · rw [require_failed hname, bind_bind_eq, require_failed hname]
      · rw [require_bind hnext, require_failed hend, bind_bind_eq, require_bind hnext, bind_bind_eq,
          require_failed hend]
    · rw [require_failed hnext, bind_bind_eq, require_failed hnext]
  · rw [require_failed hinside, bind_bind_eq, require_failed hinside]

theorem readdirBlock_keeps (directorySize offset : Nat) :
    Keeps (fun w => w = v) (readdirBlock b.size directorySize offset b) fun _ => True := by
  refine .require fun hheader => ?_
  refine (readRecord_keeps (Nat.le_refl _) (by omega)).bind fun record hrecord => ?_
  obtain ⟨rfl, -, hend, hroom⟩ := hrecord
  refine .require fun _ => .require fun _ => .ite (fun _ => .pure trivial) fun _ => ?_
  refine .require fun _ => (readName_keeps ?_).bind fun _ _ => .pure trivial
  show _ + 8 + (entryAt b.bytes (offset % b.size)).name.length ≤ _
  omega

/-- Every scan ends, and it stays in the block unless it comes to a record that begins in the last
five bytes. -/
theorem scan_inside (block : Mem) (blockSize : Nat) (scan : Scan) (h : scan.Admitted) :
    scan.Inside block blockSize ↔ ¬scan.Ragged block blockSize := by
  have hiff {m : Effect Volume Unit} {C : Prop} (hm : ∀ v, m v = .fault ↔ C) :
      (∀ v, m v ≠ .fault) ↔ ¬C := by
    refine ⟨fun hinside hragged => hinside emptyVolume ((hm _).mpr hragged), fun hno v hfault => ?_⟩
    exact hno ((hm v).mp hfault)
  cases scan with
  | lookup name =>
    exact hiff fun v => discarded_fault.trans (searchBlock_fault (b := ⟨blockSize, block⟩))
  | list => exact hiff fun v => discarded_fault.trans (listBlock_fault (b := ⟨blockSize, block⟩))
  | insert name inodeNumber fileType =>
    exact hiff fun v => discarded_fault.trans (insertIntoBlock_fault (b := ⟨blockSize, block⟩) h)
  | readdir directorySize offset =>
    refine ⟨fun _ => id, fun _ => ⟨?_, ?_⟩⟩
    · intro v hfault
      have hkeeps := readdirBlock_keeps (b := ⟨blockSize, block⟩) directorySize offset v rfl
      rw [hfault] at hkeeps
      exact hkeeps
    · intro v inode hsize hsb hfault
      have hmeets : Keeps (Guarded v.superblock True True)
          (readdirFrom blockSize directorySize inode (directorySize + 1) offset) fun _ => True :=
        readdirFrom_keeps hsb hsize (by omega)
      have hkeeps := hmeets v ⟨.refl _ _ _, fun _ => trivial, fun _ => trivial⟩
      rw [hfault] at hkeeps
      exact hkeeps

/-- A block whose first record ends four bytes before the block. -/
def raggedBlock : Mem := imageOf [(4, 1020)]

/-- The scan for a name that is not there runs into it. -/
theorem raggedBlock_lookup : ¬(Scan.lookup [97]).Inside raggedBlock 1024 := by
  intro hinside
  exact hinside emptyVolume rfl

theorem raggedBlock_insert : (Scan.insert [97] 11 typeRegular).Inside raggedBlock 1024 ↔
    ¬(Scan.insert [97] 11 typeRegular).Ragged raggedBlock 1024 :=
  scan_inside raggedBlock 1024 (.insert [97] 11 typeRegular) (by show 1 ≤ 255; decide)

end MeatySkeleton.Ext2
