import Mathlib.Data.List.TakeWhile
import MeatySkeleton.Ext2.ScanBounds

/-!
# Listing a directory

A directory is listed by calls of `ext2_vnode_readdir`, each from the offset that the one
before returned. The calls step through the records of the direct blocks (`Ahead`), and they
stop at the first live entry that is neither a directory nor a regular file, or behind the
twelfth block: there a call fails. `ext2_lookup` scans the same blocks and looks at no type.
-/

namespace MeatySkeleton.Ext2

open List Lib Lib.Effect

/-- Calls of `ext2_vnode_readdir`, each from the offset that the one before returned: the
entries they yield, and whether the last one reports the end or fails. -/
def readAll (inode : Inode) : Nat → Nat → Effect Volume (List Dirent × Bool)
  | 0, _ => crash
  | calls + 1, offset => do
    match ← attempt (readdir inode offset) with
    | none => return ([], false)
    | some (none, _) => return ([], true)
    | some (some dirent, next) =>
      let (rest, reported) ← readAll inode calls next
      return (dirent :: rest, reported)

/-! ## A well-formed directory -/

/-- Whether a file is a directory, by the type of its entry or else by the mode of its inode;
neither is known of a file of another kind. -/
def Volume.isDirectory (v : Volume) (e : Entry) : Option Bool :=
  if e.fileType = typeDirectory then some true
  else if e.fileType = typeRegular then some false
  else if (v.inodeRecord e.inode).format = formatDirectory then some true
  else if (v.inodeRecord e.inode).format = formatRegular then some false
  else none

/-- What `ext2_vnode_readdir` yields for an entry. -/
def Volume.dirent (v : Volume) (e : Entry) : Option Dirent :=
  (v.isDirectory e).map fun directory => ⟨e.inode, directory, e.name⟩

/-- A directory of `count` blocks, with the records of its direct ones. -/
structure Directory (v : Volume) (inode : Inode) (count : Nat) (records : Nat → List Entry) :
    Prop where
  format : inode.format = formatDirectory
  size : inode.sizeLow = count * v.blockBytes
  recorded : ∀ i < 12, inode.block i ≠ 0 → i < count ∧ inode.block i < v.superblock.blockCount ∧
    Recorded (v.block (inode.block i)) v.blockBytes 0 (records i)
  hole : ∀ i < 12, inode.block i = 0 → records i = []
  numbered : ∀ i < 12, ∀ e ∈ records i, e.inode ≤ v.superblock.inodeCount

/-- The live entries of the direct blocks. -/
def liveEntries (records : Nat → List Entry) : List Entry :=
  ((List.range 12).flatMap records).filter fun e => e.inode ≠ 0

variable {v : Volume} {inode : Inode} {count offset fuel : Nat} {records : Nat → List Entry}
  {l : List Entry} {e : Entry} {name : Name} {b : Buffer}

/-! ## One record -/

/-- A block that is read into an array. -/
theorem Layout.readInto (h : Layout v) {n : Nat} (hn : n < v.superblock.blockCount)
    (hb : b.size = 4096) :
    ∃ b', readBlock v.blockBytes n b v = .done b' v ∧ b'.size = 4096 ∧
      ∀ x < v.blockBytes, b'.bytes x = v.block n x := by
  have hmax := h.sized.le.2
  refine ⟨_, readBlock_done h.sized (h.hasBlock hn) (by omega), hb, ?_⟩
  intro x hx
  exact copyFrom_low hx

/-- The type of a record whose inode is there. -/
theorem recordIsDirectory_eq (h : Layout v) (hlive : e.inode ≠ 0)
    (hcount : e.inode ≤ v.superblock.inodeCount) (recordLength nameLength : Nat) :
    recordIsDirectory ⟨e.inode, recordLength, nameLength, e.fileType⟩ v =
      match v.isDirectory e with
      | some directory => .done directory v
      | none => .failed v := by
  unfold recordIsDirectory Volume.isDirectory
  dsimp only
  by_cases hdirectory : e.fileType = typeDirectory
  · rw [if_pos hdirectory, if_pos hdirectory]
    rfl
  · rw [if_neg hdirectory, if_neg hdirectory]
    by_cases hregular : e.fileType = typeRegular
    · rw [if_pos hregular, if_pos hregular]
      rfl
    · -- the entry does not tell: its inode is read
      obtain ⟨child, hread, hchild⟩ := h.readInode (Nat.pos_of_ne_zero hlive) hcount
      have hformat : child.format = (v.inodeRecord e.inode).format := by
        unfold Inode.format Inode.mode
        rw [get16_congr fun k hk => hchild (0 + k) (by unfold Inode.bytes; omega)]
      rw [if_neg hregular, if_neg hregular, bind_done hread, hformat]
      by_cases hchildDirectory : (v.inodeRecord e.inode).format = formatDirectory
      · rw [if_pos hchildDirectory, if_pos hchildDirectory]
        rfl
      · rw [if_neg hchildDirectory, if_neg hchildDirectory]
        by_cases hchildRegular : (v.inodeRecord e.inode).format = formatRegular
        · rw [require_bind hchildRegular, if_pos hchildRegular]
          rfl
        · rw [require_failed hchildRegular, if_neg hchildRegular]

/-- The record at an offset of a block, and its name unless it is dead. -/
theorem readdirBlock_done {blockSize directorySize start : Nat} (hstart : offset % blockSize = start)
    (he : entryAt b.bytes start = e) (hb : blockSize ≤ b.size) (hfits : e.Fits)
    (hle : start + e.length ≤ blockSize) (hend : offset + e.length ≤ directorySize)
    (hsize : directorySize < 2 ^ 32) :
    readdirBlock blockSize directorySize offset b v =
      .done (⟨e.inode, e.length, e.name.length, e.fileType⟩,
        if e.inode = 0 then none else some e.name) v := by
  subst hstart he
  have hroom := hfits.room
  have hname := entryAt_name_length b.bytes (offset % blockSize)
  have hbyte := UInt8.toNat_lt (b.bytes (offset % blockSize + 6))
  have hnext : u32 (offset + (entryAt b.bytes (offset % blockSize)).length) =
      offset + (entryAt b.bytes (offset % blockSize)).length := Nat.mod_eq_of_lt (by omega)
  unfold readdirBlock
  rw [require_bind (by omega), bind_done (readRecord_done (hfits.passes hle) hb)]
  unfold recordAt
  dsimp only
  rw [hnext, require_bind (by omega), require_bind hend]
  split
  case isTrue hdead => rfl
  case isFalse hlive =>
    rw [require_bind (by omega), bind_done (readName_done (by omega))]
    rfl

/-! ## The records ahead of an offset -/

/-- From `offset` on the direct blocks of a directory hold the records of `l`. -/
inductive Ahead (v : Volume) (inode : Inode) : Nat → List Entry → Prop
  | stop {offset : Nat} (hle : offset ≤ 12 * v.blockBytes)
      (hstop : inode.sizeLow ≤ offset ∨ offset = 12 * v.blockBytes) : Ahead v inode offset []
  | hole {i : Nat} {l : List Entry} (hi : i < 12) (hzero : inode.block i = 0)
      (hsize : (i + 1) * v.blockBytes ≤ inode.sizeLow)
      (hrest : Ahead v inode ((i + 1) * v.blockBytes) l) : Ahead v inode (i * v.blockBytes) l
  | record {i offset : Nat} {e : Entry} {l : List Entry} (hi : i < 12) (hblock : inode.block i ≠ 0)
      (hin : inode.block i < v.superblock.blockCount)
      (hsize : (i + 1) * v.blockBytes ≤ inode.sizeLow)
      (he : entryAt (v.block (inode.block i)) offset = e) (hfits : e.Fits)
      (hle : offset + e.length ≤ v.blockBytes) (hnumber : e.inode ≤ v.superblock.inodeCount)
      (hrest : Ahead v inode (i * v.blockBytes + (offset + e.length)) l) :
      Ahead v inode (i * v.blockBytes + offset) (e :: l)

/-- The records of one block. -/
theorem ahead_block {i : Nat} {l' : List Entry} (hi : i < 12) (hblock : inode.block i ≠ 0)
    (hin : inode.block i < v.superblock.blockCount)
    (hsize : (i + 1) * v.blockBytes ≤ inode.sizeLow)
    (hl : Recorded (v.block (inode.block i)) v.blockBytes offset l)
    (hnumbered : ∀ e ∈ l, e.inode ≤ v.superblock.inodeCount)
    (hrest : Ahead v inode ((i + 1) * v.blockBytes) l') :
    Ahead v inode (i * v.blockBytes + offset) (l ++ l') := by
  obtain ⟨htiles, hfits⟩ := hl
  induction htiles with
  | nil =>
    rw [← Nat.succ_mul]
    exact hrest
  | cons hle _ ih =>
    obtain ⟨hfit, hfits⟩ := forall_mem_cons.mp hfits
    obtain ⟨hnumber, hnumbered⟩ := forall_mem_cons.mp hnumbered
    exact .record hi hblock hin hsize rfl hfit hle hnumber (ih hnumbered hfits)

/-- The blocks from `i` on. -/
theorem Directory.ahead_from (h : Directory v inode count records) {i left : Nat}
    (hi : i + left = 12) :
    Ahead v inode (i * v.blockBytes) ((List.range' i left).flatMap records) := by
  induction left generalizing i with
  | zero =>
    obtain rfl : i = 12 := hi
    exact .stop (Nat.le_refl _) (.inr rfl)
  | succ left ih =>
    have hlt : i < 12 := by omega
    have hrest := ih (i := i + 1) (by omega)
    by_cases hcount : i < count
    · have hsize : (i + 1) * v.blockBytes ≤ inode.sizeLow := by
        rw [h.size]
        exact Nat.mul_le_mul_right _ hcount
      rw [range'_succ, flatMap_cons]
      by_cases hzero : inode.block i = 0
      · rw [h.hole i hlt hzero, nil_append]
        exact .hole hlt hzero hsize hrest
      · obtain ⟨-, hin, hl⟩ := h.recorded i hlt hzero
        exact ahead_block hlt hzero hin hsize hl (h.numbered i hlt) hrest
    · -- behind the size no block is left
      have hnone : (List.range' i (left + 1)).flatMap records = [] := by
        rw [flatMap_eq_nil_iff]
        intro j hj
        obtain ⟨hle, hlt'⟩ := mem_range'_1.mp hj
        apply h.hole j (by omega)
        by_contra hblock
        have hbefore := (h.recorded j (by omega) hblock).1
        omega
      rw [hnone]
      refine .stop (Nat.mul_le_mul_right _ (Nat.le_of_lt hlt)) (.inl ?_)
      rw [h.size]
      exact Nat.mul_le_mul_right _ (Nat.le_of_not_lt hcount)

/-! ## One call -/

/-- What a call does where the live entries ahead are those of `l`. -/
inductive Called (v : Volume) (inode : Inode) : List Entry →
    Ending Volume (Option Dirent × Nat) → Prop
  | stop : Called v inode [] (if inode.sizeLow ≤ 12 * v.blockBytes
      then .done (none, inode.sizeLow) v else .failed v)
  | entry {e : Entry} {l : List Entry} {next : Nat} (hrest : Ahead v inode next l) :
      Called v inode (e :: l.filter fun e => e.inode ≠ 0) (match v.dirent e with
        | some dirent => .done (some dirent, next) v
        | none => .failed v)

theorem readdirFrom_called (h : Layout v) (hahead : Ahead v inode offset l)
    (hfuel : inode.sizeLow - offset < fuel) :
    Called v inode (l.filter fun e => e.inode ≠ 0)
      (readdirFrom v.blockBytes inode.sizeLow inode fuel offset v) := by
  have hpos := h.blockBytes_pos
  have hword : inode.sizeLow < 2 ^ 32 := get32_lt _ _
  induction hahead generalizing fuel with
  | @stop offset hle hstop =>
    obtain ⟨fuel, rfl⟩ : ∃ k, fuel = k + 1 := ⟨fuel - 1, by omega⟩
    have hcall : readdirFrom v.blockBytes inode.sizeLow inode (fuel + 1) offset v =
        if inode.sizeLow ≤ 12 * v.blockBytes then .done (none, inode.sizeLow) v else .failed v := by
      rw [readdirFrom]
      by_cases hend : inode.sizeLow ≤ offset
      · rw [if_pos hend, if_pos (Nat.le_trans hend hle)]
        rfl
      · -- behind the twelfth block
        obtain rfl : offset = 12 * v.blockBytes := hstop.resolve_left hend
        rw [if_neg hend, if_neg hend, bind_done (divide_done hpos.ne'),
          Nat.mul_div_cancel _ hpos, require_failed (Nat.lt_irrefl 12)]
    rw [hcall]
    exact .stop
  | @hole i l hi hzero hsize hrest ih =>
    obtain ⟨fuel, rfl⟩ : ∃ k, fuel = k + 1 := ⟨fuel - 1, by omega⟩
    rw [Nat.succ_mul] at hsize
    have hnext : u32 ((i + 1) * v.blockBytes) = (i + 1) * v.blockBytes := by
      rw [Nat.succ_mul]
      exact Nat.mod_eq_of_lt (by omega)
    rw [readdirFrom, if_neg (by omega), bind_done (divide_done hpos.ne'),
      Nat.mul_div_cancel _ hpos, require_bind hi, bind_done (modulo_done hpos.ne'),
      demand_bind (by omega)]
    dsimp only
    rw [if_pos hzero, hnext, require_bind (by rw [Nat.succ_mul]; omega)]
    apply ih
    rw [Nat.succ_mul]
    omega
  | @record i offset e l hi hblock hin hsize he hfits hle hnumber hrest ih =>
    obtain ⟨fuel, rfl⟩ : ∃ k, fuel = k + 1 := ⟨fuel - 1, by omega⟩
    have hroom := hfits.room
    have hmax := h.sized.le.2
    rw [Nat.succ_mul] at hsize
    have hindex : (i * v.blockBytes + offset) / v.blockBytes = i := by
      rw [Nat.mul_comm, Nat.mul_add_div hpos, Nat.div_eq_of_lt (by omega), Nat.add_zero]
    have hoffset : (i * v.blockBytes + offset) % v.blockBytes = offset := by
      rw [Nat.mul_comm, Nat.mul_add_mod, Nat.mod_eq_of_lt (by omega)]
    obtain ⟨b, hread, hb, hbytes⟩ := h.readInto (b := v.array) hin rfl
    have hcopied : entryAt b.bytes offset = e := by
      subst he
      apply entryAt_congr hroom
      intro x _ hx
      exact hbytes x (by omega)
    have hdone := readdirBlock_done hoffset hcopied (v := v) (by omega : v.blockBytes ≤ b.size)
      hfits hle (by omega) hword
    have hnext : u32 (i * v.blockBytes + offset + e.length) =
        i * v.blockBytes + (offset + e.length) := by
      rw [← Nat.add_assoc]
      exact Nat.mod_eq_of_lt (by omega)
    rw [readdirFrom_step (by omega) (hindex.symm ▸ hblock) (hindex.symm ▸ hi) hpos.ne', hindex,
      bind_done hread, bind_done hdone]
    dsimp only
    rw [hnext]
    by_cases hdead : e.inode = 0
    · rw [if_pos hdead, filter_cons_of_neg (by simp [hdead])]
      exact ih (by omega)
    · rw [if_neg hdead, filter_cons_of_pos (by simp [hdead])]
      have hcall : (recordIsDirectory ⟨e.inode, e.length, e.name.length, e.fileType⟩ >>= fun directory =>
          pure (some ⟨e.inode, directory, e.name⟩, i * v.blockBytes + (offset + e.length))) v =
          match v.dirent e with
          | some dirent => .done (some dirent, i * v.blockBytes + (offset + e.length)) v
          | none => .failed v := by
        have htype := recordIsDirectory_eq h hdead hnumber e.length e.name.length
        unfold Volume.dirent
        cases hdirectory : v.isDirectory e with
        | none =>
          rw [hdirectory] at htype
          exact bind_failed htype
        | some directory =>
          rw [hdirectory] at htype
          exact bind_done htype
      dsimp only
      rw [hcall]
      exact .entry hrest

theorem readdir_called (h : Layout v) (hformat : inode.format = formatDirectory)
    (hahead : Ahead v inode offset l) :
    Called v inode (l.filter fun e => e.inode ≠ 0) (readdir inode offset v) := by
  have hpos := h.blockBytes_pos
  unfold readdir
  rw [get_bind, require_bind hformat, bind_done (h.blockSize v),
    require_bind ⟨hpos.ne', h.sized.le.2⟩]
  exact readdirFrom_called h hahead (by omega)

/-! ## All calls -/

/-- The entries that are yielded: those before the first of another kind. -/
def Volume.yielded (v : Volume) (live : List Entry) : List Dirent :=
  (live.takeWhile fun e => (v.dirent e).isSome).filterMap v.dirent

/-- Whether every entry is a directory or a regular file. -/
def Volume.supported (v : Volume) (live : List Entry) : Bool :=
  live.all fun e => (v.dirent e).isSome

theorem yielded_cons_none (h : v.dirent e = none) (l : List Entry) : v.yielded (e :: l) = [] := by
  simp [Volume.yielded, h]

theorem yielded_cons_some {dirent : Dirent} (h : v.dirent e = some dirent) (l : List Entry) :
    v.yielded (e :: l) = dirent :: v.yielded l := by
  simp [Volume.yielded, h]

/-- The calls end, and they yield what they should. -/
theorem readAll_eq (h : Layout v) (hformat : inode.format = formatDirectory) {calls : Nat}
    (hahead : Ahead v inode offset l) (hcalls : (l.filter fun e => e.inode ≠ 0).length < calls) :
    readAll inode calls offset v =
      .done (v.yielded (l.filter fun e => e.inode ≠ 0),
        v.supported (l.filter fun e => e.inode ≠ 0) &&
          decide (inode.sizeLow ≤ 12 * v.blockBytes)) v := by
  induction calls generalizing offset l with
  | zero => omega
  | succ calls ih =>
    have hcalled := readdir_called h hformat hahead
    rw [readAll]
    generalize hlive : (l.filter fun e => e.inode ≠ 0) = live at hcalled hcalls ⊢
    generalize hcall : readdir inode offset v = e at hcalled
    cases hcalled with
    | stop =>
      by_cases hsize : inode.sizeLow ≤ 12 * v.blockBytes
      · rw [if_pos hsize] at hcall
        rw [bind_done (attempt_done hcall), decide_eq_true hsize]
        rfl
      · rw [if_neg hsize] at hcall
        rw [bind_done (attempt_failed hcall), decide_eq_false hsize]
        rfl
    | @entry e l next hrest =>
      cases hdirent : v.dirent e with
      | none =>
        rw [hdirent] at hcall
        rw [bind_done (attempt_failed hcall), yielded_cons_none hdirent, Volume.supported,
          all_cons, hdirent]
        rfl
      | some dirent =>
        rw [hdirent] at hcall
        rw [bind_done (attempt_done hcall)]
        rw [length_cons] at hcalls
        dsimp only
        rw [bind_done (ih hrest (by omega)), yielded_cons_some hdirent, Volume.supported,
          Volume.supported, all_cons, hdirent]
        rfl

/-! ## Lookup -/

/-- The scan of a well-formed block finds the first live entry of the name. -/
theorem searchBlock_eq {blockSize : Nat} (hb : blockSize ≤ b.size)
    (hl : Recorded b.bytes blockSize offset l) (hfuel : blockSize < offset + fuel) :
    searchBlock blockSize name b fuel offset v =
      .done ((l.find? fun e => Listed name e).map Entry.inode) v := by
  induction fuel generalizing offset l with
  | zero =>
    obtain ⟨htiles, -⟩ := hl
    cases htiles with
    | nil => omega
    | cons hle _ => omega
  | succ fuel ih =>
    rw [searchBlock]
    by_cases hend : blockSize ≤ offset
    · rw [if_pos hend]
      obtain ⟨htiles, hfits⟩ := hl
      cases htiles with
      | nil => rfl
      | cons hle _ =>
        have hroom := (hfits _ mem_cons_self).room
        omega
    · obtain ⟨l, rfl, hfits, hle, hrest⟩ := hl.exists_cons (Nat.lt_of_not_le hend)
      have hroom := hfits.room
      have hpasses := hfits.passes hle
      rw [if_neg hend, bind_done (readRecord_done hpasses hb),
        bind_done (matchesName_done hb hpasses)]
      by_cases hmatch : Listed name (entryAt b.bytes offset)
      · have hfound : ((entryAt b.bytes offset :: l).find? fun e => Listed name e) =
            some (entryAt b.bytes offset) := find?_cons_of_pos (decide_eq_true hmatch)
        rw [if_pos (decide_eq_true hmatch), hfound]
        rfl
      · have hother : ((entryAt b.bytes offset :: l).find? fun e => Listed name e) =
            l.find? fun e => Listed name e := find?_cons_of_neg (by simpa using hmatch)
        rw [if_neg fun h => hmatch (of_decide_eq_true h), hother]
        have hmore : blockSize < offset + (entryAt b.bytes offset).length + fuel := by omega
        exact ih hrest hmore

/-- The scan of the blocks from `i` on. -/
theorem Directory.lookupFrom_eq (h : Directory v inode count records) (hv : Layout v) {i left : Nat}
    (hi : i + left = 12) (hb : b.size = 4096) :
    lookupFrom v.blockBytes inode name left i b v =
      match ((List.range' i left).flatMap records).find? fun e => Listed name e with
      | some e => .done e.inode v
      | none => .failed v := by
  induction left generalizing i b with
  | zero => rfl
  | succ left ih =>
    have hlt : i < 12 := by omega
    rw [lookupFrom, demand_bind (by omega), range'_succ, flatMap_cons, find?_append]
    by_cases hzero : inode.block i = 0
    · rw [if_pos hzero, h.hole i hlt hzero]
      exact ih (by omega) hb
    · obtain ⟨-, hin, hl⟩ := h.recorded i hlt hzero
      obtain ⟨b', hread, hb', hbytes⟩ := hv.readInto hin hb
      have hl' := hl.congr fun x _ hx => hbytes x hx
      have hmax := hv.sized.le.2
      rw [if_neg hzero, bind_done hread, bind_done (searchBlock_eq (by omega) hl' (by omega))]
      cases hfound : (records i).find? fun e => Listed name e with
      | some e => rfl
      | none => exact ih (by omega) hb'

theorem Directory.lookup_eq (h : Directory v inode count records) (hv : Layout v) (name : Name) :
    lookup inode name v =
      match (liveEntries records).find? fun e => e.name = name with
      | some e => .done e.inode v
      | none => .failed v := by
  have hlisted : (fun e => decide (Listed name e)) =
      fun e => decide (e.inode ≠ 0) && decide (e.name = name) := funext fun e => Bool.decide_and _ _
  unfold lookup liveEntries
  rw [get_bind, require_bind h.format, bind_done (hv.blockSize v), require_bind hv.sized.le.2,
    h.lookupFrom_eq hv (by omega) rfl, find?_filter, range_eq_range', hlisted]
  simp

/-! ## Both -/

/-- The yielded entries are the first of the live ones, each once and in their order. -/
theorem yielded_map (v : Volume) (live : List Entry) :
    (v.yielded live).map (fun d => (d.name, d.inode)) =
      (live.takeWhile fun e => (v.dirent e).isSome).map fun e => (e.name, e.inode) := by
  induction live with
  | nil => rfl
  | cons e live ih =>
    cases hdirent : v.dirent e with
    | none => simp [yielded_cons_none hdirent, hdirent]
    | some dirent =>
      obtain ⟨directory, -, rfl⟩ := Option.map_eq_some_iff.mp hdirent
      rw [yielded_cons_some hdirent, map_cons, ih]
      simp [hdirent]

theorem supported_iff {live : List Entry} :
    v.supported live = true ↔ ∀ e ∈ live, (v.dirent e).isSome := all_eq_true

/-- The names that `ext2_lookup` finds. -/
theorem Directory.lookup_iff (h : Directory v inode count records) (hv : Layout v) (name : Name) :
    (∃ n w, lookup inode name v = .done n w) ↔ ∃ e ∈ liveEntries records, e.name = name := by
  rw [h.lookup_eq hv name]
  constructor
  · intro ⟨n, w, hdone⟩
    cases hfound : (liveEntries records).find? fun e => e.name = name with
    | none =>
      rw [hfound] at hdone
      cases hdone
    | some e =>
      have hname := find?_some hfound
      exact ⟨e, mem_of_find?_eq_some hfound, of_decide_eq_true hname⟩
  · intro ⟨e, he, hname⟩
    cases hfound : (liveEntries records).find? fun e => e.name = name with
    | none => exact absurd (decide_eq_true hname) (find?_eq_none.mp hfound e he)
    | some e' => exact ⟨e'.inode, v, rfl⟩

/-- The calls of `ext2_vnode_readdir` on a directory yield the live entries of its direct blocks
up to the first that is neither a directory nor a regular file. They report the end if there is no
such entry and no thirteenth block, and then a name is yielded where `ext2_lookup` finds it. -/
theorem readAll_lists (v : Volume) (inode : Inode) (count : Nat) (records : Nat → List Entry)
    (h : Layout v) (hdirectory : Directory v inode count records) (calls : Nat)
    (hcalls : (liveEntries records).length < calls) :
    ∃ dirents reported, readAll inode calls 0 v = .done (dirents, reported) v ∧
      dirents.map (fun d => (d.name, d.inode)) =
        ((liveEntries records).takeWhile fun e => (v.dirent e).isSome).map
          (fun e => (e.name, e.inode)) ∧
      (reported = true ↔ (∀ e ∈ liveEntries records, (v.dirent e).isSome) ∧ count ≤ 12) ∧
      (∀ name, (∃ n w, lookup inode name v = .done n w) ↔
        ∃ e ∈ liveEntries records, e.name = name) ∧
      ((∀ e ∈ liveEntries records, (v.dirent e).isSome) →
        ∀ name, (∃ d ∈ dirents, d.name = name) ↔ ∃ n w, lookup inode name v = .done n w) := by
  have hahead : Ahead v inode (0 * v.blockBytes) ((List.range' 0 12).flatMap records) :=
    hdirectory.ahead_from rfl
  rw [Nat.zero_mul, ← List.range_eq_range'] at hahead
  refine ⟨_, _, readAll_eq h hdirectory.format hahead hcalls, yielded_map v _, ?_,
    hdirectory.lookup_iff h, ?_⟩
  · rw [Bool.and_eq_true, supported_iff, decide_eq_true_iff, hdirectory.size,
      Nat.mul_le_mul_right_iff h.blockBytes_pos]
    rfl
  · intro hsupported name
    have hall : (v.yielded (liveEntries records)).map (fun d => (d.name, d.inode)) =
        (liveEntries records).map fun e => (e.name, e.inode) := by
      rw [yielded_map, List.takeWhile_eq_self_iff.mpr hsupported]
    have hnames := congrArg (List.map Prod.fst) hall
    rw [List.map_map, List.map_map] at hnames
    rw [hdirectory.lookup_iff h name, ← List.mem_map, ← List.mem_map]
    exact iff_of_eq (congrArg (name ∈ ·) hnames)

/-- The root directory with a symbolic link `l` to inode 11. -/
def linkedVolume : Volume :=
  { rootedVolume with
    image := [(6400, 0xa1ff), (7184, 0x0202000c), (7192, 11), (7196, 0x070103e8), (7200, 108)].foldr
      (fun word image => put32 image word.1 word.2) rootedVolume.image }

theorem linkedVolume_group : OneGroup linkedVolume :=
  ⟨by decide +kernel, by decide +kernel, by decide +kernel, by decide +kernel⟩

def linkedRecords (i : Nat) : List Entry :=
  if i = 0 then [⟨2, 12, 2, [46]⟩, ⟨2, 12, 2, [46, 46]⟩, ⟨11, 1000, 7, [108]⟩] else []

theorem linkedVolume_directory :
    Directory linkedVolume (linkedVolume.inodeRecord 2) 1 linkedRecords where
  format := by decide +kernel
  size := by decide +kernel
  recorded i hi hblock := by
    have hother : ∀ i < 12, i ≠ 0 → (linkedVolume.inodeRecord 2).block i = 0 := by decide +kernel
    obtain rfl : i = 0 := by
      by_contra hne
      exact hblock (hother i hi hne)
    refine ⟨by omega, by decide +kernel, ?_⟩
    rw [linkedVolume_group.blockBytes]
    exact .cons (by decide +kernel) (by decide) ⟨by decide, by decide⟩
      (.cons (by decide +kernel) (by decide) ⟨by decide, by decide⟩
        (.cons (by decide +kernel) (by decide) ⟨by decide, by decide⟩ ⟨.nil, nofun⟩))
  hole i hi hzero := by
    refine if_neg fun h => ?_
    subst h
    revert hzero
    decide +kernel
  numbered i hi e he := by
    by_cases h : i = 0
    · subst h
      revert e
      decide +kernel
    · rw [linkedRecords, if_neg h] at he
      cases he

theorem linkedVolume_lists : ∃ dirents reported,
    readAll (linkedVolume.inodeRecord 2) 4 0 linkedVolume =
      .done (dirents, reported) linkedVolume ∧
    dirents.map (fun d => (d.name, d.inode)) = [([46], 2), ([46, 46], 2)] := by
  obtain ⟨dirents, reported, hcalls, hmap, -⟩ := readAll_lists linkedVolume
    (linkedVolume.inodeRecord 2) 1 linkedRecords linkedVolume_group.layout linkedVolume_directory 4
    (by decide)
  refine ⟨dirents, reported, hcalls, hmap.trans ?_⟩
  decide +kernel

/-- The link is not yielded, the end is not reported, and a lookup finds the link. -/
theorem linkedVolume_unlisted :
    Layout linkedVolume ∧ Directory linkedVolume (linkedVolume.inodeRecord 2) 1 linkedRecords ∧
    (∃ dirents w, readAll (linkedVolume.inodeRecord 2) 4 0 linkedVolume =
      .done (dirents, false) w ∧ ∀ d ∈ dirents, d.name ≠ [108]) ∧
    ∃ w, lookup (linkedVolume.inodeRecord 2) [108] linkedVolume = .done 11 w := by
  have hcalls : (readAll (linkedVolume.inodeRecord 2) 4 0 linkedVolume).returns
      (fun r _ => r.2 = false ∧ ∀ d ∈ r.1, d.name ≠ [108]) = true := by
    decide +kernel
  have hlookup : (lookup (linkedVolume.inodeRecord 2) [108] linkedVolume).returns
      (fun n _ => n = 11) = true := by
    decide +kernel
  obtain ⟨⟨dirents, reported⟩, w, hdone, hlisted⟩ := Ending.exists_done hcalls
  obtain ⟨n, u, hfound, hn⟩ := Ending.exists_done hlookup
  obtain ⟨rfl, hnames⟩ := of_decide_eq_true hlisted
  obtain rfl := of_decide_eq_true hn
  exact ⟨linkedVolume_group.layout, linkedVolume_directory, ⟨dirents, w, hdone, hnames⟩, u, hfound⟩

end MeatySkeleton.Ext2
