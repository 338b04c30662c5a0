import MeatySkeleton.Paging.Model

/-!
# What mapping a page does to the tables

`DirectoryOk m dir` is the shape of a page directory the kernel can work on: it
maps itself through its last entry, and each present entry has a page table of
its own, in a frame the allocator counts as used. For such a directory the
outcome of `paging_map_page` and `paging_unmap_page` is a small case distinction
(`MapOutcome`); nothing else in memory changes.
-/

namespace MeatySkeleton.Paging

open Function

structure DirectoryOk (m : Machine) (dir : Nat) : Prop where
  range : 0 < dir ∧ dir < frameCount
  dirUsed : m.used dir = true
  recursive : (m.mem dir recursiveDirectoryIndex).has pagePresent = true ∧
    frameOf (m.mem dir recursiveDirectoryIndex) = dir
  tableRange : ∀ d, d < 1023 → (m.mem dir d).has pagePresent = true →
    0 < frameOf (m.mem dir d) ∧ frameOf (m.mem dir d) < frameCount
  tableUsed : ∀ d, d < 1023 → (m.mem dir d).has pagePresent = true →
    m.used (frameOf (m.mem dir d)) = true
  tableNe : ∀ d, d < 1023 → (m.mem dir d).has pagePresent = true → frameOf (m.mem dir d) ≠ dir
  distinct : ∀ d e, d < 1023 → e < 1023 → (m.mem dir d).has pagePresent = true →
    (m.mem dir e).has pagePresent = true → frameOf (m.mem dir d) = frameOf (m.mem dir e) → d = e

variable {m : Machine} {dir d t f : Nat} {flags : Word}

theorem DirectoryOk.isRecursive (h : DirectoryOk m dir) (hm : m.directory = dir) : m.Recursive := by
  rw [Machine.Recursive, hm]
  exact h.recursive

/-- The entry for a new page table. -/
def tablePde (frame : Nat) (flags : Word) : Word :=
  entryFor (frame * pageSize) (if flags.has pageUser then pagePresent ||| pageWritable ||| pageUser
    else pagePresent ||| pageWritable)

/-- An existing directory entry after a mapping was made under it. -/
def raisedPde (flags pde : Word) : Word :=
  (if flags.has pageUser then pde ||| pageUser else pde) ||| pageWritable

/-- The entry for a mapped page. -/
def pageEntry (frame : Nat) (flags : Word) : Word :=
  entryFor (frame * pageSize) (pagePresent ||| (flags &&& pageMapFlags))

theorem tablePde_present (frame : Nat) (flags : Word) :
    (tablePde frame flags).has pagePresent = true := by
  rw [tablePde, entryFor_has _ _ (by decide)]
  split <;> decide

theorem tablePde_user (frame : Nat) (flags : Word) :
    (tablePde frame flags).has pageUser = flags.has pageUser := by
  rw [tablePde, entryFor_has _ _ (by decide)]
  cases hf : flags.has pageUser <;> decide

theorem tablePde_frame {frame : Nat} (h : frame < frameCount) (flags : Word) :
    frameOf (tablePde frame flags) = frame := by
  have hlt : frame < 2 ^ 20 := Nat.lt_trans h (by decide)
  refine frameOf_entryFor hlt ?_
  split <;> decide

theorem raisedPde_present (flags pde : Word) :
    (raisedPde flags pde).has pagePresent = pde.has pagePresent := by
  have hw : pageWritable.has pagePresent = false := by decide
  have hu : pageUser.has pagePresent = false := by decide
  rw [raisedPde, Word.has_or, hw, Bool.or_false]
  split
  · rw [Word.has_or, hu, Bool.or_false]
  · rfl

theorem raisedPde_user (flags pde : Word) :
    (raisedPde flags pde).has pageUser = (pde.has pageUser || flags.has pageUser) := by
  have hw : pageWritable.has pageUser = false := by decide
  have hu : pageUser.has pageUser = true := by decide
  rw [raisedPde, Word.has_or, hw, Bool.or_false]
  cases hf : flags.has pageUser with
  | true => rw [if_pos rfl, Word.has_or, hu]
  | false => rw [if_neg nofun, Bool.or_false]

theorem raisedPde_frame (flags pde : Word) : frameOf (raisedPde flags pde) = frameOf pde := by
  rw [raisedPde, frameOf_or _ _ (by decide)]
  split
  · rw [frameOf_or _ _ (by decide)]
  · rfl

theorem pageEntry_present (frame : Nat) (flags : Word) :
    (pageEntry frame flags).has pagePresent = true := by
  have hp : pagePresent.has pagePresent = true := by decide
  rw [pageEntry, entryFor_has _ _ (by decide), Word.has_or, hp, Bool.true_or]

theorem pageEntry_frame {frame : Nat} (h : frame < 2 ^ 20) (flags : Word) :
    frameOf (pageEntry frame flags) = frame := by
  refine frameOf_entryFor h ?_
  have hmask : pageMapFlags &&& pageFrame = 0#32 := by decide
  have hpresent : pagePresent &&& pageFrame = 0#32 := by decide
  rw [BitVec.and_or_distrib_right, hpresent, BitVec.and_assoc, hmask, BitVec.and_zero,
    BitVec.or_zero]

theorem zero_not_present : Word.has 0#32 pagePresent = false := by decide

/-- `paging_switch_directory` to a directory. -/
theorem pagingSwitchDirectory_eq (m : Machine) (hdir : 0 < dir) :
    pagingSwitchDirectory m (dir * pageSize) = (true, { m with cr3 := dir * pageSize }) := by
  have haligned : ¬dir * pageSize % pageSize ≠ 0 := by
    rw [Nat.mul_mod_left]
    exact fun hne => hne rfl
  have hne : dir * pageSize ≠ 0 := Nat.mul_ne_zero (Nat.ne_of_gt hdir) (by decide)
  rw [pagingSwitchDirectory, if_neg haligned, if_neg hne]

/-! ## `paging_map_page` -/

theorem installPage_eq (h : m.Recursive) (hd : d < 1024) (ht : t < 1024)
    (hp : (m.mem m.directory d).has pagePresent = true) :
    installPage m d t (f * pageSize) flags =
      if (m.mem (frameOf (m.mem m.directory d)) t).has pagePresent then some (false, m)
      else some (true, m.write (frameOf (m.mem m.directory d))
        (update (m.mem (frameOf (m.mem m.directory d))) t (pageEntry f flags))) := by
  rw [installPage, load_tableEntry h hd ht hp]
  show (if _ then _ else _) = _
  split
  · rfl
  · rw [store_tableEntry h hd ht hp]
    rfl

/-- The four ways `paging_map_page` can end, in directory `dir` at entry `t` of
table `d`, for frame `f`. -/
inductive MapOutcome (m : Machine) (dir d t f : Nat) (flags : Word) : Bool × Machine → Prop
  | noFrame : (m.mem dir d).has pagePresent = false → freeFrames m.used = 0 →
      MapOutcome m dir d t f flags (false, m)
  | newTable {table : Nat} : (m.mem dir d).has pagePresent = false → 0 < table →
      table < frameCount → m.used table = false →
      freeFrames (m.markUsed table).used + 1 = freeFrames m.used →
      MapOutcome m dir d t f flags (true,
        ((m.markUsed table).write dir
          (update (m.mem dir) d (tablePde table flags))).write table
            (update (fun _ => 0#32) t (pageEntry f flags)))
  | taken : (m.mem dir d).has pagePresent = true →
      (m.mem (frameOf (m.mem dir d)) t).has pagePresent = true →
      MapOutcome m dir d t f flags (false,
        m.write dir (update (m.mem dir) d (raisedPde flags (m.mem dir d))))
  | mapped : (m.mem dir d).has pagePresent = true →
      (m.mem (frameOf (m.mem dir d)) t).has pagePresent = false →
      MapOutcome m dir d t f flags (true,
        (m.write dir (update (m.mem dir) d (raisedPde flags (m.mem dir d)))).write
          (frameOf (m.mem dir d))
          (update (m.mem (frameOf (m.mem dir d))) t (pageEntry f flags)))

/-- An entry written into the directory leaves its recursive entry alone. -/
theorem pde_entered {m1 : Machine} {e : Word} (hrec : m.Recursive) (hd : d < 1023)
    (h : m1.mem m.directory = update (m.mem m.directory) d e) (hsame : m1.directory = m.directory) :
    m1.mem m1.directory d = e ∧ m1.Recursive := by
  have hdr : recursiveDirectoryIndex ≠ d := (Nat.ne_of_lt hd).symm
  rw [Machine.Recursive, hsame, h, update_of_ne hdr]
  exact ⟨update_self .., hrec⟩

/-- A new page table is entered in the directory and cleared. -/
theorem emptyTable_eq {table : Nat} (hrec : m.Recursive) (hm : m.directory = dir) (hd : d < 1023)
    (hlt : table < frameCount) :
    (m.store (directoryEntry d) (tablePde table flags)).bind
      (fun m => m.editPage (tableEntry d 0) zeroPage) =
      some ((m.write dir (update (m.mem dir) d (tablePde table flags))).write table
        fun _ => 0#32) := by
  have hd' : d < 1024 := Nat.lt_succ_of_lt hd
  subst hm
  rw [store_directoryEntry hrec hd']
  obtain ⟨hpde, hrec1⟩ := pde_entered hrec hd
    (write_self m m.directory (update (m.mem m.directory) d (tablePde table flags))) rfl
  -- the new table is reached through the entry that was just written
  rw [Option.bind_some, editPage_table hrec1 hd' (by rw [hpde]; exact tablePde_present ..), hpde,
    tablePde_frame hlt]
  rfl

/-- A new page table is there before the page goes in. -/
theorem newTable_eq {table : Nat} (hrec : m.Recursive) (hm : m.directory = dir) (hd : d < 1023)
    (ht : t < 1024) (hne : table ≠ dir) (hlt : table < frameCount) :
    (do
      let m ← m.store (directoryEntry d) (tablePde table flags)
      let m ← m.editPage (tableEntry d 0) zeroPage
      installPage m d t (f * pageSize) flags) =
      some (true, (m.write dir (update (m.mem dir) d (tablePde table flags))).write table
        (update (fun _ => 0#32) t (pageEntry f flags))) := by
  have hd' : d < 1024 := Nat.lt_succ_of_lt hd
  subst hm
  show (m.store (directoryEntry d) (tablePde table flags)).bind (fun m =>
    (m.editPage (tableEntry d 0) zeroPage).bind fun m => installPage m d t (f * pageSize) flags) = _
  rw [← Option.bind_assoc, emptyTable_eq hrec rfl hd hlt, Option.bind_some]
  generalize hw : (m.write m.directory (update (m.mem m.directory) d
    (tablePde table flags))).write table (fun _ => 0#32) = m1
  have hdir : m1.mem m.directory = update (m.mem m.directory) d (tablePde table flags) := by
    rw [← hw, write_ne hne.symm, write_self]
  obtain ⟨hpde, hrec1⟩ := pde_entered hrec hd hdir (by rw [← hw]; rfl)
  rw [installPage_eq hrec1 hd' ht (by rw [hpde]; exact tablePde_present ..), hpde,
    tablePde_frame hlt, ← hw, write_self, zero_not_present, if_neg nofun]
  simp only [Machine.write, update_idem]

theorem pagingMapPage_outcome (h : DirectoryOk m dir) (hm : m.directory = dir) {v : Nat}
    (hv : v % pageSize = 0) (hd : pageDirectoryIndex v < 1023) (f : Nat) (flags : Word) :
    ∃ r, pagingMapPage m v (f * pageSize) flags = some r ∧
      MapOutcome m dir (pageDirectoryIndex v) (pageTableIndex v) f flags r := by
  have hrec := h.isRecursive hm
  have hd' : pageDirectoryIndex v < 1024 := Nat.lt_succ_of_lt hd
  have ht : pageTableIndex v < 1024 := Nat.mod_lt _ (by decide)
  have hne : pageDirectoryIndex v ≠ recursiveDirectoryIndex := Nat.ne_of_lt hd
  have haligned : f * pageSize % pageSize = 0 := Nat.mul_mod_left ..
  generalize hdi : pageDirectoryIndex v = d at *
  generalize hti : pageTableIndex v = t at *
  rw [pagingMapPage, hdi, hti, if_neg (not_not.mpr hv), if_neg (not_not.mpr haligned), if_neg hne,
    load_directoryEntry hrec hd', hm]
  show ∃ r, (if (m.mem dir d).has pagePresent = false then _ else _) = _ ∧ _
  cases hp : (m.mem dir d).has pagePresent with
  | false =>
    rw [if_pos rfl]
    rcases pmmAllocateFrame_cases m with ⟨hnone, hzero⟩ | ⟨table, hsome, hpos, hlt, hfree, hcount⟩
    · rw [hnone]
      exact ⟨_, rfl, .noFrame hp hzero⟩
    · rw [hsome]
      have htable : table ≠ dir := by
        rintro rfl
        rw [h.dirUsed] at hfree
        cases hfree
      exact ⟨_, newTable_eq (m := m.markUsed table) hrec hm hd ht htable hlt,
        .newTable hp hpos hlt hfree hcount⟩
  | true =>
    rw [if_neg nofun]
    have htable : frameOf (m.mem dir d) ≠ dir := h.tableNe d hd hp
    show ∃ r, (m.store (directoryEntry d) (raisedPde flags (m.mem dir d))).bind _ = _ ∧ _
    rw [store_directoryEntry hrec hd', hm]
    generalize hw : m.write dir (update (m.mem dir) d
      (raisedPde flags (m.mem dir d))) = m1
    have hm1 : m1.directory = dir := by
      rw [← hw]
      exact hm
    have hself : m1.mem dir = update (m.mem dir) d (raisedPde flags (m.mem dir d)) := by
      rw [← hw, write_self]
    have hpde : m1.mem m1.directory d = raisedPde flags (m.mem dir d) := by
      rw [hm1, hself, update_self]
    have hrec1 : m1.Recursive := by
      rw [Machine.Recursive, hm1, hself, update_of_ne (Ne.symm hne)]
      exact h.recursive
    have hother : m1.mem (frameOf (m.mem dir d)) = m.mem (frameOf (m.mem dir d)) := by
      rw [← hw, write_ne htable]
    show ∃ r, installPage m1 d t _ flags = _ ∧ _
    rw [installPage_eq hrec1 hd' ht (by rw [hpde, raisedPde_present, hp]), hpde, raisedPde_frame,
      hother]
    cases hpte : (m.mem (frameOf (m.mem dir d)) t).has pagePresent with
    | true =>
      -- the directory entry stays raised
      rw [if_pos rfl, ← hw]
      exact ⟨_, rfl, .taken hp hpte⟩
    | false =>
      rw [if_neg nofun, ← hw]
      exact ⟨_, rfl, .mapped hp hpte⟩

/-! ## The scratch page -/

theorem scratch_index (i : Nat) (hi : i < 1024) :
    pageDirectoryIndex (scratchAddress + 4 * i) = scratchIndex ∧
      pageTableIndex (scratchAddress + 4 * i) = 0 ∧
        (scratchAddress + 4 * i) % pageSize / 4 = i := by
  rw [pageDirectoryIndex, pageTableIndex, scratchAddress, scratchIndex, pageSize]
  omega

/-- The scratch address shows frame `f`, through the page table `scratch`. -/
structure Opened (m : Machine) (k scratch f : Nat) : Prop where
  directory : m.directory = k
  pde : (m.mem k scratchIndex).has pagePresent = true ∧ frameOf (m.mem k scratchIndex) = scratch
  pte : (m.mem scratch 0).has pagePresent = true ∧ frameOf (m.mem scratch 0) = f

variable {k scratch : Nat}

section

variable (h : Opened m k scratch f)

include h

theorem Opened.translate {i : Nat} (hi : i < 1024) :
    m.translate (scratchAddress + 4 * i) = some (f, i) := by
  obtain ⟨hd, ht, ho⟩ := scratch_index i hi
  rw [Machine.translate, hd, ht, ho, h.directory, h.pde.1, h.pde.2, h.pte.1, h.pte.2]
  rfl

theorem Opened.write (hk : f ≠ k) (hs : f ≠ scratch)
    (page : Nat → Word) : Opened (m.write f page) k scratch f where
  directory := h.directory
  pde := by
    rw [write_ne (Ne.symm hk)]
    exact h.pde
  pte := by
    rw [write_ne (Ne.symm hs)]
    exact h.pte

theorem Opened.editPage (g : (Nat → Word) → Nat → Word) :
    m.editPage scratchAddress g = some (m.write f (g (m.mem f))) := by
  have hscratch : m.translate scratchAddress = some (f, 0) := h.translate (i := 0) (by decide)
  rw [Machine.editPage, hscratch]
  rfl

theorem Opened.store {i : Nat} (hi : i < 1024) (e : Word) :
    m.store (scratchAddress + 4 * i) e = some (m.write f (update (m.mem f) i e)) := by
  rw [Machine.store, h.translate hi]
  rfl

/-- Rewriting the page behind any byte of the scratch page. -/
theorem Opened.editByte {offset : Nat} (ho : offset < pageSize)
    (g : (Nat → Word) → Nat → Word) :
    m.editPage (scratchAddress + offset) g = some (m.write f (g (m.mem f))) := by
  have hd : pageDirectoryIndex (scratchAddress + offset) = scratchIndex := by
    rw [pageSize] at ho
    rw [pageDirectoryIndex, scratchAddress, scratchIndex]
    omega
  have ht : pageTableIndex (scratchAddress + offset) = 0 := by
    rw [pageSize] at ho
    rw [pageTableIndex, scratchAddress]
    omega
  rw [Machine.editPage, Machine.translate, hd, ht, h.directory, h.pde.1, h.pde.2, h.pte.1, h.pte.2]
  rfl

/-- `paging_unmap_page` of the scratch address. -/
theorem Opened.unmap (hrec : m.Recursive) :
    pagingUnmapPage m scratchAddress false =
      some (true, m.write scratch (update (m.mem scratch) 0 0#32)) := by
  obtain ⟨hd, ht, -⟩ := scratch_index 0 (by decide)
  have hpde : (m.mem m.directory scratchIndex).has pagePresent = true := by
    rw [h.directory]
    exact h.pde.1
  have hframe : frameOf (m.mem m.directory scratchIndex) = scratch := by
    rw [h.directory]
    exact h.pde.2
  have haligned : ¬scratchAddress % pageSize ≠ 0 := by decide
  have hne : scratchIndex ≠ recursiveDirectoryIndex := by decide
  rw [pagingUnmapPage]
  change (if scratchAddress % pageSize ≠ 0 then _ else
    if pageDirectoryIndex (scratchAddress + 4 * 0) = recursiveDirectoryIndex then _ else _) = _
  rw [if_neg haligned, hd, if_neg hne]
  show (do
    let pde ← m.load (directoryEntry (pageDirectoryIndex (scratchAddress + 4 * 0)))
    _) = _
  rw [hd, load_directoryEntry hrec (by decide)]
  show (if (m.mem m.directory scratchIndex).has pagePresent = false then _ else _) = _
  rw [hpde, if_neg nofun]
  show (do
    let pte ← m.load (tableEntry (pageDirectoryIndex (scratchAddress + 4 * 0))
      (pageTableIndex (scratchAddress + 4 * 0)))
    _) = _
  rw [hd, ht, load_tableEntry hrec (by decide) (by decide) hpde, hframe]
  show (if (m.mem scratch 0).has pagePresent = false then _ else _) = _
  rw [h.pte.1, if_neg nofun]
  show (do
    let m ← m.store (tableEntry (pageDirectoryIndex (scratchAddress + 4 * 0))
      (pageTableIndex (scratchAddress + 4 * 0))) 0#32
    _) = _
  rw [hd, ht, store_tableEntry hrec (by decide) (by decide) hpde, hframe]
  rfl

end

/-- The kernel directory is active and its scratch slot is free. -/
structure ScratchReady (m : Machine) (k scratch : Nat) : Prop where
  directory : m.directory = k
  ok : DirectoryOk m k
  pde : (m.mem k scratchIndex).has pagePresent = true ∧ frameOf (m.mem k scratchIndex) = scratch
  free : (m.mem scratch 0).has pagePresent = false

theorem ScratchReady.scratch_used (h : ScratchReady m k scratch) : m.used scratch = true := by
  have hused := h.ok.tableUsed scratchIndex (by decide) h.pde.1
  rwa [h.pde.2] at hused

end MeatySkeleton.Paging
