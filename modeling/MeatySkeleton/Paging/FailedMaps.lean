import MeatySkeleton.Lib.Flags
import MeatySkeleton.Paging.AddressMap

/-!
# Mappings that are refused

`paging_map_page` prepares the directory entry before it looks at the page: an existing entry
is made writable, and a user entry for a user page. If the page is mapped already, the call
returns `false` and the entry stays as it was prepared. `Widens` is the state and the
arguments in which that changes the entry; every other refusal leaves the machine as it is.

The tables need no more shape here than the recursive entry through which the code reaches
them.
-/

namespace MeatySkeleton.Paging

open Function Option Lib

variable {m m' : Machine} {d t v p table : Nat} {flags pde w : Word}

/-! ## Flags of an entry -/

theorem or_pageUser : w ||| pageUser = w ↔ w.has pageUser = true :=
  or_twoPow_eq_iff (i := 2) (by decide)

theorem or_pageWritable : w ||| pageWritable = w ↔ w.has pageWritable = true :=
  or_twoPow_eq_iff (i := 1) (by decide)

/-- A directory entry that a mapping leaves as it is. -/
theorem raisedPde_eq_iff : raisedPde flags pde = pde ↔
    pde.has pageWritable = true ∧ (flags.has pageUser = true → pde.has pageUser = true) := by
  constructor
  · intro he
    refine ⟨he ▸ raisedPde_writable flags pde, fun hu => ?_⟩
    rw [← he, raisedPde_user, hu, Bool.or_true]
  · intro ⟨hw, hu⟩
    rw [raisedPde]
    split
    next hf => rw [or_pageUser.mpr (hu hf), or_pageWritable.mpr hw]
    next => rw [or_pageWritable.mpr hw]

/-! ## Refusals -/

/-- Both addresses are aligned, and the page is not one of the page tables. -/
def Mappable (v p : Nat) : Prop :=
  v % pageSize = 0 ∧ p % pageSize = 0 ∧ pageDirectoryIndex v ≠ recursiveDirectoryIndex

/-- The page is mapped. -/
def Occupied (m : Machine) (v : Nat) : Prop :=
  (m.mem m.directory (pageDirectoryIndex v)).has pagePresent = true ∧
    (m.mem (frameOf (m.mem m.directory (pageDirectoryIndex v))) (pageTableIndex v)).has
      pagePresent = true

/-- The directory entry of an occupied page lacks a permission that the mapping needs. -/
def Widens (m : Machine) (v p : Nat) (flags : Word) : Prop :=
  Mappable v p ∧ Occupied m v ∧
    ((m.mem m.directory (pageDirectoryIndex v)).has pageWritable = false ∨
      (flags.has pageUser = true ∧ (m.mem m.directory (pageDirectoryIndex v)).has pageUser = false))

/-- The machine with a raised directory entry. -/
def Machine.raise (m : Machine) (d : Nat) (flags : Word) : Machine :=
  m.write m.directory (update (m.mem m.directory) d (raisedPde flags (m.mem m.directory d)))

theorem raise_eq_iff : m.raise d flags = m ↔
    raisedPde flags (m.mem m.directory d) = m.mem m.directory d := by
  constructor
  · intro he
    have hentry : (m.raise d flags).mem m.directory d = m.mem m.directory d := by rw [he]
    rwa [Machine.raise, write_self, update_self] at hentry
  · intro he
    rw [Machine.raise, he, update_eq_self, write_same]

/-- An entry of the machine with a raised directory entry is present as before. -/
theorem raise_present (m : Machine) (d : Nat) (flags : Word) (f t : Nat) :
    ((m.raise d flags).mem f t).has pagePresent = (m.mem f t).has pagePresent := by
  rw [Machine.raise]
  by_cases hf : f = m.directory
  · subst hf
    rw [write_self]
    by_cases ht : t = d
    · subst ht
      rw [update_self, raisedPde_present]
    · rw [update_of_ne ht]
  · rw [write_ne hf]

theorem raise_recursive (h : m.Recursive) (hd : d ≠ recursiveDirectoryIndex) :
    (m.raise d flags).Recursive := by
  have hrow : (m.raise d flags).mem m.directory recursiveDirectoryIndex =
      m.mem m.directory recursiveDirectoryIndex := by
    rw [Machine.raise, write_self, update_of_ne (Ne.symm hd)]
  change ((m.raise d flags).mem m.directory recursiveDirectoryIndex).has pagePresent = true ∧
    frameOf ((m.raise d flags).mem m.directory recursiveDirectoryIndex) = m.directory
  rw [hrow]
  exact h

/-- The test for an existing mapping behind a directory entry that is present. -/
theorem installPage_raised (h : m.Recursive) (hd : d < 1024) (hne : d ≠ recursiveDirectoryIndex)
    (ht : t < 1024) (hp : (m.mem m.directory d).has pagePresent = true) :
    (installPage (m.raise d flags) d t p flags = some (false, m') ↔
      (m.mem (frameOf (m.mem m.directory d)) t).has pagePresent = true ∧
        m' = m.raise d flags) := by
  have hrec : (m.raise d flags).Recursive := raise_recursive h hne
  have hpde : (m.raise d flags).mem (m.raise d flags).directory d =
      raisedPde flags (m.mem m.directory d) := by
    rw [Machine.raise, write_directory, write_self, update_self]
  have hpresent : ((m.raise d flags).mem (m.raise d flags).directory d).has pagePresent = true := by
    rw [hpde, raisedPde_present, hp]
  have hpte := raise_present m d flags (frameOf (m.mem m.directory d)) t
  rw [installPage, load_tableEntry hrec hd ht hpresent, hpde, raisedPde_frame]
  show (if ((m.raise d flags).mem _ t).has pagePresent = true then _ else _) = _ ↔ _
  rw [hpte]
  cases (m.mem (frameOf (m.mem m.directory d)) t).has pagePresent with
  | true =>
    rw [if_pos rfl]
    constructor
    · intro he
      exact ⟨rfl, (congrArg Prod.snd (some.inj he)).symm⟩
    · rintro ⟨-, rfl⟩
      rfl
  | false =>
    rw [if_neg Bool.false_ne_true]
    constructor
    · intro he
      obtain ⟨m'', -, hdone⟩ := bind_eq_some_iff.mp he
      cases hdone
    · rintro ⟨hfalse, -⟩
      cases hfalse

/-- The test in a table that has just been cleared. -/
theorem installPage_cleared (h : m.Recursive) (hd : d < 1024) (ht : t < 1024)
    (hp : (m.mem m.directory d).has pagePresent = true)
    (hclear : m.mem (frameOf (m.mem m.directory d)) t = 0#32) :
    installPage m d t p flags ≠ some (false, m') := by
  intro he
  rw [installPage, load_tableEntry h hd ht hp, hclear] at he
  obtain ⟨pte, hpte, hrest⟩ := bind_eq_some_iff.mp he
  obtain rfl := some.inj hpte
  rw [zero_not_present, if_neg Bool.false_ne_true] at hrest
  obtain ⟨m'', -, hdone⟩ := bind_eq_some_iff.mp hrest
  cases hdone

/-- A new page table is empty, so a page under it is never refused. -/
theorem newTable_accepts (h : m.Recursive) (hd : d < 1023) (ht : t < 1024)
    (hlt : table < frameCount) :
    (do
      let m ← m.store (directoryEntry d) (tablePde table flags)
      let m ← m.editPage (tableEntry d 0) zeroPage
      installPage m d t p flags) ≠ some (false, m') := by
  have hd' : d < 1024 := Nat.lt_succ_of_lt hd
  change ((m.store (directoryEntry d) (tablePde table flags)).bind fun m =>
    (m.editPage (tableEntry d 0) zeroPage).bind fun m => installPage m d t p flags) ≠ _
  rw [← bind_assoc, emptyTable_eq h rfl hd hlt, bind_some]
  by_cases hne : table = m.directory
  · -- the directory itself has been cleared: the entry is out of reach
    have hgone : ((m.write m.directory (update (m.mem m.directory) d
        (tablePde table flags))).write table fun _ => 0#32).load (tableEntry d t) = none := by
      rw [Machine.load, Machine.translate, write_directory, write_directory, ← hne, write_self,
        zero_not_present]
      rfl
    rw [installPage, hgone]
    intro h
    cases h
  · generalize hw : (m.write m.directory (update (m.mem m.directory) d
      (tablePde table flags))).write table (fun _ => 0#32) = m1
    have hdir : m1.mem m.directory = update (m.mem m.directory) d (tablePde table flags) := by
      rw [← hw, write_ne (Ne.symm hne), write_self]
    obtain ⟨hpde, hrec⟩ := pde_entered h hd hdir (by rw [← hw]; rfl)
    refine installPage_cleared hrec hd' ht (by rw [hpde]; exact tablePde_present ..) ?_
    rw [hpde, tablePde_frame hlt, ← hw, write_self]

/-- When `paging_map_page` returns `false`, and what it leaves. -/
theorem pagingMapPage_false_iff (h : m.Recursive) (v p : Nat) (flags : Word) (m' : Machine) :
    pagingMapPage m v p flags = some (false, m') ↔ (¬Mappable v p ∧ m' = m) ∨
      (Mappable v p ∧ (m.mem m.directory (pageDirectoryIndex v)).has pagePresent = false ∧
        freeFrames m.used = 0 ∧ m' = m) ∨
      (Mappable v p ∧ Occupied m v ∧ m' = m.raise (pageDirectoryIndex v) flags) := by
  unfold Mappable Occupied
  have hlt : pageDirectoryIndex v < 1024 := Nat.mod_lt _ (by decide)
  have ht : pageTableIndex v < 1024 := Nat.mod_lt _ (by decide)
  generalize hdi : pageDirectoryIndex v = d at *
  generalize hti : pageTableIndex v = t at *
  have hunchanged : some (false, m) = some (false, m') ↔ m' = m := by
    rw [some.injEq, Prod.mk.injEq, eq_self, true_and]
    exact eq_comm
  rw [pagingMapPage, hdi, hti]
  dsimp only
  by_cases hv : v % pageSize = 0
  case neg => simp only [ne_eq, hv, not_false_eq_true, if_true, hunchanged, false_and, true_and, or_false]
  by_cases hp : p % pageSize = 0
  case neg => simp only [ne_eq, hv, hp, not_true_eq_false, not_false_eq_true, if_true, if_false,
    hunchanged, false_and, and_false, true_and, or_false]
  by_cases hne : d = recursiveDirectoryIndex
  case pos => simp only [ne_eq, hv, hp, hne, not_true_eq_false, not_false_eq_true, if_true,
    if_false, hunchanged, false_and, and_false, true_and, or_false]
  rw [if_neg (not_not.mpr hv), if_neg (not_not.mpr hp), if_neg hne, load_directoryEntry h hlt]
  have hd : d < 1023 := Nat.lt_of_le_of_ne (Nat.le_of_lt_succ hlt) hne
  show (if (m.mem m.directory d).has pagePresent = false then _ else _) = _ ↔ _
  cases hpresent : (m.mem m.directory d).has pagePresent with
  | false =>
    rw [if_pos rfl]
    rcases pmmAllocateFrame_cases m with ⟨hnone, hzero⟩ | ⟨table, hsome, -, htable, -, hcount⟩
    · rw [hnone]
      change some (false, m) = _ ↔ _
      simp only [hunchanged, hzero, hv, hp, hne, ne_eq, not_false_eq_true, not_true_eq_false, and_self, true_and, false_and,
        and_false, false_or, or_false, Bool.false_eq_true]
    · have hsome' : freeFrames m.used ≠ 0 := by omega
      rw [hsome]
      constructor
      · intro he
        exact absurd he (newTable_accepts (m := m.markUsed table) h hd ht htable)
      · rintro (⟨hno, -⟩ | ⟨-, -, hzero, -⟩ | ⟨-, ⟨hocc, -⟩, -⟩)
        · exact absurd ⟨hv, hp, hne⟩ hno
        · exact absurd hzero hsome'
        · cases hocc
  | true =>
    rw [if_neg (by decide)]
    have hstore : m.store (directoryEntry d) (raisedPde flags (m.mem m.directory d)) =
        some (m.raise d flags) := store_directoryEntry h hlt _
    show (m.store (directoryEntry d) (raisedPde flags (m.mem m.directory d))).bind _ = _ ↔ _
    rw [hstore, bind_some, installPage_raised h hlt hne ht hpresent]
    simp only [hv, hp, hne, ne_eq, not_false_eq_true, not_true_eq_false, and_self, true_and,
      false_and, false_or, Bool.true_eq_false]

/-- The refusals of `paging_map_page` that leave the machine as it is. -/
theorem pagingMapPage_refused_iff (h : m.Recursive) (v p : Nat) (flags : Word) :
    (∀ m', pagingMapPage m v p flags = some (false, m') → m' = m) ↔ ¬Widens m v p flags := by
  simp only [pagingMapPage_false_iff h]
  constructor
  · intro hall ⟨hmappable, hoccupied, hwidens⟩
    have hsame := raise_eq_iff.mp (hall _ (.inr (.inr ⟨hmappable, hoccupied, rfl⟩)))
    obtain ⟨hw, hu⟩ := raisedPde_eq_iff.mp hsame
    rcases hwidens with hno | ⟨hf, hno⟩
    · exact absurd (hw.symm.trans hno) nofun
    · exact absurd ((hu hf).symm.trans hno) nofun
  · rintro hno m' (⟨-, he⟩ | ⟨-, -, -, he⟩ | ⟨hmappable, hoccupied, rfl⟩)
    · exact he
    · exact he
    · rw [raise_eq_iff, raisedPde_eq_iff]
      constructor
      · cases hw : (m.mem m.directory (pageDirectoryIndex v)).has pageWritable with
        | true => rfl
        | false => exact absurd ⟨hmappable, hoccupied, .inl hw⟩ hno
      · intro hf
        cases hu : (m.mem m.directory (pageDirectoryIndex v)).has pageUser with
        | true => rfl
        | false => exact absurd ⟨hmappable, hoccupied, .inr ⟨hf, hu⟩⟩ hno

/-- A kernel page of the machine at its start is mapped once more. -/
theorem pagingMapPage_refused_iff_booted :
    (∀ m', pagingMapPage booted 0x1000 0x5000 pageWritable = some (false, m') → m' = booted) ↔
      ¬Widens booted 0x1000 0x5000 pageWritable :=
  pagingMapPage_refused_iff ⟨by decide +kernel, by decide +kernel⟩ ..

/-- And as a user page: the call is refused, and the kernel's first directory entry has become a
user entry. -/
theorem pagingMapPage_refused_changes : ∃ m', booted.Recursive ∧
    pagingMapPage booted 0x1000 0x5000 pageUser = some (false, m') ∧
    (booted.mem booted.directory 0).has pageUser = false ∧
    (m'.mem m'.directory 0).has pageUser = true := by
  have hrec : booted.Recursive := ⟨by decide +kernel, by decide +kernel⟩
  refine ⟨booted.raise 0 pageUser, hrec, ?_, by decide +kernel, by decide +kernel⟩
  refine (pagingMapPage_false_iff hrec ..).mpr (.inr (.inr ⟨?_, ?_, rfl⟩))
  · exact ⟨by decide, by decide, by decide⟩
  · exact ⟨by decide +kernel, by decide +kernel⟩

end MeatySkeleton.Paging
