import MeatySkeleton.Lib.Refinement
import MeatySkeleton.Paging.Lifecycle

/-!
# The page tables as a map of pages

What mapping, unmapping and the queries of `paging.c` do, seen from outside: a
partial map from virtual pages to a frame and the permissions that take effect,
those both levels of the tables agree on. The upper level is shared by 1024 pages
and is widened by `paging_map_page`; `Space` carries what keeps the neighbours'
permissions as they are: every directory entry in use is writable, and one with a
user page under it is a user entry already.
-/

namespace MeatySkeleton.Paging

open Function Lib

/-! ## The queries -/

/-- The entries of both levels, as the queries look them up; their own results
are `false` when there is none. -/
def lookUp (m : Machine) (virtualAddress : Nat) : Option (Option (Word × Word)) :=
  let d := pageDirectoryIndex virtualAddress
  let t := pageTableIndex virtualAddress
  if d = recursiveDirectoryIndex then some none
  else do
    let pde ← m.load (directoryEntry d)
    if pde.has pagePresent = false then return none
    else
      let pte ← m.load (tableEntry d t)
      if pte.has pagePresent = false then return none
      else return some (pde, pte)

/-- `paging_get_physical_address`; `none` inside is its result `false`. -/
def pagingGetPhysicalAddress (m : Machine) (virtualAddress : Nat) : Option (Option Nat) := do
  let entries ← lookUp m virtualAddress
  return entries.map fun (_, pte) => (pte &&& pageFrame).toNat + virtualAddress % pageSize

/-- `paging_is_mapped`. -/
def pagingIsMapped (m : Machine) (virtualAddress : Nat) : Option Bool := do
  let entries ← lookUp m virtualAddress
  return entries.isSome

/-- The flags word for the permissions that take effect. -/
def effectiveFlags (user writable : Bool) : Word :=
  pagePresent ||| (if user then pageUser else 0#32) ||| (if writable then pageWritable else 0#32)

/-- `paging_get_effective_flags`. -/
def pagingGetEffectiveFlags (m : Machine) (virtualAddress : Nat) : Option (Option Word) := do
  let entries ← lookUp m virtualAddress
  return entries.map fun (pde, pte) => effectiveFlags (pde.has pageUser && pte.has pageUser)
    (pde.has pageWritable && pte.has pageWritable)

/-- `paging_initialize`: `page_directory` and `first_page_table` are in the frames
`directory` and `table` of the kernel's image. -/
def pagingInitialize (m : Machine) (directory table : Nat) : Machine :=
  let flags := pagePresent ||| pageWritable
  let m := m.write table fun i => if i < 1024 then entryFor (i * pageSize) flags else 0#32
  let m := m.write directory (update
    (update (fun _ => 0#32) 0 (entryFor (table * pageSize) flags))
    recursiveDirectoryIndex (entryFor (directory * pageSize) flags))
  { m with cr3 := directory * pageSize, kernelDirectory := directory * pageSize }

/-! ## Calls -/

inductive Call where
  | mapPage (virtualAddress physicalAddress flags : Word)
  | unmapPage (virtualAddress : Word) (releaseFrame : Bool)
  | getPhysicalAddress (virtualAddress : Word)
  | isMapped (virtualAddress : Word)
  | getEffectiveFlags (virtualAddress : Word)
  /-- The rest of the kernel writes memory, takes frames and gives some back. -/
  | elsewhere (mem : Nat → Nat → Word) (used : Nat → Bool)

inductive Answer where
  | done (ok : Bool)
  | address (a : Option Nat)
  | flags (w : Option Word)
  | silent
deriving DecidableEq

def Call.step (m : Machine) : Call → Option (Answer × Machine)
  | .mapPage v p flags => do
    let (ok, m) ← pagingMapPage m v.toNat p.toNat flags
    return (.done ok, m)
  | .unmapPage v release => do
    let (ok, m) ← pagingUnmapPage m v.toNat release
    return (.done ok, m)
  | .getPhysicalAddress v => do
    let a ← pagingGetPhysicalAddress m v.toNat
    return (.address a, m)
  | .isMapped v => do
    let b ← pagingIsMapped m v.toNat
    return (.done b, m)
  | .getEffectiveFlags v => do
    let w ← pagingGetEffectiveFlags m v.toNat
    return (.flags w, m)
  | .elsewhere mem used => some (.silent, { m with mem := mem, used := used })

/-! ## The map of pages -/

/-- A frame, and whether user code may access and anyone may write the page. -/
abbrev Page := Nat × Bool × Bool

/-- The number of pages below the window on the page tables. -/
def pageCount : Nat := 1023 * 1024

/-- What the tables say about the page with number `n`. -/
def pageMap (m : Machine) (dir n : Nat) : Option Page :=
  if n < pageCount then mapping m dir (n * pageSize) else none

structure View where
  page : Nat → Option Page
  /-- The pages that need a page table when there is no frame left for one. -/
  starved : Nat → Prop

def view (dir : Nat) (m : Machine) : View where
  page := pageMap m dir
  starved n := (m.mem dir (n / 1024)).has pagePresent = false ∧ freeFrames m.used = 0

def pageOf (v : Word) : Nat := v.toNat / pageSize

def Aligned (v : Word) : Prop := v.toNat % pageSize = 0

/-- What each call does to the map of pages, and what it answers. -/
inductive Effect (s : View) : Call → Answer → View → Prop
  | mapped {v p flags : Word} {s' : View} : Aligned v → Aligned p → pageOf v < pageCount →
      s.page (pageOf v) = none → ¬s.starved (pageOf v) →
      s'.page = update s.page (pageOf v)
        (some (pageOf p, flags.has pageUser, flags.has pageWritable)) →
      Effect s (.mapPage v p flags) (.done true) s'
  | refused {v p flags : Word} {s' : View} : (Aligned v → Aligned p → pageOf v < pageCount →
      s.page (pageOf v) ≠ none ∨ s.starved (pageOf v)) → s'.page = s.page →
      Effect s (.mapPage v p flags) (.done false) s'
  | unmapped {v : Word} {release : Bool} {s' : View} : Aligned v → s.page (pageOf v) ≠ none →
      s'.page = update s.page (pageOf v) none →
      Effect s (.unmapPage v release) (.done true) s'
  | absent {v : Word} {release : Bool} {s' : View} : (Aligned v → s.page (pageOf v) = none) →
      s'.page = s.page → Effect s (.unmapPage v release) (.done false) s'
  | physicalAddress {v : Word} : Effect s (.getPhysicalAddress v)
      (.address ((s.page (pageOf v)).map fun (frame, _, _) =>
        frame * pageSize + v.toNat % pageSize)) s
  | isMapped {v : Word} : Effect s (.isMapped v) (.done (s.page (pageOf v)).isSome) s
  | effectiveFlags {v : Word} : Effect s (.getEffectiveFlags v)
      (.flags ((s.page (pageOf v)).map fun (_, user, writable) =>
        Paging.effectiveFlags user writable)) s
  | elsewhere {mem : Nat → Nat → Word} {used : Nat → Bool} {s' : View} : s'.page = s.page →
      Effect s (.elsewhere mem used) .silent s'

/-- The directory and its page tables. -/
def TableFrame (m : Machine) (dir x : Nat) : Prop :=
  x = dir ∨ ∃ d, d < 1023 ∧ (m.mem dir d).has pagePresent = true ∧ x = frameOf (m.mem dir d)

/-- Nobody frees or writes a frame that is in use for the tables themselves. -/
def Call.Admissible (dir : Nat) (m : Machine) : Call → Prop
  | .unmapPage v true => ∀ p, pageMap m dir (pageOf v) = some p → ¬TableFrame m dir p.1
  | .elsewhere mem used => ∀ x, TableFrame m dir x → mem x = m.mem x ∧ used x = true
  | _ => True

/-! ## Address spaces -/

structure Space (m : Machine) (dir : Nat) : Prop where
  directory : m.directory = dir
  ok : DirectoryOk m dir
  writable : ∀ d, d < 1023 → (m.mem dir d).has pagePresent = true →
    (m.mem dir d).has pageWritable = true
  user : ∀ d t, d < 1023 → t < 1024 → (m.mem dir d).has pagePresent = true →
    (m.mem (frameOf (m.mem dir d)) t).has pagePresent = true →
    (m.mem (frameOf (m.mem dir d)) t).has pageUser = true → (m.mem dir d).has pageUser = true

variable {m m' : Machine} {dir d t f table : Nat} {flags : Word}

/-- The page an address is in, by its entries in the tables. -/
theorem pageOf_spec (v : Word) : pageOf v = pageDirectoryIndex v.toNat * 1024 +
    pageTableIndex v.toNat ∧ pageDirectoryIndex v.toNat < 1024 ∧ pageTableIndex v.toNat < 1024 := by
  have hlt : v.toNat < 2 ^ 32 := v.isLt
  rw [pageOf, pageDirectoryIndex, pageTableIndex, pageSize]
  omega

theorem page_index {n : Nat} (hn : n < pageCount) :
    pageDirectoryIndex (n * pageSize) = n / 1024 ∧ pageTableIndex (n * pageSize) = n % 1024 ∧
      n / 1024 < 1023 := by
  rw [pageCount] at hn
  rw [pageDirectoryIndex, pageTableIndex, pageSize]
  omega

/-- A mapping only depends on the two entries of its address. -/
theorem mapping_index {v w : Nat} (hd : pageDirectoryIndex v = pageDirectoryIndex w)
    (ht : pageTableIndex v = pageTableIndex w) : mapping m dir v = mapping m dir w := by
  unfold mapping
  rw [hd, ht]

theorem pageMap_pageOf (v : Word) : pageMap m dir (pageOf v) =
    if pageDirectoryIndex v.toNat < 1023 then mapping m dir v.toNat else none := by
  obtain ⟨hpage, hd, ht⟩ := pageOf_spec v
  have hcount : pageOf v < pageCount ↔ pageDirectoryIndex v.toNat < 1023 := by
    rw [pageCount]
    omega
  rw [pageMap]
  by_cases hlow : pageDirectoryIndex v.toNat < 1023
  · obtain ⟨hd', ht', -⟩ := page_index (hcount.mpr hlow)
    rw [if_pos hlow, if_pos (hcount.mpr hlow)]
    exact mapping_index (by omega) (by omega)
  · rw [if_neg hlow, if_neg (hcount.not.mpr hlow)]

variable {v : Word}

/-- An edit of one entry is an edit of the map at one page. -/
theorem pageMap_update (hd : pageDirectoryIndex v.toNat < 1023) {p : Option Page}
    (hself : mapping m' dir v.toNat = p)
    (hother : ∀ w, pageDirectoryIndex w < 1023 →
      (pageDirectoryIndex w = pageDirectoryIndex v.toNat → pageTableIndex w ≠ pageTableIndex v.toNat) →
      mapping m' dir w = mapping m dir w) :
    pageMap m' dir = update (pageMap m dir) (pageOf v) p := by
  obtain ⟨hpage, -, ht⟩ := pageOf_spec v
  funext n
  by_cases hn : n = pageOf v
  · subst hn
    rw [update_self, pageMap_pageOf, if_pos hd, hself]
  · rw [update_of_ne hn, pageMap, pageMap]
    by_cases hcount : n < pageCount
    · obtain ⟨hd', ht', hlow⟩ := page_index hcount
      rw [if_pos hcount, if_pos hcount]
      refine hother _ (by omega) fun he hte => ?_
      omega
    · rw [if_neg hcount, if_neg hcount]

theorem pageMap_congr (h : ∀ w, pageDirectoryIndex w < 1023 → mapping m' dir w = mapping m dir w) :
    pageMap m' dir = pageMap m dir := by
  funext n
  rw [pageMap, pageMap]
  by_cases hcount : n < pageCount
  · obtain ⟨hd, -, hlow⟩ := page_index hcount
    rw [if_pos hcount, if_pos hcount]
    exact h _ (by omega)
  · rw [if_neg hcount, if_neg hcount]

/-! ## The flags of the entries -/

theorem mapFlags_has {flag : Word} (hflag : pageMapFlags &&& flag = flag) (w : Word) :
    (w &&& pageMapFlags).has flag = w.has flag := by
  rw [Word.has, Word.has, BitVec.and_assoc, hflag]

theorem pageEntry_user (frame : Nat) (flags : Word) :
    (pageEntry frame flags).has pageUser = flags.has pageUser := by
  have hp : pagePresent.has pageUser = false := by decide
  rw [pageEntry, entryFor_has _ _ (by decide), Word.has_or, hp, Bool.false_or,
    mapFlags_has (by decide)]

theorem pageEntry_writable (frame : Nat) (flags : Word) :
    (pageEntry frame flags).has pageWritable = flags.has pageWritable := by
  have hp : pagePresent.has pageWritable = false := by decide
  rw [pageEntry, entryFor_has _ _ (by decide), Word.has_or, hp, Bool.false_or,
    mapFlags_has (by decide)]

theorem tablePde_writable (frame : Nat) (flags : Word) :
    (tablePde frame flags).has pageWritable = true := by
  rw [tablePde, entryFor_has _ _ (by decide)]
  split <;> decide

theorem raisedPde_writable (flags pde : Word) : (raisedPde flags pde).has pageWritable = true := by
  have hw : pageWritable.has pageWritable = true := by decide
  rw [raisedPde, Word.has_or, hw, Bool.or_true]

/-! ## The edits -/

/-- The mapping behind two entries, the upper one present and, as in every
address space, writable and a user entry if need be. -/
theorem mapping_eq {v : Nat} (hp : (m.mem dir (pageDirectoryIndex v)).has pagePresent = true)
    (hw : (m.mem dir (pageDirectoryIndex v)).has pageWritable = true) {e : Word}
    (he : m.mem (frameOf (m.mem dir (pageDirectoryIndex v))) (pageTableIndex v) = e)
    (hu : e.has pagePresent = true → e.has pageUser = true →
      (m.mem dir (pageDirectoryIndex v)).has pageUser = true) :
    mapping m dir v = if e.has pagePresent then
      some (frameOf e, e.has pageUser, e.has pageWritable) else none := by
  unfold mapping
  dsimp only
  rw [he, hp, hw, Bool.true_and, Bool.true_and]
  cases hpe : e.has pagePresent with
  | false => rfl
  | true =>
    cases hue : e.has pageUser with
    | false => rw [Bool.and_false]
    | true => rw [hu hpe hue, Bool.true_and]

theorem mapping_absent {v : Nat} (hp : (m.mem dir (pageDirectoryIndex v)).has pagePresent = false) :
    mapping m dir v = none := by
  unfold mapping
  dsimp only
  rw [hp, Bool.false_and]
  rfl

section

variable (h : Space m dir)

include h

/-- The entry of one page is written. -/
theorem Space.setEntry (hd : d < 1023)
    (hp : (m.mem dir d).has pagePresent = true) (t : Nat) {e : Word}
    (hu : e.has pagePresent = true → e.has pageUser = true → (m.mem dir d).has pageUser = true) :
    Space (m.write (frameOf (m.mem dir d)) (update (m.mem (frameOf (m.mem dir d))) t e))
      dir := by
  have hdir : (m.write (frameOf (m.mem dir d))
      (update (m.mem (frameOf (m.mem dir d))) t e)).mem dir = m.mem dir :=
    write_ne (h.ok.tableNe d hd hp).symm
  refine ⟨h.directory, ?_, ?_, ?_⟩
  · exact h.ok.congr (fun _ hx => .inl hx) fun i => by
      rw [hdir]
      exact ⟨rfl, rfl⟩
  · intro i hi hpi
    rw [hdir] at hpi ⊢
    exact h.writable i hi hpi
  · intro i u hi hut hpi hpu huu
    rw [hdir] at hpi hpu huu ⊢
    by_cases hid : i = d
    · subst hid
      rw [write_self] at hpu huu
      by_cases htu : u = t
      · subst htu
        rw [update_self] at hpu huu
        exact hu hpu huu
      · rw [update_of_ne htu] at hpu huu
        exact h.user i u hi hut hpi hpu huu
    · have hne : frameOf (m.mem dir i) ≠ frameOf (m.mem dir d) := fun he =>
        hid (h.ok.distinct i d hi hd hpi hp he)
      rw [write_ne hne] at hpu huu
      exact h.user i u hi hut hpi hpu huu

/-- The map of pages after the entry of one page was written. -/
theorem Space.pageMap_setEntry
    (hd : pageDirectoryIndex v.toNat < 1023)
    (hp : (m.mem dir (pageDirectoryIndex v.toNat)).has pagePresent = true) {e : Word}
    (hu : e.has pagePresent = true → e.has pageUser = true →
      (m.mem dir (pageDirectoryIndex v.toNat)).has pageUser = true) :
    pageMap (m.write (frameOf (m.mem dir (pageDirectoryIndex v.toNat)))
      (update (m.mem (frameOf (m.mem dir (pageDirectoryIndex v.toNat))))
        (pageTableIndex v.toNat) e)) dir = update (pageMap m dir) (pageOf v)
          (if e.has pagePresent then some (frameOf e, e.has pageUser, e.has pageWritable)
            else none) := by
  generalize hm' : m.write (frameOf (m.mem dir (pageDirectoryIndex v.toNat)))
    (update (m.mem (frameOf (m.mem dir (pageDirectoryIndex v.toNat))))
      (pageTableIndex v.toNat) e) = m'
  have hdir : m'.mem dir = m.mem dir := by
    rw [← hm', write_ne (h.ok.tableNe _ hd hp).symm]
  have hrow : m'.mem (frameOf (m.mem dir (pageDirectoryIndex v.toNat))) =
      update (m.mem (frameOf (m.mem dir (pageDirectoryIndex v.toNat))))
        (pageTableIndex v.toNat) e := by
    rw [← hm', write_self]
  refine pageMap_update hd ?_ ?_
  · apply mapping_eq
    · rw [hdir, hp]
    · rw [hdir]
      exact h.writable _ hd hp
    · rw [hdir, hrow, update_self]
    · rw [hdir]
      exact hu
  · intro w hw hne
    unfold mapping
    dsimp only
    rw [hdir]
    cases hpw : (m.mem dir (pageDirectoryIndex w)).has pagePresent with
    | false => rfl
    | true =>
      by_cases hwd : pageDirectoryIndex w = pageDirectoryIndex v.toNat
      · rw [hwd, hrow, update_of_ne (hne hwd)]
      · have hframe : frameOf (m.mem dir (pageDirectoryIndex w)) ≠
            frameOf (m.mem dir (pageDirectoryIndex v.toNat)) := fun he =>
          hwd (h.ok.distinct _ _ hw hd hpw hp he)
        rw [← hm', write_ne hframe]

/-- Raising a directory entry in use changes no page: the permissions it adds are
not in the page's own entry, or in effect already. -/
theorem Space.raised (hd : d < 1023) (hp : (m.mem dir d).has pagePresent = true)
    (flags : Word) :
    Space (m.write dir (update (m.mem dir) d (raisedPde flags (m.mem dir d)))) dir ∧
      pageMap (m.write dir (update (m.mem dir) d (raisedPde flags (m.mem dir d)))) dir =
        pageMap m dir := by
  generalize hm' : m.write dir (update (m.mem dir) d (raisedPde flags (m.mem dir d))) = m'
  have hrow : m'.mem dir = update (m.mem dir) d (raisedPde flags (m.mem dir d)) := by
    rw [← hm', write_self]
  have hpde : ∀ i, (m'.mem dir i).has pagePresent = (m.mem dir i).has pagePresent ∧
      frameOf (m'.mem dir i) = frameOf (m.mem dir i) := by
    intro i
    rw [hrow]
    exact update_raised _ d flags i
  have htable : ∀ i, i < 1023 → (m.mem dir i).has pagePresent = true →
      m'.mem (frameOf (m.mem dir i)) = m.mem (frameOf (m.mem dir i)) := by
    intro i hi hpi
    rw [← hm', write_ne (h.ok.tableNe i hi hpi)]
  have hwritable : ∀ i, i < 1023 → (m.mem dir i).has pagePresent = true →
      (m'.mem dir i).has pageWritable = true := by
    intro i hi hpi
    rw [hrow]
    by_cases hid : i = d
    · subst hid
      rw [update_self, raisedPde_writable]
    · rw [update_of_ne hid]
      exact h.writable i hi hpi
  have huser : ∀ i, (m.mem dir i).has pageUser = true → (m'.mem dir i).has pageUser = true := by
    intro i hui
    rw [hrow]
    by_cases hid : i = d
    · subst hid
      rw [update_self, raisedPde_user, hui, Bool.true_or]
    · rw [update_of_ne hid, hui]
  refine ⟨⟨?_, ?_, ?_, ?_⟩, ?_⟩
  · rw [← hm']
    exact h.directory
  · refine h.ok.congr (fun x hx => .inl ?_) hpde
    rw [← hm']
    exact hx
  · intro i hi hpi
    rw [(hpde i).1] at hpi
    exact hwritable i hi hpi
  · intro i u hi hut hpi hpu huu
    rw [(hpde i).1] at hpi
    rw [(hpde i).2, htable i hi hpi] at hpu huu
    exact huser i (h.user i u hi hut hpi hpu huu)
  · apply pageMap_congr
    intro w hw
    cases hpw : (m.mem dir (pageDirectoryIndex w)).has pagePresent with
    | false =>
      have hpw' : (m'.mem dir (pageDirectoryIndex w)).has pagePresent = false := by
        rw [(hpde _).1, hpw]
      rw [mapping_absent hpw, mapping_absent hpw']
    | true =>
      have hut : pageTableIndex w < 1024 := Nat.mod_lt _ (by decide)
      have hold : (m.mem (frameOf (m.mem dir (pageDirectoryIndex w))) (pageTableIndex w)).has
          pagePresent = true → (m.mem (frameOf (m.mem dir (pageDirectoryIndex w)))
            (pageTableIndex w)).has pageUser = true →
          (m.mem dir (pageDirectoryIndex w)).has pageUser = true := h.user _ _ hw hut hpw
      have he : m'.mem (frameOf (m'.mem dir (pageDirectoryIndex w))) (pageTableIndex w) =
          m.mem (frameOf (m.mem dir (pageDirectoryIndex w))) (pageTableIndex w) := by
        rw [(hpde _).2, htable _ hw hpw]
      rw [mapping_eq hpw (h.writable _ hw hpw) rfl hold,
        mapping_eq (by rw [(hpde _).1, hpw]) (hwritable _ hw hpw) he fun hpu huu =>
          huser _ (hold hpu huu)]

/-- A page is mapped, under a new page table or one that is there. -/
theorem Space.mapped (hd : pageDirectoryIndex v.toNat < 1023)
    (hf : f < 2 ^ 20) (hm : Mapped m dir (pageDirectoryIndex v.toNat) (pageTableIndex v.toNat) f
      flags table m') :
    Space m' dir ∧ pageMap m' dir = update (pageMap m dir) (pageOf v)
      (some (f, flags.has pageUser, flags.has pageWritable)) := by
  generalize hdi : pageDirectoryIndex v.toNat = d at hd hm
  have hwritable : (m'.mem dir d).has pageWritable = true := by
    rcases hm.slot with ⟨-, -, -, -, hpde, -⟩ | ⟨-, -, -, -, hpde, -⟩
    · rw [hpde, raisedPde_writable]
    · rw [hpde, tablePde_writable]
  have huser : flags.has pageUser = true → (m'.mem dir d).has pageUser = true := by
    intro hu
    rcases hm.slot with ⟨-, -, -, -, hpde, -⟩ | ⟨-, -, -, -, hpde, -⟩
    · rw [hpde, raisedPde_user, hu, Bool.or_true]
    · rw [hpde, tablePde_user, hu]
  have hkept : (m.mem dir d).has pagePresent = true → (m.mem dir d).has pageUser = true →
      (m'.mem dir d).has pageUser = true := by
    intro hp hu
    rcases hm.slot with ⟨-, -, -, -, hpde, -⟩ | ⟨habsent, -⟩
    · rw [hpde, raisedPde_user, hu, Bool.true_or]
    · rw [hp] at habsent
      cases habsent
  -- the other entries of the table: those of before, or none
  have hentry : ∀ u, u ≠ pageTableIndex v.toNat →
      (m'.mem table u).has pagePresent = true → (m.mem dir d).has pagePresent = true ∧
        m'.mem table u = m.mem (frameOf (m.mem dir d)) u := by
    intro u hut hpu
    rcases hm.slot with ⟨hp, hframe, -, -, -, hsame⟩ | ⟨-, -, -, -, -, hzero⟩
    · rw [hframe]
      exact ⟨hp, hsame u hut⟩
    · rw [hzero u hut, zero_not_present] at hpu
      cases hpu
  have hnew : (m'.mem table (pageTableIndex v.toNat)).has pageUser = true →
      (m'.mem dir d).has pageUser = true := by
    intro hu
    rw [hm.pte, pageEntry_user] at hu
    exact huser hu
  refine ⟨⟨?_, hm.ok, ?_, ?_⟩, pageMap_update (by rw [hdi]; exact hd) ?_ ?_⟩
  · rw [Machine.directory, hm.cr3]
    exact h.directory
  · intro i hi hpi
    by_cases hid : i = d
    · rw [hid]
      exact hwritable
    · rw [hm.row i hid] at hpi ⊢
      exact h.writable i hi hpi
  · intro i u hi hu hpi hpu huu
    by_cases hid : i = d
    · rw [hid] at hpi hpu huu ⊢
      rw [hm.pde.2] at hpu huu
      by_cases hut : u = pageTableIndex v.toNat
      · rw [hut] at huu
        exact hnew huu
      · obtain ⟨hp, hsame⟩ := hentry u hut hpu
        rw [hsame] at hpu huu
        exact hkept hp (h.user d u hd hu hp hpu huu)
    · rw [hm.row i hid] at hpi hpu huu ⊢
      rw [hm.other_table h.ok hd hi hpi hid] at hpu huu
      exact h.user i u hi hu hpi hpu huu
  · have hpte : m'.mem (frameOf (m'.mem dir (pageDirectoryIndex v.toNat)))
        (pageTableIndex v.toNat) = pageEntry f flags := by
      rw [hdi, hm.pde.2, hm.pte]
    rw [← hdi] at hwritable huser
    rw [mapping_eq (by rw [hdi]; exact hm.pde.1) hwritable hpte fun _ hu =>
      huser (by rw [pageEntry_user] at hu; exact hu), pageEntry_present, if_pos rfl,
      pageEntry_frame hf, pageEntry_user, pageEntry_writable]
  · intro w hw hne
    by_cases hwd : pageDirectoryIndex w = d
    · have hut : pageTableIndex w ≠ pageTableIndex v.toNat := hne (hwd.trans hdi.symm)
      have hlt : pageTableIndex w < 1024 := Nat.mod_lt _ (by decide)
      rcases hm.slot with ⟨hp, hframe, -, -, -, hsame⟩ | ⟨habsent, -, -, -, -, hzero⟩
      · -- the permissions the directory entry gained are not in effect here
        have hold := h.user d _ hd hlt hp
        have he : m'.mem (frameOf (m'.mem dir (pageDirectoryIndex w))) (pageTableIndex w) =
            m.mem (frameOf (m.mem dir (pageDirectoryIndex w))) (pageTableIndex w) := by
          rw [hwd, hm.pde.2, hsame _ hut, hframe]
        rw [mapping_eq (by rw [hwd]; exact hm.pde.1) (by rw [hwd]; exact hwritable) he fun hpu huu => by
            rw [hwd] at hpu huu ⊢
            exact hkept hp (hold hpu huu),
          mapping_eq (by rw [hwd]; exact hp) (by rw [hwd]; exact h.writable d hd hp) rfl
            (by rw [hwd]; exact hold)]
      · have hold : mapping m dir w = none := mapping_absent (by rw [hwd]; exact habsent)
        rw [hold]
        apply mapping_none
        rw [hwd, hm.pde.2, hzero _ hut]
        exact zero_not_present
    · unfold mapping
      dsimp only
      rw [hm.row _ hwd]
      cases hpw : (m.mem dir (pageDirectoryIndex w)).has pagePresent with
      | false => rfl
      | true => rw [hm.other_table h.ok hd hw hpw hwd]

/-- Frames that are no tables are given back, taken and written. -/
theorem Space.elsewhere (hdirectory : m'.directory = dir)
    (hmem : ∀ x, TableFrame m dir x → m'.mem x = m.mem x)
    (hused : ∀ x, TableFrame m dir x → m'.used x = true) :
    Space m' dir ∧ pageMap m' dir = pageMap m dir := by
  have hrow : m'.mem dir = m.mem dir := hmem dir (.inl rfl)
  have htable : ∀ i, i < 1023 → (m.mem dir i).has pagePresent = true →
      m'.mem (frameOf (m.mem dir i)) = m.mem (frameOf (m.mem dir i)) := fun i hi hpi =>
    hmem _ (.inr ⟨i, hi, hpi, rfl⟩)
  refine ⟨⟨hdirectory, ?_, ?_, ?_⟩, ?_⟩
  · refine h.ok.congr (fun x _ => ?_) fun i => ?_
    · by_cases hx : TableFrame m dir x
      · exact .inl (hused x hx)
      · exact .inr ⟨fun he => hx (.inl he), fun i hi hpi he => hx (.inr ⟨i, hi, hpi, he.symm⟩)⟩
    · rw [hrow]
      exact ⟨rfl, rfl⟩
  · intro i hi hpi
    rw [hrow] at hpi ⊢
    exact h.writable i hi hpi
  · intro i u hi hut hpi hpu huu
    rw [hrow] at hpi hpu huu ⊢
    rw [htable i hi hpi] at hpu huu
    exact h.user i u hi hut hpi hpu huu
  · apply pageMap_congr
    intro w hw
    unfold mapping
    dsimp only
    rw [hrow]
    cases hpw : (m.mem dir (pageDirectoryIndex w)).has pagePresent with
    | false => rfl
    | true => rw [htable _ hw hpw]

/-! ## The calls -/

/-- `paging_map_page` below the window, for aligned addresses. -/
theorem Space.mapPage (hv : Aligned v)
    (hd : pageDirectoryIndex v.toNat < 1023) (hf : f < 2 ^ 20) (flags : Word) :
    ∃ ok m', pagingMapPage m v.toNat (f * pageSize) flags = some (ok, m') ∧ Space m' dir ∧
      if ok then pageMap m dir (pageOf v) = none ∧ ¬(view dir m).starved (pageOf v) ∧
        pageMap m' dir = update (pageMap m dir) (pageOf v)
          (some (f, flags.has pageUser, flags.has pageWritable))
      else (pageMap m dir (pageOf v) ≠ none ∨ (view dir m).starved (pageOf v)) ∧
        pageMap m' dir = pageMap m dir := by
  obtain ⟨hpage, -, ht⟩ := pageOf_spec v
  have hregion : pageOf v / 1024 = pageDirectoryIndex v.toNat := by omega
  have hstarved : (view dir m).starved (pageOf v) ↔
      (m.mem dir (pageDirectoryIndex v.toNat)).has pagePresent = false ∧ freeFrames m.used = 0 := by
    show (m.mem dir (pageOf v / 1024)).has pagePresent = false ∧ _ ↔ _
    rw [hregion]
  have hmapping : pageMap m dir (pageOf v) = mapping m dir v.toNat := by
    rw [pageMap_pageOf, if_pos hd]
  obtain ⟨⟨ok, m'⟩, hr, hout⟩ := pagingMapPage_outcome h.ok h.directory hv hd f flags
  rw [hstarved, hmapping]
  cases ok with
  | true =>
    obtain ⟨table, hm⟩ := hout.mapped_of_success h.ok hd
    obtain ⟨hspace, hpages⟩ := h.mapped hd hf hm
    refine ⟨true, m', hr, hspace, ?_⟩
    rw [if_pos rfl]
    rcases hm.slot with ⟨hp, hframe, hpte, -⟩ | ⟨habsent, hrange, hunused, -⟩
    · refine ⟨mapping_none (by rw [hframe]; exact hpte), fun hs => ?_, hpages⟩
      rw [hs.1] at hp
      cases hp
    · refine ⟨mapping_absent habsent, fun hs => ?_, hpages⟩
      exact Nat.ne_of_gt (freeFrames_pos hrange hunused) hs.2
  | false =>
    cases hout with
    | noFrame hp hzero =>
      refine ⟨false, m, hr, h, ?_⟩
      rw [if_neg nofun]
      exact ⟨.inr ⟨hp, hzero⟩, rfl⟩
    | taken hp hpte =>
      obtain ⟨hspace, hsame⟩ := h.raised hd hp flags
      refine ⟨false, _, hr, hspace, ?_⟩
      rw [if_neg nofun, mapping_eq hp (h.writable _ hd hp) rfl (h.user _ _ hd ht hp), hpte]
      exact ⟨.inl nofun, hsame⟩

/-- `paging_unmap_page` of an aligned address below the window. -/
theorem Space.pagingUnmapPage_eq {v : Nat} (hv : v % pageSize = 0)
    (hd : pageDirectoryIndex v < 1023) (release : Bool) :
    pagingUnmapPage m v release =
      if (m.mem dir (pageDirectoryIndex v)).has pagePresent = false then some (false, m)
      else if (m.mem (frameOf (m.mem dir (pageDirectoryIndex v))) (pageTableIndex v)).has
        pagePresent = false then some (false, m)
      else
        let m' := m.write (frameOf (m.mem dir (pageDirectoryIndex v))) (update
          (m.mem (frameOf (m.mem dir (pageDirectoryIndex v)))) (pageTableIndex v) 0#32)
        some (true, if release then pmmFreeFrame m' (frameOf (m.mem (frameOf (m.mem dir
          (pageDirectoryIndex v))) (pageTableIndex v)) * pageSize) else m') := by
  have hrec := h.ok.isRecursive h.directory
  have hlt : pageDirectoryIndex v < 1024 := Nat.lt_succ_of_lt hd
  have ht : pageTableIndex v < 1024 := Nat.mod_lt _ (by decide)
  have hne : pageDirectoryIndex v ≠ recursiveDirectoryIndex := Nat.ne_of_lt hd
  have hdir := h.directory
  rw [pagingUnmapPage, if_neg (not_not.mpr hv), if_neg hne, load_directoryEntry hrec hlt, hdir]
  show (if (m.mem dir (pageDirectoryIndex v)).has pagePresent = false then _ else _) = _
  cases hp : (m.mem dir (pageDirectoryIndex v)).has pagePresent with
  | false => rfl
  | true =>
    have hp' : (m.mem m.directory (pageDirectoryIndex v)).has pagePresent = true := by
      rw [hdir, hp]
    rw [if_neg (by decide), if_neg (by decide), load_tableEntry hrec hlt ht hp', hdir]
    show (if (m.mem (frameOf (m.mem dir (pageDirectoryIndex v))) (pageTableIndex v)).has
      pagePresent = false then _ else _) = _
    split
    · rfl
    · rw [store_tableEntry hrec hlt ht hp', hdir]
      rfl

/-- `paging_unmap_page` of an aligned address below the window. -/
theorem Space.unmapPage (hv : Aligned v)
    (hd : pageDirectoryIndex v.toNat < 1023) {release : Bool}
    (hrelease : (Call.unmapPage v release).Admissible dir m) :
    ∃ ok m', pagingUnmapPage m v.toNat release = some (ok, m') ∧ Space m' dir ∧
      if ok then pageMap m dir (pageOf v) ≠ none ∧
        pageMap m' dir = update (pageMap m dir) (pageOf v) none
      else pageMap m dir (pageOf v) = none ∧ m' = m := by
  obtain ⟨-, -, ht⟩ := pageOf_spec v
  have hmapping : pageMap m dir (pageOf v) = mapping m dir v.toNat := by
    rw [pageMap_pageOf, if_pos hd]
  rw [h.pagingUnmapPage_eq hv hd, hmapping]
  cases hp : (m.mem dir (pageDirectoryIndex v.toNat)).has pagePresent with
  | false => exact ⟨false, m, rfl, h, mapping_absent hp, rfl⟩
  | true =>
    rw [if_neg nofun, mapping_eq hp (h.writable _ hd hp) rfl (h.user _ _ hd ht hp)]
    generalize he : m.mem (frameOf (m.mem dir (pageDirectoryIndex v.toNat)))
      (pageTableIndex v.toNat) = e
    cases hpe : e.has pagePresent with
    | false => exact ⟨false, m, rfl, h, rfl, rfl⟩
    | true =>
      have hzero : Word.has 0#32 pagePresent = true → Word.has 0#32 pageUser = true →
          (m.mem dir (pageDirectoryIndex v.toNat)).has pageUser = true := by
        rw [zero_not_present]
        exact nofun
      have hspace := h.setEntry hd hp (pageTableIndex v.toNat) hzero
      have hpages := h.pageMap_setEntry hd hp hzero
      rw [zero_not_present, if_neg nofun] at hpages
      refine ⟨true, _, rfl, ?_⟩
      rw [if_pos rfl]
      cases release with
      | false => exact ⟨hspace, nofun, hpages⟩
      | true =>
        -- the frame that goes back is none of the tables'
        have hfree : ¬TableFrame m dir (frameOf e) := by
          refine hrelease (frameOf e, e.has pageUser, e.has pageWritable) ?_
          rw [hmapping, mapping_eq hp (h.writable _ hd hp) he fun hpe hue =>
            h.user _ _ hd ht hp (by rw [he, hpe]) (by rw [he, hue]), hpe]
          rfl
        generalize hm1 : m.write (frameOf (m.mem dir (pageDirectoryIndex v.toNat)))
          (update (m.mem (frameOf (m.mem dir (pageDirectoryIndex v.toNat))))
            (pageTableIndex v.toNat) 0#32) = m1 at hspace hpages
        have hrow : m1.mem dir = m.mem dir := by
          rw [← hm1, write_ne (h.ok.tableNe _ hd hp).symm]
        obtain ⟨hmem, hcr3, -⟩ := pmmFreeFrame_rest m1 (frameOf e * pageSize)
        have hdirectory : (pmmFreeFrame m1 (frameOf e * pageSize)).directory = dir := by
          rw [Machine.directory, hcr3]
          exact hspace.directory
        obtain ⟨hspace', hpages'⟩ := hspace.elsewhere hdirectory
          (fun x _ => by rw [hmem])
          (fun x hx => by
            refine (pmmFreeFrame_used m1 _ x).mpr ⟨?_, ?_⟩
            · rcases hx with rfl | ⟨i, hi, hpi, rfl⟩
              · exact hspace.ok.dirUsed
              · exact hspace.ok.tableUsed i hi hpi
            · rintro ⟨-, rfl⟩
              rw [TableFrame, hrow] at hx
              exact hfree hx)
        exact ⟨hspace', nofun, hpages'.trans hpages⟩

/-- The look-up of the queries finds the page in the map. -/
theorem Space.lookUp (v : Word) :
    ∃ entries, Paging.lookUp m v.toNat = some entries ∧
      pageMap m dir (pageOf v) = entries.map fun (pde, pte) =>
        (frameOf pte, pde.has pageUser && pte.has pageUser,
          pde.has pageWritable && pte.has pageWritable) := by
  obtain ⟨-, hlt, ht⟩ := pageOf_spec v
  have hrec := h.ok.isRecursive h.directory
  have hdir := h.directory
  rw [pageMap_pageOf, Paging.lookUp]
  by_cases hd : pageDirectoryIndex v.toNat = recursiveDirectoryIndex
  · have hnot : ¬pageDirectoryIndex v.toNat < 1023 := by
      rw [hd]
      decide
    refine ⟨none, ?_, if_neg hnot⟩
    rw [if_pos hd]
  · have hlow : pageDirectoryIndex v.toNat < 1023 := by
      rw [recursiveDirectoryIndex] at hd
      omega
    dsimp only
    rw [if_neg hd, if_pos hlow, load_directoryEntry hrec hlt, hdir]
    show ∃ entries, (if (m.mem dir (pageDirectoryIndex v.toNat)).has pagePresent = false then _
      else _) = _ ∧ _
    unfold mapping
    dsimp only
    cases hp : (m.mem dir (pageDirectoryIndex v.toNat)).has pagePresent with
    | false => exact ⟨none, rfl, rfl⟩
    | true =>
      have hp' : (m.mem m.directory (pageDirectoryIndex v.toNat)).has pagePresent = true := by
        rw [hdir, hp]
      rw [if_neg (by decide), load_tableEntry hrec hlt ht hp', hdir]
      show ∃ entries, (if (m.mem (frameOf (m.mem dir (pageDirectoryIndex v.toNat)))
        (pageTableIndex v.toNat)).has pagePresent = false then _ else _) = _ ∧ _
      cases hpte : (m.mem (frameOf (m.mem dir (pageDirectoryIndex v.toNat)))
          (pageTableIndex v.toNat)).has pagePresent with
      | false => exact ⟨none, rfl, rfl⟩
      | true => exact ⟨some (_, _), rfl, rfl⟩

end

/-- The address part of an entry is its frame's. -/
theorem frame_address (e : Word) : (e &&& pageFrame).toNat = frameOf e * pageSize := by
  have hmask : (e &&& pageFrame) &&& 0xFFF#32 = 0#32 := by
    have hand : pageFrame &&& 0xFFF#32 = 0#32 := by decide
    rw [BitVec.and_assoc, hand, BitVec.and_zero]
  have hlow : (e &&& pageFrame).toNat % pageSize = 0 := by
    have hbits := congrArg BitVec.toNat hmask
    rw [BitVec.toNat_and] at hbits
    change (e &&& pageFrame).toNat &&& (2 ^ 12 - 1) = 0 at hbits
    rw [Nat.and_two_pow_sub_one_eq_mod] at hbits
    exact hbits
  rw [frameOf, Nat.div_mul_cancel (Nat.dvd_of_mod_eq_zero hlow)]

theorem pagingMapPage_rejected {v p : Nat}
    (h : ¬(v % pageSize = 0 ∧ p % pageSize = 0 ∧ pageDirectoryIndex v < 1023)) :
    pagingMapPage m v p flags = some (false, m) := by
  have hlt : pageDirectoryIndex v < 1024 := Nat.mod_lt _ (by decide)
  rw [pagingMapPage]
  by_cases hv : v % pageSize = 0
  · rw [if_neg (not_not.mpr hv)]
    by_cases hp : p % pageSize = 0
    · have hd : pageDirectoryIndex v = recursiveDirectoryIndex := by
        have hnot : ¬pageDirectoryIndex v < 1023 := fun hd => h ⟨hv, hp, hd⟩
        rw [recursiveDirectoryIndex]
        omega
      rw [if_neg (not_not.mpr hp), if_pos hd]
    · rw [if_pos hp]
  · rw [if_pos hv]

theorem pagingUnmapPage_rejected {v : Nat} {release : Bool}
    (h : ¬(v % pageSize = 0 ∧ pageDirectoryIndex v < 1023)) :
    pagingUnmapPage m v release = some (false, m) := by
  have hlt : pageDirectoryIndex v < 1024 := Nat.mod_lt _ (by decide)
  rw [pagingUnmapPage]
  by_cases hv : v % pageSize = 0
  · have hd : pageDirectoryIndex v = recursiveDirectoryIndex := by
      have hnot : ¬pageDirectoryIndex v < 1023 := fun hd => h ⟨hv, hd⟩
      rw [recursiveDirectoryIndex]
      omega
    rw [if_neg (not_not.mpr hv), if_pos hd]
  · rw [if_pos hv]

/-- One call is one of the map of pages. -/
theorem Space.refines (dir : Nat) :
    Refines Call.step Effect (fun m => Space m dir) (Call.Admissible dir) (view dir) := by
  intro m call h hok
  cases call with
  | mapPage v p flags =>
    -- below the window the map decides, above it the call is refused
    obtain ⟨hpage, -, ht⟩ := pageOf_spec v
    show ∃ a m', (pagingMapPage m v.toNat p.toNat flags).bind (fun r =>
      some (Answer.done r.1, r.2)) = some (a, m') ∧ _
    by_cases hargs : Aligned v ∧ Aligned p ∧ pageDirectoryIndex v.toNat < 1023
    · obtain ⟨hv, hp, hd⟩ := hargs
      have hf : pageOf p < 2 ^ 20 := by
        have hlt : p.toNat < 2 ^ 32 := p.isLt
        rw [pageOf, pageSize]
        omega
      have haddress : p.toNat = pageOf p * pageSize :=
        (Nat.div_mul_cancel (Nat.dvd_of_mod_eq_zero hp)).symm
      have hcount : pageOf v < pageCount := by
        rw [pageCount]
        omega
      obtain ⟨ok, m', hr, hspace, hcase⟩ := h.mapPage hv hd hf flags
      refine ⟨.done ok, m', by rw [haddress, hr]; rfl, hspace, ?_⟩
      cases ok with
      | true => exact .mapped hv hp hcount hcase.1 hcase.2.1 hcase.2.2
      | false => exact .refused (fun _ _ _ => hcase.1) hcase.2
    · refine ⟨.done false, m, by rw [pagingMapPage_rejected hargs]; rfl, h, ?_⟩
      refine .refused (fun hv hp hcount => absurd ⟨hv, hp, ?_⟩ hargs) rfl
      rw [pageCount] at hcount
      omega
  | unmapPage v release =>
    show ∃ a m', (pagingUnmapPage m v.toNat release).bind (fun r =>
      some (Answer.done r.1, r.2)) = some (a, m') ∧ _
    by_cases hargs : Aligned v ∧ pageDirectoryIndex v.toNat < 1023
    · obtain ⟨hv, hd⟩ := hargs
      obtain ⟨ok, m', hr, hspace, hcase⟩ := h.unmapPage hv hd hok
      refine ⟨.done ok, m', by rw [hr]; rfl, hspace, ?_⟩
      cases ok with
      | true => exact .unmapped hv hcase.1 hcase.2
      | false =>
        obtain ⟨hnone, hsame⟩ := hcase
        exact .absent (fun _ => hnone) (by rw [hsame])
    · refine ⟨.done false, m, by rw [pagingUnmapPage_rejected hargs]; rfl, h, ?_⟩
      refine .absent (fun hv => ?_) rfl
      have hd : ¬pageDirectoryIndex v.toNat < 1023 := fun hd => hargs ⟨hv, hd⟩
      show pageMap m dir (pageOf v) = none
      rw [pageMap_pageOf, if_neg hd]
  | getPhysicalAddress v =>
    obtain ⟨entries, hentries, hpage⟩ := h.lookUp v
    have haddress : Effect (view dir m) (.getPhysicalAddress v) (.address
        ((pageMap m dir (pageOf v)).map fun (frame, _, _) => frame * pageSize + v.toNat % pageSize))
        (view dir m) := .physicalAddress
    refine ⟨.address (entries.map fun (_, pte) =>
      (pte &&& pageFrame).toNat + v.toNat % pageSize), m, ?_, h, ?_⟩
    · rw [Call.step, pagingGetPhysicalAddress, hentries]
      rfl
    · rw [hpage, Option.map_map] at haddress
      simp only [frame_address]
      exact haddress
  | isMapped v =>
    obtain ⟨entries, hentries, hpage⟩ := h.lookUp v
    have hmapped : Effect (view dir m) (.isMapped v) (.done (pageMap m dir (pageOf v)).isSome)
      (view dir m) := .isMapped
    refine ⟨.done entries.isSome, m, ?_, h, ?_⟩
    · rw [Call.step, pagingIsMapped, hentries]
      rfl
    · rw [hpage, Option.isSome_map] at hmapped
      exact hmapped
  | getEffectiveFlags v =>
    obtain ⟨entries, hentries, hpage⟩ := h.lookUp v
    have hflags : Effect (view dir m) (.getEffectiveFlags v) (.flags
        ((pageMap m dir (pageOf v)).map fun (_, user, writable) => effectiveFlags user writable))
        (view dir m) := .effectiveFlags
    refine ⟨.flags (entries.map fun (pde, pte) => effectiveFlags
      (pde.has pageUser && pte.has pageUser) (pde.has pageWritable && pte.has pageWritable)),
      m, ?_, h, ?_⟩
    · rw [Call.step, pagingGetEffectiveFlags, hentries]
      rfl
    · rw [hpage, Option.map_map] at hflags
      exact hflags
  | elsewhere mem used =>
    have hdirectory : Machine.directory { m with mem := mem, used := used } = dir := h.directory
    obtain ⟨hspace, hpages⟩ := h.elsewhere hdirectory (fun x hx => (hok x hx).1)
      (fun x hx => (hok x hx).2)
    exact ⟨.silent, _, rfl, hspace, .elsewhere hpages⟩

theorem Effect.address_eq {s s' : View} {a : Option Nat}
    (h : Effect s (.getPhysicalAddress v) (.address a) s') :
    a = (s.page (pageOf v)).map fun (frame, _, _) => frame * pageSize + v.toNat % pageSize := by
  cases h
  rfl

/-! ## Whole runs -/

/-- The frames of the two static tables, in the kernel's image. -/
structure StaticTables (m : Machine) (directory table : Nat) : Prop where
  directoryRange : 0 < directory ∧ directory < frameCount
  tableRange : 0 < table ∧ table < frameCount
  ne : table ≠ directory
  directoryUsed : m.used directory = true
  tableUsed : m.used table = true

/-- The address space the kernel starts with. -/
theorem pagingInitialize_space {directory table : Nat} (h : StaticTables m directory table) :
    Space (pagingInitialize m directory table) directory := by
  generalize hm' : pagingInitialize m directory table = m'
  have hrow : m'.mem directory = update (update (fun _ => 0#32) 0
      (entryFor (table * pageSize) (pagePresent ||| pageWritable))) recursiveDirectoryIndex
        (entryFor (directory * pageSize) (pagePresent ||| pageWritable)) := by
    rw [← hm']
    exact write_self ..
  have htable : ∀ t, (m'.mem table t).has pageUser = false := by
    intro t
    have hpage : m'.mem table t = if t < 1024 then
        entryFor (t * pageSize) (pagePresent ||| pageWritable) else 0#32 := by
      rw [← hm']
      exact congrFun ((write_ne h.ne).trans (write_self ..)) t
    rw [hpage]
    split
    · rw [entryFor_has _ _ (by decide)]
      decide
    · decide
  have hrec : m'.mem directory recursiveDirectoryIndex =
      entryFor (directory * pageSize) (pagePresent ||| pageWritable) := by
    rw [hrow, update_self]
  have hfirst : m'.mem directory 0 = entryFor (table * pageSize) (pagePresent ||| pageWritable) := by
    rw [hrow, update_of_ne (by decide), update_self]
  have hframe : ∀ f, f < frameCount →
      frameOf (entryFor (f * pageSize) (pagePresent ||| pageWritable)) = f := fun f hf =>
    frameOf_entryFor (Nat.lt_trans hf (by decide)) (by decide)
  -- the first entry is the only one in use below the window
  have hused : ∀ x, m.used x = true → m'.used x = true := by
    intro x hx
    rw [← hm']
    exact hx
  have honly : ∀ d, d < 1023 → (m'.mem directory d).has pagePresent = true → d = 0 := by
    intro d hd hp
    by_contra hne
    have hlast : d ≠ recursiveDirectoryIndex := Nat.ne_of_lt hd
    rw [hrow, update_of_ne hlast, update_of_ne hne, zero_not_present] at hp
    cases hp
  have hzero : ∀ d, d < 1023 → (m'.mem directory d).has pagePresent = true →
      frameOf (m'.mem directory d) = table := by
    intro d hd hp
    rw [honly d hd hp, hfirst, hframe _ h.tableRange.2]
  refine ⟨?_, ?_, ?_, ?_⟩
  · rw [← hm']
    exact Nat.mul_div_cancel directory (by decide)
  · refine
      { range := h.directoryRange
        dirUsed := hused _ h.directoryUsed
        recursive := ?_
        tableRange := fun d hd hp => by rw [hzero d hd hp]; exact h.tableRange
        tableUsed := fun d hd hp => by rw [hzero d hd hp]; exact hused _ h.tableUsed
        tableNe := fun d hd hp => by rw [hzero d hd hp]; exact h.ne
        distinct := fun d e hd he hp hp' _ => by rw [honly d hd hp, honly e he hp'] }
    rw [hrec, entryFor_has _ _ (by decide)]
    exact ⟨by decide, hframe _ h.directoryRange.2⟩
  · intro d hd hp
    rw [honly d hd hp, hfirst, entryFor_has _ _ (by decide)]
    decide
  · -- none of the identity mappings is a user page
    intro d t hd _ hp _ hu
    rw [hzero d hd hp, htable] at hu
    cases hu

/-- A new user directory, once it is switched to. -/
theorem Created.space {m0 : Machine} {k scratch : Nat}
    (h : Created (m0.markUsed dir) k scratch dir m) (hspace : Space m0 k)
    (hready : KernelReady m0 k) (hfree : m0.used dir = false)
    (hrange : 0 < dir ∧ dir < frameCount) : Space { m with cr3 := dir * pageSize } dir := by
  have hclean := h.clean hready hfree hrange
  -- every entry in use is a copy of the kernel's, and so are the pages under it
  have hentry : ∀ d, d < 1023 → (m.mem dir d).has pagePresent = true →
      m.mem dir d = m0.mem k d ∧ d ≠ scratchIndex ∧ (m0.mem k d).has pagePresent = true := by
    intro d hd hp
    have hrow : m.mem dir d = newEntry (m0.mem k) dir d := h.row d
    rw [hrow] at hp ⊢
    obtain ⟨he, hne, hs⟩ := newEntry_present hd hp
    exact ⟨he, hne, (shared_spec hs).1⟩
  refine ⟨Nat.mul_div_cancel dir (by decide), ?_, ?_, ?_⟩
  · exact hclean.building.dirOk.congr (fun _ hx => .inl hx) fun _ => ⟨rfl, rfl⟩
  · intro d hd hp
    obtain ⟨he, -, hp0⟩ := hentry d hd hp
    show (m.mem dir d).has pageWritable = true
    rw [he]
    exact hspace.writable d hd hp0
  · intro d t hd ht hp hpt hut
    obtain ⟨he, hne, hp0⟩ := hentry d hd hp
    have htable := hclean.kept.table d hd hne hp0
    change (m.mem (frameOf (m.mem dir d)) t).has pagePresent = true at hpt
    change (m.mem (frameOf (m.mem dir d)) t).has pageUser = true at hut
    show (m.mem dir d).has pageUser = true
    rw [he, htable] at hpt hut
    rw [he]
    exact hspace.user d t hd ht hp0 hpt hut

/-- `paging_create_user_directory` and `paging_switch_directory` lead into an address space. -/
theorem createUserDirectory_space {m0 : Machine} {k directory : Nat} (hspace : Space m0 k)
    (hready : KernelReady m0 k) (h : pagingCreateUserDirectory m0 = some (some directory, m)) :
    Space (pagingSwitchDirectory m directory).2 (directory / pageSize) := by
  obtain ⟨r, hr, hcase⟩ := create_cases hready
  obtain rfl := Option.some.inj (h.symm.trans hr)
  rcases hcase with hnone | ⟨dir, scratch, hdir, hfree, hrange, hcreated⟩
  · cases hnone
  · obtain rfl := Option.some.inj hdir
    rw [pagingSwitchDirectory_eq m hrange.1, Nat.mul_div_cancel dir (by decide)]
    exact hcreated.space hspace hready hfree hrange

/-- The address spaces the kernel makes meet `Space`, and in every such address
space the tables answer each sequence of calls as the map of pages does. -/
theorem run_pageMap :
    (∀ m directory table, StaticTables m directory table →
      Space (pagingInitialize m directory table) directory) ∧
    (∀ m m' k directory, Space m k → KernelReady m k →
      pagingCreateUserDirectory m = some (some directory, m') →
      Space (pagingSwitchDirectory m' directory).2 (directory / pageSize)) ∧
    ∀ m dir calls, Space m dir → Admitted Call.step (Call.Admissible dir) m calls →
      ∃ answers m', runAll Call.step m calls = some (answers, m') ∧ Space m' dir ∧
        Follows Effect (view dir m) calls answers (view dir m') :=
  ⟨fun _ _ _ h => pagingInitialize_space h,
    fun _ _ _ _ hspace hready h => createUserDirectory_space hspace hready h,
    fun _ dir _ h hcalls => (Space.refines dir).run h hcalls⟩

/-- A machine at its start, with the static tables in frames 1 and 2. -/
def booted : Machine := pagingInitialize ⟨fun _ _ => 0#32, fun frame => decide (frame ≤ 2), 0, 0⟩ 1 2

/-- A user page, its permissions, the same page again, and out. -/
theorem run_pageMap_booted : ∃ answers m',
    runAll Call.step booted [.mapPage 0x400000#32 0x5000#32 (pageUser ||| pageWritable),
      .getEffectiveFlags 0x400000#32, .mapPage 0x400000#32 0x6000#32 0#32,
      .unmapPage 0x400000#32 false] = some (answers, m') ∧ Space m' 1 ∧
    Follows Effect (view 1 booted) [.mapPage 0x400000#32 0x5000#32 (pageUser ||| pageWritable),
      .getEffectiveFlags 0x400000#32, .mapPage 0x400000#32 0x6000#32 0#32,
      .unmapPage 0x400000#32 false] answers (view 1 m') := by
  have hstart : Space booted 1 :=
    run_pageMap.1 _ 1 2 ⟨by decide, by decide, by decide, rfl, rfl⟩
  exact run_pageMap.2.2 booted 1 _ hstart
    ⟨trivial, fun _ _ _ => ⟨trivial, fun _ _ _ => ⟨trivial, fun _ _ _ => ⟨trivial, fun _ _ _ => trivial⟩⟩⟩⟩

/-- Giving back the frame of a page table that is in use makes it one more page
table, and its pages are lost. -/
theorem not_run_pageMap : ¬ ∀ m directory table, StaticTables m directory table →
    ∀ calls answers m', (∀ mem used, Call.elsewhere mem used ∉ calls) →
      runAll Call.step (pagingInitialize m directory table) calls = some (answers, m') →
      Follows Effect (view directory (pagingInitialize m directory table)) calls answers
        (view directory m') := by
  intro h
  have hrun : (runAll Call.step booted [.unmapPage 0x2000#32 true,
      .mapPage 0x400000#32 0x5000#32 pageWritable, .getPhysicalAddress 0x1000#32]).any (fun r =>
        decide (r.1 = [.done true, .done true, .address none])) = true := by decide +kernel
  obtain ⟨⟨answers, m'⟩, hr, hanswers⟩ := (Option.any_eq_true _ _).mp hrun
  obtain rfl := of_decide_eq_true hanswers
  have hfollows := h _ 1 2 ⟨by decide, by decide, by decide, rfl, rfl⟩ _ _ _ (by simp) hr
  -- in the map the page at 0x1000 is there before and after the two edits
  cases hfollows with
  | cons hunmap hrest =>
    cases hrest with
    | cons hmap hrest =>
      cases hrest with
      | cons hget _ =>
        cases hunmap with
        | unmapped _ _ hpage1 =>
          cases hmap with
          | mapped _ _ _ _ _ hpage2 =>
            have hlost := hget.address_eq
            rw [hpage2, hpage1, Function.update_of_ne (by decide),
              Function.update_of_ne (by decide)] at hlost
            have hpage : (view 1 booted).page (pageOf 0x1000#32) = some (1, false, true) := by
              decide +kernel
            change none = Option.map _ ((view 1 booted).page (pageOf 0x1000#32)) at hlost
            rw [hpage] at hlost
            cases hlost

end MeatySkeleton.Paging
