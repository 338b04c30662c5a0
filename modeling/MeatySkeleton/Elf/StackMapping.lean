import MeatySkeleton.Elf.Accepted
import MeatySkeleton.Elf.Calls
import MeatySkeleton.Elf.Startup

/-!
# The call of `map_user_stack`

The stack pages are entered one after the other, each in a frame filled through the
scratch page, and then the startup table is written. The call returns `true` exactly when
the arguments fit into a page, no page of the stack is in the new directory yet, and there
is a frame for every page and every page table that is missing (`framesNeeded`). Either
way the scratch page is unmapped when it returns.
-/

namespace MeatySkeleton.Elf

open Function List Option Lib Paging

variable {m0 m m' : Machine} {k dir scratch d t f table : Nat} {flags : Word} {l l' : Load} {e : Entry}
  {es : List (Entry × Nat)} {steps : List Step}

/-! ## Filling a frame -/

theorem writes_pass (hw : Writes steps) (ho : Opened m k scratch f) (hfk : f ≠ k)
    (hfs : f ≠ scratch) (hok : l.failed = false) : ∃ c, passAll steps (m, l) = some c := by
  induction steps generalizing m with
  | nil => exact ⟨_, rfl⟩
  | cons s steps ih =>
    obtain ⟨offset, b, rfl, hoffset⟩ := hw s (mem_cons_self ..)
    have hpass := Performed.pass (l := l) (.wrote (b := b) (ho.editByte hoffset _)) hok
    rw [passAll_cons, hpass, bind_some]
    exact ih (fun s hs => hw s (mem_cons_of_mem _ hs)) (ho.write hfk hfs _)

/-- While a directory is under construction, its frames can be filled. -/
theorem fill_passes {pages : List Nat} {s : Step} {halts : Bool} (h : Building m0 k dir pages m)
    (hf : f ∈ pages) (hs : s.Opens l f) (hw : Writes steps) (hok : l.failed = false) :
    ∃ c, passAll (s :: (steps ++ [.unmapScratch halts])) (m, l) = some c := by
  have hpage := h.page f hf
  rcases mapScratch_cases h.ready.ok h.ready.directory (fun _ => h.ready.free)
    (Nat.lt_trans hpage.range.2 (by decide)) with ⟨-, hnone⟩ | ⟨scratch, m1, hmap, ho⟩
  · -- the slot has its page table
    obtain ⟨hd, ht, -⟩ := scratch_index 0 (by decide)
    change pageDirectoryIndex scratchAddress = _ at hd
    change pageTableIndex scratchAddress = _ at ht
    obtain ⟨⟨ok, m1⟩, hr, hout⟩ := pagingMapPage_outcome h.ready.ok h.ready.directory
      (v := scratchAddress) (by decide) (by rw [hd]; decide) f pageWritable
    rw [hd, ht] at hout
    obtain rfl := (Prod.mk.inj (some.inj (hnone.symm.trans hr))).1
    cases hout with
    | noFrame habsent _ =>
      rw [h.ready.pde.1] at habsent
      cases habsent
    | taken _ htaken =>
      rw [h.ready.pde.2, h.ready.free] at htaken
      cases htaken
  · obtain ⟨hfs, hsk⟩ := ho.scratch_ne h.ready.ok hpage.used hpage.neKernelTable
    have hopen := Performed.pass (.opened hs hmap) hok
    rw [passAll_cons, hopen, bind_some, passAll_append]
    obtain ⟨⟨m2, l2⟩, hwrites⟩ :=
      @writes_pass _ _ _ _ { l with holding := true } _ hw ho.opened hpage.neKernel hfs hok
    obtain ⟨rfl, page, rfl, -⟩ := passAll_writes hw ho.opened hpage.neKernel hfs hwrites
    obtain ⟨m3, hunmap, -⟩ := ho.close h.ready.ok hpage.neKernel hfs hsk page
    have hclose : (Step.unmapScratch halts).pass _ = _ :=
      Performed.pass (l := { l with holding := true }) (.unmapped hunmap) hok
    rw [hwrites, bind_some, passAll_cons, hclose]
    exact ⟨_, rfl⟩

/-! ## What is free -/

theorem pageMap_none {n : Nat} (hn : n < pageCount) : pageMap m dir n = none ↔
    ((m.mem dir (n / 1024)).has pagePresent = true → (pteOf m dir n).has pagePresent = false) := by
  obtain ⟨hd, ht, -⟩ := page_index hn
  rw [pageMap, if_pos hn]
  unfold mapping
  dsimp only
  rw [hd, ht, ← pteOf]
  cases (m.mem dir (n / 1024)).has pagePresent with
  | false => exact ⟨fun _ h => (by cases h), fun _ => rfl⟩
  | true =>
    cases (pteOf m dir n).has pagePresent with
    | false => exact ⟨fun _ _ => rfl, fun _ => rfl⟩
    | true => exact ⟨fun h => (by cases h), fun h => by cases h rfl⟩

/-- Entering a page leaves the others mapped or not. -/
theorem mapped_vacant (hm : Mapped m dir d t f flags table m') (hok : DirectoryOk m dir)
    (hd : d < 1023) {n : Nat} (hn : n < pageCount) (hne : n / 1024 = d → n % 1024 ≠ t) :
    pageMap m' dir n = none ↔ pageMap m dir n = none := by
  rw [pageMap_none hn, pageMap_none hn]
  cases hp : (m.mem dir (n / 1024)).has pagePresent with
  | true =>
    obtain ⟨hp', hpte⟩ := mapped_pteOf hm hok hd (page_table_lt hn) hne hp
    rw [hp', hpte]
  | false =>
    by_cases hnd : n / 1024 = d
    · rcases hm.slot with ⟨hpresent, -⟩ | ⟨-, -, -, -, -, hzero⟩
      · rw [← hnd, hp] at hpresent
        cases hpresent
      · rw [pteOf, hnd, hm.pde.2, hzero _ (hne hnd)]
        exact ⟨fun _ h => (by cases h), fun _ _ => zero_not_present⟩
    · rw [hm.row _ hnd, hp]
      exact ⟨fun _ h => (by cases h), fun _ h => by cases h⟩

/-- Nothing is mapped at the scratch address. -/
def ScratchFree (m : Machine) : Prop := pageMap m m.directory (scratchAddress / pageSize) = none

theorem scratchFree_of_ready (h : ScratchReady m k scratch) : ScratchFree m := by
  show pageMap m m.directory (scratchAddress / pageSize) = none
  rw [h.directory, pageMap_none (by decide)]
  intro _
  have hindex : scratchAddress / pageSize / 1024 = scratchIndex ∧
      scratchAddress / pageSize % 1024 = 0 := by decide
  rw [pteOf, hindex.1, hindex.2, h.pde.2]
  exact h.free

/-- Which entries of a directory are present. -/
def presentIn (m : Machine) (dir d : Nat) : Bool := (m.mem dir d).has pagePresent

/-- The frames that entering a page takes: one for it, and one for its page table if that
is missing. -/
def pageFrames (present : Nat → Bool) (v : Nat) : Nat :=
  if present (pageDirectoryIndex v) then 1 else 2

/-- The frames that entering pages one after the other takes. -/
def framesNeeded (present : Nat → Bool) : List Nat → Nat
  | [] => 0
  | v :: vs => pageFrames present v +
      framesNeeded (update present (pageDirectoryIndex v) true) vs

/-! ## One page -/

/-- A frame for page `e`, filled and not entered yet. -/
structure Taken (m0 : Machine) (k dir f : Nat) (es : List (Entry × Nat)) (e : Entry) (m m₁ : Machine) :
    Prop where
  laid : Laid m0 k dir [f] es m₁
  holds : Holds (m₁.mem f) e.page.bytes
  frames : freeFrames m₁.used + 1 = freeFrames m.used
  row : m₁.mem dir = m.mem dir
  vacant : ∀ n, n < pageCount → (pageMap m₁ dir n = none ↔ pageMap m dir n = none)

theorem Laid.taken (h : Laid m0 k dir [] es m) {writes : List Step} (hw : Writes writes)
    (hbytes : overwritten writes (fun _ => none) = e.page.bytes) (hok : l.failed = false)
    (hfree : 0 < freeFrames m.used) (rest : List Step) : ∃ f m₁ l₁,
      call (.allocateFrame :: (.mapScratch :: (writes ++ [.unmapScratch true]) ++ rest)) (m, l) =
        call rest (m₁, l₁) ∧
      l₁ = { l with frame := some f, holding := false } ∧ Taken m0 k dir f es e m m₁ := by
  rcases pmmAllocateFrame_cases m with ⟨-, hnone⟩ | ⟨f, hsome, hpos, hlt, hunused, hframes⟩
  · rw [hnone] at hfree
    exact absurd hfree (Nat.lt_irrefl 0)
  have hallocate := Performed.pass (l := l) (.allocated hsome) hok
  rw [Nat.mul_div_cancel f (by decide)] at hallocate
  have hallocated := h.allocated ⟨hpos, hlt⟩ hunused
  have hloose : f ∈ [f] ++ es.map Prod.snd := mem_cons_self ..
  have hpage := hallocated.building.page f hloose
  have hready := hallocated.building.ready
  obtain ⟨⟨m₁, l₁⟩, hfill⟩ := @fill_passes _ _ _ _ _ { l with frame := some f } _ _ _ true
    hallocated.building hloose (.inl ⟨rfl, rfl⟩) hw hok
  obtain ⟨⟨scratch, hrewritten⟩, rfl, hholds⟩ := filled (.inl ⟨rfl, rfl⟩) hw hfill hready.ok
    hready.directory (fun _ => hready.free) hlt hpage.used hpage.neKernel hpage.neKernelTable
  obtain ⟨hrow, hpte, -⟩ := hallocated.kept hloose hrewritten
  refine ⟨f, m₁, _, ?_, rfl,
    { laid := hallocated.rewritten (mem_singleton_self f) hrewritten
      holds := ?_, frames := ?_, row := hrow, vacant := fun n hn => ?_ }⟩
  · rw [call_done (take_of_pass hallocate), call_of_passAll hfill]
  · rw [← hbytes]
    exact hholds _ fun _ _ _ hb => nomatch hb
  · rw [(hallocated.building.slot_kept hrewritten).2.1]
    exact hframes
  · rw [pageMap_none hn, pageMap_none hn, hrow]
    refine forall_congr' fun hp => ?_
    rw [hpte n (page_table_lt hn) hp]
    rfl

/-- There is room for page `e`. -/
def Room (m : Machine) (dir : Nat) (e : Entry) : Prop :=
  pageMap m dir e.number = none ∧ pageFrames (presentIn m dir) e.address ≤ freeFrames m.used

/-- Page `e` is entered in frame `f`. -/
structure PageEntered (m0 : Machine) (k dir f : Nat) (es : List (Entry × Nat)) (e : Entry)
    (m : Machine) (l : Load) (m' : Machine) (l' : Load) : Prop where
  laid : Laid m0 k dir [] (es ++ [(e, f)]) m'
  directory : l'.directory = some dir
  frame : l'.frame = none
  ok : l'.failed = false
  topFrame : l'.topFrame = if e.top then some f else l.topFrame
  frames : freeFrames m'.used + pageFrames (presentIn m dir) e.address = freeFrames m.used
  present : presentIn m' dir = update (presentIn m dir) (pageDirectoryIndex e.address) true
  vacant : ∀ n, n < pageCount → n ≠ e.number → (pageMap m' dir n = none ↔ pageMap m dir n = none)

theorem scratchFree_freeFrame (l : Load) : ScratchFree (l.freeFrame m) ↔ ScratchFree m := by
  unfold Load.freeFrame
  cases l.frame with
  | none => exact Iff.rfl
  | some f =>
    dsimp only
    unfold pmmFreeFrame
    split
    · exact Iff.rfl
    · split <;> exact Iff.rfl

/-- A page goes in exactly when there is room for it. -/
theorem Laid.enters (h : Laid m0 k dir [] es m) (hp : Populates steps e)
    (hdirectory : l.directory = some dir) (hframe : l.frame = none) (hok : l.failed = false) :
    (Room m dir e ∧ ∃ f m' l', call steps (m, l) = some (true, m', l') ∧
      PageEntered m0 k dir f es e m l m' l') ∨
    (¬Room m dir e ∧ ∃ m' l', call steps (m, l) = some (false, m', l') ∧ ScratchFree m') := by
  obtain ⟨writes, flags, rfl, hwrites, hbytes, huser, hwritable, haligned, hlimit⟩ := hp
  obtain ⟨hnumber, hscratch⟩ := number_lt hlimit
  obtain ⟨hd, ht⟩ := aligned_index haligned hnumber
  change pageDirectoryIndex e.address = e.number / 1024 at hd
  change pageTableIndex e.address = e.number % 1024 at ht
  have hneeds : ∀ {n}, pageFrames (presentIn m dir) e.address ≤ n → 0 < n := by
    intro n hn
    unfold pageFrames at hn
    split at hn <;> omega
  rcases Nat.eq_zero_or_pos (freeFrames m.used) with hzero | hfree
  · -- no frame for the page
    refine .inr ⟨fun hroom => ?_, m, { l with frame := none }, ?_, scratchFree_of_ready h.building.ready⟩
    · exact absurd (hneeds hroom.2) (Nat.not_lt.mpr (Nat.le_of_eq hzero))
    · rcases pmmAllocateFrame_cases m with ⟨hnone, -⟩ | ⟨f, -, hpos, hlt, hunused, -⟩
      · have htake : Step.allocateFrame.take l m = some (false, m, l) := by
          dsimp only [Step.take]
          rw [hnone]
        rw [call_failed htake, Load.freeFrame, hframe]
      · exact absurd (freeFrames_pos ⟨hpos, hlt⟩ hunused) (Nat.not_lt.mpr (Nat.le_of_eq hzero))
  have hsteps : (Step.allocateFrame :: .mapScratch :: (writes ++
      [.unmapScratch true, .enterPage e.address flags e.top]) : List Step) =
      .allocateFrame :: (.mapScratch :: (writes ++ [.unmapScratch true]) ++
        [.enterPage e.address flags e.top]) := by
    simp
  obtain ⟨f, m1, l1, hcall, rfl, htaken⟩ :=
    h.taken hwrites hbytes hok hfree [.enterPage e.address flags e.top]
  rw [hsteps, hcall]
  have hbuilding := htaken.laid.building
  have hframes := htaken.frames
  obtain ⟨⟨ok, m2⟩, hmap, hout⟩ := hbuilding.mapInDirectory haligned
    (by rw [hd]; exact page_table_lt hnumber) (by rw [hd]; exact hscratch) f flags
  rw [hd, ht] at hout
  have htable := page_table_lt hnumber
  have hbuilding2 := hbuilding.mapped htable hscratch hout
  have hvacant := @pageMap_none m1 dir _ hnumber
  rw [htaken.vacant _ hnumber] at hvacant
  have hpresent : presentIn m dir (e.number / 1024) =
      (m1.mem dir (e.number / 1024)).has pagePresent := by
    rw [htaken.row]
    rfl
  cases ok with
  | false =>
    have htake : (Step.enterPage e.address flags e.top).take
        { l with frame := some f, holding := false } m1 =
          some (false, m2, { l with frame := some f, holding := false }) := by
      dsimp only [Step.take]
      rw [hdirectory]
      show Option.bind (pagingMapPageInDirectory m1 (dir * pageSize) e.address (f * pageSize) flags)
        _ = _
      rw [hmap]
      rfl
    refine .inr ⟨fun hroom => ?_, _, _, call_failed htake, ?_⟩
    · obtain ⟨hnone, hroom⟩ := hroom
      cases hout with
      | noFrame habsent hzero =>
        unfold pageFrames at hroom
        rw [hd, hpresent, habsent, if_neg nofun] at hroom
        omega
      | taken hp htaken' =>
        rw [hvacant] at hnone
        have hfree := hnone hp
        rw [pteOf, htaken'] at hfree
        cases hfree
    · rw [scratchFree_freeFrame]
      exact scratchFree_of_ready hbuilding2.ready
  | true =>
    have htake : (Step.enterPage e.address flags e.top).take
        { l with frame := some f, holding := false } m1 = some (true, m2,
          { l with
            frame := none
            holding := false
            topFrame := if e.top then some f else l.topFrame }) := by
      dsimp only [Step.take]
      rw [hdirectory]
      show Option.bind (pagingMapPageInDirectory m1 (dir * pageSize) e.address (f * pageSize) flags)
        _ = _
      rw [hmap]
      rfl
    obtain ⟨table, hm⟩ := hout.mapped_of_success hbuilding.dirOk htable
    have hcount : freeFrames m2.used + pageFrames (presentIn m dir) e.address =
        freeFrames m.used := by
      unfold pageFrames
      rw [hd, hpresent]
      rcases hm.slot with ⟨hp, -, -, hused, -⟩ | ⟨habsent, hrange, hunused, hused, -⟩
      · rw [hp, if_pos rfl, hused]
        exact hframes
      · have htables := freeFrames_update hrange hunused
        rw [habsent, if_neg nofun, hused]
        omega
    refine .inl ⟨⟨?_, by omega⟩, f, m2, _, call_done htake,
      { laid := htaken.laid.entered hout hnumber hscratch huser hwritable htaken.holds
        directory := hdirectory, frame := rfl, ok := hok, topFrame := rfl, frames := hcount
        present := funext fun i => ?_, vacant := fun n hn hne => ?_ }⟩
    · rw [hvacant]
      intro hp
      rcases hm.slot with ⟨-, hframe, hfree, -⟩ | ⟨habsent, -⟩
      · rw [pteOf, hframe]
        exact hfree
      · rw [hp] at habsent
        cases habsent
    · rw [hd]
      by_cases hi : i = e.number / 1024
      · rw [hi, update_self]
        exact hm.pde.1
      · rw [update_of_ne hi]
        show (m2.mem dir i).has pagePresent = (m.mem dir i).has pagePresent
        rw [hm.row i hi, htaken.row]
    · rw [mapped_vacant hm hbuilding.dirOk htable hn fun hnd hnt => hne (by omega), htaken.vacant n hn]

/-! ## All pages -/

/-- There is room for pages. -/
def HasRoom (m : Machine) (dir : Nat) (vs : List Nat) : Prop :=
  (∀ v ∈ vs, pageMap m dir (v / pageSize) = none) ∧
    framesNeeded (presentIn m dir) vs ≤ freeFrames m.used

theorem HasRoom.first {vs : List Nat} (h : HasRoom m dir (e.address :: vs)) : Room m dir e :=
  ⟨h.1 _ (mem_cons_self ..), Nat.le_trans (Nat.le_add_right ..) h.2⟩

theorem PageEntered.hasRoom {vs : List Nat} (h : PageEntered m0 k dir f es e m l m' l')
    (hroom : Room m dir e) (hvs : ∀ v ∈ vs, v / pageSize < pageCount ∧ v / pageSize ≠ e.number) :
    HasRoom m dir (e.address :: vs) ↔ HasRoom m' dir vs := by
  have hframes := h.frames
  unfold HasRoom
  rw [framesNeeded, ← h.present, forall_mem_cons]
  constructor
  · rintro ⟨⟨-, hvacant⟩, hcount⟩
    refine ⟨fun v hv => ?_, by omega⟩
    obtain ⟨hlt, hne⟩ := hvs v hv
    exact (h.vacant _ hlt hne).mpr (hvacant v hv)
  · rintro ⟨hvacant, hcount⟩
    refine ⟨⟨hroom.1, fun v hv => ?_⟩, by omega⟩
    obtain ⟨hlt, hne⟩ := hvs v hv
    exact (h.vacant _ hlt hne).mp (hvacant v hv)

/-- The pages `placed` are entered. -/
structure PagesEntered (m0 : Machine) (k dir : Nat) (es placed : List (Entry × Nat)) (l : Load)
    (m' : Machine) (l' : Load) : Prop where
  laid : Laid m0 k dir [] (es ++ placed) m'
  ok : l'.failed = false
  topIn : ∀ old, TopIn l old → TopIn l' (old ++ placed)
  hasTop : l.topFrame.isSome = true ∨ (∃ a ∈ placed, a.1.top = true) → l'.topFrame.isSome = true

/-- The pages go in exactly when there is room for all of them. -/
theorem Laid.entersAll {items : List (List Step × Entry)} (h : Laid m0 k dir [] es m)
    (hitems : ∀ item ∈ items, Populates item.1 item.2)
    (hdistinct : (items.map fun item => item.2.number).Nodup)
    (hdirectory : l.directory = some dir) (hframe : l.frame = none) (hok : l.failed = false) :
    (HasRoom m dir (items.map fun item => item.2.address) ∧ ∃ placed m' l',
      call (items.flatMap Prod.fst) (m, l) = some (true, m', l') ∧
      placed.map Prod.fst = items.map Prod.snd ∧ PagesEntered m0 k dir es placed l m' l') ∨
    (¬HasRoom m dir (items.map fun item => item.2.address) ∧ ∃ m' l',
      call (items.flatMap Prod.fst) (m, l) = some (false, m', l') ∧ ScratchFree m') := by
  induction items generalizing es m l with
  | nil =>
    refine .inl ⟨⟨fun _ hv => (nomatch hv), Nat.zero_le _⟩, [], m, l, rfl, rfl,
      { laid := ?_, ok := hok, topIn := fun old ht => ?_, hasTop := fun ht => ?_ }⟩
    · rw [append_nil]
      exact h
    · rw [append_nil]
      exact ht
    · rcases ht with ht | ⟨a, ha, -⟩
      · exact ht
      · cases ha
  | cons item items ih =>
    rw [map_cons, nodup_cons] at hdistinct
    obtain ⟨hnew, hdistinct⟩ := hdistinct
    have hrest : ∀ item ∈ items, Populates item.1 item.2 := fun i hi =>
      hitems i (mem_cons_of_mem _ hi)
    rw [flatMap_cons, map_cons]
    rcases h.enters (hitems item (mem_cons_self ..)) hdirectory hframe hok with
      ⟨hroom, f, m1, l1, hcall, hentered⟩ | ⟨hfull, m', l', hcall, hfree⟩
    · have hvs : ∀ v ∈ items.map fun item => item.2.address,
          v / pageSize < pageCount ∧ v / pageSize ≠ item.2.number := by
        intro v hv
        obtain ⟨i, hi, rfl⟩ := mem_map.mp hv
        obtain ⟨writes, flags, -, -, -, -, -, -, hlimit⟩ := hrest i hi
        refine ⟨(number_lt hlimit).1, fun he => hnew ?_⟩
        rw [← he]
        exact mem_map_of_mem (f := fun item => item.2.number) hi
      rw [hentered.hasRoom hroom hvs, call_append_done hcall]
      rcases ih hentered.laid hrest hdistinct hentered.directory hentered.frame hentered.ok with
        ⟨hall, placed, m', l', hrun, hplaced, hentered'⟩ | hfull
      · refine .inl ⟨hall, (item.2, f) :: placed, m', l', hrun, ?_,
          { laid := ?_, ok := hentered'.ok, topIn := fun old ht => ?_, hasTop := fun ht => ?_ }⟩
        · rw [map_cons, hplaced, map_cons]
        · have hlaid := hentered'.laid
          rw [← append_cons] at hlaid
          exact hlaid
        · have hnext : TopIn l1 (old ++ [(item.2, f)]) := by
            intro g hg
            rw [hentered.topFrame] at hg
            split at hg
            next hmarked =>
              obtain rfl := some.inj hg
              exact ⟨item.2, mem_append_right _ (mem_singleton_self _), hmarked⟩
            next =>
              obtain ⟨e, he, hmarked⟩ := ht g hg
              exact ⟨e, mem_append_left _ he, hmarked⟩
          have hlast := hentered'.topIn _ hnext
          rw [← append_cons] at hlast
          exact hlast
        · apply hentered'.hasTop
          rw [hentered.topFrame]
          rcases ht with ht | ⟨a, ha, hmarked⟩
          · left
            split
            · rfl
            · exact ht
          · rcases mem_cons.mp ha with rfl | ha
            · left
              rw [if_pos hmarked]
              rfl
            · exact .inr ⟨a, ha, hmarked⟩
      · exact .inr hfull
    · refine .inr ⟨fun hall => hfull hall.first, m', l', ?_, hfree⟩
      exact call_append_failed hcall _

/-! ## The arguments -/

/-- The strings are the arguments, each up to its NUL. -/
def Terminated (argv : List (Option (Nat → Byte))) (strings : List ((Nat → Byte) × Nat)) : Prop :=
  argv = strings.map (fun s => some s.1) ∧
    ∀ s ∈ strings, s.2 < elfUserMaxArgLength ∧ s.1 s.2 = 0#8 ∧ ∀ j < s.2, s.1 j ≠ 0#8

theorem boundedStringLength_spec {string : Nat → Byte} {maximum n : Nat}
    (h : boundedStringLength string maximum = some n) :
    n < maximum ∧ string n = 0#8 ∧ ∀ j < n, string j ≠ 0#8 := by
  unfold boundedStringLength at h
  obtain ⟨hzero, i, hi, hget, hbefore⟩ := find?_eq_some_iff_getElem.mp h
  rw [length_range] at hi
  rw [getElem_range] at hget
  subst hget
  refine ⟨hi, beq_iff_eq.mp hzero, fun j hj => ?_⟩
  have hne := hbefore j hj
  rw [getElem_range, Bool.not_eq_true', beq_eq_false_iff_ne] at hne
  exact hne

theorem argumentStrings_spec {argv : List (Option (Nat → Byte))}
    {strings : List ((Nat → Byte) × Nat)} (h : argumentStrings argv = some strings) :
    Terminated argv strings := by
  unfold argumentStrings at h
  induction argv generalizing strings with
  | nil =>
    obtain rfl := some.inj h
    exact ⟨rfl, fun _ hs => nomatch hs⟩
  | cons argument argv ih =>
    rw [mapM_cons] at h
    obtain ⟨s, hs, h⟩ := bind_eq_some_iff.mp h
    obtain ⟨rest, hrest, h⟩ := bind_eq_some_iff.mp h
    obtain rfl := some.inj h
    obtain ⟨hargv, hall⟩ := ih hrest
    obtain ⟨string, rfl, hlength⟩ := bind_eq_some_iff.mp hs
    obtain ⟨n, hn, hpair⟩ := bind_eq_some_iff.mp hlength
    obtain rfl := some.inj hpair
    refine ⟨by rw [map_cons, ← hargv], fun s hs => ?_⟩
    rcases mem_cons.mp hs with rfl | hs
    · exact boundedStringLength_spec hn
    · exact hall s hs

theorem stackPages_nodup (stackAddress stackTop : Nat) :
    ((stackPages stackAddress stackTop).map (· / pageSize)).Nodup := by
  unfold stackPages
  rw [List.map_map]
  refine List.Nodup.map (fun i j he => ?_) nodup_range
  change (stackAddress + i * pageSize) / pageSize = (stackAddress + j * pageSize) / pageSize at he
  rw [Nat.add_mul_div_right _ _ (by decide), Nat.add_mul_div_right _ _ (by decide)] at he
  exact Nat.add_left_cancel he

/-! ## The whole call -/

variable {stackAddress stackTop : Nat} {argv : List (Option (Nat → Byte))}
  {strings : List ((Nat → Byte) × Nat)}

/-- Where the loader calls `map_user_stack`: the directory is there, with the pages `es`. -/
structure Calling (m0 : Machine) (k dir : Nat) (es : List (Entry × Nat)) (m : Machine) (l : Load) :
    Prop where
  laid : Laid m0 k dir [] es m
  directory : l.directory = some dir
  frame : l.frame = none
  topFrame : l.topFrame = none
  ok : l.failed = false

/-- The page is where it was after its frame was written. -/
theorem Laid.pageMap_rewritten (h : Laid m0 k dir [] es m) (hin : (e, f) ∈ es)
    (hw : Rewritten m k scratch f m') :
    pageMap m' dir e.number = some (f, true, e.page.writable) := by
  obtain ⟨hrow, hpte, -⟩ := h.kept (mem_map_of_mem (f := Prod.snd) hin) hw
  have hresident := h.resident _ hin
  have hblank : Resident m dir { e with page := ⟨e.page.writable, fun _ => none⟩ } f :=
    { hresident with holds := fun _ _ _ hb => nomatch hb }
  have hblank' : Resident m' dir { e with page := ⟨e.page.writable, fun _ => none⟩ } f :=
    { number := hblank.number
      pde := by rw [hrow]; exact hblank.pde
      pdeUser := by rw [hrow]; exact hblank.pdeUser
      pdeWritable := by rw [hrow]; exact hblank.pdeWritable
      pte := by rw [hpte _ (page_table_lt hblank.number) hblank.pde]; exact hblank.pte
      user := by rw [hpte _ (page_table_lt hblank.number) hblank.pde]; exact hblank.user
      writable := by rw [hpte _ (page_table_lt hblank.number) hblank.pde]; exact hblank.writable
      frame := by rw [hpte _ (page_table_lt hblank.number) hblank.pde]; exact hblank.frame
      holds := fun _ _ _ hb => nomatch hb }
  exact hblank'.pageMap

/-- The top frame is filled through the scratch page. -/
theorem Laid.topFilled (h : Laid m0 k dir [] es m) (hin : (e, f) ∈ es) (hok : l.failed = false)
    (htopFrame : l.topFrame = some f) {writes : List Step} (hw : Writes writes) (halts : Bool)
    (rest : List Step) : ∃ m' scratch,
      call (.mapTopFrame :: (writes ++ [.unmapScratch halts]) ++ rest) (m, l) =
        call rest (m', { l with holding := false }) ∧
      Rewritten m k scratch f m' ∧ Holds (m'.mem f) (overwritten writes e.page.bytes) ∧
      ScratchFree m' := by
  have hmem : f ∈ es.map Prod.snd := mem_map_of_mem (f := Prod.snd) hin
  have hframe := h.building.page f hmem
  have hready := h.building.ready
  obtain ⟨⟨m', l'⟩, hpass⟩ := @fill_passes _ _ _ _ _ _ _ _ _ halts h.building hmem
    (.inr ⟨rfl, htopFrame⟩) hw hok
  obtain ⟨⟨scratch, hrewritten⟩, rfl, hholds⟩ := filled (.inr ⟨rfl, htopFrame⟩) hw hpass hready.ok
    hready.directory (fun _ => hready.free) hframe.range.2 hframe.used hframe.neKernel
    hframe.neKernelTable
  exact ⟨m', scratch, call_of_passAll hpass rest, hrewritten, hholds _ (h.resident _ hin).holds,
    scratchFree_of_ready (h.building.rewritten hmem hrewritten).ready⟩

/-- The startup table goes into the top stack page, if it fits. -/
theorem Laid.arguments (h : Laid m0 k dir [] es m) {top : Nat} (hin : (stackEntry top top, f) ∈ es)
    (hstack : stackTop = top + pageSize) (hok : l.failed = false) (htopFrame : l.topFrame = some f)
    (htop : stackTop % pageSize = 0) (hlimit : stackTop ≤ elfUserLimit) : ∃ m' l',
    call (.mapTopFrame :: (writeArguments stackTop strings).1) (m, l) =
      some (decide (Fits strings), m', l') ∧ ScratchFree m' ∧
    (Fits strings → pageMap m' dir (top / pageSize) = some (f, true, true) ∧
      Startup (m'.mem f) top (startupPointer stackTop strings) strings
        (stringAddress stackTop strings)) := by
  have hpage : pageSize ≤ stackTop := by omega
  have hbottom : stackTop - pageSize = top := by omega
  by_cases hfits : Fits strings
  · have hsome : (writeArguments stackTop strings).2.isSome = true := by
      rw [writeArguments_fits htop hpage hfits]
      rfl
    obtain ⟨writes, hsteps, hwrites⟩ := writeArguments_spec hpage hsome
    obtain ⟨m', scratch, hcall, hw, hholds, hfree⟩ :=
      h.topFilled hin hok htopFrame hwrites true []
    rw [hsteps, decide_eq_true hfits]
    rw [append_nil] at hcall
    refine ⟨m', _, hcall, hfree, fun _ => ⟨h.pageMap_rewritten hin hw, ?_⟩⟩
    rw [← hbottom]
    refine @writeArguments_startup strings stackTop (stackEntry top top).page.bytes htop hpage
      (Nat.lt_of_le_of_lt hlimit (by decide)) hfits _ fun j b hj hb => ?_
    rw [hsteps, overwritten_unmap] at hb
    exact hholds j b hj hb
  · obtain ⟨writes, hsteps, hwrites⟩ := writeArguments_full htop hpage hfits
    obtain ⟨m', scratch, hcall, -, -, hfree⟩ :=
      h.topFilled hin hok htopFrame hwrites false [.reject]
    rw [hsteps, decide_eq_false hfits]
    have hsplit : (Step.mapTopFrame :: (writes ++ [.unmapScratch false, .reject]) : List Step) =
        .mapTopFrame :: (writes ++ [.unmapScratch false]) ++ [.reject] := by
      simp
    rw [hsplit, hcall]
    exact ⟨_, _, call_failed rfl, (scratchFree_freeFrame _).mpr hfree, fun hf => absurd hf hfits⟩

/-- The steps, when the stack range and the arguments are valid. -/
theorem mapUserStack_eq (haccepted : stackAccepted stackAddress stackTop = true)
    (hmany : argv.length ≠ 0) (hfew : argv.length ≤ elfUserMaxArgs)
    (hstrings : argumentStrings argv = some strings) : mapUserStack stackAddress stackTop argv =
      ((stackPages stackAddress stackTop).flatMap (populateStackPage (stackTop - pageSize)) ++
        (.mapTopFrame :: (writeArguments stackTop strings).1), (writeArguments stackTop strings).2) := by
  have hcount : ¬(argv.length = 0 ∨ elfUserMaxArgs < argv.length) := by omega
  unfold mapUserStack
  rw [if_neg (by rw [haccepted]; exact nofun), if_neg hcount, hstrings]
  dsimp only
  rw [append_assoc]
  rfl

/-- `map_user_stack` returns `true` exactly when the stack range is valid, the arguments fit
into a page and there is room for the stack; then the top stack page holds the startup
table. Either way the scratch page is unmapped. -/
theorem mapUserStack_startup (hcalling : Calling m0 k dir es m l) (hmany : argv.length ≠ 0)
    (hfew : argv.length ≤ elfUserMaxArgs) (hstrings : argumentStrings argv = some strings) :
    ∃ ok m' l', call (mapUserStack stackAddress stackTop argv).1 (m, l) = some (ok, m', l') ∧
      ScratchFree m' ∧
      (ok = true ↔ stackAccepted stackAddress stackTop = true ∧ Fits strings ∧
        HasRoom m dir (stackPages stackAddress stackTop)) ∧
      (ok = true → ∃ f sp, (mapUserStack stackAddress stackTop argv).2 = some sp ∧
        pageMap m' dir ((stackTop - pageSize) / pageSize) = some (f, true, true) ∧
        Terminated argv strings ∧
        Startup (m'.mem f) (stackTop - pageSize) sp strings (stringAddress stackTop strings)) := by
  by_cases haccepted : stackAccepted stackAddress stackTop = true
  · obtain ⟨-, htop, hlimit, -⟩ := stackAccepted_spec haccepted
    obtain ⟨hpage, htopPage⟩ := top_mem_stackPages haccepted
    obtain ⟨top, hstack⟩ := Nat.exists_eq_add_of_le' hpage
    have hbottom : stackTop - pageSize = top := by omega
    rw [hbottom] at htopPage
    rw [mapUserStack_eq haccepted hmany hfew hstrings, hbottom]
    dsimp only
    -- the pages of the stack
    generalize hitems : (stackPages stackAddress stackTop).map
      (fun v => (populateStackPage top v, stackEntry top v)) = items
    have hpopulates : ∀ item ∈ items, Populates item.1 item.2 := by
      intro item hitem
      rw [← hitems] at hitem
      obtain ⟨v, hv, rfl⟩ := List.mem_map.mp hitem
      exact populates_stackPage haccepted hv
    have hsteps : (stackPages stackAddress stackTop).flatMap (populateStackPage top) =
        items.flatMap Prod.fst := by
      rw [← hitems, List.flatMap_map]
    have haddresses : items.map (fun item => item.2.address) = stackPages stackAddress stackTop := by
      rw [← hitems, List.map_map]
      exact List.map_id' _
    have hnodup : (items.map fun item => item.2.number).Nodup := by
      rw [← hitems, List.map_map]
      exact stackPages_nodup _ _
    rw [hsteps]
    rcases hcalling.laid.entersAll hpopulates hnodup hcalling.directory hcalling.frame hcalling.ok with
      ⟨hroom, placed, m₁, l₁, hcall, hplaced, hentered⟩ | ⟨hfull, m', l', hcall, hfree⟩
    · rw [haddresses] at hroom
      -- the top page is the only one marked
      have hnone : TopIn l [] := by
        intro f hf
        rw [hcalling.topFrame] at hf
        cases hf
      have hentry : stackEntry top top ∈ placed.map Prod.fst := by
        rw [hplaced, ← hitems, List.map_map]
        exact List.mem_map_of_mem (f := stackEntry top) htopPage
      obtain ⟨⟨e, g⟩, hg, he⟩ := List.mem_map.mp hentry
      have hmarked : (stackEntry top top).top = true := beq_self_eq_true top
      obtain ⟨f, hf⟩ := Option.isSome_iff_exists.mp
        (hentered.hasTop (.inr ⟨(e, g), hg, by rw [show e = stackEntry top top from he]; exact hmarked⟩))
      obtain ⟨e', hin, htopMark⟩ := hentered.topIn [] hnone f hf
      rw [List.nil_append] at hin
      have he' : e' = stackEntry top top := by
        have hmem : e' ∈ placed.map Prod.fst := List.mem_map_of_mem (f := Prod.fst) hin
        rw [hplaced, ← hitems, List.map_map] at hmem
        obtain ⟨v, -, rfl⟩ := List.mem_map.mp hmem
        have hv : v = top := beq_iff_eq.mp htopMark
        rw [hv]
        rfl
      rw [he'] at hin
      obtain ⟨m', l', hrun, hfree, hstartup⟩ := @Laid.arguments _ _ _ _ _ _ _ _ strings
        hentered.laid _ (List.mem_append_right _ hin) hstack hentered.ok hf htop hlimit
      rw [call_append_done hcall]
      refine ⟨_, m', l', hrun, hfree, ?_, fun hok => ?_⟩
      · rw [decide_eq_true_iff]
        exact ⟨fun hfits => ⟨haccepted, hfits, hroom⟩, fun h => h.2.1⟩
      · have hfits := of_decide_eq_true hok
        obtain ⟨hmap, htable⟩ := hstartup hfits
        exact ⟨f, _, by rw [writeArguments_fits htop hpage hfits], hmap, argumentStrings_spec hstrings,
          htable⟩
    · rw [haddresses] at hfull
      refine ⟨false, m', l', call_append_failed hcall _, hfree, ?_, fun hok => nomatch hok⟩
      exact ⟨fun hok => (nomatch hok), fun h => absurd h.2.2 hfull⟩
  · rw [Bool.not_eq_true] at haccepted
    unfold mapUserStack
    rw [if_pos haccepted]
    refine ⟨false, _, _, call_failed rfl, ?_, ?_, fun hok => nomatch hok⟩
    · rw [scratchFree_freeFrame]
      exact scratchFree_of_ready hcalling.laid.building.ready
    · rw [haccepted]
      exact ⟨fun hok => (nomatch hok), fun h => (nomatch h.1)⟩

/-! ## At boot -/

theorem passAll_frames {c c' : Machine × Load} (h : passAll steps c = some c') :
    freeFrames c.1.used ≤ freeFrames c'.1.used + steps.length := by
  induction steps generalizing c with
  | nil =>
    obtain rfl := some.inj h
    exact Nat.le_add_right _ _
  | cons s steps ih =>
    rw [passAll_cons] at h
    obtain ⟨⟨m1, l1⟩, hpass, hrest⟩ := bind_eq_some_iff.mp h
    obtain ⟨hperform, hok⟩ := pass_iff.mp hpass
    have hfirst := perform_frames hok hperform
    have hothers := ih hrest
    rw [length_cons]
    dsimp only at hfirst hothers ⊢
    omega

/-- After boot, with a new directory, `map_user_stack` can be called. -/
theorem booted_calling : ∃ dir m l, Calling booted 1 dir [] m l ∧ 2 ≤ freeFrames m.used := by
  obtain ⟨us, w, hrun, hend, hok⟩ := spin_completes
  obtain ⟨l, hall, -⟩ := run_passAll hrun hend hok
  obtain ⟨strings, arguments, -, -, -, hsteps⟩ := (passing_of_passAll hall).steps_eq
  rw [hsteps, passAll_cons] at hall
  obtain ⟨⟨m1, l1⟩, hactive, hall⟩ := bind_eq_some_iff.mp hall
  obtain ⟨rfl, rfl⟩ := pass_kernelDirectoryActive hactive
  rw [passAll_append] at hall
  obtain ⟨⟨m, l2⟩, hcreate, -⟩ := bind_eq_some_iff.mp hall
  have hfew := passAll_frames hcreate
  obtain ⟨dir, rfl, hlaid⟩ := created_laid booted_ready hcreate
  refine ⟨dir, m, { Load.start [] with directory := some dir }, ⟨hlaid, rfl, rfl, rfl, rfl⟩, ?_⟩
  have hfree : ∀ x, 3 ≤ x → booted.used x = false := by
    intro x hx
    show decide (x ≤ 2) = false
    rw [decide_eq_false]
    omega
  have hframes := freeFrames_ge (by decide) hfree
  have hlength : pagingCreateUserDirectory.length + 2 ≤ frameCount - 3 := by decide +kernel
  dsimp only at hfew
  omega

/-- A stack of one page with the argument "a". -/
theorem mapUserStack_startup_booted : ∃ dir m l m' l' f sp strings, Calling booted 1 dir [] m l ∧
    call (mapUserStack 0x800000 0x801000 spin.argv).1 (m, l) = some (true, m', l') ∧ ScratchFree m' ∧
    pageMap m' dir 0x800 = some (f, true, true) ∧ Terminated spin.argv strings ∧
    Startup (m'.mem f) 0x800000 sp strings (stringAddress 0x801000 strings) := by
  obtain ⟨dir, m, l, hcalling, hframes⟩ := booted_calling
  obtain ⟨ok, m', l', hcall, hfree, hiff, hstartup⟩ :=
    @mapUserStack_startup booted m 1 dir l [] 0x800000 0x801000 spin.argv
      [(fun i => if i = 0 then 0x61 else 0, 1)] hcalling (by decide) (by decide) rfl
  have hvacant : pageMap m dir 0x800 = none :=
    (pageMap_none (by decide)).mpr
      (hcalling.laid.vacant 0x800 (by decide) (fun _ ha => nomatch ha) (by decide +kernel))
  have hok : ok = true := by
    refine hiff.mpr ⟨by decide, by decide, fun v hv => ?_, ?_⟩
    · obtain rfl : v = 0x800000 := by
        change v ∈ [0x800000] at hv
        exact List.mem_singleton.mp hv
      exact hvacant
    · show pageFrames (presentIn m dir) 0x800000 + 0 ≤ freeFrames m.used
      unfold pageFrames
      split <;> omega
  obtain ⟨f, sp, -, hmap, hterminated, htable⟩ := hstartup hok
  subst hok
  exact ⟨dir, m, l, m', l', f, sp, _, hcalling, hcall, hfree, hmap, hterminated, htable⟩

/-- A stack in the kernel's first pages is refused, though the argument fits and there
are frames for it. -/
theorem not_mapUserStack_fits : ¬ ∀ (m0 : Machine) (k dir : Nat) (es : List (Entry × Nat)) (m : Machine)
    (l : Load) (stackAddress stackTop : Nat) (argv : List (Option (Nat → Byte)))
    (strings : List ((Nat → Byte) × Nat)), Calling m0 k dir es m l →
    stackAccepted stackAddress stackTop = true → argv.length ≠ 0 → argv.length ≤ elfUserMaxArgs →
    argumentStrings argv = some strings → Fits strings →
    framesNeeded (presentIn m dir) (stackPages stackAddress stackTop) ≤ freeFrames m.used →
    ∃ m' l', call (mapUserStack stackAddress stackTop argv).1 (m, l) = some (true, m', l') := by
  intro h
  obtain ⟨dir, m, l, hcalling, hframes⟩ := booted_calling
  have hneeded : framesNeeded (presentIn m dir) (stackPages 0x1000 0x2000) ≤ freeFrames m.used := by
    show pageFrames (presentIn m dir) 0x1000 + 0 ≤ freeFrames m.used
    unfold pageFrames
    split <;> omega
  obtain ⟨m', l', hcall⟩ := h booted 1 dir [] m l 0x1000 0x2000 spin.argv
    [(fun i => if i = 0 then 0x61 else 0, 1)] hcalling (by decide) (by decide) (by decide) rfl
    (by decide) hneeded
  -- page 1 is in the kernel's first page table
  have hshared : (booted.mem 1 (1 / 1024)).shared = true := by decide +kernel
  have hpresent : (pteOf booted 1 1).has pagePresent = true := by decide +kernel
  have htaken : pageMap m dir 1 ≠ none := by
    rw [Ne, pageMap_none (by decide)]
    intro hnone
    have hfree := hnone (hcalling.laid.building.shared _ (by decide) (by decide) hshared).1
    rw [hcalling.laid.kernel 1 (by decide) (by decide) (fun _ ha => nomatch ha) hshared, hpresent]
      at hfree
    cases hfree
  have hpopulates : ∀ item ∈ [(populateStackPage 0x1000 0x1000, stackEntry 0x1000 0x1000)],
      Populates item.1 item.2 := by
    intro item hitem
    obtain rfl := List.mem_singleton.mp hitem
    exact @populates_stackPage 0x1000 0x2000 _ _ (by decide) (by decide)
  rcases hcalling.laid.entersAll hpopulates (List.nodup_singleton _) hcalling.directory hcalling.frame
    hcalling.ok with ⟨hroom, -⟩ | ⟨-, m₁, l₁, hfailed, -⟩
  · exact htaken (hroom.1 0x1000 (List.mem_singleton_self _))
  · rw [@mapUserStack_eq _ _ _ [(fun i => if i = 0 then 0x61 else 0, 1)] (by decide) (by decide)
      (by decide) rfl] at hcall
    have hrefused := call_append_failed hfailed
      (.mapTopFrame :: (writeArguments 0x2000 [(fun i => if i = 0 then 0x61 else 0, 1)]).1)
    cases (Prod.mk.inj (Option.some.inj (hcall.symm.trans hrefused))).1

end MeatySkeleton.Elf
