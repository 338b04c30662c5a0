import MeatySkeleton.Elf.Laying

/-!
# What a load that goes through has made

Page after page, a load that meets no failure lays out the image of its program
(`Laid.populatedAll`), and it takes a program that passes every test to get there
(`passing_of_passAll`). The arguments go into the top stack page at the end, and
into no other.
-/

namespace MeatySkeleton.Elf

open List Option Lib Paging

variable {m0 m m' : Machine} {k dir f : Nat} {l l' : Load} {e : Entry} {es : List (Entry × Nat)}
  {steps : List Step} {p : Program} {s : ProgramHeader}

/-! ## One page -/

/-- These steps fill a frame with the page's contents and enter it. -/
def Populates (steps : List Step) (e : Entry) : Prop :=
  ∃ writes flags, steps = .allocateFrame :: .mapScratch ::
      (writes ++ [.unmapScratch true, .enterPage e.address flags e.top]) ∧
    Writes writes ∧ overwritten writes (fun _ => none) = e.page.bytes ∧
    flags.has pageUser = true ∧ flags.has pageWritable = e.page.writable ∧
    e.address % pageSize = 0 ∧ e.address < elfUserLimit

theorem number_lt (h : e.address < elfUserLimit) :
    e.number < pageCount ∧ e.number / 1024 ≠ scratchIndex := by
  rw [elfUserLimit] at h
  rw [Entry.number, pageSize, pageCount, scratchIndex]
  omega

/-- The frame of the load is entered in its directory. -/
theorem pass_enterPage {loose : List Nat} {flags : Word}
    (h : (Step.enterPage e.address flags e.top).pass (m, l) = some (m', l'))
    (hbuilding : Building m0 k dir loose m) (hframe : l.frame = some f)
    (hdirectory : l.directory = some dir) (haligned : e.address % pageSize = 0)
    (hnumber : e.number < pageCount) (hscratch : e.number / 1024 ≠ scratchIndex) :
    MapOutcome m dir (e.number / 1024) (e.number % 1024) f flags (true, m') ∧
      l' = { l with frame := none, topFrame := if e.top then some f else l.topFrame } := by
  obtain ⟨hd, ht⟩ := aligned_index haligned hnumber
  obtain ⟨⟨ok, m1⟩, hmap, hout⟩ := hbuilding.mapInDirectory haligned
    (by rw [hd]; exact page_table_lt hnumber) (by rw [hd]; exact hscratch) f flags
  rw [hd, ht] at hout
  obtain ⟨hperform, hok⟩ := pass_iff.mp h
  dsimp only [Step.perform] at hperform
  rw [hframe, hdirectory] at hperform
  change (pagingMapPageInDirectory m (dir * pageSize) e.address (f * pageSize) flags).bind _ = _
    at hperform
  rw [hmap, bind_some] at hperform
  cases ok with
  | true =>
    cases hperform
    rw [← hdirectory]
    exact ⟨hout, rfl⟩
  | false =>
    exact absurd hperform (Load.not_fail hok)

theorem Laid.populated (h : Laid m0 k dir [] es m) (hp : Populates steps e)
    (hdirectory : l.directory = some dir) (hpass : passAll steps (m, l) = some (m', l')) :
    ∃ f, Laid m0 k dir [] (es ++ [(e, f)]) m' ∧ l'.directory = some dir ∧
      l'.topFrame = if e.top then some f else l.topFrame := by
  obtain ⟨writes, flags, rfl, hwrites, hbytes, huser, hwritable, haligned, hlimit⟩ := hp
  obtain ⟨hnumber, hscratch⟩ := number_lt hlimit
  rw [passAll_cons] at hpass
  obtain ⟨⟨m1, l1⟩, hallocate, hpass⟩ := bind_eq_some_iff.mp hpass
  obtain ⟨f, hrange, hfree, rfl, rfl⟩ := pass_allocateFrame hallocate
  have hallocated := h.allocated hrange hfree
  have hloose : f ∈ [f] ++ es.map Prod.snd := mem_cons_self ..
  have hpage := hallocated.building.page f hloose
  have hready := hallocated.building.ready
  have hblock : (Step.mapScratch :: (writes ++
      [.unmapScratch true, .enterPage e.address flags e.top]) : List Step) =
      (.mapScratch :: (writes ++ [.unmapScratch true])) ++ [.enterPage e.address flags e.top] := by
    simp
  rw [hblock, passAll_append] at hpass
  obtain ⟨⟨m2, l2⟩, hfill, hpass⟩ := bind_eq_some_iff.mp hpass
  obtain ⟨⟨scratch, hw⟩, rfl, hholds⟩ := filled (.inl ⟨rfl, rfl⟩) hwrites hfill hready.ok
    hready.directory (fun _ => hready.free) hrange.2 hpage.used hpage.neKernel hpage.neKernelTable
  have hrewritten := hallocated.rewritten (mem_singleton_self f) hw
  have hknown : Holds (m2.mem f) e.page.bytes := by
    rw [← hbytes]
    exact hholds _ fun _ _ _ hb => nomatch hb
  rw [passAll_cons] at hpass
  obtain ⟨⟨m3, l3⟩, henter, hend⟩ := bind_eq_some_iff.mp hpass
  obtain ⟨hout, rfl⟩ := pass_enterPage henter hrewritten.building rfl hdirectory haligned hnumber
    hscratch
  cases hend
  exact ⟨f, hrewritten.entered hout hnumber hscratch huser hwritable hknown, hdirectory, rfl⟩

/-- `top_stack_frame` is the frame of a page marked as the top one. -/
def TopIn (l : Load) (es : List (Entry × Nat)) : Prop :=
  ∀ f, l.topFrame = some f → ∃ e, (e, f) ∈ es ∧ e.top = true

/-- Page after page. -/
theorem Laid.populatedAll {items : List (List Step × Entry)} (h : Laid m0 k dir [] es m)
    (hitems : ∀ item ∈ items, Populates item.1 item.2) (hdirectory : l.directory = some dir)
    (htop : TopIn l es) (hpass : passAll (items.flatMap Prod.fst) (m, l) = some (m', l')) :
    ∃ placed, placed.map Prod.fst = items.map Prod.snd ∧ Laid m0 k dir [] (es ++ placed) m' ∧
      l'.directory = some dir ∧ TopIn l' (es ++ placed) := by
  induction items generalizing es m l with
  | nil =>
    cases hpass
    refine ⟨[], rfl, ?_, hdirectory, ?_⟩
    · rw [append_nil]
      exact h
    · rw [append_nil]
      exact htop
  | cons item items ih =>
    rw [flatMap_cons, passAll_append] at hpass
    obtain ⟨⟨m1, l1⟩, hfirst, hrest⟩ := bind_eq_some_iff.mp hpass
    obtain ⟨f, hlaid, hdirectory', htop'⟩ :=
      h.populated (hitems item (mem_cons_self ..)) hdirectory hfirst
    have htopIn : TopIn l1 (es ++ [(item.2, f)]) := by
      intro g hg
      rw [htop'] at hg
      split at hg
      next hmarked =>
        obtain rfl := some.inj hg
        exact ⟨item.2, mem_append_right _ (mem_singleton_self _), hmarked⟩
      next =>
        obtain ⟨e, he, hmarked⟩ := htop g hg
        exact ⟨e, mem_append_left _ he, hmarked⟩
    obtain ⟨placed, hplaced, hall⟩ := ih hlaid (fun i hi => hitems i (mem_cons_of_mem _ hi))
      hdirectory' htopIn hrest
    refine ⟨(item.2, f) :: placed, ?_, ?_⟩
    · rw [map_cons, hplaced, map_cons]
    · rw [← append_cons] at hall
      exact hall

/-! ## The pages of a program -/

theorem pages_lt {v : Nat} (h : s.memoryEnd ≤ elfUserLimit) (hv : v ∈ s.pages) :
    v % pageSize = 0 ∧ v < elfUserLimit := by
  obtain ⟨i, hi, rfl⟩ := mem_map.mp hv
  have hlt := mem_range.mp hi
  rw [elfUserLimit] at h ⊢
  rw [pageAlignDown, pageAlignDown, pageSize] at hlt
  rw [pageAlignDown, pageSize]
  omega

theorem stackPages_lt {stackAddress stackTop v : Nat}
    (h : stackAccepted stackAddress stackTop = true) (hv : v ∈ stackPages stackAddress stackTop) :
    v % pageSize = 0 ∧ v < elfUserLimit ∧ stackAddress ≤ v := by
  obtain ⟨hlow, htop, hlimit, -⟩ := stackAccepted_spec h
  obtain ⟨i, hi, rfl⟩ := mem_map.mp hv
  have hlt := mem_range.mp hi
  rw [elfUserLimit] at hlimit ⊢
  rw [pageSize] at hlow htop hlt ⊢
  omega

theorem populates_segmentPage {file : File} {v : Nat} (h : s.memoryEnd ≤ elfUserLimit)
    (hv : v ∈ s.pages) : Populates (populateSegmentPage file s v) (segmentEntry file s v) := by
  obtain ⟨huser, hwritable⟩ := mappingFlags_spec s
  obtain ⟨hbytes, -⟩ := overwritten_page (overwritten_segmentPage file s v)
  refine ⟨memset 0 pageSize ++ copySegmentPage file s v, s.mappingFlags, ?_,
    writes_segmentPage file s v, hbytes, huser, hwritable, pages_lt h hv⟩
  simp [populateSegmentPage, segmentEntry]

theorem populates_stackPage {stackAddress stackTop topStackPage v : Nat}
    (h : stackAccepted stackAddress stackTop = true) (hv : v ∈ stackPages stackAddress stackTop) :
    Populates (populateStackPage topStackPage v) (stackEntry topStackPage v) := by
  obtain ⟨hbytes, -⟩ := overwritten_page overwritten_zero
  obtain ⟨haligned, hlimit, -⟩ := stackPages_lt h hv
  refine ⟨memset 0 pageSize, pageUser ||| pageWritable, ?_, writes_memset 0, hbytes, by decide,
    rfl, haligned, hlimit⟩
  simp [populateStackPage, stackEntry]

theorem Passing.populates (h : Passing p) : ∀ item ∈ p.items, Populates item.1 item.2 := by
  intro item hitem
  rcases mem_append.mp hitem with hin | hin
  · obtain ⟨s, hs, hin⟩ := mem_flatMap.mp hin
    obtain ⟨v, hv, rfl⟩ := mem_map.mp hin
    exact populates_segmentPage (accepted_spec (h.segments s hs)) hv
  · obtain ⟨v, hv, rfl⟩ := mem_map.mp hin
    exact populates_stackPage (mapUserStack_spec h.stack).1 hv

/-! ## The tests -/

/-- A load that comes to a failed test does not go through. -/
theorem passAll_reject {c : Machine × Load} (h : .reject ∈ steps) : passAll steps c = none := by
  induction steps generalizing c with
  | nil => cases h
  | cons s steps ih =>
    rw [passAll_cons]
    rcases mem_cons.mp h with rfl | h
    · have hnone : Step.reject.pass c = none := by
        rw [eq_none_iff_forall_not_mem]
        intro c' hc
        obtain ⟨hperform, hok⟩ := pass_iff.mp hc
        exact absurd hperform (Load.not_fail hok)
      rw [hnone]
      rfl
    · cases s.pass c with
      | none => rfl
      | some c' => exact ih h

theorem copyArguments_none {bottom : Nat} : ∀ {strings : List ((Nat → Byte) × Nat)} {sp : Nat},
    (copyArguments bottom strings sp).2 = none → .reject ∈ (copyArguments bottom strings sp).1
  | [], _, h => nomatch h
  | (string, length) :: rest, sp, h => by
    rw [copyArguments] at h ⊢
    split at h
    next hfull =>
      rw [if_pos hfull]
      simp
    next hfull =>
      rw [if_neg hfull]
      have hrest : (copyArguments bottom rest (sp - (length + 1))).2 = none := map_eq_none_iff.mp h
      exact mem_append_right _ (copyArguments_none hrest)

theorem writeArguments_none {stackTop : Nat} {strings : List ((Nat → Byte) × Nat)}
    (h : (writeArguments stackTop strings).2 = none) :
    .reject ∈ (writeArguments stackTop strings).1 := by
  have hnone := @copyArguments_none (stackTop - pageSize) strings.reverse stackTop
  rw [writeArguments] at h ⊢
  generalize hcopy : copyArguments (stackTop - pageSize) strings.reverse stackTop = r at h hnone ⊢
  obtain ⟨steps, _ | ⟨sp, addresses⟩⟩ := r
  · exact hnone rfl
  · dsimp only at h ⊢
    split at h
    next hfull =>
      rw [if_pos hfull]
      simp
    next => cases h

theorem mapUserStack_none {stackAddress stackTop : Nat} {argv : List (Option (Nat → Byte))}
    (h : (mapUserStack stackAddress stackTop argv).2 = none) :
    .reject ∈ (mapUserStack stackAddress stackTop argv).1 := by
  rw [mapUserStack] at h ⊢
  split
  next => exact mem_singleton_self _
  next haccepted =>
    rw [if_neg haccepted] at h
    split
    next => exact mem_singleton_self _
    next hcount =>
      rw [if_neg hcount] at h
      cases hstrings : argumentStrings argv with
      | none => exact mem_singleton_self _
      | some strings =>
        rw [hstrings] at h
        exact mem_append_right _ (writeArguments_none h)

/-- A program whose load goes through passes every test of the loader. -/
theorem passing_of_passAll {c c' : Machine × Load} (h : passAll p.steps c = some c') : Passing p := by
  have hno : .reject ∉ p.steps := by
    intro hin
    rw [passAll_reject hin] at h
    cases h
  rw [Program.steps, elfLoadUserImage] at hno
  by_cases hsize : p.file.size < elfHeaderSize
  · rw [if_pos hsize] at hno
    exact absurd (mem_singleton_self _) hno
  rw [if_neg hsize] at hno
  have hheader := not_mem_of_not_mem_cons hno
  by_cases hbad : headerAccepted p.file = false
  · rw [if_pos hbad] at hheader
    exact absurd (mem_singleton_self _) hheader
  rw [if_neg hbad] at hheader
  -- no segment, and nothing after the segments, is rejected
  have hsegments : ∀ s ∈ p.file.segments, .reject ∉ loadSegment p.file s := fun s hs hin =>
    hheader (mem_append_left _ (mem_append_right _ (mem_flatMap_of_mem hs hin)))
  have hrest := fun hin => hheader (mem_append_right _ hin)
  by_cases hnone : p.file.segments = []
  · rw [if_pos hnone] at hrest
    exact absurd (mem_singleton_self _) hrest
  rw [if_neg hnone] at hrest
  by_cases hentry : p.file.segments.any (ProgramHeader.holdsEntry · p.file.entry) = false
  · rw [if_pos hentry] at hrest
    exact absurd (mem_singleton_self _) hrest
  rw [if_neg hentry] at hrest
  exact
    { size := Nat.not_lt.mp hsize
      header := (Bool.not_eq_false _).mp hbad
      segments := fun s hs => by
        by_contra hrejected
        rw [Bool.not_eq_true] at hrejected
        refine hsegments s hs ?_
        rw [loadSegment, if_neg (segment_size hs), if_pos hrejected]
        exact mem_singleton_self _
      entry := (Bool.not_eq_false _).mp hentry
      stack := by
        by_contra hstack
        rw [Bool.not_eq_true, isSome_eq_false_iff, isNone_iff_eq_none] at hstack
        exact hrest (mem_append_left _ (mapUserStack_none hstack)) }

end MeatySkeleton.Elf
