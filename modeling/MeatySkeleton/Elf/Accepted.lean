import MeatySkeleton.Elf.Accepting
import MeatySkeleton.Elf.Completing

/-!
# The images `elf_load_user_image` accepts

For a load that returns `true`, whatever the file: every byte of a segment is where
the program header puts it, with the segment's permissions (`run_accepted`). Below
the stack there is nothing else but pages of the kernel's own page tables, which
every user directory shares, so that a page that is mapped there need not belong to
a segment (`not_run_accepted`).
-/

namespace MeatySkeleton.Elf

open List Option Lib Paging

variable {m0 m m' : Machine} {k dir f n scratch : Nat} {l l' : Load} {e : Entry}
  {es : List (Entry × Nat)} {p : Program} {s : ProgramHeader}

/-! ## The whole load -/

theorem pass_kernelDirectoryActive {halts : Bool}
    (h : (Step.kernelDirectoryActive halts).pass (m, l) = some (m', l')) : m' = m ∧ l' = l := by
  obtain ⟨hperform, hok⟩ := pass_iff.mp h
  dsimp only [Step.perform] at hperform
  split at hperform
  next =>
    cases hperform
    exact ⟨rfl, rfl⟩
  next =>
    split at hperform
    next => cases hperform
    next =>
      exact absurd hperform (Load.not_fail hok)

/-- The new directory, with no page in it. -/
theorem created_laid (hready : KernelReady m0 k)
    (h : passAll pagingCreateUserDirectory (m0, .start []) = some (m', l')) :
    ∃ dir, l' = { Load.start [] with directory := some dir } ∧ Laid m0 k dir [] [] m' := by
  obtain ⟨dir, scratch, rfl, hfree, hrange, hw, hrow⟩ := created hready h
  have hnew : ∀ x, m0.used x = true → x ≠ dir := by
    intro x hx he
    rw [← he, hx] at hfree
    cases hfree
  refine ⟨dir, rfl,
    { building := hw.building hready hfree hrange hrow
      fresh := fun _ hf => nomatch hf
      injective := fun _ ha => nomatch ha
      resident := fun _ ha => nomatch ha
      kernel := fun n hn hne _ hs => ?_
      vacant := fun n hn _ hs hp => ?_ }⟩
  · have hd := page_table_lt hn
    obtain ⟨hp, -⟩ := shared_spec hs
    have htable := hready.ok.tableUsed _ hd hp
    have hscratch : frameOf (m0.mem k (n / 1024)) ≠ scratch := by
      intro he
      rcases hw.slot with ⟨hp', hframe, -⟩ | ⟨-, -, hunused, -⟩
      · exact hne (hready.ok.distinct _ _ hd (by decide) hp hp' (he.trans hframe.symm))
      · have hmarked : (m0.markUsed dir).used scratch = true :=
          m0.markUsed_mono dir (by rw [← he]; exact htable)
        rw [hmarked] at hunused
        cases hunused
    rw [pteOf, hrow _ (by omega), newEntry_shared hd hne hs,
      hw.rest _ (hready.ok.tableNe _ hd hp) hscratch (hnew _ htable)]
    rfl
  · rw [hrow _ (Nat.lt_succ_of_lt (page_table_lt hn))] at hp
    rw [(newEntry_present (page_table_lt hn) hp).2.2] at hs
    cases hs

/-- What a load that goes through has made: the image is laid out, and then the top
stack page was written once more. -/
theorem laid_of_passAll (hready : KernelReady m0 k)
    (h : passAll p.steps (m0, .start []) = some (m', l')) :
    ∃ dir m es e f scratch, l'.directory = some dir ∧ es.map Prod.fst = p.entries ∧
      Laid m0 k dir [] es m ∧ (e, f) ∈ es ∧ e.top = true ∧ Rewritten m k scratch f m' := by
  have hpassing := passing_of_passAll h
  obtain ⟨strings, arguments, -, -, hwrites, hsteps⟩ := hpassing.steps_eq
  rw [hsteps, passAll_cons] at h
  obtain ⟨⟨m1, l1⟩, hactive, h⟩ := bind_eq_some_iff.mp h
  obtain ⟨rfl, rfl⟩ := pass_kernelDirectoryActive hactive
  rw [passAll_append] at h
  obtain ⟨⟨m2, l2⟩, hcreate, h⟩ := bind_eq_some_iff.mp h
  obtain ⟨dir, rfl, hempty⟩ := created_laid hready hcreate
  rw [passAll_append] at h
  obtain ⟨⟨m3, l3⟩, hitems, h⟩ := bind_eq_some_iff.mp h
  obtain ⟨es, hes, hlaid, hdirectory, htop⟩ := hempty.populatedAll hpassing.populates rfl
    (fun f hf => by cases hf) hitems
  rw [nil_append] at hlaid htop
  rw [Program.items_entries] at hes
  have hend : (Step.mapTopFrame :: (arguments ++ [.unmapScratch true, .kernelDirectoryActive true])
      : List Step) = (.mapTopFrame :: (arguments ++ [.unmapScratch true])) ++
        [.kernelDirectoryActive true] := by
    simp
  rw [hend, passAll_append] at h
  obtain ⟨⟨m4, l4⟩, hfill, h⟩ := bind_eq_some_iff.mp h
  cases hframe : l3.topFrame with
  | none =>
    -- without a top frame the load fails
    rw [passAll_cons] at hfill
    obtain ⟨⟨m5, l5⟩, hopen, -⟩ := bind_eq_some_iff.mp hfill
    obtain ⟨hperform, hok⟩ := pass_iff.mp hopen
    dsimp only [Step.perform] at hperform
    rw [hframe] at hperform
    exact absurd hperform (Load.not_fail hok)
  | some f =>
    obtain ⟨e, he, hmarked⟩ := htop f hframe
    have hpage := hlaid.building.page f (mem_map_of_mem he)
    have hslot := hlaid.building.ready
    obtain ⟨⟨scratch, hw⟩, rfl, -⟩ := filled (.inr ⟨rfl, hframe⟩) hwrites hfill hslot.ok
      hslot.directory (fun _ => hslot.free) hpage.range.2 hpage.used hpage.neKernel
      hpage.neKernelTable
    rw [passAll_cons] at h
    obtain ⟨⟨m5, l5⟩, hactive', hnil⟩ := bind_eq_some_iff.mp h
    obtain ⟨rfl, rfl⟩ := pass_kernelDirectoryActive hactive'
    cases hnil
    exact ⟨dir, m3, es, e, f, scratch, hdirectory, hes, hlaid, he, hmarked, hw⟩

/-! ## What user code finds -/

/-- The page is one the kernel's page tables had, reachable for user code only if
the kernel's own entry was. -/
def KernelPage (m0 : Machine) (k n f : Nat) (user : Bool) : Prop :=
  (m0.mem k (n / 1024)).shared = true ∧ (pteOf m0 k n).has pagePresent = true ∧
    frameOf (pteOf m0 k n) = f ∧ (user = true → (pteOf m0 k n).has pageUser = true)

/-- Page `n` has a byte of the segment in it. -/
def ProgramHeader.Covers (s : ProgramHeader) (n : Nat) : Prop :=
  s.virtualAddress < (n + 1) * pageSize ∧ n * pageSize < s.memoryEnd

theorem page_of_address {a : Nat} (hlow : s.virtualAddress ≤ a) (hhigh : a < s.memoryEnd) :
    a / pageSize * pageSize ∈ s.pages := by
  refine mem_map.mpr ⟨a / pageSize - s.virtualAddress / pageSize, mem_range.mpr ?_, ?_⟩
  · rw [pageAlignDown, pageAlignDown, pageSize]
    omega
  · rw [pageAlignDown, pageSize]
    omega

theorem covers_of_page {v : Nat} (hv : v ∈ s.pages) : s.Covers (v / pageSize) := by
  obtain ⟨i, hi, rfl⟩ := mem_map.mp hv
  have hlt := mem_range.mp hi
  rw [ProgramHeader.memoryEnd, pageAlignDown, pageAlignDown, pageSize] at hlt
  rw [ProgramHeader.Covers, ProgramHeader.memoryEnd, pageAlignDown, pageSize]
  omega

/-- A byte of a segment is in its page, which the arguments are not written to. -/
theorem Laid.segment (h : Laid m0 k dir [] es m) (hes : es.map Prod.fst = p.entries)
    (htop : (e, f) ∈ es) (hmarked : e.top = true) (hw : Rewritten m k scratch f m')
    (hs : s ∈ p.file.segments) {a : Nat} (hlow : s.virtualAddress ≤ a) (hhigh : a < s.memoryEnd) :
    ∃ g, pageMap m' dir (a / pageSize) = some (g, true, s.writable) ∧
      byteOf (m'.mem g) (a % pageSize) = segmentByte p.file s a := by
  have hpage := page_of_address hlow hhigh
  have hentry : segmentEntry p.file s (a / pageSize * pageSize) ∈ es.map Prod.fst := by
    rw [hes]
    exact mem_append_left _ (mem_flatMap_of_mem hs (mem_map_of_mem hpage))
  obtain ⟨⟨e', g⟩, hin, he⟩ := mem_map.mp hentry
  dsimp only at he
  have hne : g ≠ f := by
    intro hgf
    have hsame := (Prod.mk.inj (h.injective _ hin _ htop hgf)).1
    rw [← hsame, he] at hmarked
    cases hmarked
  obtain ⟨-, -, hresidents⟩ := h.kept (mem_map_of_mem htop) hw
  have hresident := hresidents _ hin hne
  dsimp only at hresident
  rw [he] at hresident
  have hnumber : (segmentEntry p.file s (a / pageSize * pageSize)).number = a / pageSize :=
    Nat.mul_div_cancel _ (by decide)
  have hlt : a % pageSize < pageSize := Nat.mod_lt _ (by decide)
  refine ⟨g, ?_, hresident.holds (a % pageSize) _ hlt ?_⟩
  · rw [← hnumber]
    exact hresident.pageMap
  · show pageBytes (fun j => segmentByte p.file s (a / pageSize * pageSize + j)) _ = _
    rw [pageBytes, if_pos hlt, Nat.div_add_mod']

/-- A page below the stack belongs to a segment, or is one of the kernel's. -/
theorem Laid.below (h : Laid m0 k dir [] es m) (hes : es.map Prod.fst = p.entries)
    (hpassing : Passing p) (htop : (e, f) ∈ es) (hw : Rewritten m k scratch f m') {g : Nat}
    {user writable : Bool} (hn : n < p.stackAddress / pageSize)
    (hpage : pageMap m' dir n = some (g, user, writable)) :
    (∃ s ∈ p.file.segments, s.Covers n) ∨ KernelPage m0 k n g user := by
  by_cases hin : ∃ a ∈ es, a.1.number = n
  · -- one of the image's own pages, not of the stack
    obtain ⟨a, ha, hnumber⟩ := hin
    have hentry : a.1 ∈ p.entries := by
      rw [← hes]
      exact mem_map_of_mem ha
    rcases mem_append.mp hentry with hsegment | hstack
    · obtain ⟨s, hs, he⟩ := mem_flatMap.mp hsegment
      obtain ⟨v, hv, he⟩ := mem_map.mp he
      refine .inl ⟨s, hs, ?_⟩
      rw [← hnumber, ← he]
      exact covers_of_page hv
    · obtain ⟨v, hv, he⟩ := mem_map.mp hstack
      have hlow := (stackPages_lt (mapUserStack_spec hpassing.stack).1 hv).2.2
      rw [← hnumber, ← he] at hn
      exact absurd hn (Nat.not_lt.mpr (Nat.div_le_div_right hlow))
  · have hother : ∀ a ∈ es, a.1.number ≠ n := fun a ha hnumber => hin ⟨a, ha, hnumber⟩
    obtain ⟨hrow, hpte, -⟩ := h.kept (mem_map_of_mem htop) hw
    have hcount : n < pageCount := by
      by_contra hge
      rw [pageMap, if_neg hge] at hpage
      cases hpage
    obtain ⟨hd, ht, hlow⟩ := page_index hcount
    rw [pageMap, if_pos hcount] at hpage
    have hp : (m.mem dir (n / 1024)).has pagePresent = true := by
      by_contra habsent
      rw [Bool.not_eq_true] at habsent
      rw [mapping_absent (by rw [hd, hrow]; exact habsent)] at hpage
      cases hpage
    have hentry := hpte n hlow hp
    have hne : n / 1024 ≠ scratchIndex := by
      intro he
      rw [he, h.building.dirScratch] at hp
      cases hp
    unfold mapping at hpage
    dsimp only at hpage
    rw [hd, ht, ← pteOf, hentry, hrow, hp, Bool.true_and] at hpage
    cases hs : (m0.mem k (n / 1024)).shared with
    | false =>
      rw [h.vacant n hcount hother hs hp] at hpage
      cases hpage
    | true =>
      rw [h.kernel n hcount hne hother hs] at hpage
      split at hpage
      next hpresent =>
        obtain ⟨hframe, hflags⟩ := Prod.mk.inj (some.inj hpage)
        refine .inr ⟨hs, hpresent, hframe, fun hu => ?_⟩
        have huser := (Prod.mk.inj hflags).1
        rw [hu, Bool.and_eq_true] at huser
        exact huser.2
      next => cases hpage

/-- The image of every file the loader accepts: a byte of a segment is in a user page
with the segment's permissions, and is the file's byte or zero; and a page mapped below
the stack belongs to a segment or is one of the kernel's own page tables. -/
theorem run_accepted {us : List Unit} {w : World Unit} (hready : KernelReady m0 k)
    (hrun : Run step (start m0 fun _ : Unit => p.steps) us w) (hend : (w.load ()).steps = [])
    (hok : (w.load ()).failed = false) :
    ∃ dir, (w.load ()).directory = some dir ∧
      (∀ s ∈ p.file.programHeaders, s.type = 1 → ∀ a, s.virtualAddress ≤ a → a < s.memoryEnd →
        ∃ f, pageMap w.machine dir (a / pageSize) = some (f, true, s.writable) ∧
          byteOf (w.machine.mem f) (a % pageSize) =
            if a - s.virtualAddress < s.fileSize then
              p.file.bytes (s.offset + (a - s.virtualAddress)) else 0) ∧
      ∀ n f user writable, n < p.stackAddress / pageSize →
        pageMap w.machine dir n = some (f, user, writable) →
        (∃ s ∈ p.file.segments, s.Covers n) ∨ KernelPage m0 k n f user := by
  obtain ⟨l, hall, hsame⟩ := run_passAll hrun hend hok
  obtain ⟨dir, m, es, e, f, scratch, hdirectory, hes, hlaid, hin, hmarked, hw⟩ :=
    laid_of_passAll hready hall
  refine ⟨dir, hsame.trans hdirectory, fun s hs htype a hlow hhigh => ?_, fun n g user writable hn => ?_⟩
  · have hsize : s.memorySize ≠ 0 := by
      intro hzero
      rw [ProgramHeader.memoryEnd, hzero] at hhigh
      omega
    have hsegment : s ∈ p.file.segments := by
      refine List.mem_filter.mpr ⟨hs, ?_⟩
      rw [htype, Bool.and_eq_true, bne_iff_ne]
      exact ⟨rfl, hsize⟩
    obtain ⟨g, hpage, hbyte⟩ := hlaid.segment hes hin hmarked hw hsegment hlow hhigh
    refine ⟨g, hpage, hbyte.trans ?_⟩
    have hcase : s.virtualAddress ≤ a ∧ a < s.virtualAddress + s.fileSize ↔
        a - s.virtualAddress < s.fileSize := by omega
    rw [segmentByte]
    simp only [hcase]
  · exact hlaid.below hes (passing_of_passAll hall) hin hw hn

/-- The smallest of programs, from beginning to end. -/
theorem run_accepted_spin : ∃ us w, Run step (start booted fun _ : Unit => spin.steps) us w ∧
    (w.load ()).steps = [] ∧ (w.load ()).failed = false ∧
    ∃ dir, (w.load ()).directory = some dir ∧
      (∀ s ∈ spin.file.programHeaders, s.type = 1 → ∀ a, s.virtualAddress ≤ a → a < s.memoryEnd →
        ∃ f, pageMap w.machine dir (a / pageSize) = some (f, true, s.writable) ∧
          byteOf (w.machine.mem f) (a % pageSize) =
            if a - s.virtualAddress < s.fileSize then
              spin.file.bytes (s.offset + (a - s.virtualAddress)) else 0) ∧
      ∀ n f user writable, n < spin.stackAddress / pageSize →
        pageMap w.machine dir n = some (f, user, writable) →
        (∃ s ∈ spin.file.segments, s.Covers n) ∨ KernelPage booted 1 n f user := by
  obtain ⟨us, w, hrun, hend, hok⟩ := spin_completes
  exact ⟨us, w, hrun, hend, hok, run_accepted booted_ready hrun hend hok⟩

/-- The kernel's first page is mapped below the stack of every program. -/
theorem not_run_accepted : ¬ ∀ (m0 : Machine) (k : Nat) (p : Program) (us : List Unit)
    (w : World Unit), KernelReady m0 k → Run step (start m0 fun _ : Unit => p.steps) us w →
    (w.load ()).steps = [] → (w.load ()).failed = false →
    ∃ dir, (w.load ()).directory = some dir ∧
      ∀ n page, n < p.stackAddress / pageSize → pageMap w.machine dir n = some page →
        ∃ s ∈ p.file.segments, s.Covers n := by
  intro h
  obtain ⟨us, w, hrun, hend, hok⟩ := spin_completes
  obtain ⟨dir, hdirectory, hcovered⟩ := h booted 1 spin us w booted_ready hrun hend hok
  obtain ⟨l, hall, hsame⟩ := run_passAll hrun hend hok
  obtain ⟨dir', m, es, e, f, scratch, hdirectory', hes, hlaid, hin, -, hw⟩ :=
    laid_of_passAll booted_ready hall
  rw [hsame, hdirectory'] at hdirectory
  obtain rfl := Option.some.inj hdirectory
  -- the first page is in the kernel's first page table, and no page of the program is
  have hshared : (booted.mem 1 (0 / 1024)).shared = true := by decide +kernel
  have hpresent : (pteOf booted 1 0).has pagePresent = true := by decide +kernel
  have hentries : spin.entries.all (fun e => e.number != 0) = true := by decide +kernel
  have hother : ∀ a ∈ es, a.1.number ≠ 0 := by
    intro a ha
    have hentry := List.mem_map_of_mem (f := Prod.fst) ha
    rw [hes] at hentry
    exact bne_iff_ne.mp (List.all_eq_true.mp hentries _ hentry)
  have hmapped : (pageMap w.machine dir' 0).isSome = true := by
    obtain ⟨hrow, hpte, -⟩ := hlaid.kept (List.mem_map_of_mem hin) hw
    have hp := (hlaid.building.shared _ (by decide) (by decide) hshared).1
    have hentry := (hpte 0 (by decide) hp).trans
      (hlaid.kernel 0 (by decide) (by decide) hother hshared)
    rw [pageMap, if_pos (by decide)]
    unfold mapping
    change (if (w.machine.mem dir' (0 / 1024)).has pagePresent &&
      (pteOf w.machine dir' 0).has pagePresent then _ else none : Option Page).isSome = true
    rw [hrow, hp, hentry, hpresent]
    rfl
  obtain ⟨page, hpage⟩ := Option.isSome_iff_exists.mp hmapped
  obtain ⟨s, hs, hcovers, -⟩ := hcovered 0 page (by decide) hpage
  have hsegments : spin.file.segments.all (fun s => 4096 ≤ s.virtualAddress) = true := by
    decide +kernel
  have hhigh := of_decide_eq_true (List.all_eq_true.mp hsegments s hs)
  rw [pageSize] at hcovers
  omega

end MeatySkeleton.Elf
