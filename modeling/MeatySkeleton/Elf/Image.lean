import MeatySkeleton.Elf.Own

/-!
# The image of a program

What a load makes when it runs by itself. For a program the loader accepts, with
all its pages distinct and under directory entries the kernel does not use
(`Loadable`), the steps come to their end, and the pages entered are those of
`Program.image`: each segment's bytes from the file and zero after them, and a
stack of zero pages with the arguments written into the top one.
-/

namespace MeatySkeleton.Elf

open Function List Option Lib Paging

/-- What `elf_load_user_image` is called with. -/
structure Program where
  file : File
  stackAddress : Nat
  stackTop : Nat
  argv : List (Option (Nat → Byte))

def Program.steps (p : Program) : List Step :=
  elfLoadUserImage p.file p.stackAddress p.stackTop p.argv

/-! ## The image -/

/-- The bytes of a page, by offset. -/
def pageBytes (byte : Nat → Byte) (j : Nat) : Option Byte :=
  if j < pageSize then some (byte j) else none

/-- A segment at an address: the file's byte, and zero after the last of these. -/
def segmentByte (f : File) (s : ProgramHeader) (address : Nat) : Byte :=
  if s.virtualAddress ≤ address ∧ address < s.virtualAddress + s.fileSize then
    f.bytes (s.offset + (address - s.virtualAddress))
  else 0

/-- A page of an image; `top` marks the top stack page. -/
structure Entry where
  address : Nat
  page : UserPage
  top : Bool

def segmentEntry (f : File) (s : ProgramHeader) (v : Nat) : Entry :=
  ⟨v, ⟨s.writable, pageBytes fun j => segmentByte f s (v + j)⟩, false⟩

def stackEntry (topStackPage v : Nat) : Entry :=
  ⟨v, ⟨true, pageBytes fun _ => 0⟩, v == topStackPage⟩

/-- The pages of a program as they are entered, the stack still without arguments. -/
def Program.entries (p : Program) : List Entry :=
  p.file.segments.flatMap (fun s => s.pages.map (segmentEntry p.file s)) ++
    (stackPages p.stackAddress p.stackTop).map (stackEntry (p.stackTop - pageSize))

def layOut (entries : List Entry) (n : Nat) : Option UserPage :=
  (entries.find? fun e => e.address / pageSize == n).map Entry.page

/-- One write into a page. -/
def overwrite (bytes : Nat → Option Byte) : Step → Nat → Option Byte
  | .writeByte offset b => update bytes offset (some b)
  | _ => bytes

def overwritten (steps : List Step) (bytes : Nat → Option Byte) : Nat → Option Byte :=
  steps.foldl overwrite bytes

/-- The top stack page, with the arguments in it. -/
def Program.topBytes (p : Program) : Nat → Option Byte :=
  match argumentStrings p.argv with
  | none => pageBytes fun _ => 0
  | some strings => overwritten (writeArguments p.stackTop strings).1 (pageBytes fun _ => 0)

def Program.topPage (p : Program) : Nat := (p.stackTop - pageSize) / pageSize

/-- The user pages of a loaded program, by page number. -/
def Program.image (p : Program) : Nat → Option UserPage :=
  update (layOut p.entries) p.topPage (some ⟨true, p.topBytes⟩)

/-- The program passes every test of the loader, no page is entered twice, and
each is under a directory entry `room` allows. -/
structure Loadable (room : Nat → Bool) (p : Program) : Prop where
  size : elfHeaderSize ≤ p.file.size
  header : headerAccepted p.file = true
  segments : ∀ s ∈ p.file.segments, s.accepted p.file.size = true
  entry : p.file.segments.any (ProgramHeader.holdsEntry · p.file.entry) = true
  stack : (mapUserStack p.stackAddress p.stackTop p.argv).2.isSome = true
  distinct : (p.entries.map Entry.address).Nodup
  room : ∀ e ∈ p.entries, room (e.address / pageSize / 1024) = true

variable {room : Nat → Bool} {p q : Own} {f : File} {s : ProgramHeader} {bytes : Nat → Option Byte}
  {steps : List Step}

/-! ## Writes -/

def Writes (steps : List Step) : Prop :=
  ∀ s ∈ steps, ∃ offset b, s = .writeByte offset b ∧ offset < pageSize

theorem Writes.append {steps' : List Step} (h : Writes steps) (h' : Writes steps') :
    Writes (steps ++ steps') := by
  intro s hs
  rcases mem_append.mp hs with hs | hs
  · exact h s hs
  · exact h' s hs

theorem overwritten_append (steps steps' : List Step) (bytes : Nat → Option Byte) :
    overwritten (steps ++ steps') bytes = overwritten steps' (overwritten steps bytes) :=
  foldl_append ..

theorem writes_memcpy {d n : Nat} {source : Nat → Byte} (h : d + n ≤ pageSize) :
    Writes (memcpy d source n) := by
  intro s hs
  obtain ⟨i, hi, rfl⟩ := mem_map.mp hs
  have hlt := mem_range.mp hi
  exact ⟨d + i, source i, rfl, by omega⟩

theorem overwritten_memcpy (d : Nat) (source : Nat → Byte) (n : Nat) (bytes : Nat → Option Byte)
    (j : Nat) : overwritten (memcpy d source n) bytes j =
      if d ≤ j ∧ j < d + n then some (source (j - d)) else bytes j := by
  induction n with
  | zero =>
    have hnone : ¬(d ≤ j ∧ j < d + 0) := by omega
    rw [if_neg hnone]
    rfl
  | succ n ih =>
    have hsplit : memcpy d source (n + 1) = memcpy d source n ++ [.writeByte (d + n) (source n)] := by
      rw [memcpy, range_succ, map_append]
      rfl
    rw [hsplit, overwritten_append, overwritten, foldl_cons, foldl_nil, overwrite]
    by_cases hj : j = d + n
    · have hin : d ≤ j ∧ j < d + (n + 1) := by omega
      have hpos : j - d = n := by omega
      rw [if_pos hin, hj, update_self, ← hj, hpos]
    · have hsame : d ≤ j ∧ j < d + n ↔ d ≤ j ∧ j < d + (n + 1) := by omega
      rw [update_of_ne hj, ih]
      simp only [hsame]

theorem memset_eq (value : Byte) (n : Nat) : memset value n = memcpy 0 (fun _ => value) n := by
  simp only [memset, memcpy, Nat.zero_add]

theorem Own.run_append (steps steps' : List Step) (p : Own) :
    Own.run room (steps ++ steps') p = (Own.run room steps p).bind (Own.run room steps') :=
  foldlM_append ..

theorem Own.run_cons_some {s : Step} (h : p.perform room s = some q) (steps : List Step) :
    Own.run room (s :: steps) p = Own.run room steps q := by
  rw [Own.run, foldlM_cons, h]
  rfl

open Own (run_append run_cons_some)

/-- Writes into the frame that is being filled. -/
theorem Own.run_writes_draft (hw : Writes steps) (ht : p.target = some .draft)
    (hd : p.draft = some (.page bytes)) :
    Own.run room steps p = some { p with draft := some (.page (overwritten steps bytes)) } := by
  induction steps generalizing p bytes with
  | nil =>
    show some p = _
    rw [overwritten, foldl_nil, ← hd]
  | cons s steps ih =>
    obtain ⟨offset, b, rfl, ho⟩ := hw s (mem_cons_self ..)
    have hperform : p.perform room (.writeByte offset b) =
        some { p with draft := some (.page (update bytes offset (some b))) } := by
      dsimp only [Own.perform]
      rw [if_pos ho, ht, hd]
    rw [run_cons_some hperform]
    exact ih (fun s hs => hw s (mem_cons_of_mem _ hs)) ht rfl

/-- Writes into the top stack page. -/
theorem Own.run_writes_top {n : Nat} {u : UserPage} (hw : Writes steps)
    (ht : p.target = some .top) (hn : p.top = some n) (hu : p.page n = some u) :
    Own.run room steps p = some { p with
      page := update p.page n (some { u with bytes := overwritten steps u.bytes }) } := by
  induction steps generalizing p u with
  | nil =>
    show some p = some { p with page := update p.page n (some u) }
    rw [← hu, update_eq_self]
  | cons s steps ih =>
    obtain ⟨offset, b, rfl, ho⟩ := hw s (mem_cons_self ..)
    have hperform : p.perform room (.writeByte offset b) = some { p with
        page := update p.page n (some (u.write offset b)) } := by
      dsimp only [Own.perform]
      rw [if_pos ho, ht, hn]
      dsimp only
      rw [hu]
      rfl
    rw [run_cons_some hperform]
    generalize hq : { p with page := update p.page n (some (u.write offset b)) } = q
    have hpage : q.page = update p.page n (some (u.write offset b)) := by rw [← hq]
    have hu' : q.page n = some (u.write offset b) := by rw [hpage, update_self]
    rw [ih (fun s hs => hw s (mem_cons_of_mem _ hs)) (by rw [← hq]; exact ht)
      (by rw [← hq]; exact hn) hu', hpage, update_idem, ← hq]
    rfl

/-! ## The new directory -/

/-- A cleared page becomes a directory, entry by entry. -/
theorem Own.run_shareEntries (ht : p.target = some .draft) (hd : p.draft = some (.page bytes))
    (hc : Cleared bytes) : ∀ {n : Nat}, n < 1024 →
      Own.run room ((List.range (n + 1)).map .shareEntry) p =
        some { p with draft := some (.directory (n + 1) false) }
  | 0, _ => by
    have hperform : p.perform room (.shareEntry 0) =
        some { p with draft := some (.directory 1 false) } := by
      dsimp only [Own.perform]
      rw [ht, hd]
      dsimp only [Draft.share]
      rw [if_pos ⟨rfl, hc⟩]
      rfl
    exact run_cons_some hperform []
  | n + 1, hn => by
    have hperform : Own.perform room { p with draft := some (.directory (n + 1) false) }
        (.shareEntry (n + 1)) = some { p with draft := some (.directory (n + 2) false) } := by
      dsimp only [Own.perform]
      rw [ht]
      dsimp only [Draft.share]
      rw [if_pos ⟨rfl, hn, rfl⟩]
      rfl
    rw [range_succ, map_append, run_append, Own.run_shareEntries ht hd hc (by omega)]
    exact run_cons_some hperform []

/-- A load that holds no frame and has not mapped the scratch page. -/
structure Own.Idle (p : Own) : Prop where
  draft : p.draft = none
  target : p.target = none

/-- The frame of an idle load is mapped and filled. -/
theorem Own.run_open (h : p.Idle) (hw : Writes steps) :
    Own.run room ([.allocateFrame, .mapScratch] ++ steps) p = some { p with
      target := some .draft, draft := some (.page (overwritten steps fun _ => none)) } := by
  have hallocate : p.perform room .allocateFrame =
      some { p with draft := some (.page fun _ => none) } := by
    dsimp only [Own.perform]
    rw [h.draft, h.target]
  have hmap : Own.perform room { p with draft := some (.page fun _ => none) } .mapScratch =
      some { p with target := some .draft, draft := some (.page fun _ => none) } := by
    dsimp only [Own.perform]
    rw [h.target]
  rw [cons_append, run_cons_some hallocate, cons_append, run_cons_some hmap]
  exact Own.run_writes_draft hw rfl rfl

theorem overwritten_memset (value : Byte) (bytes : Nat → Option Byte) {j : Nat} (hj : j < pageSize) :
    overwritten (memset value pageSize) bytes j = some value := by
  have hin : 0 ≤ j ∧ j < 0 + pageSize := by omega
  rw [memset_eq, overwritten_memcpy, if_pos hin]

theorem writes_memset (value : Byte) : Writes (memset value pageSize) := by
  rw [memset_eq]
  exact writes_memcpy (by omega)

theorem Own.run_create (h : p.Idle) (hc : p.created = false) :
    Own.run room pagingCreateUserDirectory p = some { p with created := true } := by
  have hclear : Cleared (overwritten (memset 0 pageSize) fun _ => none) := fun j hj =>
    overwritten_memset 0 _ hj
  have hset : Own.perform room { p with
        target := some .draft, draft := some (.directory 1024 false) } .setRecursiveEntry =
      some { p with target := some .draft, draft := some (.directory 1024 true) } := rfl
  have hunmap : Own.perform room { p with
        target := some .draft, draft := some (.directory 1024 true) } (.unmapScratch false) =
      some { p with target := none, draft := some (.directory 1024 true) } := rfl
  have hadopt : Own.perform room { p with
        target := none, draft := some (.directory 1024 true) } .adoptDirectory =
      some { p with target := none, draft := none, created := true } := by
    dsimp only [Own.perform]
    rw [hc]
    rfl
  have hend : { p with target := none, draft := none, created := true } =
      { p with created := true } := by
    rw [← h.draft, ← h.target]
  rw [pagingCreateUserDirectory, run_append, run_append, Own.run_open h (writes_memset 0),
    bind_some, Own.run_shareEntries rfl rfl hclear (by decide), bind_some,
    run_cons_some hset, run_cons_some hunmap, run_cons_some hadopt, hend]
  rfl

/-! ## Entering pages -/

/-- The address space with one more page. -/
def Own.enter (p : Own) (e : Entry) : Own :=
  { p with
    page := update p.page (e.address / pageSize) (some e.page)
    top := if e.top then some (e.address / pageSize) else p.top }

/-- A frame is filled and entered. -/
theorem Own.run_fill {v : Nat} {flags : Word} (top : Bool) (h : p.Idle) (hw : Writes steps)
    (hfilled : Filled (overwritten steps fun _ => none)) (hc : p.CanEnter room v flags) :
    Own.run room ([.allocateFrame, .mapScratch] ++ steps ++
        [.unmapScratch true, .enterPage v flags top]) p =
      some (p.enter ⟨v, ⟨flags.has pageWritable, overwritten steps fun _ => none⟩, top⟩) := by
  have hunmap : Own.perform room { p with
        target := some .draft, draft := some (.page (overwritten steps fun _ => none)) }
        (.unmapScratch true) =
      some { p with target := none, draft := some (.page (overwritten steps fun _ => none)) } := rfl
  have henter : Own.perform room { p with
        target := none, draft := some (.page (overwritten steps fun _ => none)) }
        (.enterPage v flags top) =
      some (Own.enter { p with target := none, draft := none }
        ⟨v, ⟨flags.has pageWritable, overwritten steps fun _ => none⟩, top⟩) := by
    dsimp only [Own.perform]
    rw [if_pos ⟨hfilled, hc⟩]
    rfl
  have hend : { p with target := none, draft := none } = p := by
    rw [← h.draft, ← h.target]
  rw [run_append, Own.run_open h hw, bind_some, run_cons_some hunmap, run_cons_some henter, hend]
  rfl

theorem overwritten_page {byte : Nat → Byte}
    (h : ∀ j, overwritten steps (fun _ => none) j = pageBytes byte j) :
    overwritten steps (fun _ => none) = pageBytes byte ∧
      Filled (overwritten steps fun _ => none) := by
  refine ⟨funext h, fun j hj => ?_⟩
  rw [h, pageBytes, if_pos hj]
  rfl

theorem overwritten_zero (j : Nat) :
    overwritten (memset 0 pageSize) (fun _ => none) j = pageBytes (fun _ => 0) j := by
  rw [pageBytes]
  by_cases hj : j < pageSize
  · rw [overwritten_memset 0 _ hj, if_pos hj]
  · have hout : ¬(0 ≤ j ∧ j < 0 + pageSize) := by omega
    rw [memset_eq, overwritten_memcpy, if_neg hout, if_neg hj]

/-- The bytes `populate_segment_page` writes. -/
theorem overwritten_segmentPage (f : File) (s : ProgramHeader) (v j : Nat) :
    overwritten (memset 0 pageSize ++ copySegmentPage f s v) (fun _ => none) j =
      pageBytes (fun j => segmentByte f s (v + j)) j := by
  rw [overwritten_append, copySegmentPage]
  by_cases hcopy : max v s.virtualAddress < min (v + pageSize) (s.virtualAddress + s.fileSize)
  · rw [if_pos hcopy, overwritten_memcpy, overwritten_zero, pageBytes, pageBytes]
    by_cases hj : j < pageSize
    · rw [if_pos hj, if_pos hj, segmentByte]
      by_cases hin : s.virtualAddress ≤ v + j ∧ v + j < s.virtualAddress + s.fileSize
      · have hcopied : max v s.virtualAddress - v ≤ j ∧ j < max v s.virtualAddress - v +
            (min (v + pageSize) (s.virtualAddress + s.fileSize) - max v s.virtualAddress) := by
          omega
        have hsource : s.offset + (max v s.virtualAddress - s.virtualAddress) +
            (j - (max v s.virtualAddress - v)) = s.offset + (v + j - s.virtualAddress) := by omega
        rw [if_pos hcopied, if_pos hin, hsource]
      · have hkept : ¬(max v s.virtualAddress - v ≤ j ∧ j < max v s.virtualAddress - v +
            (min (v + pageSize) (s.virtualAddress + s.fileSize) - max v s.virtualAddress)) := by
          omega
        rw [if_neg hkept, if_neg hin]
    · have hkept : ¬(max v s.virtualAddress - v ≤ j ∧ j < max v s.virtualAddress - v +
          (min (v + pageSize) (s.virtualAddress + s.fileSize) - max v s.virtualAddress)) := by
        omega
      rw [if_neg hkept, if_neg hj, if_neg hj]
  · -- the page is beyond the segment's bytes in the file
    rw [if_neg hcopy, overwritten, foldl_nil, overwritten_zero, pageBytes, pageBytes]
    by_cases hj : j < pageSize
    · have hout : ¬(s.virtualAddress ≤ v + j ∧ v + j < s.virtualAddress + s.fileSize) := by omega
      rw [if_pos hj, if_pos hj, segmentByte, if_neg hout]
    · rw [if_neg hj, if_neg hj]

theorem writes_segmentPage (f : File) (s : ProgramHeader) (v : Nat) :
    Writes (memset 0 pageSize ++ copySegmentPage f s v) := by
  refine (writes_memset 0).append ?_
  rw [copySegmentPage]
  split
  · exact writes_memcpy (by omega)
  · exact fun _ hs => nomatch hs

theorem mappingFlags_spec (s : ProgramHeader) : s.mappingFlags.has pageUser = true ∧
    s.mappingFlags.has pageWritable = s.writable := by
  rw [ProgramHeader.mappingFlags]
  cases s.writable with
  | true => exact ⟨rfl, rfl⟩
  | false => exact ⟨rfl, rfl⟩

/-- Page `v` can get its place in an address space. -/
def Placeable (room : Nat → Bool) (v : Nat) : Prop :=
  v % pageSize = 0 ∧ v / pageSize < pageCount ∧ room (v / pageSize / 1024) = true

/-- These steps enter this page. -/
def Fills (room : Nat → Bool) (steps : List Step) (e : Entry) : Prop :=
  ∀ p : Own, p.Idle → p.created = true → p.page (e.address / pageSize) = none →
    Own.run room steps p = some (p.enter e)

theorem fills_segmentPage {v : Nat} (hv : Placeable room v) :
    Fills room (populateSegmentPage f s v) (segmentEntry f s v) := by
  intro p hidle hc hnone
  obtain ⟨huser, hwritable⟩ := mappingFlags_spec s
  obtain ⟨hbytes, hfilled⟩ := overwritten_page (overwritten_segmentPage f s v)
  have hcan : p.CanEnter room v s.mappingFlags := ⟨hc, hv.1, hv.2.1, hv.2.2, hnone, huser⟩
  have hrun := Own.run_fill false hidle (writes_segmentPage f s v) hfilled hcan
  rw [hwritable, hbytes, ← append_assoc] at hrun
  exact hrun

theorem fills_stackPage {v topStackPage : Nat} (hv : Placeable room v) :
    Fills room (populateStackPage topStackPage v) (stackEntry topStackPage v) := by
  intro p hidle hc hnone
  obtain ⟨hbytes, hfilled⟩ := overwritten_page overwritten_zero
  have hcan : p.CanEnter room v (pageUser ||| pageWritable) :=
    ⟨hc, hv.1, hv.2.1, hv.2.2, hnone, by decide⟩
  have hrun := Own.run_fill (v == topStackPage) hidle (writes_memset 0) hfilled hcan
  rw [hbytes] at hrun
  exact hrun

/-- Page after page. -/
theorem Own.run_fills : ∀ {items : List (List Step × Entry)} {p : Own},
    (∀ item ∈ items, Fills room item.1 item.2) → p.Idle → p.created = true →
    (∀ item ∈ items, p.page (item.2.address / pageSize) = none) →
    (items.map fun item => item.2.address / pageSize).Nodup →
    Own.run room (items.flatMap Prod.fst) p = some ((items.map Prod.snd).foldl Own.enter p)
  | [], _, _, _, _, _, _ => rfl
  | item :: items, p, hfills, hidle, hc, hnone, hnodup => by
    obtain ⟨hnot, hrest⟩ := nodup_cons.mp hnodup
    rw [flatMap_cons, run_append,
      hfills item (mem_cons_self ..) p hidle hc (hnone item (mem_cons_self ..)),
      bind_some, map_cons, foldl_cons]
    refine Own.run_fills (fun item' hin => hfills item' (mem_cons_of_mem _ hin))
      ⟨hidle.draft, hidle.target⟩ hc (fun item' hin => ?_) hrest
    have hne : item'.2.address / pageSize ≠ item.2.address / pageSize := fun he =>
      hnot (mem_map.mpr ⟨item', hin, he⟩)
    show update p.page _ _ _ = none
    rw [update_of_ne hne]
    exact hnone item' (mem_cons_of_mem _ hin)

theorem layOut_cons (e : Entry) (es : List Entry) (n : Nat) : layOut (e :: es) n =
    if e.address / pageSize = n then some e.page else layOut es n := by
  rw [layOut, find?_cons]
  by_cases hn : e.address / pageSize = n
  · rw [if_pos hn, beq_iff_eq.mpr hn]
    rfl
  · rw [if_neg hn, beq_eq_false_iff_ne.mpr hn]
    rfl

theorem layOut_none {es : List Entry} {n : Nat}
    (h : n ∉ es.map fun e => e.address / pageSize) : layOut es n = none := by
  rw [layOut, find?_eq_none.mpr, map_none]
  intro e he hn
  exact h (mem_map.mpr ⟨e, he, beq_iff_eq.mp hn⟩)

theorem layOut_some {es : List Entry} (hnodup : (es.map fun e => e.address / pageSize).Nodup) {e : Entry}
    (he : e ∈ es) : layOut es (e.address / pageSize) = some e.page := by
  induction es with
  | nil => cases he
  | cons e' es ih =>
    obtain ⟨hnot, hrest⟩ := nodup_cons.mp hnodup
    rw [layOut_cons]
    rcases mem_cons.mp he with rfl | he
    · rw [if_pos rfl]
    · have hne : ¬e'.address / pageSize = e.address / pageSize := fun hx =>
        hnot (mem_map.mpr ⟨e, he, hx.symm⟩)
      rw [if_neg hne, ih hrest he]

/-- All pages together. -/
theorem Own.foldl_enter {t : Nat} : ∀ {es : List Entry} {p : Own},
    (es.map fun e => e.address / pageSize).Nodup →
    (∀ e ∈ es, e.top = true → e.address / pageSize = t) →
    es.foldl Own.enter p = { p with
      page := fun n => (layOut es n).or (p.page n)
      top := if es.any Entry.top then some t else p.top }
  | [], _, _, _ => rfl
  | e :: es, p, hnodup, htop => by
    obtain ⟨hnot, hrest⟩ := nodup_cons.mp hnodup
    rw [foldl_cons, Own.foldl_enter hrest fun e' he => htop e' (mem_cons_of_mem _ he)]
    have hpage : (fun n => (layOut es n).or ((p.enter e).page n)) =
        fun n => (layOut (e :: es) n).or (p.page n) := by
      funext n
      show (layOut es n).or (update p.page (e.address / pageSize) (some e.page) n) = _
      rw [layOut_cons]
      by_cases hn : n = e.address / pageSize
      · subst hn
        rw [layOut_none hnot, update_self, if_pos rfl]
        rfl
      · rw [update_of_ne hn, if_neg (Ne.symm hn)]
    have htops : (if es.any Entry.top then some t else (p.enter e).top) =
        if (e :: es).any Entry.top then some t else p.top := by
      rw [any_cons]
      show (if es.any Entry.top then some t else
        if e.top then some (e.address / pageSize) else p.top) = _
      cases he : e.top with
      | true =>
        rw [htop e (mem_cons_self ..) he, if_pos rfl, Bool.true_or, if_pos rfl, ite_self]
      | false =>
        rw [Bool.false_or]
        rfl
    rw [hpage, htops]
    rfl

/-! ## The arguments -/

theorem writes_storeTable : ∀ {ws : List Nat} {offset : Nat}, offset + 4 * ws.length ≤ pageSize →
    Writes (storeTable offset ws)
  | [], _, _ => fun _ hs => nomatch hs
  | w :: ws, offset, h => by
    rw [length_cons] at h
    exact (writes_memcpy (by omega)).append (writes_storeTable (by omega))

/-- The strings stay between the bottom of the page and the stack pointer. -/
theorem copyArguments_spec {bottom : Nat} : ∀ {strings : List ((Nat → Byte) × Nat)} {sp sp' : Nat}
    {addresses : List Nat} {steps : List Step},
    copyArguments bottom strings sp = (steps, some (sp', addresses)) → bottom ≤ sp →
    sp ≤ bottom + pageSize →
    Writes steps ∧ bottom ≤ sp' ∧ sp' ≤ sp ∧ addresses.length = strings.length
  | [], sp, sp', addresses, steps, h, hlow, hhigh => by
    obtain ⟨rfl, hsome⟩ := Prod.mk.inj h
    cases hsome
    exact ⟨fun _ hs => (nomatch hs), hlow, Nat.le_refl _, rfl⟩
  | (string, length) :: rest, sp, sp', addresses, steps, h, hlow, hhigh => by
    rw [copyArguments] at h
    by_cases hfull : sp < bottom + (length + 1)
    · rw [if_pos hfull] at h
      cases h
    · rw [if_neg hfull] at h
      obtain ⟨rfl, hsome⟩ := Prod.mk.inj h
      obtain ⟨⟨sp1, addresses1⟩, hrest, heq⟩ := map_eq_some_iff.mp hsome
      obtain ⟨rfl, rfl⟩ := Prod.mk.inj heq
      obtain ⟨hwrites, hlow', hhigh', hcount⟩ :=
        copyArguments_spec (Prod.ext rfl hrest) (by omega) (by omega)
      refine ⟨(writes_memcpy (by omega)).append hwrites, hlow', by omega, ?_⟩
      rw [length_append, hcount]
      rfl

/-- What `map_user_stack` writes into the top page, and the end of it. -/
theorem writeArguments_spec {stackTop : Nat} {strings : List ((Nat → Byte) × Nat)}
    (hpage : pageSize ≤ stackTop) (h : (writeArguments stackTop strings).2.isSome = true) :
    ∃ steps, (writeArguments stackTop strings).1 = steps ++ [.unmapScratch true] ∧ Writes steps := by
  have hcase := h
  rw [writeArguments] at hcase ⊢
  generalize hcopy : copyArguments (stackTop - pageSize) strings.reverse stackTop = r at hcase ⊢
  obtain ⟨steps, _ | ⟨sp, addresses⟩⟩ := r
  · cases hcase
  · dsimp only at hcase ⊢
    obtain ⟨hwrites, hlow, hhigh, hcount⟩ := copyArguments_spec hcopy (by omega) (by omega)
    rw [length_reverse] at hcount
    by_cases hfull : sp - sp % 4 < stackTop - pageSize + (strings.length + 2) * 4
    · rw [if_pos hfull] at hcase
      cases hcase
    · rw [if_neg hfull]
      refine ⟨_, rfl, hwrites.append (writes_storeTable ?_)⟩
      rw [length_cons, length_append, hcount, length_cons, length_nil]
      omega

variable {stackAddress stackTop : Nat}

theorem mapUserStack_spec {argv : List (Option (Nat → Byte))}
    (h : (mapUserStack stackAddress stackTop argv).2.isSome = true) :
    stackAccepted stackAddress stackTop = true ∧ ∃ strings, argumentStrings argv = some strings ∧
      (writeArguments stackTop strings).2.isSome = true ∧
      (mapUserStack stackAddress stackTop argv).1 =
        (stackPages stackAddress stackTop).flatMap (populateStackPage (stackTop - pageSize)) ++
          [.mapTopFrame] ++ (writeArguments stackTop strings).1 := by
  rw [mapUserStack] at h ⊢
  by_cases haccepted : stackAccepted stackAddress stackTop = false
  · rw [if_pos haccepted] at h
    cases h
  · rw [if_neg haccepted] at h ⊢
    by_cases hcount : argv.length = 0 ∨ elfUserMaxArgs < argv.length
    · rw [if_pos hcount] at h
      cases h
    · rw [if_neg hcount] at h ⊢
      cases hstrings : argumentStrings argv with
      | none =>
        rw [hstrings] at h
        cases h
      | some strings =>
        rw [hstrings] at h
        exact ⟨(Bool.not_eq_false _).mp haccepted, strings, rfl, h, rfl⟩

theorem stackAccepted_spec
    (h : stackAccepted stackAddress stackTop = true) : stackAddress % pageSize = 0 ∧
      stackTop % pageSize = 0 ∧ stackTop ≤ elfUserLimit ∧ stackAddress < stackTop := by
  simp only [stackAccepted, Bool.and_eq_true, beq_iff_eq, decide_eq_true_eq] at h
  exact ⟨h.1.1.1.1.1, h.1.1.1.1.2, h.1.2, h.2⟩

theorem stackPages_spec {stackAddress stackTop v : Nat}
    (h : stackAccepted stackAddress stackTop = true) (hv : v ∈ stackPages stackAddress stackTop) :
    v % pageSize = 0 ∧ v / pageSize < pageCount := by
  obtain ⟨hlow, htop, hlimit, -⟩ := stackAccepted_spec h
  obtain ⟨i, hi, rfl⟩ := mem_map.mp hv
  have hlt := mem_range.mp hi
  rw [elfUserLimit] at hlimit
  rw [pageSize] at hlow htop hlt ⊢
  rw [pageCount]
  omega

/-- The top page is one of them. -/
theorem top_mem_stackPages
    (h : stackAccepted stackAddress stackTop = true) :
    pageSize ≤ stackTop ∧ stackTop - pageSize ∈ stackPages stackAddress stackTop := by
  obtain ⟨hlow, htop, -, hlt⟩ := stackAccepted_spec h
  rw [pageSize] at hlow htop
  have hsize : pageSize ≤ stackTop := by
    rw [pageSize]
    omega
  refine ⟨hsize, mem_map.mpr ⟨(stackTop - stackAddress) / pageSize - 1, mem_range.mpr ?_, ?_⟩⟩
  · rw [pageSize]
    omega
  · rw [pageSize]
    omega

/-! ## The whole image -/

theorem accepted_spec {n : Nat} (h : s.accepted n = true) : s.memoryEnd ≤ elfUserLimit := by
  simp only [ProgramHeader.accepted, Bool.and_eq_true, decide_eq_true_eq] at h
  exact h.1.2

theorem pages_spec {v : Nat} (h : s.memoryEnd ≤ elfUserLimit) (hv : v ∈ s.pages) :
    v % pageSize = 0 ∧ v / pageSize < pageCount := by
  obtain ⟨i, hi, rfl⟩ := mem_map.mp hv
  have hlt := mem_range.mp hi
  rw [elfUserLimit] at h
  rw [pageAlignDown, pageAlignDown, pageSize] at hlt
  rw [pageAlignDown, pageSize, pageCount]
  omega

variable {program : Program}

/-- The steps that enter each page, with the page. -/
def Program.items (p : Program) : List (List Step × Entry) :=
  p.file.segments.flatMap (fun s => s.pages.map fun v =>
    (populateSegmentPage p.file s v, segmentEntry p.file s v)) ++
  (stackPages p.stackAddress p.stackTop).map fun v =>
    (populateStackPage (p.stackTop - pageSize) v, stackEntry (p.stackTop - pageSize) v)

theorem Program.items_entries (p : Program) : p.items.map Prod.snd = p.entries := by
  simp [Program.items, Program.entries, map_flatMap, comp_def]

/-- The program passes every test of the loader. -/
structure Passing (p : Program) : Prop where
  size : elfHeaderSize ≤ p.file.size
  header : headerAccepted p.file = true
  segments : ∀ s ∈ p.file.segments, s.accepted p.file.size = true
  entry : p.file.segments.any (ProgramHeader.holdsEntry · p.file.entry) = true
  stack : (mapUserStack p.stackAddress p.stackTop p.argv).2.isSome = true

theorem Loadable.passing (h : Loadable room program) : Passing program :=
  ⟨h.size, h.header, h.segments, h.entry, h.stack⟩

/-- Empty segments are left out. -/
theorem segment_size (hs : s ∈ f.segments) : s.memorySize ≠ 0 := by
  have hfilter := (mem_filter.mp hs).2
  rw [Bool.and_eq_true, bne_iff_ne] at hfilter
  exact hfilter.2

theorem Passing.items_steps (h : Passing program) :
    program.items.flatMap Prod.fst = program.file.segments.flatMap (loadSegment program.file) ++
      (stackPages program.stackAddress program.stackTop).flatMap
        (populateStackPage (program.stackTop - pageSize)) := by
  have hsegment : ∀ s ∈ program.file.segments, loadSegment program.file s =
      s.pages.flatMap (populateSegmentPage program.file s) := by
    intro s hs
    have haccepted : ¬s.accepted program.file.size = false := by
      rw [h.segments s hs]
      exact nofun
    rw [loadSegment, if_neg (segment_size hs), if_neg haccepted]
  rw [Program.items, flatMap_append, flatMap_assoc, flatMap_map]
  congr 1
  refine flatMap_congr fun s hs => ?_
  rw [hsegment s hs, flatMap_map]

section

variable (h : Loadable room program)

include h

/-- Every page of the image can get its place. -/
theorem Loadable.placeable {e : Entry} (he : e ∈ program.entries) :
    Placeable room e.address := by
  have hrange : e.address % pageSize = 0 ∧ e.address / pageSize < pageCount := by
    rcases mem_append.mp he with he | he
    · obtain ⟨s, hs, he⟩ := mem_flatMap.mp he
      obtain ⟨v, hv, rfl⟩ := mem_map.mp he
      exact pages_spec (accepted_spec (h.segments s hs)) hv
    · obtain ⟨v, hv, rfl⟩ := mem_map.mp he
      exact stackPages_spec (mapUserStack_spec h.stack).1 hv
  exact ⟨hrange.1, hrange.2, h.room e he⟩

theorem Loadable.fills :
    ∀ item ∈ program.items, Fills room item.1 item.2 := by
  intro item hitem
  have he : item.2 ∈ program.entries := by
    rw [← Program.items_entries]
    exact mem_map_of_mem hitem
  have hplace := h.placeable he
  rcases mem_append.mp hitem with hin | hin
  · obtain ⟨s, -, hin⟩ := mem_flatMap.mp hin
    obtain ⟨v, -, rfl⟩ := mem_map.mp hin
    exact fills_segmentPage hplace
  · obtain ⟨v, -, rfl⟩ := mem_map.mp hin
    exact fills_stackPage hplace

theorem Loadable.nodup :
    (program.entries.map fun e => e.address / pageSize).Nodup := by
  have hmap := h.distinct.map_on (f := (· / pageSize)) fun v hv v' hv' he => ?_
  · rw [List.map_map] at hmap
    exact hmap
  · obtain ⟨e, hin, rfl⟩ := mem_map.mp hv
    obtain ⟨e', hin', rfl⟩ := mem_map.mp hv'
    have hdvd := Nat.dvd_of_mod_eq_zero (h.placeable hin).1
    have hdvd' := Nat.dvd_of_mod_eq_zero (h.placeable hin').1
    rw [← Nat.div_mul_cancel hdvd, ← Nat.div_mul_cancel hdvd', he]

/-- The top stack page is among the pages, and the only one marked. -/
theorem Loadable.top :
    stackEntry (program.stackTop - pageSize) (program.stackTop - pageSize) ∈ program.entries ∧
      ∀ e ∈ program.entries, e.top = true → e.address / pageSize = program.topPage := by
  obtain ⟨-, htop⟩ := top_mem_stackPages (mapUserStack_spec h.stack).1
  refine ⟨mem_append_right _ (mem_map_of_mem htop), fun e he hmarked => ?_⟩
  rcases mem_append.mp he with he | he
  · obtain ⟨s, -, he⟩ := mem_flatMap.mp he
    obtain ⟨v, -, rfl⟩ := mem_map.mp he
    cases hmarked
  · obtain ⟨v, -, rfl⟩ := mem_map.mp he
    rw [Program.topPage, ← beq_iff_eq.mp hmarked]
    rfl

end

/-- The steps of a program that passes all tests. -/
theorem Passing.steps_eq (h : Passing program) : ∃ strings arguments,
    argumentStrings program.argv = some strings ∧
    (writeArguments program.stackTop strings).1 = arguments ++ [.unmapScratch true] ∧
    Writes arguments ∧
    program.steps = .kernelDirectoryActive false :: (pagingCreateUserDirectory ++
      (program.items.flatMap Prod.fst ++ (.mapTopFrame :: (arguments ++
        [.unmapScratch true, .kernelDirectoryActive true])))) := by
  obtain ⟨haccepted, strings, hstrings, hsome, hsteps⟩ := mapUserStack_spec h.stack
  obtain ⟨arguments, hwrite, hwrites⟩ :=
    writeArguments_spec (top_mem_stackPages haccepted).1 hsome
  have hsegments : program.file.segments ≠ [] := by
    intro hnil
    have hentry := h.entry
    rw [hnil] at hentry
    cases hentry
  refine ⟨strings, arguments, hstrings, hwrite, hwrites, ?_⟩
  rw [Program.steps, elfLoadUserImage, if_neg (Nat.not_lt.mpr h.size), if_neg (by rw [h.header]; exact nofun),
    if_neg hsegments, if_neg (by rw [h.entry]; exact nofun), hsteps, hwrite, h.items_steps]
  simp only [append_assoc, cons_append, nil_append]

/-- All pages of the image are entered, one after the other. -/
theorem Loadable.run_items (h : Loadable room program) :
    Own.run room (program.items.flatMap Prod.fst) ⟨none, none, true, fun _ => none, none⟩ =
      some ⟨none, none, true, layOut program.entries, some program.topPage⟩ := by
  obtain ⟨htop, htops⟩ := h.top
  have hany : program.entries.any Entry.top = true :=
    any_eq_true.mpr ⟨_, htop, by rw [stackEntry, beq_self_eq_true]⟩
  have hnodup : (program.items.map fun item => item.2.address / pageSize).Nodup := by
    have hentries := h.nodup
    rw [← Program.items_entries, List.map_map] at hentries
    exact hentries
  have hlaid : (fun n => (layOut program.entries n).or none) = layOut program.entries :=
    funext fun n => or_none
  rw [Own.run_fills h.fills ⟨rfl, rfl⟩ rfl (fun _ _ => rfl) hnodup, Program.items_entries,
    Own.foldl_enter h.nodup htops, if_pos hany, hlaid]

/-- A loadable program makes its image. -/
theorem Loadable.run (h : Loadable room program) :
    Own.run room program.steps .start =
      some ⟨none, none, true, program.image, some program.topPage⟩ := by
  obtain ⟨strings, arguments, hstrings, hwrite, hwrites, hsteps⟩ := h.passing.steps_eq
  have hpage : layOut program.entries program.topPage = some ⟨true, pageBytes fun _ => 0⟩ := by
    have hlaid := layOut_some h.nodup h.top.1
    dsimp only [stackEntry] at hlaid
    rw [Program.topPage, hlaid]
  have hunmap : ∀ bytes, overwritten [.unmapScratch true] bytes = bytes := fun _ => rfl
  have himage : program.image = update (layOut program.entries) program.topPage
      (some ⟨true, overwritten arguments (pageBytes fun _ => 0)⟩) := by
    rw [Program.image, Program.topBytes, hstrings]
    dsimp only
    rw [hwrite, overwritten_append, hunmap]
  have hbegin : Own.perform room .start (.kernelDirectoryActive false) = some .start := rfl
  have hcreate : Own.run room pagingCreateUserDirectory .start =
      some ⟨none, none, true, fun _ => none, none⟩ := Own.run_create ⟨rfl, rfl⟩ rfl
  have hmap : Own.perform room ⟨none, none, true, layOut program.entries, some program.topPage⟩
      .mapTopFrame = some ⟨none, some .top, true, layOut program.entries, some program.topPage⟩ := rfl
  rw [hsteps, run_cons_some hbegin, run_append, hcreate, bind_some, run_append,
    h.run_items, bind_some, run_cons_some hmap, run_append,
    Own.run_writes_top hwrites rfl rfl hpage, bind_some, himage]
  rfl

end MeatySkeleton.Elf
