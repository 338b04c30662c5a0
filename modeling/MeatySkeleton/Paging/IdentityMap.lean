import MeatySkeleton.Paging.AddressMap

/-!
# Identity mappings

`paging_identity_map_range` goes over the pages of a range of physical addresses and maps each
one that is not mapped yet to itself. It does not look where a page that is mapped already
leads, so what it returns `true` for is an identity mapping exactly if the pages it found
mapped were (`pagingIdentityMapRange_iff`). The loop always comes to an end: it stops before
the address wraps, and the window on the page tables at the top is refused.
-/

namespace MeatySkeleton.Paging

/-- `UINTPTR_MAX`. -/
def uintptrMax : Nat := 0xFFFFFFFF

/-- `address & ~(PAGE_SIZE - 1)`. -/
def pageStart (address : Nat) : Nat := address / pageSize * pageSize

/-- The body of the loop: the page is mapped to itself if it is not mapped. -/
def identityMapPage (m : Machine) (page : Nat) (flags : Word) : Option (Bool × Machine) := do
  let mapped ← pagingIsMapped m page
  if mapped then return (true, m) else pagingMapPage m page page flags

/-- The loop of `paging_identity_map_range` from `page` on, for at most `bound` rounds; `none`
if they do not suffice. -/
def identityMapFrom (last : Nat) (flags : Word) : Nat → Nat → Machine → Option (Bool × Machine)
  | 0, _, _ => none
  | bound + 1, page, m => do
    let (ok, m) ← identityMapPage m page flags
    if ok = false then return (false, m)
    else if page = last then return (true, m)
    else if page > uintptrMax - pageSize then return (false, m)
    else identityMapFrom last flags bound (page + pageSize) m

/-- `paging_identity_map_range`, with one round for each page there is. -/
def pagingIdentityMapRange (m : Machine) (physicalAddress length flags : Word) :
    Option (Bool × Machine) :=
  if length = 0#32 then some (true, m)
  else if physicalAddress.toNat > uintptrMax - (length - 1#32).toNat then some (false, m)
  else
    identityMapFrom (pageStart (physicalAddress + length - 1#32).toNat) flags (2 ^ 20)
      (pageStart physicalAddress.toNat) m

/-- The frame behind the page with number `n`. -/
def Machine.frameAt (m : Machine) (n : Nat) : Option Nat :=
  (m.translate (n * pageSize)).map Prod.fst

variable {m m' : Machine} {dir n f table last bound : Nat} {flags : Word}

/-! ## The frames behind pages -/

theorem frameAt_eq (hm : m.directory = dir) (hn : n < pageCount) : m.frameAt n =
    if (m.mem dir (n / 1024)).has pagePresent &&
      (m.mem (frameOf (m.mem dir (n / 1024))) (n % 1024)).has pagePresent then
        some (frameOf (m.mem (frameOf (m.mem dir (n / 1024))) (n % 1024)))
    else none := by
  obtain ⟨hd, ht, -⟩ := page_index hn
  rw [Machine.frameAt, Machine.translate, hd, ht, hm]
  split <;> rfl

/-- `paging_is_mapped` for the page with number `n`. -/
theorem pagingIsMapped_page (h : DirectoryOk m dir) (hm : m.directory = dir) (hn : n < pageCount) :
    pagingIsMapped m (n * pageSize) = some (m.frameAt n).isSome := by
  obtain ⟨hd, ht, hlow⟩ := page_index hn
  have hrec := h.isRecursive hm
  have hlt : n / 1024 < 1024 := Nat.lt_succ_of_lt hlow
  rw [frameAt_eq hm hn, pagingIsMapped, lookUp, hd, ht]
  have hne : n / 1024 ≠ recursiveDirectoryIndex := Nat.ne_of_lt hlow
  rw [if_neg hne, load_directoryEntry hrec hlt, hm]
  show (if (m.mem dir (n / 1024)).has pagePresent = false then _ else _) >>= _ = _
  cases hp : (m.mem dir (n / 1024)).has pagePresent with
  | false => rfl
  | true =>
    rw [if_neg (by decide), load_tableEntry hrec hlt (Nat.mod_lt _ (by decide)) (by rw [hm, hp]), hm]
    show (if (m.mem (frameOf (m.mem dir (n / 1024))) (n % 1024)).has pagePresent = false then _
      else _) >>= _ = _
    cases (m.mem (frameOf (m.mem dir (n / 1024))) (n % 1024)).has pagePresent <;> rfl

/-- A mapping made at one page leaves the frames behind the others. -/
theorem Mapped.frameAt (h : Mapped m dir (n / 1024) (n % 1024) f flags table m')
    (hok : DirectoryOk m dir) (hm : m.directory = dir) (hn : n < pageCount) (hf : f < 2 ^ 20) :
    m'.frameAt n = some f ∧ ∀ k < pageCount, k ≠ n → m'.frameAt k = m.frameAt k := by
  have hm' : m'.directory = dir := by
    rw [Machine.directory, h.cr3]
    exact hm
  constructor
  · rw [frameAt_eq hm' hn, h.pde.1, h.pde.2, h.pte, pageEntry_present, pageEntry_frame hf]
    rfl
  · intro k hk hne
    rw [frameAt_eq hm' hk, frameAt_eq hm hk]
    by_cases hd : k / 1024 = n / 1024
    · -- a page of the same table
      have ht : k % 1024 ≠ n % 1024 := by omega
      rw [hd, h.pde.1, h.pde.2]
      rcases h.slot with ⟨hp, hframe, -, -, -, hsame⟩ | ⟨habsent, -, -, -, -, hzero⟩
      · rw [hp, hframe, hsame _ ht]
      · rw [habsent, hzero _ ht, zero_not_present]
        rfl
    · rw [h.row _ hd]
      cases hp : (m.mem dir (k / 1024)).has pagePresent with
      | false => rfl
      | true => rw [h.other_table hok (page_index hn).2.2 (page_index hk).2.2 hp hd]

/-! ## The loop -/

/-- What a round of the loop does at page `n`. -/
structure Entered (m : Machine) (dir n : Nat) (m' : Machine) : Prop where
  ok : DirectoryOk m' dir
  directory : m'.directory = dir
  frame : m'.frameAt n = (m.frameAt n).or (some n)
  others : ∀ k < pageCount, k ≠ n → m'.frameAt k = m.frameAt k

theorem identityMapPage_cases (h : DirectoryOk m dir) (hm : m.directory = dir)
    (hn : n < pageCount) (flags : Word) :
    (∃ m', identityMapPage m (n * pageSize) flags = some (false, m')) ∨
      ∃ m', identityMapPage m (n * pageSize) flags = some (true, m') ∧ Entered m dir n m' := by
  obtain ⟨hd, ht, hlow⟩ := page_index hn
  have hlt : n < 2 ^ 20 := Nat.lt_trans hn (by decide)
  rw [identityMapPage, pagingIsMapped_page h hm hn]
  change (∃ m', (if (m.frameAt n).isSome = true then _ else _) = _) ∨
    ∃ m', (if (m.frameAt n).isSome = true then _ else _) = _ ∧ _
  cases hframe : m.frameAt n with
  | some f =>
    -- the page is passed over
    right
    refine ⟨m, rfl, h, hm, ?_, fun _ _ _ => rfl⟩
    rw [hframe]
    rfl
  | none =>
    obtain ⟨⟨ok, m'⟩, he, hout⟩ := pagingMapPage_outcome h hm
      (Nat.mul_mod_left n pageSize) (hd ▸ hlow) n flags
    rw [Option.isSome_none, if_neg Bool.false_ne_true, he]
    cases ok with
    | false => exact .inl ⟨m', rfl⟩
    | true =>
      right
      rw [hd, ht] at hout
      obtain ⟨table, hmapped⟩ := hout.mapped_of_success h hlow
      obtain ⟨hself, hothers⟩ := hmapped.frameAt h hm hn hlt
      refine ⟨m', rfl, hmapped.ok, ?_, ?_, hothers⟩
      · rw [Machine.directory, hmapped.cr3]
        exact hm
      · rw [hself, hframe]
        rfl

/-- A page in the window on the page tables is refused. -/
theorem identityMapPage_window (m : Machine) (hn : pageCount ≤ n) (hlt : n < 2 ^ 20)
    (flags : Word) : identityMapPage m (n * pageSize) flags = some (false, m) := by
  have hd : pageDirectoryIndex (n * pageSize) = recursiveDirectoryIndex := by
    rw [pageCount] at hn
    rw [pageDirectoryIndex, pageSize, recursiveDirectoryIndex]
    omega
  have haligned : n * pageSize % pageSize = 0 := Nat.mul_mod_left ..
  rw [identityMapPage, pagingIsMapped, lookUp, if_pos hd]
  show pagingMapPage m (n * pageSize) (n * pageSize) flags = _
  rw [pagingMapPage]
  dsimp only
  rw [if_neg (not_not.mpr haligned), if_neg (not_not.mpr haligned), if_pos hd]

/-- The loop ends within as many rounds as there are pages left, and if it succeeds it has mapped
to themselves the pages that were not mapped, and no others. -/
theorem identityMapFrom_spec (h : DirectoryOk m dir) (hm : m.directory = dir) (hle : n ≤ last)
    (hlast : last < 2 ^ 20) (hbound : last - n < bound) (flags : Word) :
    ∃ r, identityMapFrom (last * pageSize) flags bound (n * pageSize) m = some r ∧
      (r.1 = true → last < pageCount ∧ ∀ k < pageCount, r.2.frameAt k =
        if n ≤ k ∧ k ≤ last then (m.frameAt k).or (some k) else m.frameAt k) := by
  induction bound generalizing n m with
  | zero => exact absurd hbound (Nat.not_lt_zero _)
  | succ bound ih =>
    rw [identityMapFrom]
    by_cases hn : n < pageCount
    case neg =>
      rw [identityMapPage_window m (Nat.le_of_not_lt hn) (by omega)]
      exact ⟨(false, m), rfl, fun hf => by cases hf⟩
    rcases identityMapPage_cases h hm hn flags with ⟨m', he⟩ | ⟨m', he, hentered⟩
    · rw [he]
      exact ⟨(false, m'), rfl, fun hf => by cases hf⟩
    · rw [he]
      show ∃ r, (if n * pageSize = last * pageSize then _ else _) = _ ∧ _
      by_cases hend : n = last
      · subst hend
        rw [if_pos rfl]
        refine ⟨(true, m'), rfl, fun _ => ⟨hn, fun k hk => ?_⟩⟩
        by_cases hkn : k = n
        · subst hkn
          rw [if_pos ⟨Nat.le_refl k, Nat.le_refl k⟩, hentered.frame]
        · rw [if_neg (by omega), hentered.others k hk hkn]
      · have hne : n * pageSize ≠ last * pageSize := by
          rw [pageSize]
          omega
        have hwrap : ¬n * pageSize > uintptrMax - pageSize := by
          rw [pageCount] at hn
          rw [uintptrMax, pageSize]
          omega
        have hnext : n * pageSize + pageSize = (n + 1) * pageSize := (Nat.succ_mul ..).symm
        rw [if_neg hne, if_neg hwrap, hnext]
        obtain ⟨r, hr, hspec⟩ := ih hentered.ok hentered.directory (n := n + 1) (by omega) (by omega)
        refine ⟨r, hr, fun hok => ?_⟩
        obtain ⟨hlow, hframes⟩ := hspec hok
        refine ⟨hlow, fun k hk => ?_⟩
        rw [hframes k hk]
        by_cases hkn : k = n
        · subst hkn
          rw [if_neg (by omega), if_pos (by omega), hentered.frame]
        · rw [hentered.others k hk hkn]
          by_cases hrange : n + 1 ≤ k ∧ k ≤ last
          · rw [if_pos hrange, if_pos (by omega)]
          · rw [if_neg hrange, if_neg (by omega)]

/-! ## The range -/

/-- The address is in the range. -/
abbrev InRange (physicalAddress length : Word) (x : Nat) : Prop :=
  physicalAddress.toNat ≤ x ∧ x < physicalAddress.toNat + length.toNat

/-- `paging_identity_map_range` always returns. When it returns `true`, the range is mapped to
itself exactly if each of its pages that was mapped already was mapped to itself. -/
theorem pagingIdentityMapRange_iff (h : DirectoryOk m dir) (hm : m.directory = dir)
    (physicalAddress length flags : Word) :
    ∃ r, pagingIdentityMapRange m physicalAddress length flags = some r ∧
      (r.1 = true →
        ((∀ x, InRange physicalAddress length x →
            r.2.frameAt (x / pageSize) = some (x / pageSize)) ↔
          ∀ x, InRange physicalAddress length x → ∀ f, m.frameAt (x / pageSize) = some f →
            f = x / pageSize)) := by
  unfold pagingIdentityMapRange
  by_cases hzero : length = 0#32
  · subst hzero
    rw [if_pos rfl]
    refine ⟨_, rfl, fun _ => ⟨fun _ x hx => ?_, fun _ x hx => ?_⟩⟩
    all_goals
      obtain ⟨hlo, hhi⟩ := hx
      exact absurd hhi (Nat.not_lt.mpr hlo)
  rw [if_neg hzero]
  have ha := physicalAddress.isLt
  have hl := length.isLt
  have hpos : 0 < length.toNat := by
    rw [Nat.pos_iff_ne_zero]
    intro h0
    exact hzero (BitVec.eq_of_toNat_eq h0)
  have hpred : (length - 1#32).toNat = length.toNat - 1 := by
    rw [BitVec.toNat_sub_of_le]
    · rfl
    · exact hpos
  rw [hpred]
  by_cases hwrap : physicalAddress.toNat > uintptrMax - (length.toNat - 1)
  · rw [if_pos hwrap]
    exact ⟨_, rfl, fun hf => by cases hf⟩
  rw [if_neg hwrap]
  rw [uintptrMax] at hwrap
  have hsum : (physicalAddress + length - 1#32).toNat =
      physicalAddress.toNat + length.toNat - 1 := by
    rw [BitVec.toNat_sub, BitVec.toNat_add]
    simp only [BitVec.toNat_ofNat]
    omega
  rw [hsum, pageStart, pageStart]
  unfold InRange
  generalize physicalAddress.toNat = a at *
  generalize length.toNat = l at *
  have hle : a / pageSize ≤ (a + l - 1) / pageSize := Nat.div_le_div_right (by omega)
  have hlast : (a + l - 1) / pageSize < 2 ^ 20 := by
    rw [pageSize]
    omega
  have hbound := Nat.lt_of_le_of_lt (Nat.sub_le ((a + l - 1) / pageSize) (a / pageSize)) hlast
  obtain ⟨r, hr, hspec⟩ := identityMapFrom_spec h hm hle hlast hbound flags
  refine ⟨r, hr, fun hok => ?_⟩
  obtain ⟨hlow, hframes⟩ := hspec hok
  -- behind a page of the range
  have hframe : ∀ x, a ≤ x ∧ x < a + l →
      r.2.frameAt (x / pageSize) = (m.frameAt (x / pageSize)).or (some (x / pageSize)) := by
    rintro x ⟨hlo, hhi⟩
    have hfirst : a / pageSize ≤ x / pageSize := Nat.div_le_div_right hlo
    have hbehind : x / pageSize ≤ (a + l - 1) / pageSize := Nat.div_le_div_right (by omega)
    rw [hframes _ (Nat.lt_of_le_of_lt hbehind hlow), if_pos ⟨hfirst, hbehind⟩]
  constructor
  · intro hall x hx f hf
    have hself := hall x hx
    rw [hframe x hx, hf, Option.some_or] at hself
    exact Option.some.inj hself
  · intro hall x hx
    rw [hframe x hx]
    cases hf : m.frameAt (x / pageSize) with
    | none => rfl
    | some f => rw [Option.some_or, hall x hx f hf]

/-- Two pages above the mapped ones of the machine at its start. -/
theorem pagingIdentityMapRange_iff_booted :
    ∃ r, pagingIdentityMapRange booted 0x400010#32 0x1800#32 pageWritable = some r ∧
      (r.1 = true →
        ((∀ x, InRange 0x400010#32 0x1800#32 x →
            r.2.frameAt (x / pageSize) = some (x / pageSize)) ↔
          ∀ x, InRange 0x400010#32 0x1800#32 x → ∀ f, booted.frameAt (x / pageSize) = some f →
            f = x / pageSize)) := by
  have hspace : Space booted 1 :=
    pagingInitialize_space ⟨by decide, by decide, by decide, rfl, rfl⟩
  exact pagingIdentityMapRange_iff hspace.ok hspace.directory ..

/-- A page that is mapped elsewhere is taken for granted. -/
theorem pagingIdentityMapRange_passes_over : ∃ m m',
    pagingMapPage booted 0x400000 0x5000 pageWritable = some (true, m) ∧ Space m 1 ∧
    pagingIdentityMapRange m 0x400000#32 0x1000#32 pageWritable = some (true, m') ∧
    InRange 0x400000#32 0x1000#32 0x400000 ∧ m'.frameAt (0x400000 / pageSize) = some 5 := by
  have hspace : Space booted 1 :=
    pagingInitialize_space ⟨by decide, by decide, by decide, rfl, rfl⟩
  have hrange : InRange 0x400000#32 0x1000#32 0x400000 := by decide
  have hrun : (pagingMapPage booted 0x400000 0x5000 pageWritable).any (fun r => r.1 &&
      (pagingIdentityMapRange r.2 0x400000#32 0x1000#32 pageWritable).any (fun r' => r'.1 &&
        r'.2.frameAt (0x400000 / pageSize) == some 5)) := by decide +kernel
  obtain ⟨⟨ok, m⟩, hmap, hrest⟩ := (Option.any_eq_true _ _).mp hrun
  obtain ⟨hok, hrest⟩ := Bool.and_eq_true_iff.mp hrest
  obtain ⟨⟨ok', m'⟩, hidentity, hrest⟩ := (Option.any_eq_true _ _).mp hrest
  obtain ⟨hok', hframe⟩ := Bool.and_eq_true_iff.mp hrest
  obtain rfl : ok = true := hok
  obtain rfl : ok' = true := hok'
  obtain ⟨ok'', m'', he, hspace', -⟩ := hspace.mapPage (v := 0x400000#32) (f := 5)
    rfl (by decide) (by decide) pageWritable
  obtain ⟨-, rfl⟩ := Prod.mk.inj (Option.some.inj (hmap.symm.trans he))
  exact ⟨m, m', hmap, hspace', hidentity, hrange, eq_of_beq hframe⟩

end MeatySkeleton.Paging
