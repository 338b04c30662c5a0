import MeatySkeleton.Lib.Words
import MeatySkeleton.Paging.AddressMap

/-!
# Copies from and to user memory

`usercopy.c` walks the pages of a user range and asks for the flags of each, then copies byte
by byte through the current directory. The walk is exact for every range, also one that ends
at the last byte of the address space (`userRangeAccessible_spec`); the copy is `memcpy`, whose
arrays may not overlap.
-/

namespace MeatySkeleton.Paging

open Option Lib

/-! ## The functions -/

/-- The loop of `user_range_accessible`. -/
def userRangeFrom (m : Machine) (writable : Bool) (lastPage : Nat) : Nat → Nat → Option Bool
  | 0, _ => none
  | fuel + 1, page => do
    match ← pagingGetEffectiveFlags m page with
    | none => return false
    | some flags =>
      if flags.has pageUser = false then return false
      else if writable && !flags.has pageWritable then return false
      else if page = lastPage then return true
      else if 2 ^ 32 - 1 - pageSize < page then return false
      else userRangeFrom m writable lastPage fuel (page + pageSize)

/-- The pages of the address space. -/
def addressPages : Nat := 2 ^ 20

/-- `user_range_accessible`. -/
def userRangeAccessible (m : Machine) (address length : Nat) (writable : Bool) : Option Bool :=
  if length = 0 then some true
  else if 2 ^ 32 - 1 - (length - 1) < address then some false
  else
    let last := address + length - 1
    userRangeFrom m writable (last / pageSize * pageSize) addressPages (address / pageSize * pageSize)

/-- The frame and the place in it of the byte behind a virtual address. -/
def Machine.place (m : Machine) (v : Nat) : Option (Nat × Nat) :=
  (m.translate v).map fun p => (p.1, v % pageSize)

def Machine.loadByte (m : Machine) (v : Nat) : Option (BitVec 8) := do
  let (frame, j) ← m.place v
  return byteOf (m.mem frame) j

def Machine.storeByte (m : Machine) (v : Nat) (b : BitVec 8) : Option Machine := do
  let (frame, j) ← m.place v
  return m.write frame (setByte (m.mem frame) j b)

/-- The loop of `memcpy`. -/
def copyBytes (dst src : Nat) : Nat → Nat → Machine → Option Machine
  | 0, _, m => some m
  | left + 1, i, m => do
    let b ← m.loadByte (src + i)
    let m ← m.storeByte (dst + i) b
    copyBytes dst src left (i + 1) m

/-- `memcpy`. -/
def memcpy (m : Machine) (dst src length : Nat) : Option Machine := copyBytes dst src length 0 m

/-- What `copy_from_user` and `copy_to_user` do: they differ in which of the arrays is the
user's, and whether it is written. -/
def copyChecked (m : Machine) (destination source length user : Nat) (writable : Bool) :
    Option (Bool × Machine) :=
  if length = 0 then some (true, m)
  else if destination = 0 ∨ source = 0 then some (false, m)
  else do
    if (← userRangeAccessible m user length writable) = false then return (false, m)
    else
      let m ← memcpy m destination source length
      return (true, m)

/-- `copy_from_user`. -/
def copyFromUser (m : Machine) (kernelDestination userSource length : Nat) :
    Option (Bool × Machine) :=
  copyChecked m kernelDestination userSource length userSource false

/-- `copy_to_user`. -/
def copyToUser (m : Machine) (userDestination kernelSource length : Nat) :
    Option (Bool × Machine) :=
  copyChecked m userDestination kernelSource length userDestination true

/-! ## The walk -/

/-- The table behind a virtual address. -/
def Machine.tableOf (m : Machine) (v : Nat) : Nat :=
  frameOf (m.mem m.directory (pageDirectoryIndex v))

variable {m m' : Machine} {writable : Bool} {v n : Nat}

/-- A byte in a page that is present and accessible to users, and writable if asked for, in the
directory and in the table. -/
structure UserByte (m : Machine) (writable : Bool) (v : Nat) : Prop where
  directoryPresent : (m.mem m.directory (pageDirectoryIndex v)).has pagePresent = true
  tablePresent : (m.mem (m.tableOf v) (pageTableIndex v)).has pagePresent = true
  directoryUser : (m.mem m.directory (pageDirectoryIndex v)).has pageUser = true
  tableUser : (m.mem (m.tableOf v) (pageTableIndex v)).has pageUser = true
  directoryWritable : writable = true →
    (m.mem m.directory (pageDirectoryIndex v)).has pageWritable = true
  tableWritable : writable = true → (m.mem (m.tableOf v) (pageTableIndex v)).has pageWritable = true

instance : Decidable (UserByte m writable v) :=
  decidable_of_iff
    (((m.mem m.directory (pageDirectoryIndex v)).has pagePresent = true ∧
      (m.mem (m.tableOf v) (pageTableIndex v)).has pagePresent = true) ∧
      ((m.mem m.directory (pageDirectoryIndex v)).has pageUser = true ∧
      (m.mem (m.tableOf v) (pageTableIndex v)).has pageUser = true) ∧
      (writable = true → (m.mem m.directory (pageDirectoryIndex v)).has pageWritable = true) ∧
      (writable = true → (m.mem (m.tableOf v) (pageTableIndex v)).has pageWritable = true))
    ⟨fun h => ⟨h.1.1, h.1.2, h.2.1.1, h.2.1.2, h.2.2.1, h.2.2.2⟩,
      fun h => ⟨⟨h.directoryPresent, h.tablePresent⟩, ⟨h.directoryUser, h.tableUser⟩,
        h.directoryWritable, h.tableWritable⟩⟩

/-- What the walk accepts: the window on the page tables is for the kernel. -/
def Accessible (m : Machine) (writable : Bool) (v : Nat) : Prop :=
  pageDirectoryIndex v ≠ recursiveDirectoryIndex ∧ UserByte m writable v

instance : Decidable (Accessible m writable v) := inferInstanceAs (Decidable (_ ∧ _))

/-- The bytes of a page are accessible together. -/
theorem Accessible.page {u : Nat} (h : Accessible m writable v)
    (hpage : u / pageSize = v / pageSize) : Accessible m writable u := by
  have hdirectory : pageDirectoryIndex u = pageDirectoryIndex v := by
    unfold pageDirectoryIndex
    unfold pageSize at hpage
    omega
  have htable : pageTableIndex u = pageTableIndex v := by
    unfold pageTableIndex
    unfold pageSize at hpage
    omega
  obtain ⟨hindex, h1, h2, h3, h4, h5, h6⟩ := h
  have hof : m.tableOf v = m.tableOf u := by
    unfold Machine.tableOf
    rw [hdirectory]
  rw [← hdirectory] at hindex h1 h3 h5
  rw [hof, ← htable] at h2 h4 h6
  exact ⟨hindex, h1, h2, h3, h4, h5, h6⟩

/-- Whether the walk goes on after a page with these flags. -/
def permits (writable : Bool) : Option Word → Bool
  | none => false
  | some flags => flags.has pageUser && !(writable && !flags.has pageWritable)

theorem effectiveFlags_has (user writable : Bool) :
    (effectiveFlags user writable).has pageUser = user ∧
      (effectiveFlags user writable).has pageWritable = writable := by
  cases user with
  | false => cases writable <;> decide
  | true => cases writable <;> decide

theorem permits_effective {pde pte : Word} :
    permits writable (some (effectiveFlags (pde.has pageUser && pte.has pageUser)
      (pde.has pageWritable && pte.has pageWritable))) = true ↔
    (pde.has pageUser = true ∧ pte.has pageUser = true) ∧
      (writable = true → pde.has pageWritable = true ∧ pte.has pageWritable = true) := by
  obtain ⟨huser, hwritable⟩ := effectiveFlags_has (pde.has pageUser && pte.has pageUser)
    (pde.has pageWritable && pte.has pageWritable)
  unfold permits
  dsimp only
  rw [huser, hwritable, ← Bool.and_eq_true, ← Bool.and_eq_true]
  cases writable with
  | false => simp
  | true => simp

theorem lookUp_result (h : m.Recursive) (v : Nat) : lookUp m v =
    some (if pageDirectoryIndex v = recursiveDirectoryIndex then none
      else if (m.mem m.directory (pageDirectoryIndex v)).has pagePresent = false then none
      else if (m.mem (m.tableOf v) (pageTableIndex v)).has pagePresent = false then none
      else some (m.mem m.directory (pageDirectoryIndex v), m.mem (m.tableOf v) (pageTableIndex v))) := by
  have hd : pageDirectoryIndex v < 1024 := Nat.mod_lt _ (by decide)
  have ht : pageTableIndex v < 1024 := Nat.mod_lt _ (by decide)
  unfold lookUp
  dsimp only
  split
  · rfl
  · rw [load_directoryEntry h hd, bind_eq_bind, bind_some]
    cases hp : (m.mem m.directory (pageDirectoryIndex v)).has pagePresent with
    | false => rfl
    | true =>
      rw [if_neg (by decide), if_neg (by decide), load_tableEntry h hd ht hp, bind_some]
      show (if (m.mem (m.tableOf v) (pageTableIndex v)).has pagePresent = false then some none
        else some (some _)) = _
      split <;> rfl

theorem pagingGetEffectiveFlags_spec (h : m.Recursive) (writable : Bool) (v : Nat) :
    ∃ r, pagingGetEffectiveFlags m v = some r ∧
      (permits writable r = true ↔ Accessible m writable v) := by
  refine ⟨_, by rw [pagingGetEffectiveFlags, lookUp_result h v]; rfl, ?_⟩
  split
  next hindex => exact ⟨fun h => (by cases h), fun haccess => absurd hindex haccess.1⟩
  next hindex =>
  split
  next hdirectory =>
    refine ⟨fun h => (by cases h), fun haccess => ?_⟩
    rw [haccess.2.directoryPresent] at hdirectory
    cases hdirectory
  next hdirectory =>
  split
  next htable =>
    refine ⟨fun h => (by cases h), fun haccess => ?_⟩
    rw [haccess.2.tablePresent] at htable
    cases htable
  next htable =>
    rw [Bool.not_eq_false] at hdirectory htable
    refine permits_effective.trans ⟨?_, ?_⟩
    · rintro ⟨huser, hwritable⟩
      exact ⟨hindex, hdirectory, htable, huser.1, huser.2, fun hw => (hwritable hw).1,
        fun hw => (hwritable hw).2⟩
    · rintro ⟨-, haccess⟩
      exact ⟨⟨haccess.directoryUser, haccess.tableUser⟩, fun hw =>
        ⟨haccess.directoryWritable hw, haccess.tableWritable hw⟩⟩

theorem userRangeFrom_succ {lastPage fuel page : Nat} {r : Option Word}
    (h : pagingGetEffectiveFlags m page = some r) :
    userRangeFrom m writable lastPage (fuel + 1) page =
      if permits writable r = false then some false
      else if page = lastPage then some true
      else if 2 ^ 32 - 1 - pageSize < page then some false
      else userRangeFrom m writable lastPage fuel (page + pageSize) := by
  rw [userRangeFrom, h, bind_eq_bind, bind_some]
  cases r with
  | none => rfl
  | some flags =>
    dsimp only
    by_cases huser : flags.has pageUser = false
    · have hstop : permits writable (some flags) = false := by
        unfold permits
        dsimp only
        rw [huser, Bool.false_and]
      rw [if_pos huser, if_pos hstop]
      rfl
    by_cases hreadonly : (writable && !flags.has pageWritable) = true
    · have hstop : permits writable (some flags) = false := by
        unfold permits
        dsimp only
        rw [hreadonly, Bool.not_true, Bool.and_false]
      rw [if_neg huser, if_pos hreadonly, if_pos hstop]
      rfl
    · have hgo : permits writable (some flags) ≠ false := by
        unfold permits
        dsimp only
        rw [Bool.not_eq_true] at hreadonly
        rw [hreadonly, Bool.not_false, Bool.and_true]
        exact huser
      rw [if_neg huser, if_neg hreadonly, if_neg hgo]
      rfl

/-- The walk from page `k` to page `last` says whether all of them are accessible. -/
theorem userRangeFrom_spec (h : m.Recursive) (writable : Bool) {last fuel k : Nat} (hk : k ≤ last)
    (hlast : last < addressPages) (hfuel : last - k < fuel) :
    ∃ ok, userRangeFrom m writable (last * pageSize) fuel (k * pageSize) = some ok ∧
      (ok = true ↔ ∀ q, k ≤ q → q ≤ last → Accessible m writable (q * pageSize)) := by
  induction fuel generalizing k with
  | zero => exact absurd hfuel (Nat.not_lt_zero _)
  | succ fuel ih =>
    obtain ⟨r, hflags, hpermits⟩ := pagingGetEffectiveFlags_spec h writable (k * pageSize)
    rw [userRangeFrom_succ hflags]
    cases hr : permits writable r with
    | false =>
      refine ⟨false, if_pos rfl, nofun, fun hall => ?_⟩
      rw [hpermits.mpr (hall k (Nat.le_refl k) hk)] at hr
      cases hr
    | true =>
      have hfirst := hpermits.mp hr
      rw [if_neg (by decide)]
      by_cases hend : k = last
      · subst hend
        refine ⟨true, if_pos rfl, fun _ q hlo hhi => ?_, fun _ => rfl⟩
        rw [Nat.le_antisymm hhi hlo]
        exact hfirst
      · unfold addressPages at hlast
        have hne : k * pageSize ≠ last * pageSize := by
          show k * 4096 ≠ last * 4096
          omega
        have hmore : ¬2 ^ 32 - 1 - pageSize < k * pageSize := by
          show ¬2 ^ 32 - 1 - 4096 < k * 4096
          omega
        obtain ⟨ok, hrest, hok⟩ := @ih (k + 1) (by omega) (by omega)
        rw [if_neg hne, if_neg hmore, ← Nat.succ_mul]
        refine ⟨ok, hrest, hok.trans ⟨fun hall q hlo hhi => ?_, fun hall q hlo hhi => ?_⟩⟩
        · by_cases hq : q = k
          · rw [hq]
            exact hfirst
          · exact hall q (by omega) hhi
        · exact hall q (by omega) hhi

/-- The walk returns, and accepts exactly the ranges whose bytes are all accessible. -/
theorem userRangeAccessible_spec (h : m.Recursive) (writable : Bool) (address n : Nat)
    (hn : n < 2 ^ 32) :
    ∃ ok, userRangeAccessible m address n writable = some ok ∧
      (ok = true ↔ n = 0 ∨ (address + n ≤ 2 ^ 32 ∧
        ∀ i < n, Accessible m writable (address + i))) := by
  unfold userRangeAccessible
  by_cases hzero : n = 0
  · rw [if_pos hzero]
    exact ⟨true, rfl, fun _ => .inl hzero, fun _ => rfl⟩
  rw [if_neg hzero]
  by_cases hwraps : 2 ^ 32 - 1 - (n - 1) < address
  · rw [if_pos hwraps]
    refine ⟨false, rfl, nofun, fun hor => ?_⟩
    have hfits := (hor.resolve_left hzero).1
    omega
  rw [if_neg hwraps]
  have hlast : (address + n - 1) / 4096 < 2 ^ 20 := by omega
  have hle : address / pageSize ≤ (address + n - 1) / pageSize :=
    Nat.div_le_div_right (by omega)
  obtain ⟨ok, hwalk, hok⟩ :=
    userRangeFrom_spec h writable hle hlast (Nat.lt_of_le_of_lt (Nat.sub_le _ _) hlast)
  refine ⟨ok, hwalk, hok.trans ⟨fun hall => .inr ⟨by omega, fun i hi => ?_⟩, fun hor q hlo hhi => ?_⟩⟩
  · have hpage := hall ((address + i) / pageSize) (Nat.div_le_div_right (by omega))
      (Nat.div_le_div_right (by omega))
    refine hpage.page ?_
    rw [Nat.mul_div_cancel _ (by decide)]
  · -- some byte of the range is in page `q`
    obtain ⟨-, hall⟩ := hor.resolve_left hzero
    change address / 4096 ≤ q at hlo
    change q ≤ (address + n - 1) / 4096 at hhi
    have hbyte := hall (max address (q * 4096) - address) (by omega)
    refine hbyte.page ?_
    show q * 4096 / 4096 = (address + (max address (q * 4096) - address)) / 4096
    omega

/-! ## The copy -/

def Machine.byte (m : Machine) (p : Nat × Nat) : BitVec 8 := byteOf (m.mem p.1) p.2

/-- The bytes from `a` on are mapped. -/
def Placed (m : Machine) (a n : Nat) : Prop := ∀ i < n, ∃ p, m.place (a + i) = some p

/-- The arrays of `memcpy` do not overlap, and no table that maps them is in the destination. -/
structure Apart (m : Machine) (dst src n : Nat) : Prop where
  bytes : ∀ i < n, ∀ p, m.place (dst + i) = some p → ∀ j < n, m.place (src + j) ≠ some p
  directory : ∀ i < n, ∀ p, m.place (dst + i) = some p → p.1 ≠ m.directory
  tables : ∀ i < n, ∀ p, m.place (dst + i) = some p → ∀ j < n,
    p.1 ≠ m.tableOf (dst + j) ∧ p.1 ≠ m.tableOf (src + j)

/-- The first `n` bytes are copied, and nothing else has changed. Where a frame is mapped
twice, the last byte that goes to a place stays there. -/
structure Copied (m m' : Machine) (dst src n : Nat) : Prop where
  used : m'.used = m.used
  cr3 : m'.cr3 = m.cr3
  kernelDirectory : m'.kernelDirectory = m.kernelDirectory
  bytes : ∀ i < n, ∀ p q, m.place (dst + i) = some p → m.place (src + i) = some q →
    (∀ j, i < j → j < n → m.place (dst + j) ≠ some p) → m'.byte p = m.byte q
  others : ∀ p, (∀ i < n, m.place (dst + i) ≠ some p) → m'.byte p = m.byte p
  frames : ∀ frame, (∀ i < n, ∀ p, m.place (dst + i) = some p → p.1 ≠ frame) →
    m'.mem frame = m.mem frame

variable {dst src : Nat}

theorem Copied.zero (m : Machine) (dst src : Nat) : Copied m m dst src 0 where
  used := rfl
  cr3 := rfl
  kernelDirectory := rfl
  bytes := fun i hi => absurd hi (Nat.not_lt_zero i)
  others := fun _ _ => rfl
  frames := fun _ _ => rfl

theorem place_congr (hcr3 : m'.cr3 = m.cr3) (hdirectory : m'.mem m.directory = m.mem m.directory)
    (htable : m'.mem (m.tableOf v) = m.mem (m.tableOf v)) : m'.place v = m.place v := by
  have hsame : m'.directory = m.directory := congrArg (· / pageSize) hcr3
  have hof : m'.tableOf v = m.tableOf v := by
    unfold Machine.tableOf
    rw [hsame, hdirectory]
  unfold Machine.place Machine.translate
  dsimp only
  change Option.map _ (if (m'.mem m'.directory _).has _ && (m'.mem (m'.tableOf v) _).has _ then
    some (frameOf (m'.mem (m'.tableOf v) _), _) else none) = _
  rw [hsame, hdirectory, hof, htable]
  rfl

/-- As long as the tables are left alone, addresses stand for the same places. -/
theorem Copied.place {k : Nat} (h : Copied m m' dst src k) (hapart : Apart m dst src n) (hk : k ≤ n)
    {i : Nat} (hi : i < n) :
    m'.place (dst + i) = m.place (dst + i) ∧ m'.place (src + i) = m.place (src + i) := by
  have hdirectory : m'.mem m.directory = m.mem m.directory :=
    h.frames _ fun j hj p hp => hapart.directory j (by omega) p hp
  constructor
  · exact place_congr h.cr3 hdirectory
      (h.frames _ fun j hj p hp => (hapart.tables j (by omega) p hp i hi).1)
  · exact place_congr h.cr3 hdirectory
      (h.frames _ fun j hj p hp => (hapart.tables j (by omega) p hp i hi).2)

theorem byte_write {frame j : Nat} {b : BitVec 8} {p : Nat × Nat} :
    (m.write frame (setByte (m.mem frame) j b)).byte p = if p = (frame, j) then b else m.byte p := by
  obtain ⟨f, k⟩ := p
  unfold Machine.byte
  dsimp only
  by_cases hf : f = frame
  · subst hf
    rw [write_self, byteOf_setByte]
    by_cases hk : k = j
    · rw [if_pos hk, if_pos (by rw [hk])]
    · rw [if_neg hk, if_neg fun heq => hk (congrArg Prod.snd heq)]
  · rw [write_ne hf, if_neg fun heq => hf (congrArg Prod.fst heq)]

/-- One byte more. -/
theorem Copied.step {k : Nat} (h : Copied m m' dst src k) {p q : Nat × Nat} (hp : m.place (dst + k) = some p) (hq : m.place (src + k) = some q) :
    Copied m (m'.write p.1 (setByte (m'.mem p.1) p.2 (m.byte q))) dst src (k + 1) where
  used := h.used
  cr3 := h.cr3
  kernelDirectory := h.kernelDirectory
  bytes := by
    intro i hi p' q' hp' hq' hlast
    rw [byte_write]
    by_cases hik : i = k
    · subst hik
      rw [hp] at hp'
      rw [hq] at hq'
      cases hp'
      cases hq'
      exact if_pos rfl
    · rw [if_neg]
      · exact h.bytes i (by omega) p' q' hp' hq' fun j hj hjk => hlast j hj (by omega)
      · rintro rfl
        exact hlast k (by omega) (by omega) hp
  others := by
    intro p' hnone
    rw [byte_write, if_neg]
    · exact h.others p' fun i hi => hnone i (by omega)
    · rintro rfl
      exact hnone k (by omega) hp
  frames := by
    intro frame hnone
    rw [write_ne fun heq => hnone k (by omega) p hp heq.symm]
    exact h.frames frame fun i hi => hnone i (by omega)

/-- The loop of `memcpy` copies the bytes that are left. -/
theorem copyBytes_spec (hapart : Apart m dst src n) (hdst : Placed m dst n) (hsrc : Placed m src n)
    {left i : Nat} (hn : i + left = n) (h : Copied m m' dst src i) :
    ∃ m'', copyBytes dst src left i m' = some m'' ∧ Copied m m'' dst src n := by
  induction left generalizing i m' with
  | zero =>
    obtain rfl : i = n := hn
    exact ⟨m', rfl, h⟩
  | succ left ih =>
    have hi : i < n := by omega
    obtain ⟨p, hp⟩ := hdst i hi
    obtain ⟨q, hq⟩ := hsrc i hi
    obtain ⟨hplace, hplace'⟩ := h.place hapart (by omega) hi
    have hbyte : m'.byte q = m.byte q := h.others q fun j hj hj' =>
      hapart.bytes j (by omega) q hj' i hi hq
    have hload : m'.loadByte (src + i) = some (m.byte q) := by
      unfold Machine.loadByte
      rw [hplace', hq]
      exact congrArg some hbyte
    have hstore : m'.storeByte (dst + i) (m.byte q) =
        some (m'.write p.1 (setByte (m'.mem p.1) p.2 (m.byte q))) := by
      unfold Machine.storeByte
      rw [hplace, hp]
      rfl
    obtain ⟨m'', hrest, hcopied⟩ := ih (by omega) (h.step hp hq)
    refine ⟨m'', ?_, hcopied⟩
    rw [copyBytes, hload, bind_eq_bind, bind_some, hstore, bind_eq_bind, bind_some]
    exact hrest

theorem memcpy_spec (hapart : Apart m dst src n) (hdst : Placed m dst n) (hsrc : Placed m src n) :
    ∃ m', memcpy m dst src n = some m' ∧ Copied m m' dst src n :=
  copyBytes_spec hapart hdst hsrc (Nat.zero_add n) (.zero m dst src)

/-! ## The two calls -/

theorem UserByte.mapped (h : UserByte m writable v) : ∃ p, m.place v = some p := by
  refine ⟨(frameOf (m.mem (m.tableOf v) (pageTableIndex v)), v % pageSize), ?_⟩
  unfold Machine.place Machine.translate
  dsimp only
  change Option.map _ (if (m.mem m.directory _).has _ && (m.mem (m.tableOf v) _).has _ then
    some (frameOf (m.mem (m.tableOf v) _), _) else none) = _
  rw [h.directoryPresent, h.tablePresent]
  rfl

/-- A range of user memory that both calls accept. -/
structure UserRange (m : Machine) (writable : Bool) (a n : Nat) : Prop where
  address : a ≠ 0
  fits : a + n ≤ 2 ^ 32
  accessible : ∀ i < n, Accessible m writable (a + i)

theorem UserRange.mapped {a : Nat} (h : UserRange m writable a n) : Placed m a n :=
  fun i hi => (h.accessible i hi).2.mapped

/-- How a copy ends: it succeeds with the bytes copied, or fails and leaves the memory alone. -/
def Ends (m : Machine) (dst src n : Nat) (accepted : Prop) (r : Option (Bool × Machine)) : Prop :=
  ∃ ok m', r = some (ok, m') ∧ (ok = true ↔ accepted) ∧
    (ok = true → Copied m m' dst src n) ∧ (ok = false → m' = m)

theorem copyChecked_ends (h : m.Recursive) (hn : n < 2 ^ 32) (user : Nat) (writable : Bool)
    (harrays : dst ≠ 0 → src ≠ 0 → user + n ≤ 2 ^ 32 →
      (∀ i < n, Accessible m writable (user + i)) →
        Apart m dst src n ∧ Placed m dst n ∧ Placed m src n) :
    Ends m dst src n (n = 0 ∨ (dst ≠ 0 ∧ src ≠ 0) ∧ user + n ≤ 2 ^ 32 ∧
      ∀ i < n, Accessible m writable (user + i)) (copyChecked m dst src n user writable) := by
  unfold copyChecked
  by_cases hzero : n = 0
  · rw [if_pos hzero]
    subst hzero
    exact ⟨true, m, rfl, ⟨fun _ => .inl rfl, fun _ => rfl⟩, fun _ => .zero m dst src, nofun⟩
  rw [if_neg hzero]
  by_cases hnull : dst = 0 ∨ src = 0
  · rw [if_pos hnull]
    refine ⟨false, m, rfl, ⟨nofun, fun hor => ?_⟩, nofun, fun _ => rfl⟩
    obtain ⟨⟨hdst, hsrc⟩, -⟩ := hor.resolve_left hzero
    exact absurd hnull (not_or.mpr ⟨hdst, hsrc⟩)
  obtain ⟨hdst, hsrc⟩ := not_or.mp hnull
  obtain ⟨ok, hwalk, hok⟩ := userRangeAccessible_spec h writable user n hn
  rw [if_neg hnull, hwalk, bind_eq_bind, bind_some]
  cases ok with
  | false =>
    rw [if_pos rfl]
    refine ⟨false, m, rfl, ⟨nofun, fun hor => ?_⟩, nofun, fun _ => rfl⟩
    exact hok.mpr (.inr (hor.resolve_left hzero).2)
  | true =>
    obtain ⟨hfits, hall⟩ := (hok.mp rfl).resolve_left hzero
    obtain ⟨hapart, hdst', hsrc'⟩ := harrays hdst hsrc hfits hall
    obtain ⟨m', hcopy, hcopied⟩ := memcpy_spec hapart hdst' hsrc'
    rw [if_neg (by decide), hcopy]
    exact ⟨true, m', rfl, ⟨fun _ => .inr ⟨⟨hdst, hsrc⟩, hfits, hall⟩, fun _ => rfl⟩,
      fun _ => hcopied, nofun⟩

/-- What a caller promises of the array in the kernel, for a range that is accepted. -/
def KernelArray (m : Machine) (writable : Bool) (dst src n kernel user : Nat) : Prop :=
  kernel ≠ 0 → UserRange m writable user n → Placed m kernel n ∧ Apart m dst src n

/-- `copy_from_user` and `copy_to_user` succeed exactly for the ranges of user memory, and copy
exactly their bytes. -/
theorem usercopy_exact (m : Machine) (h : m.Recursive) (dst src n : Nat) (hn : n < 2 ^ 32) :
    (KernelArray m false dst src n dst src →
      Ends m dst src n (n = 0 ∨ dst ≠ 0 ∧ UserRange m false src n) (copyFromUser m dst src n)) ∧
    (KernelArray m true dst src n src dst →
      Ends m dst src n (n = 0 ∨ src ≠ 0 ∧ UserRange m true dst n) (copyToUser m dst src n)) := by
  constructor
  · intro harray
    obtain ⟨ok, m', hr, hok, hends⟩ := copyChecked_ends h hn src false
      fun hdst hsrc hfits hall => by
        have hrange : UserRange m false src n := ⟨hsrc, hfits, hall⟩
        obtain ⟨hmapped, hapart⟩ := harray hdst hrange
        exact ⟨hapart, hmapped, hrange.mapped⟩
    refine ⟨ok, m', hr, hok.trans (or_congr_right ?_), hends⟩
    constructor
    · rintro ⟨⟨hdst, hsrc⟩, hfits, hall⟩
      exact ⟨hdst, hsrc, hfits, hall⟩
    · rintro ⟨hdst, hsrc, hfits, hall⟩
      exact ⟨⟨hdst, hsrc⟩, hfits, hall⟩
  · intro harray
    obtain ⟨ok, m', hr, hok, hends⟩ := copyChecked_ends h hn dst true
      fun hdst hsrc hfits hall => by
        have hrange : UserRange m true dst n := ⟨hdst, hfits, hall⟩
        obtain ⟨hmapped, hapart⟩ := harray hsrc hrange
        exact ⟨hapart, hrange.mapped, hmapped⟩
    refine ⟨ok, m', hr, hok.trans (or_congr_right ?_), hends⟩
    constructor
    · rintro ⟨⟨hdst, hsrc⟩, hfits, hall⟩
      exact ⟨hsrc, hdst, hfits, hall⟩
    · rintro ⟨hsrc, hdst, hfits, hall⟩
      exact ⟨⟨hdst, hsrc⟩, hfits, hall⟩

/-- A directory in frame 1 and a table in frame 2: pages 0 and 1 are frames 3 and 4 for users,
page 2 is frame 5 for the kernel. The window on the tables is open to users. -/
def openMachine : Machine where
  mem := fun frame i =>
    if frame = 1 then if i = 0 then 0x2007#32 else if i = 1023 then 0x1007#32 else 0#32
    else if frame = 2 then
      if i = 0 then 0x3007#32 else if i = 1 then 0x4007#32 else if i = 2 then 0x5003#32 else 0#32
    else if frame = 4 then 0x64636261#32
    else 0#32
  used := fun _ => true
  cr3 := 0x1000
  kernelDirectory := 0x1000

/-- A word is copied from page 1 to page 2, and back. -/
theorem openMachine_copies :
    Ends openMachine 0x2000 0x1ffc 4 (4 = 0 ∨ 0x2000 ≠ 0 ∧ UserRange openMachine false 0x1ffc 4)
      (copyFromUser openMachine 0x2000 0x1ffc 4) ∧
    Ends openMachine 0x1ffc 0x2000 4 (4 = 0 ∨ 0x2000 ≠ 0 ∧ UserRange openMachine true 0x1ffc 4)
      (copyToUser openMachine 0x1ffc 0x2000 4) := by
  have hrecursive : openMachine.Recursive := ⟨by decide, by decide⟩
  have hkernel : ∀ i < 4, openMachine.place (0x2000 + i) = some (5, i) := by decide
  have huser : ∀ i < 4, openMachine.place (0x1ffc + i) = some (4, 0xffc + i) := by decide
  have htables : ∀ j < 4, openMachine.tableOf (0x2000 + j) = 2 ∧
      openMachine.tableOf (0x1ffc + j) = 2 := by decide
  have hdirectory : openMachine.directory = 1 := by decide
  refine ⟨(usercopy_exact openMachine hrecursive 0x2000 0x1ffc 4 (by decide)).1 fun _ _ =>
      ⟨fun i hi => ⟨_, hkernel i hi⟩, ?_, ?_, ?_⟩,
    (usercopy_exact openMachine hrecursive 0x1ffc 0x2000 4 (by decide)).2 fun _ _ =>
      ⟨fun i hi => ⟨_, hkernel i hi⟩, ?_, ?_, ?_⟩⟩
  · intro i hi p hp j hj hp'
    rw [hkernel i hi] at hp
    rw [huser j hj, ← hp] at hp'
    exact absurd (congrArg Prod.fst (Option.some.inj hp')) (show 4 ≠ 5 by decide)
  · intro i hi p hp
    rw [hkernel i hi] at hp
    cases hp
    rw [hdirectory]
    show 5 ≠ 1
    decide
  · intro i hi p hp j hj
    rw [hkernel i hi] at hp
    cases hp
    rw [(htables j hj).1, (htables j hj).2]
    show 5 ≠ 2 ∧ 5 ≠ 2
    decide
  · intro i hi p hp j hj hp'
    rw [huser i hi] at hp
    rw [hkernel j hj, ← hp] at hp'
    exact absurd (congrArg Prod.fst (Option.some.inj hp')) (show 5 ≠ 4 by decide)
  · intro i hi p hp
    rw [huser i hi] at hp
    cases hp
    rw [hdirectory]
    show 4 ≠ 1
    decide
  · intro i hi p hp j hj
    rw [huser i hi] at hp
    cases hp
    rw [(htables j hj).1, (htables j hj).2]
    show 4 ≠ 2 ∧ 4 ≠ 2
    decide

/-- Neither the first byte of the address space nor the window on the tables is copied. -/
theorem openMachine_refused :
    (UserByte openMachine false 0 ∧ copyFromUser openMachine 0x2000 0 1 = some (false, openMachine)) ∧
    UserByte openMachine true 0xffc00000 ∧
      copyToUser openMachine 0xffc00000 0x2000 1 = some (false, openMachine) := by
  refine ⟨⟨by decide, rfl⟩, by decide, ?_⟩
  have hwalk : userRangeAccessible openMachine 0xffc00000 1 true = some false := by decide
  unfold copyToUser copyChecked
  rw [if_neg (by decide), if_neg (by decide), hwalk]
  rfl

end MeatySkeleton.Paging
