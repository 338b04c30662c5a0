import MeatySkeleton.Lib.Fragments
import MeatySkeleton.Device.ReadAhead
import MeatySkeleton.Paging.AddressMap

/-!
# The physical regions of a command

`ahci_read_dma` and `ahci_write_dma` up to the write to `ci` that issues the command. The table of
physical regions is built from the page tables, a page of the buffer at a time: it describes the
fragments of the buffer, in their order (`ahciBuildDmaPrdt_eq`). The buffer may begin anywhere, so
a fragment may have an odd length.
-/

namespace MeatySkeleton.Device.Dma

open List Option Lib MeatySkeleton.Paging

/-- `AHCI_SECTOR_SIZE`. -/
def sectorSize : Nat := 512

/-- `AHCI_MAX_PRDT_ENTRIES`. -/
def maxPrdtEntries : Nat := 248

/-- `ahci_prdt_entry_t`; `data_base_upper` and `reserved` are zero. -/
structure PrdtEntry where
  dataBase : Nat
  byteCountAndFlags : Nat

/-- The loop of `ahci_build_dma_prdt`; `none` inside is its result `false`. -/
def buildFrom (m : Machine) (virtualAddress remaining : Nat) (entries : List PrdtEntry) :
    Option (Option (List PrdtEntry)) :=
  if remaining = 0 then some (some entries)
  else if maxPrdtEntries ≤ entries.length then some none
  else
    match pagingGetPhysicalAddress m virtualAddress with
    | none => none
    | some none => some none
    | some (some physicalAddress) =>
      let pageOffset := virtualAddress % pageSize
      let pageBytes := pageSize - pageOffset
      let fragmentBytes := if remaining < pageBytes then remaining else pageBytes
      buildFrom m ((virtualAddress + fragmentBytes) % 2 ^ 32) (remaining - fragmentBytes)
        (entries ++ [⟨physicalAddress % 2 ^ 32, (fragmentBytes + 2 ^ 32 - 1) % 2 ^ 32⟩])
termination_by remaining
decreasing_by
  have hlt := Nat.mod_lt virtualAddress (show 0 < pageSize by decide)
  split
  all_goals omega

/-- `ahci_build_dma_prdt`. -/
def ahciBuildDmaPrdt (m : Machine) (buffer byteCount : Nat) : Option (Option (List PrdtEntry)) :=
  if buffer = 0 ∨ byteCount = 0 then some none
  else buildFrom m buffer byteCount []

/-- The port before a command: bit 0 of `ci` or `sact`, and whether the device gets ready. -/
structure Port where
  busy : Bool
  ready : Bool

/-- What is in slot zero when `ci` is written. -/
structure Command where
  write : Bool
  lba : Nat
  sectorCount : Nat
  prdtLength : Nat
  prdt : List PrdtEntry

/-- `ahci_read_dma` and `ahci_write_dma` up to `port->ci = 1u`; `none` inside is their result
`false` before that. -/
def ahciIssueDma (m : Machine) (port : Port) (write : Bool) (lba sectorCount buffer : Nat) :
    Option (Option Command) :=
  if buffer = 0 then some none
  else if !dmaAccepts lba sectorCount then some none
  else if port.busy then some none
  else if !port.ready then some none
  else
    match ahciBuildDmaPrdt m buffer (sectorCount * sectorSize) with
    | none => none
    | some none => some none
    | some (some prdt) => some (some ⟨write, lba, sectorCount, prdt.length, prdt⟩)

/-! ## Physical addresses -/

/-- Where a byte of the address space is. -/
def physicalAddress (m : Machine) (dir address : Nat) : Option Nat :=
  (pageMap m dir (address / pageSize)).map fun (frame, _, _) => frame * pageSize + address % pageSize

/-- The bytes of an entry. -/
def PrdtEntry.bytes (e : PrdtEntry) : List Nat := List.range' e.dataBase (e.byteCountAndFlags + 1)

/-- The entry for a fragment of the buffer. -/
def regionFor (m : Machine) (dir : Nat) (f : Nat × Nat) : Option PrdtEntry :=
  (physicalAddress m dir f.1).map fun address => ⟨address, f.2 - 1⟩

variable {m : Machine} {dir a n k : Nat}

theorem pageSize_pos : 0 < pageSize := by decide

theorem pagingGetPhysicalAddress_eq (h : Space m dir) (ha : a < 2 ^ 32) :
    pagingGetPhysicalAddress m a = some (physicalAddress m dir a) := by
  obtain ⟨v, rfl⟩ : ∃ v : Word, v.toNat = a := ⟨BitVec.ofNat 32 a, by
    rw [BitVec.toNat_ofNat]
    exact Nat.mod_eq_of_lt ha⟩
  obtain ⟨entries, hentries, hpage⟩ := h.lookUp v
  rw [pagingGetPhysicalAddress, hentries, physicalAddress]
  change some _ = some (Option.map _ (pageMap m dir (pageOf v)))
  rw [hpage, Option.map_map]
  congr 1
  cases entries with
  | none => rfl
  | some entry =>
    obtain ⟨pde, pte⟩ := entry
    show some ((pte &&& pageFrame).toNat + v.toNat % pageSize) = _
    rw [frame_address]
    rfl

/-- A mapped byte is below the page tables, and its frame below 4 GiB. -/
theorem physicalAddress_lt {address : Nat} (h : physicalAddress m dir a = some address) :
    a < pageCount * pageSize ∧ address < 2 ^ 32 := by
  unfold physicalAddress at h
  obtain ⟨⟨frame, user, writable⟩, hpage, rfl⟩ := map_eq_some_iff.mp h
  unfold pageMap at hpage
  split at hpage
  case isFalse => cases hpage
  case isTrue hlt =>
    refine ⟨(Nat.div_lt_iff_lt_mul pageSize_pos).mp hlt, ?_⟩
    unfold mapping at hpage
    dsimp only at hpage
    split at hpage
    case isFalse => cases hpage
    case isTrue =>
      cases hpage
      have hoffset := Nat.mod_lt a pageSize_pos
      have hframe : frameOf (m.mem (frameOf (m.mem dir (pageDirectoryIndex (a / pageSize * pageSize))))
          (pageTableIndex (a / pageSize * pageSize))) < 2 ^ 20 := by
        rw [frameOf, pageSize, Nat.div_lt_iff_lt_mul (by decide)]
        exact BitVec.isLt _
      rw [pageSize] at *
      dsimp only
      omega

/-- The bytes of a page are behind each other in its frame. -/
theorem physicalAddress_add (m : Machine) (dir : Nat) (hk : a % pageSize + k < pageSize) :
    physicalAddress m dir (a + k) = (physicalAddress m dir a).map (· + k) := by
  have hpage : (a + k) / pageSize = a / pageSize := by
    rw [pageSize] at *
    omega
  have hoffset : (a + k) % pageSize = a % pageSize + k := by
    rw [pageSize] at *
    omega
  unfold physicalAddress
  rw [hpage, hoffset, Option.map_map]
  apply Option.map_congr
  intro page _
  exact (Nat.add_assoc _ _ _).symm

/-- The bytes of a fragment. -/
theorem fragment_bytes (hk : 0 < k) (hroom : a % pageSize + k ≤ pageSize) :
    (List.range' a k).mapM (physicalAddress m dir) =
      (physicalAddress m dir a).map fun address => List.range' address k := by
  have hall : ∀ address, physicalAddress m dir a = some address → ∀ i j, i + j ≤ k →
      (List.range' (a + i) j).mapM (physicalAddress m dir) =
        some (List.range' (address + i) j) := by
    intro address haddress i j hij
    induction j generalizing i with
    | zero => rfl
    | succ j ih =>
      have hfirst := physicalAddress_add m dir (by omega : a % pageSize + i < pageSize)
      rw [haddress] at hfirst
      rw [range'_succ, range'_succ, mapM_cons, hfirst, Nat.add_assoc, Nat.add_assoc,
        ih (i + 1) (by omega)]
      rfl
  cases haddress : physicalAddress m dir a with
  | none =>
    obtain ⟨j, rfl⟩ : ∃ j, k = j + 1 := ⟨k - 1, by omega⟩
    rw [range'_succ, mapM_cons, haddress]
    rfl
  | some address => exact hall address haddress 0 k (by omega)

/-- The entries for the fragments are the physical bytes of the buffer, in order. -/
theorem regions_bytes (m : Machine) (dir : Nat) {l : List (Nat × Nat)}
    (hl : ∀ f ∈ l, 0 < f.2 ∧ f.1 % pageSize + f.2 ≤ pageSize) :
    (l.flatMap fun f => List.range' f.1 f.2).mapM (physicalAddress m dir) =
      (l.mapM (regionFor m dir)).map fun prdt => prdt.flatMap PrdtEntry.bytes := by
  induction l with
  | nil => rfl
  | cons f l ih =>
    obtain ⟨⟨hpos, hroom⟩, hl⟩ := forall_mem_cons.mp hl
    have hlength : f.2 - 1 + 1 = f.2 := by omega
    have hregion : regionFor m dir f =
        (physicalAddress m dir f.1).map fun address => ⟨address, f.2 - 1⟩ := rfl
    rw [flatMap_cons, mapM_append, mapM_cons, fragment_bytes hpos hroom, ih hl, hregion]
    cases physicalAddress m dir f.1 with
    | none => rfl
    | some address =>
      cases l.mapM (regionFor m dir) with
      | none => rfl
      | some prdt =>
        have hfirst : PrdtEntry.bytes ⟨address, f.2 - 1⟩ = List.range' address f.2 := by
          rw [PrdtEntry.bytes, hlength]
        show some (List.range' address f.2 ++ prdt.flatMap PrdtEntry.bytes) =
          some (PrdtEntry.bytes ⟨address, f.2 - 1⟩ ++ prdt.flatMap PrdtEntry.bytes)
        rw [hfirst]

/-! ## Building the table -/

theorem buildFrom_eq (h : Space m dir) {entries : List PrdtEntry} (ha : a < 2 ^ 32)
    (hroom : entries.length + (fragments pageSize a n).length ≤ maxPrdtEntries) :
    buildFrom m a n entries =
      some (((fragments pageSize a n).mapM (regionFor m dir)).map (entries ++ ·)) := by
  induction n using Nat.strong_induction_on generalizing a entries with
  | _ n ih =>
    rw [buildFrom]
    split
    case isTrue hzero =>
      rw [hzero, fragments_zero]
      show some (some entries) = some (some (entries ++ []))
      rw [append_nil]
    case isFalse hn =>
      obtain ⟨k, hk⟩ : ∃ k, min n (pageSize - a % pageSize) = k := ⟨_, rfl⟩
      obtain ⟨hpos, hle, -, -⟩ := first_fragment pageSize_pos (Nat.pos_of_ne_zero hn) hk
      rw [fragments_cons pageSize_pos (Nat.pos_of_ne_zero hn) hk] at hroom ⊢
      rw [length_cons] at hroom
      have hbytes : (if n < pageSize - a % pageSize then n else pageSize - a % pageSize) = k := by
        split
        all_goals omega
      have hregion : regionFor m dir (a, k) =
          (physicalAddress m dir a).map fun address => ⟨address, k - 1⟩ := rfl
      have hcount : (k + 2 ^ 32 - 1) % 2 ^ 32 = k - 1 := by
        rw [pageSize] at *
        omega
      rw [if_neg (by omega), pagingGetPhysicalAddress_eq h ha, mapM_cons, hregion]
      cases haddress : physicalAddress m dir a with
      | none => rfl
      | some address =>
        obtain ⟨hlow, haddress⟩ := physicalAddress_lt haddress
        -- a mapped page is not the last one, so the address does not wrap around
        have hnext : a + k < 2 ^ 32 := by
          rw [pageCount, pageSize] at *
          omega
        dsimp only
        rw [hbytes, Nat.mod_eq_of_lt hnext, Nat.mod_eq_of_lt haddress, hcount,
          ih (n - k) (by omega) hnext]
        · cases (fragments pageSize (a + k) (n - k)).mapM (regionFor m dir) with
          | none => rfl
          | some prdt =>
            show some (some (entries ++ [⟨address, k - 1⟩] ++ prdt)) =
              some (some (entries ++ ⟨address, k - 1⟩ :: prdt))
            rw [append_assoc, singleton_append]
        · rw [length_append, length_singleton]
          omega

variable {lba sectorCount : Nat}

theorem dmaAccepts_count (h : dmaAccepts lba sectorCount = true) :
    0 < sectorCount ∧ sectorCount ≤ maxSectorsPerCommand := by
  simp [dmaAccepts] at h
  omega

/-- A command of at most 128 sectors has at most 17 fragments. -/
theorem fragments_le {sectorCount : Nat} (h : sectorCount ≤ maxSectorsPerCommand) :
    (fragments pageSize a (sectorCount * sectorSize)).length ≤ 17 := by
  have hlength := fragments_length pageSize_pos a (sectorCount * sectorSize)
  have hlt := Nat.mod_lt a pageSize_pos
  rw [maxSectorsPerCommand] at h
  rw [pageSize, sectorSize] at *
  omega

/-! ## The command -/

/-- What the table of a command says about `n` bytes from `a` on. -/
structure Described (m : Machine) (dir a n : Nat) (c : Command) : Prop where
  /-- The regions are the physical bytes of the buffer, in order. -/
  bytes : (List.range' a n).mapM (physicalAddress m dir) = some (c.prdt.flatMap PrdtEntry.bytes)
  /-- A region is not empty and lies in one page. -/
  inside : ∀ e ∈ c.prdt, e.byteCountAndFlags < pageSize ∧
    e.dataBase / pageSize = (e.dataBase + e.byteCountAndFlags) / pageSize
  limit : c.prdtLength = c.prdt.length ∧ c.prdt.length ≤ maxPrdtEntries
  /-- Their lengths are even where the buffer begins at an even address or lies in one page. -/
  even : (∀ e ∈ c.prdt, e.bytes.length % 2 = 0) ↔ a % 2 = 0 ∨ a % pageSize + n ≤ pageSize

theorem mapM_isSome {α β : Type} {f : α → Option β} {l : List α} :
    (l.mapM f).isSome ↔ ∀ x ∈ l, (f x).isSome := by
  induction l with
  | nil => exact iff_of_true rfl nofun
  | cons x l ih =>
    rw [mapM_cons, forall_mem_cons, ← ih]
    cases f x with
    | none => exact iff_of_false nofun fun h => nomatch h.1
    | some b =>
      cases l.mapM f with
      | none => exact iff_of_false nofun fun h => nomatch h.2
      | some bs => exact iff_of_true rfl ⟨rfl, rfl⟩

theorem mapM_mem {α β : Type} {f : α → Option β} {l : List α} {bs : List β}
    (h : l.mapM f = some bs) : (∀ b ∈ bs, ∃ x ∈ l, f x = some b) ∧ bs.length = l.length ∧
      ∀ x ∈ l, ∃ b ∈ bs, f x = some b := by
  induction l generalizing bs with
  | nil =>
    cases h
    exact ⟨nofun, rfl, nofun⟩
  | cons x l ih =>
    rw [mapM_cons] at h
    cases hx : f x with
    | none =>
      rw [hx] at h
      cases h
    | some b =>
      cases hl : l.mapM f with
      | none =>
        rw [hx, hl] at h
        cases h
      | some rest =>
        rw [hx, hl] at h
        cases h
        obtain ⟨hmem, hlength, hall⟩ := ih hl
        refine ⟨?_, congrArg (· + 1) hlength, ?_⟩
        · intro b' hb'
          rcases mem_cons.mp hb' with rfl | hb'
          · exact ⟨x, mem_cons_self, hx⟩
          · obtain ⟨y, hy, hfy⟩ := hmem b' hb'
            exact ⟨y, mem_cons_of_mem _ hy, hfy⟩
        · intro y hy
          rcases mem_cons.mp hy with rfl | hy
          · exact ⟨b, mem_cons_self, hx⟩
          · obtain ⟨b', hb', hfy⟩ := hall y hy
            exact ⟨b', mem_cons_of_mem _ hb', hfy⟩

theorem physicalAddress_mod {address : Nat} (h : physicalAddress m dir a = some address) :
    address % pageSize = a % pageSize := by
  obtain ⟨⟨frame, user, writable⟩, -, rfl⟩ := map_eq_some_iff.mp h
  show (frame * pageSize + a % pageSize) % pageSize = _
  rw [Nat.add_comm, Nat.add_mul_mod_self_right, Nat.mod_mod]

/-- The region of a fragment. -/
theorem region_spec {f : Nat × Nat} {e : PrdtEntry} (hf : 0 < f.2 ∧ f.1 % pageSize + f.2 ≤ pageSize)
    (he : regionFor m dir f = some e) : e.bytes.length = f.2 ∧ e.byteCountAndFlags < pageSize ∧
      e.dataBase / pageSize = (e.dataBase + e.byteCountAndFlags) / pageSize := by
  obtain ⟨address, haddress, rfl⟩ := map_eq_some_iff.mp he
  have hmod := physicalAddress_mod haddress
  obtain ⟨hpos, hroom⟩ := hf
  rw [PrdtEntry.bytes, length_range']
  dsimp only
  rw [pageSize] at *
  omega

theorem described (write : Bool) (lba : Nat) {sectorCount : Nat} {prdt : List PrdtEntry}
    (hcount : sectorCount ≤ maxSectorsPerCommand)
    (hprdt : (fragments pageSize a (sectorCount * sectorSize)).mapM (regionFor m dir) = some prdt) :
    Described m dir a (sectorCount * sectorSize) ⟨write, lba, sectorCount, prdt.length, prdt⟩ := by
  have hinside : ∀ f ∈ fragments pageSize a (sectorCount * sectorSize),
      0 < f.2 ∧ f.1 % pageSize + f.2 ≤ pageSize := fun _ hf => fragments_inside pageSize_pos hf
  have heven : sectorCount * sectorSize % 2 = 0 := by
    rw [sectorSize]
    omega
  obtain ⟨hmem, hlength, hall⟩ := mapM_mem hprdt
  constructor
  case bytes =>
    have hbytes := regions_bytes m dir hinside
    rw [fragments_cover pageSize_pos, hprdt] at hbytes
    exact hbytes
  case inside =>
    intro e he
    obtain ⟨f, hf, hregion⟩ := hmem e he
    exact (region_spec (hinside f hf) hregion).2
  case limit =>
    refine ⟨rfl, ?_⟩
    have hle := fragments_le (a := a) hcount
    rw [← hlength] at hle
    exact Nat.le_trans hle (by decide)
  case even =>
    rw [← fragments_even pageSize_pos (by decide) heven]
    constructor
    · intro h f hf
      obtain ⟨e, he, hregion⟩ := hall f hf
      rw [← (region_spec (hinside f hf) hregion).1]
      exact h e he
    · intro h e he
      obtain ⟨f, hf, hregion⟩ := hmem e he
      rw [(region_spec (hinside f hf) hregion).1]
      exact h f hf

/-- The table can be built where every byte is mapped. -/
theorem regions_isSome : ((fragments pageSize a n).mapM (regionFor m dir)).isSome ↔
    ∀ j < n, (physicalAddress m dir (a + j)).isSome := by
  have hbytes := regions_bytes m dir (fun _ hf => fragments_inside (a := a) (n := n) pageSize_pos hf)
  rw [fragments_cover pageSize_pos] at hbytes
  have hsame := congrArg Option.isSome hbytes
  rw [isSome_map] at hsame
  rw [← hsame, mapM_isSome]
  constructor
  · intro hall j hj
    exact hall (a + j) (mem_range'_1.mpr (by omega))
  · intro hall x hx
    obtain ⟨hle, hlt⟩ := mem_range'_1.mp hx
    obtain ⟨j, rfl⟩ := Nat.exists_eq_add_of_le hle
    exact hall j (by omega)

/-- The command that is issued. -/
theorem ahciIssueDma_eq (h : Space m dir) {port : Port} {write : Bool}
    (ha : a < 2 ^ 32) (hbuffer : a ≠ 0) (haccepts : dmaAccepts lba sectorCount = true)
    (hidle : port.busy = false) (hready : port.ready = true) :
    ahciIssueDma m port write lba sectorCount a =
      some (((fragments pageSize a (sectorCount * sectorSize)).mapM (regionFor m dir)).map
        fun prdt => ⟨write, lba, sectorCount, prdt.length, prdt⟩) := by
  obtain ⟨hzero, hcount⟩ := dmaAccepts_count haccepts
  have hbytes : sectorCount * sectorSize ≠ 0 := by
    rw [sectorSize]
    omega
  have hroom : ([] : List PrdtEntry).length +
      (fragments pageSize a (sectorCount * sectorSize)).length ≤ maxPrdtEntries := by
    have hle := fragments_le (a := a) hcount
    rw [length_nil, maxPrdtEntries]
    omega
  have hbuild : ahciBuildDmaPrdt m a (sectorCount * sectorSize) =
      some ((fragments pageSize a (sectorCount * sectorSize)).mapM (regionFor m dir)) := by
    rw [ahciBuildDmaPrdt, if_neg (by omega), buildFrom_eq h ha hroom]
    cases (fragments pageSize a (sectorCount * sectorSize)).mapM (regionFor m dir) with
    | none => rfl
    | some prdt => rfl
  rw [ahciIssueDma, if_neg hbuffer, haccepts, hidle, hready, hbuild]
  cases (fragments pageSize a (sectorCount * sectorSize)).mapM (regionFor m dir) with
  | none => rfl
  | some prdt => rfl

/-- A call that is refused before the table is built. -/
theorem ahciIssueDma_refused {port : Port} {write : Bool}
    (h : ¬(a ≠ 0 ∧ dmaAccepts lba sectorCount = true ∧ port.busy = false ∧ port.ready = true)) :
    ahciIssueDma m port write lba sectorCount a = some none := by
  unfold ahciIssueDma
  by_cases hbuffer : a = 0
  · rw [if_pos hbuffer]
  · rw [if_neg hbuffer]
    cases haccepts : dmaAccepts lba sectorCount with
    | false => rfl
    | true =>
      cases hbusy : port.busy with
      | true => rfl
      | false =>
        cases hready : port.ready with
        | false => rfl
        | true => exact absurd ⟨hbuffer, haccepts, hbusy, hready⟩ h

/-- A command is issued where the whole buffer is mapped, and its table describes the buffer; where
a page is missing nothing is issued. -/
theorem ahciIssueDma_describes (m : Machine) (dir : Nat) (h : Space m dir) (port : Port)
    (write : Bool) (lba sectorCount : Nat) (buffer : Word) :
    ∃ issued, ahciIssueDma m port write lba sectorCount buffer.toNat = some issued ∧
      (∀ c, issued = some c → Described m dir buffer.toNat (sectorCount * sectorSize) c) ∧
      (∀ j < sectorCount * sectorSize, physicalAddress m dir (buffer.toNat + j) = none →
        issued = none) ∧
      (buffer.toNat ≠ 0 → dmaAccepts lba sectorCount = true → port.busy = false →
        port.ready = true →
        (∀ j < sectorCount * sectorSize, (physicalAddress m dir (buffer.toNat + j)).isSome) →
        issued.isSome) := by
  by_cases hgo : buffer.toNat ≠ 0 ∧ dmaAccepts lba sectorCount = true ∧ port.busy = false ∧
      port.ready = true
  · obtain ⟨hbuffer, haccepts, hidle, hready⟩ := hgo
    refine ⟨_, ahciIssueDma_eq h buffer.isLt hbuffer haccepts hidle hready, ?_, ?_, ?_⟩
    · intro c hc
      obtain ⟨prdt, hprdt, rfl⟩ := Option.map_eq_some_iff.mp hc
      exact described write lba (dmaAccepts_count haccepts).2 hprdt
    · intro j hj hunmapped
      rw [Option.map_eq_none_iff, ← Option.not_isSome_iff_eq_none, regions_isSome]
      intro hall
      have hmapped := hall j hj
      rw [hunmapped] at hmapped
      cases hmapped
    · intro _ _ _ _ hall
      rw [Option.isSome_map, regions_isSome]
      exact hall
  · refine ⟨none, ahciIssueDma_refused hgo, nofun, fun _ _ _ => rfl, ?_⟩
    intro hbuffer haccepts hidle hready
    exact absurd ⟨hbuffer, haccepts, hidle, hready⟩ hgo

theorem booted_space : Space booted 1 :=
  pagingInitialize_space ⟨by decide, by decide, by decide, rfl, rfl⟩

/-- A sector into a buffer that begins with the last byte of a page. -/
theorem ahciIssueDma_booted : ∃ c, ahciIssueDma booted ⟨false, true⟩ false 0 1 0x1FFF =
    some (some c) ∧ Described booted 1 0x1FFF 512 c := by
  obtain ⟨issued, hissued, hdescribed, -, hgo⟩ :=
    ahciIssueDma_describes booted 1 booted_space ⟨false, true⟩ false 0 1 0x1FFF#32
  have hmapped : ∀ j < 512, (physicalAddress booted 1 (0x1FFF + j)).isSome := by decide +kernel
  obtain ⟨c, rfl⟩ :=
    Option.isSome_iff_exists.mp (hgo (by decide) (by decide) rfl rfl hmapped)
  exact ⟨c, hissued, hdescribed c rfl⟩

/-- Its first region is one byte. -/
theorem odd_region : Space booted 1 ∧ ∃ c, ahciIssueDma booted ⟨false, true⟩ false 0 1 0x1FFF =
    some (some c) ∧ ∃ e ∈ c.prdt, e.bytes.length % 2 = 1 := by
  have hrun : (ahciIssueDma booted ⟨false, true⟩ false 0 1 0x1FFF).any (fun issued =>
      issued.any fun c => decide (∃ e ∈ c.prdt, e.bytes.length % 2 = 1)) = true := by
    decide +kernel
  obtain ⟨issued, hissued, hany⟩ := (Option.any_eq_true _ _).mp hrun
  obtain ⟨c, rfl, hodd⟩ := (Option.any_eq_true _ _).mp hany
  exact ⟨booted_space, c, hissued, of_decide_eq_true hodd⟩

end MeatySkeleton.Device.Dma
