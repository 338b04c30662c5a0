import MeatySkeleton.Lib.Run

/-!
# The AHCI read-ahead cache

`ahci_block_read` and `ahci_block_write` of `ahci.c` over a disk whose commands
may fail. The unit is the sector; `β` is what a sector holds, and a buffer is a
function from sector positions. How the commands of a call end is an input of the
call. A command that finds slot zero busy or times out counts as failed.

After a time-out the command is still in slot zero, and no other starts before it
is over. What it still does to the disk or to the cache is done at once here: the
disk is read by later commands only, and the cache by none until a later fill has
made it valid. What it still does to the buffer of its caller can be seen, by a
read into that buffer which the cache answers without a command: `delivered`.
-/

namespace MeatySkeleton.Device

open Lib

/-- `AHCI_MAX_SECTORS_PER_COMMAND`. -/
def maxSectorsPerCommand : Nat := 128
/-- `AHCI_READ_CACHE_SECTORS`. -/
def readCacheSectors : Nat := maxSectorsPerCommand
def lba48Limit : Nat := 2 ^ 48

/-- How a command ends. A failed one has transferred the sectors of its range
that `left` gives a content for. -/
inductive Outcome (β : Type) where
  | done
  | failed (left : Nat → Option β)

/-- Why a call returns -1. The code does not tell the two apart. -/
inductive Failure where
  /-- No command was issued for what was asked. -/
  | refused
  /-- A command failed. -/
  | command
  deriving DecidableEq

variable {β : Type}

/-- Sectors `data` at positions `offset` to `offset + n` of a buffer. -/
def place (buffer : Nat → β) (offset n : Nat) (data : Nat → β) : Nat → β :=
  fun i => if offset ≤ i ∧ i < offset + n then data (i - offset) else buffer i

/-- What a command that failed leaves in a range. -/
def scatter (buffer : Nat → β) (offset n : Nat) (left : Nat → Option β) : Nat → β :=
  place buffer offset n fun i => (left i).getD (buffer (offset + i))

/-- The checks of `ahci_read_dma` and `ahci_write_dma`. -/
def dmaAccepts (lba sectorCount : Nat) : Bool :=
  !(sectorCount = 0 || maxSectorsPerCommand < sectorCount) &&
    !(lba48Limit ≤ lba || lba48Limit - lba < sectorCount)

/-- `ahci_read_dma` into `buffer` from position `offset` on. -/
def ahciReadDma (disk : Nat → β) (lba sectorCount : Nat) (buffer : Nat → β) (offset : Nat)
    (outcome : Outcome β) : (Nat → β) × Option Failure :=
  if !dmaAccepts lba sectorCount then (buffer, some .refused)
  else
    match outcome with
    | .done => (place buffer offset sectorCount fun i => disk (lba + i), none)
    | .failed left => (scatter buffer offset sectorCount left, some .command)

structure Driver (β : Type) where
  /-- What the disk holds. -/
  disk : Nat → β
  /-- `ahci_disk.sector_count`. -/
  sectorCount : Nat
  /-- `ahci_read_cache != NULL`. -/
  cachePresent : Bool
  cache : Nat → β
  cacheValid : Bool
  cacheLba : Nat
  cacheSectorCount : Nat
  /-- The writes that reached the disk so far, the last one first. -/
  log : List (Nat → Option β)

/-- `ahci_write_dma` from `buffer`, from position `offset` on. -/
def ahciWriteDma (s : Driver β) (lba sectorCount : Nat) (buffer : Nat → β) (offset : Nat)
    (outcome : Outcome β) : Driver β × Option Failure :=
  if !dmaAccepts lba sectorCount then (s, some .refused)
  else
    let written : Nat → Option β := fun x =>
      if lba ≤ x ∧ x < lba + sectorCount then
        match outcome with
        | .done => some (buffer (offset + (x - lba)))
        | .failed left => left (x - lba)
      else none
    ({ s with disk := fun x => (written x).getD (s.disk x), log := written :: s.log },
      match outcome with
      | .done => none
      | .failed _ => some .command)

/-- `ahci_read_cache_contains`. -/
def ahciReadCacheContains (s : Driver β) (lba count : Nat) : Bool :=
  if !s.cacheValid || !s.cachePresent || count = 0 then false
  else if lba < s.cacheLba then false
  else
    let offset := lba - s.cacheLba
    if s.cacheSectorCount ≤ offset then false
    else count ≤ s.cacheSectorCount - offset

/-- How far a miss at `lba` reads ahead. -/
def readAheadCount (s : Driver β) (lba : Nat) : Nat :=
  let sectorsAvailable := s.sectorCount - lba
  if readCacheSectors < sectorsAvailable then readCacheSectors else sectorsAvailable

/-- The fill of the cache on a miss. -/
def fillCache (s : Driver β) (lba : Nat) (outcome : Outcome β) : Driver β × Option Failure :=
  let s := { s with cacheValid := false, cacheSectorCount := 0 }
  let r := ahciReadDma s.disk lba (readAheadCount s lba) s.cache 0 outcome
  match r.2 with
  | some e => ({ s with cache := r.1 }, some e)
  | none =>
    ({ s with
        cache := r.1
        cacheLba := lba
        cacheSectorCount := readAheadCount s lba
        cacheValid := true }, none)

/-- The small reads of `ahci_block_read`. -/
def cachedRead (s : Driver β) (lba count : Nat) (buffer : Nat → β) (outcome : Outcome β) :
    Driver β × (Nat → β) × Option Failure :=
  let r := if ahciReadCacheContains s lba count then (s, none) else fillCache s lba outcome
  match r.2 with
  | some e => (r.1, buffer, some e)
  | none =>
    if !ahciReadCacheContains r.1 lba count then (r.1, buffer, some .refused)
    else
      let sectorOffset := lba - r.1.cacheLba
      (r.1, place buffer 0 count fun i => r.1.cache (sectorOffset + i), none)

/-- The loop of the large reads; `fuel` bounds the number of passes. -/
def readChunks (disk : Nat → β) (outcomes : Nat → Outcome β) :
    (fuel pass currentLba remaining offset : Nat) → (Nat → β) → (Nat → β) × Option Failure
  | 0, _, _, _, _, buffer => (buffer, none)
  | fuel + 1, pass, currentLba, remaining, offset, buffer =>
    if remaining = 0 then (buffer, none)
    else
      let chunk := if maxSectorsPerCommand < remaining then maxSectorsPerCommand else remaining
      let r := ahciReadDma disk currentLba chunk buffer offset (outcomes pass)
      match r.2 with
      | some e => (r.1, some e)
      | none =>
        readChunks disk outcomes fuel (pass + 1) (currentLba + chunk) (remaining - chunk)
          (offset + chunk) r.1

/-- The checks of both operations. -/
def inRange (s : Driver β) (lba count : Nat) : Bool :=
  !(count = 0) && !(s.sectorCount ≤ lba) && !(s.sectorCount - lba < count)

/-- `ahci_block_read`. -/
def ahciBlockRead (s : Driver β) (lba count : Nat) (buffer : Nat → β)
    (outcomes : Nat → Outcome β) : Driver β × (Nat → β) × Option Failure :=
  if !inRange s lba count then (s, buffer, some .refused)
  else if count ≤ readCacheSectors && s.cachePresent then
    cachedRead s lba count buffer (outcomes 0)
  else
    let r := readChunks s.disk outcomes count 0 lba count 0 buffer
    (s, r.1, r.2)

/-- The loop of `ahci_block_write`. -/
def writeChunks (buffer : Nat → β) (outcomes : Nat → Outcome β) :
    (fuel pass currentLba remaining offset : Nat) → Driver β → Driver β × Option Failure
  | 0, _, _, _, _, s => (s, none)
  | fuel + 1, pass, currentLba, remaining, offset, s =>
    if remaining = 0 then (s, none)
    else
      let chunk := if maxSectorsPerCommand < remaining then maxSectorsPerCommand else remaining
      let r := ahciWriteDma s currentLba chunk buffer offset (outcomes pass)
      match r.2 with
      | some e => ({ r.1 with cacheValid := false }, some e)
      | none =>
        writeChunks buffer outcomes fuel (pass + 1) (currentLba + chunk) (remaining - chunk)
          (offset + chunk) r.1

/-- `ahci_block_write`. -/
def ahciBlockWrite (s : Driver β) (lba count : Nat) (buffer : Nat → β)
    (outcomes : Nat → Outcome β) : Driver β × Option Failure :=
  if !inRange s lba count then (s, some .refused)
  else
    writeChunks buffer outcomes count 0 lba count 0 { s with cacheValid := false, cacheSectorCount := 0 }

inductive BlockCall (β : Type) where
  | read (lba count : Nat) (buffer : Nat → β) (outcomes : Nat → Outcome β)
  | write (lba count : Nat) (buffer : Nat → β) (outcomes : Nat → Outcome β)

def step (s : Driver β) : BlockCall β → Option (Driver β)
  | .read lba count buffer outcomes => some (ahciBlockRead s lba count buffer outcomes).1
  | .write lba count buffer outcomes => some (ahciBlockWrite s lba count buffer outcomes).1

/-- A disk after `ahci_initialize_disk`. -/
def initialized (sectorCount : Nat) (contents cache : Nat → β) : Driver β :=
  ⟨contents, sectorCount, true, cache, false, 0, 0, []⟩

/-! ## What a read promises -/

/-- The last write that reached a sector, or what the disk held at first. -/
def lastWritten (contents : Nat → β) (log : List (Nat → Option β)) (x : Nat) : β :=
  (log.findSome? fun written => written x).getD (contents x)

/-- The same call on a driver without a cache is rejected: it returns -1 although
no command fails. -/
def UncachedRejected (s : Driver β) (lba count : Nat) (buffer : Nat → β) : Prop :=
  (ahciBlockRead { s with cachePresent := false } lba count buffer fun _ => .done).2.2 ≠ none

/-- The cache answers the call, which needs no command then. -/
def Answered (s : Driver β) (lba count : Nat) : Prop :=
  count ≤ readCacheSectors ∧ ahciReadCacheContains s lba count = true

instance (s : Driver β) (lba count : Nat) : Decidable (Answered s lba count) :=
  inferInstanceAs (Decidable (_ ∧ _))

/-- What a read leaves in the buffer, if a command that an earlier call gave up on
is in slot zero and puts `content` into the sectors `late` of the same buffer.
Unless the cache answers, that command was over before the read had one of its own. -/
def delivered (s : Driver β) (lba count : Nat) (buffer : Nat → β) (outcomes : Nat → Outcome β)
    (late : Nat → Bool) (content : Nat → β) (i : Nat) : β :=
  if Answered s lba count ∧ late i then content i
  else (ahciBlockRead s lba count buffer outcomes).2.1 i

/-- A read that succeeds returns the last writes, and one that fails is rejected
without the cache too or had a command fail. -/
structure ReadCorrect (contents : Nat → β) (s : Driver β) (lba count : Nat) (buffer : Nat → β)
    (outcomes : Nat → Outcome β) (late : Nat → Bool) : Prop where
  data : (ahciBlockRead s lba count buffer outcomes).2.2 = none →
    ∀ content, ∀ i < count, delivered s lba count buffer outcomes late content i =
      lastWritten contents s.log (lba + i)
  failure : (ahciBlockRead s lba count buffer outcomes).2.2 = some .refused →
    UncachedRejected s lba count buffer

/-- The read-ahead window of a miss ends at the 48-bit limit or below, if the
range that was asked for does. -/
def WindowFits (s : Driver β) (lba count : Nat) : Prop :=
  inRange s lba count = true → count ≤ readCacheSectors → lba + count ≤ lba48Limit →
    ahciReadCacheContains s lba count = false → lba + readAheadCount s lba ≤ lba48Limit

/-- No command in slot zero still fills the buffer of a read that the cache answers. -/
def Undisturbed (s : Driver β) (lba count : Nat) (late : Nat → Bool) : Prop :=
  inRange s lba count = true → Answered s lba count → ∀ i < count, late i = false

/-! ## One transfer -/

variable {s s' : Driver β} {disk buffer : Nat → β} {outcomes : Nat → Outcome β}
  {lba count offset n i x : Nat} {outcome : Outcome β}

theorem place_in {data : Nat → β} (h : i < n) : place buffer offset n data (offset + i) = data i := by
  unfold place
  rw [if_pos (by omega), Nat.add_sub_cancel_left]

theorem place_out {data : Nat → β} (h : i < offset ∨ offset + n ≤ i) :
    place buffer offset n data i = buffer i := by
  unfold place
  rw [if_neg (by omega)]

theorem dmaAccepts_iff :
    dmaAccepts lba n = true ↔ 0 < n ∧ n ≤ maxSectorsPerCommand ∧ lba + n ≤ lba48Limit := by
  simp only [dmaAccepts, Bool.and_eq_true, Bool.not_eq_true', Bool.or_eq_false_iff,
    decide_eq_false_iff_not]
  omega

/-- A read command that succeeds fills its part of the buffer and nothing else. -/
theorem ahciReadDma_none (h : (ahciReadDma disk lba n buffer offset outcome).2 = none) :
    dmaAccepts lba n = true ∧
      (ahciReadDma disk lba n buffer offset outcome).1 =
        place buffer offset n fun i => disk (lba + i) := by
  unfold ahciReadDma at h ⊢
  cases hacc : dmaAccepts lba n with
  | false =>
    rw [hacc] at h
    cases h
  | true =>
    rw [hacc] at h
    cases outcome with
    | done => exact ⟨rfl, rfl⟩
    | failed left => cases h

theorem ahciReadDma_refused (h : (ahciReadDma disk lba n buffer offset outcome).2 = some .refused) :
    dmaAccepts lba n = false := by
  unfold ahciReadDma at h
  cases hacc : dmaAccepts lba n with
  | false => rfl
  | true =>
    rw [hacc] at h
    cases outcome <;> cases h

theorem ahciReadDma_done : (ahciReadDma disk lba n buffer offset .done).2 ≠ some .command := by
  unfold ahciReadDma
  split <;> exact nofun

/-! ## The large reads -/

/-- The sectors of one pass of a loop. -/
theorem chunk_spec {remaining : Nat} (h : remaining ≠ 0) :
    ∃ chunk, (if maxSectorsPerCommand < remaining then maxSectorsPerCommand else remaining) = chunk ∧
      0 < chunk ∧ chunk ≤ remaining ∧ chunk ≤ maxSectorsPerCommand := by
  refine ⟨_, rfl, ?_⟩
  unfold maxSectorsPerCommand
  split <;> omega

/-- A pass of the loop and the passes after it. -/
theorem readChunks_succ {fuel pass currentLba remaining chunk : Nat} (h : remaining ≠ 0)
    (hchunk : (if maxSectorsPerCommand < remaining then maxSectorsPerCommand else remaining) = chunk) :
    readChunks disk outcomes (fuel + 1) pass currentLba remaining offset buffer =
      match (ahciReadDma disk currentLba chunk buffer offset (outcomes pass)).2 with
      | some e => ((ahciReadDma disk currentLba chunk buffer offset (outcomes pass)).1, some e)
      | none =>
        readChunks disk outcomes fuel (pass + 1) (currentLba + chunk) (remaining - chunk)
          (offset + chunk) (ahciReadDma disk currentLba chunk buffer offset (outcomes pass)).1 := by
  rw [readChunks, if_neg h]
  dsimp only
  rw [hchunk]

variable {fuel pass currentLba remaining : Nat}

theorem readChunks_none (hfuel : remaining ≤ fuel)
    (h : (readChunks disk outcomes fuel pass currentLba remaining offset buffer).2 = none) :
    (remaining = 0 ∨ currentLba + remaining ≤ lba48Limit) ∧
      ∀ i, (readChunks disk outcomes fuel pass currentLba remaining offset buffer).1 i =
        place buffer offset remaining (fun i => disk (currentLba + i)) i := by
  induction fuel generalizing pass currentLba remaining offset buffer with
  | zero =>
    obtain rfl := Nat.le_zero.mp hfuel
    exact ⟨.inl rfl, fun i => (place_out (by omega)).symm⟩
  | succ fuel ih =>
    by_cases hz : remaining = 0
    · subst hz
      refine ⟨.inl rfl, fun i => ?_⟩
      rw [readChunks, if_pos rfl]
      exact (place_out (by omega)).symm
    · obtain ⟨chunk, hchunk, hpos, hle, hmax⟩ := chunk_spec hz
      rw [readChunks_succ hz hchunk] at h ⊢
      cases hdma : (ahciReadDma disk currentLba chunk buffer offset (outcomes pass)).2 with
      | some e =>
        rw [hdma] at h
        cases h
      | none =>
        rw [hdma] at h
        obtain ⟨hacc, hbuf⟩ := ahciReadDma_none hdma
        obtain ⟨hend, hrest⟩ := ih (by omega) h
        have hlimit := (dmaAccepts_iff.mp hacc).2.2
        refine ⟨.inr (by omega), fun i => ?_⟩
        rw [hrest i, hbuf]
        -- the sectors of this pass, of the later ones, and the rest of the buffer
        simp only [place]
        split
        next hin =>
          rw [if_pos (by omega)]
          congr 1
          omega
        next hout =>
          split
          next hnow => rw [if_pos (by omega)]
          next hnot => rw [if_neg (by omega)]

theorem readChunks_refused
    (h : (readChunks disk outcomes fuel pass currentLba remaining offset buffer).2 =
      some .refused) : lba48Limit < currentLba + remaining := by
  induction fuel generalizing pass currentLba remaining offset buffer with
  | zero => cases h
  | succ fuel ih =>
    by_cases hz : remaining = 0
    · rw [readChunks, if_pos hz] at h
      cases h
    · obtain ⟨chunk, hchunk, hpos, hle, hmax⟩ := chunk_spec hz
      rw [readChunks_succ hz hchunk] at h
      cases hdma : (ahciReadDma disk currentLba chunk buffer offset (outcomes pass)).2 with
      | none =>
        rw [hdma] at h
        have hend := ih h
        omega
      | some e =>
        rw [hdma] at h
        obtain rfl := Option.some.inj h
        have hacc := ahciReadDma_refused hdma
        have hnot : ¬(0 < chunk ∧ chunk ≤ maxSectorsPerCommand ∧ currentLba + chunk ≤ lba48Limit) :=
          fun hh => by
            rw [dmaAccepts_iff.mpr hh] at hacc
            cases hacc
        omega

theorem readChunks_done :
    (readChunks disk (fun _ => .done) fuel pass currentLba remaining offset buffer).2 ≠
      some .command := by
  induction fuel generalizing pass currentLba remaining offset buffer with
  | zero => exact nofun
  | succ fuel ih =>
    by_cases hz : remaining = 0
    · rw [readChunks, if_pos hz]
      exact nofun
    · obtain ⟨chunk, hchunk, -⟩ := chunk_spec hz
      rw [readChunks_succ hz hchunk]
      cases hdma : (ahciReadDma disk currentLba chunk buffer offset .done).2 with
      | none => exact ih
      | some e =>
        intro he
        obtain rfl := Option.some.inj he
        exact ahciReadDma_done hdma

theorem ahciBlockRead_outside (h : inRange s lba count = false) :
    ahciBlockRead s lba count buffer outcomes = (s, buffer, some .refused) := by
  unfold ahciBlockRead
  rw [h]
  rfl

theorem ahciBlockRead_small (h : inRange s lba count = true) (hsmall : count ≤ readCacheSectors)
    (hp : s.cachePresent = true) :
    ahciBlockRead s lba count buffer outcomes = cachedRead s lba count buffer (outcomes 0) := by
  unfold ahciBlockRead
  rw [h, hp, decide_eq_true hsmall]
  rfl

theorem ahciBlockRead_large (h : inRange s lba count = true)
    (hlarge : count ≤ readCacheSectors → s.cachePresent = false) :
    ahciBlockRead s lba count buffer outcomes =
      (s, readChunks s.disk outcomes count 0 lba count 0 buffer) := by
  have hnot : (decide (count ≤ readCacheSectors) && s.cachePresent) = false := by
    by_cases hsmall : count ≤ readCacheSectors
    · rw [hlarge hsmall, Bool.and_false]
    · rw [decide_eq_false hsmall, Bool.false_and]
  unfold ahciBlockRead
  rw [h, hnot]
  rfl

theorem inRange_iff : inRange s lba count = true ↔ 0 < count ∧ lba + count ≤ s.sectorCount := by
  simp only [inRange, Bool.and_eq_true, Bool.not_eq_true', decide_eq_false_iff_not]
  omega

/-- Without a cache a call is rejected for its range alone. -/
theorem uncachedRejected_iff :
    UncachedRejected s lba count buffer ↔ inRange s lba count = false ∨ lba48Limit < lba + count := by
  unfold UncachedRejected
  have hin : inRange { s with cachePresent := false } lba count = inRange s lba count := rfl
  cases hr : inRange s lba count with
  | false =>
    rw [ahciBlockRead_outside (hin.trans hr)]
    exact ⟨fun _ => .inl rfl, fun _ => nofun⟩
  | true =>
    rw [ahciBlockRead_large (hin.trans hr) fun _ => rfl]
    show (readChunks s.disk (fun _ => .done) count 0 lba count 0 buffer).2 ≠ none ↔ _
    have hpos := (inRange_iff.mp hr).1
    constructor
    · intro hne
      cases he : (readChunks s.disk (fun _ => .done) count 0 lba count 0 buffer).2 with
      | none => exact absurd he hne
      | some e =>
        cases e with
        | refused => exact .inr (readChunks_refused he)
        | command => exact absurd he readChunks_done
    · rintro (hfalse | hlimit) hnone
      · cases hfalse
      · rcases (readChunks_none (Nat.le_refl count) hnone).1 with hz | hle <;> omega

/-! ## The cache -/

/-- A valid cache holds what the disk holds, and the disk holds the last writes. -/
structure Coherent (contents : Nat → β) (s : Driver β) : Prop where
  present : s.cachePresent = true
  disk : ∀ x, s.disk x = lastWritten contents s.log x
  cache : s.cacheValid = true → ∀ i < s.cacheSectorCount, s.cache i = s.disk (s.cacheLba + i)

variable {contents : Nat → β} {late : Nat → Bool}

theorem contains_iff (hp : s.cachePresent = true) :
    ahciReadCacheContains s lba count = true ↔
      s.cacheValid = true ∧ 0 < count ∧ s.cacheLba ≤ lba ∧
        lba + count ≤ s.cacheLba + s.cacheSectorCount := by
  unfold ahciReadCacheContains
  rw [hp]
  cases s.cacheValid with
  | false => simp
  | true =>
    simp only [Bool.not_true, Bool.false_or, decide_eq_true_iff, true_and]
    split
    next hz =>
      have hnot : ¬0 < count := by omega
      simp [hnot]
    next hz =>
      split
      next hlt => simp; omega
      next hle =>
        split
        next hout => simp; omega
        next hin => simp only [decide_eq_true_iff]; omega

/-- A hit reads what the disk holds. -/
theorem Coherent.hit (h : Coherent contents s) (hc : ahciReadCacheContains s lba count = true)
    (hi : i < count) :
    place buffer 0 count (fun i => s.cache (lba - s.cacheLba + i)) i = s.disk (lba + i) := by
  obtain ⟨hvalid, -, hle, hend⟩ := (contains_iff h.present).mp hc
  have hplace : place buffer 0 count (fun i => s.cache (lba - s.cacheLba + i)) (0 + i) =
      s.cache (lba - s.cacheLba + i) := place_in hi
  rw [Nat.zero_add] at hplace
  rw [hplace, h.cache hvalid _ (by omega)]
  congr 1
  omega

/-- The read command of a miss. -/
abbrev fillCommand (s : Driver β) (lba : Nat) (outcome : Outcome β) : (Nat → β) × Option Failure :=
  ahciReadDma s.disk lba (readAheadCount s lba) s.cache 0 outcome

theorem fillCache_failed {e : Failure} (h : (fillCommand s lba outcome).2 = some e) :
    fillCache s lba outcome =
      ({ s with
          cacheValid := false
          cacheSectorCount := 0
          cache := (fillCommand s lba outcome).1 }, some e) := by
  have h' : (ahciReadDma s.disk lba
      (readAheadCount { s with cacheValid := false, cacheSectorCount := 0 } lba) s.cache 0
      outcome).2 = some e := h
  unfold fillCache
  dsimp only
  rw [h']
  rfl

theorem fillCache_filled (h : (fillCommand s lba outcome).2 = none) :
    fillCache s lba outcome =
      ({ s with
          cache := (fillCommand s lba outcome).1
          cacheLba := lba
          cacheSectorCount := readAheadCount s lba
          cacheValid := true }, none) := by
  have h' : (ahciReadDma s.disk lba
      (readAheadCount { s with cacheValid := false, cacheSectorCount := 0 } lba) s.cache 0
      outcome).2 = none := h
  unfold fillCache
  dsimp only
  rw [h']
  rfl

/-- The fill is refused exactly when its window is. -/
theorem fillCache_refused :
    (fillCache s lba outcome).2 = some .refused ↔ dmaAccepts lba (readAheadCount s lba) = false := by
  cases hdma : (fillCommand s lba outcome).2 with
  | none =>
    rw [fillCache_filled hdma, (ahciReadDma_none hdma).1]
    exact ⟨nofun, nofun⟩
  | some e =>
    rw [fillCache_failed hdma]
    constructor
    · intro he
      obtain rfl := Option.some.inj he
      exact ahciReadDma_refused hdma
    · intro hacc
      unfold fillCommand ahciReadDma at hdma
      rw [hacc] at hdma
      exact hdma.symm

theorem Coherent.filled (h : Coherent contents s) :
    Coherent contents (fillCache s lba outcome).1 := by
  cases hdma : (fillCommand s lba outcome).2 with
  | some e =>
    rw [fillCache_failed hdma]
    exact ⟨h.present, h.disk, nofun⟩
  | none =>
    rw [fillCache_filled hdma]
    refine ⟨h.present, h.disk, fun _ i hi => ?_⟩
    show (fillCommand s lba outcome).1 i = s.disk (lba + i)
    rw [fillCommand, (ahciReadDma_none hdma).2]
    have hplace : place s.cache 0 (readAheadCount s lba) (fun i => s.disk (lba + i)) (0 + i) =
        s.disk (lba + i) := place_in hi
    rw [Nat.zero_add] at hplace
    exact hplace

theorem fillCache_keeps :
    (fillCache s lba outcome).1.log = s.log ∧ (fillCache s lba outcome).1.disk = s.disk := by
  cases hdma : (fillCommand s lba outcome).2 with
  | some e =>
    rw [fillCache_failed hdma]
    exact ⟨rfl, rfl⟩
  | none =>
    rw [fillCache_filled hdma]
    exact ⟨rfl, rfl⟩

/-- After the cache was filled the range asked for is in it. -/
theorem fillCache_contains (h : Coherent contents s) (hr : inRange s lba count = true)
    (hsmall : count ≤ readCacheSectors) (hnone : (fillCache s lba outcome).2 = none) :
    ahciReadCacheContains (fillCache s lba outcome).1 lba count = true := by
  cases hdma : (fillCommand s lba outcome).2 with
  | some e =>
    rw [fillCache_failed hdma] at hnone
    cases hnone
  | none =>
    obtain ⟨hpos, hend⟩ := inRange_iff.mp hr
    have hle : count ≤ readAheadCount s lba := by
      unfold readAheadCount
      dsimp only
      split <;> omega
    rw [contains_iff h.filled.present, fillCache_filled hdma]
    exact ⟨rfl, hpos, Nat.le_refl _, Nat.add_le_add_left hle _⟩

theorem cachedRead_hit (h : ahciReadCacheContains s lba count = true) :
    cachedRead s lba count buffer outcome =
      (s, place buffer 0 count fun i => s.cache (lba - s.cacheLba + i), none) := by
  unfold cachedRead
  rw [h, if_pos rfl]
  dsimp only
  rw [h]
  rfl

theorem cachedRead_failed {e : Failure} (h : ahciReadCacheContains s lba count = false)
    (hfill : (fillCache s lba outcome).2 = some e) :
    cachedRead s lba count buffer outcome = ((fillCache s lba outcome).1, buffer, some e) := by
  unfold cachedRead
  rw [h, if_neg nofun]
  dsimp only
  rw [hfill]

theorem cachedRead_filled (h : ahciReadCacheContains s lba count = false)
    (hfill : (fillCache s lba outcome).2 = none)
    (hc : ahciReadCacheContains (fillCache s lba outcome).1 lba count = true) :
    cachedRead s lba count buffer outcome = ((fillCache s lba outcome).1,
      place buffer 0 count (fun i =>
        (fillCache s lba outcome).1.cache (lba - (fillCache s lba outcome).1.cacheLba + i)), none) := by
  unfold cachedRead
  rw [h, if_neg nofun]
  dsimp only
  rw [hfill]
  dsimp only
  rw [hc]
  rfl

/-! ## Runs -/

theorem lastWritten_cons (written : Nat → Option β) (log : List (Nat → Option β)) :
    lastWritten contents (written :: log) x = (written x).getD (lastWritten contents log x) := by
  unfold lastWritten
  rw [List.findSome?_cons]
  cases written x <;> rfl

section

variable (h : Coherent contents s)

include h

/-- A driver whose cache is invalid. -/
theorem Coherent.invalidate (hvalid : s'.cacheValid = false)
    (hp : s'.cachePresent = s.cachePresent) (hdisk : s'.disk = s.disk) (hlog : s'.log = s.log) :
    Coherent contents s' :=
  ⟨hp.trans h.present, fun x => by rw [hdisk, hlog]; exact h.disk x, fun hv => by
    rw [hvalid] at hv
    cases hv⟩

theorem Coherent.commanded (hvalid : s.cacheValid = false) :
    Coherent contents (ahciWriteDma s lba n buffer offset outcome).1 ∧
      (ahciWriteDma s lba n buffer offset outcome).1.cacheValid = false := by
  unfold ahciWriteDma
  split
  · exact ⟨h, hvalid⟩
  · refine ⟨⟨h.present, fun x => ?_, fun hv => ?_⟩, hvalid⟩
    · dsimp only
      rw [lastWritten_cons, h.disk x]
    · change s.cacheValid = true at hv
      rw [hvalid] at hv
      cases hv

theorem Coherent.written
    (hvalid : s.cacheValid = false) :
    Coherent contents (writeChunks buffer outcomes fuel pass currentLba remaining offset s).1 := by
  induction fuel generalizing pass currentLba remaining offset s with
  | zero => exact h
  | succ fuel ih =>
    rw [writeChunks]
    split
    · exact h
    · generalize (if maxSectorsPerCommand < remaining then maxSectorsPerCommand else remaining) = chunk
      obtain ⟨hco, hv⟩ : Coherent contents
          (ahciWriteDma s currentLba chunk buffer offset (outcomes pass)).1 ∧
          (ahciWriteDma s currentLba chunk buffer offset (outcomes pass)).1.cacheValid = false :=
        h.commanded hvalid
      dsimp only
      split
      · exact hco.invalidate rfl rfl rfl rfl
      · exact ih hco hv

theorem Coherent.cached :
    Coherent contents (cachedRead s lba count buffer outcome).1 := by
  unfold cachedRead
  cases hc : ahciReadCacheContains s lba count with
  | true =>
    rw [if_pos rfl]
    dsimp only
    split <;> exact h
  | false =>
    rw [if_neg nofun]
    dsimp only
    split
    · exact h.filled
    · split <;> exact h.filled

theorem Coherent.next {call : BlockCall β}
    (hs : step s call = some s') : Coherent contents s' := by
  cases call with
  | read lba count buffer outcomes =>
    obtain rfl := Option.some.inj hs
    unfold ahciBlockRead
    split
    · exact h
    · split
      · exact h.cached
      · exact h
  | write lba count buffer outcomes =>
    obtain rfl := Option.some.inj hs
    unfold ahciBlockWrite
    split
    · exact h
    · have hinvalid : Coherent contents { s with cacheValid := false, cacheSectorCount := 0 } :=
        h.invalidate rfl rfl rfl rfl
      exact hinvalid.written rfl

end

theorem run_coherent {sectorCount : Nat} {cache : Nat → β} {calls : List (BlockCall β)}
    (hr : Run step (initialized sectorCount contents cache) calls s) : Coherent contents s := by
  refine hr.invariant ⟨rfl, fun _ => rfl, nofun⟩ ?_
  intro t call u h _ hs
  exact h.next hs

/-- The window of a miss is accepted unless it crosses the 48-bit limit. -/
theorem windowAccepted_iff (hr : inRange s lba count = true) :
    dmaAccepts lba (readAheadCount s lba) = false ↔
      lba48Limit < lba + readAheadCount s lba := by
  obtain ⟨hpos, hend⟩ := inRange_iff.mp hr
  have hcount : 0 < readAheadCount s lba ∧ readAheadCount s lba ≤ maxSectorsPerCommand := by
    unfold readAheadCount readCacheSectors maxSectorsPerCommand
    dsimp only
    split <;> omega
  rw [← Bool.not_eq_true, dmaAccepts_iff]
  omega

/-- A read that needs a command of its own. -/
theorem delivered_missed (h : ¬Answered s lba count) (content : Nat → β) :
    delivered s lba count buffer outcomes late content =
      (ahciBlockRead s lba count buffer outcomes).2.1 :=
  funext fun _ => if_neg fun ha => h ha.1

theorem undisturbed_missed (h : ¬Answered s lba count) : Undisturbed s lba count late :=
  fun _ ha => absurd ha h

/-- A small read. -/
theorem Coherent.readCorrect_small [Nontrivial β] (h : Coherent contents s)
    (hr : inRange s lba count = true) (hsmall : count ≤ readCacheSectors) :
    ReadCorrect contents s lba count buffer outcomes late ↔
      WindowFits s lba count ∧ Undisturbed s lba count late := by
  have hread : ∀ i, s.disk (lba + i) = lastWritten contents s.log (lba + i) := fun i => h.disk _
  cases hc : ahciReadCacheContains s lba count with
  | true =>
    have hres : ahciBlockRead s lba count buffer outcomes = (s, place buffer 0 count
        fun i => s.cache (lba - s.cacheLba + i), none) := by
      rw [ahciBlockRead_small hr hsmall h.present, cachedRead_hit hc]
    constructor
    · -- the late command may put anything but the right sector there
      intro hcorrect
      refine ⟨fun _ _ _ hmiss => ?_, fun _ ha i hi => Bool.eq_false_iff.mpr fun hlate => ?_⟩
      · rw [hc] at hmiss
        cases hmiss
      · obtain ⟨wrong, hwrong⟩ := exists_ne (lastWritten contents s.log (lba + i))
        have hdata := hcorrect.data (by rw [hres]) (fun _ => wrong) i hi
        rw [delivered, if_pos ⟨ha, hlate⟩] at hdata
        exact hwrong hdata
    · rintro ⟨-, hfree⟩
      refine ⟨fun _ content i hi => ?_, fun hf => ?_⟩
      · rw [delivered, if_neg fun ha => by simp [hfree hr ha.1 i hi] at ha, hres]
        exact (h.hit hc hi).trans (hread i)
      · rw [hres] at hf
        cases hf
  | false =>
    have hmissed : ¬Answered s lba count := fun ha => by
      rw [ha.2] at hc
      cases hc
    rw [and_iff_left (undisturbed_missed hmissed)]
    have hwindow : WindowFits s lba count ↔
        (lba + count ≤ lba48Limit → lba + readAheadCount s lba ≤ lba48Limit) :=
      ⟨fun hw hle => hw hr hsmall hle hc, fun hw _ _ hle _ => hw hle⟩
    cases hfill : (fillCache s lba (outcomes 0)).2 with
    | none =>
      -- the fill went through, so its window was accepted
      have hin := fillCache_contains h hr hsmall hfill
      refine iff_of_true ⟨fun _ content i hi => ?_, fun hf => ?_⟩ (hwindow.mpr fun _ => ?_)
      · rw [delivered_missed hmissed, ahciBlockRead_small hr hsmall h.present,
          cachedRead_filled hc hfill hin]
        refine (h.filled.hit hin hi).trans ?_
        rw [fillCache_keeps.2]
        exact hread i
      · rw [ahciBlockRead_small hr hsmall h.present, cachedRead_filled hc hfill hin] at hf
        cases hf
      · by_contra hnot
        have hrefused : (fillCache s lba (outcomes 0)).2 = some .refused :=
          fillCache_refused.mpr ((windowAccepted_iff hr).mpr (Nat.not_le.mp hnot))
        rw [hfill] at hrefused
        cases hrefused
    | some e =>
      have hres : (ahciBlockRead s lba count buffer outcomes).2.2 = some e := by
        rw [ahciBlockRead_small hr hsmall h.present, cachedRead_failed hc hfill]
      cases e with
      | command =>
        have haccepted : dmaAccepts lba (readAheadCount s lba) ≠ false := fun hacc => by
          rw [fillCache_refused.mpr hacc] at hfill
          cases hfill
        refine iff_of_true ⟨fun hn => ?_, fun hf => ?_⟩ (hwindow.mpr fun _ => ?_)
        · rw [hres] at hn
          cases hn
        · rw [hres] at hf
          cases hf
        · by_contra hnot
          exact haccepted ((windowAccepted_iff hr).mpr (Nat.not_le.mp hnot))
      | refused =>
        have hlimit := (windowAccepted_iff hr).mp (fillCache_refused.mp hfill)
        rw [hwindow]
        constructor
        · intro hcorrect hle
          rcases uncachedRejected_iff.mp (hcorrect.failure hres) with hout | hbeyond
          · rw [hr] at hout
            cases hout
          · omega
        · intro hw
          refine ⟨fun hn => ?_, fun _ => uncachedRejected_iff.mpr (.inr ?_)⟩
          · rw [hres] at hn
            cases hn
          · by_contra hnot
            have hle := hw (Nat.not_lt.mp hnot)
            omega

/-- After any calls, a read is correct exactly when its read-ahead window, if it
needs one, ends at the 48-bit limit or below, and no late command fills the buffer
of a read that needs none. -/
theorem run_readCorrect_iff [Nontrivial β] {sectorCount : Nat} {contents cache : Nat → β}
    {calls : List (BlockCall β)} {s : Driver β}
    (hr : Run step (initialized sectorCount contents cache) calls s) (lba count : Nat)
    (buffer : Nat → β) (outcomes : Nat → Outcome β) (late : Nat → Bool) :
    ReadCorrect contents s lba count buffer outcomes late ↔
      WindowFits s lba count ∧ Undisturbed s lba count late := by
  have h := run_coherent hr
  cases hin : inRange s lba count with
  | false =>
    have hno : ¬inRange s lba count = true := by rw [hin]; nofun
    refine iff_of_true ⟨fun hn => ?_, fun _ => uncachedRejected_iff.mpr (.inl hin)⟩
      ⟨fun hr => absurd hr hno, fun hr => absurd hr hno⟩
    rw [ahciBlockRead_outside hin] at hn
    cases hn
  | true =>
    by_cases hsmall : count ≤ readCacheSectors
    · exact h.readCorrect_small hin hsmall
    · have hlarge : ahciBlockRead s lba count buffer outcomes =
          (s, readChunks s.disk outcomes count 0 lba count 0 buffer) :=
        ahciBlockRead_large hin fun hs => absurd hs hsmall
      have hmissed : ¬Answered s lba count := fun ha => hsmall ha.1
      refine iff_of_true ⟨fun hn content i hi => ?_, fun hf => ?_⟩
        ⟨fun _ hs => absurd hs hsmall, undisturbed_missed hmissed⟩
      · rw [delivered_missed hmissed]
        rw [hlarge] at hn ⊢
        have hplace : place buffer 0 count (fun i => s.disk (lba + i)) (0 + i) = s.disk (lba + i) :=
          place_in hi
        rw [Nat.zero_add] at hplace
        rw [(readChunks_none (Nat.le_refl count) hn).2 i, hplace]
        exact h.disk _
      · rw [hlarge] at hf
        exact uncachedRejected_iff.mpr (.inr (readChunks_refused hf))

/-- On a small disk one sector is read into the cache with its neighbours, the
first two are written, the second of these is read, and a large read times out. -/
def smallDiskCalls : List (BlockCall Nat) :=
  [.read 3 1 (fun _ => 0) fun _ => .done, .write 0 2 (fun i => i + 500) fun _ => .done,
    .read 1 1 (fun _ => 0) fun _ => .done, .read 0 200 (fun _ => 0) fun _ => .failed fun _ => none]

theorem run_readCorrect_iff_written : ∃ s : Driver Nat,
    Run step (initialized 300 (fun x => x) fun _ => 0) smallDiskCalls s ∧
      (s.disk 1 = 501 ∧ Answered s 1 1) ∧
      (ReadCorrect (fun x => x) s 1 1 (fun _ => 0) (fun _ => .done) (fun _ => true) ↔
        WindowFits s 1 1 ∧ Undisturbed s 1 1 fun _ => true) :=
  have : Nontrivial Nat := ⟨0, 1, Nat.zero_ne_one⟩
  exists_run (fun s => s.disk 1 = 501 ∧ Answered s 1 1) (by decide +kernel) fun _ hr h =>
    ⟨h, run_readCorrect_iff hr 1 1 _ _ _⟩

/-- The last eight sectors below the 48-bit limit of a disk that goes on beyond it:
the read-ahead command for 128 sectors is refused. -/
theorem not_run_readCorrect : ¬ ∀ (sectorCount : Nat) (contents cache : Nat → Unit)
    (calls : List (BlockCall Unit)) (s : Driver Unit),
    Run step (initialized sectorCount contents cache) calls s →
      ∀ (lba count : Nat) (buffer : Nat → Unit) (outcomes : Nat → Outcome Unit),
        ReadCorrect contents s lba count buffer outcomes fun _ => false := by
  intro h
  have hcorrect := h (2 ^ 48 + 200) (fun _ => ()) (fun _ => ()) [] _ .nil (2 ^ 48 - 8) 8
    (fun _ => ()) fun _ => .done
  apply hcorrect.failure
  · decide +kernel
  · decide +kernel

end MeatySkeleton.Device
