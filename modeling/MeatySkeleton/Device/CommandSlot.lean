import MeatySkeleton.Device.ReadAhead

/-!
# One command slot for all callers

`ahci_block_read` and `ahci_block_write` again, now step by step: tasks may be
switched between any two steps, and the device ends a command whenever it likes,
also after the driver has given up waiting for it. Slot zero, the command table
and the read cache are globals of the driver, and nothing locks them.

A step of a task is one access to the globals, or a few accesses that belong
together (a PRDT, a FIS, the three fields of the cache window).
-/

namespace MeatySkeleton.Device.Slot

open Function Option Lib

inductive Buffer where
  | cache
  | caller (address : Nat)
  deriving DecidableEq

/-- A call of `ahci_block_read` or `ahci_block_write`. -/
structure Operation where
  write : Bool
  lba : Nat
  count : Nat
  buffer : Nat
  deriving DecidableEq

/-- What a PRDT describes. -/
structure Region where
  buffer : Buffer
  offset : Nat
  sectorCount : Nat
  deriving DecidableEq

/-- What the command header and the FIS ask for. -/
structure Transfer where
  write : Bool
  lba : Nat
  sectorCount : Nat
  deriving DecidableEq

/-- Which command of its operation a task is at. -/
inductive Job where
  /-- The read-ahead into the cache. -/
  | fill
  /-- A pass of the loop over the caller's buffer. -/
  | chunk (offset : Nat)
  deriving DecidableEq

/-- Where a task is in `ahci_read_dma` or `ahci_write_dma`. -/
inductive Stage where
  | checking
  | clearing
  | prdt
  | fis
  | issuing
  | polling
  deriving DecidableEq

inductive Pc where
  | idle
  /-- Before the first `ahci_read_cache_contains`. -/
  | looking (op : Operation)
  | missed (op : Operation)
  | invalidating (op : Operation)
  | transfer (op : Operation) (job : Job) (stage : Stage)
  /-- Before the cache window is published. -/
  | filled (op : Operation)
  /-- Before the second `ahci_read_cache_contains`. -/
  | rechecking (op : Operation)
  | copying (op : Operation)
  | finished (op : Operation) (ok : Bool)
  deriving DecidableEq

variable {β : Type}

structure World (β : Type) where
  driver : Driver β
  /-- The callers' buffers, by address. -/
  buffers : Nat → Nat → β
  /-- Bit 0 of `port->ci`. -/
  ci : Bool
  /-- `AHCI_PORT_IS_TFES`, or `ATA_STATUS_ERR` when the command ends. -/
  error : Bool
  prdt : Option Region
  fis : Option Transfer
  pc : Nat → Pc
  /-- What the disk has held since the call of a task. -/
  moments : Nat → List (Nat → β)
  /-- The command the device completed since the last one was issued. -/
  completed : Option (Region × Transfer)

inductive Label (β : Type) where
  /-- A call, with what the caller's buffer holds. -/
  | call (t : Nat) (op : Operation) (data : Nat → β)
  | advance (t : Nat) (giveUp : Bool)
  /-- The device ends the command in slot zero; a failed one may stay in the slot. -/
  | device (outcome : Outcome β) (stuck : Bool)

def World.goto (s : World β) (t : Nat) (pc : Pc) : World β :=
  { s with pc := update s.pc t pc }

/-- The sectors of a pass of the loop that is `offset` sectors into the request. -/
def chunkCount (op : Operation) (offset : Nat) : Nat :=
  if maxSectorsPerCommand < op.count - offset then maxSectorsPerCommand else op.count - offset

/-- What the PRDT of a command describes. -/
def region (d : Driver β) (op : Operation) : Job → Region
  | .fill => ⟨.cache, 0, readAheadCount d op.lba⟩
  | .chunk offset => ⟨.caller op.buffer, offset, chunkCount op offset⟩

/-- What a command asks for. -/
def request (d : Driver β) (op : Operation) : Job → Transfer
  | .fill => ⟨false, op.lba, readAheadCount d op.lba⟩
  | .chunk offset => ⟨op.write, op.lba + offset, chunkCount op offset⟩

/-- The body of a call after its argument checks. -/
def begin (d : Driver β) (op : Operation) : Pc :=
  if op.write then .invalidating op
  else if op.count ≤ readCacheSectors && d.cachePresent then .looking op
  else .transfer op (.chunk 0) .checking

/-- The command failed, or was not accepted. -/
def fail (s : World β) (t : Nat) (op : Operation) : World β :=
  World.goto
    { s with driver := if op.write then { s.driver with cacheValid := false } else s.driver } t
    (.finished op false)

/-- The command ended without an error. -/
def succeed (s : World β) (t : Nat) (op : Operation) : Job → World β
  | .fill => s.goto t (.filled op)
  | .chunk offset =>
    if op.count ≤ offset + chunkCount op offset then s.goto t (.finished op true)
    else s.goto t (.transfer op (.chunk (offset + chunkCount op offset)) .checking)

def transferStep (s : World β) (t : Nat) (op : Operation) (job : Job) (giveUp : Bool) :
    Stage → World β
  | .checking =>
    if !dmaAccepts (request s.driver op job).lba (request s.driver op job).sectorCount ||
        s.ci || giveUp then fail s t op
    else s.goto t (.transfer op job .clearing)
  | .clearing =>
    World.goto { s with error := false, prdt := none, fis := none } t (.transfer op job .prdt)
  | .prdt =>
    -- a page of the buffer may have no translation
    if giveUp then fail s t op
    else World.goto { s with prdt := some (region s.driver op job) } t (.transfer op job .fis)
  | .fis => World.goto { s with fis := some (request s.driver op job) } t (.transfer op job .issuing)
  | .issuing => World.goto { s with ci := true, completed := none } t (.transfer op job .polling)
  | .polling =>
    if s.error then fail s t op
    else if !s.ci then succeed s t op job
    else if giveUp then fail s t op
    else s

/-- The next step of a task that is inside an operation. -/
def advance (s : World β) (t : Nat) (giveUp : Bool) : Pc → Option (World β)
  | .idle => none
  | .looking op =>
    some (s.goto t
      (if ahciReadCacheContains s.driver op.lba op.count then .rechecking op else .missed op))
  | .missed op =>
    some (World.goto { s with driver := { s.driver with cacheValid := false, cacheSectorCount := 0 } }
      t (.transfer op .fill .checking))
  | .invalidating op =>
    some (World.goto { s with driver := { s.driver with cacheValid := false, cacheSectorCount := 0 } }
      t (.transfer op (.chunk 0) .checking))
  | .transfer op job stage => some (transferStep s t op job giveUp stage)
  | .filled op =>
    some (World.goto
      { s with
        driver :=
          { s.driver with
            cacheLba := op.lba
            cacheSectorCount := readAheadCount s.driver op.lba
            cacheValid := true } } t (.rechecking op))
  | .rechecking op =>
    some (s.goto t
      (if ahciReadCacheContains s.driver op.lba op.count then .copying op else .finished op false))
  | .copying op =>
    some (World.goto
      { s with
        buffers := update s.buffers op.buffer
          (place (s.buffers op.buffer) 0 op.count fun i =>
            s.driver.cache (op.lba - s.driver.cacheLba + i)) } t (.finished op true))
  | .finished _ _ => some (s.goto t .idle)

/-! ## The device -/

/-- What a buffer holds. -/
def World.memory (s : World β) : Buffer → Nat → β
  | .cache => s.driver.cache
  | .caller address => s.buffers address

def World.setMemory (s : World β) (content : Nat → β) : Buffer → World β
  | .cache => { s with driver := { s.driver with cache := content } }
  | .caller address => { s with buffers := update s.buffers address content }

/-- The sectors a command moves: what arrives at its target. -/
def moved (s : World β) (r : Region) (f : Transfer) : Outcome β → Nat → Option β
  | .done, i => some (if f.write then s.memory r.buffer (r.offset + i) else s.driver.disk (f.lba + i))
  | .failed left, i => left i

/-- The data part of a command. -/
def execute (s : World β) (r : Region) (f : Transfer) (outcome : Outcome β) : World β :=
  let n := min r.sectorCount f.sectorCount
  if f.write then
    let disk := place s.driver.disk f.lba n fun i =>
      (moved s r f outcome i).getD (s.driver.disk (f.lba + i))
    { s with driver := { s.driver with disk := disk }, moments := fun t => disk :: s.moments t }
  else s.setMemory (scatter (s.memory r.buffer) r.offset n (moved s r f outcome)) r.buffer

def deviceStep (s : World β) (outcome : Outcome β) (stuck : Bool) : Option (World β) :=
  if !s.ci then none
  else
    match s.prdt, s.fis, outcome with
    | some r, some f, .done =>
      some { execute s r f .done with ci := false, completed := some (r, f) }
    | some r, some f, .failed left =>
      some { execute s r f (.failed left) with ci := stuck, error := true }
    -- nothing in the table that could be executed
    | _, _, _ => some { s with ci := false, error := true }

def step (s : World β) : Label β → Option (World β)
  | .call t op data =>
    if s.pc t ≠ .idle then none
    else if !inRange s.driver op.lba op.count then some s
    else
      some (World.goto
        { s with
          buffers := update s.buffers op.buffer data
          moments := update s.moments t [s.driver.disk] } t (begin s.driver op))
  | .advance t giveUp => advance s t giveUp (s.pc t)
  | .device outcome stuck => deviceStep s outcome stuck

/-- The port after `ahci_initialize_disk`. -/
def start (sectorCount : Nat) (contents cache : Nat → β) (buffers : Nat → Nat → β) : World β :=
  ⟨initialized sectorCount contents cache, buffers, false, false, none, none, fun _ => .idle,
    fun _ => [], none⟩

/-! ## What the driver promises -/

structure DriverSafe (s : World β) : Prop where
  /-- The slot, the table and the cache are used by one operation at a time. -/
  exclusive : ∀ t u, s.pc t ≠ .idle → s.pc u ≠ .idle → t = u
  /-- Whoever finds its command completed finds its own command completed. -/
  own : ∀ t op job, s.pc t = .transfer op job .polling → s.ci = false → s.error = false →
    s.completed = some (region s.driver op job, request s.driver op job)
  /-- A read that succeeds returns what the disk held at one moment of the call. -/
  reads : ∀ t op, s.pc t = .finished op true → op.write = false →
    ∃ disk ∈ s.moments t, ∀ i < op.count, s.buffers op.buffer i = disk (op.lba + i)

/-- The command in slot zero, if there is one, is a read into another buffer. -/
def Away (s : World β) (buffer : Buffer) : Prop :=
  s.ci = true → ∃ r f, s.prdt = some r ∧ s.fis = some f ∧ f.write = false ∧ r.buffer ≠ buffer

/-- A call that passes its argument checks is made while no other operation is in
progress, and a read that the cache answers is not made into the buffer of a
command that an earlier call gave up on. -/
def Alone (s : World β) : Label β → Prop
  | .call _ op _ => inRange s.driver op.lba op.count = true → (∀ u, s.pc u = .idle) ∧
    (op.write = false → op.count ≤ readCacheSectors →
      ahciReadCacheContains s.driver op.lba op.count = true → Away s (.caller op.buffer))
  | _ => True

/-! ## The invariant -/

/-- A read that goes through the cache. -/
structure Small (d : Driver β) (op : Operation) : Prop where
  read : op.write = false
  count : op.count ≤ readCacheSectors
  range : inRange d op.lba op.count = true

/-- The first `n` sectors of the caller's buffer are what the disk holds. -/
def Copied (s : World β) (op : Operation) (n : Nat) : Prop :=
  ∀ i < n, s.buffers op.buffer i = s.driver.disk (op.lba + i)

def JobOk (s : World β) (op : Operation) : Job → Prop
  | .fill => Small s.driver op ∧ s.driver.cacheValid = false
  | .chunk offset => offset < op.count ∧ (op.write = true → s.driver.cacheValid = false) ∧
      (op.write = false → Copied s op offset)

/-- The command has done its work. -/
def Effected (s : World β) (op : Operation) : Job → Prop
  | .fill => ∀ i < readAheadCount s.driver op.lba, s.driver.cache i = s.driver.disk (op.lba + i)
  | .chunk offset => op.write = false → Copied s op (offset + chunkCount op offset)

def StageOk (s : World β) (op : Operation) (job : Job) : Stage → Prop
  -- only the first command of an operation can find an old one in the slot
  | .checking => ∀ offset, job = .chunk offset → 0 < offset → s.ci = false
  | .clearing | .prdt => s.ci = false
  | .fis => s.ci = false ∧ s.prdt = some (region s.driver op job)
  | .issuing => s.ci = false ∧ s.prdt = some (region s.driver op job) ∧
      s.fis = some (request s.driver op job)
  | .polling => s.prdt = some (region s.driver op job) ∧ s.fis = some (request s.driver op job) ∧
      (s.ci = false → s.error = false →
        s.completed = some (region s.driver op job, request s.driver op job) ∧ Effected s op job)

def PcOk (s : World β) : Pc → Prop
  | .idle => True
  | .looking op | .rechecking op => Small s.driver op ∧
      (ahciReadCacheContains s.driver op.lba op.count = true → Away s (.caller op.buffer))
  | .missed op => Small s.driver op
  | .invalidating op => op.write = true ∧ 0 < op.count
  | .transfer op job stage => JobOk s op job ∧ StageOk s op job stage
  | .filled op => Small s.driver op ∧ s.ci = false ∧ Effected s op .fill
  | .copying op => Small s.driver op ∧
      ahciReadCacheContains s.driver op.lba op.count = true ∧ Away s (.caller op.buffer)
  | .finished op ok => ok = true → op.write = false →
      Copied s op op.count ∧ Away s (.caller op.buffer)

/-- A valid cache holds what the disk holds, and no command in flight writes to either. -/
def CacheOk (s : World β) : Prop :=
  s.driver.cacheValid = true →
    (∀ i < s.driver.cacheSectorCount, s.driver.cache i = s.driver.disk (s.driver.cacheLba + i)) ∧
      Away s .cache

structure SlotInv (s : World β) : Prop where
  present : s.driver.cachePresent = true
  exclusive : ∀ t u, s.pc t ≠ .idle → s.pc u ≠ .idle → t = u
  cache : CacheOk s
  tasks : ∀ t, PcOk s (s.pc t)
  seen : ∀ t, s.pc t ≠ .idle → s.driver.disk ∈ s.moments t

variable {s s' : World β} {t : Nat} {op : Operation} {job : Job} {b : Buffer}

theorem away_of_free (h : s.ci = false) : Away s b := by
  intro hci
  rw [h] at hci
  cases hci

theorem cacheOk_of_invalid (h : s.driver.cacheValid = false) : CacheOk s := by
  intro hv
  rw [h] at hv
  cases hv

/-- While one task is inside an operation the others are not. -/
theorem SlotInv.alone (h : SlotInv s) (ht : s.pc t ≠ .idle) (u : Nat) (hu : u ≠ t) :
    s.pc u = .idle := by
  by_contra hne
  exact hu (h.exclusive u t hne ht)

/-- A step of the only task inside an operation. -/
theorem SlotInv.moved {pc : Pc} (halone : ∀ u, u ≠ t → s.pc u = .idle)
    (hpc : s'.pc = update s.pc t pc) (hpresent : s'.driver.cachePresent = true)
    (hcache : CacheOk s') (hok : PcOk s' pc)
    (hseen : pc ≠ .idle → s'.driver.disk ∈ s'.moments t) : SlotInv s' := by
  have hother : ∀ u, s'.pc u ≠ .idle → u = t := by
    intro u hu
    by_contra hne
    rw [hpc, update_of_ne hne] at hu
    exact hu (halone u hne)
  refine ⟨hpresent, fun u u' hu hu' => (hother u hu).trans (hother u' hu').symm, hcache,
    fun u => ?_, fun u hu => ?_⟩
  · by_cases hut : u = t
    · subst hut
      rw [hpc, update_self]
      exact hok
    · rw [hpc, update_of_ne hut, halone u hut]
      trivial
  · obtain rfl := hother u hu
    rw [hpc, update_self] at hu
    exact hseen hu

/-- A step that leaves the disk and the cache alone. -/
theorem SlotInv.goto (h : SlotInv s) (ht : s.pc t ≠ .idle) {pc : Pc} (hok : PcOk (s.goto t pc) pc) :
    SlotInv (s.goto t pc) :=
  SlotInv.moved (h.alone ht) rfl h.present h.cache hok fun _ => h.seen t ht

theorem SlotInv.fail (h : SlotInv s) (ht : s.pc t ≠ .idle) : SlotInv (fail s t op) := by
  have hcache : CacheOk (Slot.fail s t op) := by
    cases hw : op.write with
    | true =>
      apply cacheOk_of_invalid
      unfold Slot.fail
      rw [hw]
      rfl
    | false =>
      unfold Slot.fail
      rw [hw]
      exact h.cache
  refine SlotInv.moved (h.alone ht) rfl ?_ hcache nofun fun _ => ?_
  · show (if op.write then { s.driver with cacheValid := false } else s.driver).cachePresent = true
    split <;> exact h.present
  · have hdisk : (if op.write then { s.driver with cacheValid := false } else s.driver).disk =
        s.driver.disk := by
      split <;> rfl
    show (if op.write then { s.driver with cacheValid := false } else s.driver).disk ∈ s.moments t
    rw [hdisk]
    exact h.seen t ht

/-! ## The steps of a task -/

theorem SlotInv.succeed (h : SlotInv s) (ht : s.pc t ≠ .idle) (hjob : JobOk s op job)
    (heffect : Effected s op job) (hci : s.ci = false) : SlotInv (succeed s t op job) := by
  cases job with
  | fill => exact h.goto ht ⟨hjob.1, hci, heffect⟩
  | chunk offset =>
    obtain ⟨hlt, hwrite, -⟩ := hjob
    dsimp only [Slot.succeed]
    split
    next hend =>
      refine h.goto ht fun _ hread => ⟨fun i hi => ?_, away_of_free hci⟩
      exact heffect hread i (Nat.lt_of_lt_of_le hi hend)
    next hmore =>
      exact h.goto ht ⟨⟨Nat.not_le.mp hmore, hwrite, heffect⟩, fun _ _ _ => hci⟩

/-- A command of an operation that leaves the cache valid is a read into the
caller's buffer. -/
theorem JobOk.away (h : JobOk s op job) (hv : s.driver.cacheValid = true) :
    (request s.driver op job).write = false ∧ (region s.driver op job).buffer ≠ .cache := by
  cases job with
  | fill =>
    rw [h.2] at hv
    cases hv
  | chunk offset =>
    refine ⟨Bool.eq_false_iff.mpr fun hw => ?_, nofun⟩
    rw [h.2.1 hw] at hv
    cases hv

/-- A step inside a transfer that changes the table or the slot only. -/
theorem SlotInv.tabled (h : SlotInv s) (ht : s.pc t ≠ .idle) {stage : Stage}
    (hpc : s'.pc = update s.pc t (.transfer op job stage)) (hdriver : s'.driver = s.driver)
    (hbuffers : s'.buffers = s.buffers) (hmoments : s'.moments = s.moments)
    (hjob : JobOk s op job) (hstage : StageOk s' op job stage)
    (haway : s.driver.cacheValid = true → Away s' .cache) : SlotInv s' := by
  have hjob' : JobOk s' op job := by
    cases job with
    | fill =>
      show Small s'.driver op ∧ s'.driver.cacheValid = false
      rw [hdriver]
      exact hjob
    | chunk offset =>
      refine ⟨hjob.1, ?_, fun hread i hi => ?_⟩
      · rw [hdriver]
        exact hjob.2.1
      · rw [hbuffers, hdriver]
        exact hjob.2.2 hread i hi
  refine SlotInv.moved (h.alone ht) hpc ?_ (fun hv => ?_) ⟨hjob', hstage⟩ fun _ => ?_
  · rw [hdriver]
    exact h.present
  · rw [hdriver] at hv ⊢
    exact ⟨(h.cache hv).1, haway hv⟩
  · rw [hdriver, hmoments]
    exact h.seen t ht

theorem SlotInv.transferStep (h : SlotInv s) {stage : Stage} {giveUp : Bool}
    (hpc : s.pc t = .transfer op job stage) : SlotInv (transferStep s t op job giveUp stage) := by
  have ht : s.pc t ≠ .idle := by rw [hpc]; exact nofun
  have hok := h.tasks t
  rw [hpc] at hok
  obtain ⟨hjob, hstage⟩ := hok
  cases stage with
  | checking =>
    dsimp only [Slot.transferStep]
    split
    next => exact h.fail ht
    next hgo =>
      rw [Bool.or_eq_true, Bool.or_eq_true, not_or, not_or] at hgo
      exact h.goto ht ⟨hjob, Bool.eq_false_iff.mpr hgo.1.2⟩
  | clearing => exact h.tabled ht rfl rfl rfl rfl hjob hstage fun _ => away_of_free hstage
  | prdt =>
    dsimp only [Slot.transferStep]
    split
    next => exact h.fail ht
    next => exact h.tabled ht rfl rfl rfl rfl hjob ⟨hstage, rfl⟩ fun _ => away_of_free hstage
  | fis =>
    exact h.tabled ht rfl rfl rfl rfl hjob ⟨hstage.1, hstage.2, rfl⟩ fun _ => away_of_free hstage.1
  | issuing =>
    obtain ⟨-, hprdt, hfis⟩ := hstage
    refine h.tabled ht rfl rfl rfl rfl hjob ⟨hprdt, hfis, nofun⟩ fun hv _ => ?_
    obtain ⟨hread, hbuffer⟩ := hjob.away hv
    exact ⟨_, _, hprdt, hfis, hread, hbuffer⟩
  | polling =>
    obtain ⟨-, -, hdone⟩ := hstage
    dsimp only [Slot.transferStep]
    split
    next => exact h.fail ht
    next herror =>
      have herror : s.error = false := Bool.eq_false_iff.mpr herror
      split
      next hfree =>
        have hci : s.ci = false := (Bool.not_eq_true' _).mp hfree
        exact h.succeed ht hjob (hdone hci herror).2 hci
      next =>
        split
        · exact h.fail ht
        · exact h

/-- The cache is invalidated before the first command. -/
theorem SlotInv.invalidate (h : SlotInv s) (ht : s.pc t ≠ .idle)
    (hjob : JobOk
      { s with driver := { s.driver with cacheValid := false, cacheSectorCount := 0 } } op job)
    (hfirst : ∀ offset, job = .chunk offset → offset = 0) :
    SlotInv (World.goto
      { s with driver := { s.driver with cacheValid := false, cacheSectorCount := 0 } } t
      (.transfer op job .checking)) := by
  refine SlotInv.moved (h.alone ht) rfl h.present (cacheOk_of_invalid rfl)
    ⟨hjob, fun offset he hpos => ?_⟩ fun _ => h.seen t ht
  rw [hfirst offset he] at hpos
  cases hpos

theorem SlotInv.advance (h : SlotInv s) {giveUp : Bool}
    (hs : advance s t giveUp (s.pc t) = some s') : SlotInv s' := by
  have hok := h.tasks t
  by_cases ht : s.pc t = .idle
  · rw [ht] at hs
    cases hs
  cases hpc : s.pc t with
  | idle => exact absurd hpc ht
  | looking op =>
    rw [hpc] at hs hok
    obtain rfl := some.inj hs
    apply h.goto ht
    split
    next => exact hok
    next => exact hok.1
  | missed op =>
    rw [hpc] at hs hok
    obtain rfl := some.inj hs
    exact h.invalidate ht ⟨⟨hok.read, hok.count, hok.range⟩, rfl⟩ nofun
  | invalidating op =>
    rw [hpc] at hs hok
    obtain rfl := some.inj hs
    refine h.invalidate ht ⟨hok.2, fun _ => rfl, fun hread => ?_⟩ fun offset he => (Job.chunk.inj he).symm
    rw [hok.1] at hread
    cases hread
  | transfer op job stage =>
    rw [hpc] at hs
    obtain rfl := some.inj hs
    exact h.transferStep hpc
  | filled op =>
    rw [hpc] at hs hok
    obtain rfl := some.inj hs
    obtain ⟨hsmall, hci, heffect⟩ := hok
    refine SlotInv.moved (h.alone ht) rfl h.present (fun _ => ⟨heffect, away_of_free hci⟩)
      ⟨⟨hsmall.read, hsmall.count, hsmall.range⟩, fun _ => away_of_free hci⟩ fun _ => h.seen t ht
  | rechecking op =>
    rw [hpc] at hs hok
    obtain rfl := some.inj hs
    apply h.goto ht
    split
    next hc => exact ⟨hok.1, hc, hok.2 hc⟩
    next => exact nofun
  | copying op =>
    rw [hpc] at hs hok
    obtain rfl := some.inj hs
    obtain ⟨-, hc, haway⟩ := hok
    refine SlotInv.moved (h.alone ht) rfl h.present h.cache (fun _ _ => ⟨fun i hi => ?_, haway⟩)
      fun _ => h.seen t ht
    obtain ⟨hvalid, -, hle, hend⟩ := (contains_iff h.present).mp hc
    show update s.buffers op.buffer _ op.buffer i = s.driver.disk (op.lba + i)
    rw [update_self]
    have hplace : place (s.buffers op.buffer) 0 op.count
        (fun i => s.driver.cache (op.lba - s.driver.cacheLba + i)) (0 + i) =
          s.driver.cache (op.lba - s.driver.cacheLba + i) := place_in hi
    rw [Nat.zero_add] at hplace
    rw [hplace, (h.cache hvalid).1 _ (by omega)]
    congr 1
    omega
  | finished op ok =>
    rw [hpc] at hs
    obtain rfl := some.inj hs
    exact h.goto ht trivial

/-- A call that is made alone. -/
theorem SlotInv.call (h : SlotInv s) {data : Nat → β} (halone : Alone s (.call t op data))
    (hs : step s (.call t op data) = some s') : SlotInv s' := by
  dsimp only [step] at hs
  split at hs
  · cases hs
  · split at hs
    · obtain rfl := some.inj hs
      exact h
    next hin =>
      have hin : inRange s.driver op.lba op.count = true := by simpa using hin
      obtain rfl := some.inj hs
      obtain ⟨hidle, haway⟩ := halone hin
      have hpos := (inRange_iff.mp hin).1
      refine SlotInv.moved (fun u _ => hidle u) rfl h.present h.cache ?_ fun _ => ?_
      · unfold begin
        split
        next hw => exact ⟨hw, hpos⟩
        next hr =>
          have hread : op.write = false := Bool.eq_false_iff.mpr hr
          split
          next hsmall =>
            rw [Bool.and_eq_true, decide_eq_true_iff] at hsmall
            exact ⟨⟨hread, hsmall.1, hin⟩, haway hread hsmall.1⟩
          next =>
            refine ⟨⟨hpos, fun hw => absurd hw hr, fun _ i hi => absurd hi (Nat.not_lt_zero i)⟩, ?_⟩
            intro offset he hlt
            obtain rfl := Job.chunk.inj he
            exact absurd hlt (Nat.lt_irrefl 0)
      · show s.driver.disk ∈ update s.moments t [s.driver.disk] t
        rw [update_self]
        exact List.mem_singleton_self _

/-! ## The steps of the device -/

variable {r : Region} {f : Transfer} {outcome : Outcome β} {stuck : Bool}

/-- What the device can do with the command in slot zero. -/
inductive Ended (s : World β) : World β → Prop
  | done (r : Region) (f : Transfer) (hprdt : s.prdt = some r) (hfis : s.fis = some f) :
      Ended s { execute s r f .done with ci := false, completed := some (r, f) }
  | failed (r : Region) (f : Transfer) (hprdt : s.prdt = some r) (hfis : s.fis = some f)
      (left : Nat → Option β) (stuck : Bool) :
      Ended s { execute s r f (.failed left) with ci := stuck, error := true }
  | refused (htable : s.prdt = none ∨ s.fis = none) : Ended s { s with ci := false, error := true }

theorem deviceStep_ended (hs : deviceStep s outcome stuck = some s') : s.ci = true ∧ Ended s s' := by
  unfold deviceStep at hs
  cases hci : s.ci with
  | false =>
    rw [hci] at hs
    cases hs
  | true =>
    rw [hci] at hs
    refine ⟨rfl, ?_⟩
    cases hprdt : s.prdt with
    | none =>
      rw [hprdt] at hs
      obtain rfl := some.inj hs
      have hend : Ended s _ := .refused (.inl hprdt)
      rwa [hprdt] at hend
    | some r =>
      cases hfis : s.fis with
      | none =>
        rw [hprdt, hfis] at hs
        obtain rfl := some.inj hs
        have hend : Ended s _ := .refused (.inr hfis)
        rwa [hprdt, hfis] at hend
      | some f =>
        rw [hprdt, hfis] at hs
        cases outcome with
        | done =>
          obtain rfl := some.inj hs
          exact .done r f hprdt hfis
        | failed left =>
          obtain rfl := some.inj hs
          exact .failed r f hprdt hfis left stuck

/-- The disk and the memory are all a command touches. -/
theorem execute_keeps (s : World β) (r : Region) (f : Transfer) (outcome : Outcome β) :
    (execute s r f outcome).driver =
        { s.driver with
          disk := (execute s r f outcome).driver.disk
          cache := (execute s r f outcome).driver.cache } ∧
      (execute s r f outcome).pc = s.pc ∧ (execute s r f outcome).prdt = s.prdt ∧
        (execute s r f outcome).fis = s.fis := by
  unfold execute
  dsimp only
  split
  · exact ⟨rfl, rfl, rfl, rfl⟩
  · cases r.buffer <;> exact ⟨rfl, rfl, rfl, rfl⟩

/-- A read leaves the disk and every other buffer alone. -/
theorem execute_read (hread : f.write = false) :
    (execute s r f outcome).driver.disk = s.driver.disk ∧
      (execute s r f outcome).moments = s.moments ∧
        (execute s r f outcome).memory r.buffer = scatter (s.memory r.buffer) r.offset
          (min r.sectorCount f.sectorCount) (moved s r f outcome) ∧
        ∀ b, r.buffer ≠ b → (execute s r f outcome).memory b = s.memory b := by
  unfold execute
  dsimp only
  rw [hread, if_neg nofun]
  cases hr : r.buffer with
  | cache =>
    refine ⟨rfl, rfl, rfl, fun b hb => ?_⟩
    cases b with
    | cache => exact absurd rfl hb
    | caller address => rfl
  | caller address =>
    refine ⟨rfl, rfl, update_self .., fun b hb => ?_⟩
    cases b with
    | cache => rfl
    | caller other =>
      have hne : other ≠ address := fun he => hb (congrArg Buffer.caller he.symm)
      exact update_of_ne hne ..

/-- Sectors in front of the region. -/
theorem execute_before (hread : f.write = false) {i : Nat} (hi : i < r.offset) :
    (execute s r f outcome).memory r.buffer i = s.memory r.buffer i := by
  rw [(execute_read hread).2.2.1]
  exact place_out (.inl hi)

/-- Sectors of the region, when the command is done. -/
theorem execute_inside (hread : f.write = false) {k : Nat} (hk : k < min r.sectorCount f.sectorCount) :
    (execute s r f .done).memory r.buffer (r.offset + k) = s.driver.disk (f.lba + k) := by
  rw [(execute_read hread).2.2.1, scatter, place_in hk, moved, hread]
  rfl

/-- A write leaves every buffer alone, and its effect is recorded. -/
theorem execute_write (hwrite : f.write = true) :
    (∀ b, (execute s r f outcome).memory b = s.memory b) ∧
      ∀ t, (execute s r f outcome).driver.disk ∈ (execute s r f outcome).moments t := by
  unfold execute
  dsimp only
  rw [hwrite, if_pos rfl]
  refine ⟨fun b => ?_, fun t => List.mem_cons_self⟩
  cases b <;> rfl

theorem execute_seen (h : s.driver.disk ∈ s.moments t) :
    (execute s r f outcome).driver.disk ∈ (execute s r f outcome).moments t := by
  cases hw : f.write with
  | true => exact (execute_write hw).2 t
  | false =>
    rw [(execute_read hw).1, (execute_read hw).2.1]
    exact h

/-- What every end of a command leaves alone. -/
structure Untouched (s s' : World β) : Prop where
  driver : s'.driver = { s.driver with disk := s'.driver.disk, cache := s'.driver.cache }
  pc : s'.pc = s.pc
  prdt : s'.prdt = s.prdt
  fis : s'.fis = s.fis
  seen : ∀ t, s.driver.disk ∈ s.moments t → s'.driver.disk ∈ s'.moments t
  /-- What the command is away from. -/
  away : ∀ b, Away s b → s'.memory b = s.memory b ∧ s'.driver.disk = s.driver.disk

theorem Ended.untouched (he : Ended s s') (hci : s.ci = true) : Untouched s s' := by
  have haway : ∀ {r f} {o : Outcome β}, s.prdt = some r → s.fis = some f → ∀ b, Away s b →
      (execute s r f o).memory b = s.memory b ∧ (execute s r f o).driver.disk = s.driver.disk := by
    intro r f o hprdt hfis b ha
    obtain ⟨r', f', hr', hf', hread, hne⟩ := ha hci
    obtain rfl := some.inj (hprdt.symm.trans hr')
    obtain rfl := some.inj (hfis.symm.trans hf')
    exact ⟨(execute_read hread).2.2.2 b hne, (execute_read hread).1⟩
  cases he with
  | done r f hprdt hfis =>
    obtain ⟨hd, hpc, hp, hf⟩ := execute_keeps s r f .done
    exact ⟨hd, hpc, hp, hf, fun _ => execute_seen, haway hprdt hfis⟩
  | failed r f hprdt hfis left stuck =>
    obtain ⟨hd, hpc, hp, hf⟩ := execute_keeps s r f (.failed left)
    exact ⟨hd, hpc, hp, hf, fun _ => execute_seen, haway hprdt hfis⟩
  | refused htable => exact ⟨rfl, rfl, rfl, rfl, fun _ h => h, fun b _ => ⟨by cases b <;> rfl, rfl⟩⟩

section

variable (h : Untouched s s')

include h

theorem Untouched.away_kept (hci : s.ci = true) (ha : Away s b) : Away s' b := by
  intro _
  obtain ⟨r, f, hr, hf, hrest⟩ := ha hci
  exact ⟨r, f, h.prdt.trans hr, h.fis.trans hf, hrest⟩

theorem Untouched.contains :
    ahciReadCacheContains s'.driver op.lba op.count =
      ahciReadCacheContains s.driver op.lba op.count := by
  rw [h.driver]
  rfl

theorem Untouched.inRange :
    inRange s'.driver op.lba op.count = inRange s.driver op.lba op.count := by
  rw [h.driver]
  rfl

theorem Untouched.small (hs : Small s.driver op) : Small s'.driver op :=
  ⟨hs.read, hs.count, h.inRange.trans hs.range⟩

theorem Untouched.valid : s'.driver.cacheValid = s.driver.cacheValid := by
  rw [h.driver]

theorem Untouched.region : region s'.driver op job = region s.driver op job := by
  rw [h.driver]
  cases job <;> rfl

theorem Untouched.request :
    request s'.driver op job = request s.driver op job := by
  rw [h.driver]
  cases job <;> rfl

theorem Untouched.copied {n : Nat} (ha : Away s (.caller op.buffer))
    (hc : Copied s op n) : Copied s' op n := by
  obtain ⟨hbuffer, hdisk⟩ := h.away _ ha
  change s'.buffers op.buffer = s.buffers op.buffer at hbuffer
  intro i hi
  rw [hbuffer, hdisk]
  exact hc i hi

end

/-- The end of the command of a pass: what earlier passes copied stays. -/
theorem Ended.copied (he : Ended s s') {offset : Nat}
    (hprdt : s.prdt = some (region s.driver op (.chunk offset)))
    (hfis : s.fis = some (request s.driver op (.chunk offset))) (hread : op.write = false)
    (hc : Copied s op offset) : Copied s' op offset := by
  have hrd : (request s.driver op (.chunk offset)).write = false := hread
  have hsame : ∀ o : Outcome β, ∀ i < offset,
      (execute s (region s.driver op (.chunk offset)) (request s.driver op (.chunk offset)) o).buffers
        op.buffer i =
      (execute s (region s.driver op (.chunk offset)) (request s.driver op (.chunk offset)) o).driver.disk
        (op.lba + i) := by
    intro o i hi
    have hbuf : (execute s (region s.driver op (.chunk offset)) (request s.driver op (.chunk offset))
        o).memory (.caller op.buffer) i = s.memory (.caller op.buffer) i := execute_before hrd hi
    exact (hbuf.trans (hc i hi)).trans (congrFun (execute_read hrd).1 _).symm
  cases he with
  | done r f hr hf =>
    obtain rfl := some.inj (hprdt.symm.trans hr)
    obtain rfl := some.inj (hfis.symm.trans hf)
    exact hsame .done
  | failed r f hr hf left stuck =>
    obtain rfl := some.inj (hprdt.symm.trans hr)
    obtain rfl := some.inj (hfis.symm.trans hf)
    exact hsame (.failed left)
  | refused htable => exact hc

/-- What a completed command of an operation has done. -/
theorem effected_execute (hjob : JobOk s op job) :
    Effected (execute s (region s.driver op job) (request s.driver op job) .done) op job := by
  cases job with
  | fill =>
    have hrd : (request s.driver op .fill).write = false := rfl
    have hcount : readAheadCount (execute s (region s.driver op .fill) (request s.driver op .fill)
        .done).driver op.lba = readAheadCount s.driver op.lba := by
      rw [(execute_keeps ..).1]
      rfl
    intro i hi
    rw [hcount] at hi
    have hin : i < min (region s.driver op .fill).sectorCount
        (request s.driver op .fill).sectorCount := Nat.lt_min.mpr ⟨hi, hi⟩
    have hbuf := execute_inside (s := s) (r := region s.driver op .fill) hrd hin
    rw [show (region s.driver op .fill).offset = 0 from rfl, Nat.zero_add] at hbuf
    exact hbuf.trans (congrFun (execute_read hrd).1 _).symm
  | chunk offset =>
    intro hread i hi
    have hrd : (request s.driver op (.chunk offset)).write = false := hread
    rw [(execute_read hrd).1]
    by_cases hlt : i < offset
    · have hbuf : (execute s (region s.driver op (.chunk offset)) (request s.driver op (.chunk offset))
          .done).memory (.caller op.buffer) i = s.memory (.caller op.buffer) i := execute_before hrd hlt
      exact hbuf.trans (hjob.2.2 hread i hlt)
    · obtain ⟨k, rfl⟩ : ∃ k, i = offset + k := ⟨i - offset, by omega⟩
      have hk : k < chunkCount op offset := by omega
      have hin : k < min (region s.driver op (.chunk offset)).sectorCount
          (request s.driver op (.chunk offset)).sectorCount := Nat.lt_min.mpr ⟨hk, hk⟩
      have hbuf := execute_inside (s := s) (r := region s.driver op (.chunk offset)) hrd hin
      rw [← Nat.add_assoc]
      exact hbuf

/-- A command that the device completed without an error has done its work. -/
theorem Ended.effected (he : Ended s s') (hprdt : s.prdt = some (region s.driver op job))
    (hfis : s.fis = some (request s.driver op job)) (hjob : JobOk s op job)
    (herror : s'.error = false) :
    s'.completed = some (region s.driver op job, request s.driver op job) ∧ Effected s' op job := by
  cases he with
  | failed r f hr hf left stuck => cases herror
  | refused htable => cases herror
  | done r f hr hf =>
    obtain rfl := some.inj (hprdt.symm.trans hr)
    obtain rfl := some.inj (hfis.symm.trans hf)
    refine ⟨rfl, ?_⟩
    have heffect := effected_execute hjob
    cases job <;> exact heffect

theorem SlotInv.ended (h : SlotInv s) (hci : s.ci = true) (he : Ended s s') : SlotInv s' := by
  have hu := he.untouched hci
  refine ⟨?_, ?_, fun hv => ?_, fun t => ?_, fun t ht => ?_⟩
  · rw [hu.driver]
    exact h.present
  · rw [hu.pc]
    exact h.exclusive
  · rw [hu.valid] at hv
    obtain ⟨hcache, haway⟩ := h.cache hv
    obtain ⟨hmem, hdisk⟩ := hu.away _ haway
    change s'.driver.cache = s.driver.cache at hmem
    refine ⟨?_, hu.away_kept hci haway⟩
    rw [hmem, hdisk, hu.driver]
    exact hcache
  · have hok := h.tasks t
    rw [hu.pc]
    cases hpc : s.pc t with
    | idle => trivial
    | looking op | rechecking op =>
      rw [hpc] at hok
      refine ⟨hu.small hok.1, fun hc => ?_⟩
      rw [hu.contains] at hc
      exact hu.away_kept hci (hok.2 hc)
    | missed op =>
      rw [hpc] at hok
      exact hu.small hok
    | invalidating op =>
      rw [hpc] at hok
      exact hok
    | filled op =>
      -- the fill is over: nothing is in the slot
      rw [hpc] at hok
      have hfree := hok.2.1
      rw [hci] at hfree
      cases hfree
    | copying op =>
      rw [hpc] at hok
      exact ⟨hu.small hok.1, hu.contains.trans hok.2.1, hu.away_kept hci hok.2.2⟩
    | finished op ok =>
      rw [hpc] at hok
      intro hsuccess hread
      obtain ⟨hcopied, haway⟩ := hok hsuccess hread
      exact ⟨hu.copied haway hcopied, hu.away_kept hci haway⟩
    | transfer op job stage =>
      rw [hpc] at hok
      obtain ⟨hjob, hstage⟩ := hok
      cases stage with
      | clearing | prdt =>
        change s.ci = false at hstage
        rw [hci] at hstage
        cases hstage
      | fis | issuing =>
        have hfree := hstage.1
        rw [hci] at hfree
        cases hfree
      | checking =>
        -- an old command may end, but then nothing was copied yet
        have hfirst : ∀ offset, job = .chunk offset → offset = 0 := by
          intro offset he
          by_contra hne
          have hfree := hstage offset he (Nat.pos_of_ne_zero hne)
          rw [hci] at hfree
          cases hfree
        refine ⟨?_, fun offset he hpos => ?_⟩
        · cases job with
          | fill => exact ⟨hu.small hjob.1, hu.valid.trans hjob.2⟩
          | chunk offset =>
            obtain rfl := hfirst offset rfl
            exact ⟨hjob.1, fun hw => hu.valid.trans (hjob.2.1 hw),
              fun _ i hi => absurd hi (Nat.not_lt_zero i)⟩
        · rw [hfirst offset he] at hpos
          cases hpos
      | polling =>
        obtain ⟨hprdt, hfis, -⟩ := hstage
        have hregion : region s'.driver op job = region s.driver op job := hu.region
        have hrequest : request s'.driver op job = request s.driver op job := hu.request
        refine ⟨?_, ?_, ?_, fun _ herror => ?_⟩
        · cases job with
          | fill => exact ⟨hu.small hjob.1, hu.valid.trans hjob.2⟩
          | chunk offset =>
            exact ⟨hjob.1, fun hw => hu.valid.trans (hjob.2.1 hw),
              fun hread => he.copied hprdt hfis hread (hjob.2.2 hread)⟩
        · rw [hregion]
          exact hu.prdt.trans hprdt
        · rw [hrequest]
          exact hu.fis.trans hfis
        · rw [hregion, hrequest]
          exact he.effected hprdt hfis hjob herror
  · rw [hu.pc] at ht
    exact hu.seen t (h.seen t ht)

theorem SlotInv.next {l : Label β} (h : SlotInv s) (hl : Alone s l) (hs : step s l = some s') :
    SlotInv s' := by
  cases l with
  | call t op data => exact h.call hl hs
  | advance t giveUp => exact h.advance hs
  | device outcome stuck =>
    obtain ⟨hci, he⟩ := deviceStep_ended hs
    exact h.ended hci he

theorem start_inv (sectorCount : Nat) (contents cache : Nat → β) (buffers : Nat → Nat → β) :
    SlotInv (start sectorCount contents cache buffers) :=
  ⟨rfl, fun _ _ ht => absurd rfl ht, nofun, fun _ => trivial, fun _ ht => absurd rfl ht⟩

theorem SlotInv.safe (h : SlotInv s) : DriverSafe s := by
  refine ⟨h.exclusive, fun t op job hpc hci herror => ?_, fun t op hpc hread => ?_⟩
  · have hok := h.tasks t
    rw [hpc] at hok
    exact (hok.2.2.2 hci herror).1
  · have hok := h.tasks t
    rw [hpc] at hok
    have ht : s.pc t ≠ .idle := by rw [hpc]; exact nofun
    exact ⟨s.driver.disk, h.seen t ht, (hok rfl hread).1⟩

/-- In every run in which each call is made alone. -/
theorem run_driverSafe {sectorCount : Nat} {contents cache : Nat → β} {buffers : Nat → Nat → β}
    {ls : List (Label β)} {s : World β}
    (hr : RunWhere step Alone (start sectorCount contents cache buffers) ls s) : DriverSafe s :=
  SlotInv.safe (hr.invariant (start_inv ..) fun _ _ _ h hl hs => h.next hl hs)

/-- A disk of a hundred sectors, each holding its own number. -/
def numbered : World Nat := start 100 (fun x => x) (fun _ => 0) fun _ _ => 0

def Label.isCall : Label β → Bool
  | .call .. => true
  | _ => false

/-- Task 0 reads two sectors into the buffer at 7, from the call to its return value. -/
theorem run_driverSafe_read : ∃ s1 s2 : World Nat,
    step numbered (.call 0 ⟨false, 3, 2, 7⟩ fun _ => 0) = some s1 ∧
      exec step (fun _ l => l.isCall = false) s1
        (List.replicate 7 (.advance 0 false) ++ [.device .done false] ++
          List.replicate 4 (.advance 0 false)) = some s2 ∧
      s2.pc 0 = .finished ⟨false, 3, 2, 7⟩ true ∧ DriverSafe s2 := by
  have hcall : (step numbered (.call 0 ⟨false, 3, 2, 7⟩ fun _ => 0)).any (fun s1 =>
      (exec step (fun _ l => l.isCall = false) s1
        (List.replicate 7 (.advance 0 false) ++ [.device .done false] ++
          List.replicate 4 (.advance 0 false))).any fun s2 =>
            s2.pc 0 = .finished ⟨false, 3, 2, 7⟩ true) = true := by decide +kernel
  obtain ⟨s1, hstep, hrest⟩ := (Option.any_eq_true _ _).mp hcall
  obtain ⟨s2, hexec, hpc⟩ := (Option.any_eq_true _ _).mp hrest
  have hrun : RunWhere step Alone s1 _ s2 := (run_of_exec hexec).mono fun s l hl => by
    cases l with
    | call t op data => cases hl
    | advance t giveUp => trivial
    | device outcome stuck => trivial
  have halone : Alone numbered (.call 0 ⟨false, 3, 2, 7⟩ fun _ => 0) :=
    fun _ => ⟨fun _ => rfl, fun _ _ _ => away_of_free rfl⟩
  exact ⟨s1, s2, hstep, hexec, of_decide_eq_true hpc, run_driverSafe (hrun.cons halone hstep)⟩

/-- Task 0 finds slot zero free and is switched away from; task 1 issues its own
command; task 0 goes on and builds its command in the table that is in use. -/
def overlapping : List (Label Nat) :=
  [.call 0 ⟨false, 0, 1, 0⟩ fun _ => 0] ++ List.replicate 3 (.advance 0 false) ++
    [.call 1 ⟨false, 50, 1, 1⟩ fun _ => 0] ++ List.replicate 7 (.advance 1 false) ++
    List.replicate 3 (.advance 0 false) ++ [.device .done false] ++
    List.replicate 4 (.advance 1 false)

/-- Task 1 asked for sector 50, its call succeeds, and it gets sector 0. -/
theorem not_run_driverSafe : ¬ ∀ (sectorCount : Nat) (contents cache : Nat → Nat)
    (buffers : Nat → Nat → Nat) (ls : List (Label Nat)) (s : World Nat),
    Run step (start sectorCount contents cache buffers) ls s → DriverSafe s := by
  intro h
  have hrun : (exec step (fun _ _ => True) numbered overlapping).any (fun s =>
      (s.pc 1 = .finished ⟨false, 50, 1, 1⟩ true && s.buffers 1 0 = 0) &&
        (s.moments 1).all fun disk => disk 50 = 50) = true := by decide +kernel
  obtain ⟨s, hexec, hs⟩ := (Option.any_eq_true _ _).mp hrun
  rw [Bool.and_eq_true, Bool.and_eq_true, decide_eq_true_iff, decide_eq_true_iff] at hs
  obtain ⟨⟨hpc, hzero⟩, hmoments⟩ := hs
  obtain ⟨disk, hmem, hread⟩ := (h _ _ _ _ _ s (run_of_exec hexec)).reads 1 _ hpc rfl
  have hfifty : disk 50 = 50 := of_decide_eq_true (List.all_eq_true.mp hmoments disk hmem)
  have hgot : s.buffers 1 0 = disk 50 := hread 0 (by decide)
  rw [hzero, hfifty] at hgot
  cases hgot

end MeatySkeleton.Device.Slot
