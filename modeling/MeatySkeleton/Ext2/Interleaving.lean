import MeatySkeleton.Ext2.Growing
import MeatySkeleton.Ext2.Truncating

/-!
# Lookups and allocations in any order

The read path and the allocation path share one cache for each level of the block map. In a run
of lookups and allocations no table leaves the cache before it is on the device, and each
lookup finds what was allocated, just as long as no lookup reads a leaf table over one that is
not on the device: the lookup does not write that table back.
-/

namespace MeatySkeleton.Ext2

open List Lib Lib.Effect

/-- An operation on the block map of a file. -/
inductive MapOp where
  | lookup (logicalBlock : Nat)
  | allocate (logicalBlock : Nat)

def MapOp.apply : MapOp → Effect Working Nat
  | lookup logicalBlock => getDataBlock logicalBlock
  | allocate logicalBlock => getOrAllocateDataBlock logicalBlock

/-- An operation of a run, with the block that it returned unless it failed. -/
structure MapEvent where
  before : Working
  op : MapOp
  result : Option Nat
  after : Working

namespace MapEvent

/-- The operation ended this way. -/
def Happens (e : MapEvent) : Prop :=
  match e.result with
  | some n => e.op.apply e.before = .done n e.after
  | none => e.op.apply e.before = .failed e.after

/-- The operation is no lookup that reads a leaf table over one that is not on the device. -/
def Safe (e : MapEvent) : Prop := ∀ i, e.op = .lookup i → ¬e.before.Displaces i

end MapEvent

/-- Operations on one file, one after the other. -/
def MapRun : Working → List MapEvent → Working → Prop
  | s, [], t => s = t
  | s, e :: events, t => e.before = s ∧ e.Happens ∧ MapRun e.after events t

/-- No table leaves the cache before it is on the device, and a block that was allocated is
found by each later lookup. -/
structure MapCoherent (events : List MapEvent) : Prop where
  kept : ∀ e ∈ events, Kept e.before e.after
  found : ∀ earlier later e i n, events = earlier ++ e :: later → e.op = .allocate i →
    e.result = some n → ∀ e' ∈ later, e'.op = .lookup i → e'.result = some n

variable {s t : Working} {e : MapEvent} {events : List MapEvent} {i n : Nat}

/-! ## One operation -/

theorem getDataBlock_beyond (h : Coherent s) (hi : ¬i < reach s.entries) :
    getDataBlock i s = .failed s := by
  unfold reach at hi
  have hbytes : s.volume.blockBytes / 4 = s.entries := rfl
  rw [getDataBlock_at h.usable, hbytes, if_neg (by omega), if_neg (by omega), if_neg (by omega)]
  rfl

theorem getOrAllocateDataBlock_beyond (h : Coherent s) (hi : ¬i < reach s.entries) :
    getOrAllocateDataBlock i s = .failed s := by
  unfold reach at hi
  obtain ⟨hmin, hmax⟩ := h.usable.blockSized.le
  have hentries : s.volume.blockBytes / 4 = s.entries := rfl
  unfold getOrAllocateDataBlock
  rw [get_bind, bind_done (h.layout.blockSize s), require_bind ⟨by omega, hmax⟩,
    require_bind h.usable.blockSized.sectors.2.2, require_bind (by omega), if_neg (by omega), hentries,
    if_neg (by omega), require_failed (by omega)]

/-- What the pointers of a file are after an operation. -/
structure MapStep (e : MapEvent) : Prop where
  coherent : Coherent e.after
  kept : Kept e.before e.after
  entries : e.after.entries = e.before.entries
  pointers : ∀ p : Place, p.Valid e.before.entries → e.before.pointer p ≠ 0 →
    e.after.pointer p = e.before.pointer p
  returned : ∀ i n, e.op = .allocate i → e.result = some n →
    i < reach e.before.entries ∧ e.after.pointer (placeOf e.before.entries i) = n ∧ n ≠ 0
  found : ∀ i, e.op = .lookup i → i < reach e.before.entries →
    e.result = some (e.before.pointer (placeOf e.before.entries i))

theorem Grown.mapStep {l : List Place} (hgrown : Grown l e.before e.after)
    (hkept : Kept e.before e.after) (hop : e.op = .allocate i)
    (hresult : ∀ n, e.result = some n → i < reach e.before.entries ∧
      e.after.pointer (placeOf e.before.entries i) = n ∧ n ≠ 0) : MapStep e where
  coherent := hgrown.coherent
  kept := hkept
  entries := hgrown.places.entries
  pointers p hp hne := hgrown.pointer hp hne
  returned i' n hop' hn := by
    rw [hop] at hop'
    cases hop'
    exact hresult n hn
  found i' hop' := by
    rw [hop] at hop'
    cases hop'

section

variable {op : MapOp} {result : Option Nat} {t' : Working}

theorem happens_done (happens : MapEvent.Happens ⟨s, op, result, t⟩)
    (hend : op.apply s = .done n t') : result = some n ∧ t = t' := by
  unfold MapEvent.Happens at happens
  cases result with
  | none => cases happens.symm.trans hend
  | some n' =>
    cases happens.symm.trans hend
    exact ⟨rfl, rfl⟩

theorem happens_failed (happens : MapEvent.Happens ⟨s, op, result, t⟩)
    (hend : op.apply s = .failed t') : result = none ∧ t = t' := by
  unfold MapEvent.Happens at happens
  cases result with
  | none =>
    cases happens.symm.trans hend
    exact ⟨rfl, rfl⟩
  | some n => cases happens.symm.trans hend

end

theorem mapStep (h : Coherent e.before) (happens : e.Happens) (hsafe : e.Safe) : MapStep e := by
  obtain ⟨s, op, result, t⟩ := e
  change Coherent s at h
  cases op with
  | lookup i =>
    by_cases hi : i < reach s.entries
    · obtain ⟨t', hdone, -, hsteady, -⟩ := getDataBlock_coherent h hi
      obtain ⟨rfl, rfl⟩ := happens_done happens hdone
      obtain ⟨hsteady, hkept⟩ := hsteady (hsafe i rfl)
      refine ⟨hsteady.coherent, hkept, hsteady.same.places.entries,
        fun p hp _ => hsteady.same.pointers p hp, nofun, fun i' heq _ => ?_⟩
      cases heq
      rfl
    · obtain ⟨rfl, rfl⟩ := happens_failed happens (getDataBlock_beyond h hi)
      refine ⟨h, (Unmoved.refl _).kept, rfl, fun _ _ _ => rfl, nofun, fun i' heq hi' => ?_⟩
      cases heq
      exact absurd hi' hi
  | allocate i =>
    by_cases hi : i < reach s.entries
    · have hmeets := getOrAllocateDataBlock_meets h hi
      unfold MapEvent.Happens at happens
      cases result with
      | some n =>
        obtain ⟨⟨hgrown, hkept⟩, hpointer, hne⟩ := meets_done hmeets happens
        refine hgrown.mapStep (i := i) hkept rfl fun n' hn => ?_
        cases hn
        exact ⟨hi, hpointer, hne⟩
      | none =>
        obtain ⟨hgrown, hkept⟩ := meets_failed hmeets happens
        exact hgrown.mapStep (i := i) hkept rfl nofun
    · obtain ⟨rfl, rfl⟩ := happens_failed happens (getOrAllocateDataBlock_beyond h hi)
      exact (Grown.refl h []).mapStep (i := i) (Unmoved.refl _).kept rfl nofun

/-- A lookup that is not safe loses a table. -/
theorem unsafe_lost (h : Coherent e.before) (happens : e.Happens) (hstuck : ¬e.Safe) :
    ¬Kept e.before e.after := by
  obtain ⟨s, op, result, t⟩ := e
  change Coherent s at h
  unfold MapEvent.Safe at hstuck
  push Not at hstuck
  obtain ⟨i, hop, hlost⟩ := hstuck
  cases hop
  obtain ⟨t', hdone, -, -, hnot⟩ := getDataBlock_coherent h hlost.1
  obtain ⟨-, rfl⟩ := happens_done happens hdone
  exact hnot hlost

/-! ## Runs -/

theorem MapRun.safe_of_kept (hrun : MapRun s events t) (h : Coherent s)
    (hkept : ∀ e ∈ events, Kept e.before e.after) : ∀ e ∈ events, e.Safe := by
  induction events generalizing s with
  | nil =>
    intro e he
    exact absurd he not_mem_nil
  | cons e events ih =>
    obtain ⟨rfl, happens, hrest⟩ := hrun
    have hfirst : e.Safe := by
      by_contra hstuck
      exact unsafe_lost h happens hstuck (hkept e (mem_cons_self ..))
    have hlater := ih hrest (mapStep h happens hfirst).coherent
      fun e' he' => hkept e' (mem_cons_of_mem _ he')
    intro e' he'
    rcases mem_cons.mp he' with rfl | he'
    · exact hfirst
    · exact hlater e' he'

/-- Each operation of a run with safe ones starts on a coherent file. -/
theorem MapRun.step {earlier later : List MapEvent}
    (hrun : MapRun s (earlier ++ e :: later) t) (h : Coherent s)
    (hsafe : ∀ e' ∈ earlier ++ e :: later, e'.Safe) : MapStep e ∧ MapRun e.after later t := by
  induction earlier generalizing s with
  | nil =>
    obtain ⟨rfl, happens, hrest⟩ := hrun
    exact ⟨mapStep h happens (hsafe e (mem_cons_self ..)), hrest⟩
  | cons first earlier ih =>
    obtain ⟨rfl, happens, hrest⟩ := hrun
    have hstep := mapStep h happens (hsafe first (mem_cons_self ..))
    exact ih hrest hstep.coherent fun e' he' => hsafe e' (mem_cons_of_mem _ he')

/-- A block at its place is found from then on. -/
theorem MapRun.finds (hrun : MapRun s events t) (h : Coherent s) (hsafe : ∀ e ∈ events, e.Safe)
    (hi : i < reach s.entries) (hpointer : s.pointer (placeOf s.entries i) = n) (hn : n ≠ 0) :
    ∀ e ∈ events, e.op = .lookup i → e.result = some n := by
  induction events generalizing s with
  | nil =>
    intro e he
    exact absurd he not_mem_nil
  | cons e events ih =>
    obtain ⟨rfl, happens, hrest⟩ := hrun
    have hstep := mapStep h happens (hsafe e (mem_cons_self ..))
    have hafter : e.after.pointer (placeOf e.after.entries i) = n := by
      rw [hstep.entries, hstep.pointers _ (placeOf_valid hi) (hpointer ▸ hn)]
      exact hpointer
    have hlater := ih hrest hstep.coherent (fun e' he' => hsafe e' (mem_cons_of_mem _ he'))
      (hstep.entries.symm ▸ hi) hafter
    intro e' he' hop
    rcases mem_cons.mp he' with rfl | he'
    · rw [hstep.found i hop hi, hpointer]
    · exact hlater e' he' hop

/-- A run keeps the cache coherent just where no lookup reads a leaf table over one that is not
on the device. -/
theorem mapRun_coherent (s t : Working) (events : List MapEvent) (h : Coherent s)
    (hrun : MapRun s events t) : MapCoherent events ↔ ∀ e ∈ events, e.Safe := by
  refine ⟨fun hcoherent => hrun.safe_of_kept h hcoherent.kept, fun hsafe => ⟨fun e he => ?_, ?_⟩⟩
  · obtain ⟨earlier, later, rfl⟩ := List.append_of_mem he
    exact (hrun.step h hsafe).1.kept
  · intro earlier later e i n hsplit hop hresult
    subst hsplit
    obtain ⟨hstep, hrest⟩ := hrun.step h hsafe
    obtain ⟨hi, hpointer, hn⟩ := hstep.returned i n hop hresult
    rw [← hstep.entries] at hi hpointer
    exact hrest.finds hstep.coherent
      (fun e' he' => hsafe e' (List.mem_append_right _ (List.mem_cons_of_mem _ he'))) hi hpointer hn

/-! ## A file without blocks -/

/-- A new file in memory, on a volume of 64 blocks. -/
def newFile : Working where
  allocating := ⟨oneFileVolume, .empty⟩
  inode := imageOf [(0, 0x81a4)]
  cache := .empty

theorem newFile_pointer (p : Place) (hp : p.Valid newFile.entries) : newFile.pointer p = 0 := by
  have hblocks : ∀ i < 15, newFile.inode.block i = 0 := by decide +kernel
  have hleaf : ∀ j, newFile.pointer (.leaf j) = 0 := by
    intro j
    show newFile.entryAt .root (newFile.inode.block 13) j = 0
    exact if_pos (hblocks 13 (by decide))
  cases p with
  | direct i => exact hblocks i (Nat.lt_trans hp (by decide))
  | single => exact hblocks 12 (by decide)
  | entry i =>
    show newFile.entryAt .single (newFile.inode.block 12) i = 0
    exact if_pos (hblocks 12 (by decide))
  | root => exact hblocks 13 (by decide)
  | leaf j => exact hleaf j
  | below j i =>
    show newFile.entryAt .leaf (newFile.pointer (.leaf j)) i = 0
    exact if_pos (hleaf j)

theorem newFile_coherent : Coherent newFile where
  sound := oneFileVolume_group.sound (by decide +kernel)
  arrays := ⟨rfl, rfl, rfl⟩
  cached := by
    intro slot hvalid
    cases slot
    all_goals cases hvalid
  rooted := nofun
  clean := by
    intro slot hvalid
    cases slot
    all_goals cases hvalid
  once p q hp _ _ hne := absurd (newFile_pointer p hp) hne
  data p hp hne := absurd (newFile_pointer p hp) hne

theorem newFile_found : ∃ n t u, MapCoherent
    [⟨newFile, .allocate 268, some n, t⟩, ⟨t, .lookup 268, some n, u⟩] := by
  have hreturns : (getOrAllocateDataBlock 268 newFile).returns (fun n t =>
      decide (t.entries = 256 ∧ (t.cache.table .leaf).Holds (t.pointer (.leaf 0))) &&
        (getDataBlock 268 t).returns fun m _ => decide (m = n)) = true := by
    decide +kernel
  obtain ⟨n, t, hallocate, hrest⟩ := Ending.exists_done hreturns
  obtain ⟨hheld, hlookup⟩ := Bool.and_eq_true_iff.mp hrest
  obtain ⟨hentries, hheld⟩ := of_decide_eq_true hheld
  obtain ⟨m, u, hfound, hm⟩ := Ending.exists_done hlookup
  obtain rfl := of_decide_eq_true hm
  have hrun : MapRun newFile
      [⟨newFile, .allocate 268, some m, t⟩, ⟨t, .lookup 268, some m, u⟩] u :=
    ⟨rfl, hallocate, rfl, hfound, rfl⟩
  refine ⟨m, t, u, (mapRun_coherent newFile u _ newFile_coherent hrun).mpr fun e he => ?_⟩
  rcases List.mem_cons.mp he with rfl | he
  · exact fun i hop => nomatch hop
  · obtain rfl := List.mem_singleton.mp he
    intro i hop hlost
    cases hop
    -- the leaf table of the block is the one in the cache
    obtain ⟨-, j, k, hplace, -, hmiss, -⟩ := hlost
    have hplace' : placeOf 256 268 = .below j k := hentries ▸ hplace
    have hfirst : placeOf 256 268 = .below 0 0 := by decide
    obtain ⟨rfl, rfl⟩ := Place.below.inj (hplace'.symm.trans hfirst)
    exact hmiss hheld

/-- With a lookup in another leaf table in between, the block is not found again. -/
theorem newFile_displaced : ∃ events t, MapRun newFile events t ∧ ¬MapCoherent events := by
  have hreturns : (getOrAllocateDataBlock 524 newFile).returns (fun _ s1 =>
      (getOrAllocateDataBlock 268 s1).returns fun n s2 => (getDataBlock 524 s2).returns fun _ s3 =>
        (getDataBlock 268 s3).returns fun m _ => decide (m ≠ n)) = true := by
    decide +kernel
  obtain ⟨n1, s1, h1, hreturns⟩ := Ending.exists_done hreturns
  obtain ⟨n, s2, h2, hreturns⟩ := Ending.exists_done hreturns
  obtain ⟨n3, s3, h3, hreturns⟩ := Ending.exists_done hreturns
  obtain ⟨m, s4, h4, hm⟩ := Ending.exists_done hreturns
  refine ⟨[⟨newFile, .allocate 524, some n1, s1⟩, ⟨s1, .allocate 268, some n, s2⟩,
    ⟨s2, .lookup 524, some n3, s3⟩, ⟨s3, .lookup 268, some m, s4⟩], s4,
    ⟨rfl, h1, rfl, h2, rfl, h3, rfl, h4, rfl⟩, fun hcoherent => ?_⟩
  have hfound := hcoherent.found [_] [_, _] _ 268 n rfl rfl rfl ⟨s3, .lookup 268, some m, s4⟩
    (List.mem_cons_of_mem _ (List.mem_singleton_self _)) rfl
  exact of_decide_eq_true hm (Option.some.inj hfound)

end MeatySkeleton.Ext2
