import Mathlib.Algebra.Group.Nat.Defs
import Mathlib.Data.List.Basic
import Mathlib.Data.List.Induction

/-!
# The processors of the MADT

`smp_detect_cpus` walks a table whose entries carry their own lengths. `current`
is the part of the table, as long as its header says, from the pointer of that
name on. A table is accepted if it is a sequence of entries with at most one byte
after the last, and then the processors are those it enables, in its order.
-/

namespace MeatySkeleton.System

open List Option

/-- `smp_cpu_t`, without the count of IPIs. -/
structure SmpCpu where
  index : Nat
  processorId : UInt8
  apicId : UInt8
  enabled : Bool
  bootstrapProcessor : Bool
  online : Bool

def smpMaxCpus : Nat := 64

def sizeofMadt : Nat := 44

/-- The processor and APIC identifiers of an entry that is a `madt_local_apic_t`
with `MADT_LOCAL_APIC_ENABLED`, the lowest bit of the flags. -/
def enabledProcessor (entry : List UInt8) : Option (UInt8 × UInt8) :=
  match entry with
  | type :: _ :: processorId :: apicId :: flags :: _ =>
    if type = 0 ∧ 8 ≤ entry.length ∧ flags &&& 1 ≠ 0 then some (processorId, apicId) else none
  | _ => none

/-- Of the processors only the one that runs is online. -/
def smpCpu (bsp : UInt8) (index : Nat) (p : UInt8 × UInt8) : SmpCpu :=
  ⟨index, p.1, p.2, true, p.2 == bsp, p.2 == bsp⟩

/-- The loop of `smp_detect_cpus`. -/
def scanEntries (bsp : UInt8) : Nat → List UInt8 → List SmpCpu → Option (Bool × List SmpCpu)
  | 0, _, _ => none
  | fuel + 1, current, cpus =>
    match current[1]? with
    | none => some (true, cpus)
    | some length =>
      if length.toNat < 2 ∨ current.length < length.toNat then some (false, cpus)
      else
        let next := current.drop length.toNat
        match enabledProcessor (current.take length.toNat) with
        | none => scanEntries bsp fuel next cpus
        | some p =>
          if smpMaxCpus ≤ cpus.length then some (false, cpus)
          else scanEntries bsp fuel next (cpus ++ [smpCpu bsp cpus.length p])

/-- `smp_detect_cpus` on the table found; `bsp` is the identifier the running
processor reads. -/
def smpDetectCpus (table : List UInt8) (bsp : UInt8) : Option (Bool × List SmpCpu) :=
  if table.length < sizeofMadt then some (false, [])
  else
    (scanEntries bsp table.length (table.drop sizeofMadt) []).map fun r =>
      (r.2.any SmpCpu.bootstrapProcessor && r.1, r.2)

/-! ## What a table says -/

/-- The second byte of an entry is its length. -/
def IsEntry (e : List UInt8) : Prop := 2 ≤ e.length ∧ e[1]?.map UInt8.toNat = some e.length

/-- Entries one after the other, and less than an entry's header after them. -/
inductive Entries : List UInt8 → List (List UInt8) → Prop
  | nil {tail : List UInt8} : tail.length < 2 → Entries tail []
  | cons {e rest : List UInt8} {es : List (List UInt8)} : IsEntry e → Entries rest es →
      Entries (e ++ rest) (e :: es)

def processors (es : List (List UInt8)) : List (UInt8 × UInt8) := es.filterMap enabledProcessor

def stored (bsp : UInt8) (ps : List (UInt8 × UInt8)) : List SmpCpu := ps.mapIdx (smpCpu bsp)

variable {bsp : UInt8} {fuel : Nat} {bytes e rest : List UInt8} {cpus : List SmpCpu}
  {es : List (List UInt8)} {ps : List (UInt8 × UInt8)}

theorem processors_cons (e : List UInt8) (es : List (List UInt8)) :
    processors (e :: es) = (enabledProcessor e).toList ++ processors es := by
  unfold processors
  cases he : enabledProcessor e with
  | none => exact filterMap_cons_none he
  | some p => exact filterMap_cons_some he

theorem stored_append (bsp : UInt8) (ps : List (UInt8 × UInt8)) (p : UInt8 × UInt8) :
    stored bsp (ps ++ [p]) = stored bsp ps ++ [smpCpu bsp ps.length p] := by
  rw [stored, stored, mapIdx_concat]

/-- An entry is passed over if its processor still fits. -/
theorem scanEntries_entry (he : IsEntry e) (hps : ps.length ≤ smpMaxCpus) :
    scanEntries bsp (fuel + 1) (e ++ rest) (stored bsp ps) =
      if (ps ++ (enabledProcessor e).toList).length ≤ smpMaxCpus then
        scanEntries bsp fuel rest (stored bsp (ps ++ (enabledProcessor e).toList))
      else some (false, stored bsp ps) := by
  obtain ⟨h2, hlength⟩ := he
  obtain ⟨length, hget, hcount⟩ := map_eq_some_iff.mp hlength
  rw [scanEntries, getElem?_append_left h2, hget]
  dsimp only
  rw [hcount, if_neg (by rw [length_append]; omega), drop_left, take_left]
  have hstored : (stored bsp ps).length = ps.length := length_mapIdx
  cases enabledProcessor e with
  | none => rw [toList_none, append_nil, if_pos hps]
  | some p =>
    rw [toList_some, stored_append, length_append, length_singleton, hstored]
    split <;> grind

/-- Where no entry begins, the table is refused. -/
theorem scanEntries_refuses (h2 : 2 ≤ bytes.length)
    (hno : ∀ e rest, bytes = e ++ rest → ¬ IsEntry e) :
    scanEntries bsp (fuel + 1) bytes cpus = some (false, cpus) := by
  rw [scanEntries, getElem?_eq_getElem h2]
  refine if_pos ?_
  -- otherwise its length says how long the entry is
  by_contra hfits
  rw [not_or, Nat.not_lt, Nat.not_lt] at hfits
  refine hno _ _ (take_append_drop bytes[1].toNat bytes).symm ⟨?_, ?_⟩
  · rw [length_take_of_le hfits.2]
    exact hfits.1
  · rw [length_take_of_le hfits.2, getElem?_take_of_lt hfits.1, getElem?_eq_getElem h2]
    rfl

/-- Entries whose processors fit are passed over to the end. -/
theorem scanEntries_entries (ps : List (UInt8 × UInt8)) (h : Entries bytes es)
    (hfuel : bytes.length < fuel) (hfits : (ps ++ processors es).length ≤ smpMaxCpus) :
    scanEntries bsp fuel bytes (stored bsp ps) =
      some (true, stored bsp (ps ++ processors es)) := by
  obtain ⟨fuel, rfl⟩ := Nat.exists_eq_succ_of_ne_zero (Nat.ne_zero_of_lt hfuel)
  induction h generalizing fuel ps with
  | nil htail =>
    rw [scanEntries, getElem?_eq_none (Nat.le_of_lt_succ htail)]
    exact congrArg (fun ps => some (true, stored bsp ps)) (append_nil ps).symm
  | @cons e rest es he _ ih =>
    have h2 := he.1
    rw [length_append] at hfuel
    obtain ⟨fuel, rfl⟩ : ∃ k, fuel = k + 1 := ⟨fuel - 1, by omega⟩
    rw [processors_cons, ← append_assoc] at hfits ⊢
    have hfit : (ps ++ (enabledProcessor e).toList).length ≤ smpMaxCpus := by
      rw [length_append] at hfits
      omega
    rw [scanEntries_entry he (by rw [length_append] at hfit; omega), if_pos hfit]
    exact ih _ hfits _ (by omega)

/-- The loop ends, and what it accepts is a sequence of entries whose processors fit. -/
theorem scanEntries_accepts (bsp : UInt8) (ps : List (UInt8 × UInt8))
    (hfuel : bytes.length < fuel) (hps : ps.length ≤ smpMaxCpus) :
    ∃ ok cpus, scanEntries bsp fuel bytes (stored bsp ps) = some (ok, cpus) ∧
      (ok = true → ∃ es, Entries bytes es ∧ (ps ++ processors es).length ≤ smpMaxCpus) := by
  induction fuel generalizing bytes ps with
  | zero => exact absurd hfuel (Nat.not_lt_zero _)
  | succ fuel ih =>
    by_cases hend : bytes.length < 2
    · refine ⟨true, stored bsp ps, ?_, fun _ => ⟨[], .nil hend, ?_⟩⟩
      · rw [scanEntries, getElem?_eq_none (Nat.le_of_lt_succ hend)]
      · rwa [processors, filterMap_nil, append_nil]
    by_cases hno : ∀ e rest, bytes = e ++ rest → ¬IsEntry e
    · refine ⟨false, _, scanEntries_refuses (Nat.not_lt.mp hend) hno, fun h => ?_⟩
      exact absurd h Bool.false_ne_true
    push Not at hno
    obtain ⟨e, rest, rfl, he⟩ := hno
    rw [length_append] at hfuel
    have h2 := he.1
    rw [scanEntries_entry he hps]
    split
    next hfit =>
      have hrest : rest.length < fuel := by omega
      obtain ⟨ok, cpus, hscan, hok⟩ := ih _ hrest hfit
      refine ⟨ok, cpus, hscan, fun h => ?_⟩
      obtain ⟨es, hes, hfits⟩ := hok h
      exact ⟨e :: es, .cons he hes, by rwa [processors_cons, ← append_assoc]⟩
    next => exact ⟨false, _, rfl, fun h => absurd h Bool.false_ne_true⟩

theorem any_stored (ps : List (UInt8 × UInt8)) :
    (stored bsp ps).any SmpCpu.bootstrapProcessor = true ↔ ∃ p ∈ ps, p.2 = bsp := by
  induction ps using reverseRecOn with
  | nil => simp [stored]
  | append_singleton ps p ih =>
    rw [stored_append, any_append, Bool.or_eq_true, ih]
    simp [smpCpu, or_and_right, exists_or]

/-- The walk ends. It accepts a table exactly if that is a sequence of entries that
enable at most 64 processors, the running one among them, and stores these in order. -/
theorem smpDetectCpus_accepts (table : List UInt8) (bsp : UInt8) :
    (smpDetectCpus table bsp).isSome ∧ ∀ cpus, smpDetectCpus table bsp = some (true, cpus) ↔
      sizeofMadt ≤ table.length ∧ ∃ es, Entries (table.drop sizeofMadt) es ∧
        (processors es).length ≤ smpMaxCpus ∧ (∃ p ∈ processors es, p.2 = bsp) ∧
        cpus = stored bsp (processors es) := by
  by_cases hheader : table.length < sizeofMadt
  · rw [smpDetectCpus, if_pos hheader]
    simp [Nat.not_le.mpr hheader]
  have hfuel : (table.drop sizeofMadt).length < table.length := by
    rw [length_drop]
    exact Nat.sub_lt (by unfold sizeofMadt at hheader; omega) (by decide)
  have hentries {es : List (List UInt8)} (hes : Entries (table.drop sizeofMadt) es)
      (hfits : (processors es).length ≤ smpMaxCpus) :
      scanEntries bsp table.length (table.drop sizeofMadt) [] =
        some (true, stored bsp (processors es)) :=
    scanEntries_entries [] hes hfuel hfits
  obtain ⟨ok, found, hscan, hok⟩ := scanEntries_accepts bsp [] hfuel (Nat.zero_le _)
  rw [smpDetectCpus, if_neg hheader, show scanEntries bsp _ _ [] = _ from hscan, map_some]
  refine ⟨rfl, fun cpus => ?_⟩
  -- the walk has one result, so what is stored is what the entries enable
  rw [some.injEq, Prod.mk.injEq, Bool.and_eq_true]
  constructor
  · rintro ⟨⟨hbsp, hacc⟩, rfl⟩
    obtain ⟨es, hes, hfits⟩ := hok hacc
    obtain ⟨-, rfl⟩ := Prod.mk.inj (some.inj (hscan.symm.trans (hentries hes hfits)))
    exact ⟨Nat.not_lt.mp hheader, es, hes, hfits, (any_stored _).mp hbsp, rfl⟩
  · rintro ⟨-, es, hes, hfits, hbsp, rfl⟩
    obtain ⟨rfl, rfl⟩ := Prod.mk.inj (some.inj (hscan.symm.trans (hentries hes hfits)))
    exact ⟨⟨(any_stored _).mpr hbsp, rfl⟩, rfl⟩

end MeatySkeleton.System
