import MeatySkeleton.Elf.Loads

/-!
# A load that nobody interferes with

The steps of one load one after the other, each taken where the one before it
left the machine (`passAll`); a step that makes the load fail has no result. A
run of a single load that ends without a failure is such a pass
(`run_passAll`), and each kind of step is inverted here: what the machine and the
load are after it, given that it went through.
-/

namespace MeatySkeleton.Elf

open Option Lib Paging
open Step (perform)

variable {m0 m m' : Machine} {f : Nat} {l l' : Load} {w w' : World Unit}

/-- A step that does not make the load fail. -/
def Step.pass (s : Step) (c : Machine × Load) : Option (Machine × Load) :=
  (s.perform c.2 c.1).filter fun c => !c.2.failed

def passAll (steps : List Step) (c : Machine × Load) : Option (Machine × Load) :=
  steps.foldlM (fun c s => s.pass c) c

theorem passAll_append (steps steps' : List Step) (c : Machine × Load) :
    passAll (steps ++ steps') c = (passAll steps c).bind (passAll steps') :=
  List.foldlM_append

theorem passAll_cons (s : Step) (steps : List Step) (c : Machine × Load) :
    passAll (s :: steps) c = (s.pass c).bind (passAll steps) :=
  List.foldlM_cons

variable {s : Step}

theorem pass_iff : s.pass (m, l) = some (m', l') ↔
    s.perform l m = some (m', l') ∧ l'.failed = false := by
  rw [Step.pass, filter_eq_some_iff, Bool.not_eq_true']

/-! ## Runs of one load -/

theorem Load.fail_spec (h : l.fail m = some (m', l')) : l'.failed = true ∧ l'.steps = [] := by
  obtain ⟨m1, -, hr⟩ := bind_eq_some_iff.mp h
  cases hr
  exact ⟨rfl, rfl⟩

/-- A load that is still running has not failed. -/
theorem Load.not_fail (hok : l'.failed = false) : l.fail m ≠ some (m', l') := by
  intro h
  rw [(Load.fail_spec h).1] at hok
  cases hok

/-- The step maps the scratch page to frame `f` of the load. -/
def Step.Opens (s : Step) (l : Load) (f : Nat) : Prop :=
  (s = .mapScratch ∧ l.frame = some f) ∨ (s = .mapTopFrame ∧ l.topFrame = some f)

/-- What each step does when it does not fail. -/
inductive Performed (l : Load) (m : Machine) : Step → Machine → Load → Prop
  | active {halts : Bool} : m.cr3 = m.kernelDirectory →
      Performed l m (.kernelDirectoryActive halts) m l
  | allocated {address : Nat} {m' : Machine} : pmmAllocateFrame m = some (address, m') →
      Performed l m .allocateFrame m' { l with frame := some (address / pageSize) }
  | opened {s : Step} {f : Nat} {m' : Machine} : s.Opens l f →
      pagingMapPage m scratchAddress (f * pageSize) pageWritable = some (true, m') →
      Performed l m s m' { l with holding := true }
  | wrote {offset : Nat} {b : Byte} {m' : Machine} :
      m.editPage (scratchAddress + offset) (fun page => setByte page (offset % pageSize) b) = some m' →
      Performed l m (.writeByte offset b) m' l
  | skipped {i : Nat} : i = recursiveDirectoryIndex ∨ i = scratchIndex →
      Performed l m (.shareEntry i) m l
  | unshared {i : Nat} {entry : Word} : ¬(i = recursiveDirectoryIndex ∨ i = scratchIndex) →
      m.load (directoryEntry i) = some entry → ¬entry.shared = true →
      Performed l m (.shareEntry i) m l
  | shared {i : Nat} {entry : Word} {m' : Machine} :
      ¬(i = recursiveDirectoryIndex ∨ i = scratchIndex) →
      m.load (directoryEntry i) = some entry → entry.shared = true →
      m.store (scratchAddress + 4 * i) entry = some m' → Performed l m (.shareEntry i) m' l
  | closed {f : Nat} {m' : Machine} : l.frame = some f →
      m.store (scratchAddress + 4 * recursiveDirectoryIndex)
        (entryFor (f * pageSize) (pagePresent ||| pageWritable)) = some m' →
      Performed l m .setRecursiveEntry m' l
  | unmapped {halts : Bool} {m' : Machine} : pagingUnmapPage m scratchAddress false = some (true, m') →
      Performed l m (.unmapScratch halts) m' { l with holding := false }
  | adopted : Performed l m .adoptDirectory m { l with frame := none, directory := l.frame }
  | entered {v f dir : Nat} {flags : Word} {top : Bool} {m' : Machine} : l.frame = some f →
      l.directory = some dir →
      pagingMapPageInDirectory m (dir * pageSize) v (f * pageSize) flags = some (true, m') →
      Performed l m (.enterPage v flags top) m'
        { l with frame := none, topFrame := if top then some f else l.topFrame }

theorem openScratch_cases (hs : s.Opens l f) (h : l.openScratch m f = some (m', l')) :
    (l'.failed = true ∧ l'.steps = []) ∨ Performed l m s m' l' := by
  obtain ⟨⟨mapped, m1⟩, hmap, h⟩ := bind_eq_some_iff.mp h
  dsimp only at h
  cases mapped with
  | true =>
    cases h
    exact .inr (.opened hs hmap)
  | false => exact .inl (Load.fail_spec h)

/-- A step fails the load, or does what it is for. -/
theorem perform_cases (h : s.perform l m = some (m', l')) :
    (l'.failed = true ∧ l'.steps = []) ∨ Performed l m s m' l' := by
  cases s with
  | kernelDirectoryActive halts =>
    dsimp only [perform] at h
    split at h
    next hactive =>
      cases h
      exact .inr (.active hactive)
    next =>
      split at h
      next => cases h
      next => exact .inl (Load.fail_spec h)
  | allocateFrame =>
    dsimp only [perform] at h
    split at h
    next => exact .inl (Load.fail_spec h)
    next hsome =>
      cases h
      exact .inr (.allocated hsome)
  | mapScratch =>
    obtain ⟨f, hf, h⟩ := bind_eq_some_iff.mp h
    exact openScratch_cases (.inl ⟨rfl, hf⟩) h
  | writeByte offset b =>
    obtain ⟨m1, hedit, h⟩ := bind_eq_some_iff.mp h
    cases h
    exact .inr (.wrote hedit)
  | shareEntry i =>
    dsimp only [perform] at h
    split at h
    next hskip =>
      cases h
      exact .inr (.skipped hskip)
    next hskip =>
      obtain ⟨entry, hload, h⟩ := bind_eq_some_iff.mp h
      split at h
      next hshared =>
        obtain ⟨m1, hstore, h⟩ := bind_eq_some_iff.mp h
        cases h
        exact .inr (.shared hskip hload hshared hstore)
      next hprivate =>
        cases h
        exact .inr (.unshared hskip hload hprivate)
  | setRecursiveEntry =>
    obtain ⟨f, hf, h⟩ := bind_eq_some_iff.mp h
    obtain ⟨m1, hstore, h⟩ := bind_eq_some_iff.mp h
    cases h
    exact .inr (.closed hf hstore)
  | unmapScratch halts =>
    obtain ⟨⟨unmapped, m1⟩, hunmap, h⟩ := bind_eq_some_iff.mp h
    dsimp only at h
    cases unmapped with
    | true =>
      cases h
      exact .inr (.unmapped hunmap)
    | false =>
      cases halts with
      | true => cases h
      | false => exact .inl (Load.fail_spec h)
  | adoptDirectory =>
    cases h
    exact .inr .adopted
  | enterPage v flags top =>
    obtain ⟨f, hf, h⟩ := bind_eq_some_iff.mp h
    obtain ⟨dir, hdir, h⟩ := bind_eq_some_iff.mp h
    obtain ⟨⟨mapped, m1⟩, hmap, h⟩ := bind_eq_some_iff.mp h
    dsimp only at h
    cases mapped with
    | true =>
      cases h
      exact .inr (.entered hf hdir hmap)
    | false => exact .inl (Load.fail_spec h)
  | mapTopFrame =>
    dsimp only [perform] at h
    split at h
    next => exact .inl (Load.fail_spec h)
    next f hf => exact openScratch_cases (.inr ⟨rfl, hf⟩) h
  | reject => exact .inl (Load.fail_spec h)

/-- A step that goes through does so whatever comes after it. -/
theorem Performed.perform (h : Performed l m s m' l') :
    l'.steps = l.steps ∧ l'.failed = l.failed ∧
      ∀ steps, s.perform { l with steps := steps } m = some (m', { l' with steps := steps }) := by
  cases h with
  | active hactive => exact ⟨rfl, rfl, fun _ => if_pos hactive⟩
  | allocated hsome =>
    refine ⟨rfl, rfl, fun _ => ?_⟩
    dsimp only [perform]
    rw [hsome]
  | opened hs hmap =>
    refine ⟨rfl, rfl, fun _ => ?_⟩
    rcases hs with ⟨rfl, hf⟩ | ⟨rfl, hf⟩
    · dsimp only [perform]
      rw [hf, bind_eq_bind, bind_some, Load.openScratch, hmap]
      rfl
    · dsimp only [perform]
      rw [hf]
      dsimp only
      rw [Load.openScratch, hmap]
      rfl
  | wrote hedit =>
    refine ⟨rfl, rfl, fun _ => ?_⟩
    dsimp only [perform]
    rw [hedit]
    rfl
  | skipped hskip => exact ⟨rfl, rfl, fun _ => if_pos hskip⟩
  | @unshared i entry hskip hload hprivate =>
    refine ⟨rfl, rfl, fun _ => ?_⟩
    dsimp only [perform]
    rw [if_neg hskip, hload]
    exact if_neg hprivate
  | @shared i entry m' hskip hload hshared hstore =>
    refine ⟨rfl, rfl, fun _ => ?_⟩
    dsimp only [perform]
    rw [if_neg hskip, hload]
    show (if entry.shared = true then _ else _) = _
    rw [if_pos hshared, hstore]
    rfl
  | closed hf hstore =>
    refine ⟨rfl, rfl, fun _ => ?_⟩
    dsimp only [perform]
    rw [hf, bind_eq_bind, bind_some, hstore]
    rfl
  | unmapped hunmap =>
    refine ⟨rfl, rfl, fun _ => ?_⟩
    dsimp only [perform]
    rw [hunmap]
    rfl
  | adopted => exact ⟨rfl, rfl, fun _ => rfl⟩
  | entered hf hdir hmap =>
    refine ⟨rfl, rfl, fun _ => ?_⟩
    dsimp only [perform]
    rw [hf, hdir, bind_eq_bind, bind_some, bind_eq_bind, bind_some, hmap]
    rfl

/-- What a step that passes has done. -/
theorem pass_performed (h : s.pass (m, l) = some (m', l')) : Performed l m s m' l' := by
  obtain ⟨hperform, hok⟩ := pass_iff.mp h
  rcases perform_cases hperform with ⟨hfailed, -⟩ | hperformed
  · rw [hok] at hfailed
    cases hfailed
  · exact hperformed

/-- A load that comes to its end by itself has passed all its steps. -/
theorem run_passAll {steps : List Step} {us : List Unit}
    (hrun : Run step (start m0 fun _ : Unit => steps) us w) (hend : (w.load ()).steps = [])
    (hok : (w.load ()).failed = false) :
    ∃ l, passAll steps (m0, .start []) = some (w.machine, l) ∧
      (w.load ()).directory = l.directory := by
  -- what is left to do after each step, or the load has failed and does nothing any more
  have hleft : ((w.load ()).failed = true ∧ (w.load ()).steps = []) ∨
      ((w.load ()).failed = false ∧ passAll steps (m0, .start []) =
        passAll (w.load ()).steps (w.machine, { w.load () with steps := [] })) := by
    refine hrun.invariant (I := fun w => ((w.load ()).failed = true ∧ (w.load ()).steps = []) ∨
      ((w.load ()).failed = false ∧ passAll steps (m0, .start []) =
        passAll (w.load ()).steps (w.machine, { w.load () with steps := [] })))
      (.inr ⟨rfl, rfl⟩) fun w i w' hleft _ hstep => ?_
    cases i
    rw [step] at hstep
    split at hstep
    next => cases hstep
    next s rest hsteps =>
      split at hstep
      next => cases hstep
      next m' l' hperform =>
        obtain rfl := some.inj hstep
        rcases hleft with ⟨-, hnil⟩ | ⟨hf, hall⟩
        · rw [hnil] at hsteps
          cases hsteps
        · have hself : Function.update w.load () l' () = l' := Function.update_self ..
          dsimp only
          rw [hself]
          refine (perform_cases hperform).imp_right fun hperformed => ?_
          obtain ⟨hkept, hsame, hany⟩ := hperformed.perform
          have hf' : l'.failed = false := hsame.trans hf
          refine ⟨hf', ?_⟩
          have hpass : s.pass (w.machine, { w.load () with steps := [] }) =
              some (m', { l' with steps := [] }) := pass_iff.mpr ⟨hany [], hf'⟩
          rw [hall, hsteps, passAll_cons, hpass, bind_some, hkept]
  rcases hleft with ⟨hfailed, -⟩ | ⟨-, hall⟩
  · rw [hok] at hfailed
    cases hfailed
  · rw [hend] at hall
    exact ⟨_, hall, rfl⟩

end MeatySkeleton.Elf
