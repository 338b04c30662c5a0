import MeatySkeleton.Elf.Alone

/-!
# A function of the loader, on its own

`Step.perform` ends a load that fails with the clean-up of `elf_load_user_image`. A
function called by it returns before that: `Step.take` is a step without the clean-up,
and `call` takes the steps of a function up to the first that fails, which the function
answers by giving back the frame it has taken for a page. `perform_eq_take` puts the
clean-up back, and a call that returns `true` is a pass over its steps (`call_of_passAll`).
-/

namespace MeatySkeleton.Elf

open Option Lib Paging

variable {m m' : Machine} {l l' : Load} {s : Step} {steps : List Step}

/-- `paging_map_page` of the scratch address for frame `f`. -/
def Load.takeScratch (l : Load) (m : Machine) (f : Nat) : Option (Bool × Machine × Load) := do
  let (mapped, m) ← pagingMapPage m scratchAddress (f * pageSize) pageWritable
  return (mapped, m, if mapped then { l with holding := true } else l)

/-- A step before the clean-up, and whether it went well. -/
def Step.take (s : Step) (l : Load) (m : Machine) : Option (Bool × Machine × Load) :=
  match s with
  | .kernelDirectoryActive halts =>
    if m.cr3 = m.kernelDirectory then some (true, m, l)
    else if halts then none else some (false, m, l)
  | .allocateFrame =>
    match pmmAllocateFrame m with
    | none => some (false, m, l)
    | some (address, m) => some (true, m, { l with frame := some (address / pageSize) })
  | .mapScratch => do
    let f ← l.frame
    l.takeScratch m f
  | .writeByte offset b => do
    let m ← m.editPage (scratchAddress + offset) fun page => setByte page (offset % pageSize) b
    return (true, m, l)
  | .shareEntry i => do
    if i = recursiveDirectoryIndex ∨ i = scratchIndex then return (true, m, l)
    else
      let entry ← m.load (directoryEntry i)
      if entry.shared then
        let m ← m.store (scratchAddress + 4 * i) entry
        return (true, m, l)
      else return (true, m, l)
  | .setRecursiveEntry => do
    let f ← l.frame
    let m ← m.store (scratchAddress + 4 * recursiveDirectoryIndex)
      (entryFor (f * pageSize) (pagePresent ||| pageWritable))
    return (true, m, l)
  | .unmapScratch halts => do
    let (unmapped, m) ← pagingUnmapPage m scratchAddress false
    if unmapped then return (true, m, { l with holding := false })
    else if halts then none
    else return (false, m, l)
  | .adoptDirectory => some (true, m, { l with frame := none, directory := l.frame })
  | .enterPage virtualPage flags top => do
    let f ← l.frame
    let d ← l.directory
    let (mapped, m) ← pagingMapPageInDirectory m (d * pageSize) virtualPage (f * pageSize) flags
    if mapped then
      return (true, m, { l with frame := none, topFrame := if top then some f else l.topFrame })
    else return (false, m, l)
  | .mapTopFrame =>
    match l.topFrame with
    | none => some (false, m, l)
    | some f => l.takeScratch m f
  | .reject => some (false, m, l)

open Step (perform take)

/-- The load goes on, or cleans up. -/
def Load.afterStep : Bool × Machine × Load → Option (Machine × Load)
  | (true, m, l) => some (m, l)
  | (false, m, l) => l.fail m

theorem openScratch_eq_take (l : Load) (m : Machine) (f : Nat) :
    l.openScratch m f = (l.takeScratch m f).bind Load.afterStep := by
  unfold Load.openScratch Load.takeScratch
  cases pagingMapPage m scratchAddress (f * pageSize) pageWritable with
  | none => rfl
  | some r =>
    obtain ⟨mapped, m'⟩ := r
    cases mapped <;> rfl

/-- A step of the loader is the step, and after a failure the clean-up. -/
theorem perform_eq_take (s : Step) (l : Load) (m : Machine) :
    s.perform l m = (s.take l m).bind Load.afterStep := by
  cases s with
  | kernelDirectoryActive halts =>
    dsimp only [perform, take]
    split
    · rfl
    · split <;> rfl
  | allocateFrame =>
    dsimp only [perform, take]
    cases pmmAllocateFrame m <;> rfl
  | mapScratch =>
    dsimp only [perform, take]
    cases l.frame with
    | none => rfl
    | some f => exact openScratch_eq_take l m f
  | writeByte offset b =>
    dsimp only [perform, take]
    cases m.editPage (scratchAddress + offset) fun page => setByte page (offset % pageSize) b <;> rfl
  | shareEntry i =>
    dsimp only [perform, take]
    split
    · rfl
    · cases m.load (directoryEntry i) with
      | none => rfl
      | some entry =>
        show (if entry.shared = true then _ else _) = Option.bind (if entry.shared = true then _ else _) _
        split
        · cases m.store (scratchAddress + 4 * i) entry <;> rfl
        · rfl
  | setRecursiveEntry =>
    dsimp only [perform, take]
    cases l.frame with
    | none => rfl
    | some f =>
      show Option.bind (m.store _ _) _ = Option.bind (Option.bind (m.store _ _) _) _
      cases m.store (scratchAddress + 4 * recursiveDirectoryIndex)
        (entryFor (f * pageSize) (pagePresent ||| pageWritable)) <;> rfl
  | unmapScratch halts =>
    dsimp only [perform, take]
    cases pagingUnmapPage m scratchAddress false with
    | none => rfl
    | some r =>
      obtain ⟨unmapped, m'⟩ := r
      cases unmapped <;> cases halts <;> rfl
  | adoptDirectory => rfl
  | enterPage v flags top =>
    dsimp only [perform, take]
    cases l.frame with
    | none => rfl
    | some f =>
      cases l.directory with
      | none => rfl
      | some d =>
        show Option.bind (pagingMapPageInDirectory m _ v _ flags) _ =
          Option.bind (Option.bind (pagingMapPageInDirectory m _ v _ flags) _) _
        cases pagingMapPageInDirectory m (d * pageSize) v (f * pageSize) flags with
        | none => rfl
        | some r =>
          obtain ⟨mapped, m'⟩ := r
          cases mapped <;> rfl
  | mapTopFrame =>
    dsimp only [perform, take]
    cases l.topFrame with
    | none => rfl
    | some f => exact openScratch_eq_take l m f
  | reject => rfl

/-- A function of the loader. -/
def call : List Step → Machine × Load → Option (Bool × Machine × Load)
  | [], c => some (true, c)
  | s :: steps, (m, l) =>
    (s.take l m).bind fun
      | (true, c) => call steps c
      | (false, m, l) => some (false, l.freeFrame m, { l with frame := none })

theorem call_done (h : s.take l m = some (true, m', l')) :
    call (s :: steps) (m, l) = call steps (m', l') := by
  rw [call, h, bind_some]

theorem call_failed (h : s.take l m = some (false, m', l')) :
    call (s :: steps) (m, l) = some (false, l'.freeFrame m', { l' with frame := none }) := by
  rw [call, h, bind_some]

/-- A step that passes goes well. -/
theorem take_of_pass (h : s.pass (m, l) = some (m', l')) : s.take l m = some (true, m', l') := by
  obtain ⟨hperform, hok⟩ := pass_iff.mp h
  rw [perform_eq_take] at hperform
  obtain ⟨⟨ok, m1, l1⟩, htake, hafter⟩ := bind_eq_some_iff.mp hperform
  cases ok with
  | true =>
    cases hafter
    exact htake
  | false => exact absurd hafter (Load.not_fail hok)

/-- The steps of a pass go well one after the other. -/
theorem call_of_passAll {c c' : Machine × Load} (h : passAll steps c = some c')
    (rest : List Step) : call (steps ++ rest) c = call rest c' := by
  induction steps generalizing c with
  | nil =>
    obtain rfl := some.inj h
    rfl
  | cons s steps ih =>
    rw [passAll_cons] at h
    obtain ⟨c1, hpass, hrest⟩ := bind_eq_some_iff.mp h
    rw [List.cons_append, call_done (take_of_pass hpass)]
    exact ih hrest

theorem Performed.pass (h : Performed l m s m' l') (hok : l.failed = false) :
    s.pass (m, l) = some (m', l') := by
  obtain ⟨hkept, hsame, hany⟩ := h.perform
  have hperform : s.perform l m = some (m', { l' with steps := l.steps }) := hany l.steps
  rw [← hkept] at hperform
  exact pass_iff.mpr ⟨hperform, hsame.trans hok⟩

/-- A call that fails in its first part. -/
theorem call_append_failed {c : Machine × Load} (h : call steps c = some (false, m', l'))
    (rest : List Step) : call (steps ++ rest) c = some (false, m', l') := by
  induction steps generalizing c with
  | nil => cases (Prod.mk.inj (some.inj h)).1
  | cons s steps ih =>
    obtain ⟨m, l⟩ := c
    rw [call] at h
    obtain ⟨⟨ok, c1⟩, htake, hafter⟩ := bind_eq_some_iff.mp h
    cases ok with
    | true =>
      rw [List.cons_append, call_done htake]
      exact ih hafter
    | false =>
      rw [List.cons_append, call_failed htake]
      exact hafter

theorem call_append_done {c c' : Machine × Load} (h : call steps c = some (true, c'))
    (rest : List Step) : call (steps ++ rest) c = call rest c' := by
  induction steps generalizing c with
  | nil =>
    obtain rfl := (Prod.mk.inj (some.inj h)).2
    rfl
  | cons s steps ih =>
    obtain ⟨m, l⟩ := c
    rw [call] at h
    obtain ⟨⟨ok, c1⟩, htake, hafter⟩ := bind_eq_some_iff.mp h
    cases ok with
    | true =>
      rw [List.cons_append, call_done htake]
      exact ih hafter
    | false => cases (Prod.mk.inj (some.inj hafter)).1

end MeatySkeleton.Elf
