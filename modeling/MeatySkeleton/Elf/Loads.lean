import MeatySkeleton.Elf.Loader
import MeatySkeleton.Lib.Run

/-!
# Loads side by side

Several tasks or processors inside `elf_load_user_image` at once. Each load has
its own steps and local variables; the machine is shared, the kernel's directory
active on every one of them. `step` lets one load take its next step, so a run of
`step` is an interleaving. A call that takes `paging_lock` or works with
interrupts off is one step.
-/

namespace MeatySkeleton.Elf

open Lib Paging

structure Load where
  steps : List Step
  /-- A frame taken from the allocator that is in no address space yet. -/
  frame : Option Nat
  /-- The new directory. -/
  directory : Option Nat
  /-- `top_stack_frame`. -/
  topFrame : Option Nat
  /-- The load has mapped the scratch page and not unmapped it. -/
  holding : Bool
  failed : Bool

def Load.start (steps : List Step) : Load := ⟨steps, none, none, none, false, false⟩

/-- `pmm_free_frame` of the loose frame. -/
def Load.freeFrame (l : Load) (m : Machine) : Machine :=
  match l.frame with
  | none => m
  | some f => pmmFreeFrame m (f * pageSize)

/-- `paging_destroy_user_directory` of the new directory. -/
def Load.destroyDirectory (l : Load) (m : Machine) : Option Machine :=
  match l.directory with
  | none => some m
  | some d => pagingDestroyUserDirectory m (d * pageSize)

/-- The load returns `false`: its loose frame goes back, then the new directory. -/
def Load.fail (l : Load) (m : Machine) : Option (Machine × Load) := do
  let m ← l.destroyDirectory (l.freeFrame m)
  return (m, { l with steps := [], frame := none, directory := none, failed := true })

/-- `paging_map_page` of the scratch address for frame `f`. -/
def Load.openScratch (l : Load) (m : Machine) (f : Nat) : Option (Machine × Load) := do
  let (mapped, m) ← pagingMapPage m scratchAddress (f * pageSize) pageWritable
  if mapped then return (m, { l with holding := true }) else l.fail m

/-- A load takes a step; `none` is a page fault, or the loop the loader halts in. -/
def Step.perform (s : Step) (l : Load) (m : Machine) : Option (Machine × Load) :=
  match s with
  | .kernelDirectoryActive halts =>
    if m.cr3 = m.kernelDirectory then some (m, l) else if halts then none else l.fail m
  | .allocateFrame =>
    match pmmAllocateFrame m with
    | none => l.fail m
    | some (address, m) => some (m, { l with frame := some (address / pageSize) })
  | .mapScratch => do
    let f ← l.frame
    l.openScratch m f
  | .writeByte offset b => do
    let m ← m.editPage (scratchAddress + offset) fun page => setByte page (offset % pageSize) b
    return (m, l)
  | .shareEntry i => do
    if i = recursiveDirectoryIndex ∨ i = scratchIndex then return (m, l)
    else
      let entry ← m.load (directoryEntry i)
      if entry.shared then
        let m ← m.store (scratchAddress + 4 * i) entry
        return (m, l)
      else return (m, l)
  | .setRecursiveEntry => do
    let f ← l.frame
    let m ← m.store (scratchAddress + 4 * recursiveDirectoryIndex)
      (entryFor (f * pageSize) (pagePresent ||| pageWritable))
    return (m, l)
  | .unmapScratch halts => do
    let (unmapped, m) ← pagingUnmapPage m scratchAddress false
    if unmapped then return (m, { l with holding := false })
    else if halts then none
    else l.fail m
  | .adoptDirectory => some (m, { l with frame := none, directory := l.frame })
  | .enterPage virtualPage flags top => do
    let f ← l.frame
    let d ← l.directory
    let (mapped, m) ← pagingMapPageInDirectory m (d * pageSize) virtualPage (f * pageSize) flags
    if mapped then
      return (m, { l with frame := none, topFrame := if top then some f else l.topFrame })
    else l.fail m
  | .mapTopFrame =>
    match l.topFrame with
    | none => l.fail m
    | some f => l.openScratch m f
  | .reject => l.fail m

variable {ι : Type} [DecidableEq ι]

structure World (ι : Type) where
  machine : Machine
  load : ι → Load

/-- Load `i` takes its next step. -/
def step (w : World ι) (i : ι) : Option (World ι) :=
  match (w.load i).steps with
  | [] => none
  | s :: rest =>
    match s.perform { w.load i with steps := rest } w.machine with
    | none => none
    | some (m, l) => some ⟨m, Function.update w.load i l⟩

/-- All loads are at their beginning. -/
def start (m : Machine) (script : ι → List Step) : World ι where
  machine := m
  load i := .start (script i)

def Step.mapsScratch : Step → Bool
  | .mapScratch => true
  | .mapTopFrame => true
  | _ => false

/-- The allocator has a frame left, and load `i` does not map the scratch page
while another load has it mapped. -/
def Undisturbed (w : World ι) (i : ι) : Prop :=
  0 < freeFrames w.machine.used ∧
    ((w.load i).steps.head?.any Step.mapsScratch = true → ∀ j, j ≠ i → (w.load j).holding = false)

end MeatySkeleton.Elf
