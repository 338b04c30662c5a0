import MeatySkeleton.Paging.Machine

/-!
# The functions of `paging.c`

Mapping and unmapping one page in the current address space, and the life of a
user directory: creation with the kernel's supervisor entries shared, mappings
made through a temporary switch of CR3, and destruction of everything reachable
through user entries. The result of each function is its return value and the
machine after it; `none` is a page fault, or the endless loop the code enters
when it cannot go on.
-/

namespace MeatySkeleton.Paging

/-- `PAGE_DIRECTORY_SCRATCH_ADDRESS`, and the loader's `ELF_PAGE_SCRATCH_ADDRESS`. -/
def scratchAddress : Nat := 0xE0000000

/-- `PAGE_DIRECTORY_SCRATCH_INDEX`. -/
def scratchIndex : Nat := 896

/-- `paging_switch_directory`. -/
def pagingSwitchDirectory (m : Machine) (directory : Nat) : Bool × Machine :=
  if directory % pageSize ≠ 0 then (false, m)
  else if directory = 0 then (false, m)
  else (true, { m with cr3 := directory })

/-- `paging_map_page` from the test for an existing mapping on. -/
def installPage (m : Machine) (d t physicalAddress : Nat) (flags : Word) :
    Option (Bool × Machine) := do
  let pte ← m.load (tableEntry d t)
  if pte.has pagePresent then return (false, m)
  else
    let m ← m.store (tableEntry d t)
      (entryFor physicalAddress (pagePresent ||| (flags &&& pageMapFlags)))
    return (true, m)

/-- `paging_map_page`. -/
def pagingMapPage (m : Machine) (virtualAddress physicalAddress : Nat) (flags : Word) :
    Option (Bool × Machine) :=
  let d := pageDirectoryIndex virtualAddress
  let t := pageTableIndex virtualAddress
  if virtualAddress % pageSize ≠ 0 then some (false, m)
  else if physicalAddress % pageSize ≠ 0 then some (false, m)
  else if d = recursiveDirectoryIndex then some (false, m)
  else do
    let pde ← m.load (directoryEntry d)
    if pde.has pagePresent = false then
      match pmmAllocateFrame m with
      | none => return (false, m)
      | some (tableFrame, m) =>
        let directoryFlags := pagePresent ||| pageWritable
        let directoryFlags :=
          if flags.has pageUser then directoryFlags ||| pageUser else directoryFlags
        let m ← m.store (directoryEntry d) (entryFor tableFrame directoryFlags)
        let m ← m.editPage (tableEntry d 0) zeroPage
        installPage m d t physicalAddress flags
    else
      let pde := if flags.has pageUser then pde ||| pageUser else pde
      let m ← m.store (directoryEntry d) (pde ||| pageWritable)
      installPage m d t physicalAddress flags

/-- `paging_unmap_page`. -/
def pagingUnmapPage (m : Machine) (virtualAddress : Nat) (releaseFrame : Bool) :
    Option (Bool × Machine) :=
  let d := pageDirectoryIndex virtualAddress
  let t := pageTableIndex virtualAddress
  if virtualAddress % pageSize ≠ 0 then some (false, m)
  else if d = recursiveDirectoryIndex then some (false, m)
  else do
    let pde ← m.load (directoryEntry d)
    if pde.has pagePresent = false then return (false, m)
    else
      let pte ← m.load (tableEntry d t)
      if pte.has pagePresent = false then return (false, m)
      else
        let m ← m.store (tableEntry d t) 0#32
        return (true, if releaseFrame then pmmFreeFrame m (frameOf pte * pageSize) else m)

/-- `paging_ensure_kernel_page_table`. -/
def pagingEnsureKernelPageTable (m : Machine) (virtualAddress : Nat) : Option (Bool × Machine) :=
  let d := pageDirectoryIndex virtualAddress
  if m.cr3 ≠ m.kernelDirectory then some (false, m)
  else if d = recursiveDirectoryIndex ∨ d = scratchIndex then some (false, m)
  else do
    let pde ← m.load (directoryEntry d)
    if pde.has pagePresent then return (!pde.has pageUser, m)
    else
      match pmmAllocateFrame m with
      | none => return (false, m)
      | some (tableFrame, m) =>
        let m ← m.store (directoryEntry d) (entryFor tableFrame (pagePresent ||| pageWritable))
        let m ← m.editPage (tableEntry d 0) zeroPage
        return (true, m)

/-! ## User directories -/

/-- The entries a new directory shares with the kernel: present and supervisor
only. -/
def Word.shared (entry : Word) : Bool := entry.has pagePresent && !entry.has pageUser

/-- The loop of `paging_create_user_directory` over the directory entries. -/
def copySupervisorEntries (m : Machine) : List Nat → Option Machine
  | [] => some m
  | i :: is =>
    if i = recursiveDirectoryIndex ∨ i = scratchIndex then copySupervisorEntries m is
    else do
      let entry ← m.load (directoryEntry i)
      if entry.shared then
        let m ← m.store (scratchAddress + 4 * i) entry
        copySupervisorEntries m is
      else copySupervisorEntries m is

/-- `paging_create_user_directory`. -/
def pagingCreateUserDirectory (m : Machine) : Option (Option Nat × Machine) :=
  match pmmAllocateFrame m with
  | none => some (none, m)
  | some (frame, m) => do
    let (mapped, m) ← pagingMapPage m scratchAddress frame pageWritable
    if mapped = false then return (none, pmmFreeFrame m frame)
    else
      let m ← m.editPage scratchAddress zeroPage
      let m ← copySupervisorEntries m (List.range 1024)
      let m ← m.store (scratchAddress + 4 * recursiveDirectoryIndex)
        (entryFor frame (pagePresent ||| pageWritable))
      let (unmapped, m) ← pagingUnmapPage m scratchAddress false
      if unmapped = false then return (none, pmmFreeFrame m frame)
      else return (some frame, m)

/-- The inner loop of `paging_destroy_user_directory`. -/
def freePages (m : Machine) (d : Nat) : List Nat → Option Machine
  | [] => some m
  | t :: ts => do
    let entry ← m.load (tableEntry d t)
    if entry.has pagePresent = false then freePages m d ts
    else
      let m ← m.store (tableEntry d t) 0#32
      freePages (pmmFreeFrame m (frameOf entry * pageSize)) d ts

/-- The outer loop of `paging_destroy_user_directory`. -/
def freeTables (m : Machine) : List Nat → Option Machine
  | [] => some m
  | d :: ds =>
    if d = recursiveDirectoryIndex ∨ d = scratchIndex then freeTables m ds
    else do
      let entry ← m.load (directoryEntry d)
      if entry.has pagePresent = false ∨ entry.has pageUser = false then freeTables m ds
      else
        let m ← freePages m d (List.range 1024)
        let m ← m.store (directoryEntry d) 0#32
        freeTables (pmmFreeFrame m (frameOf entry * pageSize)) ds

/-- `paging_destroy_user_directory`. -/
def pagingDestroyUserDirectory (m : Machine) (directory : Nat) : Option Machine :=
  if directory = 0 ∨ directory % pageSize ≠ 0 ∨ m.kernelDirectory = 0 ∨
      directory = m.kernelDirectory ∨ m.cr3 ≠ m.kernelDirectory then some m
  else
    match pagingSwitchDirectory m directory with
    | (false, m) => some m
    | (true, m) => do
      let m ← freeTables m (List.range 1024)
      match pagingSwitchDirectory m m.kernelDirectory with
      | (false, _) => none
      | (true, m) => return pmmFreeFrame m directory

/-- `paging_map_page_in_directory`. -/
def pagingMapPageInDirectory (m : Machine) (directory virtualAddress physicalAddress : Nat)
    (flags : Word) : Option (Bool × Machine) :=
  if directory = 0 ∨ directory % pageSize ≠ 0 ∨ virtualAddress % pageSize ≠ 0 ∨
      physicalAddress % pageSize ≠ 0 ∨ m.kernelDirectory = 0 ∨ m.cr3 ≠ m.kernelDirectory then
    some (false, m)
  else if directory = m.kernelDirectory then pagingMapPage m virtualAddress physicalAddress flags
  else if pageDirectoryIndex virtualAddress = recursiveDirectoryIndex ∨
      pageDirectoryIndex virtualAddress = scratchIndex then some (false, m)
  else
    match pagingSwitchDirectory m directory with
    | (false, m) => some (false, m)
    | (true, m) => do
      let (mapped, m) ← pagingMapPage m virtualAddress physicalAddress flags
      match pagingSwitchDirectory m m.kernelDirectory with
      | (false, _) => none
      | (true, m) => return (mapped, m)

end MeatySkeleton.Paging
