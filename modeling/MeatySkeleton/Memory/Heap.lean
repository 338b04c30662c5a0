import MeatySkeleton.Lib.Bytes

/-!
# The kernel heap

The functions of `heap.c` on byte-addressed memory. A block header lies in
front of its payload, in the layout of `heap_block_t`: size, previous, next and
magic as words, then the `free` byte, padded to 32 bytes. Pointers and sizes are
numbers below 2^32; a stored word is truncated by `put32`, and a sum the C code
keeps in a register is taken modulo 2^32 (`u32`).

Frames and mappings come from outside (`PageOps`), with any pattern of success
and failure. A walk along the block list takes a bound on its length, and is
`none` if the list is longer; there are fewer blocks than addresses.
-/

namespace MeatySkeleton.Memory

open Lib

def kernelHeapStart : Nat := 0xD0000000
def kernelHeapLimit : Nat := 0xE0000000
def heapInitialPages : Nat := 4
def heapMinimumExpansion : Nat := 4
def heapAlignment : Nat := 16
def heapBlockMagic : Nat := 0x48454150
def heapMinimumPayload : Nat := heapAlignment
def pageSize : Nat := 4096
def sizeMax : Nat := 0xFFFFFFFF

/-- `sizeof(heap_block_t)`. -/
def headerSize : Nat := 32

def u32 (x : Nat) : Nat := x % 2 ^ 32

/-- `heap_block_t`. -/
structure Header where
  size : Nat
  previous : Nat
  next : Nat
  magic : Nat
  free : Bool
  deriving DecidableEq

/-- The header stored at address `b`. -/
def header (m : Mem) (b : Nat) : Header :=
  { size := get32 m b
    previous := get32 m (b + 4)
    next := get32 m (b + 8)
    magic := get32 m (b + 12)
    free := m (b + 16) != 0 }

def setSize (m : Mem) (b v : Nat) : Mem := put32 m b v
def setPrevious (m : Mem) (b v : Nat) : Mem := put32 m (b + 4) v
def setNext (m : Mem) (b v : Nat) : Mem := put32 m (b + 8) v
def setMagic (m : Mem) (b v : Nat) : Mem := put32 m (b + 12) v
def setFree (m : Mem) (b : Nat) (v : Bool) : Mem := put8 m (b + 16) (if v then 1 else 0)

/-- What the heap calls of paging and of the frame allocator. -/
structure PageOps (σ : Type) where
  /-- `pmm_allocate_frame`, 0 when there is none. -/
  allocateFrame : σ → Nat × σ
  /-- `pmm_free_frame`. -/
  freeFrame : σ → Nat → σ
  /-- `paging_map_page` of a virtual on a physical page, writable. -/
  mapPage : σ → Nat → Nat → Bool × σ
  /-- `paging_unmap_page`, releasing the frame. -/
  unmapPage : σ → Nat → σ
  /-- `paging_ensure_kernel_page_table`. -/
  ensureTable : σ → Nat → Bool × σ

/-- The variables of `heap.c`, the memory behind them, and the paging state. -/
structure Heap (σ : Type) where
  mem : Mem
  firstBlock : Nat
  lastBlock : Nat
  mappedEnd : Nat
  initialized : Bool
  pages : σ

variable {σ : Type} (ops : PageOps σ)

/-- `align_up_size`, for an alignment that is a power of two. -/
def alignUpSize (value alignment : Nat) : Nat :=
  if value > sizeMax - (alignment - 1) then 0
  else (value + (alignment - 1)) / alignment * alignment

/-- `pages_for_size`. -/
def pagesForSize (size : Nat) : Nat :=
  if size > sizeMax - (pageSize - 1) then 0 else (size + pageSize - 1) / pageSize

/-- `heap_pointer_is_inside`. -/
def heapPointerIsInside (s : Heap σ) (a : Nat) : Bool :=
  kernelHeapStart ≤ a && a < s.mappedEnd

/-- `heap_block_from_pointer`. -/
def heapBlockFromPointer (s : Heap σ) (p : Nat) : Nat :=
  if p = 0 then 0
  else if !heapPointerIsInside s p then 0
  else if p < kernelHeapStart + headerSize then 0
  else if !heapPointerIsInside s (p - headerSize) then 0
  else if (header s.mem (p - headerSize)).magic ≠ heapBlockMagic then 0
  else p - headerSize

/-- The loop of `heap_map_pages`: how many of the pages it mapped. -/
def mapFrom (start : Nat) : Nat → Nat → σ → Nat × σ
  | 0, mapped, p => (mapped, p)
  | left + 1, mapped, p =>
    let (frame, p) := ops.allocateFrame p
    if frame = 0 then (mapped, p)
    else
      let (ok, p) := ops.mapPage p (start + mapped * pageSize) frame
      if ok then mapFrom start left (mapped + 1) p else (mapped, ops.freeFrame p frame)

/-- `heap_map_pages`, with the rollback of what it mapped. -/
def heapMapPages (start pageCount : Nat) (p : σ) : Bool × σ :=
  let (mapped, p) := mapFrom ops start pageCount 0 p
  if mapped = pageCount then (true, p)
  else (false, (List.range mapped).foldl (fun p i => ops.unmapPage p (start + i * pageSize)) p)

/-- `heap_expand`. -/
def heapExpand (s : Heap σ) (minimumPayload : Nat) : Bool × Heap σ :=
  if minimumPayload > sizeMax - headerSize then (false, s)
  else
    let pageCount := pagesForSize (headerSize + minimumPayload)
    if pageCount = 0 then (false, s)
    else
      let pageCount := if pageCount < heapMinimumExpansion then heapMinimumExpansion else pageCount
      if pageCount > sizeMax / pageSize then (false, s)
      else
        let expansionSize := pageCount * pageSize
        if s.mappedEnd > kernelHeapLimit then (false, s)
        else if expansionSize > kernelHeapLimit - s.mappedEnd then (false, s)
        else
          let start := s.mappedEnd
          match heapMapPages ops start pageCount s.pages with
          | (false, p) => (false, { s with pages := p })
          | (true, p) =>
            let m := fill s.mem start expansionSize 0
            let s := { s with pages := p, mappedEnd := s.mappedEnd + expansionSize }
            if s.lastBlock ≠ 0 ∧ (header m s.lastBlock).free then
              let m := setSize m s.lastBlock ((header m s.lastBlock).size + expansionSize)
              (true, { s with mem := m })
            else
              let m := setSize m start (expansionSize - headerSize)
              let m := setPrevious m start s.lastBlock
              let m := setNext m start 0
              let m := setMagic m start heapBlockMagic
              let m := setFree m start true
              if s.lastBlock ≠ 0 then
                (true, { s with mem := setNext m s.lastBlock start, lastBlock := start })
              else (true, { s with mem := m, firstBlock := start, lastBlock := start })

/-- `heap_find_free_block` from `block` on: first fit. -/
def heapFindFreeBlock (m : Mem) (requestedSize : Nat) : Nat → Nat → Option Nat
  | 0, block => if block = 0 then some 0 else none
  | bound + 1, block =>
    if block = 0 then some 0
    else if (header m block).free ∧ (header m block).size ≥ requestedSize then some block
    else heapFindFreeBlock m requestedSize bound (header m block).next

section

variable (s : Heap σ)

/-- `heap_split_block`. -/
def heapSplitBlock (block requestedSize : Nat) : Heap σ :=
  if (header s.mem block).size < requestedSize then s
  else
    let remaining := (header s.mem block).size - requestedSize
    if remaining < headerSize + heapMinimumPayload then s
    else
      let newBlock := u32 (block + headerSize + requestedSize)
      let m := setSize s.mem newBlock (remaining - headerSize)
      let m := setPrevious m newBlock block
      let m := setNext m newBlock (header m block).next
      let m := setMagic m newBlock heapBlockMagic
      let m := setFree m newBlock true
      let next := (header m newBlock).next
      let s :=
        if next ≠ 0 then { s with mem := setPrevious m next newBlock }
        else { s with mem := m, lastBlock := newBlock }
      let m := setSize s.mem block requestedSize
      { s with mem := setNext m block newBlock }

/-- `heap_merge_with_next`. -/
def heapMergeWithNext (block : Nat) : Heap σ :=
  let next := (header s.mem block).next
  if next = 0 ∨ (header s.mem next).free = false then s
  else if next ≠ u32 (block + headerSize + (header s.mem block).size) then s
  else
    let m := setSize s.mem block
      ((header s.mem block).size + (headerSize + (header s.mem next).size))
    let m := setNext m block (header m next).next
    let s :=
      if (header m block).next ≠ 0 then
        { s with mem := setPrevious m (header m block).next block }
      else { s with mem := m, lastBlock := block }
    let m := setMagic s.mem next 0
    let m := setPrevious m next 0
    let m := setNext m next 0
    let m := setSize m next 0
    { s with mem := setFree m next false }

/-- The end of `heap_allocate_unlocked`: the block is cut to size and taken. -/
def heapTakeBlock (block alignedSize : Nat) : Nat × Heap σ :=
  let s := heapSplitBlock s block alignedSize
  (u32 (block + headerSize), { s with mem := setFree s.mem block false })

/-- `heap_allocate_unlocked`. -/
def heapAllocateUnlocked (size : Nat) : Option (Nat × Heap σ) :=
  if s.initialized = false then some (0, s)
  else if size = 0 then some (0, s)
  else
    let alignedSize := alignUpSize size heapAlignment
    if alignedSize = 0 then some (0, s)
    else
      match heapFindFreeBlock s.mem alignedSize s.mappedEnd s.firstBlock with
      | none => none
      | some block =>
        if block ≠ 0 then some (heapTakeBlock s block alignedSize)
        else
          match heapExpand ops s alignedSize with
          | (false, s) => some (0, s)
          | (true, s) =>
            match heapFindFreeBlock s.mem alignedSize s.mappedEnd s.firstBlock with
            | none => none
            | some block =>
              if block = 0 then some (0, s) else some (heapTakeBlock s block alignedSize)

/-- `heap_free_unlocked`. -/
def heapFreeUnlocked (pointer : Nat) : Heap σ :=
  if pointer = 0 then s
  else
    let block := heapBlockFromPointer s pointer
    if block = 0 then s
    else if (header s.mem block).free then s
    else
      let s := { s with mem := setFree s.mem block true }
      let s := heapMergeWithNext s block
      let previous := (header s.mem block).previous
      if previous ≠ 0 ∧ (header s.mem previous).free then heapMergeWithNext s previous else s

/-- The end of `heap_reallocate_unlocked`: a new block takes over the contents. -/
def heapMoveBlock (block pointer newSize : Nat) : Option (Nat × Heap σ) :=
  match heapAllocateUnlocked ops s newSize with
  | none => none
  | some (replacement, s) =>
    if replacement = 0 then some (0, s)
    else
      let copySize := if (header s.mem block).size < newSize then (header s.mem block).size else newSize
      let s := { s with mem := copy s.mem replacement pointer copySize }
      some (replacement, heapFreeUnlocked s pointer)

/-- `heap_reallocate_unlocked`. -/
def heapReallocateUnlocked (pointer newSize : Nat) : Option (Nat × Heap σ) :=
  if pointer = 0 then heapAllocateUnlocked ops s newSize
  else if newSize = 0 then some (0, heapFreeUnlocked s pointer)
  else
    let block := heapBlockFromPointer s pointer
    if block = 0 then some (0, s)
    else if (header s.mem block).free then some (0, s)
    else
      let alignedSize := alignUpSize newSize heapAlignment
      if alignedSize = 0 then some (0, s)
      else if (header s.mem block).size ≥ alignedSize then
        some (pointer, heapSplitBlock s block alignedSize)
      else
        let next := (header s.mem block).next
        if next ≠ 0 ∧ (header s.mem next).free ∧
            u32 ((header s.mem block).size + headerSize + (header s.mem next).size) ≥ alignedSize then
          let s := heapMergeWithNext s block
          let s := heapSplitBlock s block alignedSize
          some (pointer, { s with mem := setFree s.mem block false })
        else
          heapMoveBlock ops s block pointer newSize

end

/-- The loop of `heap_initialize` that creates the page tables of the heap. -/
def ensureTables : List Nat → σ → Bool × σ
  | [], p => (true, p)
  | a :: as, p =>
    match ops.ensureTable p a with
    | (false, p) => (false, p)
    | (true, p) => ensureTables as p

/-- The first address of each 4 MiB region of the heap. -/
def heapRegions : List Nat :=
  (List.range ((kernelHeapLimit - kernelHeapStart) / (pageSize * 1024))).map
    fun i => kernelHeapStart + i * (pageSize * 1024)

/-- `heap_initialize`. -/
def heapInitialize (s : Heap σ) : Heap σ :=
  if s.initialized then s
  else
    let s := { s with firstBlock := 0, lastBlock := 0, mappedEnd := kernelHeapStart }
    match ensureTables ops heapRegions s.pages with
    | (false, p) => { s with pages := p }
    | (true, p) =>
      let initialSize := heapInitialPages * pageSize
      match heapMapPages ops kernelHeapStart heapInitialPages p with
      | (false, p) => { s with pages := p }
      | (true, p) =>
        let m := fill s.mem kernelHeapStart initialSize 0
        let m := setSize m kernelHeapStart (initialSize - headerSize)
        let m := setPrevious m kernelHeapStart 0
        let m := setNext m kernelHeapStart 0
        let m := setMagic m kernelHeapStart heapBlockMagic
        let m := setFree m kernelHeapStart true
        { mem := m
          firstBlock := kernelHeapStart
          lastBlock := kernelHeapStart
          mappedEnd := kernelHeapStart + initialSize
          initialized := true
          pages := p }

/-- `kmalloc`. -/
def kmalloc (s : Heap σ) (size : Nat) : Option (Nat × Heap σ) :=
  if size = 0 then some (0, s) else heapAllocateUnlocked ops s size

/-- `kcalloc`. -/
def kcalloc (s : Heap σ) (count size : Nat) : Option (Nat × Heap σ) :=
  if count = 0 ∨ size = 0 then some (0, s)
  else if count > sizeMax / size then some (0, s)
  else
    match kmalloc ops s (count * size) with
    | none => none
    | some (pointer, s) =>
      if pointer = 0 then some (0, s)
      else some (pointer, { s with mem := fill s.mem pointer (count * size) 0 })

/-- `krealloc`. -/
def krealloc (s : Heap σ) (pointer newSize : Nat) : Option (Nat × Heap σ) :=
  heapReallocateUnlocked ops s pointer newSize

/-- `kfree`. -/
def kfree (s : Heap σ) (pointer : Nat) : Heap σ :=
  if pointer = 0 then s else heapFreeUnlocked s pointer

end MeatySkeleton.Memory
