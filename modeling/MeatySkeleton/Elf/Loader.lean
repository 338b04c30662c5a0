import MeatySkeleton.Lib.Words
import MeatySkeleton.Paging.AddressMap

/-!
# The ELF loader of `elf.c`

`elf_load_user_image` reads the file and the arguments, which are its own, and
otherwise acts on what it shares with the rest of the kernel: the frame
allocator, the page tables, and the scratch page through which it fills frames.
It is therefore modelled by the list of steps it takes on these. A step that
fails ends the load with `false` and its clean-up; a test of the file or the
arguments that fails is the step `reject`. Preemption can fall between any two
steps; `memset` and `memcpy` take one for each byte.
-/

namespace MeatySkeleton.Elf

open Lib Paging

abbrev Byte := BitVec 8

/-- `file_data` and `file_size`. -/
structure File where
  bytes : Nat → Byte
  size : Nat

def File.u8 (f : File) (offset : Nat) : Nat := (f.bytes offset).toNat

def File.u16 (f : File) (offset : Nat) : Nat := f.u8 offset + 2 ^ 8 * f.u8 (offset + 1)

def File.u32 (f : File) (offset : Nat) : Nat := f.u16 offset + 2 ^ 16 * f.u16 (offset + 2)

def elfUserLimit : Nat := 0xC0000000
def elfUserMaxArgs : Nat := 16
def elfUserMaxArgLength : Nat := 256

/-! ## Steps -/

inductive Step where
  /-- The test that the kernel's directory is active; the loader halts if the last
  one fails. -/
  | kernelDirectoryActive (halts : Bool)
  /-- `frame = pmm_allocate_frame()`. -/
  | allocateFrame
  /-- `paging_map_page` of the scratch address for `frame`. -/
  | mapScratch
  /-- One byte written through the scratch address. -/
  | writeByte (offset : Nat) (b : Byte)
  /-- One round of the copy loop of `paging_create_user_directory`. -/
  | shareEntry (i : Nat)
  /-- The recursive entry of a new directory. -/
  | setRecursiveEntry
  /-- `paging_unmap_page` of the scratch address; the loader halts if it fails. -/
  | unmapScratch (halts : Bool)
  /-- `*directory_physical = frame`. -/
  | adoptDirectory
  /-- `paging_map_page_in_directory` of `frame`, which is the top stack frame if `top`. -/
  | enterPage (virtualPage : Nat) (flags : Word) (top : Bool)
  /-- `paging_map_page` of the scratch address for the top stack frame. -/
  | mapTopFrame
  | reject

def memset (value : Byte) (size : Nat) : List Step :=
  (List.range size).map fun i => .writeByte i value

def memcpy (destination : Nat) (source : Nat → Byte) (size : Nat) : List Step :=
  (List.range size).map fun i => .writeByte (destination + i) (source i)

/-- `paging_create_user_directory`. -/
def pagingCreateUserDirectory : List Step :=
  [.allocateFrame, .mapScratch] ++ memset 0 pageSize ++ (List.range 1024).map .shareEntry ++
    [.setRecursiveEntry, .unmapScratch false, .adoptDirectory]

/-! ## Segments -/

/-- The fields of a program header the loader reads. -/
structure ProgramHeader where
  type : Nat
  offset : Nat
  virtualAddress : Nat
  fileSize : Nat
  memorySize : Nat
  flags : Nat
  alignment : Nat

def programHeader (f : File) (offset : Nat) : ProgramHeader where
  type := f.u32 offset
  offset := f.u32 (offset + 4)
  virtualAddress := f.u32 (offset + 8)
  fileSize := f.u32 (offset + 16)
  memorySize := f.u32 (offset + 20)
  flags := f.u32 (offset + 24)
  alignment := f.u32 (offset + 28)

def ProgramHeader.executable (s : ProgramHeader) : Bool := s.flags % 2 == 1
def ProgramHeader.writable (s : ProgramHeader) : Bool := s.flags / 2 % 2 == 1

def ProgramHeader.memoryEnd (s : ProgramHeader) : Nat := s.virtualAddress + s.memorySize

def fileRangeValid (offset length fileSize : Nat) : Bool :=
  offset ≤ fileSize && length ≤ fileSize - offset

def pageAlignDown (address : Nat) : Nat := address - address % pageSize

/-- The permissions of a segment's pages. -/
def ProgramHeader.mappingFlags (s : ProgramHeader) : Word :=
  if s.writable then pageUser ||| pageWritable else pageUser

/-- The part of `populate_segment_page` that copies from the file. -/
def copySegmentPage (f : File) (s : ProgramHeader) (virtualPage : Nat) : List Step :=
  let copyStart := max virtualPage s.virtualAddress
  let copyEnd := min (virtualPage + pageSize) (s.virtualAddress + s.fileSize)
  if copyStart < copyEnd then
    memcpy (copyStart - virtualPage) (fun i => f.bytes (s.offset + (copyStart - s.virtualAddress) + i))
      (copyEnd - copyStart)
  else []

/-- `populate_segment_page`. -/
def populateSegmentPage (f : File) (s : ProgramHeader) (virtualPage : Nat) : List Step :=
  [.allocateFrame, .mapScratch] ++ memset 0 pageSize ++ copySegmentPage f s virtualPage ++
    [.unmapScratch true, .enterPage virtualPage s.mappingFlags false]

/-- The tests of `load_segment`. -/
def ProgramHeader.accepted (s : ProgramHeader) (fileSize : Nat) : Bool :=
  s.fileSize ≤ s.memorySize && fileRangeValid s.offset s.fileSize fileSize &&
  s.virtualAddress != 0 && s.virtualAddress < s.memoryEnd && s.memoryEnd ≤ elfUserLimit &&
  (s.alignment ≤ 1 || (s.alignment &&& (s.alignment - 1) == 0 &&
    s.offset &&& (s.alignment - 1) == s.virtualAddress &&& (s.alignment - 1)))

/-- The pages a segment reaches, in order. -/
def ProgramHeader.pages (s : ProgramHeader) : List Nat :=
  let firstPage := pageAlignDown s.virtualAddress
  let finalPageEnd := pageAlignDown (s.memoryEnd + (pageSize - 1))
  (List.range ((finalPageEnd - firstPage) / pageSize)).map fun i => firstPage + i * pageSize

/-- `load_segment`. -/
def loadSegment (f : File) (s : ProgramHeader) : List Step :=
  if s.memorySize = 0 then []
  else if s.accepted f.size = false then [.reject]
  else s.pages.flatMap (populateSegmentPage f s)

/-! ## The stack -/

/-- `bounded_string_length`. -/
def boundedStringLength (string : Nat → Byte) (maximum : Nat) : Option Nat :=
  (List.range maximum).find? fun i => string i == 0#8

def stackPages (stackAddress stackTop : Nat) : List Nat :=
  (List.range ((stackTop - stackAddress) / pageSize)).map fun i => stackAddress + i * pageSize

/-- One page of the loop over the stack pages. -/
def populateStackPage (topStackPage virtualPage : Nat) : List Step :=
  [.allocateFrame, .mapScratch] ++ memset 0 pageSize ++
    [.unmapScratch true, .enterPage virtualPage (pageUser ||| pageWritable)
      (virtualPage == topStackPage)]

/-- The strings are copied downward from `sp`, the last one first; `none` when they
do not fit, else the stack pointer and the addresses of the strings. -/
def copyArguments (bottom : Nat) : List ((Nat → Byte) × Nat) → Nat →
    List Step × Option (Nat × List Nat)
  | [], sp => ([], some (sp, []))
  | (string, length) :: rest, sp =>
    if sp < bottom + (length + 1) then ([.unmapScratch false, .reject], none)
    else
      let sp := sp - (length + 1)
      let (steps, result) := copyArguments bottom rest sp
      (memcpy (sp - bottom) string (length + 1) ++ steps,
        result.map fun (sp', addresses) => (sp', addresses ++ [sp]))

/-- The bytes of a word, as a 32-bit store writes them. -/
def wordBytes (w i : Nat) : Byte := byteAt (BitVec.ofNat 32 w) i

/-- The words of the startup table, stored one after the other. -/
def storeTable (offset : Nat) : List Nat → List Step
  | [] => []
  | w :: ws => memcpy offset (wordBytes w) 4 ++ storeTable (offset + 4) ws

/-- The initial stack pointer, and the steps that write the top stack page. -/
def writeArguments (stackTop : Nat) (strings : List ((Nat → Byte) × Nat)) :
    List Step × Option Nat :=
  let bottom := stackTop - pageSize
  match copyArguments bottom strings.reverse stackTop with
  | (steps, none) => (steps, none)
  | (steps, some (sp, addresses)) =>
    let sp := sp - sp % 4
    let tableSize := (strings.length + 2) * 4
    if sp < bottom + tableSize then (steps ++ [.unmapScratch false, .reject], none)
    else
      let sp := sp - tableSize
      (steps ++ storeTable (sp - bottom) (strings.length :: (addresses ++ [0])) ++
        [.unmapScratch true], some sp)

/-- The tests of the stack range in `map_user_stack`. -/
def stackAccepted (stackAddress stackTop : Nat) : Bool :=
  stackAddress % pageSize == 0 && stackTop % pageSize == 0 && stackAddress != 0 &&
  stackAddress < elfUserLimit && stackTop ≤ elfUserLimit && stackAddress < stackTop

/-- The arguments with their lengths, unless one is missing or too long. -/
def argumentStrings (argv : List (Option (Nat → Byte))) : Option (List ((Nat → Byte) × Nat)) :=
  argv.mapM fun argument => do
    let string ← argument
    let length ← boundedStringLength string elfUserMaxArgLength
    return (string, length)

/-- `map_user_stack`: its steps and, if they come to the end, the initial stack pointer. -/
def mapUserStack (stackAddress stackTop : Nat) (argv : List (Option (Nat → Byte))) :
    List Step × Option Nat :=
  if stackAccepted stackAddress stackTop = false then ([.reject], none)
  else if argv.length = 0 ∨ elfUserMaxArgs < argv.length then ([.reject], none)
  else
    match argumentStrings argv with
    | none => ([.reject], none)
    | some strings =>
      let (steps, sp) := writeArguments stackTop strings
      ((stackPages stackAddress stackTop).flatMap (populateStackPage (stackTop - pageSize)) ++
        [.mapTopFrame] ++ steps, sp)

/-! ## The image -/

def elfHeaderSize : Nat := 52
def elfProgramHeaderSize : Nat := 32

/-- The tests of the file header. -/
def headerAccepted (f : File) : Bool :=
  f.u8 0 == 0x7F && f.u8 1 == 0x45 && f.u8 2 == 0x4C && f.u8 3 == 0x46 &&
  f.u8 4 == 1 && f.u8 5 == 1 && f.u8 6 == 1 && f.u16 16 == 2 && f.u16 18 == 3 && f.u32 20 == 1 &&
  f.u16 40 == elfHeaderSize && f.u16 42 == elfProgramHeaderSize && f.u16 44 != 0 &&
  f.u32 28 ≤ f.size && f.u16 44 ≤ (f.size - f.u32 28) / elfProgramHeaderSize

def File.entry (f : File) : Nat := f.u32 24

/-- The program headers of a file, in the order of the table. -/
def File.programHeaders (f : File) : List ProgramHeader :=
  (List.range (f.u16 44)).map fun i => programHeader f (f.u32 28 + i * elfProgramHeaderSize)

/-- The program headers that make it into the image. -/
def File.segments (f : File) : List ProgramHeader :=
  f.programHeaders.filter fun s => s.type == 1 && s.memorySize != 0

def ProgramHeader.holdsEntry (s : ProgramHeader) (entry : Nat) : Bool :=
  s.executable && s.virtualAddress ≤ entry && entry < s.memoryEnd

/-- `elf_load_user_image`. -/
def elfLoadUserImage (f : File) (stackAddress stackTop : Nat) (argv : List (Option (Nat → Byte))) :
    List Step :=
  if f.size < elfHeaderSize then [.reject]
  else .kernelDirectoryActive false ::
    if headerAccepted f = false then [.reject]
    else pagingCreateUserDirectory ++ f.segments.flatMap (loadSegment f) ++
      (if f.segments = [] then [.reject]
      else if f.segments.any (ProgramHeader.holdsEntry · f.entry) = false then [.reject]
      else (mapUserStack stackAddress stackTop argv).1 ++ [.kernelDirectoryActive true])

end MeatySkeleton.Elf
