import MeatySkeleton.Fs.Descriptors
import MeatySkeleton.Lib.Effect
import MeatySkeleton.Libc.Stream

/-!
# `FILE` objects and what they hold

The stdio functions once more, now with all of a `FILE` and with the three things a stream of a
regular file holds: an entry of the descriptor table with its file object, the `FILE` itself, and
a buffer. The last two are blocks of the heap, which `kmalloc` hands out and `kfree` takes back;
`kfree` of a block that is not in use is a fault, and so is the use of a `FILE` that is gone.

A function that answers with a status fails here where that is `EOF`, `-1` or `NULL`; one that
answers with a count or a character never fails. `fgets`, `fprintf` and `fscanf` reach the stream
through `fgetc`, `ungetc` and `fputc` alone. The standard streams are not regular files.
-/

namespace MeatySkeleton.Libc.FileObjects

open Function Lib
open Effect (attempt crash)

variable {φ α : Type}

structure File where
  fd : Nat
  /-- `_IO_READ`. -/
  readable : Bool
  /-- `_IO_WRITE`. -/
  writable : Bool
  /-- `_IO_EOF`. -/
  endOfFile : Bool
  /-- `_IO_ERROR`. -/
  error : Bool
  /-- `_IO_BUFFER_OWNED`. -/
  bufferOwned : Bool
  pushback : Int
  hasPushback : Bool
  /-- Where the buffer is, if not `NULL`. -/
  writeBuffer : Option Nat
  writeBufferSize : Nat
  /-- The used part of the buffer. -/
  buffered : List UInt8
  bufferingMode : Buffering

/-- The buffer that `kfree` is called for. -/
def File.owned (file : File) : Option Nat := if file.bufferOwned then file.writeBuffer else none

structure Machine (φ : Type) where
  system : Fs.System φ
  /-- The `FILE` objects in the heap. -/
  streams : Nat → Option File
  /-- The buffers of `setvbuf` in the heap. -/
  buffers : Nat → Bool
  /-- Whether a `kernel_fd_write` has failed or taken nothing, ever. -/
  writeFailed : Bool

abbrev Stdio (φ α : Type) := Effect (Machine φ) α

namespace Stdio

/-- The `FILE` at an address. -/
def load (stream : Nat) : Stdio φ File := fun m =>
  match m.streams stream with
  | some file => .done file m
  | none => .fault

def store (stream : Nat) (file : File) : Stdio φ Unit :=
  .modify fun m => { m with streams := update m.streams stream (some file) }

/-- Set `_IO_ERROR`. -/
def setError (stream : Nat) : Stdio φ Unit := do
  let file ← load stream
  store stream { file with error := true }

/-- Set `_IO_ERROR` and fail. -/
def refuse (stream : Nat) : Stdio φ α := do
  setError stream
  Effect.fail

/-- A function of `fd.c`. -/
def kernel (call : Fs.System φ → Option (Option α × Fs.System φ)) : Stdio φ α := fun m =>
  match call m.system with
  | none => .fault
  | some (none, system) => .failed { m with system }
  | some (some a, system) => .done a { m with system }

/-- `kfree` of a `FILE`. -/
def freeStream (stream : Nat) : Stdio φ Unit := fun m =>
  match m.streams stream with
  | none => .fault
  | some _ => .done () { m with streams := update m.streams stream none }

/-- `kfree` of a buffer. -/
def freeBuffer (buffer : Nat) : Stdio φ Unit := fun m =>
  if m.buffers buffer then .done () { m with buffers := update m.buffers buffer false }
  else .fault

/-- `kmalloc` of a buffer; `block` is what it returns. -/
def allocBuffer (block : Option Nat) : Stdio φ Nat :=
  match block with
  | none => Effect.fail
  | some buffer => do
    Effect.modify fun m => { m with buffers := update m.buffers buffer true }
    pure buffer

/-- `kfree` of the buffer of a stream, if the library owns it. -/
def freeOwned (file : File) : Stdio φ Unit :=
  match file.owned with
  | some buffer => freeBuffer buffer
  | none => pure ()

end Stdio

open Stdio

section
variable (fs : Fs.FileSystem φ)

/-- `kernel_fd_close`, which reports whether there was something to close. -/
def kernelFdClose (fd : Nat) : Stdio φ Unit :=
  kernel fun s => (Fs.kernelFdClose fs s fd).map fun (closed, s) => (if closed then some () else none, s)

/-! ## Output -/

/-- The loops around `kernel_fd_write`: how many bytes were written when one failed, or all. -/
def writeAll (fd : Nat) : Nat → List UInt8 → Stdio φ Nat
  | _, [] => pure 0
  | 0, _ :: _ => crash
  | fuel + 1, b :: bytes => do
    let answer ← attempt (kernel fun s => Fs.kernelFdWrite fs s fd (b :: bytes))
    let written := answer.getD 0
    if written = 0 then do
      Effect.modify fun m => { m with writeFailed := true }
      pure 0
    else do
      let more ← writeAll fd fuel ((b :: bytes).drop written)
      pure (written + more)

def fflush (stream : Nat) : Stdio φ Unit := do
  let file ← load stream
  if file.writable = false then refuse stream
  else if file.buffered = [] then pure ()
  else do
    let written ← writeAll fs file.fd file.buffered.length file.buffered
    if written < file.buffered.length then refuse stream
    else store stream { file with buffered := [] }

/-- `fflush` under an `if`; whether all went well. -/
def flushIf (stream : Nat) (c : Prop) [Decidable c] : Stdio φ Bool :=
  if c then do
    let flushed ← attempt (fflush fs stream)
    pure flushed.isSome
  else pure true

/-- The loop of `fwrite` on a buffered stream: `consumed`, at the end or when a flush fails. -/
def fillBuffer (stream : Nat) : Nat → List UInt8 → Stdio φ Nat
  | _, [] => pure 0
  | 0, _ :: _ => crash
  | fuel + 1, c :: rest => do
    let file ← load stream
    let room ← flushIf fs stream (file.writeBufferSize - file.buffered.length = 0)
    if room = false then pure 0
    else do
      let file ← load stream
      if file.bufferingMode = .line then do
        let buffered := file.buffered ++ [c]
        store stream { file with buffered }
        let flushed ← flushIf fs stream (c = 10 ∨ buffered.length = file.writeBufferSize)
        if flushed = false then pure 1
        else do
          let more ← fillBuffer stream fuel rest
          pure (1 + more)
      else do
        let chunk := min (c :: rest).length (file.writeBufferSize - file.buffered.length)
        store stream { file with buffered := file.buffered ++ (c :: rest).take chunk }
        let more ← fillBuffer stream fuel ((c :: rest).drop chunk)
        pure (chunk + more)

/-- `fwrite`; `data` is the memory from `ptr` on, if that is not `NULL`. -/
def fwrite (stream : Nat) (data : Option (Nat → UInt8)) (size nmemb : Nat) : Stdio φ Nat :=
  if size = 0 ∨ nmemb = 0 then pure 0
  else match data with
    | none => do
      setError stream
      pure 0
    | some data => do
      let file ← load stream
      if file.writable = false ∨ (2 ^ 32 - 1) / size < nmemb then do
        setError stream
        pure 0
      else do
        let bytes := (List.range (size * nmemb)).map data
        if file.writeBuffer ≠ none ∧ file.writeBufferSize ≠ 0 then do
          let consumed ← fillBuffer fs stream bytes.length bytes
          pure (if consumed < bytes.length then consumed / size else nmemb)
        else do
          let consumed ← writeAll fs file.fd bytes.length bytes
          if consumed < bytes.length then do
            setError stream
            pure (consumed / size)
          else pure nmemb

def fputc (stream : Nat) (ic : Int) : Stdio φ Int := do
  let file ← load stream
  if file.writable = false then do
    setError stream
    pure eof
  else do
    let c := UInt8.ofInt ic
    let count ← fwrite fs stream (some fun _ => c) 1 1
    if count ≠ 1 then do
      setError stream
      pure eof
    else pure c.toNat

/-- The loop of `fputs`. -/
def putAll (stream : Nat) : List UInt8 → Stdio φ Int
  | [] => pure 0
  | c :: rest => do
    let result ← fputc fs stream c.toNat
    if result = eof then pure eof else putAll stream rest

/-- `fputs`; `string` has no NUL, and may be `NULL`. -/
def fputs (stream : Nat) (string : Option (List UInt8)) : Stdio φ Int :=
  match string with
  | none => do
    setError stream
    pure eof
  | some string => putAll fs stream string

/-! ## Input -/

def fgetc (stream : Nat) : Stdio φ Int := do
  let file ← load stream
  if file.readable = false then do
    setError stream
    pure eof
  else if file.hasPushback then do
    store stream { file with hasPushback := false }
    pure file.pushback
  else do
    let answer ← attempt (kernel fun s => Fs.kernelFdRead fs s file.fd 1)
    match answer with
    | none => do
      setError stream
      pure eof
    | some [] => do
      store stream { file with endOfFile := true }
      pure eof
    | some (c :: _) => pure c.toNat

/-- `fread` into memory that is not `NULL`: what it stores there and its result. -/
def fread (stream : Nat) (size nmemb : Nat) : Stdio φ (List UInt8 × Nat) :=
  if size = 0 ∨ nmemb = 0 then pure ([], 0)
  else do
    let file ← load stream
    if file.readable = false ∨ (2 ^ 32 - 1) / size < nmemb then do
      setError stream
      pure ([], 0)
    else do
      let pushed := if file.hasPushback then [UInt8.ofInt file.pushback] else []
      store stream { file with hasPushback := false }
      if pushed.length = size * nmemb then pure (pushed, pushed.length / size)
      else do
        let remaining := size * nmemb - pushed.length
        let answer ← attempt (kernel fun s => Fs.kernelFdRead fs s file.fd remaining)
        match answer with
        | none => do
          setError stream
          pure (pushed, pushed.length / size)
        | some bytes =>
          if remaining < bytes.length then do
            setError stream
            pure (pushed, pushed.length / size)
          else do
            .when (bytes.length < remaining)
              (store stream { file with hasPushback := false, endOfFile := true })
            pure (pushed ++ bytes, (pushed ++ bytes).length / size)

def ungetc (stream : Nat) (c : Int) : Stdio φ Int :=
  if c = eof then pure eof
  else do
    let file ← load stream
    if file.readable = false then do
      setError stream
      pure eof
    else if file.hasPushback then pure eof
    else do
      store stream { file with pushback := c, hasPushback := true, endOfFile := false }
      pure c

/-- The loop of `fgets`: the characters it stores before it ends. -/
def getLine (stream : Nat) : Nat → Stdio φ (List UInt8)
  | 0 => pure []
  | room + 1 => do
    let c ← fgetc fs stream
    if c = eof then pure []
    else if c = 10 then pure [10]
    else do
      let line ← getLine stream room
      pure (UInt8.ofInt c :: line)

/-- `fgets` into memory that is not `NULL`: the characters before the NUL. -/
def fgets (stream : Nat) (size : Int) : Stdio φ (List UInt8) :=
  if size ≤ 0 then Effect.fail
  else do
    let line ← getLine fs stream (size - 1).toNat
    if 1 < size ∧ line = [] then Effect.fail else pure line

/-! ## Positions and indicators -/

def kernelWhence : Whence → Fs.Whence
  | .set => .set
  | .cur => .cur
  | .fromEnd => .end
  | .other => .other

section

variable (stream : Nat)

def fseek (offset : Int) (whence : Whence) : Stdio φ Unit := do
  let file ← load stream
  if whence = .other then refuse stream
  else do
    let offset := if whence = .cur ∧ file.hasPushback then offset - 1 else offset
    .when (file.writable ∧ file.buffered ≠ []) (fflush fs stream)
    let answer ← attempt
      (kernel fun s => Fs.kernelFdSeek fs s file.fd offset (kernelWhence whence))
    match answer with
    | none => refuse stream
    | some _ => do
      let file ← load stream
      store stream { file with hasPushback := false, pushback := 0, endOfFile := false }

def ftell : Stdio φ Nat := do
  let file ← load stream
  let answer ← attempt (kernel fun s => Fs.kernelFdSeek fs s file.fd 0 .cur)
  match answer with
  | none => refuse stream
  | some pos =>
    if (longMax + 2 ^ 32 - pos) % 2 ^ 32 < file.buffered.length then refuse stream
    else do
      let pos := (pos + file.buffered.length) % 2 ^ 32
      if file.hasPushback ∧ pos = 0 then refuse stream
      else do
        let pos := if file.hasPushback then pos - 1 else pos
        if longMax < pos then refuse stream else pure pos

def clearerr : Stdio φ Unit := do
  let file ← load stream
  store stream { file with endOfFile := false, error := false }

def rewind : Stdio φ Unit := do
  let sought ← attempt (fseek fs stream 0 .set)
  .when (sought.isSome) (clearerr stream)

def feof : Stdio φ Bool := do
  let file ← load stream
  pure file.endOfFile

def ferror : Stdio φ Bool := do
  let file ← load stream
  pure file.error

end

/-! ## Buffers -/

/-- The storage `setvbuf` prepares, and whether the library owns it. -/
def prepareBuffer (buffer : Option Nat) (mode : Buffering) (block : Option Nat) :
    Stdio φ (Option Nat × Bool) :=
  if mode = .none then pure (none, false)
  else match buffer with
    | some buffer => pure (some buffer, false)
    | none => do
      let buffer ← allocBuffer block
      pure (some buffer, true)

/-- `setvbuf`; no `mode` is one that it does not know. -/
def setvbuf (stream : Nat) (buffer : Option Nat) (mode : Option Buffering) (size : Nat)
    (block : Option Nat) : Stdio φ Unit := do
  let file ← load stream
  if file.writable = false then Effect.fail
  else match mode with
    | none => Effect.fail
    | some mode =>
      if mode ≠ .none ∧ size = 0 then Effect.fail
      else do
        .when (file.buffered ≠ []) (fflush fs stream)
        let (writeBuffer, bufferOwned) ← prepareBuffer buffer mode block
        let file ← load stream
        freeOwned file
        store stream
          { file with
            bufferOwned
            writeBuffer
            writeBufferSize := if mode = .none then 0 else size
            buffered := []
            bufferingMode := mode }

/-! ## Opening and closing -/

/-- The flags of `kernel_fd_open`. -/
def kernelFlags (flags : ModeFlags) : Fs.OpenFlags :=
  (if flags.read then Fs.kernelFdReadFlag else 0#32) |||
  (if flags.write then Fs.kernelFdWriteFlag else 0#32) |||
  (if flags.create then Fs.kernelFdCreateFlag else 0#32) |||
  (if flags.truncate then Fs.kernelFdTruncFlag else 0#32) |||
  (if flags.append then Fs.kernelFdAppendFlag else 0#32)

/-- What `kmalloc` returns for the file object, the `FILE` and its buffer. -/
structure Blocks where
  object : Option Nat
  stream : Option Nat
  buffer : Option Nat

/-- A stream as `fopen` makes it. -/
def newFile (fd : Nat) (flags : ModeFlags) : File :=
  { fd
    readable := flags.read
    writable := flags.write
    endOfFile := false
    error := false
    bufferOwned := false
    pushback := 0
    hasPushback := false
    writeBuffer := none
    writeBufferSize := 0
    buffered := []
    bufferingMode := .none }

/-- `fopen`: where the new stream is. -/
def fopen (path : String) (mode : List Char) (blocks : Blocks) : Stdio φ Nat :=
  match fopenParseMode mode with
  | none => Effect.fail
  | some flags => do
    let fd ← kernel fun s => Fs.kernelFdOpen fs s path (kernelFlags flags) blocks.object
    match blocks.stream with
    | none => do
      kernelFdClose fs fd
      Effect.fail
    | some stream => do
      store stream (newFile fd flags)
      if flags.write then do
        let buffered ← attempt (setvbuf fs stream none (some .full) bufsiz blocks.buffer)
        if buffered.isSome then pure stream
        else do
          let _ ← attempt (kernelFdClose fs fd)
          freeStream stream
          Effect.fail
      else pure stream

end

/-! ## Calls -/

inductive Op where
  | fread (size nmemb : Nat)
  | fwrite (data : Option (Nat → UInt8)) (size nmemb : Nat)
  | fgetc
  | fputc (c : Int)
  | ungetc (c : Int)
  | fgets (size : Int)
  | fputs (string : Option (List UInt8))
  | fseek (offset : Int) (whence : Whence)
  | ftell
  | rewind
  | clearerr
  | feof
  | ferror
  | fflush
  | setvbuf (buffer : Option Nat) (mode : Option Buffering) (size : Nat) (block : Option Nat)

/-- A call on a stream, with its result left out. -/
def call (fs : Fs.FileSystem φ) (stream : Nat) : Op → Stdio φ Unit
  | .fread size nmemb => do let _ ← fread fs stream size nmemb
  | .fwrite data size nmemb => do let _ ← fwrite fs stream data size nmemb
  | .fgetc => do let _ ← fgetc fs stream
  | .fputc c => do let _ ← fputc fs stream c
  | .ungetc c => do let _ ← ungetc stream c
  | .fgets size => do let _ ← fgets fs stream size
  | .fputs string => do let _ ← fputs fs stream string
  | .fseek offset whence => fseek fs stream offset whence
  | .ftell => do let _ ← ftell fs stream
  | .rewind => rewind fs stream
  | .clearerr => clearerr stream
  | .feof => do let _ ← feof stream
  | .ferror => do let _ ← ferror stream
  | .fflush => fflush fs stream
  | .setvbuf buffer mode size block => setvbuf fs stream buffer mode size block

/-- The machine after a call, unless that faults. -/
def step (fs : Fs.FileSystem φ) (stream : Nat) (m : Machine φ) (op : Op) : Option (Machine φ) :=
  match call fs stream op m with
  | .done () m => some m
  | .failed m => some m
  | .fault => none

/-- The block `kmalloc` returns for a call is not in use. -/
def Fresh (m : Machine φ) : Op → Prop
  | .setvbuf _ _ _ block => ∀ buffer, block = some buffer → m.buffers buffer = false
  | _ => True

end MeatySkeleton.Libc.FileObjects
