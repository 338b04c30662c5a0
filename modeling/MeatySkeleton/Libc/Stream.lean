import MeatySkeleton.Lib.ByteFile

/-!
# `FILE` streams

The stdio functions of `libc/stdio` on a stream that `fopen` opened. The descriptor is a
byte file, and a `kernel_fd_write` of some bytes takes as many of them as `accepts` says,
so the loops around it are here; a descriptor that takes none would be an error, and the
functions then have no answer (`none`).

The end-of-file and error indicators are written by these functions and read by none of
them, so they are left out, and so is the ownership of the buffer. `write_buffer` is `NULL`
where `write_buffer_size` is zero. `size_t` and `long` have 32 bits.
-/

namespace MeatySkeleton.Libc

open Lib

/-- `EOF`. -/
def eof : Int := -1

/-- `BUFSIZ`. -/
def bufsiz : Nat := 1024

def longMax : Nat := 2 ^ 31 - 1

/-- `_IOFBF`, `_IOLBF` and `_IONBF`. -/
inductive Buffering where
  | full | line | none
  deriving DecidableEq

inductive Whence where
  | set | cur | fromEnd | other
  deriving DecidableEq

structure Stream where
  file : ByteFile
  /-- `_IO_READ`. -/
  readable : Bool
  /-- `_IO_WRITE`. -/
  writable : Bool
  pushback : Int
  hasPushback : Bool
  bufferSize : Nat
  /-- The used part of `write_buffer`. -/
  buffered : List UInt8
  buffering : Buffering
  deriving DecidableEq

/-- More bytes in `write_buffer`. -/
def Stream.buffer (s : Stream) (bytes : List UInt8) : Stream :=
  { s with buffered := s.buffered ++ bytes }

/-- The stream after a successful seek. -/
def Stream.moveTo (s : Stream) (position : Nat) : Stream :=
  { s with file := { s.file with offset := position }, pushback := 0, hasPushback := false }

/-- What `fread` takes from the pushback. -/
def Stream.pushed (s : Stream) : List UInt8 :=
  if s.hasPushback then [UInt8.ofInt s.pushback] else []

/-- The new offset `vfs_seek` computes, if it fits `size_t`. -/
def seekTo (position : Int) (size : Nat) (offset : Int) (whence : Whence) : Option Nat :=
  let base : Option Int := match whence with
    | .set => some 0
    | .cur => some position
    | .fromEnd => if 2 ^ 32 ≤ size then none else some size
    | .other => none
  match base with
  | none => none
  | some base =>
    if base + offset < 0 ∨ 2 ^ 32 ≤ base + offset then none else some (base + offset).toNat

section
variable (accepts : ByteFile → List UInt8 → Nat)

/-- The loops around `kernel_fd_write`. -/
def writeAll : Nat → ByteFile → List UInt8 → Option ByteFile
  | _, file, [] => some file
  | 0, _, _ :: _ => none
  | fuel + 1, file, b :: bytes =>
    let written := accepts file (b :: bytes)
    if written = 0 then none
    else writeAll fuel (file.write ((b :: bytes).take written)) ((b :: bytes).drop written)

/-- `fflush`. -/
def fflush (s : Stream) : Option (Int × Stream) :=
  if s.writable = false then some (eof, s)
  else if s.buffered = [] then some (0, s)
  else (writeAll accepts s.buffered.length s.file s.buffered).map fun file =>
    (0, { s with file, buffered := [] })

/-- The loop of `fwrite` on a buffered stream. -/
def fillBuffer : Nat → Stream → List UInt8 → Option Stream
  | _, s, [] => some s
  | 0, _, _ :: _ => none
  | fuel + 1, s, c :: rest =>
    (if s.bufferSize - s.buffered.length = 0 then (fflush accepts s).map Prod.snd
      else some s).bind fun s =>
    if s.buffering = .line then
      let s := s.buffer [c]
      if c = 10 ∨ s.buffered.length = s.bufferSize then
        (fflush accepts s).bind fun r => fillBuffer fuel r.2 rest
      else fillBuffer fuel s rest
    else
      let chunk := min (c :: rest).length (s.bufferSize - s.buffered.length)
      fillBuffer fuel (s.buffer ((c :: rest).take chunk)) ((c :: rest).drop chunk)

section

variable (s : Stream)

/-- `fwrite`; `data` is what lies at `ptr`. -/
def fwrite (size nmemb : Nat) (data : List UInt8) : Option (Nat × Stream) :=
  if size = 0 ∨ nmemb = 0 then some (0, s)
  else if s.writable = false then some (0, s)
  else if (2 ^ 32 - 1) / size < nmemb then some (0, s)
  else
    let data := data.take (size * nmemb)
    if s.bufferSize ≠ 0 then
      (fillBuffer accepts data.length s data).map fun s => (nmemb, s)
    else
      (writeAll accepts data.length s.file data).map fun file => (nmemb, { s with file })

/-- `fputc`. -/
def fputc (ic : Int) : Option (Int × Stream) :=
  let c := UInt8.ofInt ic
  if s.writable = false then some (eof, s)
  else (fwrite accepts s 1 1 [c]).map fun (count, s) =>
    if count ≠ 1 then (eof, s) else ((c.toNat : Int), s)

/-- `fgetc`. -/
def fgetc : Int × Stream :=
  if s.readable = false then (eof, s)
  else if s.hasPushback then (s.pushback, { s with hasPushback := false })
  else
    match s.file.read 1 with
    | (c :: _, file) => ((c.toNat : Int), { s with file })
    | ([], file) => (eof, { s with file })

/-- `fread`: the bytes it stores and its result. -/
def fread (size nmemb : Nat) : (List UInt8 × Nat) × Stream :=
  if size = 0 ∨ nmemb = 0 then (([], 0), s)
  else if s.readable = false then (([], 0), s)
  else if (2 ^ 32 - 1) / size < nmemb then (([], 0), s)
  else
    let total := size * nmemb
    let pushed := s.pushed
    let s := { s with hasPushback := false }
    if pushed.length = total then ((pushed, pushed.length / size), s)
    else
      let (bytes, file) := s.file.read (total - pushed.length)
      ((pushed ++ bytes, (pushed ++ bytes).length / size), { s with file })

/-- `ungetc`. -/
def ungetc (c : Int) : Int × Stream :=
  if c = eof then (eof, s)
  else if s.readable = false then (eof, s)
  else if s.hasPushback then (eof, s)
  else (c, { s with pushback := c, hasPushback := true })

/-- `fseek`. -/
def fseek (offset : Int) (whence : Whence) : Option (Int × Stream) :=
  if whence = .other then some (-1, s)
  else
    let offset := if whence = .cur ∧ s.hasPushback then offset - 1 else offset
    (if s.writable ∧ s.buffered ≠ [] then (fflush accepts s).map Prod.snd else some s).bind fun s =>
    match seekTo s.file.offset s.file.contents.length offset whence with
    | none => some (-1, s)
    | some position => some (0, s.moveTo position)

/-- `ftell`; the arithmetic is that of `size_t`. -/
def ftell : Int :=
  match seekTo s.file.offset s.file.contents.length 0 .cur with
  | none => -1
  | some pos =>
    if (longMax + 2 ^ 32 - pos) % 2 ^ 32 < s.buffered.length then -1
    else
      let pos := (pos + s.buffered.length) % 2 ^ 32
      if s.hasPushback ∧ pos = 0 then -1
      else
        let pos := if s.hasPushback then pos - 1 else pos
        if longMax < pos then -1 else (pos : Int)

/-- `setvbuf`; `block` says whether there is a buffer, the caller's or one from `kmalloc`. -/
def setvbuf (mode : Option Buffering) (size : Nat) (block : Bool) :
    Option (Int × Stream) :=
  if s.writable = false then some (-1, s)
  else
    match mode with
    | none => some (-1, s)
    | some mode =>
      if mode ≠ .none ∧ size = 0 then some (-1, s)
      else
        (if s.buffered ≠ [] then (fflush accepts s).map Prod.snd else some s).bind fun s =>
        if mode ≠ .none ∧ block = false then some (-1, s)
        else
          some (0,
            { s with
              bufferSize := if mode = .none then 0 else size
              buffered := []
              buffering := mode })

end

end

/-! ## Opening -/

/-- The flags of `fopen_parse_mode`. -/
structure ModeFlags where
  read : Bool
  write : Bool
  create : Bool
  truncate : Bool
  append : Bool
  deriving DecidableEq

/-- `fopen_parse_mode`. -/
def fopenParseMode : List Char → Option ModeFlags
  | ['r'] | ['r', 'b'] => some ⟨true, false, false, false, false⟩
  | ['r', '+'] | ['r', 'b', '+'] | ['r', '+', 'b'] => some ⟨true, true, false, false, false⟩
  | ['w'] | ['w', 'b'] => some ⟨false, true, true, true, false⟩
  | ['w', '+'] | ['w', 'b', '+'] | ['w', '+', 'b'] => some ⟨true, true, true, true, false⟩
  | ['a'] | ['a', 'b'] => some ⟨false, true, true, false, true⟩
  | ['a', '+'] | ['a', 'b', '+'] | ['a', '+', 'b'] => some ⟨true, true, true, false, true⟩
  | _ => none

/-- The file `kernel_fd_open` opens; `existing` are the contents of the file at the path. -/
def kernelFdOpen (flags : ModeFlags) (existing : Option (List UInt8)) : Option ByteFile :=
  match existing with
  | some contents => some ⟨if flags.truncate then [] else contents, 0, flags.append⟩
  | none => if flags.create then some ⟨[], 0, flags.append⟩ else none

/-- `fopen`; `block` says whether `kmalloc` finds room for the buffer. -/
def fopen (accepts : ByteFile → List UInt8 → Nat) (mode : List Char)
    (existing : Option (List UInt8)) (block : Bool) : Option Stream := do
  let flags ← fopenParseMode mode
  let file ← kernelFdOpen flags existing
  let s : Stream := ⟨file, flags.read, flags.write, 0, false, 0, [], .none⟩
  if flags.write then
    let (status, s) ← setvbuf accepts s (some .full) bufsiz block
    if status ≠ 0 then none else return s
  else return s

/-! ## Calls -/

inductive Op where
  | fread (size nmemb : Nat)
  | fwrite (size nmemb : Nat) (data : List UInt8)
  | fgetc
  | fputc (c : Int)
  | ungetc (c : Int)
  | fseek (offset : Int) (whence : Whence)
  | ftell
  | fflush
  | setvbuf (mode : Option Buffering) (size : Nat) (block : Bool)

/-- What a call shows: its result, the bytes it read, and after `fflush` the file. -/
inductive Outcome where
  | value (result : Int)
  | read (bytes : List UInt8) (count : Nat)
  | flushed (status : Int) (contents : List UInt8)
  deriving DecidableEq

def Stream.step (accepts : ByteFile → List UInt8 → Nat) (s : Stream) : Op → Option (Outcome × Stream)
  | .fread size nmemb =>
    let ((bytes, count), s) := fread s size nmemb
    some (.read bytes count, s)
  | .fwrite size nmemb data =>
    (Libc.fwrite accepts s size nmemb data).map fun (count, s) => (.value count, s)
  | .fgetc =>
    let (c, s) := fgetc s
    some (.value c, s)
  | .fputc c => (Libc.fputc accepts s c).map fun (result, s) => (.value result, s)
  | .ungetc c =>
    let (result, s) := ungetc s c
    some (.value result, s)
  | .fseek offset whence =>
    (Libc.fseek accepts s offset whence).map fun (status, s) => (.value status, s)
  | .ftell => some (.value (ftell s), s)
  | .fflush =>
    (Libc.fflush accepts s).map fun (status, s) => (.flushed status s.file.contents, s)
  | .setvbuf mode size block =>
    (Libc.setvbuf accepts s mode size block).map fun (status, s) => (.value status, s)

end MeatySkeleton.Libc
