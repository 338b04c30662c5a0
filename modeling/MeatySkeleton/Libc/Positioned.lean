import MeatySkeleton.Libc.Stream

/-!
# Unbuffered positioned files

What a stream is for: a file with one position. Every byte is transferred at once, a byte
that is pushed back moves the position back by one and is the next to be read, and in append
mode every byte is written at the end of the file.
-/

namespace MeatySkeleton.Libc

open Lib

structure Positioned where
  contents : List UInt8
  position : Int
  pushed : Option UInt8
  append : Bool
  readable : Bool
  writable : Bool
  deriving DecidableEq

namespace Positioned

/-- The next byte. -/
def getByte (p : Positioned) : Option (UInt8 × Positioned) :=
  match p.pushed with
  | some b => some (b, { p with position := p.position + 1, pushed := none })
  | none =>
    p.contents[p.position.toNat]?.map fun b => (b, { p with position := p.position + 1 })

def getBytes : Nat → Positioned → List UInt8 × Positioned
  | 0, p => ([], p)
  | n + 1, p =>
    match p.getByte with
    | none => ([], p)
    | some (b, p) => (b :: (getBytes n p).1, (getBytes n p).2)

def putByte (p : Positioned) (b : UInt8) : Positioned :=
  let position := if p.append then p.contents.length else p.position.toNat
  { p with contents := putAt p.contents position b, position := position + 1 }

def putBytes (p : Positioned) (bytes : List UInt8) : Positioned := bytes.foldl putByte p

/-- How many bytes a transfer of `nmemb` elements asks for; nothing for one that is empty
or does not fit `size_t`. -/
def requested (size nmemb : Nat) : Nat :=
  if size = 0 ∨ nmemb = 0 ∨ (2 ^ 32 - 1) / size < nmemb then 0 else size * nmemb

/-- The buffers that can be asked for: none at all, or one that has a size and a place. -/
def settable (mode : Option Buffering) (size : Nat) (block : Bool) : Bool :=
  match mode with
  | none => false
  | some mode => mode = .none || size != 0 && block

/-- The position as a result, if it fits `long`. -/
def tell (p : Positioned) : Int := if 0 ≤ p.position ∧ p.position ≤ longMax then p.position else -1

def step (p : Positioned) : Op → Outcome × Positioned
  | .fread size nmemb =>
    let n := if p.readable then requested size nmemb else 0
    let (bytes, p) := p.getBytes n
    (.read bytes (bytes.length / size), p)
  | .fwrite size nmemb data =>
    let n := if p.writable then requested size nmemb else 0
    (.value (if n = 0 then 0 else nmemb), p.putBytes (data.take n))
  | .fgetc =>
    match if p.readable then p.getByte else none with
    | some (b, p) => (.value b.toNat, p)
    | none => (.value eof, p)
  | .fputc c =>
    if p.writable then (.value (UInt8.ofInt c).toNat, p.putByte (UInt8.ofInt c))
    else (.value eof, p)
  | .ungetc c =>
    -- one byte of pushback
    if c = eof ∨ p.readable = false ∨ p.pushed.isSome then (.value eof, p)
    else
      (.value (UInt8.ofInt c).toNat,
        { p with position := p.position - 1, pushed := some (UInt8.ofInt c) })
  | .fseek offset whence =>
    match seekTo p.position p.contents.length offset whence with
    | none => (.value (-1), p)
    | some position => (.value 0, { p with position, pushed := none })
  | .ftell => (.value p.tell, p)
  | .fflush => (.flushed (if p.writable then 0 else eof) p.contents, p)
  | .setvbuf mode size block =>
    -- there is no buffer to set
    (.value (if p.writable ∧ settable mode size block then 0 else -1), p)

/-- The file of a mode at its start. -/
def opened (mode : List Char) (existing : Option (List UInt8)) : Option Positioned := do
  let flags ← fopenParseMode mode
  let file ← kernelFdOpen flags existing
  return ⟨file.contents, 0, none, flags.append, flags.read, flags.write⟩

end Positioned

end MeatySkeleton.Libc
