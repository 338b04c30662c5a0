import Mathlib.Algebra.Group.Int.Defs
import Mathlib.Algebra.Group.Nat.Defs
import Mathlib.Data.List.Basic

/-!
# Byte files

A file as a list of bytes and an offset at which the next byte is transferred. In append
mode a byte is written at the end of the file, wherever the offset was. A byte written
behind the end leaves a gap of zeros. Longer transfers are made of single bytes, so that a
transfer in pieces is a transfer in one piece (`write_append`).
-/

namespace MeatySkeleton.Lib

structure ByteFile where
  contents : List UInt8
  offset : Nat
  append : Bool
  deriving DecidableEq

/-- The contents with one byte replaced or added. -/
def putAt (contents : List UInt8) (offset : Nat) (b : UInt8) : List UInt8 :=
  contents.take offset ++ List.replicate (offset - contents.length) 0 ++
    b :: contents.drop (offset + 1)

theorem putAt_length (contents : List UInt8) (offset : Nat) (b : UInt8) :
    (putAt contents offset b).length = max contents.length (offset + 1) := by
  simp only [putAt, List.length_append, List.length_take, List.length_replicate, List.length_cons,
    List.length_drop]
  omega

namespace ByteFile

def get (file : ByteFile) : Option (UInt8 × ByteFile) :=
  file.contents[file.offset]?.map fun b => (b, { file with offset := file.offset + 1 })

def put (file : ByteFile) (b : UInt8) : ByteFile :=
  let offset := if file.append then file.contents.length else file.offset
  { file with contents := putAt file.contents offset b, offset := offset + 1 }

/-- Up to `n` bytes, fewer at the end of the file. -/
def read : Nat → ByteFile → List UInt8 × ByteFile
  | 0, file => ([], file)
  | n + 1, file =>
    match file.get with
    | none => ([], file)
    | some (b, file) => (b :: (read n file).1, (read n file).2)

def write (file : ByteFile) (bytes : List UInt8) : ByteFile := bytes.foldl put file

variable {file : ByteFile} {bytes : List UInt8}

@[simp] theorem write_nil (file : ByteFile) : file.write [] = file := rfl

@[simp] theorem write_cons (file : ByteFile) (b : UInt8) (bytes : List UInt8) :
    file.write (b :: bytes) = (file.put b).write bytes := rfl

/-- Two transfers are one. -/
theorem write_append (file : ByteFile) (bytes more : List UInt8) :
    file.write (bytes ++ more) = (file.write bytes).write more := List.foldl_append

theorem append_write (file : ByteFile) (bytes : List UInt8) :
    (file.write bytes).append = file.append := by
  induction bytes generalizing file with
  | nil => rfl
  | cons b bytes ih =>
    rw [write_cons, ih]
    rfl

/-- A write moves the offset by what is written, unless it goes to the end first. -/
theorem offset_write (h : file.append = true → file.offset = file.contents.length) :
    (file.write bytes).offset = file.offset + bytes.length := by
  induction bytes generalizing file with
  | nil => rfl
  | cons b bytes ih =>
    have hput : (file.put b).offset = file.offset + 1 := by
      unfold put
      by_cases happend : file.append = true
      · rw [if_pos happend, h happend]
      · rw [if_neg happend]
    rw [write_cons, ih ?_, hput, List.length_cons]
    · omega
    · intro happend
      rw [hput]
      have hend := h happend
      show file.offset + 1 = (putAt file.contents (if file.append then _ else _) b).length
      rw [if_pos (show file.append = true from happend), putAt_length]
      omega

end ByteFile

end MeatySkeleton.Lib
