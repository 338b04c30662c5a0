import MeatySkeleton.Libc.Printf
import MeatySkeleton.Libc.Stream

/-!
# `vfscanf`

The formatted input of `vfscanf.c`, on a stream with its one character of pushback. What is stored
through the pointers of the `va_list` is a list, one entry for each pointer. The loops on the input
have as much fuel as there are characters, and one more for the end; without fuel there is no answer
(`none`).

A format is the characters before its NUL. A field width is an `int`, and wraps around as it is
read.
-/

namespace MeatySkeleton.Libc

/-- The characters that are still to be read. -/
def Stream.remaining (s : Stream) : List Int :=
  if s.readable then
    (if s.hasPushback then [s.pushback] else []) ++
      (s.file.contents.drop s.file.offset).map fun b => (b.toNat : Int)
  else []

namespace Scanf

def code (c : Char) : Int := c.toNat

/-- `scan_is_space`. -/
def scanIsSpace (c : Int) : Bool :=
  c = code ' ' || c = code '\t' || c = 12 || c = code '\n' || c = code '\r' || c = 11

/-- `scan_digit_value`, where `none` is -1. -/
def scanDigitValue (c : Int) (base : Nat) : Option Nat :=
  let value :=
    if code '0' ≤ c ∧ c ≤ code '9' then some (c - code '0').toNat
    else if code 'a' ≤ c ∧ c ≤ code 'f' then some (c - code 'a' + 10).toNat
    else if code 'A' ≤ c ∧ c ≤ code 'F' then some (c - code 'A' + 10).toNat
    else none
  value.filter (· < base)

/-- The loops that skip white space: `EOF`, or 0 where another character is left. -/
def skipLoop : Nat → Stream → Option (Int × Stream)
  | 0, _ => none
  | fuel + 1, s =>
    let (c, s) := fgetc s
    if c = eof then some (eof, s)
    else if scanIsSpace c then skipLoop fuel s
    else some (0, (ungetc s c).2)

/-- `scan_skip_space`. -/
def scanSkipSpace (s : Stream) : Option (Int × Stream) := skipLoop (s.remaining.length + 1) s

/-- What an argument's pointer has been given. -/
inductive Stored where
  | int (value : Int)
  | unsigned (value : Nat)
  | characters (text : List Int)
  deriving DecidableEq

/-! ## Numbers -/

/-- The optional sign: whether it is a minus, and how many characters it has; `none` at the end of
the input. -/
def scanSign (width : Int) (s : Stream) : Option (Bool × Nat) × Stream :=
  if width = 0 ∨ 0 < width then
    let (c, s) := fgetc s
    if c = eof then (none, s)
    else if c = code '+' ∨ c = code '-' then (some (c = code '-', 1), s)
    else (some (false, 0), (ungetc s c).2)
  else (some (false, 0), s)

structure Number where
  value : Nat
  digits : Nat
  consumed : Nat
  deriving DecidableEq

/-- The loop on the digits. -/
def digitLoop (base : Nat) (width : Int) : Nat → Number → Stream → Option (Number × Stream)
  | 0, _, _ => none
  | fuel + 1, n, s =>
    if width = 0 ∨ n.consumed < width then
      let (c, s) := fgetc s
      if c = eof then some (n, s)
      else
        match scanDigitValue c base with
        | none => some (n, (ungetc s c).2)
        | some digit =>
          digitLoop base width fuel
            ⟨(n.value * base + digit) % 2 ^ 32, n.digits + 1, n.consumed + 1⟩ s
    else some (n, s)

/-- What a conversion returns, what it stores, and the stream. -/
abbrev Conversion := Option (Int × Option Stored × Stream)

/-- `scan_integer`. -/
def scanInteger (base : Nat) (isSigned : Bool) (width : Int) (s : Stream) : Conversion :=
  (scanSkipSpace s).bind fun (status, s) =>
  if status = eof then some (eof, none, s)
  else
    match scanSign width s with
    | (none, s) => some (eof, none, s)
    | (some (negative, consumed), s) =>
      (digitLoop base width (s.remaining.length + 1) ⟨0, 0, consumed⟩ s).map fun (n, s) =>
      if n.digits = 0 then (0, none, s)
      else
        let value := if negative then (2 ^ 32 - n.value) % 2 ^ 32 else n.value
        (1, some (if isSigned then .int (Printf.signed 32 value) else .unsigned value), s)

/-! ## Characters -/

/-- The loop of `scan_string`. -/
def stringLoop (width : Int) : Nat → List Int → Stream → Option (List Int × Stream)
  | 0, _, _ => none
  | fuel + 1, text, s =>
    if width = 0 ∨ text.length < width then
      let (c, s) := fgetc s
      if c = eof then some (text, s)
      else if scanIsSpace c then some (text, (ungetc s c).2)
      else stringLoop width fuel (text ++ [c]) s
    else some (text, s)

/-- `scan_string`. -/
def scanString (width : Int) (s : Stream) : Conversion :=
  (scanSkipSpace s).bind fun (status, s) =>
  if status = eof then some (eof, none, s)
  else
    (stringLoop width (s.remaining.length + 1) [] s).map fun (text, s) =>
    if text = [] then (0, none, s) else (1, some (.characters (text ++ [0])), s)

/-- The loop of `scan_characters`, and whether it has come to its end. -/
def charactersLoop : Nat → List Int → Stream → Bool × List Int × Stream
  | 0, text, s => (true, text, s)
  | wanted + 1, text, s =>
    let (c, s) := fgetc s
    if c = eof then (false, text, s) else charactersLoop wanted (text ++ [c]) s

/-- `scan_characters`. -/
def scanCharacters (width : Int) (s : Stream) : Conversion :=
  let wanted := if width = 0 then 1 else width
  match charactersLoop wanted.toNat [] s with
  | (true, text, s) => some (1, some (.characters text), s)
  | (false, text, s) => some (if text = [] then eof else 0, some (.characters text), s)

/-! ## Formats -/

/-- A character of the format that has to be in the input: whether it is, or `none` at the end of
the input. -/
def scanLiteral (f : Char) (s : Stream) : Option Bool × Stream :=
  let (c, s) := fgetc s
  if c = eof then (none, s)
  else if c ≠ code f then (some false, (ungetc s c).2)
  else (some true, s)

/-- The field width. -/
def parseWidth (width : Int) : List Char → Int × List Char
  | [] => (width, [])
  | f :: format =>
    if '0' ≤ f ∧ f ≤ '9' then
      parseWidth (Int.bmod (width * 10 + (code f - code '0')) (2 ^ 32)) format
    else (width, f :: format)

/-- The `switch` on the letter of a conversion. -/
def scanFunction : Char → Option (Int → Stream → Conversion)
  | 'd' => some (scanInteger 10 true)
  | 'u' => some (scanInteger 10 false)
  | 'x' => some (scanInteger 16 false)
  | 'c' => some scanCharacters
  | 's' => some scanString
  | _ => none

/-- What `vfscanf` returns at the end of the input. -/
def atEnd (assignments : Nat) : Int := if assignments = 0 then eof else assignments

/-- The loop of `vfscanf`. -/
def scanLoop : Nat → List Char → Nat → List Stored → Stream → Option (Int × List Stored × Stream)
  | _, [], assignments, stored, s => some (assignments, stored, s)
  | 0, _ :: _, _, _, _ => none
  | fuel + 1, f :: format, assignments, stored, s =>
    let literal (f : Char) (format : List Char) :=
      match scanLiteral f s with
      | (none, s) => some (atEnd assignments, stored, s)
      | (some false, s) => some ((assignments : Int), stored, s)
      | (some true, s) => scanLoop fuel format assignments stored s
    if scanIsSpace (code f) then
      (scanSkipSpace s).bind fun (_, s) =>
        scanLoop fuel (format.dropWhile fun f => scanIsSpace (code f)) assignments stored s
    else if f ≠ '%' then literal f format
    else
      match format with
      | [] => some (assignments, stored, s)
      | '%' :: format => literal '%' format
      | format =>
        match parseWidth 0 format with
        | (_, []) => some (assignments, stored, s)
        | (width, letter :: format) =>
          match scanFunction letter with
          | none => some (assignments, stored, s)
          | some scan =>
            (scan width s).bind fun (result, value, s) =>
            if result = eof then some (atEnd assignments, stored ++ value.toList, s)
            else if result = 0 then some (assignments, stored ++ value.toList, s)
            else scanLoop fuel format (assignments + 1) (stored ++ value.toList) s

/-- `vfscanf`: what it returns, what it stores, and the stream. -/
def vfscanf (s : Stream) (format : List Char) : Option (Int × List Stored × Stream) :=
  scanLoop format.length format 0 [] s

end Scanf

end MeatySkeleton.Libc
