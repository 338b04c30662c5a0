import Mathlib.Algebra.Group.Int.Defs
import Mathlib.Algebra.Group.Nat.Defs
import Mathlib.Data.List.Basic

/-!
# `vfprintf`

The formatted output of `printf.c`. The format is the characters before its NUL, so the terminator
is read where nothing is left, and a format that is read further has no answer (`none`). A
`va_list` is the words on the stack from where it points, and `memory` has the characters from an
address on, up to the next NUL.

`takes` says which calls of `fputc` succeed. The text of a floating-point conversion is a parameter
too (`floatText`), and so is the object that `%n` writes, which is left out.
-/

namespace MeatySkeleton.Libc.Printf

/-- The words of a `va_list` that are still to be read. -/
abbrev Args := Nat → UInt32

def Args.drop (args : Args) (n : Nat) : Args := fun i => args (i + n)

/-- A word as an `int`, and the same for other widths. -/
def signed (bits : Nat) (n : Nat) : Int := Int.bmod n (2 ^ bits)

/-- `va_arg(list, int)`. -/
def Args.int (args : Args) : Int := signed 32 (args 0).toNat

/-- `va_arg(list, unsigned long long)`. -/
def Args.double (args : Args) : Nat := (args 0).toNat + 2 ^ 32 * (args 1).toNat

/-! ## Numbers -/

/-- The characters of `digit`, and the base proper. -/
def digits : Nat → List Char × Nat
  | 16 => ("0123456789ABCDEF".toList, 16)
  | 17 => ("0123456789abcdef".toList, 16)
  | base => ("0123456789".toList, base)

/-- The loops that write the digits, of which the last one comes first. -/
def numeral (digit : List Char) (base : Nat) : Nat → Nat → List Char → List Char
  | 0, _, written => written
  | fuel + 1, value, written =>
    let written := digit.getD (value % base) '0' :: written
    if value / base = 0 then written else numeral digit base fuel (value / base) written

/-- The end of `__int_str` and `__uint_str`: padding, where a sign may stay in front of zeros. -/
def padded (b : List Char) (signFirst : Bool) (paddingNo : Nat) (justify zeroPad : Bool) :
    List Char :=
  let paddingNo := if 255 < paddingNo then 255 else paddingNo
  let padding := paddingNo - b.length
  if justify then b ++ List.replicate (min padding (255 - b.length)) ' '
  else
    let sign := if signFirst ∧ zeroPad ∧ (b.head? = some '-' ∨ b.head? = some '+' ∨ b.head? = some ' ')
      then b.take 1 else []
    let zeros := List.replicate padding (if zeroPad then '0' else ' ')
    (sign ++ zeros ++ b.drop sign.length).take 255

/-- `__int_str`. -/
def intStr (i : Int) (base : Nat) (plusSignIfNeeded spaceSignIfNeeded : Bool) (paddingNo : Nat)
    (justify zeroPad : Bool) : List Char :=
  let (digit, base) := digits base
  if base < 2 ∨ 16 < base then []
  else
    let sign := if i < 0 then ['-'] else if plusSignIfNeeded then ['+']
      else if spaceSignIfNeeded then [' '] else []
    let value := if i < 0 then (-(i + 1)).toNat + 1 else i.toNat
    padded (sign ++ numeral digit base (value + 1) value []) true paddingNo justify zeroPad

/-- `__uint_str`. -/
def uintStr (i : Nat) (base : Nat) (paddingNo : Nat) (justify zeroPad : Bool) : List Char :=
  let (digit, base) := digits base
  if base < 2 ∨ 16 < base then []
  else padded (numeral digit base (i + 1) i []) false paddingNo justify zeroPad

/-! ## What a format asks for -/

inductive Length where
  | none | hh | h | l | ll | j | z | t | L
  deriving DecidableEq

structure Flags where
  leftJustify : Bool
  plusSign : Bool
  altForm : Bool
  spaceNoSign : Bool
  zeroPad : Bool
  deriving DecidableEq

/-- A conversion up to its letter. -/
structure Spec where
  flags : Flags
  /-- `lengthSpec`. -/
  width : Nat
  /-- `precSpec`, if `precisionSpecified`. -/
  precision : Option Nat
  /-- The precision of the format, of which `precision` is what is left at 255. -/
  asked : Option Nat
  length : Length
  deriving DecidableEq

def parseFlags (flags : Flags) : List Char → Flags × List Char
  | '-' :: format => parseFlags { flags with leftJustify := true } format
  | '+' :: format => parseFlags { flags with plusSign := true } format
  | '#' :: format => parseFlags { flags with altForm := true } format
  | ' ' :: format => parseFlags { flags with spaceNoSign := true } format
  | '0' :: format => parseFlags { flags with zeroPad := true } format
  | format => (flags, format)

/-- `isdigit`. -/
def isdigit (c : Char) : Bool := '0' ≤ c && c ≤ '9'

def digitValue (c : Char) : Nat := c.toNat - '0'.toNat

/-- The digits of a width or a precision. -/
def parseNumber (n : Nat) : List Char → Nat × List Char
  | [] => (n, [])
  | c :: format =>
    if isdigit c then parseNumber (if n ≤ 25 then n * 10 + digitValue c else 255) format
    else (n, c :: format)

/-- What the digits at the head of a format are worth. -/
def written (format : List Char) : Nat :=
  (format.takeWhile isdigit).foldl (fun n c => n * 10 + digitValue c) 0

def atMost255 (n : Nat) : Nat := if 255 < n then 255 else n

/-- A width that is an argument, which may ask for justification too. -/
def widthArgument (flags : Flags) (lengthSpec : Int) : Nat × Flags :=
  if lengthSpec < 0 then
    (if lengthSpec = -2 ^ 31 then 255 else (-lengthSpec).toNat, { flags with leftJustify := true })
  else (lengthSpec.toNat, flags)

/-- The `*` of a width. -/
def parseWidthStar (flags : Flags) (args : Args) (n : Nat) :
    List Char → (Nat × Flags) × Args × List Char
  | '*' :: format => (widthArgument flags args.int, args.drop 1, format)
  | format => ((n, flags), args, format)

/-- A precision that is an argument. -/
def precisionArgument (precSpec : Int) : Option Nat :=
  if precSpec < 0 then none else some precSpec.toNat

/-- The `*` of a precision; `n` is what its digits came to, and `asked` what they were worth. -/
def parsePrecisionStar (args : Args) (n asked : Nat) :
    List Char → (Option Nat × Option Nat) × Args × List Char
  | '*' :: format =>
    ((precisionArgument args.int, precisionArgument args.int), args.drop 1, format)
  | format => ((some n, some asked), args, format)

def parsePrecision (args : Args) : List Char → (Option Nat × Option Nat) × Args × List Char
  | '.' :: format =>
    let (n, rest) := parseNumber 0 format
    let ((precision, asked), args, rest) := parsePrecisionStar args n (written format) rest
    ((precision.map atMost255, asked), args, rest)
  | format => ((none, none), args, format)

def parseLength : List Char → Length × List Char
  | 'h' :: 'h' :: format => (.hh, format)
  | 'h' :: format => (.h, format)
  | 'l' :: 'l' :: format => (.ll, format)
  | 'l' :: format => (.l, format)
  | 'j' :: format => (.j, format)
  | 'z' :: format => (.z, format)
  | 't' :: format => (.t, format)
  | 'L' :: format => (.L, format)
  | format => (.none, format)

/-- What comes between a `%` and its letter. -/
def parseSpec (args : Args) (format : List Char) : Spec × Args × List Char :=
  let (flags, format) := parseFlags ⟨false, false, false, false, false⟩ format
  let (n, format) := parseNumber 0 format
  let ((lengthSpec, flags), args, format) := parseWidthStar flags args n format
  let flags := if flags.leftJustify then { flags with zeroPad := false } else flags
  let ((precision, asked), args, format) := parsePrecision args format
  let (length, format) := parseLength format
  (⟨flags, atMost255 lengthSpec, precision, asked, length⟩, args, format)

/-! ## Conversions -/

/-- The bytes that were read of a string, where the format has a precision. -/
structure Read where
  asked : Nat
  count : Nat

structure Printer where
  args : Args
  /-- What `fputc` has taken. -/
  output : List Char
  /-- How often `fputc` was called. -/
  calls : Nat
  chars : Nat
  reads : List Read

section
variable (takes : Nat → Bool)

def displayCharacter (s : Printer) (c : Char) : Printer :=
  if takes s.calls then
    { s with output := s.output ++ [c], calls := s.calls + 1, chars := s.chars + 1 }
  else { s with calls := s.calls + 1 }

def displayString (s : Printer) (string : List Char) : Printer :=
  string.foldl (displayCharacter takes) s

def displayRepeatedCharacter (s : Printer) (c : Char) (amount : Nat) : Printer :=
  displayString takes s (List.replicate amount c)

/-- `displayPaddedFloat`. -/
def displayPaddedFloat (s : Printer) (text : List Char) (width : Nat) (leftJustify zeroPad : Bool) :
    Printer :=
  let padding := width - text.length
  if leftJustify then
    displayRepeatedCharacter takes (displayString takes s text) ' ' padding
  else
    let sign := if zeroPad ∧
        (text.head? = some '-' ∨ text.head? = some '+' ∨ text.head? = some ' ')
      then text.take 1 else []
    let s := displayString takes s sign
    let s := displayRepeatedCharacter takes s (if zeroPad then '0' else ' ') padding
    displayString takes s (text.drop sign.length)

/-- A field of spaces on the left or on the right of what `show` displays. -/
def displayField (s : Printer) (leftJustify : Bool) (padding : Nat) (content : List Char) : Printer :=
  let s := if leftJustify then s else displayRepeatedCharacter takes s ' ' padding
  let s := displayString takes s content
  if leftJustify then displayRepeatedCharacter takes s ' ' padding else s

/-- `%c`. -/
def convertCharacter (spec : Spec) (s : Printer) : Printer :=
  let character := Char.ofNat ((s.args 0).toNat % 256)
  let s := { s with args := s.args.drop 1 }
  let padding := if 1 < spec.width then spec.width - 1 else 0
  displayField takes s spec.flags.leftJustify padding [character]

/-- `%s`. -/
def convertString (memory : UInt32 → List Char) (spec : Spec) (s : Printer) : Printer :=
  let pointer := s.args 0
  let string := if pointer = 0 then "(null)".toList else memory pointer
  -- `strlen` reads the terminator too
  let reads := match spec.asked with
    | some asked => if pointer = 0 then [] else [⟨asked, string.length + 1⟩]
    | none => []
  let s := { s with args := s.args.drop 1, reads := s.reads ++ reads }
  let stringLength := match spec.precision with
    | some precSpec => if precSpec < string.length then precSpec else string.length
    | none => string.length
  displayField takes s spec.flags.leftJustify (spec.width - stringLength) (string.take stringLength)

/-- The argument of `%d`, if there is one, and how many words it has. -/
def intArgument (length : Length) (args : Args) : Option Int × Nat :=
  match length with
  | .none | .l | .z | .t => (some args.int, 1)
  | .hh => (some (signed 8 (args 0).toNat), 1)
  | .h => (some (signed 16 (args 0).toNat), 1)
  | .ll | .j => (some (signed 64 args.double), 2)
  | .L => (none, 0)

/-- `%d` and `%i`. -/
def convertInt (spec : Spec) (s : Printer) : Printer :=
  let zeroPad := if spec.precision.isSome then false else spec.flags.zeroPad
  let (integer, words) := intArgument spec.length s.args
  let s := { s with args := s.args.drop words }
  match integer with
  | none => s
  | some integer =>
    displayString takes s (intStr integer 10 spec.flags.plusSign spec.flags.spaceNoSign spec.width
      spec.flags.leftJustify zeroPad)

/-- The argument of `%u`, and how many words it has. -/
def uintArgument (length : Length) (args : Args) : Nat × Nat :=
  match length with
  | .none | .l | .z | .t => ((args 0).toNat, 1)
  | .hh => ((args 0).toNat % 2 ^ 8, 1)
  | .h => ((args 0).toNat % 2 ^ 16, 1)
  | .ll | .j => (args.double, 2)
  | .L => (0, 0)

def uintBase : Char → Nat
  | 'o' => 8
  | 'x' => 17
  | 'X' => 16
  | _ => 10

/-- `prefix`. -/
def alternate (altForm : Bool) (specifier : Char) (integer : Nat) : List Char :=
  if altForm ∧ integer ≠ 0 then
    match specifier with
    | 'x' => ['0', 'x']
    | 'X' => ['0', 'X']
    | 'o' => ['0']
    | _ => []
  else []

/-- The loop that takes the spaces at the end away. -/
def trimEnd (text : List Char) : List Char := (text.reverse.dropWhile (· = ' ')).reverse

/-- `%u`, `%o`, `%x` and `%X`. -/
def convertUint (spec : Spec) (specifier : Char) (s : Printer) : Printer :=
  let base := uintBase specifier
  let zeroPad := if spec.precision.isSome then false else spec.flags.zeroPad
  let (integer, words) := uintArgument spec.length s.args
  let s := { s with args := s.args.drop words }
  let lead := alternate spec.flags.altForm specifier integer
  let numberWidth := if 0 < lead.length ∧ lead.length ≤ spec.width then spec.width - lead.length
    else spec.width
  if 0 < lead.length ∧ zeroPad ∧ spec.flags.leftJustify = false then
    displayString takes (displayString takes s lead) (uintStr integer base numberWidth false true)
  else
    let text := uintStr integer base numberWidth spec.flags.leftJustify zeroPad
    if spec.flags.leftJustify = false then displayString takes (displayString takes s lead) text
    else
      let text := trimEnd text
      let s := displayString takes (displayString takes s lead) text
      displayRepeatedCharacter takes s ' ' (spec.width - (lead.length + text.length))

/-- `%p`. -/
def convertPointer (spec : Spec) (s : Printer) : Printer :=
  let value := (s.args 0).toNat
  let s := { s with args := s.args.drop 1 }
  let numberWidth := if 2 ≤ spec.width then spec.width - 2 else 0
  if spec.flags.zeroPad ∧ spec.flags.leftJustify = false then
    displayString takes (displayString takes s ['0', 'x']) (uintStr value 17 numberWidth false true)
  else
    let text := uintStr value 17 0 false false
    displayField takes s spec.flags.leftJustify (spec.width - text.length - 2) (['0', 'x'] ++ text)

/-- A conversion of a `double`, of two words, or a `long double`, of three. -/
def convertFloat (floatText : Spec → Char → Args → List Char) (spec : Spec) (specifier : Char)
    (s : Printer) : Printer :=
  let text := floatText spec specifier s.args
  let s := { s with args := s.args.drop (if spec.length = .L then 3 else 2) }
  displayPaddedFloat takes s text spec.width spec.flags.leftJustify spec.flags.zeroPad

/-- The `switch` on the letter of a conversion. -/
def convert (floatText : Spec → Char → Args → List Char) (memory : UInt32 → List Char) (spec : Spec)
    (specifier : Char) (s : Printer) : Printer :=
  match specifier with
  | '%' => displayCharacter takes s '%'
  | 'c' => convertCharacter takes spec s
  | 's' => convertString takes memory spec s
  | 'd' | 'i' => convertInt takes spec s
  | 'u' | 'o' | 'x' | 'X' => convertUint takes spec specifier s
  | 'p' => convertPointer takes spec s
  | 'n' => { s with args := s.args.drop (if spec.length = .L then 0 else 1) }
  | 'f' | 'F' | 'e' | 'E' | 'g' | 'G' | 'a' | 'A' => convertFloat takes floatText spec specifier s
  | _ => displayString takes s ['%', specifier]

/-- The loop of `vfprintf`. -/
def formatLoop (floatText : Spec → Char → Args → List Char) (memory : UInt32 → List Char) :
    Nat → List Char → Printer → Option Printer
  | _, [], s => some s
  | 0, _ :: _, _ => none
  | fuel + 1, c :: format, s =>
    if c ≠ '%' then formatLoop floatText memory fuel format (displayCharacter takes s c)
    else if format = [] then some (displayCharacter takes s '%')
    else
      let (spec, args, rest) := parseSpec s.args format
      match rest with
      | [] => none  -- the letter is the terminator, which `++i` then leaves behind
      | specifier :: rest =>
        formatLoop floatText memory fuel rest
          (convert takes floatText memory spec specifier { s with args })

/-- `vfprintf`: what it returns, and what it has done. -/
def vfprintf (floatText : Spec → Char → Args → List Char) (memory : UInt32 → List Char)
    (format : List Char) (args : Args) : Option (Nat × Printer) :=
  (formatLoop takes floatText memory format.length format ⟨args, [], 0, 0, []⟩).map fun s =>
    (s.chars, s)

end

end MeatySkeleton.Libc.Printf
