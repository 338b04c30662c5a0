import MeatySkeleton.Libc.Printf

/-!
# Formats as the C standard has them

A format of literal characters and conversions, piece by piece, and the text that the standard
specifies for it. Nothing here is translated from `printf.c`, other than the sizes of the types:
`int`, `long`, `size_t` and `ptrdiff_t` have 32 bits, `long long` and `intmax_t` 64.

For `%c` and `%s` the standard knows one length modifier, of wide characters, which this library
does not have.
-/

namespace MeatySkeleton.Libc.Printf

/-- A width or a precision as it stands in a format. -/
inductive Amount where
  | number (digits : List Char)
  | star

structure Directive where
  flags : List Char
  width : Option Amount
  precision : Option Amount
  length : Length
  specifier : Char

inductive Piece where
  | literal (c : Char)
  | conversion (d : Directive)

/-! ## How a format is written -/

def Amount.text : Amount → List Char
  | .number digits => digits
  | .star => ['*']

def Length.text : Length → List Char
  | .none => []
  | .hh => ['h', 'h']
  | .h => ['h']
  | .l => ['l']
  | .ll => ['l', 'l']
  | .j => ['j']
  | .z => ['z']
  | .t => ['t']
  | .L => ['L']

def Directive.widthText (d : Directive) : List Char := (d.width.map Amount.text).getD []

def Directive.precisionText (d : Directive) : List Char :=
  (d.precision.map fun p => '.' :: p.text).getD []

/-- A conversion without its `%`. -/
def Directive.text (d : Directive) : List Char :=
  d.flags ++ (d.widthText ++ (d.precisionText ++ (d.length.text ++ [d.specifier])))

def Piece.text : Piece → List Char
  | .literal c => [c]
  | .conversion d => '%' :: d.text

def formatOf (pieces : List Piece) : List Char := pieces.flatMap Piece.text

/-- The integer conversions. -/
def integral : List Char := ['d', 'i', 'u', 'o', 'x', 'X']

structure Directive.Valid (d : Directive) : Prop where
  flags : ∀ c ∈ d.flags, c ∈ ['-', '+', '#', ' ', '0']
  width : ∀ digits, d.width = some (.number digits) →
    digits ≠ [] ∧ digits.head? ≠ some '0' ∧ ∀ c ∈ digits, isdigit c = true
  precision : ∀ digits, d.precision = some (.number digits) → ∀ c ∈ digits, isdigit c = true
  letter : (d.specifier ∈ integral ∧ d.length ≠ .L) ∨
    (d.specifier ∈ ['c', 's', '%'] ∧ d.length = .none)

def Piece.Valid : Piece → Prop
  | .literal c => c ≠ '%'
  | .conversion d => d.Valid

/-! ## What it asks for -/

/-- A conversion whose width and precision are known. -/
structure Wanted where
  left : Bool
  plus : Bool
  space : Bool
  alternate : Bool
  zero : Bool
  width : Nat
  precision : Option Nat

/-- The width, whether it asks for justification on the left, and the arguments behind it. -/
def Directive.takeWidth (d : Directive) (args : Args) : (Nat × Bool) × Args :=
  match d.width with
  | none => ((0, false), args)
  | some (.number digits) => ((Nat.ofDigitChars 10 digits 0, false), args)
  | some .star => ((args.int.natAbs, args.int < 0), args.drop 1)

/-- The precision, where a negative one counts as none, and the arguments behind it. -/
def Directive.takePrecision (d : Directive) (args : Args) : Option Nat × Args :=
  match d.precision with
  | none => (none, args)
  | some (.number digits) => (some (Nat.ofDigitChars 10 digits 0), args)
  | some .star => (if args.int < 0 then none else some args.int.toNat, args.drop 1)

def Directive.wanted (d : Directive) (args : Args) : Wanted × Args :=
  let ((width, negative), args) := d.takeWidth args
  let (precision, args) := d.takePrecision args
  ({ left := d.flags.contains '-' || negative
     plus := d.flags.contains '+'
     space := d.flags.contains ' '
     alternate := d.flags.contains '#'
     zero := d.flags.contains '0'
     width
     precision }, args)

/-! ## The text it asks for -/

/-- The size of the type that a length modifier names. -/
def Length.bits : Length → Nat
  | .hh => 8
  | .h => 16
  | .ll | .j => 64
  | _ => 32

/-- How many words the argument of an integer conversion has. -/
def Length.words (length : Length) : Nat := if length.bits = 64 then 2 else 1

def Length.raw (length : Length) (args : Args) : Nat :=
  if length.bits = 64 then args.double else (args 0).toNat

/-- The argument of `%d`, converted to its type. -/
def Length.signedValue (length : Length) (args : Args) : Int :=
  Int.bmod (length.raw args) (2 ^ length.bits)

/-- The argument of `%u`, converted to its type. -/
def Length.unsignedValue (length : Length) (args : Args) : Nat :=
  length.raw args % 2 ^ length.bits

/-- `body` after `lead`, padded to a width: on the right, with zeros between the two, or on the
left. -/
def layout (left zero : Bool) (width : Nat) (lead body : List Char) : List Char :=
  let padding := width - (lead.length + body.length)
  if left then lead ++ body ++ List.replicate padding ' '
  else if zero then lead ++ List.replicate padding '0' ++ body
  else List.replicate padding ' ' ++ (lead ++ body)

/-- The digits of a number, at least as many as the precision says. -/
def numberDigits (base value : Nat) (precision : Option Nat) : List Char :=
  if precision = some 0 ∧ value = 0 then []
  else
    let digits := Nat.toDigits base value
    List.replicate (precision.getD 1 - digits.length) '0' ++ digits

section

variable (w : Wanted)

def Wanted.integerText (lead body : List Char) : List Char :=
  layout w.left (w.zero && w.precision.isNone) w.width lead body

/-- `%d` and `%i`. -/
def Wanted.signedText (value : Int) : List Char :=
  w.integerText
    (if value < 0 then ['-'] else if w.plus then ['+'] else if w.space then [' '] else [])
    (numberDigits 10 value.natAbs w.precision)

/-- `%o`: with `#` the first digit is a zero. -/
def Wanted.octalText (value : Nat) : List Char :=
  let body := numberDigits 8 value w.precision
  w.integerText [] (if w.alternate ∧ body.head? ≠ some '0' then '0' :: body else body)

/-- `%x` and `%X`, with the letter of the prefix. -/
def Wanted.hexText (letter : Char) (value : Nat) : List Char :=
  let body := numberDigits 16 value w.precision
  w.integerText (if w.alternate ∧ value ≠ 0 then ['0', letter] else [])
    (if letter = 'X' then body.map Char.toUpper else body)

/-- `%s`. -/
def Wanted.stringText (string : List Char) : List Char :=
  layout w.left false w.width []
    (match w.precision with
    | some precision => string.take precision
    | none => string)

/-- What the standard specifies for a conversion whose arguments come next. -/
def Wanted.text (memory : UInt32 → List Char) (length : Length) (specifier : Char)
    (args : Args) : List Char :=
  match specifier with
  | 'd' | 'i' => w.signedText (length.signedValue args)
  | 'u' => w.integerText [] (numberDigits 10 (length.unsignedValue args) w.precision)
  | 'o' => w.octalText (length.unsignedValue args)
  | 'x' | 'X' => w.hexText specifier (length.unsignedValue args)
  | 'c' => layout w.left false w.width [] [Char.ofNat ((args 0).toNat % 256)]
  | 's' => w.stringText (memory (args 0))
  | _ => ['%']

end

def Directive.argumentWords (d : Directive) : Nat :=
  if d.specifier ∈ integral then d.length.words else if d.specifier = '%' then 0 else 1

/-- What the standard specifies for a piece, and the arguments behind it. -/
def Piece.standard (memory : UInt32 → List Char) (p : Piece) (args : Args) : List Char × Args :=
  match p with
  | .literal c => ([c], args)
  | .conversion d =>
    let (w, args) := d.wanted args
    (w.text memory d.length d.specifier args, args.drop d.argumentWords)

/-- What the standard specifies for a format. -/
def standardText (memory : UInt32 → List Char) : List Piece → Args → List Char
  | [], _ => []
  | p :: pieces, args =>
    (p.standard memory args).1 ++ standardText memory pieces (p.standard memory args).2

/-- That the arguments of a piece are what it needs: a width up to 255, and a string. -/
def Piece.Fits (p : Piece) (args : Args) : Prop :=
  match p with
  | .literal _ => True
  | .conversion d => (d.wanted args).1.width ≤ 255 ∧
      (d.specifier = 's' → (d.wanted args).2 0 ≠ 0)

end MeatySkeleton.Libc.Printf
