import Mathlib.Algebra.Group.Nat.Defs
import Mathlib.Data.List.Basic

/-!
# Application and link descriptors

`app_descriptor.c` and `link_descriptor.c` load small text files. The two differ in the name of
their section, in their keys with what is checked of a value, and in how long a file may be, so they
are one definition with these as its parameters (`Format`).

A file is read with system calls that may return less than they are asked for, or fail, and both as
often as they like (`Device.reads`). A text is the characters before its NUL; the parser writes into
its buffer only to end the parts that it has found.
-/

namespace MeatySkeleton.User

def byte (c : Char) : UInt8 := c.toNat.toUInt8

def bytes (text : String) : List UInt8 := text.toList.map byte

/-! ## Strings -/

/-- `app_is_space`. -/
def isSpace (c : UInt8) : Bool := c = byte ' ' || c = byte '\t' || c = byte '\r'

/-- `app_trim_left`. -/
def trimLeft (text : List UInt8) : List UInt8 := text.dropWhile isSpace

/-- `app_trim_right`. -/
def trimRight (text : List UInt8) : List UInt8 := (text.reverse.dropWhile isSpace).reverse

def trim (text : List UInt8) : List UInt8 := trimRight (trimLeft text)

/-- Whether `app_copy_string` has room. -/
def copyString (capacity : Nat) (source : List UInt8) : Bool := source.length + 1 ≤ capacity

/-- `app_path_valid`. -/
def appPathValid (path : List UInt8) : Bool :=
  path.head? = some (byte '/') && path.length ≠ 1

/-- `link_application_path_valid`. -/
def linkApplicationPathValid (path : List UInt8) : Bool :=
  appPathValid path && 5 ≤ path.length && path.drop (path.length - 4) = bytes ".app"

/-! ## Parsing -/

/-- A key, and what is checked of its value. -/
structure Key where
  name : List UInt8
  accepts : List UInt8 → Bool

structure Format where
  header : List UInt8
  keys : List Key
  fileMax : Nat
  distinct : (keys.map Key.name).Nodup

structure Parser where
  inSection : Bool
  sectionSeen : Bool
  /-- The values of the keys that have been seen. -/
  seen : List UInt8 → Option (List UInt8)

def Parser.empty : Parser := ⟨false, false, fun _ => none⟩

namespace Format

variable (f : Format)

/-- A key with its value. -/
def entry (p : Parser) (key value : List UInt8) : Option Parser :=
  match f.keys.find? fun k => k.name = key with
  | none => some p
  | some k =>
    if (p.seen k.name).isSome || !k.accepts value then none
    else some { p with seen := Function.update p.seen k.name (some value) }

/-- One line, unless it is refused. -/
def line (p : Parser) (line : List UInt8) : Option Parser :=
  let text := trim line
  match text.head? with
  | none => some p
  | some c =>
    if c = byte '#' ∨ c = byte ';' then some p
    else if c = byte '[' then
      if text = f.header then
        if p.sectionSeen then none else some { p with sectionSeen := true, inSection := true }
      else some { p with inSection := false }
    else if p.inSection = false then some p
    else
      match text.dropWhile (· ≠ byte '=') with
      | [] => none
      | _ :: after =>
        let key := trim (text.takeWhile (· ≠ byte '='))
        let value := trim after
        if key = [] ∨ value = [] then none else f.entry p key value

/-- What is required at the end. -/
def complete (p : Parser) : Bool := p.sectionSeen && f.keys.all fun k => (p.seen k.name).isSome

/-- The loop on the lines; a refused line leaves what was found before it. -/
def parseLoop : Nat → List UInt8 → Parser → Bool × Parser
  | 0, _, p => (false, p)
  | fuel + 1, cursor, p =>
    let rest := (cursor.dropWhile (· ≠ byte '\n')).drop 1
    match f.line p (cursor.takeWhile (· ≠ byte '\n')) with
    | none => (false, p)
    | some p => if rest = [] then (f.complete p, p) else parseLoop fuel rest p

def parse (contents : List UInt8) : Bool × Parser :=
  let text := contents.takeWhile (· ≠ 0)
  f.parseLoop (text.length + 1) text .empty

end Format

/-! ## Reading -/

/-- The file behind a path, and what becomes of the reads. -/
structure Device where
  opens : Bool
  contents : List UInt8
  /-- A read fails, or returns so many bytes at most, and one at least if there is one. -/
  reads : Nat → Option Nat

/-- A descriptor that was opened. -/
structure Session where
  position : Nat
  calls : Nat
  isOpen : Bool
  closes : Nat
  deriving DecidableEq

variable (d : Device)

/-- `user_read`: what it returns, and the bytes. -/
def userRead (s : Session) (count : Nat) : (Int × List UInt8) × Session :=
  if s.isOpen = false then ((-1, []), s)
  else
    match d.reads s.calls with
    | none => ((-1, []), { s with calls := s.calls + 1 })
    | some limit =>
      let bytes := (d.contents.drop s.position).take (min count (max limit 1))
      ((bytes.length, bytes),
        { s with calls := s.calls + 1, position := s.position + bytes.length })

/-- `user_close`. -/
def userClose (s : Session) : Int × Session :=
  (if s.isOpen then 0 else -1, { s with isOpen := false, closes := s.closes + 1 })

/-- The loop on the reads: the contents, unless the load ends here. -/
def readLoop (fileMax : Nat) : Nat → List UInt8 → Session → Option (List UInt8) × Session
  | 0, _, s => (none, s)
  | fuel + 1, contents, s =>
    if contents.length = fileMax then
      -- one more read, to tell a file that is full from one that is too long
      let ((extraRead, _), s) := userRead d s 1
      let s := (userClose s).2
      if extraRead ≠ 0 then (none, s) else (some contents, s)
    else
      let ((bytesRead, bytes), s) := userRead d s (fileMax - contents.length)
      if bytesRead < 0 then (none, (userClose s).2)
      else if bytesRead = 0 then (some contents, s)
      else if fileMax - contents.length < bytesRead then (none, (userClose s).2)
      else readLoop fileMax fuel (contents ++ bytes) s

/-- What a load returns, the descriptor it leaves, and how often the file was closed. -/
structure Loaded (Descriptor : Type) where
  status : Int
  descriptor : Descriptor
  closes : Nat

def Loaded.map {A B : Type} (g : A → B) (loaded : Loaded A) : Loaded B :=
  ⟨loaded.status, g loaded.descriptor, loaded.closes⟩

/-- What follows the loop: the file is closed, and its contents are parsed. -/
def Format.finish (f : Format) (contents : List UInt8) (s : Session) :
    Loaded (List UInt8 → Option (List UInt8)) :=
  let (closed, s) := userClose s
  if closed ≠ 0 then ⟨-1, fun _ => none, s.closes⟩
  else if contents = [] then ⟨-1, fun _ => none, s.closes⟩
  else
    let (parsed, p) := f.parse contents
    ⟨if parsed then 0 else -1, p.seen, s.closes⟩

/-- What the two loads have in common, with the values of the keys for a descriptor. -/
def Format.load (f : Format) : Loaded (List UInt8 → Option (List UInt8)) :=
  if d.opens = false then ⟨-1, fun _ => none, 0⟩
  else
    match readLoop d f.fileMax (f.fileMax + 2) [] ⟨0, 0, true, 0⟩ with
    | (none, s) => ⟨-1, fun _ => none, s.closes⟩
    | (some contents, s) => f.finish contents s

/-! ## The two formats -/

def appFormat : Format where
  header := bytes "[Application]"
  keys := [ ⟨bytes "Name", copyString 64⟩,
    ⟨bytes "Exec", fun value => appPathValid value && copyString 256 value⟩,
    ⟨bytes "Icon", fun value => appPathValid value && copyString 256 value⟩,
    ⟨bytes "Type", fun value => value = bytes "Application"⟩]
  fileMax := 1024
  distinct := by decide

def linkFormat : Format where
  header := bytes "[Link]"
  keys := [⟨bytes "Application", fun value => linkApplicationPathValid value && copyString 256 value⟩]
  fileMax := 512
  distinct := by decide

structure AppDescriptor where
  name : List UInt8
  executable : List UInt8
  icon : List UInt8
  deriving DecidableEq

structure LinkDescriptor where
  application : List UInt8
  deriving DecidableEq

/-- `app_descriptor_load`; a field without a value is empty. -/
def appDescriptorLoad : Loaded AppDescriptor :=
  (appFormat.load d).map fun found =>
    let field (key : String) := (found (bytes key)).getD []
    ⟨field "Name", field "Exec", field "Icon"⟩

/-- `link_descriptor_load`. -/
def linkDescriptorLoad : Loaded LinkDescriptor :=
  (linkFormat.load d).map fun found => ⟨(found (bytes "Application")).getD []⟩

end MeatySkeleton.User
