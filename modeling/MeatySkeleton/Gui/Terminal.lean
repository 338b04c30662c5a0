import MeatySkeleton.Lib.Ring

/-!
# The scrollback of a terminal session

The text of `terminal_session.c`: a ring of 1024 lines, the output column in the newest
line, and the scroll offset of the view. `Terminal` is the terminal it stands for: it
keeps every line since the last form feed, and has no view.

`Shows` ties the two together. It holds after every operation, so the ring is what the
last lines of the unbounded terminal are. Lines have numbers that are never used again,
and with them "the same lines stay in view" is a statement about two states (`ViewKept`).
-/

namespace MeatySkeleton.Gui

open Function Lib

/-! ## Session -/

def terminalColumns : Nat := 80
def terminalRows : Nat := 24
def terminalHistoryLines : Nat := 1024
/-- `GUI_TERMINAL_PAGE_SCROLL`. -/
def terminalPageScroll : Nat := terminalRows - 2

/-- The characters of a line; only the first 80 columns exist. -/
abbrev Line := Nat → UInt8

def blankLine : Line := fun _ => 0x20

structure Session where
  history : Nat → Line
  historyStart : Nat
  historyCount : Nat
  column : Nat
  scrollOffset : Nat

section

variable (s : Session)

def Session.logicalToPhysical (logicalLine : Nat) : Nat :=
  if s.historyCount ≤ logicalLine then 0
  else (s.historyStart + logicalLine) % terminalHistoryLines

def Session.activeLine : Nat :=
  if s.historyCount = 0 then 0 else s.logicalToPhysical (s.historyCount - 1)

def Session.setLine (physicalLine : Nat) (line : Line) : Session :=
  { s with history := update s.history physicalLine line }

def Session.clearPhysicalLine (physicalLine : Nat) : Session :=
  if terminalHistoryLines ≤ physicalLine then s else s.setLine physicalLine blankLine

def Session.maxScrollOffset : Nat :=
  if s.historyCount ≤ terminalRows then 0 else s.historyCount - terminalRows

def Session.clampScrollOffset : Session :=
  if s.maxScrollOffset < s.scrollOffset then { s with scrollOffset := s.maxScrollOffset } else s

def Session.resetHistory : Session :=
  let s := { s with historyStart := 0, historyCount := 1, column := 0, scrollOffset := 0 }
  s.clearPhysicalLine 0

/-- The first half of `gui_terminal_append_line_locked`: the ring. -/
def Session.pushLine : Session :=
  if s.historyCount < terminalHistoryLines then
    let physical := (s.historyStart + s.historyCount) % terminalHistoryLines
    let s := { s with historyCount := s.historyCount + 1 }
    s.clearPhysicalLine physical
  else
    let s := { s with historyStart := (s.historyStart + 1) % terminalHistoryLines }
    s.clearPhysicalLine s.activeLine

/-- `gui_terminal_append_line_locked`. -/
def Session.appendLine : Session :=
  let wasScrolled := s.scrollOffset ≠ 0
  let s := s.pushLine
  let s :=
    if wasScrolled ∧ s.scrollOffset < terminalHistoryLines then
      { s with scrollOffset := s.scrollOffset + 1 }
    else s
  s.clampScrollOffset

def Session.newline : Session := { s with column := 0 }.appendLine

/-- Write a character into the active line. -/
def Session.writeCell (column : Nat) (character : UInt8) : Session :=
  s.setLine s.activeLine (update (s.history s.activeLine) column character)

/-- `gui_terminal_putchar_locked` for all bytes but the tab. -/
def Session.putcharOther (character : UInt8) : Session :=
  if s.historyCount = 0 then s
  else if character = 0x07 then s
  else if character = 0x08 then
    if s.column = 0 then s
    else
      let s := { s with column := s.column - 1 }
      s.writeCell s.column 0x20
  else if character = 0x0A then s.newline
  else if character = 0x0B then
    let preservedColumn := s.column
    { s.appendLine with column := preservedColumn }
  else if character = 0x0C then s.resetHistory
  else if character = 0x0D then { s with column := 0 }
  else if character < 32 then s
  else
    let character := if 126 < character then 0x3F else character
    let s := s.writeCell s.column character
    let s := { s with column := s.column + 1 }
    if terminalColumns ≤ s.column then s.newline else s

end

/-- The `do … while` loop of a tab. -/
def Session.tabLoop : Nat → Session → Option Session
  | 0, _ => none
  | fuel + 1, s =>
    let s := s.putcharOther 0x20
    if s.column % 4 ≠ 0 then tabLoop fuel s else some s

/-- `gui_terminal_putchar_locked`. -/
def Session.putchar (fuel : Nat) (s : Session) (character : UInt8) : Option Session :=
  if s.historyCount = 0 then some s
  else if character = 0x09 then s.tabLoop fuel
  else some (s.putcharOther character)

def Session.scrollViewUp (s : Session) (lines : Nat) : Session :=
  if lines = 0 then s
  else
    let maximum := s.maxScrollOffset
    if s.scrollOffset < maximum then
      let remaining := maximum - s.scrollOffset
      { s with scrollOffset := s.scrollOffset + if lines < remaining then lines else remaining }
    else s

def Session.scrollViewDown (s : Session) (lines : Nat) : Session :=
  if lines = 0 then s
  else if s.scrollOffset ≤ lines then { s with scrollOffset := 0 }
  else { s with scrollOffset := s.scrollOffset - lines }

/-- What `gui_terminal_render` takes from the ring: how many rows, and what is in each. -/
def Session.visibleCount (s : Session) : Nat :=
  if s.historyCount < terminalRows then s.historyCount else terminalRows

def Session.firstLogical (s : Session) : Nat :=
  if terminalRows < s.historyCount then s.historyCount - terminalRows - s.scrollOffset else 0

def Session.visible (s : Session) (row : Nat) : Line :=
  s.history (s.logicalToPhysical (s.firstLogical + row))

/-- `gui_terminal_allocate`: cleared memory, then one empty line. -/
def Session.fresh : Session :=
  Session.resetHistory ⟨fun _ _ => 0, 0, 0, 0, 0⟩

inductive Op where
  | write (character : UInt8)
  | scrollUp (lines : Nat)
  | scrollDown (lines : Nat)
  /-- A key that goes to the shell: the view returns to the bottom. -/
  | snap
  | render

def Session.step (fuel : Nat) (s : Session) : Op → Option Session
  | .write character => s.putchar fuel character
  | .scrollUp lines => some (s.scrollViewUp lines)
  | .scrollDown lines => some (s.scrollViewDown lines)
  | .snap => some { s with scrollOffset := 0 }
  | .render => some s.clampScrollOffset

/-! ## The unbounded terminal -/

/-- All lines since the last form feed, the active one and those above it. -/
structure Terminal where
  /-- How many lines form feeds have dropped. -/
  base : Nat
  active : Line
  above : List Line
  column : Nat

/-- All lines, the newest one first. -/
def Terminal.lines (t : Terminal) : List Line := t.active :: t.above

def Terminal.appendLine (t : Terminal) : Terminal :=
  { t with active := blankLine, above := t.lines }

def Terminal.newline (t : Terminal) : Terminal := { t.appendLine with column := 0 }

/-- Print a character and move on, to a new line behind the last column. -/
def Terminal.print (t : Terminal) (character : UInt8) : Terminal :=
  let t := { t with active := update t.active t.column character, column := t.column + 1 }
  if t.column < terminalColumns then t else t.newline

def Terminal.feed (t : Terminal) (character : UInt8) : Terminal :=
  if character = 0x08 then
    if t.column = 0 then t
    else
      { t with
        active := update t.active (t.column - 1) 0x20
        column := t.column - 1 }
  else if character = 0x09 then Nat.iterate (·.print 0x20) (4 - t.column % 4) t
  else if character = 0x0A then t.newline
  else if character = 0x0B then t.appendLine
  else if character = 0x0C then ⟨t.base + t.lines.length, blankLine, [], 0⟩
  else if character = 0x0D then { t with column := 0 }
  else if character < 32 then t
  else t.print (if 126 < character then 0x3F else character)

def Terminal.fresh : Terminal := ⟨0, blankLine, [], 0⟩

def Terminal.step (t : Terminal) : Op → Terminal
  | .write character => t.feed character
  | _ => t

end MeatySkeleton.Gui
