import Mathlib.Algebra.Group.Nat.Defs
import Mathlib.Tactic.SplitIfs

/-!
# A text console

What a console is for: a grid of cells, a cursor in it and the colour of what is written next.
A byte is a control character or goes into the cell at the cursor, which then moves on; at the
end of the last row the grid scrolls up. Nothing here depends on how the cells are kept or shown.
-/

namespace MeatySkeleton.Console

structure Cell where
  character : UInt8
  color : UInt8
deriving DecidableEq

/-- `vga_entry_color`. -/
def vgaEntryColor (fg bg : UInt8) : UInt8 := fg ||| (bg <<< 4)

/-- Light grey on black. -/
def defaultColor : UInt8 := vgaEntryColor 7 0

/-- `TAB_WIDTH`. -/
def tabWidth : Nat := 4

structure Grid where
  width : Nat
  height : Nat
  row : Nat
  column : Nat
  color : UInt8
  /-- By row and column. -/
  cell : Nat → Nat → Cell

namespace Grid

/-- An empty grid with the cursor in its first cell. -/
def blank (width height : Nat) : Grid :=
  ⟨width, height, 0, 0, defaultColor, fun _ _ => ⟨0x20, defaultColor⟩⟩

/-- Put a character into a cell, if there is such a cell. -/
def put (g : Grid) (character color : UInt8) (x y : Nat) : Grid :=
  if g.width ≤ x ∨ g.height ≤ y then g
  else { g with cell := fun row column =>
    if row = y ∧ column = x then ⟨character, color⟩ else g.cell row column }

/-- Every row moves up by one, and the last one is empty. -/
def scroll (g : Grid) : Grid :=
  { g with
    row := g.height - 1
    cell := fun row column =>
      if row + 1 < g.height then g.cell (row + 1) column else ⟨0x20, g.color⟩ }

/-- The cursor is below the last row only until the grid has scrolled. -/
def settle (g : Grid) : Grid := if g.height ≤ g.row then g.scroll else g

def advanceRow (g : Grid) : Grid := settle { g with column := 0, row := g.row + 1 }

/-- Spaces up to a tab stop, `remaining` cells away; a row that is full ends it. -/
def tab (g : Grid) : (remaining : Nat) → Grid
  | 0 => g
  | remaining + 1 =>
    let g := g.put 0x20 g.color g.column g.row
    let g := { g with column := g.column + 1 }
    if g.width ≤ g.column then g.advanceRow else g.tab remaining

def nextTabStop (g : Grid) : Nat := min ((g.column + tabWidth) / tabWidth * tabWidth) g.width

/-- One byte is written. -/
def putchar (g : Grid) (character : UInt8) : Grid :=
  if character = 0x07 then g
  else if character = 0x08 then
    if 0 < g.column then
      let g := { g with column := g.column - 1 }
      g.put 0x20 g.color g.column g.row
    else if 0 < g.row then
      let g := { g with row := g.row - 1, column := g.width - 1 }
      g.put 0x20 g.color g.column g.row
    else g
  else if character = 0x09 then g.tab (g.nextTabStop - g.column)
  else if character = 0x0A then g.advanceRow
  else if character = 0x0B then settle { g with row := g.row + 1 }
  else if character = 0x0C then blank g.width g.height
  else if character = 0x0D then { g with column := 0 }
  else
    let g := g.put character g.color g.column g.row
    let g := { g with column := g.column + 1 }
    if g.width ≤ g.column then g.advanceRow else g

/-- The grid has this size, and the cursor is in it. -/
structure Within (w h : Nat) (g : Grid) : Prop where
  width : g.width = w
  height : g.height = h
  column : g.column < w
  row : g.row < h

variable {g : Grid} {width height : Nat}

/-! ## The cursor stays in the grid -/

theorem put_same (character color : UInt8) (x y : Nat) :
    (g.put character color x y).width = g.width ∧ (g.put character color x y).height = g.height ∧
    (g.put character color x y).row = g.row ∧ (g.put character color x y).column = g.column := by
  unfold put
  split
  · exact ⟨rfl, rfl, rfl, rfl⟩
  · exact ⟨rfl, rfl, rfl, rfl⟩

theorem Within.put (h : g.Within width height) (character color : UInt8) (x y : Nat) :
    (g.put character color x y).Within width height := by
  obtain ⟨hwidth, hheight, hrow, hcolumn⟩ := g.put_same character color x y
  exact ⟨hwidth.trans h.width, hheight.trans h.height, hcolumn ▸ h.column, hrow ▸ h.row⟩

/-- A cursor that has gone one row too far is back after the grid has scrolled. -/
theorem settle_within (hwidth : g.width = width) (hheight : g.height = height)
    (hcolumn : g.column < width) (hpositive : 0 < height) : g.settle.Within width height := by
  subst hwidth hheight
  unfold settle
  split
  next => exact ⟨rfl, rfl, hcolumn, Nat.sub_lt hpositive Nat.one_pos⟩
  next hrow => exact ⟨rfl, rfl, hcolumn, Nat.lt_of_not_le hrow⟩

theorem advanceRow_within (hwidth : g.width = width) (hheight : g.height = height)
    (hpositive : 0 < width) (hpositive' : 0 < height) : g.advanceRow.Within width height := by
  unfold advanceRow
  exact settle_within hwidth hheight hpositive hpositive'

/-- The cursor goes one cell on, or to the beginning of a row after the last cell of one. -/
theorem Within.next (h : g.Within width height) {g' : Grid}
    (hg' : g' = { g with column := g.column + 1 }) :
    (g.width ≤ g'.column → g'.advanceRow.Within width height) ∧
    (¬g.width ≤ g'.column → g'.Within width height) := by
  subst hg'
  refine ⟨fun _ => ?_, fun hin => ?_⟩
  · exact advanceRow_within h.width h.height (Nat.zero_lt_of_lt h.column) (Nat.zero_lt_of_lt h.row)
  · exact ⟨h.width, h.height, h.width ▸ Nat.lt_of_not_le hin, h.row⟩

theorem Within.tab {remaining : Nat} (h : g.Within width height) :
    (g.tab remaining).Within width height := by
  induction remaining generalizing g with
  | zero => exact h
  | succ remaining ih =>
    have hput := h.put 0x20 g.color g.column g.row
    obtain ⟨hfull, hrest⟩ := hput.next rfl
    unfold Grid.tab
    dsimp only at hfull hrest ⊢
    split
    next hend => exact hfull hend
    next hend => exact ih (hrest hend)

theorem blank_within (hwidth : 0 < width) (hheight : 0 < height) :
    (blank width height).Within width height :=
  ⟨rfl, rfl, hwidth, hheight⟩

theorem Within.putchar (h : g.Within width height) (character : UInt8) :
    (g.putchar character).Within width height := by
  have hwidth : 0 < width := Nat.zero_lt_of_lt h.column
  have hheight : 0 < height := Nat.zero_lt_of_lt h.row
  unfold Grid.putchar
  dsimp only
  split_ifs with hbell hback hcolumn hrow htab hline hvertical hclear hreturn hend
  · exact h
  · have hback : Within width height { g with column := g.column - 1 } :=
      ⟨h.width, h.height, Nat.lt_of_le_of_lt (Nat.sub_le ..) h.column, h.row⟩
    exact hback.put ..
  · have hback : Within width height { g with row := g.row - 1, column := g.width - 1 } := by
      refine ⟨h.width, h.height, ?_, Nat.lt_of_le_of_lt (Nat.sub_le ..) h.row⟩
      rw [h.width]
      exact Nat.sub_lt hwidth Nat.one_pos
    exact hback.put ..
  · exact h
  · exact h.tab
  · exact advanceRow_within h.width h.height hwidth hheight
  · exact settle_within h.width h.height h.column hheight
  · rw [h.width, h.height]
    exact blank_within hwidth hheight
  · exact ⟨h.width, h.height, hwidth, h.row⟩
  · exact ((h.put character g.color g.column g.row).next rfl).1 hend
  · exact ((h.put character g.color g.column g.row).next rfl).2 hend

end Grid

end MeatySkeleton.Console
