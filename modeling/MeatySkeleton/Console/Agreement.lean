import MeatySkeleton.Console.Tty
import Mathlib.Data.List.Induction

/-!
# Both backends are the same console

`Shows` says that a console keeps a grid: its cursor and its colour are those of the grid, and so
is every cell, whichever way the backend keeps them. Each function of `tty.c` follows the operation
of the grid it stands for, so two consoles of one size that are written the same keep one grid.
-/

namespace MeatySkeleton.Console

open Device

/-- The cell a word of the text memory stands for. -/
def entryCell (entry : UInt16) : Cell := ⟨entry.toUInt8, (entry >>> 8).toUInt8⟩

theorem entryCell_vgaEntry (uc color : UInt8) : entryCell (vgaEntry uc color) = ⟨uc, color⟩ := by
  unfold entryCell vgaEntry
  congr 1
  · apply UInt8.eq_of_toBitVec_eq
    ext i hi
    simp
  · apply UInt8.eq_of_toBitVec_eq
    ext i hi
    have hlow : i < 16 := by omega
    have hhigh : 8 + i < 16 := by omega
    simp [hlow, hhigh, BitVec.getLsbD_eq_getElem hi]

namespace Tty

/-- A cell, as the backend keeps it. -/
def cellAt (t : Tty) (row column : Nat) : Cell :=
  match t.backend with
  | .framebuffer => t.cells row column
  | .vga => entryCell (t.vgaBuffer (row * vgaWidth + column))

theorem cellAt_framebuffer {t : Tty} {row column : Nat} (hb : t.backend = .framebuffer) :
    t.cellAt row column = t.cells row column := by
  rw [cellAt, hb]

theorem cellAt_vga {t : Tty} {row column : Nat} (hb : t.backend = .vga) :
    t.cellAt row column = entryCell (t.vgaBuffer (row * vgaWidth + column)) := by
  rw [cellAt, hb]

/-! ## The backend does not change -/

variable {t t' : Tty} {g g' : Grid}

theorem cursorHide_backend : t.cursorHide.backend = t.backend := by
  unfold cursorHide
  dsimp only
  split
  · rfl
  · split
    · rfl
    · rfl

theorem cursorShow_backend : t.cursorShow.backend = t.backend := by
  unfold cursorShow
  split
  · rfl
  · split
    · rfl
    · rfl

theorem putEntryAt_backend (character color : UInt8) (x y : Nat) :
    (t.putEntryAt character color x y).backend = t.backend := by
  unfold putEntryAt
  split
  · rfl
  · split
    · rfl
    · rfl

theorem scrollBelow_backend : t.scrollBelow.backend = t.backend := by
  unfold scrollBelow scroll
  split
  · split
    · exact cursorHide_backend
    · rfl
  · rfl

theorem advanceRow_backend : t.advanceRow.backend = t.backend :=
  @scrollBelow_backend { t with column := 0, row := t.row + 1 }

theorem tab_backend {remaining : Nat} : (t.tab remaining).backend = t.backend := by
  induction remaining generalizing t with
  | zero => rfl
  | succ remaining ih =>
    have hput := putEntryAt_backend (t := t) 0x20 t.color t.column t.row
    unfold tab
    dsimp only
    split
    next => exact advanceRow_backend.trans hput
    next => exact ih.trans hput

/-- The console keeps the grid. -/
structure Shows (t : Tty) (g : Grid) : Prop where
  width : t.width = g.width
  height : t.height = g.height
  row : t.row = g.row
  column : t.column = g.column
  color : t.color = g.color
  cell : ∀ row < g.height, ∀ column < g.width, t.cellAt row column = g.cell row column

/-- Drawing does not change what is kept. -/
theorem Shows.paint (h : t.Shows g) (writes : List PixelWrite) : (t.paint writes).Shows g :=
  ⟨h.width, h.height, h.row, h.column, h.color, h.cell⟩

theorem Shows.moveTo (h : t.Shows g) (row column : Nat) :
    Shows { t with row, column, color := g.color } { g with row, column } :=
  ⟨h.width, h.height, rfl, rfl, rfl, h.cell⟩

theorem Shows.cursorHide (h : t.Shows g) : t.cursorHide.Shows g := by
  unfold Tty.cursorHide
  dsimp only
  split
  next => exact h
  next =>
    split
    next => exact ⟨h.width, h.height, h.row, h.column, h.color, h.cell⟩
    next => exact ⟨h.width, h.height, h.row, h.column, h.color, h.cell⟩

theorem Shows.cursorShow (h : t.Shows g) : t.cursorShow.Shows g := by
  unfold Tty.cursorShow
  split
  next => exact h
  next =>
    split
    next => exact h
    next => exact ⟨h.width, h.height, h.row, h.column, h.color, h.cell⟩

/-! ## Writing a cell -/

theorem Shows.putEntryAt (h : t.Shows g) (character color : UInt8) (x y : Nat) :
    (t.putEntryAt character color x y).Shows (g.put character color x y) := by
  unfold Tty.putEntryAt Grid.put
  rw [h.width, h.height]
  split
  next => exact h
  next hin =>
    rw [not_or, Nat.not_le, Nat.not_le] at hin
    split
    next hb =>
      have hcells : Shows
          { t with cells := fun row column =>
            if row = y ∧ column = x then ⟨character, color⟩ else t.cells row column }
          { g with cell := fun row column =>
            if row = y ∧ column = x then ⟨character, color⟩ else g.cell row column } := by
        refine ⟨h.width, h.height, h.row, h.column, h.color, fun row hrow column hcolumn => ?_⟩
        refine Eq.trans (cellAt_framebuffer (by exact hb)) ?_
        show _ = if row = y ∧ column = x then _ else g.cell row column
        rw [← h.cell row hrow column hcolumn, cellAt_framebuffer hb]
      exact hcells.paint _
    next hb =>
      refine ⟨h.width, h.height, h.row, h.column, h.color, fun row hrow column hcolumn => ?_⟩
      have hwidth : g.width = vgaWidth := by
        rw [← h.width, Tty.width, hb]
      refine Eq.trans (cellAt_vga (by exact hb)) ?_
      dsimp only at hrow hcolumn ⊢
      by_cases hat : row = y ∧ column = x
      · obtain ⟨rfl, rfl⟩ := hat
        rw [Function.update_self, if_pos ⟨rfl, rfl⟩, entryCell_vgaEntry]
      · have hindex : row * vgaWidth + column ≠ y * vgaWidth + x := by
          rw [hwidth, vgaWidth] at hcolumn hin
          rw [vgaWidth]
          omega
        rw [Function.update_of_ne hindex, if_neg hat, ← h.cell row hrow column hcolumn,
          cellAt_vga hb]

/-! ## Clearing and scrolling -/

theorem vgaClearRow_cell (row index : Nat) : (t.vgaClearRow row).vgaBuffer index =
    if row * vgaWidth ≤ index ∧ index < row * vgaWidth + vgaWidth then vgaEntry 0x20 t.color
    else t.vgaBuffer index := rfl

theorem vgaClear_backend : t.vgaClear.backend = t.backend := by
  have hrows : ∀ (rows : List Nat) (t : Tty), (rows.foldl vgaClearRow t).backend = t.backend := by
    intro rows
    induction rows with
    | nil => exact fun _ => rfl
    | cons row rows ih => exact fun t => ih (t.vgaClearRow row)
  exact hrows _ _

/-- The rows that have been cleared are empty. -/
theorem foldl_vgaClearRow (rows : List Nat) (t : Tty) :
    ∃ buffer, rows.foldl vgaClearRow t = { t with vgaBuffer := buffer } ∧
      ∀ row ∈ rows, ∀ column < vgaWidth, buffer (row * vgaWidth + column) = vgaEntry 0x20 t.color := by
  induction rows using List.reverseRecOn with
  | nil => exact ⟨t.vgaBuffer, rfl, fun _ h => absurd h List.not_mem_nil⟩
  | append_singleton rows last ih =>
    obtain ⟨buffer, hfold, hclear⟩ := ih
    refine ⟨(vgaClearRow { t with vgaBuffer := buffer } last).vgaBuffer, ?_,
      fun row hrow column hcolumn => ?_⟩
    · rw [List.foldl_append, hfold]
      rfl
    · rw [vgaClearRow_cell]
      split
      next => rfl
      next hout =>
        refine hclear row ((List.mem_append.mp hrow).resolve_right fun hlast => hout ?_) column hcolumn
        rw [List.mem_singleton.mp hlast]
        omega

theorem vgaClear_shows (hb : t.backend = .vga) : t.vgaClear.Shows (Grid.blank t.width t.height) := by
  unfold vgaClear vgaClearRows
  obtain ⟨buffer, hfold, hclear⟩ := foldl_vgaClearRow (List.range vgaHeight)
    { t with color := defaultColor, row := 0, column := 0 }
  rw [hfold]
  refine ⟨rfl, rfl, rfl, rfl, rfl, fun row hrow column hcolumn => ?_⟩
  change row < t.height at hrow
  change column < t.width at hcolumn
  rw [Tty.height, hb] at hrow
  rw [Tty.width, hb] at hcolumn
  refine Eq.trans (cellAt_vga (by exact hb)) ?_
  show entryCell (buffer (row * vgaWidth + column)) = _
  rw [hclear row (List.mem_range.mpr hrow) column hcolumn, entryCell_vgaEntry]
  rfl

theorem framebufferClear_shows (hb : t.backend = .framebuffer) :
    t.framebufferClear.Shows (Grid.blank t.width t.height) := by
  unfold framebufferClear
  refine Shows.cursorShow (Shows.paint ⟨rfl, rfl, rfl, rfl, rfl, fun row hrow column hcolumn => ?_⟩ _)
  change row < t.height at hrow
  change column < t.width at hcolumn
  rw [Tty.height, hb] at hrow
  rw [Tty.width, hb] at hcolumn
  exact Eq.trans (cellAt_framebuffer (by exact hb)) (if_pos ⟨hrow, hcolumn⟩)

section

variable (h : t.Shows g)

include h

theorem vgaScroll_shows (hb : t.backend = .vga) : t.vgaScroll.Shows g.scroll := by
  have hheight : g.height = vgaHeight := by
    rw [← h.height, Tty.height, hb]
  have hwidth : g.width = vgaWidth := by
    rw [← h.width, Tty.width, hb]
  refine ⟨h.width, h.height, ?_, h.column, h.color, fun row hrow column hcolumn => ?_⟩
  · show vgaHeight - 1 = g.height - 1
    rw [hheight]
  · change row < g.height at hrow
    change column < g.width at hcolumn
    refine Eq.trans (cellAt_vga (by exact hb)) ?_
    unfold vgaScroll Grid.scroll
    dsimp only
    rw [vgaClearRow_cell]
    dsimp only
    by_cases hlast : row + 1 < g.height
    · -- the row below moves up
      have hnot : ¬((vgaHeight - 1) * vgaWidth ≤ row * vgaWidth + column ∧
          row * vgaWidth + column < (vgaHeight - 1) * vgaWidth + vgaWidth) := by
        rw [hheight, vgaHeight] at hlast
        rw [hwidth, vgaWidth] at hcolumn
        rw [vgaHeight, vgaWidth]
        omega
      have hmoved : row * vgaWidth + column < (vgaHeight - 1) * vgaWidth := by
        rw [hheight, vgaHeight] at hlast
        rw [hwidth, vgaWidth] at hcolumn
        rw [vgaHeight, vgaWidth]
        omega
      have hbelow : row * vgaWidth + column + vgaWidth = (row + 1) * vgaWidth + column := by
        rw [Nat.succ_mul]
        omega
      rw [if_neg hnot, if_pos hmoved, hbelow, if_pos hlast, ← h.cell (row + 1) hlast column hcolumn,
        cellAt_vga hb]
    · have hcleared : (vgaHeight - 1) * vgaWidth ≤ row * vgaWidth + column ∧
          row * vgaWidth + column < (vgaHeight - 1) * vgaWidth + vgaWidth := by
        rw [hheight, vgaHeight] at hlast hrow
        rw [hwidth, vgaWidth] at hcolumn
        rw [vgaHeight, vgaWidth]
        omega
      rw [if_pos hcleared, if_neg hlast, entryCell_vgaEntry]
      exact congrArg (Cell.mk 0x20) h.color

theorem framebufferScroll_shows (hb : t.backend = .framebuffer) :
    t.framebufferScroll.Shows g.scroll := by
  have hhidden := h.cursorHide
  have hb' : t.cursorHide.backend = .framebuffer := cursorHide_backend.trans hb
  unfold framebufferScroll
  generalize t.cursorHide = t at hhidden hb'
  have hheight : t.rows = g.height := by
    rw [← hhidden.height, Tty.height, hb']
  have hwidth : t.columns = g.width := by
    rw [← hhidden.width, Tty.width, hb']
  unfold renderAll
  apply Shows.paint
  refine ⟨hhidden.width, hhidden.height, congrArg (· - 1) hheight, hhidden.column,
    hhidden.color, fun row hrow column hcolumn => ?_⟩
  change row < g.height at hrow
  change column < g.width at hcolumn
  refine Eq.trans (cellAt_framebuffer (by exact hb')) ?_
  unfold Grid.scroll
  dsimp only
  rw [if_neg (by omega)]
  by_cases hlast : row + 1 < g.height
  · rw [if_pos (by omega), if_pos hlast, ← hhidden.cell (row + 1) hlast column hcolumn,
      cellAt_framebuffer hb']
  · rw [if_neg (by omega), if_pos (by omega), if_neg hlast, hhidden.color]

theorem Shows.scrollBelow : t.scrollBelow.Shows g.settle := by
  unfold Tty.scrollBelow Grid.settle Tty.scroll
  rw [h.height, h.row]
  split
  next =>
    split
    next hb => exact framebufferScroll_shows h hb
    next hb => exact vgaScroll_shows h hb
  next => exact h

theorem Shows.advanceRow : t.advanceRow.Shows g.advanceRow := by
  unfold Tty.advanceRow Grid.advanceRow
  rw [h.row]
  exact Shows.scrollBelow ⟨h.width, h.height, rfl, rfl, h.color, h.cell⟩

/-! ## Writing a byte -/

/-- The cursor goes one cell on, and ends a row in both or in neither. -/
theorem Shows.next (ht' : t' = { t with column := t.column + 1 })
    (hg' : g' = { g with column := g.column + 1 }) :
    t'.Shows g' ∧ (t'.width ≤ t'.column ↔ g'.width ≤ g'.column) := by
  subst ht' hg'
  refine ⟨⟨h.width, h.height, h.row, congrArg (· + 1) h.column, h.color, h.cell⟩, ?_⟩
  show t.width ≤ t.column + 1 ↔ g.width ≤ g.column + 1
  rw [h.width, h.column]

/-- An ordinary character is put into the cell at the cursor. -/
theorem Shows.ordinary (character : UInt8) :
    Shows
      (let t := t.putEntryAt character g.color g.column g.row
        let t := { t with column := t.column + 1 }
        if t.width ≤ t.column then t.advanceRow else t)
      (let g := g.put character g.color g.column g.row
        let g := { g with column := g.column + 1 }
        if g.width ≤ g.column then g.advanceRow else g) := by
  obtain ⟨hnext, hiff⟩ := (h.putEntryAt character g.color g.column g.row).next rfl rfl
  dsimp only at hiff ⊢
  split
  next hend =>
    rw [if_pos (hiff.mp hend)]
    exact hnext.advanceRow
  next hend =>
    rw [if_neg fun hend' => hend (hiff.mpr hend')]
    exact hnext

theorem Shows.tab {remaining : Nat} : (t.tab remaining).Shows (g.tab remaining) := by
  induction remaining generalizing t g with
  | zero => exact h
  | succ remaining ih =>
    have hput := h.putEntryAt 0x20 g.color g.column g.row
    unfold Tty.tab Grid.tab
    rw [h.color, h.column, h.row]
    obtain ⟨hnext, hiff⟩ := hput.next rfl rfl
    dsimp only at hiff ⊢
    split
    next hend =>
      rw [if_pos (hiff.mp hend)]
      exact hnext.advanceRow
    next hend =>
      rw [if_neg fun hend' => hend (hiff.mpr hend')]
      exact ih hnext

end

theorem character_backend (character : UInt8) : (t.character character).backend = t.backend := by
  unfold Tty.character
  dsimp only
  split_ifs
  · rfl
  · exact @putEntryAt_backend { t with column := t.column - 1 } ..
  · exact @putEntryAt_backend { t with row := t.row - 1, column := t.width - 1 } ..
  · rfl
  · exact tab_backend
  · exact tab_backend
  · exact advanceRow_backend
  · exact @scrollBelow_backend { t with row := t.row + 1 }
  · split
    · exact cursorShow_backend
    · exact vgaClear_backend
  · rfl
  · exact advanceRow_backend.trans (putEntryAt_backend ..)
  · exact putEntryAt_backend ..

/-- The `switch` follows the grid. -/
theorem Shows.character (h : t.Shows g) (character : UInt8) :
    (t.character character).Shows (g.putchar character) := by
  have hstop : (if t.width < (t.column + tabWidth) / tabWidth * tabWidth then t.width
      else (t.column + tabWidth) / tabWidth * tabWidth) = g.nextTabStop := by
    rw [h.width, h.column, Grid.nextTabStop]
    split
    · omega
    · omega
  have hordinary := h.ordinary character
  unfold Tty.character Grid.putchar
  dsimp only at hordinary ⊢
  rw [hstop, h.column, h.row, h.color, h.width]
  by_cases hbell : character = 0x07
  · rw [if_pos hbell, if_pos hbell]
    exact h
  rw [if_neg hbell, if_neg hbell]
  by_cases hback : character = 0x08
  · rw [if_pos hback, if_pos hback]
    split_ifs with hcolumn hrow
    · exact (h.moveTo g.row (g.column - 1)).putEntryAt 0x20 g.color (g.column - 1) g.row
    · exact (h.moveTo (g.row - 1) (g.width - 1)).putEntryAt 0x20 g.color (g.width - 1) (g.row - 1)
    · exact h
  rw [if_neg hback, if_neg hback]
  by_cases htab : character = 0x09
  · rw [if_pos htab, if_pos htab]
    exact h.tab
  rw [if_neg htab, if_neg htab]
  by_cases hline : character = 0x0A
  · rw [if_pos hline, if_pos hline]
    exact h.advanceRow
  rw [if_neg hline, if_neg hline]
  by_cases hvertical : character = 0x0B
  · rw [if_pos hvertical, if_pos hvertical]
    exact (h.moveTo (g.row + 1) g.column).scrollBelow
  rw [if_neg hvertical, if_neg hvertical]
  by_cases hclear : character = 0x0C
  · rw [if_pos hclear, if_pos hclear, ← h.width, ← h.height]
    split
    next hb => exact framebufferClear_shows hb
    next hb => exact vgaClear_shows hb
  rw [if_neg hclear, if_neg hclear]
  by_cases hreturn : character = 0x0D
  · rw [if_pos hreturn, if_pos hreturn]
    exact h.moveTo g.row 0
  rw [if_neg hreturn, if_neg hreturn]
  exact hordinary

end Tty

end MeatySkeleton.Console
