import MeatySkeleton.Console.Tty
import MeatySkeleton.Device.CursorOverlay

/-!
# What the framebuffer shows of the console

`picture` is the grid of cells as it should be seen: each cell with its glyph, the margins in the
background of an empty console, and the underline under the cell of the cursor. A cell is painted
over as a whole, so the underline goes when its cell is drawn again; that happens before the cursor
moves, and a scroll in the middle of a character draws every cell again without it.
-/

namespace MeatySkeleton.Console

open List Device
open Framebuffer (fillRect_inside paint_block)

/-- The colour of a pixel of a cell. The glyph is drawn with its rows doubled. -/
def cellRgb (cell : Cell) (x y : Nat) : UInt32 :=
  if 1 ≤ x ∧ x < 6 ∧ 1 ≤ y ∧ y < 15 ∧ glyphPixel cell.character (x - 1) ((y - 1) / 2) = true then
    foregroundRgb cell.color
  else backgroundRgb cell.color

/-- A pixel of a cell is in the underline of the cursor. -/
def InUnderline (x y : Nat) : Prop := 1 ≤ x ∧ x < 7 ∧ y = 15

instance (x y : Nat) : Decidable (InUnderline x y) := inferInstanceAs (Decidable (_ ∧ _ ∧ _))

variable {fb : Framebuffer} {cell : Cell} {screen : Screen} {column row x y : Nat}

/-! ## Drawing a cell -/

/-- The writes of one pixel of a glyph. -/
theorem mem_dotWrites {p : PixelWrite} {glyphX glyphY : Nat} (havailable : fb.available = true)
    (hx : (column + 1) * fbCellWidth ≤ fb.width) (hy : (row + 1) * fbCellHeight ≤ fb.height)
    (hglyphX : glyphX < 5) (hglyphY : glyphY < 7) :
    p ∈ fb.fillRect (column * fbCellWidth + 1 + glyphX) (row * fbCellHeight + 1 + glyphY * 2) 1 2
      (foregroundRgb cell.color) ↔
    ∃ half < 2, p = ⟨column * fbCellWidth + 1 + glyphX, row * fbCellHeight + 1 + glyphY * 2 + half,
      fb.packRgb (foregroundRgb cell.color)⟩ := by
  rw [Nat.succ_mul, fbCellWidth] at hx
  rw [Nat.succ_mul, fbCellHeight] at hy
  rw [fbCellWidth, fbCellHeight, fillRect_inside havailable Nat.one_pos Nat.two_pos
    (by omega) (by omega), Framebuffer.mem_block]
  constructor
  · rintro ⟨half, hhalf, side, hside, rfl⟩
    obtain rfl : side = 0 := by omega
    exact ⟨half, hhalf, rfl⟩
  · rintro ⟨half, hhalf, rfl⟩
    exact ⟨half, hhalf, 0, Nat.one_pos, rfl⟩

/-- The writes of a glyph. -/
theorem mem_glyphWrites {p : PixelWrite} (havailable : fb.available = true)
    (hx : (column + 1) * fbCellWidth ≤ fb.width) (hy : (row + 1) * fbCellHeight ≤ fb.height) :
    (p ∈ (List.range 5).flatMap fun glyphX => (List.range 7).flatMap fun glyphY =>
      if glyphPixel cell.character glyphX glyphY = false then []
      else fb.fillRect (column * fbCellWidth + 1 + glyphX) (row * fbCellHeight + 1 + glyphY * 2) 1 2
        (foregroundRgb cell.color)) ↔
    ∃ glyphX < 5, ∃ glyphY < 7, glyphPixel cell.character glyphX glyphY = true ∧ ∃ half < 2,
      p = ⟨column * fbCellWidth + 1 + glyphX, row * fbCellHeight + 1 + glyphY * 2 + half,
        fb.packRgb (foregroundRgb cell.color)⟩ := by
  constructor
  · intro hp
    obtain ⟨glyphX, hglyphX, hp⟩ := mem_flatMap.mp hp
    obtain ⟨glyphY, hglyphY, hp⟩ := mem_flatMap.mp hp
    rw [mem_range] at hglyphX hglyphY
    split at hp
    next => exact absurd hp not_mem_nil
    next hset =>
      exact ⟨glyphX, hglyphX, glyphY, hglyphY, Bool.of_not_eq_false hset,
        (mem_dotWrites havailable hx hy hglyphX hglyphY).mp hp⟩
  · rintro ⟨glyphX, hglyphX, glyphY, hglyphY, hset, hp⟩
    refine mem_flatMap.mpr ⟨glyphX, mem_range.mpr hglyphX,
      mem_flatMap.mpr ⟨glyphY, mem_range.mpr hglyphY, ?_⟩⟩
    rw [hset, if_neg (by decide)]
    exact (mem_dotWrites havailable hx hy hglyphX hglyphY).mpr hp

/-- A cell that is drawn shows its glyph, and no pixel outside of it changes. -/
theorem paint_drawCell (havailable : fb.available = true)
    (hx : (column + 1) * fbCellWidth ≤ fb.width) (hy : (row + 1) * fbCellHeight ≤ fb.height) :
    screen.paint (Tty.drawCell fb cell column row) x y =
      if x / fbCellWidth = column ∧ y / fbCellHeight = row then
        fb.packRgb (cellRgb cell (x % fbCellWidth) (y % fbCellHeight))
      else screen x y := by
  have hbackground : fb.fillRect (column * fbCellWidth) (row * fbCellHeight) fbCellWidth fbCellHeight
      (backgroundRgb cell.color) = Framebuffer.block (column * fbCellWidth) (row * fbCellHeight)
        fbCellWidth fbCellHeight fun _ _ => fb.packRgb (backgroundRgb cell.color) := by
    rw [Nat.succ_mul] at hx hy
    exact fillRect_inside havailable (by decide) (by decide) hx hy
  unfold Tty.drawCell
  dsimp only
  rw [Screen.paint_append, hbackground]
  by_cases hglyph : (x / fbCellWidth = column ∧ y / fbCellHeight = row) ∧
      1 ≤ x % fbCellWidth ∧ x % fbCellWidth < 6 ∧ 1 ≤ y % fbCellHeight ∧ y % fbCellHeight < 15 ∧
      glyphPixel cell.character (x % fbCellWidth - 1) ((y % fbCellHeight - 1) / 2) = true
  · -- a pixel of the glyph
    obtain ⟨hcell, hset⟩ := hglyph
    rw [if_pos hcell, cellRgb, if_pos hset]
    obtain ⟨hxl, hxr, hyl, hyr, hset⟩ := hset
    refine Screen.paint_written (fun p hp _ _ => ?_) ?_
    · obtain ⟨_, _, _, _, _, _, _, rfl⟩ := (mem_glyphWrites havailable hx hy).mp hp
      rfl
    · refine ⟨_, (mem_glyphWrites havailable hx hy).mpr ⟨x % fbCellWidth - 1, by omega,
        (y % fbCellHeight - 1) / 2, by omega, hset, (y % fbCellHeight - 1) % 2, by omega, rfl⟩, ?_, ?_⟩
      · dsimp only
        rw [← hcell.1]
        simp only [fbCellWidth] at hxl ⊢
        omega
      · dsimp only
        rw [← hcell.2]
        simp only [fbCellHeight] at hyl ⊢
        omega
  · -- the background shows
    rw [Screen.paint_unwritten]
    · rw [paint_block]
      by_cases hcell : x / fbCellWidth = column ∧ y / fbCellHeight = row
      · have hplain : ¬(1 ≤ x % fbCellWidth ∧ x % fbCellWidth < 6 ∧ 1 ≤ y % fbCellHeight ∧
            y % fbCellHeight < 15 ∧
            glyphPixel cell.character (x % fbCellWidth - 1) ((y % fbCellHeight - 1) / 2) = true) :=
          fun hset => hglyph ⟨hcell, hset⟩
        rw [if_pos hcell, cellRgb, if_neg hplain, if_pos]
        simp only [fbCellWidth, fbCellHeight] at hcell ⊢
        omega
      · rw [if_neg hcell, if_neg]
        simp only [fbCellWidth, fbCellHeight] at hcell ⊢
        omega
    · rintro p hp ⟨rfl, rfl⟩
      obtain ⟨glyphX, hglyphX, glyphY, hglyphY, hset, half, hhalf, rfl⟩ :=
        (mem_glyphWrites havailable hx hy).mp hp
      refine hglyph ?_
      dsimp only
      have hcolumn : (column * fbCellWidth + 1 + glyphX) / fbCellWidth = column ∧
          (column * fbCellWidth + 1 + glyphX) % fbCellWidth = 1 + glyphX := by
        rw [fbCellWidth]
        omega
      have hrow : (row * fbCellHeight + 1 + glyphY * 2 + half) / fbCellHeight = row ∧
          (row * fbCellHeight + 1 + glyphY * 2 + half) % fbCellHeight = 1 + glyphY * 2 + half := by
        rw [fbCellHeight]
        omega
      have hglyphY' : (1 + glyphY * 2 + half - 1) / 2 = glyphY := by omega
      rw [hcolumn.1, hcolumn.2, hrow.1, hrow.2, hglyphY', Nat.add_sub_cancel_left]
      exact ⟨⟨rfl, rfl⟩, by omega, by omega, by omega, by omega, hset⟩

/-! ## The picture of a console -/

namespace Tty

/-- What the pixels should show, with the underline or without. -/
def picture (t : Tty) (underlined : Bool) (x y : Nat) : UInt32 :=
  let column := x / fbCellWidth
  let row := y / fbCellHeight
  if column < t.columns ∧ row < t.rows then
    if underlined ∧ column = t.column ∧ row = t.row ∧ InUnderline (x % fbCellWidth) (y % fbCellHeight)
    then foregroundRgb (t.cells row column).color
    else cellRgb (t.cells row column) (x % fbCellWidth) (y % fbCellHeight)
  else backgroundRgb defaultColor

/-- The pixels show the picture, with the underline while it is visible. -/
def Drawn (t : Tty) : Prop := ∀ x < t.overlay.fb.width, ∀ y < t.overlay.fb.height,
  t.overlay.screen x y = t.overlay.fb.packRgb (t.picture t.cursorVisible x y)

/-- A framebuffer console whose grid fits into the picture. -/
structure Fitted (t : Tty) : Prop where
  backend : t.backend = .framebuffer
  available : t.overlay.fb.available = true
  columns : t.columns * fbCellWidth ≤ t.overlay.fb.width
  rows : t.rows * fbCellHeight ≤ t.overlay.fb.height

variable {t t' : Tty}

theorem picture_plain (hcolumn : x / fbCellWidth < t.columns) (hrow : y / fbCellHeight < t.rows) :
    t.picture false x y = cellRgb (t.cells (y / fbCellHeight) (x / fbCellWidth)) (x % fbCellWidth)
      (y % fbCellHeight) := by
  unfold picture
  dsimp only
  rw [if_pos ⟨hcolumn, hrow⟩, if_neg fun h => absurd h.1 nofun]

theorem picture_margin {underlined : Bool}
    (h : ¬(x / fbCellWidth < t.columns ∧ y / fbCellHeight < t.rows)) :
    t.picture underlined x y = backgroundRgb defaultColor := if_neg h

/-- The underline is in the cell of the cursor only. -/
theorem picture_away {underlined : Bool} (h : ¬(x / fbCellWidth = t.column ∧
    y / fbCellHeight = t.row ∧ InUnderline (x % fbCellWidth) (y % fbCellHeight))) :
    t.picture underlined x y = t.picture false x y := by
  unfold picture
  dsimp only
  split
  next => rw [if_neg fun hin => h hin.2, if_neg fun hin => absurd hin.1 nofun]
  next => rfl

/-- Without the underline the picture is that of the cells. -/
theorem picture_cells (hcolumns : t'.columns = t.columns) (hrows : t'.rows = t.rows)
    (hcells : t'.cells = t.cells) : t'.picture false x y = t.picture false x y := by
  unfold picture
  dsimp only
  rw [hcolumns, hrows, hcells]
  split
  next => rw [if_neg fun hin => absurd hin.1 nofun, if_neg fun hin => absurd hin.1 nofun]
  next => rfl

/-- A cell of the console is drawn. -/
theorem paint_renderCell (h : t.Fitted) :
    screen.paint (t.renderCell column row) x y =
      if (column < t.columns ∧ row < t.rows) ∧ x / fbCellWidth = column ∧ y / fbCellHeight = row then
        t.overlay.fb.packRgb (t.picture false x y)
      else screen x y := by
  unfold renderCell
  split
  next hout =>
    rw [if_neg fun hin => by omega]
    rfl
  next hin =>
    rw [not_or, Nat.not_le, Nat.not_le] at hin
    have hx : (column + 1) * fbCellWidth ≤ t.overlay.fb.width :=
      Nat.le_trans (Nat.mul_le_mul_right _ hin.1) h.columns
    have hy : (row + 1) * fbCellHeight ≤ t.overlay.fb.height :=
      Nat.le_trans (Nat.mul_le_mul_right _ hin.2) h.rows
    rw [paint_drawCell h.available hx hy]
    by_cases hcell : x / fbCellWidth = column ∧ y / fbCellHeight = row
    · obtain ⟨rfl, rfl⟩ := hcell
      rw [if_pos ⟨rfl, rfl⟩, if_pos ⟨hin, rfl, rfl⟩, picture_plain hin.1 hin.2]
    · rw [if_neg hcell, if_neg fun hboth => hcell hboth.2]

theorem paint_columns (h : t.Fitted) (columns : List Nat) (hrow : row < t.rows) :
    screen.paint (columns.flatMap fun column => t.renderCell column row) x y =
      if x / fbCellWidth < t.columns ∧ x / fbCellWidth ∈ columns ∧ y / fbCellHeight = row then
        t.overlay.fb.packRgb (t.picture false x y)
      else screen x y := by
  induction columns generalizing screen with
  | nil => exact (if_neg fun hin => absurd hin.2.1 not_mem_nil).symm
  | cons column columns ih =>
    rw [flatMap_cons, Screen.paint_append, ih, paint_renderCell h]
    by_cases hlater : x / fbCellWidth < t.columns ∧ x / fbCellWidth ∈ columns ∧ y / fbCellHeight = row
    · rw [if_pos hlater, if_pos ⟨hlater.1, mem_cons_of_mem _ hlater.2.1, hlater.2.2⟩]
    · rw [if_neg hlater]
      by_cases hhere : (column < t.columns ∧ row < t.rows) ∧ x / fbCellWidth = column ∧
          y / fbCellHeight = row
      · obtain ⟨hin, rfl, hy⟩ := hhere
        rw [if_pos ⟨hin, rfl, hy⟩, if_pos ⟨hin.1, mem_cons_self, hy⟩]
      · rw [if_neg hhere, if_neg]
        rintro ⟨hx, hmem, hy⟩
        rcases mem_cons.mp hmem with rfl | hmem
        · exact hhere ⟨⟨hx, hrow⟩, rfl, hy⟩
        · exact hlater ⟨hx, hmem, hy⟩

/-- All cells are drawn, one row after the other. -/
theorem paint_rows (h : t.Fitted) {rows : List Nat} (hrows : ∀ row ∈ rows, row < t.rows) :
    screen.paint (rows.flatMap fun row =>
        (List.range t.columns).flatMap fun column => t.renderCell column row) x y =
      if x / fbCellWidth < t.columns ∧ y / fbCellHeight ∈ rows then
        t.overlay.fb.packRgb (t.picture false x y)
      else screen x y := by
  induction rows generalizing screen with
  | nil => exact (if_neg fun hin => absurd hin.2 not_mem_nil).symm
  | cons row rows ih =>
    rw [flatMap_cons, Screen.paint_append,
      ih fun row' hrow' => hrows row' (mem_cons_of_mem _ hrow'),
      paint_columns h _ (hrows row mem_cons_self)]
    by_cases hlater : x / fbCellWidth < t.columns ∧ y / fbCellHeight ∈ rows
    · rw [if_pos hlater, if_pos ⟨hlater.1, mem_cons_of_mem _ hlater.2⟩]
    · rw [if_neg hlater]
      by_cases hhere : x / fbCellWidth < t.columns ∧ x / fbCellWidth ∈ List.range t.columns ∧
          y / fbCellHeight = row
      · rw [if_pos hhere, if_pos ⟨hhere.1, hhere.2.2 ▸ mem_cons_self⟩]
      · rw [if_neg hhere, if_neg]
        rintro ⟨hx, hmem⟩
        rcases mem_cons.mp hmem with hy | hmem
        · exact hhere ⟨hx, mem_range.mpr hx, hy⟩
        · exact hlater ⟨hx, hmem⟩

/-! ## The functions keep the picture -/

/-- A console on the framebuffer of `t0`, with the mouse cursor as it is there. -/
structure On (t0 t : Tty) : Prop where
  backend : t.backend = t0.backend
  columns : t.columns = t0.columns
  rows : t.rows = t0.rows
  fb : t.overlay.fb = t0.overlay.fb
  mouse : t.overlay.cursor = t0.overlay.cursor

/-- It shows what it keeps. -/
structure Held (t0 t : Tty) : Prop extends On t0 t where
  drawn : t.Drawn

/-- And the underline is not visible. -/
structure Quiet (t0 t : Tty) : Prop extends Held t0 t where
  hidden : t.cursorVisible = false

variable {t0 : Tty}

theorem On.fitted (h : On t0 t) (hfit : t0.Fitted) : t.Fitted :=
  ⟨h.backend.trans hfit.backend, by rw [h.fb]; exact hfit.available,
    by rw [h.fb, h.columns]; exact hfit.columns, by rw [h.fb, h.rows]; exact hfit.rows⟩

/-- The cursor is somewhere else, with the underline not visible. -/
theorem Quiet.moveTo (h : Quiet t0 t) (row column : Nat) : Quiet t0 { t with row, column } := by
  refine ⟨⟨⟨h.backend, h.columns, h.rows, h.fb, h.mouse⟩, fun x hx y hy => ?_⟩, h.hidden⟩
  have hdrawn := h.drawn x hx y hy
  rw [h.hidden] at hdrawn
  show _ = t.overlay.fb.packRgb (picture _ t.cursorVisible x y)
  rw [h.hidden, hdrawn]
  exact congrArg _ (picture_cells rfl rfl rfl)

theorem Held.cursorHide (h : Held t0 t) (hfit : t0.Fitted) : Quiet t0 t.cursorHide := by
  have hfit := h.fitted hfit
  unfold Tty.cursorHide
  cases hvisible : t.cursorVisible with
  | false => exact ⟨h, hvisible⟩
  | true =>
    dsimp only
    rw [if_neg (by decide)]
    by_cases hin : t.column < t.columns ∧ t.row < t.rows
    · rw [if_pos hin]
      refine ⟨⟨⟨h.backend, h.columns, h.rows, h.fb, h.mouse⟩, fun x hx y hy => ?_⟩, rfl⟩
      show t.overlay.screen.paint (t.renderCell t.column t.row) x y = _
      refine Eq.trans ?_ (congrArg t.overlay.fb.packRgb (picture_cells (t := t) rfl rfl rfl).symm)
      rw [paint_renderCell hfit]
      by_cases hcell : x / fbCellWidth = t.column ∧ y / fbCellHeight = t.row
      · rw [if_pos ⟨hin, hcell⟩]
      · rw [if_neg fun hboth => hcell hboth.2, h.drawn x hx y hy,
          picture_away fun hin => hcell ⟨hin.1, hin.2.1⟩]
    · -- there is no underline to take away
      rw [if_neg hin]
      refine ⟨⟨⟨h.backend, h.columns, h.rows, h.fb, h.mouse⟩, fun x hx y hy => ?_⟩, rfl⟩
      refine Eq.trans ?_ (congrArg t.overlay.fb.packRgb (picture_cells (t := t) rfl rfl rfl).symm)
      refine (h.drawn x hx y hy).trans ?_
      by_cases hcell : x / fbCellWidth = t.column ∧ y / fbCellHeight = t.row
      · have hout : ¬(x / fbCellWidth < t.columns ∧ y / fbCellHeight < t.rows) := by
          rw [hcell.1, hcell.2]
          exact hin
        rw [picture_margin hout, picture_margin hout]
      · rw [picture_away fun hin => hcell ⟨hin.1, hin.2.1⟩]

theorem Held.cursorShow (h : Held t0 t) (hfit : t0.Fitted) (hcolumn : t.column < t.columns)
    (hrow : t.row < t.rows) : Held t0 t.cursorShow ∧ t.cursorShow.cursorVisible = true := by
  have hfit := h.fitted hfit
  unfold Tty.cursorShow
  rw [if_neg (not_not_intro hfit.backend), if_neg (by omega)]
  refine ⟨⟨⟨h.backend, h.columns, h.rows, h.fb, h.mouse⟩, fun x hx y hy => ?_⟩, rfl⟩
  have hx' : (t.column + 1) * fbCellWidth ≤ t.overlay.fb.width :=
    Nat.le_trans (Nat.mul_le_mul_right _ hcolumn) hfit.columns
  have hy' : (t.row + 1) * fbCellHeight ≤ t.overlay.fb.height :=
    Nat.le_trans (Nat.mul_le_mul_right _ hrow) hfit.rows
  rw [Nat.succ_mul, fbCellWidth] at hx'
  rw [Nat.succ_mul, fbCellHeight] at hy'
  have hunderline : underline t.overlay.fb (t.cells t.row t.column) t.column t.row =
      Framebuffer.block (t.column * fbCellWidth + 1) (t.row * fbCellHeight + fbCellHeight - 1)
        (fbCellWidth - 2) 1 fun _ _ =>
          t.overlay.fb.packRgb (foregroundRgb (t.cells t.row t.column).color) := by
    refine fillRect_inside hfit.available (by decide) (by decide) ?_ ?_
    · rw [fbCellWidth]
      omega
    · rw [fbCellHeight]
      omega
  show t.overlay.screen.paint (underline t.overlay.fb (t.cells t.row t.column) t.column t.row) x y =
    t.overlay.fb.packRgb (t.picture true x y)
  rw [hunderline, paint_block]
  by_cases hunder : x / fbCellWidth = t.column ∧ y / fbCellHeight = t.row ∧
      InUnderline (x % fbCellWidth) (y % fbCellHeight)
  · have hin : x / fbCellWidth < t.columns ∧ y / fbCellHeight < t.rows := by
      rw [hunder.1, hunder.2.1]
      exact ⟨hcolumn, hrow⟩
    have hpicture : t.picture true x y = foregroundRgb (t.cells t.row t.column).color := by
      unfold picture
      dsimp only
      rw [if_pos hin, if_pos ⟨rfl, hunder⟩, hunder.1, hunder.2.1]
    rw [hpicture, if_pos]
    obtain ⟨hcell, hcell', hleft, hright, hbottom⟩ := hunder
    rw [fbCellWidth] at hcell hleft hright ⊢
    rw [fbCellHeight] at hcell' hbottom ⊢
    omega
  · rw [picture_away hunder, if_neg]
    · exact (h.drawn x hx y hy).trans (congrArg _ (picture_away hunder))
    · rintro ⟨hleft, hright, htop, hbottom⟩
      refine hunder ?_
      unfold InUnderline
      rw [fbCellWidth] at hleft hright ⊢
      rw [fbCellHeight] at htop hbottom ⊢
      omega

/-- A cell that is written is drawn again. -/
theorem Quiet.redraw (h : Quiet t0 t) (hfit : t0.Fitted) {cells : Nat → Nat → Cell}
    (ht' : t' = { t with cells })
    (hother : ∀ row column, ¬(row = y ∧ column = x) → cells row column = t.cells row column) :
    Quiet t0 (t'.paint (t'.renderCell x y)) := by
  have hfit := h.fitted hfit
  subst ht'
  have hfit' : Fitted { t with cells } := ⟨hfit.backend, hfit.available, hfit.columns, hfit.rows⟩
  refine ⟨⟨⟨h.backend, h.columns, h.rows, h.fb, h.mouse⟩, fun px hx py hy => ?_⟩, h.hidden⟩
  have hhidden : picture { t with cells } t.cursorVisible px py = picture { t with cells } false px py :=
    congrArg (fun underlined => picture { t with cells } underlined px py) h.hidden
  show t.overlay.screen.paint (renderCell { t with cells } x y) px py =
    t.overlay.fb.packRgb (picture { t with cells } t.cursorVisible px py)
  rw [hhidden, paint_renderCell hfit']
  split
  next => rfl
  next hnot =>
    have hold := h.drawn px hx py hy
    rw [h.hidden] at hold
    rw [hold]
    -- the pixel is in another cell, or in the margins
    by_cases hcell : px / fbCellWidth < t.columns ∧ py / fbCellHeight < t.rows
    · have hne : ¬(py / fbCellHeight = y ∧ px / fbCellWidth = x) := by
        rintro ⟨rfl, rfl⟩
        exact hnot ⟨hcell, rfl, rfl⟩
      rw [picture_plain hcell.1 hcell.2, picture_plain (t := { t with cells }) hcell.1 hcell.2]
      dsimp only
      rw [hother _ _ hne]
    · rw [picture_margin hcell, picture_margin (t := { t with cells }) hcell]

theorem Quiet.putEntryAt (h : Quiet t0 t) (hfit : t0.Fitted) (character color : UInt8) (x y : Nat) :
    Quiet t0 (t.putEntryAt character color x y) := by
  unfold Tty.putEntryAt
  split
  next => exact h
  next =>
    split
    next => exact h.redraw hfit rfl fun row column hne => if_neg hne
    next hb => exact absurd (hb.symm.trans (h.fitted hfit).backend) nofun

/-- After all cells have been drawn the picture is right, if the margins were. -/
theorem On.renderAll (h : On t0 t) (hfit : t0.Fitted) (hhidden : t.cursorVisible = false)
    (hmargin : ∀ x < t.overlay.fb.width, ∀ y < t.overlay.fb.height,
      ¬(x / fbCellWidth < t.columns ∧ y / fbCellHeight < t.rows) →
      t.overlay.screen x y = t.overlay.fb.packRgb (backgroundRgb defaultColor)) :
    Quiet t0 t.renderAll := by
  refine ⟨⟨⟨h.backend, h.columns, h.rows, h.fb, h.mouse⟩, fun x hx y hy => ?_⟩, hhidden⟩
  show t.overlay.screen.paint _ x y = t.overlay.fb.packRgb (picture t t.cursorVisible x y)
  rw [hhidden, paint_rows (h.fitted hfit) fun row hrow => mem_range.mp hrow]
  split
  next => rfl
  next hout =>
    have hout' : ¬(x / fbCellWidth < t.columns ∧ y / fbCellHeight < t.rows) := fun hin =>
      hout ⟨hin.1, mem_range.mpr hin.2⟩
    rw [hmargin x hx y hy hout', picture_margin hout']

theorem Quiet.scrollBelow (h : Quiet t0 t) (hfit : t0.Fitted) : Quiet t0 t.scrollBelow := by
  unfold Tty.scrollBelow Tty.scroll
  split
  next =>
    split
    case h_2 hb => exact absurd (hb.symm.trans (h.fitted hfit).backend) nofun
    have hhide := h.cursorHide hfit
    unfold framebufferScroll
    dsimp only
    refine On.renderAll ⟨hhide.backend, hhide.columns, hhide.rows, hhide.fb, hhide.mouse⟩ hfit
      hhide.hidden fun x hx y hy hout => ?_
    exact (hhide.drawn x hx y hy).trans (congrArg _ (picture_margin hout))
  next => exact h

theorem Quiet.advanceRow (h : Quiet t0 t) (hfit : t0.Fitted) : Quiet t0 t.advanceRow :=
  (h.moveTo (t.row + 1) 0).scrollBelow hfit

theorem Quiet.tab {remaining : Nat} (h : Quiet t0 t) (hfit : t0.Fitted) :
    Quiet t0 (t.tab remaining) := by
  induction remaining generalizing t with
  | zero => exact h
  | succ remaining ih =>
    have hput := h.putEntryAt hfit 0x20 t.color t.column t.row
    have hnext := hput.moveTo (t.putEntryAt 0x20 t.color t.column t.row).row
      ((t.putEntryAt 0x20 t.color t.column t.row).column + 1)
    unfold Tty.tab
    dsimp only
    split
    next => exact hnext.advanceRow hfit
    next => exact ih hnext

theorem cellRgb_blank (x y : Nat) :
    cellRgb ⟨0x20, defaultColor⟩ x y = backgroundRgb defaultColor := by
  have hglyph : ∀ glyphX < 5, ∀ glyphY < 7, glyphPixel 0x20 glyphX glyphY = false := by decide
  refine if_neg fun ⟨_, _, _, _, hset⟩ => ?_
  rw [hglyph (x - 1) (by omega) ((y - 1) / 2) (by omega)] at hset
  cases hset

/-- An empty console is the background all over, whatever was shown before. -/
theorem On.cleared (h : On t0 t) (hfit : t0.Fitted) (hhidden : t.cursorVisible = false)
    (hblank : ∀ row < t.rows, ∀ column < t.columns, t.cells row column = ⟨0x20, defaultColor⟩) :
    Held t0 (t.paint (t.overlay.fb.clear (backgroundRgb defaultColor))) := by
  refine ⟨⟨h.backend, h.columns, h.rows, h.fb, h.mouse⟩, fun x hx y hy => ?_⟩
  change x < t.overlay.fb.width at hx
  change y < t.overlay.fb.height at hy
  have hclear : t.overlay.fb.clear (backgroundRgb defaultColor) = Framebuffer.block 0 0
      t.overlay.fb.width t.overlay.fb.height fun _ _ =>
        t.overlay.fb.packRgb (backgroundRgb defaultColor) := by
    unfold Framebuffer.clear
    rw [(h.fitted hfit).available, if_neg (by decide)]
  show t.overlay.screen.paint _ x y = t.overlay.fb.packRgb (t.picture t.cursorVisible x y)
  rw [hhidden, hclear, paint_block, if_pos (by omega)]
  refine congrArg _ ?_
  by_cases hin : x / fbCellWidth < t.columns ∧ y / fbCellHeight < t.rows
  · rw [picture_plain hin.1 hin.2, hblank _ hin.2 _ hin.1, cellRgb_blank]
  · rw [picture_margin hin]

theorem On.framebufferClear (h : On t0 t) (hfit : t0.Fitted) (hcolumns : 0 < t0.columns)
    (hrows : 0 < t0.rows) :
    Held t0 t.framebufferClear ∧ t.framebufferClear.cursorVisible = true := by
  unfold Tty.framebufferClear
  have hcleared : Held t0 (paint { t with
      color := defaultColor
      row := 0
      column := 0
      cursorVisible := false
      cells := fun row column =>
        if row < t.rows ∧ column < t.columns then ⟨0x20, defaultColor⟩ else t.cells row column }
      (t.overlay.fb.clear (backgroundRgb defaultColor))) :=
    On.cleared ⟨h.backend, h.columns, h.rows, h.fb, h.mouse⟩ hfit rfl
      fun row hrow column hcolumn => if_pos ⟨hrow, hcolumn⟩
  exact hcleared.cursorShow hfit (h.columns.symm ▸ hcolumns) (h.rows.symm ▸ hrows)

/-- The `switch` keeps the picture; a form feed leaves the underline in it. -/
theorem Quiet.character (h : Quiet t0 t) (hfit : t0.Fitted) (hcolumns : 0 < t0.columns)
    (hrows : 0 < t0.rows) (character : UInt8) : Held t0 (t.character character) := by
  unfold Tty.character
  dsimp only
  split
  next => exact h.toHeld
  next =>
  split
  next =>
    -- a backspace
    split
    next => exact ((h.moveTo t.row (t.column - 1)).putEntryAt hfit ..).toHeld
    next =>
      split
      next => exact ((h.moveTo (t.row - 1) (t.width - 1)).putEntryAt hfit ..).toHeld
      next => exact h.toHeld
  next =>
  split
  next => exact (h.tab hfit).toHeld
  next =>
  split
  next => exact (h.advanceRow hfit).toHeld
  next =>
  split
  next => exact ((h.moveTo (t.row + 1) t.column).scrollBelow hfit).toHeld
  next =>
  split
  next =>
    split
    next => exact (h.toOn.framebufferClear hfit hcolumns hrows).1
    next hb => exact absurd (hb.symm.trans (h.fitted hfit).backend) nofun
  next =>
  split
  next => exact (h.moveTo t.row 0).toHeld
  next =>
    have hput := h.putEntryAt hfit character t.color t.column t.row
    have hnext := hput.moveTo (t.putEntryAt character t.color t.column t.row).row
      ((t.putEntryAt character t.color t.column t.row).column + 1)
    split
    next => exact (hnext.advanceRow hfit).toHeld
    next => exact hnext.toHeld

end Tty

end MeatySkeleton.Console
