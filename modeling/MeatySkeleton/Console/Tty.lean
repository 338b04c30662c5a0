import MeatySkeleton.Console.Font
import MeatySkeleton.Console.Grid
import MeatySkeleton.Device.MouseCursor

/-!
# The kernel console of `tty.c`

One console with two backends. The VGA backend keeps its cells in the text memory, a word for
each; the framebuffer backend keeps them in a table of its own and draws them, with an underline
at the cursor. What is drawn is a list of writes to pixels.
-/

namespace MeatySkeleton.Console

open Device

/-- `VGA_WIDTH`. -/
def vgaWidth : Nat := 80
/-- `VGA_HEIGHT`. -/
def vgaHeight : Nat := 25
/-- `FB_CELL_WIDTH`. -/
def fbCellWidth : Nat := 8
/-- `FB_CELL_HEIGHT`. -/
def fbCellHeight : Nat := 16
/-- `FB_TERMINAL_MAX_COLUMNS`. -/
def fbTerminalMaxColumns : Nat := 256
/-- `FB_TERMINAL_MAX_ROWS`. -/
def fbTerminalMaxRows : Nat := 80

/-- `terminal_backend_t`. -/
inductive Backend
  | vga
  | framebuffer
deriving DecidableEq

/-- `vga_entry`. -/
def vgaEntry (uc color : UInt8) : UInt16 := uc.toUInt16 ||| (color.toUInt16 <<< 8)

/-- The variables of `tty.c`, with the registers of the VGA cursor and what the framebuffer
shows. -/
structure Tty where
  backend : Backend
  row : Nat
  column : Nat
  color : UInt8
  vgaBuffer : Nat → UInt16
  vgaCursorHigh : UInt8
  vgaCursorLow : UInt8
  /-- `framebuffer_cells`, by row and column. -/
  cells : Nat → Nat → Cell
  columns : Nat
  rows : Nat
  cursorVisible : Bool
  overlay : Overlay

namespace Tty

/-- Write pixels. -/
def paint (t : Tty) (writes : List PixelWrite) : Tty :=
  { t with overlay := { t.overlay with screen := t.overlay.screen.paint writes } }

/-- `terminal_vga_cursor_update`. -/
def vgaCursorUpdate (t : Tty) : Tty :=
  let position := t.row * vgaWidth + t.column
  { t with vgaCursorLow := UInt8.ofNat position, vgaCursorHigh := UInt8.ofNat (position / 2 ^ 8) }

/-! ## The framebuffer -/

/-- What `terminal_framebuffer_render_cell` draws for a cell. -/
def drawCell (fb : Framebuffer) (cell : Cell) (column row : Nat) : List PixelWrite :=
  let pixelX := column * fbCellWidth
  let pixelY := row * fbCellHeight
  fb.fillRect pixelX pixelY fbCellWidth fbCellHeight (backgroundRgb cell.color) ++
    (List.range 5).flatMap fun glyphX => (List.range 7).flatMap fun glyphY =>
      if glyphPixel cell.character glyphX glyphY = false then []
      else
        fb.fillRect (pixelX + 1 + glyphX) (pixelY + 1 + glyphY * 2) 1 2 (foregroundRgb cell.color)

/-- `terminal_framebuffer_render_cell`. -/
def renderCell (t : Tty) (column row : Nat) : List PixelWrite :=
  if t.columns ≤ column ∨ t.rows ≤ row then []
  else drawCell t.overlay.fb (t.cells row column) column row

/-- `terminal_framebuffer_cursor_hide`. -/
def cursorHide (t : Tty) : Tty :=
  if !t.cursorVisible then t
  else
    let t :=
      if t.column < t.columns ∧ t.row < t.rows then t.paint (t.renderCell t.column t.row) else t
    { t with cursorVisible := false }

/-- The underline `terminal_framebuffer_cursor_show` draws. -/
def underline (fb : Framebuffer) (cell : Cell) (column row : Nat) : List PixelWrite :=
  fb.fillRect (column * fbCellWidth + 1) (row * fbCellHeight + fbCellHeight - 1) (fbCellWidth - 2) 1
    (foregroundRgb cell.color)

section

variable (t : Tty)

/-- `terminal_framebuffer_cursor_show`. -/
def cursorShow : Tty :=
  if t.backend ≠ .framebuffer then t
  else if t.columns ≤ t.column ∨ t.rows ≤ t.row then t
  else
    let t := t.paint (underline t.overlay.fb (t.cells t.row t.column) t.column t.row)
    { t with cursorVisible := true }

/-- `terminal_framebuffer_render_all`. -/
def renderAll : Tty :=
  t.paint ((List.range t.rows).flatMap fun row =>
    (List.range t.columns).flatMap fun column => t.renderCell column row)

/-- `terminal_framebuffer_clear`. -/
def framebufferClear : Tty :=
  let color := defaultColor
  let t := { t with
    color := color
    row := 0
    column := 0
    cursorVisible := false
    cells := fun row column =>
      if row < t.rows ∧ column < t.columns then ⟨0x20, color⟩ else t.cells row column }
  (t.paint (t.overlay.fb.clear (backgroundRgb color))).cursorShow

/-- `terminal_framebuffer_scroll`. The rows are moved from the first one on, so each is read
before it is written. -/
def framebufferScroll : Tty :=
  let t := t.cursorHide
  let finalRow := t.rows - 1
  renderAll { t with
    row := finalRow
    cells := fun row column =>
      if t.columns ≤ column then t.cells row column
      else if row < finalRow then t.cells (row + 1) column
      else if row = finalRow then ⟨0x20, t.color⟩
      else t.cells row column }

/-! ## The text memory -/

/-- `terminal_vga_clear_row`. -/
def vgaClearRow (row : Nat) : Tty :=
  { t with vgaBuffer := fun index =>
    if row * vgaWidth ≤ index ∧ index < row * vgaWidth + vgaWidth then vgaEntry 0x20 t.color
    else t.vgaBuffer index }

/-- The loop over the rows of `terminal_vga_clear` and `terminal_initialize`. -/
def vgaClearRows : Tty := (List.range vgaHeight).foldl vgaClearRow t

/-- `terminal_vga_clear`. -/
def vgaClear : Tty :=
  (vgaClearRows { t with color := defaultColor, row := 0, column := 0 }).vgaCursorUpdate

/-- `terminal_vga_scroll`. -/
def vgaScroll : Tty :=
  let t := { t with vgaBuffer := fun index =>
    if index < (vgaHeight - 1) * vgaWidth then t.vgaBuffer (index + vgaWidth) else t.vgaBuffer index }
  { t.vgaClearRow (vgaHeight - 1) with row := vgaHeight - 1 }

/-! ## Both backends -/

/-- `terminal_width`. -/
def width : Nat :=
  match t.backend with
  | .framebuffer => t.columns
  | .vga => vgaWidth

/-- `terminal_height`. -/
def height : Nat :=
  match t.backend with
  | .framebuffer => t.rows
  | .vga => vgaHeight

/-- `terminal_scroll`. -/
def scroll : Tty :=
  match t.backend with
  | .framebuffer => t.framebufferScroll
  | .vga => t.vgaScroll

/-- The test at the end of `terminal_advance_row` and of a vertical tab. -/
def scrollBelow : Tty := if t.height ≤ t.row then t.scroll else t

/-- `terminal_advance_row`. -/
def advanceRow : Tty := scrollBelow { t with column := 0, row := t.row + 1 }

/-- `terminal_putentryat`. -/
def putEntryAt (character color : UInt8) (x y : Nat) : Tty :=
  if t.width ≤ x ∨ t.height ≤ y then t
  else
    match t.backend with
    | .framebuffer =>
      let t := { t with cells := fun row column =>
        if row = y ∧ column = x then ⟨character, color⟩ else t.cells row column }
      t.paint (t.renderCell x y)
    | .vga =>
      { t with vgaBuffer := Function.update t.vgaBuffer (y * vgaWidth + x) (vgaEntry character color) }

end

/-- The loop of a tab, with the tab stop `remaining` cells away. -/
def tab (t : Tty) : (remaining : Nat) → Tty
  | 0 => t
  | remaining + 1 =>
    let t := t.putEntryAt 0x20 t.color t.column t.row
    let t := { t with column := t.column + 1 }
    if t.width ≤ t.column then t.advanceRow else t.tab remaining

/-- The `switch` of `terminal_putchar`. -/
def character (t : Tty) (character : UInt8) : Tty :=
  if character = 0x07 then t
  else if character = 0x08 then
    if 0 < t.column then
      let t := { t with column := t.column - 1 }
      t.putEntryAt 0x20 t.color t.column t.row
    else if 0 < t.row then
      let t := { t with row := t.row - 1, column := t.width - 1 }
      t.putEntryAt 0x20 t.color t.column t.row
    else t
  else if character = 0x09 then
    let nextTabStop := (t.column + tabWidth) / tabWidth * tabWidth
    let nextTabStop := if t.width < nextTabStop then t.width else nextTabStop
    t.tab (nextTabStop - t.column)
  else if character = 0x0A then t.advanceRow
  else if character = 0x0B then scrollBelow { t with row := t.row + 1 }
  else if character = 0x0C then
    match t.backend with
    | .framebuffer => t.framebufferClear
    | .vga => t.vgaClear
  else if character = 0x0D then { t with column := 0 }
  else
    let t := t.putEntryAt character t.color t.column t.row
    let t := { t with column := t.column + 1 }
    if t.width ≤ t.column then t.advanceRow else t

/-- `terminal_putchar`. -/
def putchar (t : Tty) (character : UInt8) : Tty :=
  match t.backend with
  | .framebuffer =>
    let t := { t with overlay := t.overlay.beginFramebufferUpdate }
    let t := t.cursorHide
    let t := t.character character
    let t := t.cursorShow
    { t with overlay := t.overlay.endFramebufferUpdate }
  | .vga => (t.character character).vgaCursorUpdate

/-- `terminal_write`. -/
def write (t : Tty) (data : List UInt8) : Tty := data.foldl putchar t

/-- `terminal_setcolor`. -/
def setColor (t : Tty) (color : UInt8) : Tty := { t with color }

/-- `terminal_initialize`. -/
def initializeTerminal (t : Tty) : Tty :=
  (vgaClearRows { t with backend := .vga, color := defaultColor, row := 0, column := 0 }).vgaCursorUpdate

/-- `terminal_enable_framebuffer`. -/
def enableFramebuffer (t : Tty) : Bool × Tty :=
  let fb := t.overlay.fb
  if !fb.available then (false, t)
  else if fb.width < fbCellWidth ∨ fb.height < fbCellHeight then (false, t)
  else
    let t := { t with
      columns := min (fb.width / fbCellWidth) fbTerminalMaxColumns
      rows := min (fb.height / fbCellHeight) fbTerminalMaxRows }
    if t.columns = 0 ∨ t.rows = 0 then (false, t)
    else (true, framebufferClear { t with backend := .framebuffer })

end Tty

end MeatySkeleton.Console
