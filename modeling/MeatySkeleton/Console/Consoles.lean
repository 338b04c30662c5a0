import MeatySkeleton.Console.Agreement
import MeatySkeleton.Console.Pixels

/-!
# Writing to the console

A byte is written between the beginning and the end of an update of the framebuffer, which takes
the mouse cursor away for the time. The underline is taken away first and drawn at the end, so in
between the picture is that of the cells. Whatever is written, the two backends keep the same grid,
the cursor stays in it, and the framebuffer shows it.
-/

namespace MeatySkeleton.Console

open Device

/-- A byte or a change of the colour. -/
inductive Op
  | putchar (character : UInt8)
  | setColor (color : UInt8)

namespace Tty

def step (t : Tty) : Op → Tty
  | .putchar character => t.putchar character
  | .setColor color => t.setColor color

end Tty

namespace Grid

def step (g : Grid) : Op → Grid
  | .putchar character => g.putchar character
  | .setColor color => { g with color }

theorem Within.step {g : Grid} {width height : Nat} (h : g.Within width height) (op : Op) :
    (g.step op).Within width height := by
  cases op with
  | putchar character => exact h.putchar character
  | setColor color => exact ⟨h.width, h.height, h.column, h.row⟩

end Grid

namespace Tty

variable {t f : Tty} {g : Grid}

theorem Shows.step (h : t.Shows g) (op : Op) : (t.step op).Shows (g.step op) := by
  cases op with
  | setColor color => exact ⟨h.width, h.height, h.row, h.column, rfl, h.cell⟩
  | putchar character =>
    show (t.putchar character).Shows (g.putchar character)
    unfold putchar
    split
    next =>
      have hbegin : Shows { t with overlay := t.overlay.beginFramebufferUpdate } g :=
        ⟨h.width, h.height, h.row, h.column, h.color, h.cell⟩
      have hshow := (hbegin.cursorHide.character character).cursorShow
      exact ⟨hshow.width, hshow.height, hshow.row, hshow.column, hshow.color, hshow.cell⟩
    next =>
      have hchar := h.character character
      exact ⟨hchar.width, hchar.height, hchar.row, hchar.column, hchar.color, hchar.cell⟩

/-! ## The framebuffer between two bytes -/

/-- The picture with the underline, under the mouse cursor if that is visible. -/
structure Presents (t : Tty) : Prop where
  fitted : t.Fitted
  underlined : t.cursorVisible = true
  holds : ∃ written, t.overlay.Holds written ∧ Drawn { t with overlay := { t.overlay with screen := written } }

theorem Presents.putchar (h : t.Presents) (hshows : t.Shows g) (hin : g.Within t.columns t.rows)
    (character : UInt8) : (t.putchar character).Presents ∧ (t.putchar character).columns = t.columns ∧
      (t.putchar character).rows = t.rows := by
  obtain ⟨written, hholds, hdrawn⟩ := h.holds
  obtain ⟨hfb, hscreen, hmouse⟩ := Overlay.beginFramebufferUpdate_spec hholds
  generalize hbegin : { t with overlay := t.overlay.beginFramebufferUpdate } = t0
  have hoverlay : t0.overlay = t.overlay.beginFramebufferUpdate := by rw [← hbegin]
  have hcolumns : t0.columns = t.columns := by rw [← hbegin]
  have hrows : t0.rows = t.rows := by rw [← hbegin]
  have hfit : t0.Fitted := by
    rw [← hbegin]
    exact ⟨h.fitted.backend, by rw [hfb]; exact h.fitted.available,
      by rw [hfb]; exact h.fitted.columns, by rw [hfb]; exact h.fitted.rows⟩
  have hheld : Held t0 t0 := by
    refine ⟨⟨rfl, rfl, rfl, rfl, rfl⟩, fun x hx y hy => ?_⟩
    rw [hoverlay, hfb] at hx hy
    rw [hoverlay, hscreen, hfb, ← hbegin]
    exact hdrawn x hx y hy
  have hshows0 : t0.Shows g := by
    rw [← hbegin]
    exact ⟨hshows.width, hshows.height, hshows.row, hshows.column, hshows.color, hshows.cell⟩
  have hpositive : 0 < t0.columns ∧ 0 < t0.rows := by
    rw [hcolumns, hrows]
    exact ⟨Nat.zero_lt_of_lt hin.column, Nat.zero_lt_of_lt hin.row⟩
  -- the underline goes, the byte is written, and the underline is drawn at the cursor
  have hwritten := (hheld.cursorHide hfit).character hfit hpositive.1 hpositive.2 character
  have hgrid := hshows0.cursorHide.character character
  have hinside := hin.putchar character
  have hcolumn : (t0.cursorHide.character character).column <
      (t0.cursorHide.character character).columns := by
    rw [hgrid.column, hwritten.columns, hcolumns]
    exact hinside.column
  have hrow : (t0.cursorHide.character character).row <
      (t0.cursorHide.character character).rows := by
    rw [hgrid.row, hwritten.rows, hrows]
    exact hinside.row
  obtain ⟨hshown, hunderlined⟩ := hwritten.cursorShow hfit hcolumn hrow
  generalize hlast : (t0.cursorHide.character character).cursorShow = t1 at hshown hunderlined
  have hputchar : t.putchar character =
      { t1 with overlay := t1.overlay.endFramebufferUpdate } := by
    unfold Tty.putchar
    split
    next => rw [← hlast, ← hbegin]
    next hb => exact absurd (hb.symm.trans h.fitted.backend) nofun
  have hvisible : t1.overlay.cursor.visible = false := by
    rw [hshown.mouse, hoverlay, hmouse]
  obtain ⟨hend, hholds'⟩ := Overlay.endFramebufferUpdate_spec rfl hvisible
  have hfit' := hshown.fitted hfit
  rw [hputchar]
  refine ⟨⟨⟨hfit'.backend, ?_, ?_, ?_⟩, hunderlined, t1.overlay.screen, hholds', fun x hx y hy => ?_⟩,
    hshown.columns.trans hcolumns, hshown.rows.trans hrows⟩
  · rw [hend]
    exact hfit'.available
  · rw [hend]
    exact hfit'.columns
  · rw [hend]
    exact hfit'.rows
  · dsimp only at hx hy ⊢
    rw [hend] at hx hy ⊢
    exact hshown.drawn x hx y hy

theorem Presents.step (h : t.Presents) (hshows : t.Shows g) (hin : g.Within t.columns t.rows)
    (op : Op) : (t.step op).Presents ∧ (t.step op).columns = t.columns ∧
      (t.step op).rows = t.rows := by
  cases op with
  | putchar character => exact h.putchar hshows hin character
  | setColor color =>
    obtain ⟨written, hholds, hdrawn⟩ := h.holds
    exact ⟨⟨⟨h.fitted.backend, h.fitted.available, h.fitted.columns, h.fitted.rows⟩, h.underlined,
      written, hholds, hdrawn⟩, rfl, rfl⟩

/-- Without the mouse cursor every pixel is that of the picture. -/
theorem Presents.drawn (h : t.Presents) (hhidden : t.overlay.cursor.visible = false) : t.Drawn := by
  obtain ⟨written, hholds, hdrawn⟩ := h.holds
  unfold Overlay.Holds at hholds
  rw [hhidden] at hholds
  obtain rfl : t.overlay.screen = written := hholds
  exact hdrawn

/-! ## The beginning -/

theorem enableFramebuffer_presents (h : t.enableFramebuffer = (true, f))
    (hhidden : t.overlay.cursor.visible = false) :
    f.Presents ∧ f.Shows (Grid.blank f.columns f.rows) ∧ 0 < f.columns ∧ 0 < f.rows := by
  unfold enableFramebuffer at h
  dsimp only at h
  split at h
  next => cases (Prod.mk.inj h).1
  next havailable =>
    rw [Bool.not_eq_true, Bool.not_eq_false'] at havailable
    split at h
    next => cases (Prod.mk.inj h).1
    next hsize =>
      split at h
      next => cases (Prod.mk.inj h).1
      next hpositive =>
        rw [not_or] at hpositive
        have hwidth : min (t.overlay.fb.width / fbCellWidth) fbTerminalMaxColumns * fbCellWidth ≤
            t.overlay.fb.width := by
          rw [fbCellWidth]
          omega
        have hheight : min (t.overlay.fb.height / fbCellHeight) fbTerminalMaxRows * fbCellHeight ≤
            t.overlay.fb.height := by
          rw [fbCellHeight]
          omega
        obtain ⟨t0, hclear, hfit, hmouse, hcolumns, hrows⟩ : ∃ t0 : Tty, t0.framebufferClear = f ∧
            t0.Fitted ∧ t0.overlay.cursor.visible = false ∧ 0 < t0.columns ∧ 0 < t0.rows :=
          ⟨_, (Prod.mk.inj h).2, ⟨rfl, havailable, hwidth, hheight⟩, hhidden,
            Nat.pos_of_ne_zero hpositive.1, Nat.pos_of_ne_zero hpositive.2⟩
        have hon : On t0 t0 := ⟨rfl, rfl, rfl, rfl, rfl⟩
        obtain ⟨hheld, hunderlined⟩ := hon.framebufferClear hfit hcolumns hrows
        have hshows := framebufferClear_shows hfit.backend
        rw [hclear] at hheld hunderlined hshows
        have hfwidth : t0.width = f.columns := by
          rw [hheld.columns, Tty.width, hfit.backend]
        have hfheight : t0.height = f.rows := by
          rw [hheld.rows, Tty.height, hfit.backend]
        rw [hfwidth, hfheight] at hshows
        refine ⟨⟨hheld.fitted hfit, hunderlined, f.overlay.screen, ?_, hheld.drawn⟩, hshows,
          hheld.columns ▸ hcolumns, hheld.rows ▸ hrows⟩
        unfold Overlay.Holds
        rw [hheld.mouse, hmouse]
        rfl

/-! ## The text memory between two bytes -/

/-- The registers of the VGA cursor have its position. -/
structure InText (v : Tty) (g : Grid) : Prop where
  backend : v.backend = .vga
  keeps : v.Shows g
  inside : g.Within vgaWidth vgaHeight
  cursor : v.vgaCursorHigh.toNat * 2 ^ 8 + v.vgaCursorLow.toNat = v.row * vgaWidth + v.column

theorem vgaCursorUpdate_cursor {v : Tty} (hcolumn : v.column < vgaWidth) (hrow : v.row < vgaHeight) :
    v.vgaCursorUpdate.vgaCursorHigh.toNat * 2 ^ 8 + v.vgaCursorUpdate.vgaCursorLow.toNat =
      v.row * vgaWidth + v.column := by
  unfold vgaCursorUpdate
  dsimp only
  rw [UInt8.toNat_ofNat', UInt8.toNat_ofNat']
  rw [vgaWidth] at hcolumn ⊢
  rw [vgaHeight] at hrow
  omega

theorem InText.step {v : Tty} (h : v.InText g) (op : Op) : (v.step op).InText (g.step op) := by
  cases op with
  | setColor color =>
    exact ⟨h.backend, h.keeps.step (.setColor color), h.inside.step (.setColor color), h.cursor⟩
  | putchar character =>
    have hputchar : v.putchar character = (v.character character).vgaCursorUpdate := by
      unfold putchar
      split
      next hb => exact absurd (hb.symm.trans h.backend) nofun
      next => rfl
    have hshows := h.keeps.character character
    have hinside := h.inside.putchar character
    have hcolumn : (v.character character).column < vgaWidth := hshows.column ▸ hinside.column
    have hrow : (v.character character).row < vgaHeight := hshows.row ▸ hinside.row
    have hcursor := vgaCursorUpdate_cursor hcolumn hrow
    rw [← hputchar] at hcursor
    refine ⟨?_, h.keeps.step (.putchar character), hinside, hcursor.trans ?_⟩
    · show (v.putchar character).backend = _
      rw [hputchar]
      exact (character_backend character).trans h.backend
    · show _ = (v.putchar character).row * vgaWidth + (v.putchar character).column
      rw [hputchar]
      rfl

theorem initializeTerminal_inText (t : Tty) :
    t.initializeTerminal.InText (Grid.blank vgaWidth vgaHeight) := by
  have hshows : t.initializeTerminal.Shows (Grid.blank vgaWidth vgaHeight) :=
    vgaClear_shows (t := { t with backend := .vga }) rfl
  have hcolumn : t.initializeTerminal.column < vgaWidth := hshows.column ▸ Nat.zero_lt_succ _
  have hrow : t.initializeTerminal.row < vgaHeight := hshows.row ▸ Nat.zero_lt_succ _
  exact ⟨vgaClear_backend (t := { t with backend := .vga }), hshows,
    Grid.blank_within (by decide) (by decide), vgaCursorUpdate_cursor hcolumn hrow⟩

/-! ## Runs -/

/-- What holds of the framebuffer console between two operations. -/
structure InPicture (columns rows : Nat) (f : Tty) (g : Grid) : Prop where
  presents : f.Presents
  keeps : f.Shows g
  inside : g.Within columns rows
  columns : f.columns = columns
  rows : f.rows = rows

theorem InPicture.step {columns rows : Nat} (h : f.InPicture columns rows g) (op : Op) :
    (f.step op).InPicture columns rows (g.step op) := by
  have hin : g.Within f.columns f.rows := by
    rw [h.columns, h.rows]
    exact h.inside
  obtain ⟨hpresents, hcolumns, hrows⟩ := h.presents.step h.keeps hin op
  exact ⟨hpresents, h.keeps.step op, h.inside.step op, hcolumns.trans h.columns, hrows.trans h.rows⟩

/-- Whatever is written to a VGA console and a framebuffer console, the cursors are in their grids;
where these have one size the consoles keep the same cells, cursor and colour; and with the mouse
cursor hidden every pixel of the framebuffer is that of its cells and of one underline. -/
theorem run_consoles {t t₀ f : Tty} (henable : t₀.enableFramebuffer = (true, f))
    (hhidden : t₀.overlay.cursor.visible = false) (ops : List Op) :
    let v := ops.foldl step t.initializeTerminal
    let f' := ops.foldl step f
    (v.row < vgaHeight ∧ v.column < vgaWidth ∧
      v.vgaCursorHigh.toNat * 2 ^ 8 + v.vgaCursorLow.toNat = v.row * vgaWidth + v.column) ∧
    (f'.row < f'.rows ∧ f'.column < f'.columns) ∧
    (f'.columns = vgaWidth → f'.rows = vgaHeight →
      (∀ row < vgaHeight, ∀ column < vgaWidth,
        entryCell (v.vgaBuffer (row * vgaWidth + column)) = f'.cells row column) ∧
      v.row = f'.row ∧ v.column = f'.column ∧ v.color = f'.color) ∧
    f'.cursorVisible = true ∧ (f'.overlay.cursor.visible = false → f'.Drawn) := by
  intro v f'
  obtain ⟨hpresents, hkeeps, hcolumns, hrows⟩ := enableFramebuffer_presents henable hhidden
  have htext : ∀ ops : List Op, (ops.foldl step t.initializeTerminal).InText
      (ops.foldl Grid.step (Grid.blank vgaWidth vgaHeight)) := by
    intro ops
    induction ops using List.reverseRecOn with
    | nil => exact initializeTerminal_inText t
    | append_singleton ops op ih =>
      rw [List.foldl_append, List.foldl_append]
      exact ih.step op
  have hpicture : ∀ ops : List Op, (ops.foldl step f).InPicture f.columns f.rows
      (ops.foldl Grid.step (Grid.blank f.columns f.rows)) := by
    intro ops
    induction ops using List.reverseRecOn with
    | nil => exact ⟨hpresents, hkeeps, Grid.blank_within hcolumns hrows, rfl, rfl⟩
    | append_singleton ops op ih =>
      rw [List.foldl_append, List.foldl_append]
      exact ih.step op
  have hv : v.InText _ := htext ops
  have hf : f'.InPicture f.columns f.rows _ := hpicture ops
  refine ⟨⟨hv.keeps.row ▸ hv.inside.row, hv.keeps.column ▸ hv.inside.column, hv.cursor⟩,
    ⟨?_, ?_⟩, fun hwidth hheight => ?_, hf.presents.underlined, hf.presents.drawn⟩
  · rw [hf.keeps.row, hf.rows]
    exact hf.inside.row
  · rw [hf.keeps.column, hf.columns]
    exact hf.inside.column
  · rw [hf.columns] at hwidth
    rw [hf.rows] at hheight
    have hkeeps := hf.keeps
    have hinside := hf.inside
    rw [hwidth, hheight] at hkeeps hinside
    refine ⟨fun row hrow column hcolumn => ?_, hv.keeps.row.trans hkeeps.row.symm,
      hv.keeps.column.trans hkeeps.column.symm, hv.keeps.color.trans hkeeps.color.symm⟩
    rw [← cellAt_vga hv.backend, ← cellAt_framebuffer hf.presents.fitted.backend,
      hv.keeps.cell row (by rw [hv.inside.height]; exact hrow) column
        (by rw [hv.inside.width]; exact hcolumn),
      hkeeps.cell row (by rw [hinside.height]; exact hrow) column
        (by rw [hinside.width]; exact hcolumn)]

/-- A console on a framebuffer of 640 by 400 pixels. -/
def textTty : Tty :=
  let fb : Framebuffer :=
    ⟨true, 0xF0000000, 0xFD000000, 0xFD000000, 0, 2560, 640, 400, 32, 16, 8, 0, 250, 1024000⟩
  ⟨.vga, 0, 0, 0, fun _ => 0, 0, 0, fun _ _ => ⟨0, 0⟩, 0, 0, false, ⟨fb, .zero, fun _ _ => 7⟩⟩

/-- A letter in white on blue, at the beginning of the second row. -/
theorem run_consoles_letter :
    let ops : List Op := [.setColor 0x1F, .putchar 0x0A, .putchar 0x41]
    let v := ops.foldl step textTty.initializeTerminal
    let f := ops.foldl step textTty.enableFramebuffer.2
    textTty.enableFramebuffer.1 = true ∧ (∀ row < vgaHeight, ∀ column < vgaWidth,
      entryCell (v.vgaBuffer (row * vgaWidth + column)) = f.cells row column) ∧
    f.cells 1 0 = ⟨0x41, 0x1F⟩ ∧ f.row = 1 ∧ f.column = 1 ∧ f.Drawn := by
  intro ops v f
  have hconsoles := @run_consoles textTty textTty textTty.enableFramebuffer.2 rfl rfl ops
  obtain ⟨-, -, hsame, -, hdrawn⟩ := hconsoles
  exact ⟨rfl, (hsame rfl rfl).1, rfl, rfl, rfl, hdrawn rfl⟩

end Tty

end MeatySkeleton.Console
