import MeatySkeleton.Gui.Components
import MeatySkeleton.Gui.Painting

/-!
# What a component draws

A drawing marks the pixels it can change: those it writes, and those it blends a colour with that
is not transparent (`Marked`, `changed_iff`). What a component marks on a surface is known from its
bounds: a panel its rounded rectangle, an image its pixels scaled into the bounds, a text the
pixels of its glyphs (`Component.Paints`).
-/

namespace MeatySkeleton.Gui

open List

variable {x y : Int} {edits edits' : List Edit}

/-! ## Marks -/

/-- The call can change the pixel. -/
def Ink.Marks : Ink → Prop
  | .put _ => True
  | .blend color => color.alpha ≠ 0

/-- A call that can change the pixel is made. -/
def Marked (edits : List Edit) (x y : Int) : Prop := ∃ ink ∈ inks edits x y, ink.Marks

theorem marked_append : Marked (edits ++ edits') x y ↔ Marked edits x y ∨ Marked edits' x y := by
  unfold Marked
  rw [inks_append]
  constructor
  · rintro ⟨ink, hink, hmarks⟩
    exact (mem_append.mp hink).imp (⟨ink, ·, hmarks⟩) (⟨ink, ·, hmarks⟩)
  · rintro (⟨ink, hink, hmarks⟩ | ⟨ink, hink, hmarks⟩)
    · exact ⟨ink, mem_append_left _ hink, hmarks⟩
    · exact ⟨ink, mem_append_right _ hink, hmarks⟩

theorem not_marked_nil : ¬Marked [] x y := fun ⟨_, hink, _⟩ => absurd hink not_mem_nil

theorem marked_iff : Marked edits x y ↔ ∃ ink : Ink, ⟨x, y, ink⟩ ∈ edits ∧ ink.Marks := by
  unfold Marked
  simp only [mem_inks]

theorem marked_flatMap {α : Type} {l : List α} {f : α → List Edit} :
    Marked (l.flatMap f) x y ↔ ∃ a ∈ l, Marked (f a) x y := by
  simp only [marked_iff, mem_flatMap]
  constructor
  · rintro ⟨ink, ⟨a, ha, hmem⟩, hmarks⟩
    exact ⟨a, ha, ink, hmem, hmarks⟩
  · rintro ⟨a, ha, ink, hmem, hmarks⟩
    exact ⟨ink, ⟨a, ha, hmem⟩, hmarks⟩

theorem marked_singleton {e : Edit} : Marked [e] x y ↔ x = e.x ∧ y = e.y ∧ e.ink.Marks := by
  rw [marked_iff]
  constructor
  · rintro ⟨ink, hmem, hmarks⟩
    obtain rfl := mem_singleton.mp hmem
    exact ⟨rfl, rfl, hmarks⟩
  · rintro ⟨rfl, rfl, hmarks⟩
    exact ⟨e.ink, mem_singleton_self _, hmarks⟩

/-- What is blended is seen: the result is not transparent. -/
theorem Color.alpha_blend_ne {destination source : Color} (h : source.alpha ≠ 0) :
    (destination.blend source).alpha ≠ 0 := by
  have hsource : source.alpha < 256 := Nat.mod_lt _ (by decide)
  have hdestination : destination.alpha < 256 := Nat.mod_lt _ (by decide)
  unfold blend
  dsimp only
  rw [if_neg h]
  split
  next => exact h
  next hpartly =>
    have hproduct : destination.alpha * (255 - source.alpha) ≤ 255 * (255 - source.alpha) :=
      Nat.mul_le_mul_right _ (by omega)
    rw [if_neg (by omega), alpha_rgba]
    omega

/-- A pixel stays what it is, whatever it is, when no call can change it. -/
theorem inked_unchanged_iff (calls : List Ink) :
    (∀ color, inked calls color = color) ↔ ∀ ink ∈ calls, ¬ink.Marks := by
  constructor
  · intro hsame ink hink hmarks
    by_cases hput : ∃ color, .put color ∈ calls
    · obtain ⟨color, hput⟩ := hput
      have hzero := hsame 0
      rw [inked_put hput 0 1, hsame 1] at hzero
      exact absurd hzero (by decide)
    · -- without a write the transparent pixel becomes visible and stays so
      have hvisible : ∀ (calls : List Ink) (color : Color), (∀ ink ∈ calls, ∀ c, ink ≠ .put c) →
          (color.alpha ≠ 0 ∨ ∃ ink ∈ calls, ink.Marks) → (inked calls color).alpha ≠ 0 := by
        intro calls
        induction calls with
        | nil =>
          rintro color - (hcolor | ⟨ink, hink, -⟩)
          · exact hcolor
          · exact absurd hink not_mem_nil
        | cons ink calls ih =>
          intro color hblends hsome
          apply ih _ fun ink' hink' => hblends ink' (mem_cons_of_mem _ hink')
          cases ink with
          | put c => exact absurd rfl (hblends _ mem_cons_self c)
          | blend source =>
            by_cases hsource : source.alpha = 0
            · show (Color.blend color source).alpha ≠ 0 ∨ _
              rw [Color.blend_transparent hsource]
              refine hsome.imp id ?_
              rintro ⟨ink', hink', hmarks'⟩
              obtain rfl | hink' := mem_cons.mp hink'
              · exact absurd hsource hmarks'
              · exact ⟨ink', hink', hmarks'⟩
            · exact .inl (Color.alpha_blend_ne hsource)
      have hne := hvisible calls 0 (fun ink' hink' c he => hput ⟨c, he ▸ hink'⟩)
        (.inr ⟨ink, hink, hmarks⟩)
      rw [hsame 0] at hne
      exact hne rfl
  · intro hnone color
    induction calls with
    | nil => rfl
    | cons ink calls ih =>
      have hink := hnone ink mem_cons_self
      have hrest := ih fun ink' hink' => hnone ink' (mem_cons_of_mem _ hink')
      cases ink with
      | put => exact absurd trivial hink
      | blend source =>
        show inked calls (Color.blend color source) = color
        rw [Color.blend_transparent (not_not.mp hink)]
        exact hrest

/-- The marked pixels of a surface are those that change for some picture on it. -/
theorem changed_iff {screen : Rect} (hx : screen.x = 0) (hy : screen.y = 0) :
    (∃ s : Surface, s.rect = screen ∧ (s.draw edits).pixels x y ≠ s.pixels x y) ↔
      screen.Has x y ∧ Marked edits x y := by
  constructor
  · rintro ⟨s, rfl, hne⟩
    by_cases hhas : s.rect.Has x y
    · refine ⟨hhas, by_contra fun hnone => hne ?_⟩
      rw [s.pixels_draw hhas]
      refine (inked_unchanged_iff _).mpr (fun ink hink hmarks => hnone ⟨ink, hink, hmarks⟩) _
    · exact absurd (s.pixels_draw_outside hhas edits) hne
  · rintro ⟨hhas, ink, hink, hmarks⟩
    obtain ⟨color, hcolor⟩ : ∃ color, inked (inks edits x y) color ≠ color := by
      by_contra hall
      exact (inked_unchanged_iff _).mp (fun color => by_contra fun hne => hall ⟨color, hne⟩) ink
        hink hmarks
    obtain ⟨sx, sy, width, height⟩ := screen
    obtain rfl : sx = 0 := hx
    obtain rfl : sy = 0 := hy
    refine ⟨⟨width, height, fun _ _ => color⟩, rfl, ?_⟩
    rw [Surface.pixels_draw ⟨width, height, fun _ _ => color⟩ hhas]
    exact hcolor

/-! ## Rounded rectangles -/

variable {rect screen : Rect} {radius thickness : Nat} {color : Color}

/-- The pixel of a local point that is taken. -/
def LocalPoint (rect : Rect) (taken : Nat → Nat → Bool) (x y : Int) : Prop :=
  ∃ localX < rect.width, ∃ localY < rect.height, taken localX localY = true ∧ InI32 x y ∧
    x = rect.x + localX ∧ y = rect.y + localY

theorem LocalPoint.mono {taken taken' : Nat → Nat → Bool} (h : LocalPoint rect taken x y)
    (hle : ∀ localX localY, taken localX localY = true → taken' localX localY = true) :
    LocalPoint rect taken' x y := by
  obtain ⟨localX, hlocalX, localY, hlocalY, htaken, hrest⟩ := h
  exact ⟨localX, hlocalX, localY, hlocalY, hle _ _ htaken, hrest⟩

theorem LocalPoint.has {taken : Nat → Nat → Bool} (h : LocalPoint rect taken x y) :
    rect.Has x y := by
  obtain ⟨localX, hlocalX, localY, hlocalY, -, -, rfl, rfl⟩ := h
  unfold Rect.Has Rect.right Rect.bottom
  omega

theorem marked_paintLocal {taken : Nat → Nat → Bool} {ink : Nat → Ink} :
    Marked (paintLocal rect taken ink) x y ↔ ∃ localX < rect.width, ∃ localY < rect.height,
      (taken localX localY = true ∧ InI32 x y ∧ x = rect.x + localX ∧ y = rect.y + localY) ∧
        (ink localY).Marks := by
  unfold paintLocal
  simp only [marked_flatMap, mem_range]
  constructor
  · rintro ⟨localY, hlocalY, localX, hlocalX, hmarked⟩
    split at hmarked
    next htaken =>
      obtain ⟨rfl, rfl, hmarks⟩ := marked_singleton.mp hmarked
      exact ⟨localX, hlocalX, localY, hlocalY, ⟨htaken.1, htaken.2, rfl, rfl⟩, hmarks⟩
    next => exact absurd hmarked not_marked_nil
  · rintro ⟨localX, hlocalX, localY, hlocalY, ⟨htaken, hin, rfl, rfl⟩, hmarks⟩
    refine ⟨localY, hlocalY, localX, hlocalX, ?_⟩
    rw [if_pos ⟨htaken, hin⟩]
    exact marked_singleton.mpr ⟨rfl, rfl, hmarks⟩

/-- The pixels of a rounded rectangle. -/
def Rect.Rounded (rect : Rect) (radius : Nat) (x y : Int) : Prop :=
  LocalPoint rect (fun localX localY => roundedContains localX localY rect.width rect.height
    (clampRadius rect.width rect.height radius)) x y

theorem marked_gradient {top bottom : Color} :
    Marked (fillRoundedVerticalGradient rect radius top bottom) x y ↔ rect.Rounded radius x y := by
  unfold fillRoundedVerticalGradient
  dsimp only
  rw [marked_paintLocal]
  constructor
  · rintro ⟨localX, hlocalX, localY, hlocalY, h, -⟩
    exact ⟨localX, hlocalX, localY, hlocalY, h⟩
  · rintro ⟨localX, hlocalX, localY, hlocalY, h⟩
    exact ⟨localX, hlocalX, localY, hlocalY, h, trivial⟩

/-- The pixels of its border. -/
def Rect.Stroked (rect : Rect) (radius thickness : Nat) (x y : Int) : Prop :=
  LocalPoint rect (inStroke rect radius thickness) x y

theorem Rect.Stroked.rounded (h : rect.Stroked radius thickness x y) : rect.Rounded radius x y := by
  refine LocalPoint.mono h fun localX localY hstroke => ?_
  unfold inStroke at hstroke
  exact (Bool.and_eq_true _ _ ▸ hstroke).1

theorem marked_stroke : Marked (strokeRoundedRect rect radius thickness color) x y ↔
    thickness ≠ 0 ∧ color.alpha ≠ 0 ∧ rect.Stroked radius thickness x y := by
  unfold strokeRoundedRect
  split
  next hzero => exact iff_of_false not_marked_nil fun h => h.1 hzero
  next hthickness =>
    rw [marked_paintLocal]
    constructor
    · rintro ⟨localX, hlocalX, localY, hlocalY, h, halpha⟩
      exact ⟨hthickness, halpha, localX, hlocalX, localY, hlocalY, h⟩
    · rintro ⟨-, halpha, localX, hlocalX, localY, hlocalY, h⟩
      exact ⟨localX, hlocalX, localY, hlocalY, h, halpha⟩

/-- The pixels that `gui_surface_fill_rounded_rect_blend` comes to. -/
def Rect.Filled (rect : Rect) (radius : Nat) (x y : Int) : Prop :=
  ∃ localX < rect.width, ∃ localY < rect.height,
    inArcs localX localY rect.width rect.height (clampRadius rect.width rect.height radius) = true ∧
      x = toI32 (rect.x + toI32 localX) ∧ y = toI32 (rect.y + toI32 localY)

theorem marked_fill : Marked (fillRoundedRectBlend rect radius color) x y ↔
    color.alpha ≠ 0 ∧ rect.Filled radius x y := by
  unfold fillRoundedRectBlend
  simp only [marked_flatMap, mem_range]
  constructor
  · rintro ⟨localY, hlocalY, localX, hlocalX, hmarked⟩
    split at hmarked
    next htaken =>
      obtain ⟨hx, hy, hmarks⟩ := marked_singleton.mp hmarked
      exact ⟨hmarks, localX, hlocalX, localY, hlocalY, htaken, hx, hy⟩
    next => exact absurd hmarked not_marked_nil
  · rintro ⟨halpha, localX, hlocalX, localY, hlocalY, htaken, hx, hy⟩
    refine ⟨localY, hlocalY, localX, hlocalX, ?_⟩
    rw [if_pos htaken]
    exact marked_singleton.mpr ⟨hx, hy, halpha⟩

/-! ## Images -/

/-- The pixel of an image that is scaled into a rectangle. -/
def Surface.scaled (image : Surface) (rect : Rect) (x y : Int) : Color :=
  let sourceX := min ((x - rect.x).toNat * image.width / rect.width) (image.width - 1)
  let sourceY := min ((y - rect.y).toNat * image.height / rect.height) (image.height - 1)
  image.pixels sourceX sourceY

/-- The image has a pixel there that is not transparent. -/
def Surface.PaintsIn (image : Surface) (rect : Rect) (x y : Int) : Prop :=
  image.width ≠ 0 ∧ image.height ≠ 0 ∧ rect.Has x y ∧ (image.scaled rect x y).alpha ≠ 0

theorem marks_imageInk : (∃ ink ∈ imageInk color, ink.Marks) ↔ color.alpha ≠ 0 := by
  unfold imageInk
  split
  next hzero => exact iff_of_false (fun ⟨_, hink, _⟩ => absurd hink not_mem_nil) (not_not.mpr hzero)
  next hne =>
    refine iff_of_true ?_ hne
    split
    next => exact ⟨_, mem_singleton_self _, trivial⟩
    next => exact ⟨_, mem_singleton_self _, hne⟩

/-- A loop over the pixels of a rectangle. -/
theorem marked_cells (r : Rect) (f : Int → Int → List Ink) :
    Marked (r.cells.flatMap fun (x, y) => (f x y).map fun ink => ⟨x, y, ink⟩) x y ↔
      r.Has x y ∧ ∃ ink ∈ f x y, ink.Marks := by
  rw [Marked, inks_cells]
  split
  next hhas => exact (and_iff_right hhas).symm
  next hhas => simp [hhas]

theorem marked_drawScaled {image : Surface} (hscreen : screen.Has x y) :
    Marked (drawScaled screen image rect) x y ↔ image.PaintsIn rect x y := by
  unfold drawScaled Surface.PaintsIn
  split
  next hempty =>
    refine iff_of_false not_marked_nil fun h => ?_
    exact hempty.elim h.1 h.2.1
  next hsize =>
    rw [not_or] at hsize
    split
    next hnone =>
      exact iff_of_false not_marked_nil fun h => Rect.intersect_none hnone ⟨h.2.2.1, hscreen⟩
    next clipped hclipped =>
      refine (marked_cells clipped fun x y => imageInk (image.scaled rect x y)).trans ?_
      rw [marks_imageInk, Rect.intersect_has hclipped]
      exact ⟨fun h => ⟨hsize.1, hsize.2, h.1.1, h.2⟩, fun h => ⟨⟨h.2.2.1, hscreen⟩, h.2.2.2⟩⟩

/-! ## Text -/

/-- The glyphs of a text, as `gui_font_draw_text` places them. -/
def placeTextFrom (font : Font) (pixelHeight : Nat) (lineStartX lineHeight spaceAdvance : Int) :
    List UInt8 → (penX baselineY : Int) → List (Glyph × Int × Int)
  | [], _, _ => []
  | character :: text, penX, baselineY =>
    let next := placeTextFrom font pixelHeight lineStartX lineHeight spaceAdvance text
    if character = 0x0A then next lineStartX (toI32 (baselineY + lineHeight))
    else if character = 0x09 then next (toI32 (penX + spaceAdvance * 4)) baselineY
    else
      match font.glyph (if character < 0x80 then character.toNat else 0x3F) pixelHeight with
      | none => []
      | some glyph =>
        (glyph, toI32 (penX + glyph.bearingX), toI32 (baselineY - glyph.bearingY)) ::
          next (toI32 (penX + glyph.advance)) baselineY

def placeText (font : Font) (start : Int × Int) (pixelHeight : Nat) (text : List UInt8) :
    List (Glyph × Int × Int) :=
  if pixelHeight = 0 then []
  else
    match font.lineMetrics pixelHeight, font.glyph 0x20 pixelHeight with
    | some line, some space =>
      placeTextFrom font pixelHeight start.1 line.lineHeight space.advance text start.1
        (toI32 (start.2 + line.ascent))
    | _, _ => []

/-- A glyph at this place covers the pixel, in a colour of this alpha. -/
def Glyph.Covers (glyph : Glyph) (glyphX glyphY : Int) (alpha : Nat) (x y : Int) : Prop :=
  ∃ bitmap, glyph.bitmap = some bitmap ∧ ∃ row < glyph.height, ∃ column < glyph.width,
    x = glyphX + column ∧ y = glyphY + row ∧ (alpha * (bitmap column row).toNat + 127) / 255 ≠ 0

/-- Some glyph of the text does. -/
def TextPaints (font : Font) (start : Int × Int) (pixelHeight : Nat) (text : List UInt8)
    (color : Color) (x y : Int) : Prop :=
  ∃ g ∈ placeText font start pixelHeight text, g.1.Covers g.2.1 g.2.2 color.alpha x y

theorem marked_blendGlyph {glyph : Glyph} {glyphX glyphY : Int} :
    Marked (blendGlyph glyph glyphX glyphY color) x y ↔
      glyph.Covers glyphX glyphY color.alpha x y := by
  unfold blendGlyph Glyph.Covers
  split
  next hnone =>
    refine iff_of_false not_marked_nil ?_
    rintro ⟨bitmap, hsome, -⟩
    exact nomatch hnone.symm.trans hsome
  next bitmap hbitmap =>
    simp only [marked_flatMap, mem_range]
    constructor
    · rintro ⟨row, hrow, column, hcolumn, hmarked⟩
      split at hmarked
      next => exact absurd hmarked not_marked_nil
      next hne =>
        obtain ⟨hx, hy, -⟩ := marked_singleton.mp hmarked
        exact ⟨bitmap, hbitmap, row, hrow, column, hcolumn, hx, hy, hne⟩
    · rintro ⟨bitmap', hbitmap', row, hrow, column, hcolumn, hx, hy, hne⟩
      obtain rfl := Option.some.inj (hbitmap.symm.trans hbitmap')
      refine ⟨row, hrow, column, hcolumn, ?_⟩
      rw [if_neg hne]
      refine marked_singleton.mpr ⟨hx, hy, ?_⟩
      -- the effective alpha fits in a byte
      have halpha : color.alpha ≤ 255 := Nat.le_of_lt_succ (Nat.mod_lt _ (by decide))
      have hcoverage : (bitmap column row).toNat ≤ 255 := Nat.le_of_lt_succ (UInt8.toNat_lt _)
      have hproduct : color.alpha * (bitmap column row).toNat ≤ 255 * 255 :=
        Nat.mul_le_mul halpha hcoverage
      show Color.alpha (Color.rgba _ _ _ _) ≠ 0
      rw [Color.alpha_rgba]
      omega

theorem drawTextFrom_place {font : Font} {pixelHeight : Nat} {start lineHeight space : Int}
    (text : List UInt8) (penX baselineY : Int) :
    (drawTextFrom font pixelHeight start lineHeight space color text penX baselineY).2 =
      (placeTextFrom font pixelHeight start lineHeight space text penX baselineY).flatMap
        fun g => blendGlyph g.1 g.2.1 g.2.2 color := by
  induction text generalizing penX baselineY with
  | nil => rfl
  | cons character text ih =>
    unfold drawTextFrom placeTextFrom
    dsimp only
    split
    next => exact ih ..
    next =>
      split
      next => exact ih ..
      next =>
        cases font.glyph (if character < 0x80 then character.toNat else 0x3F) pixelHeight with
        | none => rfl
        | some glyph =>
          rw [flatMap_cons, ← ih]

theorem marked_drawText {font : Font} {start : Int × Int} {pixelHeight : Nat}
    {text : List UInt8} : Marked (drawText font start.1 start.2 pixelHeight text color).2 x y ↔
      TextPaints font start pixelHeight text color x y := by
  have hplace : (drawText font start.1 start.2 pixelHeight text color).2 =
      (placeText font start pixelHeight text).flatMap
        fun g => blendGlyph g.1 g.2.1 g.2.2 color := by
    unfold drawText placeText
    split
    next => rfl
    next =>
      cases font.lineMetrics pixelHeight with
      | none => rfl
      | some line =>
        cases font.glyph 0x20 pixelHeight with
        | none => rfl
        | some space => exact drawTextFrom_place ..
  rw [hplace, marked_flatMap]
  simp only [marked_blendGlyph]
  rfl

/-! ## Components -/

/-- A panel: its rounded rectangle. -/
def Panel.Paints (panel : Panel) (bounds : Rect) (x y : Int) : Prop :=
  bounds.Rounded panel.cornerRadius x y

/-- A label: its text, placed in the bounds. -/
def Label.Paints (label : Label) (bounds : Rect) (x y : Int) : Prop :=
  ∃ text font, label.text = some text ∧ label.font = some font ∧
    TextPaints font (label.start bounds (measureText font label.pixelHeight text))
      label.pixelHeight text label.color x y

/-- A button: its background, its border, its icon and its text. -/
def Button.Paints (button : Button) (enabled : Bool) (bounds : Rect) (x y : Int) : Prop :=
  ((button.background enabled).alpha ≠ 0 ∧ bounds.Filled button.cornerRadius x y) ∨
  (button.borderThickness ≠ 0 ∧ button.border.alpha ≠ 0 ∧
    bounds.Stroked button.cornerRadius button.borderThickness x y) ∨
  (∃ image, button.icon = some image ∧ image.PaintsIn (button.iconRect bounds) x y) ∨
  ∃ text font, button.text = some text ∧ button.font = some font ∧
    TextPaints font (button.textStart bounds) button.fontPixelHeight text
      (if enabled then button.textColor else button.disabledTextColor) x y

/-- The component has something to paint at the pixel. -/
def Component.Paints (enabled : Bool) (bounds : Rect) (x y : Int) : Component → Prop
  | .panel p => p.Paints bounds x y
  | .label l => l.Paints bounds x y
  | .image i => ∃ image, i = some image ∧ image.PaintsIn bounds x y
  | .button b => b.Paints enabled bounds x y

variable {bounds : Rect} {enabled : Bool}

theorem Panel.marked (panel : Panel) :
    Marked (panel.render bounds).2 x y ↔ panel.Paints bounds x y := by
  unfold Panel.render Panel.Paints
  rw [marked_append, marked_gradient, marked_stroke]
  exact or_iff_left_of_imp fun h => h.2.2.rounded

/-- A text is drawn when there is both a text and a font. -/
theorem exists_both {α β : Type} {a : Option α} {b : Option β} {P : α → β → Prop} {u : α} {v : β}
    (ha : a = some u) (hb : b = some v) :
    P u v ↔ ∃ u v, a = some u ∧ b = some v ∧ P u v := by
  refine ⟨fun h => ⟨u, v, ha, hb, h⟩, fun ⟨u', v', ha', hb', h⟩ => ?_⟩
  obtain rfl := Option.some.inj (ha.symm.trans ha')
  obtain rfl := Option.some.inj (hb.symm.trans hb')
  exact h

theorem not_exists_both {α β : Type} {a : Option α} {b : Option β} {P : α → β → Prop}
    (h : ∀ u v, a = some u → b = some v → False) : ¬∃ u v, a = some u ∧ b = some v ∧ P u v :=
  fun ⟨u, v, ha, hb, _⟩ => h u v ha hb

theorem Label.marked (label : Label) :
    Marked (label.render bounds).2 x y ↔ label.Paints bounds x y := by
  unfold Label.render Label.Paints
  split
  next text font htext hfont =>
    exact marked_drawText.trans (exists_both (P := fun text font => TextPaints font
      (label.start bounds (measureText font label.pixelHeight text)) label.pixelHeight text
      label.color x y) htext hfont)
  next hnone => exact iff_of_false not_marked_nil (not_exists_both hnone)

theorem Button.marked_frame (button : Button) :
    Marked (button.renderFrame enabled bounds) x y ↔
      ((button.background enabled).alpha ≠ 0 ∧ bounds.Filled button.cornerRadius x y) ∨
      (button.borderThickness ≠ 0 ∧ button.border.alpha ≠ 0 ∧
        bounds.Stroked button.cornerRadius button.borderThickness x y) := by
  unfold Button.renderFrame
  rw [marked_append]
  refine or_congr ?_ ?_
  · split
    next hzero => exact iff_of_false not_marked_nil fun h => h.1 hzero
    next => exact marked_fill
  · split
    next hzero => exact iff_of_false not_marked_nil fun h => hzero.elim h.1 h.2.1
    next => exact marked_stroke

theorem Button.marked_icon (button : Button) (hscreen : screen.Has x y) :
    Marked (match button.icon with
      | none => []
      | some image => drawScaled screen image (button.iconRect bounds)) x y ↔
      ∃ image, button.icon = some image ∧ image.PaintsIn (button.iconRect bounds) x y := by
  cases button.icon with
  | none => exact iff_of_false not_marked_nil (by simp)
  | some image =>
    rw [marked_drawScaled hscreen]
    constructor
    · exact fun h => ⟨image, rfl, h⟩
    · rintro ⟨_, he, h⟩
      exact Option.some.inj he ▸ h

theorem Button.marked (button : Button) (hscreen : screen.Has x y) :
    Marked (button.render screen enabled bounds).2 x y ↔ button.Paints enabled bounds x y := by
  unfold Button.render Button.Paints
  rw [← or_assoc, ← button.marked_frame, ← button.marked_icon hscreen, ← or_assoc, ← marked_append]
  dsimp only
  split
  next text font htext hfont =>
    rw [marked_append, marked_drawText]
    exact or_congr Iff.rfl (exists_both (P := fun text font => TextPaints font
      (button.textStart bounds) button.fontPixelHeight text
      (if enabled then button.textColor else button.disabledTextColor) x y) htext hfont)
  next hnone => exact (or_iff_left (not_exists_both hnone)).symm

/-- On the surface, a component marks what it paints. -/
theorem Component.marked (component : Component) (hscreen : screen.Has x y) :
    Marked (component.render screen enabled bounds).2 x y ↔
      component.Paints enabled bounds x y := by
  cases component with
  | panel p => exact p.marked
  | label l => exact l.marked
  | image i =>
    show Marked (renderImage screen i bounds).2 x y ↔ ∃ image, i = some image ∧ _
    unfold renderImage
    cases i with
    | none => exact iff_of_false not_marked_nil (by simp)
    | some image =>
      dsimp only
      rw [marked_drawScaled hscreen]
      constructor
      · exact fun h => ⟨image, rfl, h⟩
      · rintro ⟨_, he, h⟩
        exact Option.some.inj he ▸ h
  | button b => exact b.marked hscreen

end MeatySkeleton.Gui
