import MeatySkeleton.Gui.Surface

/-!
# Drawing

What is drawn on a surface, as the pixels that `gui_surface_put_pixel` and
`gui_surface_blend_pixel` are called for, in their order: rectangles and gradients of
`surface.c`, scaled images of `image.c` and text of `font.c`. A pixel outside of the surface is
not drawn. The glyphs come from the rasterizer, which is not modelled; a `Font` is what it
answers.
-/

namespace MeatySkeleton.Gui

/-- Conversion to `int32_t`. -/
def toI32 (n : Int) : Int := (n + 2 ^ 31) % 2 ^ 32 - 2 ^ 31

/-! ## Colours -/

namespace Color

/-- `GUI_RGBA`. -/
def rgba (red green blue alpha : Nat) : Color :=
  .ofNat (alpha % 256 * 2 ^ 24 + red % 256 * 2 ^ 16 + green % 256 * 2 ^ 8 + blue % 256)

/-- `GUI_RGB`. -/
def rgb (red green blue : Nat) : Color := rgba red green blue 255

/-- `gui_color_alpha`. -/
def alpha (color : Color) : Nat := color.toNat / 2 ^ 24 % 256

/-- `gui_color_red`. -/
def red (color : Color) : Nat := color.toNat / 2 ^ 16 % 256

/-- `gui_color_green`. -/
def green (color : Color) : Nat := color.toNat / 2 ^ 8 % 256

/-- `gui_color_blue`. -/
def blue (color : Color) : Nat := color.toNat % 256

/-- `gui_color_blend`. -/
def blend (destination source : Color) : Color :=
  let sourceAlpha := source.alpha
  if sourceAlpha = 0 then destination
  else if sourceAlpha = 255 then source
  else
    let destinationAlpha := destination.alpha
    let inverse := 255 - sourceAlpha
    let outAlphaNumerator := sourceAlpha * 255 + destinationAlpha * inverse
    if outAlphaNumerator = 0 then rgba 0 0 0 0
    else
      let outAlpha := (outAlphaNumerator + 127) / 255
      let channel (source destination : Nat) : Nat :=
        (source * sourceAlpha * 255 + destination * destinationAlpha * inverse +
          outAlphaNumerator / 2) / outAlphaNumerator
      rgba (channel source.red destination.red) (channel source.green destination.green)
        (channel source.blue destination.blue) outAlpha

/-- `gui_color_interpolate_channel`. -/
def interpolateChannel (first second numerator denominator : Nat) : Nat :=
  if denominator = 0 then first
  else
    let inverse := denominator - numerator
    let value := (first * inverse + second * numerator + denominator / 2) % 2 ^ 32
    value / denominator % 256

/-- `gui_color_interpolate`. -/
def interpolate (first second : Color) (numerator denominator : Nat) : Color :=
  let channel (of : Color → Nat) := interpolateChannel (of first) (of second) numerator denominator
  rgba (channel red) (channel green) (channel blue) (channel alpha)

end Color

/-! ## Pixels -/

/-- What is done to a pixel. -/
inductive Ink
  /-- `gui_surface_put_pixel`. -/
  | put (color : Color)
  /-- `gui_surface_blend_pixel`. -/
  | blend (color : Color)

/-- The colour of a pixel afterwards. -/
def Ink.on : Ink → Color → Color
  | .put color, _ => color
  | .blend color, destination => destination.blend color

/-- A call for one pixel. -/
structure Edit where
  x : Int
  y : Int
  ink : Ink

namespace Surface

/-- One call. -/
def edit (surface : Surface) (e : Edit) : Surface :=
  if surface.rect.Has e.x e.y then surface.set e.x e.y (e.ink.on (surface.pixels e.x e.y))
  else surface

/-- The calls, one after the other. -/
def draw (surface : Surface) (edits : List Edit) : Surface := edits.foldl edit surface

end Surface

/-! ## Rectangles -/

/-- The pixels of a rectangle, row by row. -/
def Rect.cells (r : Rect) : List (Int × Int) :=
  (List.range r.height).flatMap fun (row : Nat) => (List.range r.width).map fun (column : Nat) =>
    (r.x + column, r.y + row)

/-- `gui_surface_fill_rect`, on a surface that has the pixels of `bounds`. -/
def fillRect (bounds rect : Rect) (color : Color) : List Edit :=
  match rect.intersect bounds with
  | none => []
  | some clipped => clipped.cells.map fun (x, y) => ⟨x, y, .put color⟩

/-- `gui_surface_fill_vertical_gradient`. -/
def fillVerticalGradient (bounds rect : Rect) (top bottom : Color) : List Edit :=
  match rect.intersect bounds with
  | none => []
  | some clipped =>
    let denominator := if 1 < rect.height then rect.height - 1 else 1
    (List.range clipped.height).flatMap fun (y : Nat) =>
      let absoluteY := clipped.y + y
      let gradientY := Rect.toU32 (absoluteY - rect.y)
      let gradientY := if denominator < gradientY then denominator else gradientY
      fillRect bounds ⟨clipped.x, absoluteY, clipped.width, 1⟩
        (Color.interpolate top bottom gradientY denominator)

/-! ## Images -/

/-- The call for a pixel of an image, or of a window. -/
def imageInk (color : Color) : List Ink :=
  if color.alpha = 0 then [] else if color.alpha = 255 then [.put color] else [.blend color]

/-- `gui_image_draw_scaled`. -/
def drawScaled (bounds : Rect) (image : Surface) (rect : Rect) : List Edit :=
  if image.width = 0 ∨ image.height = 0 then []
  else
    match rect.intersect bounds with
    | none => []
    | some clipped => clipped.cells.flatMap fun (x, y) =>
      let sourceX := min ((x - rect.x).toNat * image.width / rect.width) (image.width - 1)
      let sourceY := min ((y - rect.y).toNat * image.height / rect.height) (image.height - 1)
      (imageInk (image.pixels sourceX sourceY)).map fun ink => ⟨x, y, ink⟩

/-! ## Text -/

/-- `gui_cached_glyph_t`; there is no bitmap when a side is zero. -/
structure Glyph where
  width : Nat
  height : Nat
  bearingX : Int
  bearingY : Int
  advance : Int
  bitmap : Option (Nat → Nat → UInt8)

/-- `gui_font_line_metrics_t`. -/
structure LineMetrics where
  ascent : Int
  lineHeight : Int

/-- A font: `gui_font_get_line_metrics` of a height, and `gui_font_rasterize_glyph` of a code
point and a height. -/
structure Font where
  lineMetrics : Nat → Option LineMetrics
  glyph : Nat → Nat → Option Glyph

/-- `gui_font_blend_glyph`. -/
def blendGlyph (glyph : Glyph) (x y : Int) (color : Color) : List Edit :=
  match glyph.bitmap with
  | none => []
  | some bitmap =>
    (List.range glyph.height).flatMap fun row => (List.range glyph.width).flatMap fun column =>
      let effectiveAlpha := (color.alpha * (bitmap column row).toNat + 127) / 255
      if effectiveAlpha = 0 then []
      else
        [⟨x + column, y + row, .blend (.rgba color.red color.green color.blue effectiveAlpha)⟩]

/-- The loop of `gui_font_draw_text`: whether it reaches the end, and what it draws. -/
def drawTextFrom (font : Font) (pixelHeight : Nat) (lineStartX lineHeight spaceAdvance : Int)
    (color : Color) : List UInt8 → (penX baselineY : Int) → Bool × List Edit
  | [], _, _ => (true, [])
  | character :: text, penX, baselineY =>
    let next := drawTextFrom font pixelHeight lineStartX lineHeight spaceAdvance color text
    if character = 0x0A then next lineStartX (toI32 (baselineY + lineHeight))
    else if character = 0x09 then next (toI32 (penX + spaceAdvance * 4)) baselineY
    else
      let codepoint := if character < 0x80 then character.toNat else 0x3F
      match font.glyph codepoint pixelHeight with
      | none => (false, [])
      | some glyph =>
        let glyphX := toI32 (penX + glyph.bearingX)
        let glyphY := toI32 (baselineY - glyph.bearingY)
        let (complete, rest) := next (toI32 (penX + glyph.advance)) baselineY
        (complete, blendGlyph glyph glyphX glyphY color ++ rest)

/-- `gui_font_draw_text`. -/
def drawText (font : Font) (x y : Int) (pixelHeight : Nat) (text : List UInt8) (color : Color) :
    Bool × List Edit :=
  if pixelHeight = 0 then (false, [])
  else
    match font.lineMetrics pixelHeight, font.glyph 0x20 pixelHeight with
    | some line, some space =>
      drawTextFrom font pixelHeight x line.lineHeight space.advance color text x
        (toI32 (y + line.ascent))
    | _, _ => (false, [])

end MeatySkeleton.Gui
