import MeatySkeleton.Gui.Drawing
import MeatySkeleton.Gui.Widget

/-!
# Components

The widgets of `components.c` and what of `painter.c` they are painted with: panels without a
shadow, labels, images and buttons. A component is handed its bounds and its clip, and what it
draws depends on its bounds alone.
-/

namespace MeatySkeleton.Gui

/-! ## Rounded rectangles -/

/-- `gui_painter_clamp_radius` and `gui_rounded_rect_clamp_radius`. -/
def clampRadius (width height radius : Nat) : Nat :=
  let maximum := if width < height then width / 2 else height / 2
  if maximum < radius then maximum else radius

/-- The arcs of `gui_painter_rounded_contains`, and `gui_rounded_rect_contains_local_point`. -/
def inArcs (x y width height radius : Nat) : Bool :=
  if radius = 0 then true
  else if radius ≤ x ∧ x < width - radius then true
  else if radius ≤ y ∧ y < height - radius then true
  else
    let centerX : Int := if x < radius then radius - 1 else width - radius
    let centerY : Int := if y < radius then radius - 1 else height - radius
    let dx := x - centerX
    let dy := y - centerY
    dx * dx + dy * dy ≤ radius * radius

/-- `gui_painter_rounded_contains`. -/
def roundedContains (x y width height radius : Nat) : Bool :=
  if width = 0 ∨ height = 0 then false
  else inArcs x y width height (clampRadius width height radius)

/-- Neither coordinate leaves `int32_t`. -/
def InI32 (x y : Int) : Prop := -(2 ^ 31) ≤ x ∧ x < 2 ^ 31 ∧ -(2 ^ 31) ≤ y ∧ y < 2 ^ 31

instance (x y : Int) : Decidable (InI32 x y) := inferInstanceAs (Decidable (_ ∧ _ ∧ _ ∧ _))

/-- The loops of the painter: a call for each local point that is taken. -/
def paintLocal (rect : Rect) (taken : Nat → Nat → Bool) (ink : Nat → Ink) : List Edit :=
  (List.range rect.height).flatMap fun (localY : Nat) =>
    (List.range rect.width).flatMap fun (localX : Nat) =>
      if taken localX localY ∧ InI32 (rect.x + localX) (rect.y + localY) then
        [⟨rect.x + localX, rect.y + localY, ink localY⟩]
      else []

/-- `gui_painter_fill_rounded_vertical_gradient`. -/
def fillRoundedVerticalGradient (rect : Rect) (radius : Nat) (top bottom : Color) : List Edit :=
  let radius := clampRadius rect.width rect.height radius
  let denominator := if 1 < rect.height then rect.height - 1 else 1
  paintLocal rect (fun x y => roundedContains x y rect.width rect.height radius)
    fun y => .put (Color.interpolate top bottom y denominator)

/-- Subtraction of type `uint32_t`. -/
def subU32 (a b : Nat) : Nat := (a + (2 ^ 32 - b % 2 ^ 32)) % 2 ^ 32

/-- The local points of `gui_painter_stroke_rounded_rect`. -/
def inStroke (rect : Rect) (radius thickness : Nat) (x y : Nat) : Bool :=
  let radius := clampRadius rect.width rect.height radius
  let twice := thickness * 2 % 2 ^ 32
  let hasInner := decide (twice < rect.width) && decide (twice < rect.height)
  let innerRadius := if thickness < radius then radius - thickness else 0
  let insideInner := hasInner &&
    decide (thickness ≤ x ∧ thickness ≤ y ∧
      x < subU32 rect.width thickness ∧ y < subU32 rect.height thickness) &&
    roundedContains (x - thickness) (y - thickness) (rect.width - twice) (rect.height - twice)
      innerRadius
  roundedContains x y rect.width rect.height radius && !insideInner

/-- `gui_painter_stroke_rounded_rect`. -/
def strokeRoundedRect (rect : Rect) (radius thickness : Nat) (color : Color) : List Edit :=
  if thickness = 0 then [] else paintLocal rect (inStroke rect radius thickness) fun _ => .blend color

/-- `gui_surface_fill_rounded_rect`. -/
def fillRoundedRect (rect : Rect) (radius : Nat) (color : Color) : List Edit :=
  let radius := clampRadius rect.width rect.height radius
  (List.range rect.height).flatMap fun (y : Nat) => (List.range rect.width).flatMap fun (x : Nat) =>
    if inArcs x y rect.width rect.height radius then
      [⟨toI32 (rect.x + toI32 x), toI32 (rect.y + toI32 y), .put color⟩]
    else []

/-- `gui_surface_fill_rounded_rect_blend`. -/
def fillRoundedRectBlend (rect : Rect) (radius : Nat) (color : Color) : List Edit :=
  let radius := clampRadius rect.width rect.height radius
  (List.range rect.height).flatMap fun (y : Nat) => (List.range rect.width).flatMap fun (x : Nat) =>
    if inArcs x y rect.width rect.height radius then
      [⟨toI32 (rect.x + toI32 x), toI32 (rect.y + toI32 y), .blend color⟩]
    else []

/-! ## Panels -/

/-- `gui_panel_t`, with `shadow_enabled` false. -/
structure Panel where
  cornerRadius : Nat
  gradientTop : Color
  gradientBottom : Color
  border : Color
  borderThickness : Nat

/-- `gui_panel_render`. -/
def Panel.render (panel : Panel) (bounds : Rect) : Bool × List Edit :=
  (true,
    fillRoundedVerticalGradient bounds panel.cornerRadius panel.gradientTop panel.gradientBottom ++
      strokeRoundedRect bounds panel.cornerRadius panel.borderThickness panel.border)

/-! ## Labels -/

/-- `gui_text_align_t`. -/
inductive TextAlign
  | left
  | center
  | right

/-- `gui_label_t`. -/
structure Label where
  text : Option (List UInt8)
  font : Option Font
  pixelHeight : Nat
  color : Color
  alignment : TextAlign

/-- `gui_component_measure_text`. -/
def measureText (font : Font) (pixelHeight : Nat) (text : List UInt8) : Int :=
  text.foldl (fun width (character : UInt8) =>
    let codepoint := if 0x80 ≤ character then 0x3F else character.toNat
    match if pixelHeight = 0 then none else font.glyph codepoint pixelHeight with
    | none => width
    | some glyph => toI32 (width + glyph.advance)) 0

/-- In the middle of `extent`, from `start` on. -/
def middle (start : Int) (extent : Nat) (size : Int) : Int :=
  toI32 (start + (toI32 (toI32 extent - size)).tdiv 2)

/-- Where the text of a label begins. -/
def Label.start (label : Label) (bounds : Rect) (textWidth : Int) : Int × Int :=
  let x :=
    match label.alignment with
    | .left => bounds.x
    | .center => middle bounds.x bounds.width textWidth
    | .right => toI32 (toI32 (bounds.x + toI32 bounds.width) - textWidth)
  (x, middle bounds.y bounds.height (toI32 label.pixelHeight))

/-- `gui_label_render`. -/
def Label.render (label : Label) (bounds : Rect) : Bool × List Edit :=
  match label.text, label.font with
  | some text, some font =>
    let start := label.start bounds (measureText font label.pixelHeight text)
    drawText font start.1 start.2 label.pixelHeight text label.color
  | _, _ => (true, [])

/-! ## Images -/

/-- `gui_image_widget_render`, on a surface with the pixels of `screen`. -/
def renderImage (screen : Rect) (image : Option Surface) (bounds : Rect) : Bool × List Edit :=
  match image with
  | none => (true, [])
  | some image => (true, drawScaled screen image bounds)

/-! ## Buttons -/

/-- `gui_button_t`. -/
structure Button where
  text : Option (List UInt8)
  icon : Option Surface
  font : Option Font
  fontPixelHeight : Nat
  textColor : Color
  disabledTextColor : Color
  backgroundNormal : Color
  backgroundHover : Color
  backgroundPressed : Color
  backgroundDisabled : Color
  border : Color
  borderThickness : Nat
  cornerRadius : Nat
  horizontalPadding : Nat
  hovered : Bool
  pressed : Bool

namespace Button

/-- The colour of the background. -/
def background (button : Button) (enabled : Bool) : Color :=
  if !enabled then button.backgroundDisabled
  else if button.pressed then button.backgroundPressed
  else if button.hovered then button.backgroundHover
  else button.backgroundNormal

/-- Where the content begins. -/
def contentX (button : Button) (bounds : Rect) : Int :=
  toI32 (bounds.x + toI32 button.horizontalPadding)

def iconSize (bounds : Rect) : Nat := if 16 < bounds.height then bounds.height - 16 else bounds.height

/-- The place of the icon. -/
def iconRect (button : Button) (bounds : Rect) : Rect :=
  ⟨button.contentX bounds, middle bounds.y bounds.height (toI32 (iconSize bounds)), iconSize bounds,
    iconSize bounds⟩

/-- Where the text begins. -/
def textStart (button : Button) (bounds : Rect) : Int × Int :=
  let x :=
    match button.icon with
    | none => button.contentX bounds
    | some _ => toI32 (button.contentX bounds + toI32 (toI32 (iconSize bounds) + 8))
  (x, middle bounds.y bounds.height (toI32 button.fontPixelHeight))

/-- The background and the border. -/
def renderFrame (button : Button) (enabled : Bool) (bounds : Rect) : List Edit :=
  (if (button.background enabled).alpha = 0 then []
    else fillRoundedRectBlend bounds button.cornerRadius (button.background enabled)) ++
    if button.borderThickness = 0 ∨ button.border.alpha = 0 then []
    else strokeRoundedRect bounds button.cornerRadius button.borderThickness button.border

/-- `gui_button_render`. -/
def render (screen : Rect) (button : Button) (enabled : Bool) (bounds : Rect) :
    Bool × List Edit :=
  let icon :=
    match button.icon with
    | none => []
    | some image => drawScaled screen image (button.iconRect bounds)
  match button.text, button.font with
  | some text, some font =>
    let start := button.textStart bounds
    let drawn := drawText font start.1 start.2 button.fontPixelHeight text
      (if enabled then button.textColor else button.disabledTextColor)
    (drawn.1, button.renderFrame enabled bounds ++ icon ++ drawn.2)
  | _, _ => (true, button.renderFrame enabled bounds ++ icon)

end Button

/-! ## Trees of components -/

inductive Component
  | panel (panel : Panel)
  | label (label : Label)
  | image (image : Option Surface)
  | button (button : Button)

/-- What the component draws: the operations of `components.c`. -/
def Component.render (screen : Rect) (enabled : Bool) (bounds : Rect) : Component → Bool × List Edit
  | .panel p => p.render bounds
  | .label l => l.render bounds
  | .image i => renderImage screen i bounds
  | .button b => b.render screen enabled bounds

/-- A call of a render callback: the widget, and the surface before and after it. -/
structure RenderCall (n : Nat) where
  widget : Fin n
  before : Surface
  after : Surface

/-- A surface, and the calls that were made. -/
structure Canvas (n : Nat) where
  surface : Surface
  calls : List (RenderCall n)

variable {n : Nat}

/-- The render callback of a widget. -/
def Component.callback (component : Component) (widget : Fin n) (enabled : Bool) :
    Render (Canvas n) := fun bounds _ canvas =>
  let (complete, edits) := component.render canvas.surface.rect enabled bounds
  let surface := canvas.surface.draw edits
  (complete, ⟨surface, canvas.calls ++ [⟨widget, canvas.surface, surface⟩]⟩)

/-- Widgets that are these components. -/
def Widgets.Built (w : Widgets n (Canvas n)) (components : Fin n → Component) : Prop :=
  ∀ x, (w x).render = some ((components x).callback x (w x).enabled)

end MeatySkeleton.Gui
