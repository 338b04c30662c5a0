import MeatySkeleton.Gui.Rect

/-!
# Surfaces

`surface.c`: a rectangle of colours of the form `0xAARRGGBB` with straight alpha. The rows of
a surface lie one after the other in memory (`pitch` is four times the width), so each pair of
coordinates inside it has a place of its own.
-/

namespace MeatySkeleton.Gui

/-- `gui_color_t`. -/
abbrev Color := UInt32

/-- `gui_surface_t`, with pixels. -/
structure Surface where
  width : Nat
  height : Nat
  pixels : Int → Int → Color

namespace Surface

/-- `gui_surface_dimensions_valid`. -/
def dimensionsValid (width height : Nat) : Bool :=
  width != 0 && height != 0 && width ≤ (2 ^ 32 - 1) / 4 && height ≤ (2 ^ 32 - 1) / (width * 4)

/-- `gui_surface_create`; `allocated` is whether the heap has the memory. -/
def create (width height : Nat) (allocated : Bool) : Option Surface :=
  if dimensionsValid width height && allocated then some ⟨width, height, fun _ _ => 0⟩ else none

section

variable (surface : Surface)

/-- The whole surface. -/
def rect : Rect := ⟨0, 0, surface.width, surface.height⟩

/-- In bytes. -/
def pitch : Nat := surface.width * 4

/-- The word at an offset from the pixels, in bytes. -/
def word (offset : Nat) : Color :=
  surface.pixels ((offset % surface.pitch / 4 : Nat) : Int) ((offset / surface.pitch : Nat) : Int)

/-- Write to a pixel. -/
def set (x y : Int) (color : Color) : Surface :=
  { surface with
    pixels := fun px py => if px = x ∧ py = y then color else surface.pixels px py }

/-- `gui_surface_put_pixel`. -/
def putPixel (x y : Int) (color : Color) : Surface :=
  if surface.rect.Has x y then surface.set x y color else surface

end

end Surface

end MeatySkeleton.Gui
