import Mathlib.Algebra.Group.Nat.Defs
import Mathlib.Logic.Function.Basic

/-!
# The framebuffer

`framebuffer.c`: the video memory, mapped page by page from `FRAMEBUFFER_VIRTUAL_BASE` on, and
the functions that draw into it. What paging answers is an input of a call. A drawing function
gives the pixels it writes, in order; `pixelAddress` is where a pixel lies, in the 32-bit
arithmetic of the code.
-/

namespace MeatySkeleton.Device

/-- `FRAMEBUFFER_VIRTUAL_BASE`. -/
def framebufferVirtualBase : Nat := 0xF0000000
/-- `FRAMEBUFFER_VIRTUAL_LIMIT`. -/
def framebufferVirtualLimit : Nat := 0xFFC00000
/-- `PAGE_SIZE`. -/
def framebufferPageSize : Nat := 4096
/-- `MULTIBOOT_FRAMEBUFFER_TYPE_RGB`. -/
def framebufferTypeRgb : Nat := 1

/-- `framebuffer_boot_info_t`. -/
structure FramebufferBootInfo where
  physicalAddress : Nat
  pitch : Nat
  width : Nat
  height : Nat
  bpp : Nat
  type : Nat
  redPosition : UInt32
  redMaskSize : Nat
  greenPosition : UInt32
  greenMaskSize : Nat
  bluePosition : UInt32
  blueMaskSize : Nat

/-- `framebuffer_state_t`. -/
structure Framebuffer where
  available : Bool
  pixels : Nat
  physicalAddress : Nat
  physicalPageBase : Nat
  physicalOffset : Nat
  pitch : Nat
  width : Nat
  height : Nat
  bpp : Nat
  redPosition : UInt32
  greenPosition : UInt32
  bluePosition : UInt32
  mappedPages : Nat
  mappedCapacity : Nat

/-- The state after `memset`. -/
def Framebuffer.zero : Framebuffer := ⟨false, 0, 0, 0, 0, 0, 0, 0, 0, 0, 0, 0, 0, 0⟩

/-- The state and the pages from the virtual base on that were mapped for it, with their
physical addresses. -/
structure Video where
  fb : Framebuffer
  pages : Nat → Option Nat

/-- What paging answers about a page: that it is mapped, by whomever, and whether it can be. -/
structure Paging where
  occupied : Nat → Bool
  succeeds : Nat → Bool

/-! ## Mapping -/

namespace Video

/-- The loop of `framebuffer_map_capacity` over `count` pages from `index` on. -/
def mapPages (paging : Paging) : (index count : Nat) → Video → Bool × Video
  | _, 0, v => (true, v)
  | index, count + 1, v =>
    if (v.pages index).isSome || paging.occupied index then (false, v)
    else if !paging.succeeds index then (false, v)
    else
      let physicalAddress := (v.fb.physicalPageBase + index * framebufferPageSize) % 2 ^ 32
      mapPages paging (index + 1) count
        { fb := { v.fb with mappedPages := index + 1 }
          pages := Function.update v.pages index (some physicalAddress) }

/-- `framebuffer_map_capacity`. -/
def mapCapacity (paging : Paging) (capacityBytes : Nat) (v : Video) : Bool × Video :=
  if capacityBytes = 0 then (false, v)
  else
    let requiredBytes := v.fb.physicalOffset + capacityBytes
    if framebufferVirtualLimit - framebufferVirtualBase < requiredBytes then (false, v)
    else
      let rounded := (requiredBytes + (framebufferPageSize - 1)) % 2 ^ 64
      if rounded < requiredBytes then (false, v)
      else
        let requiredPages := rounded / framebufferPageSize
        let first := v.fb.mappedPages
        let (mapped, v) := mapPages paging first (requiredPages - first) v
        if !mapped then (false, v)
        else
          (true, { v with fb := { v.fb with
            pixels := framebufferVirtualBase + v.fb.physicalOffset
            mappedCapacity := capacityBytes } })

/-- The checks of `framebuffer_initialize`. -/
def accepts (info : FramebufferBootInfo) : Bool :=
  info.type == framebufferTypeRgb && info.bpp == 32 &&
  !(info.width == 0 || info.height == 0 || info.pitch == 0) &&
  (info.redMaskSize == 8 && info.greenMaskSize == 8 && info.blueMaskSize == 8) &&
  (info.redPosition ≤ 24 && info.greenPosition ≤ 24 && info.bluePosition ≤ 24) &&
  info.physicalAddress ≤ 0xFFFFFFFF && info.width * 4 ≤ info.pitch &&
  !(info.pitch * info.height == 0 || decide (0xFFFFFFFF < info.pitch * info.height))

/-- The assignments of `framebuffer_initialize` to the cleared state. -/
def bootState (info : FramebufferBootInfo) : Framebuffer :=
  let physicalPageBase := info.physicalAddress / framebufferPageSize * framebufferPageSize
  { Framebuffer.zero with
    physicalAddress := info.physicalAddress
    physicalPageBase := physicalPageBase
    physicalOffset := info.physicalAddress - physicalPageBase
    pitch := info.pitch
    width := info.width
    height := info.height
    bpp := info.bpp
    redPosition := info.redPosition
    greenPosition := info.greenPosition
    bluePosition := info.bluePosition }

/-- `framebuffer_initialize`. -/
def framebufferInitialize (paging : Paging) (info : Option FramebufferBootInfo) (v : Video) :
    Bool × Video :=
  match info with
  | none => (false, { v with fb := .zero })
  | some info =>
    if !accepts info then (false, { v with fb := .zero })
    else
      let (mapped, v) := mapCapacity paging (info.pitch * info.height) { v with fb := bootState info }
      if !mapped then (false, { v with fb := .zero })
      else (true, { v with fb := { v.fb with available := true } })

/-- `framebuffer_set_geometry`. -/
def setGeometry (width height pitch bpp : Nat) (v : Video) : Bool × Video :=
  if !v.fb.available then (false, v)
  else if bpp ≠ 32 then (false, v)
  else if width = 0 ∨ height = 0 ∨ pitch = 0 then (false, v)
  else if pitch < width * 4 then (false, v)
  else if v.fb.mappedCapacity < pitch * height then (false, v)
  else (true, { v with fb := { v.fb with width, height, pitch, bpp } })

/-- A call that changes the state. -/
inductive Op
  | framebufferInitialize (paging : Paging) (info : Option FramebufferBootInfo)
  | mapCapacity (paging : Paging) (capacityBytes : Nat)
  | setGeometry (width height pitch bpp : Nat)

def step (v : Video) : Op → Option Video
  | .framebufferInitialize paging info => some (v.framebufferInitialize paging info).2
  | .mapCapacity paging capacityBytes => some (v.mapCapacity paging capacityBytes).2
  | .setGeometry width height pitch bpp => some (v.setGeometry width height pitch bpp).2

end Video

/-! ## Drawing -/

/-- A pixel and what is written to it. -/
structure PixelWrite where
  x : Nat
  y : Nat
  value : UInt32

namespace Framebuffer

/-- Where a pixel lies. -/
def pixelAddress (fb : Framebuffer) (x y : Nat) : Nat :=
  (fb.pixels + y * fb.pitch + x * 4) % 2 ^ 32

/-- `framebuffer_pack_rgb`. -/
def packRgb (fb : Framebuffer) (rgb : UInt32) : UInt32 :=
  let red := (rgb >>> 16) &&& 0xFF
  let green := (rgb >>> 8) &&& 0xFF
  let blue := rgb &&& 0xFF
  (red <<< fb.redPosition) ||| (green <<< fb.greenPosition) ||| (blue <<< fb.bluePosition)

/-- The writes of two nested loops over a block of pixels. -/
def block (x y width height : Nat) (value : Nat → Nat → UInt32) : List PixelWrite :=
  (List.range height).flatMap fun row =>
    (List.range width).map fun column => ⟨x + column, y + row, value row column⟩

/-- `framebuffer_put_pixel`. -/
def putPixel (fb : Framebuffer) (x y : Nat) (rgb : UInt32) : List PixelWrite :=
  if !fb.available then []
  else if fb.width ≤ x ∨ fb.height ≤ y then []
  else [⟨x, y, fb.packRgb rgb⟩]

/-- `framebuffer_clear`. -/
def clear (fb : Framebuffer) (rgb : UInt32) : List PixelWrite :=
  if !fb.available then []
  else block 0 0 fb.width fb.height fun _ _ => fb.packRgb rgb

/-- `framebuffer_fill_rect`. -/
def fillRect (fb : Framebuffer) (x y width height : Nat) (rgb : UInt32) : List PixelWrite :=
  if !fb.available then []
  else if width = 0 ∨ height = 0 then []
  else if fb.width ≤ x ∨ fb.height ≤ y then []
  else
    let endX := min (x + width) fb.width
    let endY := min (y + height) fb.height
    block x y (endX - x) (endY - y) fun _ _ => fb.packRgb rgb

/-- `font_glyph`: the rows of the 5x7 font. -/
def fontGlyph : Char → Option (List UInt8)
  | 'M' => some [0x11, 0x1B, 0x15, 0x15, 0x11, 0x11, 0x11]
  | 'e' => some [0x00, 0x0E, 0x11, 0x1F, 0x10, 0x0F, 0x00]
  | 'a' => some [0x00, 0x0E, 0x01, 0x0F, 0x11, 0x0F, 0x00]
  | 't' => some [0x04, 0x04, 0x1F, 0x04, 0x04, 0x05, 0x02]
  | 'y' => some [0x00, 0x11, 0x11, 0x0F, 0x01, 0x0E, 0x00]
  | 'g' => some [0x00, 0x0F, 0x11, 0x0F, 0x01, 0x0E, 0x00]
  | 'r' => some [0x00, 0x16, 0x19, 0x10, 0x10, 0x10, 0x00]
  | 'p' => some [0x00, 0x1E, 0x11, 0x1E, 0x10, 0x10, 0x10]
  | 'h' => some [0x10, 0x10, 0x16, 0x19, 0x11, 0x11, 0x11]
  | 'i' => some [0x04, 0x00, 0x0C, 0x04, 0x04, 0x04, 0x0E]
  | 'c' => some [0x00, 0x0F, 0x10, 0x10, 0x10, 0x0F, 0x00]
  | 's' => some [0x00, 0x0F, 0x10, 0x0E, 0x01, 0x1E, 0x00]
  | 'O' => some [0x0E, 0x11, 0x11, 0x11, 0x11, 0x11, 0x0E]
  | 'K' => some [0x11, 0x12, 0x14, 0x18, 0x14, 0x12, 0x11]
  | _ => none

/-- `framebuffer_draw_character`. -/
def drawCharacter (fb : Framebuffer) (x y : Nat) (character : Char) (rgb : UInt32) (scale : Nat) :
    List PixelWrite :=
  if scale = 0 then []
  else
    match fontGlyph character with
    | none => []
    | some glyph =>
      (List.range 7).flatMap fun row => (List.range 5).flatMap fun column =>
        let bits := glyph.getD row 0
        let mask : UInt8 := 1 <<< (4 - UInt8.ofNat column)
        if bits &&& mask = 0 then []
        else
          fb.fillRect ((x + column * scale) % 2 ^ 32) ((y + row * scale) % 2 ^ 32) scale scale rgb

/-- The loop of `framebuffer_draw_string`. -/
def drawCharacters (fb : Framebuffer) (y : Nat) (rgb : UInt32) (scale : Nat) :
    (cursorX : Nat) → (text : List Char) → List PixelWrite
  | _, [] => []
  | cursorX, character :: text =>
    fb.drawCharacter cursorX y character rgb scale ++
      fb.drawCharacters y rgb scale ((cursorX + 6 * scale) % 2 ^ 32) text

/-- `framebuffer_draw_string`. -/
def drawString (fb : Framebuffer) (x y : Nat) (text : Option (List Char)) (rgb : UInt32)
    (scale : Nat) : List PixelWrite :=
  match text with
  | none => []
  | some text => if !fb.available || scale == 0 then [] else fb.drawCharacters y rgb scale x text

/-- What `framebuffer_blit_rgb32` writes for a colour: the colour itself in the usual layout. -/
def blitted (fb : Framebuffer) (color : UInt32) : UInt32 :=
  let nativeRgb := fb.redPosition == 16 && fb.greenPosition == 8 && fb.bluePosition == 0
  if nativeRgb then color else fb.packRgb color

/-- `framebuffer_blit_rgb32`; the source is read at offsets in bytes. -/
def blitRgb32 (fb : Framebuffer) (destinationX destinationY width height : Nat)
    (sourcePixels : Option (Nat → UInt32)) (sourcePitch : Nat) : List PixelWrite :=
  match sourcePixels with
  | none => []
  | some source =>
    if !fb.available then []
    else if fb.bpp ≠ 32 then []
    else if width = 0 ∨ height = 0 then []
    else if fb.width ≤ destinationX ∨ fb.height ≤ destinationY then []
    else
      let width := min width (fb.width - destinationX)
      let height := min height (fb.height - destinationY)
      if sourcePitch < width * 4 then []
      else
        block destinationX destinationY width height fun y x =>
          fb.blitted (source (y * sourcePitch + x * 4))

/-- A call of a drawing function. -/
inductive Draw
  | putPixel (x y : Nat) (rgb : UInt32)
  | clear (rgb : UInt32)
  | fillRect (x y width height : Nat) (rgb : UInt32)
  | drawString (x y : Nat) (text : Option (List Char)) (rgb : UInt32) (scale : Nat)
  | blitRgb32 (destinationX destinationY width height : Nat)
      (sourcePixels : Option (Nat → UInt32)) (sourcePitch : Nat)

/-- What it writes. -/
def draw (fb : Framebuffer) : Draw → List PixelWrite
  | .putPixel x y rgb => fb.putPixel x y rgb
  | .clear rgb => fb.clear rgb
  | .fillRect x y width height rgb => fb.fillRect x y width height rgb
  | .drawString x y text rgb scale => fb.drawString x y text rgb scale
  | .blitRgb32 x y width height source pitch => fb.blitRgb32 x y width height source pitch

end Framebuffer

end MeatySkeleton.Device
