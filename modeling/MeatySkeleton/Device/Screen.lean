import MeatySkeleton.Device.Framebuffer
import Mathlib.Tactic.IntervalCases

/-!
# The picture

What the framebuffer shows, as a grid of the words its pixels hold, and what is left of it
after a list of writes.
-/

namespace MeatySkeleton.Device

open List

/-- The words of the pixels. -/
abbrev Screen := Nat → Nat → UInt32

namespace Screen

def write (screen : Screen) (p : PixelWrite) : Screen := fun x y =>
  if x = p.x ∧ y = p.y then p.value else screen x y

/-- Carry out the writes one after the other. -/
def paint (screen : Screen) (writes : List PixelWrite) : Screen := writes.foldl write screen

variable {screen : Screen} {writes : List PixelWrite} {x y : Nat}

theorem paint_append (writes writes' : List PixelWrite) :
    screen.paint (writes ++ writes') = (screen.paint writes).paint writes' :=
  foldl_append

/-- A pixel that is not written to. -/
theorem paint_unwritten (h : ∀ p ∈ writes, ¬(p.x = x ∧ p.y = y)) :
    screen.paint writes x y = screen x y := by
  induction writes generalizing screen with
  | nil => rfl
  | cons p writes ih =>
    show (screen.write p).paint writes x y = _
    rw [ih fun q hq => h q (mem_cons_of_mem _ hq)]
    refine if_neg fun hp => h p mem_cons_self ⟨hp.1.symm, hp.2.symm⟩

/-- A pixel whose writes all have the value it had or the value `v`. -/
theorem paint_same {v : UInt32} (h : ∀ p ∈ writes, p.x = x → p.y = y → p.value = v)
    (hv : screen x y = v) : screen.paint writes x y = v := by
  induction writes generalizing screen with
  | nil => exact hv
  | cons p writes ih =>
    refine ih (fun q hq => h q (mem_cons_of_mem _ hq)) ?_
    by_cases hp : x = p.x ∧ y = p.y
    · rw [write, if_pos hp]
      exact h p mem_cons_self hp.1.symm hp.2.symm
    · rw [write, if_neg hp]
      exact hv

/-- A pixel that is written to, each time with the same value. -/
theorem paint_written {v : UInt32} (h : ∀ p ∈ writes, p.x = x → p.y = y → p.value = v)
    (hw : ∃ p ∈ writes, p.x = x ∧ p.y = y) : screen.paint writes x y = v := by
  obtain ⟨p, hp, rfl, rfl⟩ := hw
  obtain ⟨before, after, rfl⟩ := append_of_mem hp
  rw [paint_append]
  show ((screen.paint before).write p).paint after p.x p.y = v
  refine paint_same (fun q hq => h q (mem_append_right _ (mem_cons_of_mem _ hq))) ?_
  rw [write, if_pos ⟨rfl, rfl⟩]
  exact h p (mem_append_right _ mem_cons_self) rfl rfl

end Screen

namespace Framebuffer

variable {fb : Framebuffer} {p : PixelWrite}

theorem mem_block {x y width height : Nat} {value : Nat → Nat → UInt32} :
    p ∈ block x y width height value ↔
    ∃ row < height, ∃ column < width, p = ⟨x + column, y + row, value row column⟩ := by
  unfold block
  simp only [mem_flatMap, mem_map, mem_range, eq_comm]

/-- What a block leaves of a picture. -/
theorem paint_block {screen : Screen} {x y width height px py : Nat}
    {value : Nat → Nat → UInt32} :
    screen.paint (block x y width height value) px py =
      if x ≤ px ∧ px < x + width ∧ y ≤ py ∧ py < y + height then value (py - y) (px - x)
      else screen px py := by
  split
  next hin =>
    refine Screen.paint_written (fun p hp hx hy => ?_)
      ⟨⟨px, py, value (py - y) (px - x)⟩, mem_block.mpr ?_, rfl, rfl⟩
    · obtain ⟨row, -, column, -, rfl⟩ := mem_block.mp hp
      dsimp only at hx hy ⊢
      rw [← hx, ← hy, Nat.add_sub_cancel_left, Nat.add_sub_cancel_left]
    · refine ⟨py - y, by omega, px - x, by omega, ?_⟩
      rw [Nat.add_sub_cancel' hin.1, Nat.add_sub_cancel' hin.2.2.1]
  next hout =>
    refine Screen.paint_unwritten fun p hp hat => hout ?_
    obtain ⟨row, hrow, column, hcolumn, rfl⟩ := mem_block.mp hp
    dsimp only at hat
    omega

/-- A rectangle that lies in the picture. -/
theorem fillRect_inside {x y width height : Nat} {rgb : UInt32} (havailable : fb.available = true)
    (hwidth : 0 < width) (hheight : 0 < height) (hx : x + width ≤ fb.width)
    (hy : y + height ≤ fb.height) :
    fb.fillRect x y width height rgb = block x y width height fun _ _ => fb.packRgb rgb := by
  have hw : min (x + width) fb.width - x = width := by omega
  have hh : min (y + height) fb.height - y = height := by omega
  unfold fillRect
  dsimp only
  rw [havailable, if_neg (by decide), if_neg (by omega), if_neg (by omega), hw, hh]

/-- The bits of the three channels. -/
def rgbMask (fb : Framebuffer) : UInt32 :=
  (0xFF <<< fb.redPosition) ||| (0xFF <<< fb.greenPosition) ||| (0xFF <<< fb.bluePosition)

/-- The word has the red, green and blue of a colour in its channels. -/
def ShowsRgb (fb : Framebuffer) (word rgb : UInt32) : Prop :=
  word &&& fb.rgbMask = fb.packRgb rgb &&& fb.rgbMask

instance (fb : Framebuffer) (word rgb : UInt32) : Decidable (fb.ShowsRgb word rgb) :=
  inferInstanceAs (Decidable (_ = _))

/-- In the usual layout a colour is its own packed form, but for its alpha. -/
theorem pack_native (rgb : UInt32) : rgb &&& (0xFFFFFF : UInt32) =
    (((rgb >>> 16 &&& 0xFF) <<< (16 : UInt32)) ||| ((rgb >>> 8 &&& 0xFF) <<< (8 : UInt32)) |||
      ((rgb &&& 0xFF) <<< (0 : UInt32))) &&& (0xFFFFFF : UInt32) := by
  apply UInt32.eq_of_toBitVec_eq
  ext i hi
  simp
  interval_cases i <;> simp

theorem blitted_shows (fb : Framebuffer) (color : UInt32) :
    fb.ShowsRgb (fb.blitted color) color := by
  unfold blitted
  dsimp only
  split
  next hnative =>
    simp only [Bool.and_eq_true, beq_iff_eq] at hnative
    obtain ⟨⟨hred, hgreen⟩, hblue⟩ := hnative
    unfold ShowsRgb rgbMask packRgb
    rw [hred, hgreen, hblue]
    exact pack_native color
  next => rfl

/-- A transfer that lies in the picture. -/
theorem blitRgb32_inside {x y width height pitch : Nat} {source : Nat → UInt32}
    (havailable : fb.available = true) (hbpp : fb.bpp = 32) (hwidth : 0 < width)
    (hheight : 0 < height) (hx : x + width ≤ fb.width) (hy : y + height ≤ fb.height)
    (hpitch : width * 4 ≤ pitch) :
    fb.blitRgb32 x y width height (some source) pitch =
      block x y width height fun row column => fb.blitted (source (row * pitch + column * 4)) := by
  have hw : min width (fb.width - x) = width := by omega
  have hh : min height (fb.height - y) = height := by omega
  unfold blitRgb32
  dsimp only
  rw [havailable, hw, hh, if_neg (by decide), if_neg (not_not_intro hbpp), if_neg (by omega),
    if_neg (by omega), if_neg (Nat.not_lt.mpr hpitch)]

end Framebuffer

end MeatySkeleton.Device
