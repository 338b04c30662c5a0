import MeatySkeleton.Gui.Composition
import MeatySkeleton.Gui.Painting
import Mathlib.Data.Int.ConditionallyCompleteOrder

/-!
# The geometry of the wallpaper

The rectangle of a wallpaper has one side of the screen, and the other one from the sides of the
image: rounded up where the image is to fill the screen, and down where it is to fit. The image is
scaled into the rectangle by a pixel of it for each pixel of the screen, and a pixel of the image
that is transparent is not drawn.
-/

namespace MeatySkeleton.Gui

open Desktop (nonzeroDimension wallpaperRect centered)

variable {screen image : Surface} {rect : Rect}

/-- Sides that the decoder takes. -/
structure Surface.Decodable (s : Surface) : Prop where
  width : 1 ≤ s.width ∧ s.width ≤ 8192
  height : 1 ≤ s.height ∧ s.height ≤ 8192

/-! ## Sides -/

/-- Less than a pixel from `a * b / c`. -/
def Proportional (side a b c : Nat) : Prop :=
  |(side : Int) * c - a * b| < c

theorem proportional_iff {side a b c : Nat} :
    Proportional side a b c ↔ side * c < a * b + c ∧ a * b < side * c + c := by
  unfold Proportional
  rw [abs_lt, ← Int.natCast_mul, ← Int.natCast_mul]
  omega

/-- Two sides of the screen and of the image make at most this. -/
theorem product_le {a b : Nat} (ha : a ≤ 8192) (hb : b ≤ 8192) : a * b ≤ 2 ^ 26 :=
  Nat.le_trans (Nat.mul_le_mul ha hb) (by decide)

theorem limit_le {a : Nat} (ha : a ≤ 8192) : a ≤ 2 ^ 26 := Nat.le_trans ha (by decide)

theorem nonzeroDimension_eq {value : Nat} (h : value ≤ 2 ^ 26) :
    nonzeroDimension value = max 1 value := by
  unfold nonzeroDimension
  split
  next hzero => rw [hzero, Nat.max_eq_left (Nat.zero_le 1)]
  next hpos => rw [if_neg (by omega), Nat.max_eq_right (by omega)]

/-- Rounded down, and at least a pixel. -/
theorem floor_side {a b c : Nat} (hpos : 0 < a * b) (hle : a * b ≤ 2 ^ 26) (hc : 0 < c) :
    Proportional (nonzeroDimension (a * b / c)) a b c ∧ nonzeroDimension (a * b / c) ≤ 2 ^ 26 ∧
      ∀ d, 0 < d → a * b ≤ d * c → nonzeroDimension (a * b / c) ≤ d := by
  have hdiv : a * b / c ≤ 2 ^ 26 := Nat.le_trans (Nat.div_le_self _ _) hle
  have hbelow := Nat.div_mul_le_self (a * b) c
  have habove : a * b < a * b / c * c + c := Nat.lt_div_mul_add hc
  rw [nonzeroDimension_eq hdiv]
  refine ⟨proportional_iff.mpr ?_, by omega, fun d hd hfits => ?_⟩
  · rcases Nat.eq_zero_or_pos (a * b / c) with hzero | hone
    · rw [hzero] at habove ⊢
      rw [Nat.max_eq_left (Nat.zero_le 1), Nat.one_mul]
      omega
    · rw [Nat.max_eq_right hone]
      omega
  · have hquotient : a * b / c ≤ d := Nat.div_le_of_le_mul (Nat.mul_comm c d ▸ hfits)
    omega

/-- Rounded up. -/
theorem ceil_side {a b c : Nat} (hpos : 0 < a * b) (hle : a * b ≤ 2 ^ 26) (hc : 0 < c)
    (hmax : c ≤ 8192) :
    Proportional (nonzeroDimension ((a * b + c - 1) / c)) a b c ∧
      nonzeroDimension ((a * b + c - 1) / c) ≤ 2 ^ 26 ∧
      ∀ d, d * c ≤ a * b → d ≤ nonzeroDimension ((a * b + c - 1) / c) := by
  have hbelow := Nat.div_mul_le_self (a * b + c - 1) c
  have habove : a * b + c - 1 < (a * b + c - 1) / c * c + c := Nat.lt_div_mul_add hc
  have hdiv : (a * b + c - 1) / c ≤ a * b := by
    refine Nat.div_le_of_le_mul ?_
    have hproduct : a * b + c ≤ c * (a * b) + 1 := by
      obtain ⟨k, rfl⟩ : ∃ k, c = k + 1 := ⟨c - 1, by omega⟩
      rw [Nat.succ_mul]
      have hk : k ≤ k * (a * b) := Nat.le_mul_of_pos_right k hpos
      omega
    omega
  have hone : 1 ≤ (a * b + c - 1) / c := (Nat.le_div_iff_mul_le hc).mpr (by omega)
  rw [nonzeroDimension_eq (Nat.le_trans hdiv hle), Nat.max_eq_right hone]
  refine ⟨proportional_iff.mpr (by omega), Nat.le_trans hdiv hle, fun d hd => ?_⟩
  exact (Nat.le_div_iff_mul_le hc).mpr (by omega)

/-! ## The rectangle -/

/-- Halving drops the odd pixel on the side of zero. -/
theorem tdiv_two_bounds (n : Int) : (0 ≤ n → 0 ≤ n.tdiv 2 ∧ 2 * n.tdiv 2 ≤ n) ∧
    (n ≤ 0 → n.tdiv 2 ≤ 0 ∧ n ≤ 2 * n.tdiv 2) := by
  constructor
  · intro hn
    rw [Int.tdiv_eq_ediv_of_nonneg hn]
    omega
  · intro hn
    have hneg : n.tdiv 2 = -((-n) / 2) := by
      rw [← Int.tdiv_eq_ediv_of_nonneg (by omega), Int.neg_tdiv, Int.neg_neg]
    omega

/-- Where a side begins that is put in the middle. -/
theorem centered_side {extent side : Nat} (hextent : extent ≤ 8192) (hside : side ≤ 2 ^ 26) :
    (side ≤ extent → 0 ≤ (toI32 (toI32 extent - toI32 side)).tdiv 2 ∧
      (toI32 (toI32 extent - toI32 side)).tdiv 2 + side ≤ extent) ∧
    (extent ≤ side → (toI32 (toI32 extent - toI32 side)).tdiv 2 ≤ 0 ∧
      (extent : Int) ≤ (toI32 (toI32 extent - toI32 side)).tdiv 2 + side) := by
  have hsmall : toI32 (toI32 extent - toI32 side) = extent - side := by
    unfold toI32
    omega
  rw [hsmall]
  have hbounds := tdiv_two_bounds ((extent : Int) - side)
  constructor
  · intro hle
    have hhalf := hbounds.1 (by omega)
    omega
  · intro hle
    have hhalf := hbounds.2 (by omega)
    omega

/-- One side is that of the screen, and the other one as long as it makes it for the image. -/
def KeepsAspect (screen image : Surface) (rect : Rect) : Prop :=
  (rect.width = screen.width ∧ Proportional rect.height image.height rect.width image.width) ∨
    (rect.height = screen.height ∧ Proportional rect.width image.width rect.height image.height)

/-- Two opposite edges are those of the screen. -/
def TouchesEdges (screen : Surface) (rect : Rect) : Prop :=
  (rect.x = 0 ∧ rect.right = screen.width) ∨ (rect.y = 0 ∧ rect.bottom = screen.height)

section Sides

variable (hscreen : screen.Decodable) (himage : image.Decodable)
include hscreen himage

theorem wallpaperRect_cases (mode : WallpaperMode) :
    wallpaperRect screen.rect image mode =
      match mode with
      | .stretch => screen.rect
      | .center => centered screen.rect image.width image.height
      | .fit =>
        if screen.width * image.height < image.width * screen.height then
          centered screen.rect screen.width
            (nonzeroDimension (image.height * screen.width / image.width))
        else
          centered screen.rect
            (nonzeroDimension (image.width * screen.height / image.height)) screen.height
      | .fill =>
        if screen.width * image.height < image.width * screen.height then
          centered screen.rect (nonzeroDimension
            ((image.width * screen.height + image.height - 1) / image.height)) screen.height
        else
          centered screen.rect screen.width (nonzeroDimension
            ((image.height * screen.width + image.width - 1) / image.width)) := by
  have hempty : ∀ s : Surface, s.Decodable → s.rect.isEmpty = false := by
    intro s hs
    have hwidth := hs.width.1
    have hheight := hs.height.1
    rw [← Bool.not_eq_true, Rect.isEmpty_iff]
    unfold Surface.rect
    dsimp only
    omega
  unfold wallpaperRect
  rw [hempty screen hscreen, hempty image himage]
  rfl

omit hscreen himage in
theorem covers_iff : screen.rect.Inside rect ↔ (rect.x ≤ 0 ∧ screen.width ≤ rect.x + rect.width) ∧
    rect.y ≤ 0 ∧ screen.height ≤ rect.y + rect.height := by
  unfold Rect.Inside Rect.right Rect.bottom Surface.rect
  dsimp only
  omega

omit hscreen himage in
theorem fits_iff : rect.Inside screen.rect ↔ (0 ≤ rect.x ∧ rect.x + rect.width ≤ screen.width) ∧
    0 ≤ rect.y ∧ rect.y + rect.height ≤ screen.height := by
  unfold Rect.Inside Rect.right Rect.bottom Surface.rect
  dsimp only
  omega

/-- The rectangle is not smaller than the screen. -/
theorem fill_covers : screen.rect.Inside (wallpaperRect screen.rect image .fill) ∧
    KeepsAspect screen image (wallpaperRect screen.rect image .fill) := by
  rw [wallpaperRect_cases hscreen himage]
  obtain ⟨⟨hW, hW'⟩, hH, hH'⟩ := hscreen
  obtain ⟨⟨hw, hw'⟩, hh, hh'⟩ := himage
  dsimp only
  rw [covers_iff]
  unfold centered Surface.rect
  split
  next hwide =>
    dsimp only
    obtain ⟨hratio, hmax, hcover⟩ := ceil_side (Nat.mul_pos hw hH) (product_le hw' hH') hh hh'
    have hx := (centered_side hW' hmax).2 (hcover _ (Nat.le_of_lt hwide))
    have hy := (centered_side hH' (limit_le hH')).2 (Nat.le_refl _)
    exact ⟨⟨hx, hy⟩, .inr ⟨rfl, hratio⟩⟩
  next htall =>
    dsimp only
    obtain ⟨hratio, hmax, hcover⟩ := ceil_side (Nat.mul_pos hh hW) (product_le hh' hW') hw hw'
    have htall' : screen.height * image.width ≤ image.height * screen.width := by
      rw [Nat.mul_comm screen.height, Nat.mul_comm image.height]
      exact Nat.le_of_not_lt htall
    have hx := (centered_side hW' (limit_le hW')).2 (Nat.le_refl _)
    have hy := (centered_side hH' hmax).2 (hcover _ htall')
    exact ⟨⟨hx, hy⟩, .inl ⟨rfl, hratio⟩⟩

/-- The rectangle is not larger than the screen. -/
theorem fit_inside : (wallpaperRect screen.rect image .fit).Inside screen.rect ∧
    TouchesEdges screen (wallpaperRect screen.rect image .fit) ∧
    KeepsAspect screen image (wallpaperRect screen.rect image .fit) := by
  rw [wallpaperRect_cases hscreen himage]
  obtain ⟨⟨hW, hW'⟩, hH, hH'⟩ := hscreen
  obtain ⟨⟨hw, hw'⟩, hh, hh'⟩ := himage
  have htouch : ∀ {start : Int} {extent : Nat}, (0 ≤ start ∧ start + extent ≤ extent) →
      (start ≤ 0 ∧ (extent : Int) ≤ start + extent) → start = 0 ∧ start + extent = extent := by
    intro start extent hinside hcover
    omega
  dsimp only
  rw [fits_iff]
  unfold TouchesEdges Rect.right Rect.bottom centered Surface.rect
  split
  next hwide =>
    dsimp only
    obtain ⟨hratio, hmax, hfits⟩ := floor_side (Nat.mul_pos hh hW) (product_le hh' hW') hw
    have hwide' : image.height * screen.width ≤ screen.height * image.width := by
      rw [Nat.mul_comm screen.height, Nat.mul_comm image.height]
      exact Nat.le_of_lt hwide
    have hx := centered_side hW' (limit_le hW')
    have hy := (centered_side hH' hmax).1 (hfits _ hH hwide')
    exact ⟨⟨hx.1 (Nat.le_refl _), hy⟩,
      .inl (htouch (hx.1 (Nat.le_refl _)) (hx.2 (Nat.le_refl _))), .inl ⟨rfl, hratio⟩⟩
  next htall =>
    dsimp only
    obtain ⟨hratio, hmax, hfits⟩ := floor_side (Nat.mul_pos hw hH) (product_le hw' hH') hh
    have hx := (centered_side hW' hmax).1 (hfits _ hW (Nat.le_of_not_lt htall))
    have hy := centered_side hH' (limit_le hH')
    exact ⟨⟨hx, hy.1 (Nat.le_refl _)⟩,
      .inr (htouch (hy.1 (Nat.le_refl _)) (hy.2 (Nat.le_refl _))), .inr ⟨rfl, hratio⟩⟩

end Sides

/-! ## Scaling -/

/-- The image is drawn in the pixels of the rectangle that are on the screen, from its pixels at
these coordinates. -/
structure ScaledInto (screen image : Surface) (rect : Rect) (sourceX sourceY : Int → Nat) :
    Prop where
  insideX : ∀ x, sourceX x < image.width
  insideY : ∀ y, sourceY y < image.height
  monotoneX : Monotone sourceX
  monotoneY : Monotone sourceY
  draws : ∀ x y, inks (drawScaled screen.rect image rect) x y =
    if rect.Has x y ∧ screen.rect.Has x y then imageInk (image.pixels (sourceX x) (sourceY y)) else []

/-- The coordinate in an image side of a pixel. -/
def sampled (start : Int) (side source : Nat) (v : Int) : Nat :=
  min ((v - start).toNat * source / side) (source - 1)

theorem sampled_lt {start : Int} {side source : Nat} (hsource : 0 < source) (v : Int) :
    sampled start side source v < source := by
  unfold sampled
  omega

theorem sampled_mono (start : Int) (side source : Nat) : Monotone (sampled start side source) := by
  intro v v' hle
  have hoffset : (v - start).toNat ≤ (v' - start).toNat := by omega
  have hscaled : (v - start).toNat * source / side ≤ (v' - start).toNat * source / side :=
    Nat.div_le_div_right (Nat.mul_le_mul_right source hoffset)
  unfold sampled
  omega

theorem drawScaled_into (hwidth : 0 < image.width) (hheight : 0 < image.height) (rect : Rect) :
    ScaledInto screen image rect (sampled rect.x rect.width image.width)
      (sampled rect.y rect.height image.height) where
  insideX := sampled_lt hwidth
  insideY := sampled_lt hheight
  monotoneX := sampled_mono ..
  monotoneY := sampled_mono ..
  draws := by
    intro x y
    unfold drawScaled
    rw [if_neg (by omega)]
    split
    next hnone => rw [if_neg (Rect.intersect_none hnone)]; rfl
    next clipped hclipped =>
      rw [← if_congr (Rect.intersect_has hclipped) rfl rfl]
      exact inks_cells clipped fun x y => imageInk (image.pixels
        (sampled rect.x rect.width image.width x) (sampled rect.y rect.height image.height y))

/-! ## The wallpaper -/

/-- What is promised of a wallpaper. -/
structure WallpaperGeometry (screen image : Surface) : Prop where
  fillCovers : screen.rect.Inside (wallpaperRect screen.rect image .fill)
  fillAspect : KeepsAspect screen image (wallpaperRect screen.rect image .fill)
  fitInside : (wallpaperRect screen.rect image .fit).Inside screen.rect
  fitTouches : TouchesEdges screen (wallpaperRect screen.rect image .fit)
  fitAspect : KeepsAspect screen image (wallpaperRect screen.rect image .fit)
  scaled : ∀ mode, ∃ sourceX sourceY,
    ScaledInto screen image (wallpaperRect screen.rect image mode) sourceX sourceY

/-- Fill covers the screen, fit stays inside it, and neither reads or writes outside. -/
theorem wallpaper_geometry (hscreen : screen.Decodable) (himage : image.Decodable) :
    WallpaperGeometry screen image := by
  obtain ⟨hfill, hfillAspect⟩ := fill_covers hscreen himage
  obtain ⟨hfit, hfitTouches, hfitAspect⟩ := fit_inside hscreen himage
  exact ⟨hfill, hfillAspect, hfit, hfitTouches, hfitAspect,
    fun mode => ⟨_, _, drawScaled_into himage.width.1 himage.height.1 _⟩⟩

theorem wallpaper_geometry_wide :
    WallpaperGeometry ⟨1024, 768, fun _ _ => 0⟩ ⟨1920, 1080, fun _ _ => 0xFF2040C0⟩ :=
  wallpaper_geometry ⟨by decide, by decide⟩ ⟨by decide, by decide⟩

/-- A transparent image fills the screen, and nothing is written. -/
theorem wallpaper_transparent :
    (Desktop.wallpaperRect ⟨0, 0, 1, 1⟩ ⟨1, 1, fun _ _ => 0⟩ .fill).Has 0 0 ∧
    ∀ mode, drawScaled ⟨0, 0, 1, 1⟩ ⟨1, 1, fun _ _ => 0⟩
      (Desktop.wallpaperRect ⟨0, 0, 1, 1⟩ ⟨1, 1, fun _ _ => 0⟩ mode) = [] := by
  refine ⟨by decide, fun mode => ?_⟩
  cases mode
  all_goals rfl

end MeatySkeleton.Gui
