import MeatySkeleton.Gui.Components
import MeatySkeleton.Gui.Painting

/-!
# The fill routines agree

A rectangle is filled in `surface.c` row by row in what the surface has of it, or local point by
local point with `int32_t` coordinates; and in `painter.c` local point by local point with 64-bit
coordinates, in the colours of a gradient. Each calls once for each of its pixels on the surface
(`Fills`), so two of them agree when their pixels and the colours there do.
-/

namespace MeatySkeleton.Gui

open List

variable {x y : Int} {rect screen : Rect} {radius : Nat} {color top bottom : Color}

/-! ## Colours -/

namespace Color

theorem rgba_self (color : Color) : rgba color.red color.green color.blue color.alpha = color := by
  have hlt := color.toNat_lt
  apply UInt32.toNat_inj.mp
  unfold rgba red green blue alpha
  rw [UInt32.toNat_ofNat']
  omega

/-- Between a value and itself lies nothing else. -/
theorem interpolateChannel_self {value numerator denominator : Nat} (hvalue : value < 256)
    (hnumerator : numerator ≤ denominator) (hdenominator : denominator < 2 ^ 24) :
    interpolateChannel value value numerator denominator = value := by
  unfold interpolateChannel
  split
  next => rfl
  next hzero =>
    have hsum : value * (denominator - numerator) + value * numerator = denominator * value := by
      rw [← Nat.mul_add, Nat.sub_add_cancel hnumerator, Nat.mul_comm]
    have hle : denominator * value ≤ denominator * 255 := Nat.mul_le_mul_left _ (by omega)
    have hhalf : denominator / 2 / denominator = 0 := Nat.div_eq_of_lt (by omega)
    have hfits : denominator * value + denominator / 2 < 2 ^ 32 := by omega
    dsimp only
    rw [hsum, Nat.mod_eq_of_lt hfits, Nat.mul_add_div (Nat.pos_of_ne_zero hzero), hhalf]
    exact Nat.mod_eq_of_lt hvalue

theorem interpolate_self {numerator denominator : Nat} (color : Color)
    (hnumerator : numerator ≤ denominator) (hdenominator : denominator < 2 ^ 24) :
    interpolate color color numerator denominator = color := by
  have hchannel : ∀ n : Nat,
      interpolateChannel (n % 256) (n % 256) numerator denominator = n % 256 := fun n =>
    interpolateChannel_self (Nat.mod_lt n (by decide)) hnumerator hdenominator
  unfold interpolate red green blue alpha
  dsimp only
  rw [hchannel, hchannel, hchannel, hchannel]
  exact rgba_self color

end Color

/-! ## Drawings that call once for a pixel -/

/-- On a surface of this size, the drawing writes the pixels that are taken, each once and in the
colour of its row. -/
def Fills (screen : Rect) (edits : List Edit) (taken : Int → Int → Prop) (color : Int → Color) :
    Prop :=
  ∀ x y, screen.Has x y →
    (taken x y → inks edits x y = [.put (color y)]) ∧ (¬taken x y → inks edits x y = [])

theorem Fills.draw_eq {s : Surface} {edits edits' : List Edit} {taken taken' : Int → Int → Prop}
    {color color' : Int → Color} (h : Fills s.rect edits taken color)
    (h' : Fills s.rect edits' taken' color')
    (hagree : ∀ x y, s.rect.Has x y → (taken x y ↔ taken' x y) ∧ (taken x y → color y = color' y)) :
    s.draw edits = s.draw edits' := by
  have hpixels : (s.draw edits).pixels = (s.draw edits').pixels := by
    funext x y
    by_cases hhas : s.rect.Has x y
    · obtain ⟨hiff, hcolor⟩ := hagree x y hhas
      rw [s.pixels_draw hhas, s.pixels_draw hhas]
      by_cases htaken : taken x y
      · rw [(h x y hhas).1 htaken, (h' x y hhas).1 (hiff.mp htaken), hcolor htaken]
      · rw [(h x y hhas).2 htaken, (h' x y hhas).2 fun htaken' => htaken (hiff.mpr htaken')]
    · rw [s.pixels_draw_outside hhas, s.pixels_draw_outside hhas]
  have hwidth := (s.width_draw edits).trans (s.width_draw edits').symm
  have hheight := (s.height_draw edits).trans (s.height_draw edits').symm
  generalize s.draw edits = t at hpixels hwidth hheight
  generalize s.draw edits' = t' at hpixels hwidth hheight
  cases t
  cases t'
  cases hpixels
  cases hwidth
  cases hheight
  rfl

/-- What is not taken is left as it is. -/
theorem Fills.inside {s : Surface} {edits : List Edit} {taken : Int → Int → Prop}
    {color : Int → Color} (h : Fills s.rect edits taken color)
    (hchanged : (s.draw edits).pixels x y ≠ s.pixels x y) : taken x y ∧ s.rect.Has x y := by
  by_cases hhas : s.rect.Has x y
  · refine ⟨by_contra fun htaken => hchanged ?_, hhas⟩
    rw [s.pixels_draw hhas, (h x y hhas).2 htaken]
    rfl
  · exact absurd (s.pixels_draw_outside hhas edits) hchanged

/-! ## The routines -/

/-- The edges are of type `int32_t`, and a sum of two products of a colour and a side is of type
`uint32_t`. -/
structure Rect.Fillable (rect : Rect) : Prop where
  left : -(2 ^ 31) ≤ rect.x
  top : -(2 ^ 31) ≤ rect.y
  right : rect.right < 2 ^ 31
  bottom : rect.bottom < 2 ^ 31
  width : rect.width < 2 ^ 24
  height : rect.height < 2 ^ 24

theorem fillRect_fills (screen rect : Rect) (color : Color) :
    Fills screen (fillRect screen rect color) rect.Has fun _ => color := by
  intro x y hscreen
  rw [inks_fillRect]
  exact ⟨fun hhas => if_pos ⟨hhas, hscreen⟩, fun hhas => if_neg fun h => hhas h.1⟩

/-- The local points one after the other are the pixels of the rectangle. -/
theorem paintLocal_eq (rect : Rect) (taken : Nat → Nat → Bool) (ink : Nat → Ink) :
    paintLocal rect taken ink = rect.cells.flatMap fun (x, y) =>
      (if taken (x - rect.x).toNat (y - rect.y).toNat ∧ InI32 x y then [ink (y - rect.y).toNat]
        else []).map fun ink => ⟨x, y, ink⟩ := by
  unfold paintLocal Rect.cells
  rw [flatMap_assoc]
  refine flatMap_congr fun localY _ => ?_
  rw [flatMap_map]
  refine flatMap_congr fun localX _ => ?_
  have hx : (rect.x + (localX : Int) - rect.x).toNat = localX := by omega
  have hy : (rect.y + (localY : Int) - rect.y).toNat = localY := by omega
  dsimp only
  rw [hx, hy]
  split
  · rfl
  · rfl

theorem paintLocal_congr {taken taken' : Nat → Nat → Bool} {ink ink' : Nat → Ink}
    (htaken : ∀ localX < rect.width, ∀ localY < rect.height,
      taken localX localY = taken' localX localY)
    (hink : ∀ localY < rect.height, ink localY = ink' localY) :
    paintLocal rect taken ink = paintLocal rect taken' ink' := by
  unfold paintLocal
  refine flatMap_congr fun localY hlocalY => flatMap_congr fun localX hlocalX => ?_
  rw [mem_range] at hlocalX hlocalY
  simp only [htaken localX hlocalX localY hlocalY, hink localY hlocalY]

/-- The pixel is taken at its local point. -/
def Rect.Takes (rect : Rect) (taken : Nat → Nat → Bool) (x y : Int) : Prop :=
  rect.Has x y ∧ taken (x - rect.x).toNat (y - rect.y).toNat = true

theorem paintLocal_fills (hrect : rect.Fillable) (screen : Rect) (taken : Nat → Nat → Bool)
    (color : Nat → Color) :
    Fills screen (paintLocal rect taken fun localY => .put (color localY)) (rect.Takes taken)
      fun y => color (y - rect.y).toNat := by
  intro x y _
  rw [paintLocal_eq, inks_cells rect fun x y =>
    if taken (x - rect.x).toNat (y - rect.y).toNat ∧ InI32 x y then
      [.put (color (y - rect.y).toNat)] else []]
  constructor
  · rintro ⟨hhas, htaken⟩
    have hin : InI32 x y := by
      obtain ⟨hleft, htop, hright, hbottom, -, -⟩ := hrect
      unfold Rect.Has at hhas
      unfold InI32
      omega
    rw [if_pos hhas, if_pos ⟨htaken, hin⟩]
  · intro hnot
    split
    next hhas => exact if_neg fun h => hnot ⟨hhas, h.1⟩
    next => rfl

theorem clampRadius_clampRadius (width height radius : Nat) :
    clampRadius width height (clampRadius width height radius) = clampRadius width height radius := by
  unfold clampRadius
  dsimp only
  generalize (if width < height then width / 2 else height / 2) = maximum
  by_cases hlarge : maximum < radius
  · rw [if_pos hlarge, if_neg (Nat.lt_irrefl maximum)]
  · rw [if_neg hlarge, if_neg hlarge]

/-- The painter clamps the radius once more, and asks for a rectangle that is not empty. -/
theorem roundedContains_eq {localX localY : Nat} (hx : localX < rect.width)
    (hy : localY < rect.height) :
    roundedContains localX localY rect.width rect.height (clampRadius rect.width rect.height radius) =
      inArcs localX localY rect.width rect.height (clampRadius rect.width rect.height radius) := by
  unfold roundedContains
  rw [clampRadius_clampRadius, if_neg (by omega)]

/-- Local points with 32-bit coordinates. -/
theorem fillRoundedRect_eq (hrect : rect.Fillable) (radius : Nat) (color : Color) :
    fillRoundedRect rect radius color = paintLocal rect (fun localX localY =>
      inArcs localX localY rect.width rect.height (clampRadius rect.width rect.height radius))
        fun _ => .put color := by
  obtain ⟨hleft, htop, hright, hbottom, -, -⟩ := hrect
  unfold fillRoundedRect paintLocal
  refine flatMap_congr fun localY hlocalY => flatMap_congr fun localX hlocalX => ?_
  rw [mem_range] at hlocalX hlocalY
  unfold Rect.right at hright
  unfold Rect.bottom at hbottom
  have hx : toI32 (rect.x + toI32 localX) = rect.x + localX := by
    unfold toI32
    omega
  have hy : toI32 (rect.y + toI32 localY) = rect.y + localY := by
    unfold toI32
    omega
  have hin : InI32 (rect.x + localX) (rect.y + localY) := by
    unfold InI32
    omega
  dsimp only
  rw [hx, hy]
  split
  next htaken => rw [if_pos ⟨htaken, hin⟩]
  next htaken => rw [if_neg fun h => htaken h.1]

/-- Local points with 64-bit coordinates. -/
theorem fillRoundedVerticalGradient_eq (rect : Rect) (radius : Nat) (top bottom : Color) :
    fillRoundedVerticalGradient rect radius top bottom = paintLocal rect (fun localX localY =>
      inArcs localX localY rect.width rect.height (clampRadius rect.width rect.height radius))
        fun localY => .put (Color.interpolate top bottom localY
          (if 1 < rect.height then rect.height - 1 else 1)) := by
  exact paintLocal_congr (fun _ hx _ hy => roundedContains_eq hx hy) fun _ _ => rfl

theorem fillRounded_agree (hrect : rect.Fillable) (radius : Nat) (color : Color) :
    fillRoundedRect rect radius color = fillRoundedVerticalGradient rect radius color color := by
  rw [fillRoundedRect_eq hrect, fillRoundedVerticalGradient_eq]
  have hheight := hrect.height
  refine paintLocal_congr (fun _ _ _ _ => rfl) fun localY hlocalY => congrArg Ink.put ?_
  refine (Color.interpolate_self color ?_ ?_).symm
  · split <;> omega
  · split <;> omega

/-- Without a radius every local point is taken. -/
theorem takes_square {localX localY : Nat} : inArcs localX localY rect.width rect.height
    (clampRadius rect.width rect.height 0) = true := by
  unfold clampRadius inArcs
  dsimp only
  rw [if_neg (Nat.not_lt_zero _), if_pos rfl]

theorem takes_iff (x y : Int) : rect.Takes (fun localX localY => inArcs localX localY rect.width
    rect.height (clampRadius rect.width rect.height 0)) x y ↔ rect.Has x y :=
  and_iff_left takes_square

/-- Only one of the rows calls for a pixel. -/
theorem flatMap_range_single {α : Type} {f : Nat → List α} {row : Nat}
    (hother : ∀ i, i ≠ row → f i = []) (height : Nat) :
    (List.range height).flatMap f = if row < height then f row else [] := by
  induction height with
  | zero => rfl
  | succ height ih =>
    rw [range_succ, flatMap_append, ih, flatMap_singleton]
    by_cases hrow : row = height
    · rw [hrow, if_neg (Nat.lt_irrefl _), if_pos (Nat.lt_succ_self _), nil_append]
    · rw [hother height (Ne.symm hrow), append_nil]
      exact if_congr (by omega) rfl rfl

/-- The rows of a gradient, in what the surface has of the rectangle. -/
theorem fillVerticalGradient_fills (hrect : rect.Fillable) (screen : Rect) (top bottom : Color) :
    Fills screen (fillVerticalGradient screen rect top bottom) rect.Has fun y =>
      Color.interpolate top bottom (y - rect.y).toNat
        (if 1 < rect.height then rect.height - 1 else 1) := by
  intro x y hscreen
  unfold fillVerticalGradient
  split
  next hnone =>
    refine ⟨fun hhas => absurd ⟨hhas, hscreen⟩ (Rect.intersect_none hnone), fun _ => rfl⟩
  next clipped hclipped =>
    generalize hdenominator : (if 1 < rect.height then rect.height - 1 else 1) = denominator
    dsimp only
    have hinks : ∀ {l : List Nat} {f : Nat → List Edit},
        inks (l.flatMap f) x y = l.flatMap fun row => inks (f row) x y := filterMap_flatMap
    have hiff : clipped.Has x y ↔ rect.Has x y ∧ screen.Has x y := Rect.intersect_has hclipped
    have hedges := Rect.intersect_some hclipped
    simp only [hinks, inks_fillRect]
    rw [@flatMap_range_single _ _ (y - clipped.y).toNat]
    · constructor
      · intro hhas
        have hclip := hiff.mpr ⟨hhas, hscreen⟩
        have hheight := hrect.height
        unfold Rect.Has Rect.right Rect.bottom at hclip hhas
        have hrow : clipped.y + ((y - clipped.y).toNat : Int) = y := by omega
        have hgradient : Rect.toU32 (y - rect.y) = (y - rect.y).toNat := by
          unfold Rect.toU32
          omega
        have hlast : ¬denominator < (y - rect.y).toNat := by
          rw [← hdenominator]
          split <;> omega
        rw [if_pos (by omega), hrow, hgradient, if_neg hlast, if_pos]
        refine ⟨?_, hscreen⟩
        unfold Rect.Has Rect.right Rect.bottom
        dsimp only
        omega
      · intro hout
        split
        next hrow =>
          refine if_neg fun h => hout (hiff.mp ?_).1
          have hhas := h.1
          unfold Rect.Has Rect.right Rect.bottom at *
          dsimp only at hhas
          omega
        next => rfl
    · intro row hrow
      refine if_neg fun h => hrow ?_
      have hhas := h.1
      unfold Rect.Has Rect.bottom at hhas
      dsimp only at hhas
      omega

/-! ## All of them -/

/-- What is promised of the fill routines on a surface. -/
structure FillsAgree (s : Surface) (rect : Rect) (radius : Nat) (color top bottom : Color) : Prop where
  rounded : s.draw (fillRoundedRect rect radius color) =
    s.draw (fillRoundedVerticalGradient rect radius color color)
  square : s.draw (fillRoundedRect rect 0 color) = s.draw (fillRect s.rect rect color)
  squareGradient : s.draw (fillRoundedVerticalGradient rect 0 color color) =
    s.draw (fillRect s.rect rect color)
  gradient : s.draw (fillRoundedVerticalGradient rect 0 top bottom) =
    s.draw (fillVerticalGradient s.rect rect top bottom)
  inside : ∀ edits ∈ [fillRoundedRect rect radius color,
    fillRoundedVerticalGradient rect radius top bottom, fillRect s.rect rect color,
    fillVerticalGradient s.rect rect top bottom], ∀ x y,
      (s.draw edits).pixels x y ≠ s.pixels x y → rect.Has x y ∧ s.rect.Has x y

/-- The rounded fills with radius 0 are the plain ones, and none leaves its rectangle. -/
theorem fills_agree (s : Surface) (hrect : rect.Fillable) (radius : Nat) (color top bottom : Color) :
    FillsAgree s rect radius color top bottom := by
  have hlocal := fun taken color => paintLocal_fills hrect s.rect taken color
  have hgradient : ∀ top bottom, s.draw (fillRoundedVerticalGradient rect 0 top bottom) =
      s.draw (fillVerticalGradient s.rect rect top bottom) := by
    intro top bottom
    rw [fillRoundedVerticalGradient_eq]
    exact (hlocal _ _).draw_eq (fillVerticalGradient_fills hrect s.rect top bottom)
      fun x y _ => ⟨takes_iff x y, fun _ => rfl⟩
  have hsquare : s.draw (fillRoundedRect rect 0 color) = s.draw (fillRect s.rect rect color) := by
    rw [fillRoundedRect_eq hrect]
    exact (hlocal _ fun _ => color).draw_eq (fillRect_fills s.rect rect color)
      fun x y _ => ⟨takes_iff x y, fun _ => rfl⟩
  refine ⟨congrArg s.draw (fillRounded_agree hrect radius color), hsquare, ?_, hgradient top bottom, ?_⟩
  · rw [← fillRounded_agree hrect 0 color]
    exact hsquare
  · intro edits hedits x y hchanged
    have htaken : ∀ {taken : Nat → Nat → Bool} {ink : Nat → Color},
        edits = paintLocal rect taken (fun localY => .put (ink localY)) →
        rect.Has x y ∧ s.rect.Has x y := by
      rintro taken ink rfl
      have hinside := (hlocal taken ink).inside hchanged
      exact ⟨hinside.1.1, hinside.2⟩
    simp only [List.mem_cons, List.not_mem_nil, or_false] at hedits
    rcases hedits with h | h | rfl | rfl
    · exact htaken (h.trans (fillRoundedRect_eq hrect radius color))
    · exact htaken (h.trans (fillRoundedVerticalGradient_eq rect radius top bottom))
    · exact (fillRect_fills s.rect rect color).inside hchanged
    · exact (fillVerticalGradient_fills hrect s.rect top bottom).inside hchanged

/-- A rectangle that is partly off the surface. -/
theorem fills_agree_offScreen : FillsAgree ⟨8, 8, fun _ _ => 0⟩ ⟨-2, 3, 5, 9⟩ 2 0xFF2040C0 0xFF000000
    0xFFFFFFFF :=
  fills_agree _ ⟨by decide, by decide, by decide, by decide, by decide, by decide⟩ 2 _ _ _

end MeatySkeleton.Gui
