import MeatySkeleton.Gui.Drawing
import Mathlib.Data.List.Nodup
import Mathlib.Data.List.ProdSigma

/-!
# What a drawing does to a pixel

The calls for a pixel are applied to its colour in their order (`Surface.pixels_draw`), so a
drawing is known from its calls for each pixel (`inks`). A filled rectangle, an image and a
window call once for each of their pixels on the surface (`inks_cells`).
-/

namespace MeatySkeleton.Gui

open List

/-! ## Colours -/

namespace Color

variable {destination source : Color}

theorem alpha_rgba (red green blue alpha : Nat) :
    (rgba red green blue alpha).alpha = alpha % 256 := by
  have hword : (rgba red green blue alpha).toNat =
      alpha % 256 * 2 ^ 24 + red % 256 * 2 ^ 16 + green % 256 * 2 ^ 8 + blue % 256 := by
    unfold rgba
    rw [UInt32.toNat_ofNat']
    omega
  unfold Color.alpha
  rw [hword]
  omega

theorem blend_transparent (h : source.alpha = 0) : destination.blend source = destination :=
  if_pos h

theorem blend_solid (h : source.alpha = 255) : destination.blend source = source := by
  unfold blend
  rw [if_neg (h ▸ by decide), if_pos h]

/-- What is blended with an opaque colour is opaque. -/
theorem alpha_blend (h : destination.alpha = 255) : (destination.blend source).alpha = 255 := by
  have hlt : source.alpha < 256 := Nat.mod_lt _ (by decide)
  unfold blend
  dsimp only
  split
  next => exact h
  next =>
    split
    next hsource => exact hsource
    next =>
      have hnumerator : source.alpha * 255 + destination.alpha * (255 - source.alpha) = 65025 := by
        rw [h]
        omega
      rw [hnumerator, if_neg (by decide), alpha_rgba]

end Color

/-! ## Pixels -/

/-- The calls for a pixel. -/
def inks (edits : List Edit) (x y : Int) : List Ink :=
  edits.filterMap fun e => if e.x = x ∧ e.y = y then some e.ink else none

/-- What they make of its colour. -/
def inked (calls : List Ink) (color : Color) : Color := calls.foldl (fun color ink => ink.on color) color

variable {edits edits' : List Edit} {x y : Int}

theorem inks_append : inks (edits ++ edits') x y = inks edits x y ++ inks edits' x y :=
  filterMap_append

theorem inked_append (calls calls' : List Ink) (color : Color) :
    inked (calls ++ calls') color = inked calls' (inked calls color) :=
  foldl_append

theorem mem_inks {ink : Ink} : ink ∈ inks edits x y ↔ ⟨x, y, ink⟩ ∈ edits := by
  unfold inks
  rw [mem_filterMap]
  constructor
  · rintro ⟨⟨x', y', ink'⟩, he, h⟩
    dsimp only at h
    rw [Option.ite_none_right_eq_some] at h
    obtain ⟨⟨rfl, rfl⟩, h⟩ := h
    obtain rfl := Option.some.inj h
    exact he
  · intro he
    exact ⟨_, he, if_pos ⟨rfl, rfl⟩⟩

variable {color : Color}

/-- Once a pixel is written, what it was before does not matter. -/
theorem inked_put {calls : List Ink} (h : .put color ∈ calls) (c c' : Color) :
    inked calls c = inked calls c' := by
  obtain ⟨before, after, rfl⟩ := append_of_mem h
  rw [inked_append, inked_append]
  rfl

namespace Surface

variable (s : Surface)

theorem draw_append : s.draw (edits ++ edits') = (s.draw edits).draw edits' := foldl_append

theorem rect_edit (e : Edit) : (s.edit e).rect = s.rect := by
  unfold edit
  split <;> rfl

theorem rect_draw (edits : List Edit) : (s.draw edits).rect = s.rect := by
  induction edits generalizing s with
  | nil => rfl
  | cons e edits ih =>
    show ((s.edit e).draw edits).rect = s.rect
    rw [ih, rect_edit]

theorem width_draw (edits : List Edit) : (s.draw edits).width = s.width :=
  congrArg Rect.width (s.rect_draw edits)

theorem height_draw (edits : List Edit) : (s.draw edits).height = s.height :=
  congrArg Rect.height (s.rect_draw edits)

theorem pixels_edit (h : s.rect.Has x y) (e : Edit) : (s.edit e).pixels x y =
    if e.x = x ∧ e.y = y then e.ink.on (s.pixels x y) else s.pixels x y := by
  unfold edit
  by_cases hat : e.x = x ∧ e.y = y
  · obtain ⟨rfl, rfl⟩ := hat
    rw [if_pos h, if_pos ⟨rfl, rfl⟩]
    exact if_pos ⟨rfl, rfl⟩
  · rw [if_neg hat]
    split
    next =>
      apply if_neg
      exact fun hxy => hat ⟨hxy.1.symm, hxy.2.symm⟩
    next => rfl

/-- The colour of a pixel that is drawn on. -/
theorem pixels_draw (h : s.rect.Has x y) (edits : List Edit) :
    (s.draw edits).pixels x y = inked (inks edits x y) (s.pixels x y) := by
  induction edits generalizing s with
  | nil => rfl
  | cons e edits ih =>
    show ((s.edit e).draw edits).pixels x y = _
    rw [ih _ (s.rect_edit e ▸ h), s.pixels_edit h]
    unfold inks
    rw [filterMap_cons]
    by_cases hat : e.x = x ∧ e.y = y
    · rw [if_pos hat, if_pos hat]
      rfl
    · rw [if_neg hat, if_neg hat]

/-- Nothing is drawn outside. -/
theorem pixels_draw_outside (h : ¬s.rect.Has x y) (edits : List Edit) :
    (s.draw edits).pixels x y = s.pixels x y := by
  induction edits generalizing s with
  | nil => rfl
  | cons e edits ih =>
    show ((s.edit e).draw edits).pixels x y = _
    rw [ih _ (s.rect_edit e ▸ h)]
    unfold edit
    split
    next hat =>
      apply if_neg
      rintro ⟨rfl, rfl⟩
      exact h hat
    next => rfl

/-! ## Opaque surfaces -/

/-- All pixels are opaque. -/
def Solid : Prop := ∀ x y, s.rect.Has x y → (s.pixels x y).alpha = 255

end Surface

/-- Leaves an opaque pixel opaque. -/
def Ink.Solid : Ink → Prop
  | .put color => color.alpha = 255
  | .blend _ => True

theorem inked_solid {calls : List Ink} (h : ∀ ink ∈ calls, ink.Solid)
    (hcolor : color.alpha = 255) : (inked calls color).alpha = 255 := by
  induction calls generalizing color with
  | nil => exact hcolor
  | cons ink calls ih =>
    apply ih fun ink' hink' => h ink' (mem_cons_of_mem _ hink')
    have hink := h ink mem_cons_self
    cases ink with
    | put => exact hink
    | blend => exact Color.alpha_blend hcolor

theorem Surface.Solid.draw {s : Surface} (h : s.Solid) (hsolid : ∀ e ∈ edits, e.ink.Solid) :
    (s.draw edits).Solid := by
  intro x y hxy
  rw [s.rect_draw] at hxy
  rw [s.pixels_draw hxy]
  exact inked_solid (fun ink hink => hsolid _ (mem_inks.mp hink)) (h x y hxy)

/-! ## Rectangles -/

variable {r bounds rect : Rect}

theorem Rect.mem_cells : (x, y) ∈ r.cells ↔ r.Has x y := by
  unfold cells Has right bottom
  simp only [mem_flatMap, mem_map, mem_range, Prod.mk.injEq]
  constructor
  · rintro ⟨row, hrow, column, hcolumn, rfl, rfl⟩
    omega
  · intro h
    exact ⟨(y - r.y).toNat, by omega, (x - r.x).toNat, by omega, by omega, by omega⟩

theorem Rect.nodup_cells (r : Rect) : r.cells.Nodup := by
  unfold cells
  rw [nodup_flatMap]
  constructor
  · intro row _
    refine List.Nodup.map (fun column column' h => ?_) nodup_range
    exact Int.ofNat.inj (Int.add_left_cancel (Prod.mk.inj h).1)
  · refine nodup_range.imp fun {row row'} hne p hp hp' => ?_
    obtain ⟨column, _, rfl⟩ := mem_map.mp hp
    obtain ⟨column', _, h⟩ := mem_map.mp hp'
    exact hne (Int.ofNat.inj (Int.add_left_cancel (Prod.mk.inj h).2)).symm

/-- A pixel that is visited once. -/
theorem inks_flatMap {cells : List (Int × Int)} (h : cells.Nodup) (f : Int → Int → List Ink) :
    inks (cells.flatMap fun (x, y) => (f x y).map fun ink => ⟨x, y, ink⟩) x y =
      if (x, y) ∈ cells then f x y else [] := by
  induction cells with
  | nil => rfl
  | cons p cells ih =>
    obtain ⟨hp, hcells⟩ := nodup_cons.mp h
    obtain ⟨px, py⟩ := p
    rw [flatMap_cons, inks_append, ih hcells]
    by_cases hat : px = x ∧ py = y
    · obtain ⟨rfl, rfl⟩ := hat
      rw [if_neg hp, if_pos mem_cons_self, append_nil]
      unfold inks
      rw [filterMap_map]
      have hsome : ((fun e : Edit => if e.x = px ∧ e.y = py then some e.ink else none) ∘
          fun ink => ⟨px, py, ink⟩) = some := funext fun ink => if_pos ⟨rfl, rfl⟩
      rw [hsome, filterMap_some]
    · have hnone : inks ((f px py).map fun ink => ⟨px, py, ink⟩) x y = [] := by
        unfold inks
        rw [filterMap_map]
        refine filterMap_eq_nil_iff.mpr fun ink _ => ?_
        exact if_neg hat
      have hmem : (x, y) ∈ (px, py) :: cells ↔ (x, y) ∈ cells := by
        rw [mem_cons]
        exact or_iff_right fun he => hat ⟨(Prod.mk.inj he).1.symm, (Prod.mk.inj he).2.symm⟩
      rw [hnone, nil_append, if_congr hmem rfl rfl]

/-- A loop over the pixels of a rectangle. -/
theorem inks_cells (r : Rect) (f : Int → Int → List Ink) :
    inks (r.cells.flatMap fun (x, y) => (f x y).map fun ink => ⟨x, y, ink⟩) x y =
      if r.Has x y then f x y else [] := by
  rw [inks_flatMap r.nodup_cells, if_congr Rect.mem_cells rfl rfl]

theorem inks_fillRect (color : Color) : inks (fillRect bounds rect color) x y =
    if rect.Has x y ∧ bounds.Has x y then [.put color] else [] := by
  unfold fillRect
  split
  next hnone => rw [if_neg (Rect.intersect_none hnone)]; rfl
  next clipped hclipped =>
    rw [← if_congr (Rect.intersect_has hclipped) rfl rfl, ← inks_cells clipped fun _ _ => [.put color]]
    rw [map_eq_flatMap]
    rfl

/-- A gradient writes each of its pixels. -/
theorem fillVerticalGradient_put (top bottom : Color) (hrect : rect.Has x y)
    (hbounds : bounds.Has x y) :
    ∃ color, .put color ∈ inks (fillVerticalGradient bounds rect top bottom) x y := by
  unfold fillVerticalGradient
  split
  next hnone => exact absurd ⟨hrect, hbounds⟩ (Rect.intersect_none hnone)
  next clipped hclipped =>
    have hhas := (Rect.intersect_has hclipped).mpr ⟨hrect, hbounds⟩
    -- the row of the pixel
    have hy : (y - clipped.y).toNat < clipped.height := by
      unfold Rect.Has Rect.bottom at hhas
      omega
    have hrow : clipped.y + ((y - clipped.y).toNat : Int) = y := by
      unfold Rect.Has at hhas
      omega
    have hmem : ∀ color, .put color ∈ inks (fillRect bounds
        ⟨clipped.x, clipped.y + ((y - clipped.y).toNat : Int), clipped.width, 1⟩ color) x y := by
      intro color
      rw [inks_fillRect, hrow, if_pos]
      · exact mem_singleton_self _
      · refine ⟨?_, hbounds⟩
        unfold Rect.Has Rect.right Rect.bottom at *
        dsimp only
        omega
    exact ⟨_, mem_inks.mpr (mem_flatMap.mpr ⟨_, mem_range.mpr hy, mem_inks.mp (hmem _)⟩)⟩

/-! ## Images -/

theorem inked_imageInk (color destination : Color) :
    inked (imageInk color) destination = destination.blend color := by
  unfold imageInk
  split
  next h => exact (Color.blend_transparent h).symm
  next =>
    split
    next h => exact (Color.blend_solid h).symm
    next => rfl

/-! ## Text -/

theorem blendGlyph_solid {glyph : Glyph} {x y : Int} :
    ∀ e ∈ blendGlyph glyph x y color, e.ink.Solid := by
  intro e he
  unfold blendGlyph at he
  split at he
  next => exact absurd he not_mem_nil
  next =>
    obtain ⟨row, -, he⟩ := mem_flatMap.mp he
    obtain ⟨column, -, he⟩ := mem_flatMap.mp he
    dsimp only at he
    split at he
    next => exact absurd he not_mem_nil
    next =>
      obtain rfl := mem_singleton.mp he
      trivial

theorem drawTextFrom_solid {font : Font} {pixelHeight : Nat} {start lineHeight space : Int}
    (text : List UInt8) (penX baselineY : Int) :
    ∀ e ∈ (drawTextFrom font pixelHeight start lineHeight space color text penX baselineY).2,
      e.ink.Solid := by
  induction text generalizing penX baselineY with
  | nil => exact fun e he => absurd he not_mem_nil
  | cons character text ih =>
    intro e he
    unfold drawTextFrom at he
    dsimp only at he
    split at he
    next => exact ih _ _ e he
    next =>
      split at he
      next => exact ih _ _ e he
      next =>
        split at he
        next => exact absurd he not_mem_nil
        next =>
          obtain he | he := mem_append.mp he
          · exact blendGlyph_solid e he
          · exact ih _ _ e he

/-- Text is blended. -/
theorem drawText_solid {font : Font} {x y : Int} {pixelHeight : Nat} {text : List UInt8}
    : ∀ e ∈ (drawText font x y pixelHeight text color).2, e.ink.Solid := by
  intro e he
  unfold drawText at he
  split at he
  next => exact absurd he not_mem_nil
  next =>
    split at he
    next => exact drawTextFrom_solid _ _ _ e he
    next => exact absurd he not_mem_nil

end MeatySkeleton.Gui
