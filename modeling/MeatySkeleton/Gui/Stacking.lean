import MeatySkeleton.Gui.Composition
import MeatySkeleton.Gui.Damage
import MeatySkeleton.Gui.Painting
import MeatySkeleton.Gui.Scrollback

/-!
# What windows make of a pixel

Compositing a window blends its pixel with what is there (`Window.laidOver`), and the compositor
keeps a picture of which each pixel has become what the windows made of it
(`Compositor.Became`). The window of a terminal is opaque after it was rendered.
-/

namespace MeatySkeleton.Gui

open List Device Lib

/-! ## Windows -/

namespace Window

/-- What compositing the window makes of the colour of a pixel. -/
def laidOver (window : Window) (x y : Int) (color : Color) : Color :=
  match window.surface with
  | none => color
  | some surface =>
    if window.visible = true ∧ window.bounds.Has x y then
      color.blend (surface.pixels (x - window.x) (y - window.y))
    else color

/-- The window has a pixel there that is not transparent. -/
def Covers (window : Window) (x y : Int) : Prop :=
  window.visible = true ∧ window.bounds.Has x y ∧ ∃ surface, window.surface = some surface ∧
    (surface.pixels (x - window.x) (y - window.y)).alpha ≠ 0

variable {window : Window} {surface : Surface} {x y : Int} {color : Color}

theorem over_of_not_covers (h : ¬window.Covers x y) : window.laidOver x y color = color := by
  unfold laidOver
  split
  next => rfl
  next surface hsurface =>
    split
    next hhas =>
      by_cases halpha : (surface.pixels (x - window.x) (y - window.y)).alpha = 0
      · exact Color.blend_transparent halpha
      · exact absurd ⟨hhas.1, hhas.2, surface, hsurface, halpha⟩ h
    next => rfl

section

variable (hsurface : window.surface = some surface)

include hsurface

/-- The calls for a pixel of the window. -/
theorem inked_composited {clipped screen : Rect}
    (hvisible : window.visible = true) (hclipped : window.bounds.intersect screen = some clipped)
    (hscreen : screen.Has x y) :
    inked (inks (window.composited surface clipped) x y) color = window.laidOver x y color := by
  unfold composited laidOver
  rw [inks_cells clipped fun x y => imageInk (surface.pixels (x - window.x) (y - window.y)),
    hsurface]
  have hiff : clipped.Has x y ↔ window.visible = true ∧ window.bounds.Has x y := by
    rw [Rect.intersect_has hclipped]
    exact ⟨fun h => ⟨hvisible, h.1⟩, fun h => ⟨h.2, hscreen⟩⟩
  rw [if_congr hiff rfl rfl]
  dsimp only
  split
  next => exact inked_imageInk ..
  next => rfl

theorem over_solid (hfull : surface.Solid)
    (hvisible : window.visible = true) (hhas : window.bounds.Has x y) (color : Color) :
    window.laidOver x y color = surface.pixels (x - window.x) (y - window.y) := by
  unfold laidOver
  rw [hsurface]
  refine (if_pos ⟨hvisible, hhas⟩).trans (Color.blend_solid (hfull _ _ ?_))
  unfold bounds at hhas
  rw [hsurface] at hhas
  unfold Surface.rect
  unfold Rect.Has Rect.right Rect.bottom at *
  dsimp only at *
  omega

theorem bounds_withSurface {surface' : Surface}
    (hrect : surface'.rect = surface.rect) :
    { window with surface := some surface' }.bounds = window.bounds := by
  unfold bounds
  rw [hsurface]
  have hwidth : surface'.width = surface.width := congrArg Rect.width hrect
  have hheight : surface'.height = surface.height := congrArg Rect.height hrect
  dsimp only
  rw [hwidth, hheight]

end

end Window

/-- Windows, one after the other. -/
def overAll (windows : List Window) (x y : Int) (color : Color) : Color :=
  windows.foldl (fun color window => window.laidOver x y color) color

theorem overAll_append (windows windows' : List Window) (x y : Int) (color : Color) :
    overAll (windows ++ windows') x y color = overAll windows' x y (overAll windows x y color) :=
  foldl_append

theorem overAll_cons (window : Window) (windows : List Window) (x y : Int) (color : Color) :
    overAll (window :: windows) x y color = overAll windows x y (window.laidOver x y color) := rfl

theorem overAll_of_not_covers {windows : List Window} {x y : Int}
    (h : ∀ window ∈ windows, ¬window.Covers x y) (color : Color) :
    overAll windows x y color = color := by
  induction windows generalizing color with
  | nil => rfl
  | cons window windows ih =>
    rw [overAll_cons, Window.over_of_not_covers (h window mem_cons_self)]
    exact ih (fun v hv => h v (mem_cons_of_mem _ hv)) color

/-! ## The compositor -/

namespace Compositor

variable {c c' c'' : Compositor} {f g : Int → Int → Color → Color}

/-- Damage can be recorded. -/
structure Ready (c : Compositor) : Prop where
  initialized : c.initialized = true
  recorded : c.Recorded
  width : c.backbuffer.width < 2 ^ 32
  height : c.backbuffer.height < 2 ^ 32

/-- The pixels have become `f` of what they were. -/
structure Became (c c' : Compositor) (f : Int → Int → Color → Color) : Prop where
  ready : c'.Ready
  screen : c'.screenRect = c.screenRect
  pixels : ∀ x y, c.screenRect.Has x y → c'.backbuffer.pixels x y = f x y (c.backbuffer.pixels x y)

theorem Became.refl (h : c.Ready) : c.Became c fun _ _ color => color := ⟨h, rfl, fun _ _ _ => rfl⟩

theorem Became.trans (h : c.Became c' f) (h' : c'.Became c'' g) :
    c.Became c'' fun x y color => g x y (f x y color) where
  ready := h'.ready
  screen := h'.screen.trans h.screen
  pixels := by
    intro x y hscreen
    rw [h'.pixels x y (h.screen ▸ hscreen), h.pixels x y hscreen]

theorem draw_became (h : c.Ready) (edits : List Edit) :
    c.Became (c.draw edits) fun x y => inked (inks edits x y) := by
  have hrect : (c.draw edits).screenRect = c.screenRect := Surface.rect_draw ..
  refine ⟨⟨h.initialized, ⟨?_, h.recorded.apart, h.recorded.count⟩, ?_, ?_⟩, hrect, ?_⟩
  · intro r hr
    rw [hrect]
    exact h.recorded.proper r hr
  · exact (Surface.width_draw ..).trans_lt h.width
  · exact (Surface.height_draw ..).trans_lt h.height
  · exact fun x y hscreen => Surface.pixels_draw _ hscreen edits

theorem composite_became (h : c.Ready) (window : Window) :
    ∃ c', c.composite window = some c' ∧ c.Became c' window.laidOver := by
  unfold composite
  have hsame (hover : ∀ x y, c.screenRect.Has x y → ∀ color, window.laidOver x y color = color) :
      c.Became c window.laidOver :=
    ⟨h, rfl, fun x y hscreen => (hover x y hscreen _).symm⟩
  split
  next hnone =>
    refine ⟨c, rfl, hsame fun x y _ color => ?_⟩
    unfold Window.laidOver
    rw [hnone]
  next surface hsurface =>
    split
    next hhidden =>
      rw [h.initialized, Bool.not_true, Bool.or_false, Bool.not_eq_true'] at hhidden
      refine ⟨c, rfl, hsame fun x y _ color => Window.over_of_not_covers fun hcovers => ?_⟩
      exact absurd hcovers.1 (hhidden ▸ Bool.false_ne_true)
    next hvisible =>
      rw [h.initialized, Bool.not_true, Bool.or_false, Bool.not_eq_true', Bool.not_eq_false]
        at hvisible
      split
      next hapart =>
        refine ⟨c, rfl, hsame fun x y hscreen color => ?_⟩
        apply Window.over_of_not_covers
        exact fun hcovers => Rect.intersect_none hapart ⟨hcovers.2.1, hscreen⟩
      next clipped hclipped =>
        have hdraw := draw_became h (window.composited surface clipped)
        obtain ⟨c', hc', hrecorded, hbackbuffer, hinitialized, -⟩ := addDamage_spec
          hdraw.ready.recorded hdraw.ready.initialized hdraw.ready.width hdraw.ready.height clipped
        refine ⟨c', hc', ⟨⟨hinitialized, hrecorded, ?_, ?_⟩, ?_, ?_⟩⟩
        · exact hbackbuffer ▸ hdraw.ready.width
        · exact hbackbuffer ▸ hdraw.ready.height
        · exact (congrArg Surface.rect hbackbuffer).trans hdraw.screen
        · intro x y hscreen
          rw [hbackbuffer, hdraw.pixels x y hscreen]
          exact Window.inked_composited hsurface hvisible hclipped hscreen

theorem compositeAll_became (h : c.Ready) (windows : List Window) :
    ∃ c', c.compositeAll windows = some c' ∧ c.Became c' (overAll windows) := by
  induction windows generalizing c with
  | nil => exact ⟨c, rfl, .refl h⟩
  | cons window windows ih =>
    obtain ⟨c1, hc1, hbecame⟩ := composite_became h window
    obtain ⟨c2, hc2, hbecame'⟩ := ih hbecame.ready
    refine ⟨c2, ?_, hbecame.trans hbecame'⟩
    unfold compositeAll
    rw [foldlM_cons, hc1]
    exact hc2

end Compositor

/-! ## Terminals -/

theorem drawAll_solid {texts : List (Bool × List Edit)}
    (h : ∀ text ∈ texts, ∀ e ∈ text.2, e.ink.Solid) : ∀ e ∈ (drawAll texts).2, e.ink.Solid := by
  induction texts with
  | nil => exact fun e he => absurd he not_mem_nil
  | cons text texts ih =>
    intro e he
    obtain ⟨complete, edits⟩ := text
    have hedits := h _ mem_cons_self
    cases complete with
    | false => exact hedits e he
    | true =>
      obtain he | he := mem_append.mp he
      · exact hedits e he
      · exact ih (fun text' htext => h text' (mem_cons_of_mem _ htext)) e he

theorem fillRect_solid {bounds rect : Rect} {color : Color} (h : color.alpha = 255) :
    ∀ e ∈ fillRect bounds rect color, e.ink.Solid := by
  intro e he
  unfold fillRect at he
  split at he
  next => exact absurd he not_mem_nil
  next =>
    obtain ⟨p, -, rfl⟩ := mem_map.mp he
    exact h

theorem terminalFrame_solid {bounds : Rect} : ∀ e ∈ terminalFrame bounds, e.ink.Solid := by
  intro e he
  unfold terminalFrame at he
  rw [mem_append, mem_append] at he
  obtain (he | he) | he := he
  all_goals exact fillRect_solid (Color.alpha_rgba ..) e he

variable {font : Font} {surface : Surface} {text : Session}

theorem rect_terminalRender : (terminalRender font surface text).2.1.rect = surface.rect := by
  unfold terminalRender
  dsimp only
  split
  next => exact Surface.rect_draw ..
  next => exact (Surface.rect_draw ..).trans (Surface.rect_draw ..)

/-- The window of a terminal is opaque. -/
theorem terminalRender_solid : (terminalRender font surface text).2.1.Solid := by
  have hframe : (surface.draw (terminalFrame surface.rect ++ (terminalTitle font).2)).Solid := by
    intro x y hhas
    rw [Surface.rect_draw] at hhas
    rw [Surface.draw_append, Surface.pixels_draw _ ((Surface.rect_draw ..).symm ▸ hhas)]
    apply inked_solid fun ink hink => drawText_solid _ (mem_inks.mp hink)
    -- the background covers the surface
    have hput : .put (Color.rgb 248 250 253) ∈ inks (terminalFrame surface.rect) x y := by
      unfold terminalFrame
      rw [inks_append, inks_append, mem_append, mem_append, inks_fillRect, if_pos ⟨hhas, hhas⟩]
      exact .inl (.inl (mem_singleton_self _))
    rw [Surface.pixels_draw _ hhas, inked_put hput _ (Color.rgb 248 250 253)]
    exact inked_solid (fun ink hink => terminalFrame_solid _ (mem_inks.mp hink))
      (Color.alpha_rgba ..)
  unfold terminalRender
  dsimp only
  split
  next => exact hframe
  next =>
    refine hframe.draw (drawAll_solid fun text' htext => ?_)
    obtain ⟨row, -, hrow⟩ := mem_filterMap.mp htext
    split at hrow
    next => exact nomatch hrow
    next =>
      obtain rfl := Option.some.inj hrow
      exact drawText_solid

/-- The font has the glyphs of a text. -/
def Font.Has (font : Font) (characters : List UInt8) : Prop :=
  (font.lineMetrics 15).isSome ∧ (font.glyph 0x20 15).isSome ∧ ∀ c ∈ characters,
    c = 0x0A ∨ c = 0x09 ∨ (font.glyph (if c < 0x80 then c.toNat else 0x3F) 15).isSome

/-- The font has the glyphs of the title and of the rows in view. -/
def Session.Drawable (text : Session) (font : Font) : Prop :=
  font.Has titleText ∧ ∀ row < text.clampScrollOffset.visibleCount,
    font.Has (text.clampScrollOffset.rowText row)

theorem drawText_complete {characters : List UInt8} (h : font.Has characters) (x y : Int)
    (color : Color) : (drawText font x y 15 characters color).1 = true := by
  obtain ⟨hline, hspace, hglyphs⟩ := h
  obtain ⟨line, hline⟩ := Option.isSome_iff_exists.mp hline
  obtain ⟨space, hspace⟩ := Option.isSome_iff_exists.mp hspace
  have hloop : ∀ start lineHeight advance penX baselineY,
      (drawTextFrom font 15 start lineHeight advance color characters penX baselineY).1 = true := by
    clear hspace hline
    induction characters with
    | nil => exact fun _ _ _ _ _ => rfl
    | cons character characters ih =>
      intro start lineHeight advance penX baselineY
      have ih := ih (fun c hc => hglyphs c (mem_cons_of_mem _ hc)) start lineHeight advance
      unfold drawTextFrom
      dsimp only
      split
      next => exact ih ..
      next hnewline =>
        split
        next => exact ih ..
        next htab =>
          have hglyph := ((hglyphs character mem_cons_self).resolve_left hnewline).resolve_left htab
          obtain ⟨glyph, hglyph⟩ := Option.isSome_iff_exists.mp hglyph
          rw [hglyph]
          exact ih ..
  unfold drawText
  rw [if_neg (by decide), hline, hspace]
  exact hloop ..

theorem drawAll_complete {texts : List (Bool × List Edit)} (h : ∀ text ∈ texts, text.1 = true) :
    (drawAll texts).1 = true := by
  induction texts with
  | nil => rfl
  | cons text texts ih =>
    obtain ⟨complete, edits⟩ := text
    obtain rfl : complete = true := h _ mem_cons_self
    exact ih fun text' htext => h text' (mem_cons_of_mem _ htext)

theorem Session.Drawable.render (h : text.Drawable font) (surface : Surface) :
    (terminalRender font surface text).1 = true := by
  have htitle : (terminalTitle font).1 = true := drawText_complete h.1 ..
  unfold terminalRender
  rw [htitle]
  refine drawAll_complete fun drawn hdrawn => ?_
  obtain ⟨row, hrow, hsome⟩ := mem_filterMap.mp hdrawn
  split at hsome
  next => exact nomatch hsome
  next =>
    obtain rfl := Option.some.inj hsome
    exact drawText_complete (h.2 row (mem_range.mp hrow)) ..

/-- No byte gets stuck. -/
def Session.Sound (text : Session) : Prop := text.historyCount = 0 ∨ ∃ t, Shows text t

theorem Session.Sound.write (h : text.Sound) (buffer : List UInt8) :
    ∃ text', text.write buffer = some text' ∧ text'.Sound := by
  obtain hzero | ⟨t, ht⟩ := h
  · refine ⟨text, ?_, .inl hzero⟩
    unfold Session.write
    induction buffer with
    | nil => rfl
    | cons byte buffer ih =>
      have hputchar : text.putchar 4 byte = some text := if_pos hzero
      rw [foldlM_cons, hputchar]
      exact ih
  · obtain ⟨text', hwrite, hfollows⟩ := Shows.output 0 buffer ht
    exact ⟨text', hwrite, .inr ⟨_, hfollows.shows⟩⟩

theorem Session.Sound.scroll (h : text.Sound) (key : Scene.ViewKey) : (key.scroll text).Sound := by
  obtain hzero | ⟨t, ht⟩ := h
  · left
    cases key with
    | pageUp =>
      show (text.scrollViewUp terminalPageScroll).historyCount = 0
      unfold Session.scrollViewUp
      dsimp only
      split_ifs <;> exact hzero
    | pageDown =>
      show (text.scrollViewDown terminalPageScroll).historyCount = 0
      unfold Session.scrollViewDown
      split_ifs <;> exact hzero
    | character => exact hzero
  · right
    cases key with
    | pageUp => exact ⟨t, ht.scrollViewUp _⟩
    | pageDown => exact ⟨t, ht.scrollViewDown _⟩
    | character => exact ⟨t, ht.setOffset (Nat.zero_le _)⟩

theorem Session.Sound.render (h : text.Sound) : (terminalRender font surface text).2.2.Sound := by
  unfold terminalRender
  dsimp only
  split
  next => exact h
  next =>
    obtain hzero | ⟨t, ht⟩ := h
    · left
      show text.clampScrollOffset.historyCount = 0
      unfold Session.clampScrollOffset
      split <;> exact hzero
    · exact .inr ⟨t, ht.clamp⟩

end MeatySkeleton.Gui
