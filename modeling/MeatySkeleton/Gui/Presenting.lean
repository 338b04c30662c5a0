import MeatySkeleton.Gui.Damage
import MeatySkeleton.Lib.Run

/-!
# What is presented

A transfer writes the pixels of the recorded rectangles and no others, so a pixel is shown when
it is recorded or was shown before and has not changed. `Presentation` adds to the compositor what
the record is measured against: the rectangles that were passed to it and the pixels that were
changed since the last presentation.
-/

namespace MeatySkeleton.Gui

open Device Lib

/-- The bytes of a pixel. -/
theorem Surface.word_at {surface : Surface} {x y : Nat} (hx : x < surface.width) :
    surface.word (y * surface.pitch + x * 4) = surface.pixels x y := by
  have hpitch : x * 4 < surface.pitch := Nat.mul_lt_mul_of_pos_right hx (by decide)
  have hmod : (y * surface.pitch + x * 4) % surface.pitch = x * 4 := by
    rw [Nat.mul_comm, Nat.mul_add_mod, Nat.mod_eq_of_lt hpitch]
  have hdiv : (y * surface.pitch + x * 4) / surface.pitch = y := by
    rw [Nat.mul_comm, Nat.mul_add_div (Nat.zero_lt_of_lt hpitch), Nat.div_eq_of_lt hpitch,
      Nat.add_zero]
  unfold word
  rw [hmod, hdiv, Nat.mul_div_cancel x (by decide)]

namespace Compositor

variable {c : Compositor} {fb : Framebuffer} {screen : Screen} {r : Rect} {p : PixelWrite}

/-- The compositor was initialized for this framebuffer. -/
structure For (fb : Framebuffer) (c : Compositor) : Prop where
  initialized : c.initialized = true
  available : fb.available = true
  bpp : fb.bpp = 32
  width : c.backbuffer.width = fb.width
  height : c.backbuffer.height = fb.height
  valid : Surface.dimensionsValid fb.width fb.height = true

theorem For.width_lt (h : c.For fb) : c.backbuffer.width < 2 ^ 32 := by
  have hvalid := h.valid
  unfold Surface.dimensionsValid at hvalid
  simp only [Bool.and_eq_true, decide_eq_true_eq] at hvalid
  rw [h.width]
  omega

theorem For.height_lt (h : c.For fb) : c.backbuffer.height < 2 ^ 32 := by
  have hvalid := h.valid
  unfold Surface.dimensionsValid at hvalid
  simp only [Bool.and_eq_true, decide_eq_true_eq] at hvalid
  have hle := Nat.div_le_self (2 ^ 32 - 1) (fb.width * 4)
  rw [h.height]
  omega

theorem initializeFor_spec {allocated : Bool}
    (h : initializeFor fb allocated .zero = (true, c)) :
    c.For fb ∧ c.damage = [] ∧ c.fullDamage = false := by
  unfold initializeFor at h
  split at h
  next => exact nomatch h
  next hchecks =>
    simp only [Bool.or_eq_true, Bool.not_eq_true', bne_iff_ne, beq_iff_eq, not_or,
      Bool.not_eq_false, not_not] at hchecks
    rw [if_neg (by exact Bool.false_ne_true)] at h
    unfold Surface.create at h
    by_cases hvalid : (Surface.dimensionsValid fb.width fb.height && allocated) = true
    · rw [if_pos hvalid] at h
      obtain ⟨-, rfl⟩ := Prod.mk.inj h
      exact ⟨⟨rfl, hchecks.1.1.1, hchecks.1.1.2, rfl, rfl, (Bool.and_eq_true _ _ ▸ hvalid).1⟩,
        rfl, rfl⟩
    · rw [if_neg hvalid] at h
      exact nomatch h

/-- The transfer of a rectangle writes its pixels. -/
theorem mem_blit (h : c.For fb) (hr : c.screenRect.Proper r) : p ∈ c.blit fb r ↔
    r.Has p.x p.y ∧ p.value = fb.blitted (c.backbuffer.pixels p.x p.y) := by
  have hwidth := h.width_lt
  have hheight := h.height_lt
  obtain ⟨hinside, hpositive⟩ := hr
  unfold screenRect Surface.rect Rect.Inside Rect.right Rect.bottom at hinside
  dsimp only at hinside
  obtain ⟨x, hx⟩ := Int.eq_ofNat_of_zero_le hinside.1
  obtain ⟨y, hy⟩ := Int.eq_ofNat_of_zero_le hinside.2.2.1
  have hxu : Rect.toU32 r.x = x := by
    unfold Rect.toU32
    omega
  have hyu : Rect.toU32 r.y = y := by
    unfold Rect.toU32
    omega
  have hw := h.width
  have hh := h.height
  unfold blit
  rw [hxu, hyu, Framebuffer.blitRgb32_inside h.available h.bpp hpositive.1 hpositive.2 (by omega)
    (by omega) (by unfold Surface.pitch; omega), Framebuffer.mem_block]
  have hword : ∀ row column, column < r.width → c.backbuffer.word (y * c.backbuffer.pitch + x * 4 +
      (row * c.backbuffer.pitch + column * 4)) =
        c.backbuffer.pixels ((x + column : Nat) : Int) ((y + row : Nat) : Int) := by
    intro row column hcolumn
    rw [← Surface.word_at (by omega), Nat.add_mul, Nat.add_mul]
    congr 1
    omega
  unfold Rect.Has Rect.right Rect.bottom
  rw [hx, hy]
  constructor
  · rintro ⟨row, hrow, column, hcolumn, rfl⟩
    dsimp only
    rw [hword row column hcolumn]
    exact ⟨by omega, rfl⟩
  · rintro ⟨hhas, hvalue⟩
    obtain ⟨px, py, value⟩ := p
    dsimp only at hhas hvalue
    refine ⟨py - y, by omega, px - x, by omega, ?_⟩
    rw [hword _ _ (by omega), hvalue, Nat.add_sub_cancel' (by omega),
      Nat.add_sub_cancel' (by omega)]

/-- The whole screen is transferred as a rectangle is. -/
theorem blit_screenRect (c : Compositor) (fb : Framebuffer) : c.blit fb c.screenRect =
    fb.blitRgb32 0 0 c.screenRect.width c.screenRect.height (some c.backbuffer.word)
      c.backbuffer.pitch := by
  have hzero : Rect.toU32 0 = 0 := rfl
  unfold blit
  show fb.blitRgb32 (Rect.toU32 0) (Rect.toU32 0) _ _ (some fun offset =>
    c.backbuffer.word (Rect.toU32 0 * _ + Rect.toU32 0 * 4 + offset)) _ = _
  rw [hzero]
  simp only [Nat.zero_mul, Nat.zero_add]

theorem For.screenRect_proper (h : c.For fb) : c.screenRect.Proper c.screenRect := by
  have hvalid := h.valid
  unfold Surface.dimensionsValid at hvalid
  simp only [Bool.and_eq_true, bne_iff_ne, ne_eq] at hvalid
  rw [← h.width, ← h.height] at hvalid
  exact ⟨.refl _, Nat.pos_of_ne_zero hvalid.1.1.1, Nat.pos_of_ne_zero hvalid.1.1.2⟩

/-- The pixels that are recorded are transferred, and no others. -/
theorem mem_transfers (h : c.For fb) (hrecorded : c.Recorded) : p ∈ c.transfers fb ↔
    c.Damaged p.x p.y ∧ p.value = fb.blitted (c.backbuffer.pixels p.x p.y) := by
  unfold transfers Damaged
  split
  next hfull =>
    rw [← blit_screenRect, mem_blit h h.screenRect_proper]
    simp only [hfull, true_or, and_true]
  next hfull =>
    rw [List.mem_flatMap]
    constructor
    · intro ⟨r, hr, hp⟩
      obtain ⟨hhas, hvalue⟩ := (mem_blit h (hrecorded.proper r hr)).mp hp
      exact ⟨⟨(hrecorded.proper r hr).1.has hhas, .inr ⟨r, hr, hhas⟩⟩, hvalue⟩
    · intro ⟨⟨_, hdamaged⟩, hvalue⟩
      obtain ⟨r, hr, hhas⟩ := hdamaged.resolve_left hfull
      exact ⟨r, hr, (mem_blit h (hrecorded.proper r hr)).mpr ⟨hhas, hvalue⟩⟩

/-- The picture after a transfer. -/
theorem paint_transfers (h : c.For fb) (hrecorded : c.Recorded) (x y : Nat) :
    (c.Damaged x y → screen.paint (c.transfers fb) x y = fb.blitted (c.backbuffer.pixels x y)) ∧
    (¬c.Damaged x y → screen.paint (c.transfers fb) x y = screen x y) := by
  constructor
  · intro hdamaged
    refine Screen.paint_written (fun p hp hx hy => ?_)
      ⟨⟨x, y, fb.blitted (c.backbuffer.pixels x y)⟩,
        (mem_transfers h hrecorded).mpr ⟨hdamaged, rfl⟩, rfl, rfl⟩
    rw [((mem_transfers h hrecorded).mp hp).2, hx, hy]
  · intro hdamaged
    refine Screen.paint_unwritten fun p hp hat => hdamaged ?_
    rw [← hat.1, ← hat.2]
    exact ((mem_transfers h hrecorded).mp hp).1

end Compositor

/-! ## Runs -/

/-- The compositor, the picture, and what happened since the last presentation: the rectangles
passed on (all of the screen counts as one) and the pixels changed. -/
structure Presentation where
  fb : Framebuffer
  compositor : Compositor
  screen : Screen
  requested : List Rect
  changed : Int → Int → Bool

namespace Presentation

inductive Op
  | damage (rect : Rect)
  | damageAll
  | putPixel (x y : Int) (color : Color)
  | present

/-- One call. Pixels of the surface are changed one by one. -/
def step (s : Presentation) : Op → Option Presentation
  | .damage rect => do
    let compositor ← s.compositor.addDamage rect
    return { s with compositor, requested := rect :: s.requested }
  | .damageAll => some { s with
      compositor := s.compositor.damageAll
      requested := s.compositor.screenRect :: s.requested }
  | .putPixel x y color => some { s with
      compositor := { s.compositor with
        backbuffer := s.compositor.backbuffer.putPixel x y color }
      changed := fun px py => s.changed px py || px == x && py == y }
  | .present =>
    let (compositor, screen) := s.compositor.present s.fb s.screen
    some { s with compositor, screen, requested := [], changed := fun _ _ => false }

/-- The framebuffer shows the colour of this pixel. -/
def Shows (s : Presentation) (px py : Int) : Prop :=
  s.fb.ShowsRgb (s.screen px.toNat py.toNat) (s.compositor.backbuffer.pixels px py)

/-- The framebuffer shows the surface. -/
def Shown (s : Presentation) : Prop :=
  ∀ px py, s.compositor.screenRect.Has px py → s.Shows px py

/-- Just initialized, with a picture that shows the surface where nothing counts as changed. -/
structure Start (s : Presentation) : Prop where
  initialized : ∃ allocated, Compositor.initializeFor s.fb allocated .zero = (true, s.compositor)
  requested : s.requested = []
  shows : ∀ px py, s.compositor.screenRect.Has px py → s.changed px py = false → s.Shows px py

/-- When the surface is presented, each pixel that has changed lies in a rectangle that was
passed on. -/
def Covered (s : Presentation) : Op → Prop
  | .present => ∀ px py, s.compositor.screenRect.Has px py → s.changed px py = true →
      ∃ r ∈ s.requested, r.Has px py
  | _ => True

/-- The record covers what was passed on. -/
structure Inv (s : Presentation) : Prop where
  sized : s.compositor.For s.fb
  recorded : s.compositor.Recorded
  covers : ∀ r ∈ s.requested, ∀ px py, s.compositor.screenRect.Has px py → r.Has px py →
    s.compositor.Damaged px py

/-- What has not changed is shown. -/
def Current (s : Presentation) : Prop :=
  ∀ px py, s.compositor.screenRect.Has px py → s.changed px py = false → s.Shows px py

variable {s s' s0 : Presentation} {op : Op} {ops : List Op}

theorem putPixel_rect (surface : Surface) (x y : Int) (color : Color) :
    (surface.putPixel x y color).rect = surface.rect := by
  unfold Surface.putPixel
  split <;> rfl

/-- Nothing of what is shown, and what of it has changed, is different. -/
structure SamePicture (s s' : Presentation) : Prop where
  fb : s'.fb = s.fb
  backbuffer : s'.compositor.backbuffer = s.compositor.backbuffer
  screen : s'.screen = s.screen
  changed : s'.changed = s.changed

theorem Current.same (h : s.Current) (hs : SamePicture s s') : s'.Current := by
  intro px py hscreen hchanged
  unfold Compositor.screenRect at hscreen
  rw [hs.backbuffer] at hscreen
  rw [hs.changed] at hchanged
  unfold Shows
  rw [hs.fb, hs.screen, hs.backbuffer]
  exact h px py hscreen hchanged

section

variable (h : s.Inv)

include h

theorem Inv.damage (rect : Rect) :
    ∃ s', s.step (.damage rect) = some s' ∧ s'.Inv ∧ SamePicture s s' := by
  obtain ⟨c', hc, hrecorded, hbackbuffer, hinitialized, hcovers⟩ :=
    Compositor.addDamage_spec h.recorded h.sized.initialized h.sized.width_lt h.sized.height_lt rect
  have hrect : c'.screenRect = s.compositor.screenRect := by
    unfold Compositor.screenRect
    rw [hbackbuffer]
  refine ⟨{ s with compositor := c', requested := rect :: s.requested }, ?_,
    ⟨⟨hinitialized, h.sized.available, h.sized.bpp, ?_, ?_, h.sized.valid⟩, hrecorded, ?_⟩,
    ⟨rfl, hbackbuffer, rfl, rfl⟩⟩
  · show (s.compositor.addDamage rect).bind _ = _
    rw [hc]
    rfl
  · exact hbackbuffer ▸ h.sized.width
  · exact hbackbuffer ▸ h.sized.height
  · intro r hr px py hscreen hhas
    rw [hrect] at hscreen
    obtain rfl | hr := List.mem_cons.mp hr
    · exact hcovers px py (.inr ⟨hscreen, hhas⟩)
    · exact hcovers px py (.inl (h.covers r hr px py hscreen hhas))

theorem Inv.damageAll :
    ∃ s', s.step .damageAll = some s' ∧ s'.Inv ∧ SamePicture s s' := by
  have hall : s.compositor.damageAll = { s.compositor with fullDamage := true, damage := [] } :=
    if_neg (by rw [h.sized.initialized]; exact Bool.false_ne_true)
  refine ⟨_, rfl, ⟨?_, ?_, ?_⟩, ⟨rfl, ?_, rfl, rfl⟩⟩
  all_goals dsimp only
  all_goals rw [hall]
  · exact ⟨h.sized.initialized, h.sized.available, h.sized.bpp, h.sized.width, h.sized.height,
      h.sized.valid⟩
  · exact .empty rfl
  · exact fun r _ px py hscreen _ => ⟨hscreen, .inl rfl⟩

theorem Inv.putPixel (x y : Int) (color : Color) :
    ∃ s', s.step (.putPixel x y color) = some s' ∧ s'.Inv := by
  have hrect := putPixel_rect s.compositor.backbuffer x y color
  have hwidth := congrArg Rect.width hrect
  have hheight := congrArg Rect.height hrect
  refine ⟨_, rfl, ⟨h.sized.initialized, h.sized.available, h.sized.bpp,
    hwidth.trans h.sized.width, hheight.trans h.sized.height, h.sized.valid⟩,
    ⟨?_, h.recorded.apart, h.recorded.count⟩, ?_⟩
  · intro r hr
    show (Surface.rect _).Proper r
    rw [hrect]
    exact h.recorded.proper r hr
  · intro r hr px py hscreen hhas
    change (Surface.rect _).Has px py at hscreen
    rw [hrect] at hscreen
    obtain ⟨-, hdamaged⟩ := h.covers r hr px py hscreen hhas
    refine ⟨?_, hdamaged⟩
    show (Surface.rect _).Has px py
    rw [hrect]
    exact hscreen

theorem present_eq : s.step .present = some { s with
    compositor := { s.compositor with fullDamage := false, damage := [] }
    screen := s.screen.paint (s.compositor.transfers s.fb)
    requested := []
    changed := fun _ _ => false } := by
  have hpresent : s.compositor.present s.fb s.screen =
      ({ s.compositor with fullDamage := false, damage := [] },
        s.screen.paint (s.compositor.transfers s.fb)) :=
    if_neg (by rw [h.sized.initialized]; exact Bool.false_ne_true)
  unfold step
  dsimp only
  rw [hpresent]

theorem Inv.present : ∃ s', s.step .present = some s' ∧ s'.Inv := by
  refine ⟨_, present_eq h, ?_, .empty rfl, nofun⟩
  exact ⟨h.sized.initialized, h.sized.available, h.sized.bpp, h.sized.width, h.sized.height,
    h.sized.valid⟩

/-- Every call returns and keeps the record. -/
theorem Inv.step (op : Op) : ∃ s', s.step op = some s' ∧ s'.Inv := by
  cases op with
  | damage rect =>
    obtain ⟨s', hs, hinv, -⟩ := h.damage rect
    exact ⟨s', hs, hinv⟩
  | damageAll =>
    obtain ⟨s', hs, hinv, -⟩ := h.damageAll
    exact ⟨s', hs, hinv⟩
  | putPixel x y color => exact h.putPixel x y color
  | present => exact h.present

/-- A presentation shows what has changed, if it is covered, and keeps the rest. -/
theorem present_shown (hcurrent : s.Current) (hcovered : s.Covered .present)
    (hs : s.step .present = some s') : s'.Shown := by
  obtain rfl := Option.some.inj ((present_eq h).symm.trans hs)
  intro px py hscreen
  change s.compositor.screenRect.Has px py at hscreen
  have hnonneg : 0 ≤ px ∧ 0 ≤ py := ⟨hscreen.1, hscreen.2.2.1⟩
  obtain ⟨x, rfl⟩ := Int.eq_ofNat_of_zero_le hnonneg.1
  obtain ⟨y, rfl⟩ := Int.eq_ofNat_of_zero_le hnonneg.2
  obtain ⟨hwritten, hkept⟩ :=
    @Compositor.paint_transfers _ _ s.screen h.sized h.recorded x y
  unfold Shows
  rw [Int.toNat_natCast, Int.toNat_natCast]
  dsimp only
  by_cases hdamaged : s.compositor.Damaged x y
  · rw [hwritten hdamaged]
    exact Framebuffer.blitted_shows s.fb _
  · rw [hkept hdamaged]
    refine hcurrent x y hscreen ?_
    rw [← Bool.not_eq_true]
    intro hchanged
    obtain ⟨r, hr, hhas⟩ := hcovered x y hscreen hchanged
    exact hdamaged (h.covers r hr x y hscreen hhas)

theorem Current.step (hcurrent : s.Current) (hcovered : s.Covered op)
    (hs : s.step op = some s') : s'.Current := by
  cases op with
  | damage rect =>
    obtain ⟨t, ht, -, hsame⟩ := h.damage rect
    obtain rfl := Option.some.inj (ht.symm.trans hs)
    exact hcurrent.same hsame
  | damageAll =>
    obtain ⟨t, ht, -, hsame⟩ := h.damageAll
    obtain rfl := Option.some.inj (ht.symm.trans hs)
    exact hcurrent.same hsame
  | putPixel x y color =>
    obtain rfl := Option.some.inj hs
    intro px py hscreen hchanged
    change (Surface.rect _).Has px py at hscreen
    rw [putPixel_rect] at hscreen
    -- a pixel that has not changed is not the one written to
    simp only [Bool.or_eq_false_iff, Bool.and_eq_false_imp, beq_iff_eq] at hchanged
    have hkept : (s.compositor.backbuffer.putPixel x y color).pixels px py =
        s.compositor.backbuffer.pixels px py := by
      unfold Surface.putPixel
      split
      · exact if_neg fun hp => absurd hp.2 (by simpa using hchanged.2 hp.1)
      · rfl
    show s.fb.ShowsRgb _ ((s.compositor.backbuffer.putPixel x y color).pixels px py)
    rw [hkept]
    exact hcurrent px py hscreen hchanged.1
  | present => exact fun px py hscreen _ => present_shown h hcurrent hcovered hs px py hscreen

end

theorem Start.inv (h : s.Start) : s.Inv := by
  obtain ⟨allocated, hinit⟩ := h.initialized
  obtain ⟨hfor, hdamage, -⟩ := Compositor.initializeFor_spec hinit
  exact ⟨hfor, .empty hdamage, by rw [h.requested]; exact nofun⟩

/-- In every run the record covers what was passed on, as rectangles of the screen that do not
overlap, and the next call returns. If the presentations of the run are covered, the next one
shows the surface. -/
theorem run_presented (h : s0.Start) (hr : Run step s0 ops s) :
    (∀ r ∈ s.requested, ∀ px py, s.compositor.screenRect.Has px py → r.Has px py →
      s.compositor.Damaged px py) ∧
    (∀ r ∈ s.compositor.damage, r.Inside s.compositor.screenRect) ∧
    (s.compositor.damage.Pairwise fun r t => ∀ px py, ¬(r.Has px py ∧ t.Has px py)) ∧
    s.compositor.damage.length ≤ maxDamageRects ∧
    (∀ op, (s.step op).isSome) ∧
    (RunWhere step Covered s0 ops s → s.Covered .present →
      ∀ s', s.step .present = some s' → s'.Shown) := by
  have hinv : s.Inv := by
    refine hr.invariant h.inv fun t op u ht _ hu => ?_
    obtain ⟨u', hu', hinv⟩ := ht.step op
    exact Option.some.inj (hu'.symm.trans hu) ▸ hinv
  refine ⟨hinv.covers, fun r hr => (hinv.recorded.proper r hr).1,
    hinv.recorded.apart.imp fun hrt px py => Rect.not_has_of_apart hrt, hinv.recorded.count,
    fun op => ?_, fun hcovers hcovered s' hs' => ?_⟩
  · obtain ⟨s', hs', -⟩ := hinv.step op
    exact Option.isSome_of_eq_some hs'
  · have hboth : s.Inv ∧ s.Current := by
      refine hcovers.invariant (I := fun s => s.Inv ∧ s.Current) ⟨h.inv, h.shows⟩ ?_
      intro t op u ht hok hu
      obtain ⟨u', hu', hinv'⟩ := ht.1.step op
      exact ⟨Option.some.inj (hu'.symm.trans hu) ▸ hinv', ht.2.step ht.1 hok hu⟩
    exact present_shown hinv hboth.2 hcovered hs'

/-- A black screen of 16 by 32 pixels. -/
def blackScreen : Presentation :=
  let fb : Framebuffer :=
    ⟨true, 0xF0000000, 0xFD000000, 0xFD000000, 0, 64, 16, 32, 32, 16, 8, 0, 1, 2048⟩
  ⟨fb, (Compositor.initializeFor fb true .zero).2, fun _ _ => 0xFF000000, [], fun _ _ => false⟩

/-- A pixel is changed; the two rectangles passed on touch, and are merged to one that has it. -/
theorem run_presented_merged : ∃ s, (do
    let s ← step blackScreen (.putPixel 3 4 0xFFFF0000)
    let s ← step s (.damage ⟨-2, -2, 8, 8⟩)
    step s (.damage ⟨6, 0, 3, 8⟩)) = some s ∧ s.compositor.damage = [⟨0, 0, 9, 8⟩] ∧
    ∀ s', s.step .present = some s' → s'.Shown := by
  have hshows : blackScreen.fb.ShowsRgb 0xFF000000 0xFF000000 := by decide
  have hstart : Start blackScreen := ⟨⟨true, rfl⟩, rfl, fun _ _ _ _ => hshows⟩
  refine ⟨_, rfl, rfl, ?_⟩
  refine (@run_presented _ _ [.putPixel 3 4 0xFFFF0000, .damage ⟨-2, -2, 8, 8⟩,
    .damage ⟨6, 0, 3, 8⟩] hstart (.cons trivial rfl (.cons trivial rfl (.cons trivial rfl .nil))))
    |>.2.2.2.2.2 (.cons trivial rfl (.cons trivial rfl (.cons trivial rfl .nil))) ?_
  intro px py _ hchanged
  obtain ⟨rfl, rfl⟩ : px = 3 ∧ py = 4 := by simpa [blackScreen] using hchanged
  exact ⟨⟨-2, -2, 8, 8⟩, by decide⟩

end Presentation

end MeatySkeleton.Gui
