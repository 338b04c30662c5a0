import MeatySkeleton.Gui.Marking
import MeatySkeleton.Gui.WidgetWalks

/-!
# Rendering a tree of components

`gui_widget_render_internal` hands each component the part of its bounds that all its ancestors
and the surface leave it, but no component looks at it. So nothing is drawn outside the surface,
and a component stays in its clip exactly when what it paints happens to lie there: the rounded
rectangle of a panel may lie outside its parent, and a text may be longer than its label.
-/

namespace MeatySkeleton.Gui

open Option Lib

variable {n : Nat} {σ : Type}

namespace Widgets

variable {w : Widgets n σ} {root x p : Fin n} {px py : Int} {screen : Rect}

/-! ## Clips -/

/-- The first widget is the second or above it. -/
def Path (w : Widgets n σ) : Fin n → Fin n → Prop :=
  Relation.ReflTransGen fun parent child => (w child).parent = some parent

/-- The pixel is on the surface, and in the bounds of the widget and of all its ancestors in the
tree that is rendered. -/
def InClip (w : Widgets n σ) (root : Fin n) (screen : Rect) (x : Fin n) (px py : Int) : Prop :=
  screen.Has px py ∧ ∀ a, w.Path root a → w.Path a x → ∀ bounds, w.absoluteBounds a = some bounds →
    bounds.Has px py

/-- The widget and its ancestors are visible, and it has a pixel in its clip. -/
structure Shown (w : Widgets n σ) (root : Fin n) (screen : Rect) (x : Fin n) : Prop where
  path : w.Path root x
  visible : ∀ a, w.Path root a → w.Path a x → (w a).visible = true
  clip : ∃ px py, w.InClip root screen x px py

/-- A path to a child comes through its parent. -/
theorem Path.child (hparent : (w x).parent = some p) {a : Fin n} (h : w.Path a x) :
    a = x ∨ w.Path a p := by
  cases Relation.ReflTransGen.cases_tail h with
  | inl he => exact .inl he.symm
  | inr h =>
    obtain ⟨b, hab, hb⟩ := h
    obtain rfl := some.inj (hb.symm.trans hparent)
    exact .inr hab

theorem Path.snoc {a : Fin n} (h : w.Path a p) (hparent : (w x).parent = some p) : w.Path a x :=
  Relation.ReflTransGen.tail h hparent

/-- Nothing is above the root of a tree but itself. -/
theorem Forest.path_root (h : Forest w) {a : Fin n} (hroot : w.Path root a) (ha : w.Path a root) :
    a = root := by
  have habove {a b : Fin n} (hpath : w.Path a b) : a = b ∨ w.children.Above a b := by
    induction hpath with
    | refl => exact .inl rfl
    | @tail b c _ hparent ih =>
      have hchild : c ∈ w.children b := (h.linked.parent b c).mpr hparent
      obtain rfl | ih := ih
      · exact .inr (.single hchild)
      · exact .inr (ih.tail hchild)
  obtain he | habove1 := habove hroot
  · exact he.symm
  obtain he | habove2 := habove ha
  · exact he
  · exact absurd (habove1.trans habove2) (h.acyclic root)

/-- The clip of the root. -/
theorem Forest.inClip_root (h : Forest w) {bounds : Rect}
    (hbounds : w.absoluteBounds root = some bounds) :
    w.InClip root screen root px py ↔ screen.Has px py ∧ bounds.Has px py := by
  constructor
  · exact fun hclip => ⟨hclip.1, hclip.2 root .refl .refl bounds hbounds⟩
  · rintro ⟨hscreen, hhas⟩
    refine ⟨hscreen, fun a hroot ha bounds' hbounds' => ?_⟩
    obtain rfl := h.path_root hroot ha
    obtain rfl := some.inj (hbounds.symm.trans hbounds')
    exact hhas

/-- The clip of a child. -/
theorem inClip_child (hparent : (w x).parent = some p) (hp : w.Path root p) {bounds : Rect}
    (hbounds : w.absoluteBounds x = some bounds) :
    w.InClip root screen x px py ↔ w.InClip root screen p px py ∧ bounds.Has px py := by
  constructor
  · intro hclip
    exact ⟨⟨hclip.1, fun a hroot ha => hclip.2 a hroot (ha.snoc hparent)⟩,
      hclip.2 x (hp.snoc hparent) .refl bounds hbounds⟩
  · rintro ⟨hclip, hhas⟩
    refine ⟨hclip.1, fun a hroot ha bounds' hbounds' => ?_⟩
    obtain rfl | ha := ha.child hparent
    · obtain rfl := some.inj (hbounds.symm.trans hbounds')
      exact hhas
    · exact hclip.2 a hroot ha bounds' hbounds'

/-! ## The calls -/

/-- What a component draws on a surface of this size. -/
def drawing (w : Widgets n σ) (components : Fin n → Component) (screen : Rect) (x : Fin n)
    (bounds : Rect) : List Edit :=
  ((components x).render screen (w x).enabled bounds).2

/-- Calls of components that are shown, one after the other on a surface of this size. -/
structure Rendered (w : Widgets n σ) (components : Fin n → Component) (root : Fin n)
    (screen : Rect) (c c' : Canvas n) : Prop where
  rect : c'.surface.rect = c.surface.rect
  outside : ∀ px py, ¬c.surface.rect.Has px py → c'.surface.pixels px py = c.surface.pixels px py
  calls : ∃ calls, c'.calls = c.calls ++ calls ∧ ∀ call ∈ calls,
    w.Shown root screen call.widget ∧ call.before.rect = screen ∧
    ∃ bounds, w.absoluteBounds call.widget = some bounds ∧
      call.after = call.before.draw (w.drawing components screen call.widget bounds)

variable {components : Fin n → Component} {c c' c'' : Canvas n}

theorem Rendered.refl (c : Canvas n) : w.Rendered components root screen c c :=
  ⟨rfl, fun _ _ _ => rfl, [], (List.append_nil _).symm, fun _ hcall => absurd hcall List.not_mem_nil⟩

theorem Rendered.trans (h : w.Rendered components root screen c c')
    (h' : w.Rendered components root screen c' c'') : w.Rendered components root screen c c'' where
  rect := h'.rect.trans h.rect
  outside := by
    intro px py hout
    rw [h'.outside px py (h.rect ▸ hout), h.outside px py hout]
  calls := by
    obtain ⟨calls, heq, hcalls⟩ := h.calls
    obtain ⟨calls', heq', hcalls'⟩ := h'.calls
    refine ⟨calls ++ calls', ?_, fun call hcall => ?_⟩
    · rw [heq', heq, List.append_assoc]
    · exact (List.mem_append.mp hcall).elim (hcalls call) (hcalls' call)

/-- The callback of a component that is shown. -/
theorem callback_rendered (hshown : w.Shown root screen x) (hrect : c.surface.rect = screen)
    {bounds : Rect} (hbounds : w.absoluteBounds x = some bounds) (clip : Rect) :
    w.Rendered components root screen c
      ((components x).callback x (w x).enabled bounds clip c).2 := by
  have hdrawing : ((components x).callback x (w x).enabled bounds clip c).2 =
      ⟨c.surface.draw (w.drawing components screen x bounds), c.calls ++
        [⟨x, c.surface, c.surface.draw (w.drawing components screen x bounds)⟩]⟩ := by
    unfold Component.callback drawing
    rw [hrect]
  rw [hdrawing]
  refine ⟨c.surface.rect_draw _, fun px py hout => c.surface.pixels_draw_outside hout _, _, rfl,
    fun call hcall => ?_⟩
  obtain rfl := List.mem_singleton.mp hcall
  exact ⟨hshown, hrect, bounds, hbounds, rfl⟩

/-! ## Rendering -/

variable {t : Widgets n (Canvas n)} {d d' : Canvas n}

/-- What holds when a widget is rendered on behalf of its parent. -/
structure Entered (w : Widgets n σ) (root : Fin n) (screen : Rect) (x : Fin n) (parentClip : Rect) :
    Prop where
  path : w.Path root x
  clip : ∀ bounds, w.absoluteBounds x = some bounds → ∀ px py,
    w.InClip root screen x px py ↔ parentClip.Has px py ∧ bounds.Has px py
  visible : ∀ a, w.Path root a → w.Path a x → a = x ∨ (w a).visible = true

/-- The children of a widget that is shown. -/
theorem Shown.entered (h : w.Shown root screen p) {clip : Rect}
    (hclip : ∀ px py, w.InClip root screen p px py ↔ clip.Has px py)
    (hparent : (w x).parent = some p) : w.Entered root screen x clip where
  path := h.path.snoc hparent
  clip := by
    intro bounds hbounds px py
    rw [inClip_child hparent h.path hbounds, hclip]
  visible := by
    intro a hroot ha
    exact (ha.child hparent).imp id (h.visible a hroot)

/-- A widget with a part of its bounds in the clip of its parent. -/
theorem Entered.shown {parentClip clip bounds : Rect} (h : w.Entered root screen x parentClip)
    (hvisible : (w x).visible = true) (hbounds : w.absoluteBounds x = some bounds)
    (hclip : parentClip.intersect bounds = some clip) :
    w.Shown root screen x ∧ ∀ px py, w.InClip root screen x px py ↔ clip.Has px py := by
  have hiff : ∀ px py, w.InClip root screen x px py ↔ clip.Has px py := by
    intro px py
    rw [h.clip bounds hbounds, Rect.intersect_has hclip]
  refine ⟨⟨h.path, fun a hroot ha => ?_, clip.x, clip.y, (hiff _ _).mpr ?_⟩, hiff⟩
  · obtain rfl | hvisible' := h.visible a hroot ha
    · exact hvisible
    · exact hvisible'
  · have hsize := Rect.intersect_some hclip
    have hwidth := hsize.width
    have hheight := hsize.height
    unfold Rect.Has Rect.right Rect.bottom
    omega

/-- A widget renders itself and its children, with the clip they have. -/
theorem rendered_internal (hforest : Forest t) (hbuilt : t.Built components) (fuel : Nat) :
    (∀ x parentClip d result, t.Entered root screen x parentClip → d.surface.rect = screen →
      t.renderInternal fuel x parentClip d = some result →
        t.Rendered components root screen d result.2) ∧
    ∀ clip l q d result, (∀ c ∈ l, t.Entered root screen c clip) →
      Seg (fun x => (t x).nextSibling) (fun x => (t x).previousSibling) q l none →
      d.surface.rect = screen → t.renderChildren fuel l.head? clip d = some result →
        t.Rendered components root screen d result.2 := by
  induction fuel with
  | zero =>
    refine ⟨fun x parentClip d result _ _ h => (by cases h), fun clip l q d result _ _ _ h => ?_⟩
    cases l with
    | nil =>
      obtain rfl := some.inj h
      exact .refl d
    | cons c l => cases h
  | succ fuel ih =>
    obtain ⟨ihwidget, ihchildren⟩ := ih
    constructor
    · intro x parentClip d result hentered hrect h
      unfold renderInternal at h
      split at h
      next =>
        obtain rfl := some.inj h
        exact .refl d
      next hvisible =>
        rw [not_not] at hvisible
        obtain ⟨bounds, hbounds⟩ := hforest.absoluteBounds x
        rw [hbounds, bind_eq_bind, bind_some] at h
        cases hclip : parentClip.intersect bounds with
        | none =>
          rw [hclip] at h
          obtain rfl := some.inj h
          exact .refl d
        | some clip =>
          rw [hclip, hbuilt x] at h
          obtain ⟨hshown, hiff⟩ := hentered.shown hvisible hbounds hclip
          have hself : t.Rendered components root screen d _ :=
            callback_rendered hshown hrect hbounds clip
          dsimp only at h
          generalize (components x).callback x (t x).enabled bounds clip d = r at h hself
          obtain ⟨complete, d'⟩ := r
          cases complete with
          | false =>
            obtain rfl := some.inj h
            exact hself
          | true =>
            have hlist := hforest.linked.lists x
            change t.renderChildren fuel (t x).firstChild clip d' = some result at h
            rw [hlist.head_eq] at h
            refine hself.trans (ihchildren clip _ _ d' result (fun c hc => ?_) hlist.seg
              (hself.rect.trans hrect) h)
            exact hshown.entered hiff ((hforest.linked.parent x c).mp hc)
    · intro clip l q d result hentered hseg hrect h
      cases l with
      | nil =>
        obtain rfl := some.inj h
        exact .refl d
      | cons c l =>
        obtain ⟨-, hnext, hrest⟩ := seg_cons.mp hseg
        change (t.renderInternal fuel c clip d).bind _ = some result at h
        obtain ⟨⟨complete, d'⟩, hself, h⟩ := bind_eq_some_iff.mp h
        have hrendered := ihwidget c clip d _ (hentered c List.mem_cons_self) hrect hself
        cases complete with
        | false =>
          obtain rfl := some.inj h
          exact hrendered
        | true =>
          change t.renderChildren fuel (t c).nextSibling clip d' = some result at h
          rw [hnext, or_none] at h
          exact hrendered.trans (ihchildren clip l _ d' result
            (fun c' hc' => hentered c' (List.mem_cons_of_mem _ hc')) hrest
            (hrendered.rect.trans hrect) h)

theorem renderTree_rendered (hforest : Forest t) (hbuilt : t.Built components)
    {fuel width height : Nat} {result : Bool × Canvas n} (hrect : d.surface.rect = ⟨0, 0, width, height⟩)
    (h : t.renderTree fuel root width height d = some result) :
    t.Rendered components root ⟨0, 0, width, height⟩ d result.2 := by
  unfold renderTree at h
  dsimp only at h
  split at h
  next =>
    obtain rfl := some.inj h
    exact .refl d
  next =>
    refine (rendered_internal hforest hbuilt fuel).1 root _ d result ⟨.refl, ?_, ?_⟩ hrect h
    · exact fun bounds hbounds px py => hforest.inClip_root hbounds
    · exact fun a hroot ha => .inl (hforest.path_root hroot ha)

/-! ## Staying in the clip -/

/-- On no surface of this size does the component change a pixel outside its clip. -/
def StaysIn (w : Widgets n σ) (components : Fin n → Component) (root : Fin n) (screen : Rect)
    (x : Fin n) : Prop :=
  ∀ bounds, w.absoluteBounds x = some bounds → ∀ surface : Surface, surface.rect = screen →
    ∀ px py, (surface.draw (w.drawing components screen x bounds)).pixels px py ≠
      surface.pixels px py → w.InClip root screen x px py

/-- All that the component paints on the surface lies in its clip. -/
def Fits (w : Widgets n σ) (components : Fin n → Component) (root : Fin n) (screen : Rect)
    (x : Fin n) : Prop :=
  ∀ bounds, w.absoluteBounds x = some bounds → ∀ px py, screen.Has px py →
    (components x).Paints (w x).enabled bounds px py → w.InClip root screen x px py

theorem staysIn_iff {width height : Nat} : w.StaysIn components root ⟨0, 0, width, height⟩ x ↔
    w.Fits components root ⟨0, 0, width, height⟩ x := by
  constructor
  · intro hstays bounds hbounds px py hscreen hpaints
    obtain ⟨s, hs, hne⟩ := (changed_iff rfl rfl).mpr
      ⟨hscreen, (Component.marked (components x) hscreen).mpr hpaints⟩
    exact hstays bounds hbounds s hs px py hne
  · intro hfits bounds hbounds surface hsurface px py hne
    obtain ⟨hscreen, hmarked⟩ := (changed_iff rfl rfl).mp ⟨surface, hsurface, hne⟩
    exact hfits bounds hbounds px py hscreen ((Component.marked (components x) hscreen).mp hmarked)

/-- What is promised of rendering a tree on surfaces of a size: it ends, only pixels of the surface
change, and no component changes a pixel outside its clip, neither in a call that is made nor in
one on another surface of the size. -/
structure Clipped (t : Widgets n (Canvas n)) (components : Fin n → Component) (root : Fin n)
    (width height : Nat) : Prop where
  ends : ∃ least, ∀ fuel, least ≤ fuel → ∀ d, (t.renderTree fuel root width height d).isSome
  surface : ∀ fuel d result, d.surface.rect = ⟨0, 0, width, height⟩ →
    t.renderTree fuel root width height d = some result → ∀ px py,
      result.2.surface.pixels px py ≠ d.surface.pixels px py → d.surface.rect.Has px py
  calls : ∀ fuel surface result, surface.rect = ⟨0, 0, width, height⟩ →
    t.renderTree fuel root width height ⟨surface, []⟩ = some result →
      ∀ call ∈ result.2.calls, ∀ px py, call.after.pixels px py ≠ call.before.pixels px py →
        t.InClip root ⟨0, 0, width, height⟩ call.widget px py
  own : ∀ x, t.Shown root ⟨0, 0, width, height⟩ x →
    t.StaysIn components root ⟨0, 0, width, height⟩ x

/-- Rendering a tree is clipped exactly when each component that is shown fits in its clip. -/
theorem renderTree_clipped (hforest : Forest t) (hbuilt : t.Built components) (root : Fin n)
    (width height : Nat) : t.Clipped components root width height ↔
      ∀ x, t.Shown root ⟨0, 0, width, height⟩ x →
        t.Fits components root ⟨0, 0, width, height⟩ x := by
  constructor
  · exact fun h x hshown => staysIn_iff.mp (h.own x hshown)
  · intro hfits
    refine ⟨?_, ?_, ?_, fun x hshown => staysIn_iff.mpr (hfits x hshown)⟩
    · obtain ⟨least, hleast⟩ := hforest.walksEnd.renderTree root
      exact ⟨least, fun fuel hfuel d => hleast fuel hfuel width height d⟩
    · intro fuel d result hrect h px py hne
      by_contra hout
      exact hne ((renderTree_rendered hforest hbuilt hrect h).outside px py hout)
    · intro fuel surface result hrect h call hcall px py hne
      obtain ⟨calls, heq, hcalls⟩ :=
        (renderTree_rendered (d := ⟨surface, []⟩) hforest hbuilt hrect h).calls
      rw [heq, List.nil_append] at hcall
      obtain ⟨hshown, hbefore, bounds, hbounds, hafter⟩ := hcalls call hcall
      rw [hafter] at hne
      exact staysIn_iff.mpr (hfits _ hshown) bounds hbounds call.before hbefore px py hne

/-! ## Two panels -/

/-- A panel without round corners. -/
def squarePanel (color : Color) : Component := .panel ⟨0, color, color, 0, 0⟩

/-- A blue panel in a grey one, at this place and of this size. -/
def twoPanels : Fin 2 → Component := fun x => squarePanel (if x = 0 then 0xFF808080 else 0xFF2040C0)

def nestedPanels (bounds : Rect) : Widgets 2 (Canvas 2) :=
  append (fun x => Widget.initialize (if x = 0 then ⟨0, 0, 4, 4⟩ else bounds)
    (some ((twoPanels x).callback x true))) 0 1

theorem nestedPanels_forest (bounds : Rect) : Forest (nestedPanels bounds) := by
  have hfresh : Fresh (fun x : Fin 2 => Widget.initialize
      (if x = 0 then ⟨0, 0, 4, 4⟩ else bounds) (some ((twoPanels x).callback x true))) :=
    fun _ => ⟨_, _, rfl⟩
  obtain ⟨answer, w', hstep, hforest, -⟩ := hfresh.forest.step (.addChild 0 1)
  cases hstep
  exact hforest

theorem nestedPanels_built (bounds : Rect) : (nestedPanels bounds).Built twoPanels
  | 0 => rfl
  | 1 => rfl

/-- A panel inside its parent is clipped. -/
theorem renderTree_clipped_nested : (nestedPanels ⟨1, 1, 2, 2⟩).Clipped twoPanels 0 8 8 := by
  have hforest := nestedPanels_forest ⟨1, 1, 2, 2⟩
  refine (renderTree_clipped hforest (nestedPanels_built _) 0 8 8).mpr fun x _ => ?_
  intro bounds hbounds px py hscreen hpaints
  have hroot : (nestedPanels ⟨1, 1, 2, 2⟩).absoluteBounds 0 = some ⟨0, 0, 4, 4⟩ := rfl
  match x with
  | 0 =>
    have hhas : bounds.Has px py := LocalPoint.has hpaints
    exact (hforest.inClip_root hbounds).mpr ⟨hscreen, hhas⟩
  | 1 =>
    have hhas : bounds.Has px py := LocalPoint.has hpaints
    refine (inClip_child (p := 0) rfl .refl hbounds).mpr
      ⟨(hforest.inClip_root hroot).mpr ⟨hscreen, ?_⟩, hhas⟩
    obtain rfl : (⟨1, 1, 2, 2⟩ : Rect) = bounds := Option.some.inj hbounds
    unfold Rect.Has Rect.right Rect.bottom at *
    dsimp only at *
    omega

/-- A panel that reaches beyond its parent is drawn there. -/
theorem renderTree_unclipped : ∃ surface : Surface, ∃ result, surface.rect = ⟨0, 0, 8, 8⟩ ∧
    (nestedPanels ⟨2, 2, 4, 4⟩).renderTree 8 0 8 8 ⟨surface, []⟩ = some result ∧
    ∃ call ∈ result.2.calls, call.after.pixels 5 5 ≠ call.before.pixels 5 5 ∧
      ¬(nestedPanels ⟨2, 2, 4, 4⟩).InClip 0 ⟨0, 0, 8, 8⟩ call.widget 5 5 := by
  have hrun : ((nestedPanels ⟨2, 2, 4, 4⟩).renderTree 8 0 8 8 ⟨⟨8, 8, fun _ _ => 0⟩, []⟩).any
      (fun result => result.2.calls.any fun call =>
        call.widget == 1 && call.after.pixels 5 5 != call.before.pixels 5 5) = true := by
    decide +kernel
  obtain ⟨result, hresult, hany⟩ := (Option.any_eq_true _ _).mp hrun
  obtain ⟨call, hcall, hchanged⟩ := List.any_eq_true.mp hany
  rw [Bool.and_eq_true, beq_iff_eq, bne_iff_ne] at hchanged
  refine ⟨_, result, rfl, hresult, call, hcall, hchanged.2, fun hclip => ?_⟩
  -- the pixel is outside of the parent
  rw [hchanged.1] at hclip
  have hout := hclip.2 0 .refl (.single rfl) ⟨0, 0, 4, 4⟩ rfl
  exact absurd hout (by decide)

end Widgets

end MeatySkeleton.Gui
