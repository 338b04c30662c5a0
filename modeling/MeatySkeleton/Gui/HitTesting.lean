import MeatySkeleton.Gui.Clipping

/-!
# Hit testing and rendering

A hit test goes over the children backwards and starts from the bounds of the root; rendering goes
over them forwards and starts from the surface. On the surface both leave a widget the same
pixels, and the last widget of the one order that has a pixel is the first one of the other. So a
hit test gives the widget that rendering reaches last (`Reached`) among those with the pixel in
their clip. It does not ask whether the widget has a callback that draws anything: the root of the
top bar, which has none, is hit as well.
-/

namespace MeatySkeleton.Gui

open List Option Lib

variable {n : Nat} {σ : Type}

/-- A widget that rendering has come to, and the clip that it has there. -/
structure Reached (n : Nat) where
  widget : Fin n
  clip : Rect

namespace Widgets

/-- The callback of a widget, after a note that rendering has reached the widget. -/
def notedRender (w : Widgets n σ) (x : Fin n) : Render (List (Reached n) × σ) :=
  fun bounds clip (reached, destination) =>
    match (w x).render with
    | none => (true, (reached ++ [⟨x, clip⟩], destination))
    | some render =>
      let (complete, destination) := render bounds clip destination
      (complete, (reached ++ [⟨x, clip⟩], destination))

/-- The same widgets, with notes of what is reached. -/
def noted (w : Widgets n σ) : Widgets n (List (Reached n) × σ) := fun x => {
  bounds := (w x).bounds
  visible := (w x).visible
  enabled := (w x).enabled
  parent := (w x).parent
  firstChild := (w x).firstChild
  lastChild := (w x).lastChild
  previousSibling := (w x).previousSibling
  nextSibling := (w x).nextSibling
  render := some (w.notedRender x) }

/-- Those with a callback, which rendering calls. -/
def invoked (w : Widgets n σ) (reached : List (Reached n)) : List (Reached n) :=
  reached.filter fun r => (w r.widget).render.isSome

/-- The last one with this pixel in its clip. -/
def lastAt (reached : List (Reached n)) (px py : Int) : Option (Fin n) :=
  (reached.filter fun r => decide (r.clip.Has px py)).getLast?.map Reached.widget

variable {w : Widgets n σ} {x : Fin n} {clip : Rect} {px py : Int}

/-! ## Lists of what is reached -/

theorem lastAt_cons (r : Reached n) (l : List (Reached n)) : lastAt (r :: l) px py =
    if r.clip.Has px py then some ((lastAt l px py).getD r.widget) else lastAt l px py := by
  unfold lastAt
  rw [filter_cons]
  by_cases hr : r.clip.Has px py
  · rw [if_pos hr, if_pos (decide_eq_true hr), getLast?_cons]
    cases (l.filter fun r => decide (r.clip.Has px py)).getLast? with
    | none => rfl
    | some _ => rfl
  · rw [if_neg hr, if_neg (by rwa [decide_eq_true_eq])]

theorem lastAt_flatMap (l : List (Fin n)) (f : Fin n → List (Reached n)) :
    lastAt (l.flatMap f) px py = l.reverse.findSome? fun c => lastAt (f c) px py := by
  unfold lastAt
  rw [filter_flatMap, getLast?_flatMap, map_findSome?]
  rfl

theorem lastAt_none {l : List (Reached n)} (h : ∀ r ∈ l, ¬r.clip.Has px py) :
    lastAt l px py = none := by
  unfold lastAt
  rw [filter_eq_nil_iff.mpr fun r hr => by simpa using h r hr]
  rfl

/-- The last one is the last with a callback if it has one. -/
theorem lastAt_invoked {reached : List (Reached n)}
    (h : ∀ y, lastAt reached px py = some y → (w y).render.isSome = true) :
    lastAt (w.invoked reached) px py = lastAt reached px py := by
  unfold lastAt invoked at *
  have hcomm : (reached.filter fun r => (w r.widget).render.isSome).filter
      (fun r => decide (r.clip.Has px py)) = (reached.filter fun r => decide (r.clip.Has px py)).filter
        fun r => (w r.widget).render.isSome := by
    rw [List.filter_filter, List.filter_filter]
    exact filter_congr fun r _ => Bool.and_comm _ _
  rw [hcomm]
  generalize (reached.filter fun r => decide (r.clip.Has px py)) = l at h
  rcases eq_nil_or_concat' l with rfl | ⟨l, r, rfl⟩
  · rfl
  · rw [getLast?_concat] at h ⊢
    rw [filter_append, filter_singleton, h r.widget rfl, cond_true, getLast?_concat]

/-! ## The walks -/

theorem noted_absoluteFrom (w : Widgets n σ) (fuel : Nat) (o : Option (Fin n))
    (position : Int × Int) : w.noted.absoluteFrom fuel o position = w.absoluteFrom fuel o position := by
  induction fuel generalizing o position with
  | zero => cases o <;> rfl
  | succ fuel ih =>
    cases o with
    | none => rfl
    | some parent => exact ih _ _

theorem noted_absoluteBounds (w : Widgets n σ) (x : Fin n) :
    w.noted.absoluteBounds x = w.absoluteBounds x := by
  unfold absoluteBounds
  dsimp only
  rw [noted_absoluteFrom]
  rfl

/-- What rendering and a hit test make of a widget with this fuel: in this clip, rendering reaches
these. -/
structure Walked (w : Widgets n σ) (fuel : Nat) (x : Fin n) (reach : Rect → List (Reached n)) :
    Prop where
  render : ∀ clip reached d, ∃ complete reached' d',
    w.noted.renderInternal fuel x clip (reached, d) = some (complete, (reached', d')) ∧
    w.renderInternal fuel x clip d = some (complete, d') ∧
    (complete = true → reached' = reached ++ reach clip)
  inside : ∀ clip, ∀ r ∈ reach clip, ∀ px py, r.clip.Has px py → clip.Has px py
  hit : ∀ clip clip' px py, (∀ bounds, w.absoluteBounds x = some bounds → bounds.Has px py →
      (clip'.Has px py ↔ clip.Has px py)) →
    w.hitTestInternal fuel x clip' px py = some (lastAt (reach clip) px py)

variable {reach : Fin n → Rect → List (Reached n)} {least fuel : Nat} {l : List (Fin n)}
  {q : Option (Fin n)}

theorem renderChildren_walked
    (hseg : Seg (fun x => (w x).nextSibling) (fun x => (w x).previousSibling) q l none)
    (hl : ∀ c ∈ l, ∀ fuel, least ≤ fuel → w.Walked fuel c (reach c))
    (hfuel : least + l.length ≤ fuel) (clip : Rect) (reached : List (Reached n)) (d : σ) :
    ∃ complete reached' d',
      w.noted.renderChildren fuel l.head? clip (reached, d) = some (complete, (reached', d')) ∧
      w.renderChildren fuel l.head? clip d = some (complete, d') ∧
      (complete = true → reached' = reached ++ l.flatMap fun c => reach c clip) := by
  induction l generalizing q fuel reached d with
  | nil =>
    refine ⟨true, reached, d, ?_, ?_, fun _ => (append_nil reached).symm⟩
    all_goals cases fuel <;> rfl
  | cons c l ih =>
    rw [length_cons] at hfuel
    cases fuel with
    | zero => exact absurd hfuel (by omega)
    | succ fuel =>
      obtain ⟨-, hnext, hrest⟩ := seg_cons.mp hseg
      obtain ⟨complete, reached1, d1, hnoted, hplain, hreached⟩ :=
        (hl c mem_cons_self fuel (by omega)).render clip reached d
      cases complete with
      | false =>
        refine ⟨false, reached1, d1, ?_, ?_, nofun⟩
        · show (w.noted.renderInternal fuel c clip (reached, d)).bind _ = _
          rw [hnoted]
          rfl
        · show (w.renderInternal fuel c clip d).bind _ = _
          rw [hplain]
          rfl
      | true =>
        have hroom : least + l.length ≤ fuel := by omega
        obtain ⟨complete, reached2, d2, hnoted2, hplain2, hreached2⟩ :=
          ih hrest (fun d hd => hl d (mem_cons_of_mem _ hd)) hroom reached1 d1
        refine ⟨complete, reached2, d2, ?_, ?_, fun hcomplete => ?_⟩
        · show (w.noted.renderInternal fuel c clip (reached, d)).bind _ = _
          rw [hnoted]
          show w.noted.renderChildren fuel (w c).nextSibling clip (reached1, d1) = _
          rw [hnext, or_none]
          exact hnoted2
        · show (w.renderInternal fuel c clip d).bind _ = _
          rw [hplain]
          show w.renderChildren fuel (w c).nextSibling clip d1 = _
          rw [hnext, or_none]
          exact hplain2
        · rw [hreached2 hcomplete, hreached rfl, append_assoc, flatMap_cons]

/-- The children from the last one to the first. -/
theorem hitChildren_walked
    (hseg : Seg (fun x => (w x).previousSibling) (fun x => (w x).nextSibling) q l none)
    (hl : ∀ c ∈ l, ∀ fuel, least ≤ fuel → w.Walked fuel c (reach c))
    (hfuel : least + l.length ≤ fuel) {clip clip' : Rect} (hclip : clip'.Has px py ↔ clip.Has px py) :
    w.hitChildren fuel l.head? clip' px py =
      some (l.findSome? fun c => lastAt (reach c clip) px py) := by
  induction l generalizing q fuel with
  | nil => cases fuel <;> rfl
  | cons c l ih =>
    rw [length_cons] at hfuel
    cases fuel with
    | zero => exact absurd hfuel (by omega)
    | succ fuel =>
      obtain ⟨-, hprevious, hrest⟩ := seg_cons.mp hseg
      have hfirst := (hl c mem_cons_self fuel (by omega)).hit clip clip' px py
        fun _ _ _ => hclip
      show (w.hitTestInternal fuel c clip' px py).bind _ = _
      rw [hfirst, findSome?_cons]
      cases lastAt (reach c clip) px py with
      | some hit => rfl
      | none =>
        show w.hitChildren fuel (w c).previousSibling clip' px py = _
        rw [hprevious, or_none]
        exact ih hrest (fun d hd => hl d (mem_cons_of_mem _ hd)) (by omega)

/-- What is reached from a widget on, given what is reached from its children on. -/
def reachFrom (w : Widgets n σ) (x : Fin n) (bounds : Rect) (reach : Fin n → Rect → List (Reached n))
    (clip : Rect) : List (Reached n) :=
  if (w x).visible = true then
    match clip.intersect bounds with
    | none => []
    | some clip => ⟨x, clip⟩ :: (w.children x).flatMap fun c => reach c clip
  else []

/-- A widget with nothing in the clip is passed over. -/
theorem renderInternal_skipped (fuel : Nat) {bounds : Rect} (hbounds : w.absoluteBounds x = some bounds)
    (h : (w x).visible = false ∨ clip.intersect bounds = none) (d : σ) :
    w.renderInternal (fuel + 1) x clip d = some (true, d) := by
  unfold renderInternal
  by_cases hvisible : (w x).visible = true
  · rw [if_neg (not_not_intro hvisible), hbounds, bind_eq_bind, bind_some,
      h.resolve_left (by simp [hvisible])]
    rfl
  · rw [if_pos hvisible]

/-- A widget with something in the clip is rendered, and then its children. -/
theorem renderInternal_reached (fuel : Nat) {bounds clipped : Rect}
    (hvisible : (w x).visible = true) (hbounds : w.absoluteBounds x = some bounds)
    (hclip : clip.intersect bounds = some clipped) (d : σ) :
    w.renderInternal (fuel + 1) x clip d =
      match (w x).render with
      | none => w.renderChildren fuel (w x).firstChild clipped d
      | some render =>
        match render bounds clipped d with
        | (false, d) => some (false, d)
        | (true, d) => w.renderChildren fuel (w x).firstChild clipped d := by
  unfold renderInternal
  rw [if_neg (not_not_intro hvisible), hbounds]
  show (match clip.intersect bounds with
    | none => some (true, d)
    | some clip => _) = _
  rw [hclip]
  rfl

theorem pointInRect_iff {r : Rect} : pointInRect r px py = true ↔ r.Has px py := by
  unfold pointInRect
  rw [Bool.and_eq_true, decide_eq_true_eq, Bool.not_eq_true']
  refine and_iff_right_of_imp fun hhas => ?_
  cases hempty : r.isEmpty with
  | false => rfl
  | true => exact absurd hhas (Rect.not_has_of_isEmpty hempty)

/-- A widget that has not got the pixel is not hit, and no child of it. -/
theorem hitTestInternal_missed (fuel : Nat) {bounds : Rect} (hbounds : w.absoluteBounds x = some bounds)
    (h : (w x).visible = true → ¬(clip.Has px py ∧ bounds.Has px py)) :
    w.hitTestInternal (fuel + 1) x clip px py = some none := by
  unfold hitTestInternal
  split
  next => rfl
  next hshown =>
    rw [hbounds]
    show (match clip.intersect bounds with
      | none => some none
      | some visible => _) = _
    cases hclip : clip.intersect bounds with
    | none => rfl
    | some visible =>
      have hmissed : ¬pointInRect visible px py = true := by
        rw [pointInRect_iff, Rect.intersect_has hclip]
        rw [not_or, not_not] at hshown
        exact h hshown.1
      dsimp only
      rw [if_pos hmissed]
      rfl

/-- A widget that has the pixel is hit, or a child of it. -/
theorem hitTestInternal_met (fuel : Nat) {bounds clipped : Rect} (hvisible : (w x).visible = true)
    (henabled : (w x).enabled = true) (hbounds : w.absoluteBounds x = some bounds)
    (hclip : clip.intersect bounds = some clipped) (hhas : clipped.Has px py) :
    w.hitTestInternal (fuel + 1) x clip px py =
      (w.hitChildren fuel (w x).lastChild clipped px py).map fun hit => some (hit.getD x) := by
  unfold hitTestInternal
  have hshown : ¬(¬(w x).visible = true ∨ ¬(w x).enabled = true) := by
    rw [not_or, not_not, not_not]
    exact ⟨hvisible, henabled⟩
  rw [if_neg hshown, hbounds]
  show (match clip.intersect bounds with
    | none => some none
    | some visible => _) = _
  rw [hclip]
  dsimp only
  rw [if_neg (not_not_intro (pointInRect_iff.mpr hhas))]
  cases w.hitChildren fuel (w x).lastChild clipped px py with
  | none => rfl
  | some hit => rfl

section Walking

variable {bounds : Rect} (h : Forest w) (hbounds : w.absoluteBounds x = some bounds)
  (hl : ∀ c ∈ w.children x, ∀ fuel, least ≤ fuel → w.Walked fuel c (reach c))
  (hfuel : least + (w.children x).length ≤ fuel)
include h hbounds hl hfuel

theorem Forest.render_walked (clip : Rect) (reached : List (Reached n)) (d : σ) :
    ∃ complete reached' d',
      w.noted.renderInternal (fuel + 1) x clip (reached, d) = some (complete, (reached', d')) ∧
      w.renderInternal (fuel + 1) x clip d = some (complete, d') ∧
      (complete = true → reached' = reached ++ w.reachFrom x bounds reach clip) := by
  have hlist := h.linked.lists x
  have hnoted : w.noted.absoluteBounds x = some bounds := (noted_absoluteBounds w x).trans hbounds
  unfold reachFrom
  by_cases hvisible : (w x).visible = true
  · have hvisible' : (w.noted x).visible = true := hvisible
    rw [if_pos hvisible]
    cases hclip : clip.intersect bounds with
    | none =>
      exact ⟨true, reached, d, renderInternal_skipped fuel hnoted (.inr hclip) _,
        renderInternal_skipped fuel hbounds (.inr hclip) d, fun _ => (append_nil _).symm⟩
    | some clipped =>
      have hchildren := renderChildren_walked hlist.seg hl hfuel clipped (reached ++ [⟨x, clipped⟩])
      rw [← hlist.head_eq] at hchildren
      rw [renderInternal_reached fuel hvisible' hnoted hclip,
        renderInternal_reached fuel hvisible hbounds hclip]
      have hrender : (w.noted x).render = some (w.notedRender x) := rfl
      rw [hrender]
      dsimp only
      unfold notedRender
      cases (w x).render with
      | none =>
        obtain ⟨complete, reached', d', hn, hp, hr⟩ := hchildren d
        refine ⟨complete, reached', d', hn, hp, fun hcomplete => ?_⟩
        rw [hr hcomplete, append_assoc]
        rfl
      | some render =>
        dsimp only
        generalize render bounds clipped d = result
        obtain ⟨complete, d1⟩ := result
        cases complete with
        | false => exact ⟨false, _, d1, rfl, rfl, nofun⟩
        | true =>
          obtain ⟨complete, reached', d', hn, hp, hr⟩ := hchildren d1
          refine ⟨complete, reached', d', hn, hp, fun hcomplete => ?_⟩
          rw [hr hcomplete, append_assoc]
          rfl
  · rw [if_neg hvisible]
    rw [Bool.not_eq_true] at hvisible
    exact ⟨true, reached, d, renderInternal_skipped fuel hnoted (.inl hvisible) _,
      renderInternal_skipped fuel hbounds (.inl hvisible) d, fun _ => (append_nil _).symm⟩

omit h hbounds hfuel in
theorem reachFrom_inside {r : Reached n} (hr : r ∈ w.reachFrom x bounds reach clip)
    (hhas : r.clip.Has px py) : clip.Has px py ∧ bounds.Has px py := by
  unfold reachFrom at hr
  split at hr
  next =>
    cases hclip : clip.intersect bounds with
    | none =>
      rw [hclip] at hr
      exact absurd hr not_mem_nil
    | some clipped =>
      rw [hclip] at hr
      refine (Rect.intersect_has hclip).mp ?_
      rcases mem_cons.mp hr with rfl | hr
      · exact hhas
      · obtain ⟨c, hc, hr⟩ := mem_flatMap.mp hr
        exact (hl c hc least (Nat.le_refl _)).inside clipped r hr px py hhas
  next => exact absurd hr not_mem_nil

theorem Forest.hit_walked (henabled : (w x).enabled = true) {clip clip' : Rect}
    (hagree : bounds.Has px py → (clip'.Has px py ↔ clip.Has px py)) :
    w.hitTestInternal (fuel + 1) x clip' px py =
      some (lastAt (w.reachFrom x bounds reach clip) px py) := by
  by_cases hpoint : (w x).visible = true ∧ clip.Has px py ∧ bounds.Has px py
  · obtain ⟨hvisible, hhas, hhere⟩ := hpoint
    obtain ⟨clipped, hclip⟩ := ne_none_iff_exists'.mp fun hnone =>
      Rect.intersect_none hnone ⟨hhas, hhere⟩
    obtain ⟨clipped', hclip'⟩ := ne_none_iff_exists'.mp fun hnone =>
      Rect.intersect_none hnone ⟨(hagree hhere).mpr hhas, hhere⟩
    have hclipped := (Rect.intersect_has hclip).mpr ⟨hhas, hhere⟩
    have hclipped' := (Rect.intersect_has hclip').mpr ⟨(hagree hhere).mpr hhas, hhere⟩
    have hlist := h.linked.lists x
    have hroom : least + (w.children x).reverse.length ≤ fuel := by
      rw [length_reverse]
      exact hfuel
    have hchildren := hitChildren_walked hlist.seg.reverse
      (fun c hc => hl c (mem_reverse.mp hc)) hroom (iff_of_true hclipped' hclipped)
    rw [head?_reverse, ← hlist.tail_eq] at hchildren
    rw [hitTestInternal_met fuel hvisible henabled hbounds hclip' hclipped', hchildren]
    unfold reachFrom
    rw [if_pos hvisible, hclip]
    dsimp only
    rw [lastAt_cons, if_pos hclipped, lastAt_flatMap]
    rfl
  · have hmissed : (w x).visible = true → ¬(clip'.Has px py ∧ bounds.Has px py) :=
      fun hvisible hhas => hpoint ⟨hvisible, (hagree hhas.2).mp hhas.1, hhas.2⟩
    rw [hitTestInternal_missed fuel hbounds hmissed, lastAt_none]
    intro r hr hhas
    have hvisible : (w x).visible = true := by
      by_contra hhidden
      unfold reachFrom at hr
      rw [if_neg hhidden] at hr
      exact absurd hr not_mem_nil
    exact hpoint ⟨hvisible, reachFrom_inside hl hr hhas⟩

end Walking

/-- Below the widget, every widget is enabled. -/
def AllEnabled (w : Widgets n σ) (root : Fin n) : Prop := ∀ x, w.Path root x → (w x).enabled = true

theorem Forest.walked (h : Forest w) (x : Fin n) (henabled : w.AllEnabled x) :
    ∃ reach : Rect → List (Reached n), ∃ least, ∀ fuel, least ≤ fuel → w.Walked fuel x reach := by
  induction x using h.wellFounded.induction with
  | _ x ih =>
    have hchildren : ∀ c, ∃ reach : Rect → List (Reached n), c ∈ w.children x →
        ∃ least, ∀ fuel, least ≤ fuel → w.Walked fuel c reach := by
      intro c
      by_cases hc : c ∈ w.children x
      · have hparent := (h.linked.parent x c).mp hc
        obtain ⟨reach, hreach⟩ := ih c (.single hc) fun y hy =>
          henabled y (Relation.ReflTransGen.head hparent hy)
        exact ⟨reach, fun _ => hreach⟩
      · exact ⟨fun _ => [], fun hmem => absurd hmem hc⟩
    choose reach hreach using hchildren
    obtain ⟨least, hl⟩ := exists_fuel (P := fun c fuel => w.Walked fuel c (reach c)) hreach
    obtain ⟨bounds, hbounds⟩ := h.absoluteBounds x
    refine ⟨w.reachFrom x bounds reach, least + (w.children x).length + 1, fun fuel hfuel => ?_⟩
    obtain ⟨fuel, rfl⟩ : ∃ k, fuel = k + 1 := ⟨fuel - 1, by omega⟩
    have hroom : least + (w.children x).length ≤ fuel := by omega
    refine ⟨h.render_walked hbounds hl hroom, fun clip r hr px py hhas => ?_, ?_⟩
    · exact (reachFrom_inside hl hr hhas).1
    · intro clip clip' px py hagree
      exact h.hit_walked hbounds hl hroom (henabled x .refl) (hagree bounds hbounds)

/-! ## The whole tree -/

/-- The bounds of the root are its first clip. -/
theorem hitTest_eq (fuel : Nat) {bounds : Rect} (hbounds : w.absoluteBounds x = some bounds) :
    w.hitTest (fuel + 1) x px py = w.hitTestInternal (fuel + 1) x bounds px py := by
  unfold hitTest
  split
  next hhidden =>
    unfold hitTestInternal
    rw [if_pos hhidden]
  next =>
    rw [hbounds]
    rfl

/-- When rendering completes, a hit test for a pixel of the surface gives the widget that was
reached last among those with the pixel in their clip. If it has a callback, that is the last
one that was called. -/
theorem hitTest_lastAt (h : Forest w) {root : Fin n} (henabled : w.AllEnabled root)
    (width height : Nat) : ∃ least, ∀ fuel, least ≤ fuel → ∀ d, ∃ complete reached d',
      w.noted.renderTree fuel root width height ([], d) = some (complete, (reached, d')) ∧
      w.renderTree fuel root width height d = some (complete, d') ∧
      (complete = true → ∀ px py, (⟨0, 0, width, height⟩ : Rect).Has px py →
        ∃ hit, w.hitTest fuel root px py = some hit ∧ hit = lastAt reached px py ∧
          ((∀ y, hit = some y → (w y).render.isSome = true) →
            hit = lastAt (w.invoked reached) px py)) := by
  obtain ⟨reach, least, hwalked⟩ := h.walked root henabled
  refine ⟨least + 1, fun fuel hfuel d => ?_⟩
  obtain ⟨fuel, rfl⟩ : ∃ k, fuel = k + 1 := ⟨fuel - 1, by omega⟩
  obtain ⟨hrender, -, hhit⟩ := hwalked (fuel + 1) (by omega)
  unfold renderTree
  dsimp only
  by_cases hempty : (⟨0, 0, width, height⟩ : Rect).isEmpty = true
  · rw [if_pos hempty, if_pos hempty]
    exact ⟨false, [], d, rfl, rfl, nofun⟩
  · rw [if_neg hempty, if_neg hempty]
    obtain ⟨complete, reached, d', hnoted, hplain, hreached⟩ :=
      hrender ⟨0, 0, width, height⟩ [] d
    refine ⟨complete, reached, d', hnoted, hplain, fun hcomplete px py hscreen => ?_⟩
    refine ⟨lastAt reached px py, ?_, rfl, fun hcallback => (lastAt_invoked hcallback).symm⟩
    obtain ⟨bounds, hbounds⟩ := h.absoluteBounds root
    rw [hitTest_eq fuel hbounds, hreached hcomplete, List.nil_append]
    refine hhit ⟨0, 0, width, height⟩ bounds px py fun bounds' hbounds' hhas => ?_
    obtain rfl := Option.some.inj (hbounds.symm.trans hbounds')
    exact iff_of_true hhas hscreen

/-! ## Two widgets -/

/-- A widget under another that has the same bounds. -/
def overlaid (lower upper : Option (Render Unit)) : Widgets 2 Unit :=
  append (fun x => Widget.initialize ⟨0, 0, 4, 4⟩ (if x.val = 0 then lower else upper))
    ⟨0, Nat.zero_lt_two⟩ ⟨1, Nat.one_lt_two⟩

theorem overlaid_forest (lower upper : Option (Render Unit)) : Forest (overlaid lower upper) := by
  have hfresh : Fresh (fun x : Fin 2 =>
      Widget.initialize ⟨0, 0, 4, 4⟩ (if x.val = 0 then lower else upper)) := fun _ => ⟨_, _, rfl⟩
  obtain ⟨answer, w', hstep, hforest, -⟩ := hfresh.forest.step (.addChild 0 1)
  cases hstep
  exact hforest

theorem overlaid_allEnabled (lower upper : Option (Render Unit)) :
    (overlaid lower upper).AllEnabled 0
  | 0, _ => rfl
  | 1, _ => rfl

/-- A callback that draws nothing. -/
def draws (complete : Bool) : Option (Render Unit) := some fun _ _ d => (complete, d)

theorem hitTest_lastAt_overlaid : ∃ least, ∀ fuel, least ≤ fuel → ∃ complete reached,
    (overlaid (draws true) (draws true)).renderTree fuel 0 8 8 () = some (complete, ()) ∧
    (complete = true → (overlaid (draws true) (draws true)).hitTest fuel 0 1 1 =
      some (lastAt reached 1 1)) := by
  obtain ⟨least, hleast⟩ := hitTest_lastAt (overlaid_forest (draws true) (draws true))
    (overlaid_allEnabled _ _) 8 8
  refine ⟨least, fun fuel hfuel => ?_⟩
  obtain ⟨complete, reached, d', -, hplain, hhit⟩ := hleast fuel hfuel ()
  refine ⟨complete, reached, hplain, fun hcomplete => ?_⟩
  obtain ⟨hit, hhit, rfl, -⟩ := hhit hcomplete 1 1 (by decide)
  exact hhit

/-- A widget without a callback is hit above the last one that was called; and so is one that was
not reached since the callback below it failed. -/
theorem hitTest_not_invoked :
    (∀ lower upper, Forest (overlaid lower upper) ∧ (overlaid lower upper).AllEnabled 0) ∧
    (overlaid (draws true) none).noted.renderTree 8 0 8 8 ([], ()) =
        some (true, ([⟨0, ⟨0, 0, 4, 4⟩⟩, ⟨1, ⟨0, 0, 4, 4⟩⟩], ())) ∧
      (overlaid (draws true) none).hitTest 8 0 1 1 = some (some 1) ∧
      lastAt ((overlaid (draws true) none).invoked
        [⟨0, ⟨0, 0, 4, 4⟩⟩, ⟨1, ⟨0, 0, 4, 4⟩⟩]) 1 1 = some 0 ∧
    (overlaid (draws false) (draws true)).noted.renderTree 8 0 8 8 ([], ()) =
        some (false, ([⟨0, ⟨0, 0, 4, 4⟩⟩], ())) ∧
      (overlaid (draws false) (draws true)).hitTest 8 0 1 1 = some (some 1) :=
  ⟨fun _ _ => ⟨overlaid_forest _ _, overlaid_allEnabled _ _⟩, rfl, rfl, rfl, rfl, rfl⟩

end Widgets

end MeatySkeleton.Gui
