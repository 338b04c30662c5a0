import MeatySkeleton.Gui.WidgetTree
import Mathlib.Order.WellFounded
import Mathlib.Data.Fintype.EquivFin

/-!
# Walks over a forest of widgets

In a forest every walk ends: up to the root for the absolute bounds, and down over the
children, last to first for a hit test and first to last for rendering. The calls that edit
the tree keep the order of the siblings they do not move.
-/

namespace MeatySkeleton.Gui

open List Option Lib

variable {n : Nat} {σ : Type}

namespace Widgets

variable {w : Widgets n σ} {x : Fin n}

/-! ## Walks up -/

variable {l : List (Fin n)}

theorem Chain.absoluteFrom {o : Option (Fin n)} {fuel : Nat} (h : Chain w o l)
    (hfuel : l.length ≤ fuel) (position : Int × Int) : (absoluteFrom w fuel o position).isSome := by
  induction h generalizing fuel position with
  | nil => cases fuel <;> rfl
  | @cons c l _ ih =>
    cases fuel with
    | zero => exact absurd hfuel (Nat.not_succ_le_zero _)
    | succ fuel => exact ih (Nat.le_of_succ_le_succ hfuel) _

theorem Forest.absoluteBounds (h : Forest w) (x : Fin n) :
    ∃ bounds, w.absoluteBounds x = some bounds := by
  obtain ⟨l, hl⟩ := h.rooted x
  cases hl with
  | cons hrest =>
    obtain ⟨position, hposition⟩ := isSome_iff_exists.mp
      (hrest.absoluteFrom hrest.length_le ((w x).bounds.x, (w x).bounds.y))
    unfold Widgets.absoluteBounds
    dsimp only
    rw [hposition]
    exact ⟨_, rfl⟩

/-! ## Walks down -/

/-- Going down from a widget ends. -/
theorem Forest.wellFounded (h : Forest w) : WellFounded fun c p => w.children.Above p c :=
  haveI : IsTrans (Fin n) fun c p => w.children.Above p c := ⟨fun _ _ _ hab hbc => hbc.trans hab⟩
  haveI : Std.Irrefl fun c p => w.children.Above p c := ⟨h.acyclic⟩
  Finite.wellFounded_of_trans_of_irrefl _

/-- Enough for each is enough for all. -/
theorem exists_fuel {P : Fin n → Nat → Prop}
    (h : ∀ c ∈ l, ∃ least, ∀ fuel, least ≤ fuel → P c fuel) :
    ∃ least, ∀ c ∈ l, ∀ fuel, least ≤ fuel → P c fuel := by
  induction l with
  | nil => exact ⟨0, nofun⟩
  | cons c l ih =>
    obtain ⟨a, ha⟩ := h c mem_cons_self
    obtain ⟨b, hb⟩ := ih fun d hd => h d (mem_cons_of_mem _ hd)
    refine ⟨max a b, fun d hd fuel hfuel => ?_⟩
    obtain rfl | hmem := mem_cons.mp hd
    · exact ha fuel (Nat.le_trans (Nat.le_max_left _ _) hfuel)
    · exact hb d hmem fuel (Nat.le_trans (Nat.le_max_right _ _) hfuel)

theorem renderChildren_isSome {least : Nat} {q : Option (Fin n)}
    (hseg : Seg (fun x => (w x).nextSibling) (fun x => (w x).previousSibling) q l none)
    (hl : ∀ c ∈ l, ∀ fuel, least ≤ fuel → ∀ clip (d : σ), (w.renderInternal fuel c clip d).isSome)
    {fuel : Nat} (hfuel : least + l.length ≤ fuel) (clip : Rect) (destination : σ) :
    (w.renderChildren fuel l.head? clip destination).isSome := by
  induction l generalizing q fuel destination with
  | nil => cases fuel <;> rfl
  | cons c l ih =>
    rw [length_cons] at hfuel
    cases fuel with
    | zero => exact absurd hfuel (by omega)
    | succ fuel =>
      obtain ⟨-, hnext, hrest⟩ := seg_cons.mp hseg
      obtain ⟨result, hresult⟩ := isSome_iff_exists.mp
        (hl c mem_cons_self fuel (by omega) clip destination)
      obtain ⟨ok, destination'⟩ := result
      show ((w.renderInternal fuel c clip destination).bind _).isSome
      rw [hresult]
      cases ok with
      | false => rfl
      | true =>
        show (w.renderChildren fuel (w c).nextSibling clip destination').isSome
        rw [hnext, or_none]
        exact ih hrest (fun d hd => hl d (mem_cons_of_mem _ hd)) (by omega) destination'

theorem Forest.renderInternal (h : Forest w) (x : Fin n) : ∃ least, ∀ fuel, least ≤ fuel →
    ∀ clip (destination : σ), (w.renderInternal fuel x clip destination).isSome := by
  induction x using h.wellFounded.induction with
  | _ x ih =>
    obtain ⟨least, hleast⟩ := exists_fuel fun c (hc : c ∈ w.children x) => ih c (.single hc)
    refine ⟨least + (w.children x).length + 1, fun fuel hfuel clip destination => ?_⟩
    obtain ⟨fuel, rfl⟩ : ∃ k, fuel = k + 1 := ⟨fuel - 1, by omega⟩
    have hlist := h.linked.lists x
    have hchildren : ∀ clip (d : σ), (w.renderChildren fuel (w x).firstChild clip d).isSome := by
      intro clip d
      rw [hlist.head_eq]
      exact renderChildren_isSome hlist.seg hleast (by omega) clip d
    unfold Widgets.renderInternal
    split
    next => rfl
    next =>
      obtain ⟨bounds, hbounds⟩ := h.absoluteBounds x
      rw [hbounds, bind_eq_bind, bind_some]
      cases clip.intersect bounds with
      | none => rfl
      | some clip =>
        dsimp only
        cases (w x).render with
        | none => exact hchildren clip destination
        | some render =>
          dsimp only
          cases render bounds clip destination with
          | mk ok destination' =>
            cases ok with
            | false => rfl
            | true => exact hchildren clip destination'

theorem hitChildren_isSome {least : Nat} {q : Option (Fin n)}
    (hseg : Seg (fun x => (w x).previousSibling) (fun x => (w x).nextSibling) q l none)
    (hl : ∀ c ∈ l, ∀ fuel, least ≤ fuel → ∀ clip px py,
      (w.hitTestInternal fuel c clip px py).isSome)
    {fuel : Nat} (hfuel : least + l.length ≤ fuel) (clip : Rect) (px py : Int) :
    (w.hitChildren fuel l.head? clip px py).isSome := by
  induction l generalizing q fuel with
  | nil => cases fuel <;> rfl
  | cons c l ih =>
    rw [length_cons] at hfuel
    cases fuel with
    | zero => exact absurd hfuel (by omega)
    | succ fuel =>
      obtain ⟨-, hprevious, hrest⟩ := seg_cons.mp hseg
      obtain ⟨result, hresult⟩ := isSome_iff_exists.mp
        (hl c mem_cons_self fuel (by omega) clip px py)
      show ((w.hitTestInternal fuel c clip px py).bind _).isSome
      rw [hresult]
      cases result with
      | some hit => rfl
      | none =>
        show (w.hitChildren fuel (w c).previousSibling clip px py).isSome
        rw [hprevious, or_none]
        exact ih hrest (fun d hd => hl d (mem_cons_of_mem _ hd)) (by omega)

theorem Forest.hitTestInternal (h : Forest w) (x : Fin n) : ∃ least, ∀ fuel, least ≤ fuel →
    ∀ clip px py, (w.hitTestInternal fuel x clip px py).isSome := by
  induction x using h.wellFounded.induction with
  | _ x ih =>
    obtain ⟨least, hleast⟩ := exists_fuel fun c (hc : c ∈ w.children x) => ih c (.single hc)
    refine ⟨least + (w.children x).length + 1, fun fuel hfuel clip px py => ?_⟩
    obtain ⟨fuel, rfl⟩ : ∃ k, fuel = k + 1 := ⟨fuel - 1, by omega⟩
    have hlist := h.linked.lists x
    have hchildren : ∀ clip, (w.hitChildren fuel (w x).lastChild clip px py).isSome := by
      intro clip
      rw [hlist.tail_eq, ← head?_reverse]
      have hroom : least + (w.children x).reverse.length ≤ fuel := by
        rw [length_reverse]
        omega
      exact hitChildren_isSome hlist.seg.reverse (fun c hc => hleast c (mem_reverse.mp hc))
        hroom clip px py
    unfold Widgets.hitTestInternal
    split
    next => rfl
    next =>
      obtain ⟨bounds, hbounds⟩ := h.absoluteBounds x
      rw [hbounds, bind_eq_bind, bind_some]
      cases clip.intersect bounds with
      | none => rfl
      | some visible =>
        dsimp only
        split
        next => rfl
        next =>
          obtain ⟨hit, hhit⟩ := isSome_iff_exists.mp (hchildren visible)
          rw [hhit]
          rfl

/-- Computing bounds, hit testing and rendering end. -/
structure WalksEnd (w : Widgets n σ) : Prop where
  absoluteBounds : ∀ x, (w.absoluteBounds x).isSome
  hitTest : ∀ root, ∃ least, ∀ fuel, least ≤ fuel → ∀ px py, (w.hitTest fuel root px py).isSome
  renderTree : ∀ root, ∃ least, ∀ fuel, least ≤ fuel → ∀ width height (destination : σ),
    (w.renderTree fuel root width height destination).isSome

theorem Forest.walksEnd (h : Forest w) : WalksEnd w where
  absoluteBounds x := isSome_iff_exists.mpr (h.absoluteBounds x)
  hitTest root := by
    obtain ⟨least, hleast⟩ := h.hitTestInternal root
    refine ⟨least, fun fuel hfuel px py => ?_⟩
    obtain ⟨bounds, hbounds⟩ := h.absoluteBounds root
    unfold Widgets.hitTest
    split
    next => rfl
    next =>
      rw [hbounds]
      exact hleast fuel hfuel bounds px py
  renderTree root := by
    obtain ⟨least, hleast⟩ := h.renderInternal root
    refine ⟨least, fun fuel hfuel width height destination => ?_⟩
    unfold Widgets.renderTree
    dsimp only
    split
    next => rfl
    next => exact hleast fuel hfuel _ destination

/-! ## Siblings -/

/-- What two lists of siblings share is in the same order. -/
def SameOrder {α : Type} [DecidableEq α] (l l' : List α) : Prop := l'.filter (· ∈ l) = l.filter (· ∈ l')

theorem SameOrder.refl (l : List (Fin n)) : SameOrder l l := rfl

theorem SameOrder.erase (h : l.Nodup) (c : Fin n) : SameOrder l (l.erase c) := by
  unfold SameOrder
  rw [filter_eq_self.mpr fun d hd => decide_eq_true (mem_of_mem_erase hd)]
  conv_lhs => rw [h.erase_eq_filter]
  refine filter_congr fun d hd => ?_
  by_cases hdc : d = c
  · rw [bne_eq_false_iff_eq.mpr hdc]
    exact (decide_eq_false fun hmem => (h.mem_erase_iff.mp hmem).1 hdc).symm
  · rw [bne_iff_ne.mpr hdc]
    exact (decide_eq_true (h.mem_erase_iff.mpr ⟨hdc, hd⟩)).symm

theorem SameOrder.concat {c : Fin n} (hc : c ∉ l) : SameOrder l (l ++ [c]) := by
  unfold SameOrder
  rw [filter_append, filter_eq_self.mpr fun d hd => decide_eq_true hd,
    filter_eq_self.mpr fun d hd => decide_eq_true (mem_append_left _ hd),
    filter_cons_of_neg (by rw [decide_eq_true_eq]; exact hc), filter_nil, append_nil]

theorem Effect.sameOrder {t t' : Children n} {op : Op n} {answer : Bool}
    (h : t.Effect op answer t') (hnodup : ∀ p, (t p).Nodup) (p : Fin n) :
    SameOrder (t p) (t' p) := by
  cases h with
  | refused => exact .refl _
  | present => exact .refl _
  | other => exact .refl _
  | removed => exact .erase (hnodup p) _
  | detached => exact .erase (hnodup p) _
  | @added q c _ hc =>
    unfold Children.graft Children.cut
    by_cases hp : p = q
    · rw [if_pos hp, hp, erase_of_not_mem hc]
      exact .concat hc
    · rw [if_neg hp]
      exact .erase (hnodup p) c
  | @reset c =>
    by_cases hp : p = c
    · rw [hp, Function.update_self]
      unfold SameOrder
      rw [filter_nil]
      exact (filter_eq_nil_iff.mpr fun d _ => by simp).symm
    · rw [Function.update_of_ne hp]
      exact .erase (hnodup p) c

/-! ## Runs -/

/-- Widgets that have been initialised and not linked. -/
def Fresh (w : Widgets n σ) : Prop := ∀ x, ∃ bounds render, w x = Widget.initialize bounds render

theorem Fresh.forest (h : Fresh w) : Forest w := by
  have hlinks : ∀ x, (w x).parent = none ∧ (w x).firstChild = none ∧ (w x).lastChild = none := by
    intro x
    obtain ⟨bounds, render, hx⟩ := h x
    rw [hx]
    exact ⟨rfl, rfl, rfl⟩
  refine Linked.forest (t := fun _ => []) ⟨fun p => ?_, fun p c => ?_⟩ fun x => ⟨[x], .cons ?_⟩
  · rw [(hlinks p).2.1, (hlinks p).2.2]
    exact dlist_nil
  · rw [(hlinks c).1]
    exact iff_of_false not_mem_nil nofun
  · rw [(hlinks x).1]
    exact .nil

/-- Every sequence of calls leaves a forest over which every walk ends; each call edits the lists
of children as `Children.Effect` says and keeps the order of the others. -/
theorem run_forest (hw : Fresh w) (ops : List (Op n)) : ∃ answers w',
    runAll step w ops = some (answers, w') ∧ Forest w' ∧ WalksEnd w' ∧
    Follows (fun t op answer t' => t.Effect op answer t' ∧ ∀ p, SameOrder (t p) (t' p))
      w.children ops answers w'.children := by
  have hrefines : Refines (step : Widgets n σ → Op n → Option (Bool × Widgets n σ))
      (fun t op answer t' => t.Effect op answer t' ∧ ∀ p, SameOrder (t p) (t' p)) Forest
      (fun _ _ => True) children := by
    intro u op hu _
    obtain ⟨answer, u', hstep, hforest, heffect⟩ := hu.step op
    exact ⟨answer, u', hstep, hforest, heffect,
      Effect.sameOrder heffect fun p => (hu.linked.lists p).nodup⟩
  have hadmitted : ∀ (ops : List (Op n)) (u : Widgets n σ), Admitted step (fun _ _ => True) u ops := by
    intro ops
    induction ops with
    | nil => exact fun _ => trivial
    | cons op ops ih => exact fun u => ⟨trivial, fun _ v _ => ih v⟩
  obtain ⟨answers, w', hrun, hforest, hfollows⟩ := hrefines.run hw.forest (hadmitted ops w)
  exact ⟨answers, w', hrun, hforest, hforest.walksEnd, hfollows⟩

/-- A child is moved to its sibling, a cycle is refused, and the sibling is reset. -/
theorem run_forest_moved_child : ∃ answers w',
    runAll step (fun _ => Widget.initialize ⟨0, 0, 8, 8⟩ none : Widgets 3 Unit)
      [.addChild 0 1, .addChild 0 2, .addChild 1 2, .addChild 2 0, .reset 1] = some (answers, w') ∧
    Forest w' ∧ WalksEnd w' := by
  obtain ⟨answers, w', hrun, hforest, hwalks, -⟩ := run_forest
    (w := (fun _ => Widget.initialize ⟨0, 0, 8, 8⟩ none : Widgets 3 Unit)) (fun _ => ⟨_, _, rfl⟩)
    [.addChild 0 1, .addChild 0 2, .addChild 1 2, .addChild 2 0, .reset 1]
  exact ⟨answers, w', hrun, hforest, hwalks⟩

end Widgets

end MeatySkeleton.Gui
