import MeatySkeleton.Gui.Widget
import MeatySkeleton.Lib.Chain
import MeatySkeleton.Lib.Refinement
import Mathlib.Data.Fintype.Card

/-!
# The widgets are a forest

What the links are for: every widget has a list of children (`Children`), and the operations
edit these lists. `Linked` says that the links of the widgets spell the lists out in both
directions, and `Chain` follows the parents of a widget up to a root. No operation makes a
chain endless, so every walk along the links ends.
-/

namespace MeatySkeleton.Gui

open Function List Lib

variable {n : Nat} {σ : Type}

/-! ## Forests -/

/-- The children of every widget, the first one first. -/
abbrev Children (n : Nat) := Fin n → List (Fin n)

namespace Children

/-- `a` is a proper ancestor of `b`. -/
def Above (t : Children n) : Fin n → Fin n → Prop := Relation.TransGen fun a b => b ∈ t a

/-- The forest with `c` cut off. -/
def cut (t : Children n) (c : Fin n) : Children n := fun p => (t p).erase c

/-- The forest with `c` as the last child of `p`. -/
def graft (t : Children n) (p c : Fin n) : Children n := fun q =>
  if q = p then t.cut c q ++ [c] else t.cut c q

/-- What a call does to a forest, and the result of `gui_widget_add_child`. -/
inductive Effect (t : Children n) : Widgets.Op n → Bool → Children n → Prop
  | refused {p c : Fin n} : p = c ∨ t.Above c p → Effect t (.addChild p c) false t
  | present {p c : Fin n} : ¬(p = c ∨ t.Above c p) → c ∈ t p → Effect t (.addChild p c) true t
  | added {p c : Fin n} : ¬(p = c ∨ t.Above c p) → c ∉ t p →
      Effect t (.addChild p c) true (t.graft p c)
  | other {p c : Fin n} : c ∉ t p → Effect t (.removeChild p c) true t
  | removed {p c : Fin n} : c ∈ t p → Effect t (.removeChild p c) true (t.cut c)
  | detached {c : Fin n} : Effect t (.detach c) true (t.cut c)
  | reset {c : Fin n} : Effect t (.reset c) true (update (t.cut c) c [])

end Children

/-! ## Links -/

namespace Widgets

/-- The children that the links spell out. -/
def children (w : Widgets n σ) : Children n := fun p =>
  follow (fun x => (w x).nextSibling) n (w p).firstChild

/-- The links of the widgets are those of the forest. -/
structure Linked (w : Widgets n σ) (t : Children n) : Prop where
  lists : ∀ p, DList (fun x => (w x).nextSibling) (fun x => (w x).previousSibling)
    (w p).firstChild (w p).lastChild (t p)
  parent : ∀ p c, c ∈ t p ↔ (w c).parent = some p

/-- From a widget on, the widgets that are met by following the parents. -/
inductive Chain (w : Widgets n σ) : Option (Fin n) → List (Fin n) → Prop
  | nil : Chain w none []
  | cons {c : Fin n} {l : List (Fin n)} : Chain w (w c).parent l → Chain w (some c) (c :: l)

variable {w w' : Widgets n σ} {t : Children n} {x y p : Fin n}

theorem Linked.children_eq (h : Linked w t) : w.children = t := by
  funext p
  exact (h.lists p).follow_eq ((h.lists p).nodup.length_le_card.trans (Fintype.card_fin n).le)

/-- A widget is in one list at most. -/
theorem Linked.disjoint {q : Fin n} (h : Linked w t) (hp : x ∈ t p) (hq : x ∈ t q) : p = q := by
  have hparent := (h.parent p x).mp hp
  rw [(h.parent q x).mp hq] at hparent
  exact (Option.some.inj hparent).symm

theorem Linked.notMem (h : Linked w t) (hx : (w x).parent = none) (p : Fin n) : x ∉ t p := by
  intro hmem
  rw [(h.parent p x).mp hmem] at hx
  exact nomatch hx

theorem Linked.cut_eq (h : Linked w t) (hx : (w x).parent = none) : t.cut x = t := by
  funext p
  exact erase_of_not_mem (h.notMem hx p)

/-- No widget is its own previous sibling. -/
theorem Linked.previous_ne {xs ys : List (Fin n)} (h : Linked w t) (hxs : t p = xs ++ x :: ys) :
    (w x).previousSibling ≠ some x := by
  have hlist := h.lists p
  rw [hxs] at hlist
  intro e
  have hlast := mem_of_getLast? (hlist.split.2.1.symm.trans e)
  have hnodup := hlist.nodup
  rw [nodup_append] at hnodup
  exact hnodup.2.2 x hlast x mem_cons_self rfl

/-! ## Detaching -/

theorem edit_apply (f : Widget n σ → Widget n σ) (y : Fin n) :
    w.edit x f y = if y = x then f (w y) else w y := by
  unfold edit
  by_cases hy : y = x
  · rw [if_pos hy, hy, update_self]
  · rw [if_neg hy, update_of_ne hy]

/-- After sibling `a`, or first under `p` when there is none, comes `b`. -/
def joinNext (w : Widgets n σ) (a b : Option (Fin n)) (p : Fin n) : Widgets n σ :=
  match a with
  | some a => w.edit a fun l => { l with nextSibling := b }
  | none => w.edit p fun l => { l with firstChild := b }

/-- Before sibling `b`, or last under `p` when there is none, comes `a`. -/
def joinPrevious (w : Widgets n σ) (a b : Option (Fin n)) (p : Fin n) : Widgets n σ :=
  match b with
  | some b => w.edit b fun l => { l with previousSibling := a }
  | none => w.edit p fun l => { l with lastChild := a }

/-- Joining changes the next siblings and the first child only. -/
theorem joinNext_fields (w : Widgets n σ) (a b : Option (Fin n)) (p y : Fin n) :
    (w.joinNext a b p y).nextSibling = link (fun x => (w x).nextSibling) a b y ∧
    (w.joinNext a b p y).previousSibling = (w y).previousSibling ∧
    (w.joinNext a b p y).firstChild = (if y = p ∧ a = none then b else (w y).firstChild) ∧
    (w.joinNext a b p y).lastChild = (w y).lastChild ∧
    (w.joinNext a b p y).parent = (w y).parent := by
  unfold joinNext
  cases a with
  | none =>
    dsimp only
    rw [edit_apply]
    by_cases hy : y = p
    · simp [hy]
    · simp [hy]
  | some a =>
    dsimp only
    rw [edit_apply]
    by_cases hy : y = a
    · simp [hy, link]
    · simp [hy, link]

theorem joinPrevious_fields (w : Widgets n σ) (a b : Option (Fin n)) (p y : Fin n) :
    (w.joinPrevious a b p y).nextSibling = (w y).nextSibling ∧
    (w.joinPrevious a b p y).previousSibling = link (fun x => (w x).previousSibling) b a y ∧
    (w.joinPrevious a b p y).firstChild = (w y).firstChild ∧
    (w.joinPrevious a b p y).lastChild = (if y = p ∧ b = none then a else (w y).lastChild) ∧
    (w.joinPrevious a b p y).parent = (w y).parent := by
  unfold joinPrevious
  cases b with
  | none =>
    dsimp only
    rw [edit_apply]
    by_cases hy : y = p
    · simp [hy]
    · simp [hy]
  | some b =>
    dsimp only
    rw [edit_apply]
    by_cases hy : y = b
    · simp [hy, link]
    · simp [hy, link]

/-- The neighbours are joined, and the widget's own links cleared. -/
theorem detach_eq (hparent : (w x).parent = some p) (hself : (w x).previousSibling ≠ some x) :
    w.detach x = ((w.joinNext (w x).previousSibling (w x).nextSibling p).joinPrevious
      (w x).previousSibling (w x).nextSibling p).edit x
        fun l => { l with parent := none, previousSibling := none, nextSibling := none } := by
  obtain ⟨hnext, hprevious, -⟩ :=
    joinNext_fields w (w x).previousSibling (w x).nextSibling p x
  rw [link_ne hself] at hnext
  unfold detach
  rw [hparent]
  change ((w.joinNext (w x).previousSibling (w x).nextSibling p).joinPrevious
    (w.joinNext (w x).previousSibling (w x).nextSibling p x).previousSibling
    (w.joinNext (w x).previousSibling (w x).nextSibling p x).nextSibling p).edit x _ = _
  rw [hnext, hprevious]

/-- The fields of the widgets after a widget with a parent was detached. -/
theorem detach_fields (hparent : (w x).parent = some p) (hself : (w x).previousSibling ≠ some x)
    (y : Fin n) :
    (y ≠ x → ((w.detach x) y).nextSibling =
      link (fun x => (w x).nextSibling) (w x).previousSibling (w x).nextSibling y) ∧
    (y ≠ x → ((w.detach x) y).previousSibling =
      link (fun x => (w x).previousSibling) (w x).nextSibling (w x).previousSibling y) ∧
    ((w.detach x) y).firstChild =
      (if y = p ∧ (w x).previousSibling = none then (w x).nextSibling else (w y).firstChild) ∧
    ((w.detach x) y).lastChild =
      (if y = p ∧ (w x).nextSibling = none then (w x).previousSibling else (w y).lastChild) ∧
    ((w.detach x) y).parent = if y = x then none else (w y).parent := by
  obtain ⟨hnext, hprevious, hfirst, hlast, hup⟩ :=
    joinNext_fields w (w x).previousSibling (w x).nextSibling p y
  obtain ⟨hnext', hprevious', hfirst', hlast', hup'⟩ :=
    joinPrevious_fields (w.joinNext (w x).previousSibling (w x).nextSibling p)
      (w x).previousSibling (w x).nextSibling p y
  rw [detach_eq hparent hself, edit_apply]
  by_cases hy : y = x
  · rw [if_pos hy, if_pos hy]
    exact ⟨fun hne => absurd hy hne, fun hne => absurd hy hne, hfirst'.trans hfirst,
      hlast'.trans (by rw [hlast]), rfl⟩
  · rw [if_neg hy, if_neg hy]
    refine ⟨fun _ => hnext'.trans hnext, fun _ => hprevious'.trans ?_, hfirst'.trans hfirst,
      hlast'.trans (by rw [hlast]), hup'.trans hup⟩
    have hsame : (fun z => (w.joinNext (w x).previousSibling (w x).nextSibling p z).previousSibling) =
        fun z => (w z).previousSibling :=
      funext fun z => (joinNext_fields w (w x).previousSibling (w x).nextSibling p z).2.1
    rw [hsame]

theorem detach_root (h : (w x).parent = none) : w.detach x = w := by
  unfold detach
  rw [h]

/-- Detaching changes no other parent. -/
theorem Linked.detach_parent (h : Linked w t) (x y : Fin n) :
    ((w.detach x) y).parent = if y = x then none else (w y).parent := by
  cases hparent : (w x).parent with
  | none =>
    rw [detach_root hparent]
    split
    next hy => rw [hy, hparent]
    next => rfl
  | some p =>
    obtain ⟨xs, ys, hxs⟩ := append_of_mem ((h.parent p x).mpr hparent)
    exact (detach_fields hparent (h.previous_ne hxs) y).2.2.2.2

theorem Linked.detach (h : Linked w t) (x : Fin n) : Linked (w.detach x) (t.cut x) where
  parent := by
    intro p c
    rw [h.detach_parent]
    unfold Children.cut
    rw [(h.lists p).nodup.mem_erase_iff, h.parent]
    by_cases hc : c = x
    · rw [if_pos hc]
      exact ⟨fun hmem => absurd hc hmem.1, fun hmem => nomatch hmem⟩
    · rw [if_neg hc]
      exact and_iff_right hc
  lists := by
    intro q
    cases hparent : (w x).parent with
    | none =>
      rw [detach_root hparent, h.cut_eq hparent]
      exact h.lists q
    | some p =>
      obtain ⟨xs, ys, hxs⟩ := append_of_mem ((h.parent p x).mpr hparent)
      have hfields := detach_fields hparent (h.previous_ne hxs)
      have hlist := h.lists p
      rw [hxs] at hlist
      obtain ⟨-, hprevious, hnext, -⟩ := hlist.split
      rw [(hfields q).2.2.1, (hfields q).2.2.2.1]
      by_cases hq : q = p
      · -- the neighbours are joined
        subst hq
        have hremoved := hlist.remove (fun y hy => (hfields y).1 hy) fun y hy => (hfields y).2.1 hy
        have hcut : t.cut x q = xs ++ ys := by
          have hnotMem : x ∉ xs := by
            have hnodup := hlist.nodup
            rw [nodup_append] at hnodup
            exact fun hmem => hnodup.2.2 x hmem x mem_cons_self rfl
          unfold Children.cut
          rw [hxs, erase_append_right _ hnotMem, erase_cons_head]
        rw [hcut]
        convert hremoved using 1
        · cases (w x).previousSibling with
          | none => rw [if_pos ⟨rfl, rfl⟩]; rfl
          | some a => rw [if_neg fun hand => nomatch hand.2]; rfl
        · cases (w x).nextSibling with
          | none => rw [if_pos ⟨rfl, rfl⟩]; rfl
          | some b => rw [if_neg fun hand => nomatch hand.2]; rfl
      · -- the other lists do not read the links that change
        rw [if_neg fun hand => hq hand.1, if_neg fun hand => hq hand.1]
        have hnotMem : ∀ y ∈ t q, y ∉ t p := fun y hy hyp => hq (h.disjoint hy hyp)
        have hne : ∀ y ∈ t q, y ≠ x := fun y hy e =>
          hnotMem y hy (e ▸ hxs ▸ mem_append_right _ mem_cons_self)
        have hcut : t.cut x q = t q := erase_of_not_mem fun hmem => hne x hmem rfl
        rw [hcut]
        refine (h.lists q).congr (fun y hy => ?_) fun y hy => ?_
        · rw [(hfields y).1 (hne y hy), link_ne]
          intro e
          refine hnotMem y hy (hxs ▸ mem_append_left _ (mem_of_getLast? ?_))
          exact hprevious.symm.trans e
        · rw [(hfields y).2.1 (hne y hy), link_ne]
          intro e
          refine hnotMem y hy (hxs ▸ mem_append_right _ (mem_cons_of_mem _ ?_))
          exact mem_of_head? (hnext.symm.trans e)

/-! ## Adding -/

/-- The widget's own links are set, and the last child and it are joined. -/
theorem append_eq (hne : p ≠ x) : w.append p x =
    (((w.detach x).edit x fun c => { c with
      parent := some p, previousSibling := (w.detach x p).lastChild, nextSibling := none }).joinNext
        (w.detach x p).lastChild (some x) p).edit p fun l => { l with lastChild := some x } := by
  generalize hw : (w.detach x).edit x (fun c => { c with
    parent := some p, previousSibling := (w.detach x p).lastChild, nextSibling := none }) = w1
  have hlast : (w1 p).lastChild = (w.detach x p).lastChild := by
    rw [← hw, edit_apply, if_neg hne]
  rw [← hlast, ← hw]
  rfl

/-- The fields of the widgets after a widget was appended to the children of another. -/
theorem append_fields (hne : p ≠ x) (y : Fin n) :
    ((w.append p x) y).nextSibling = link (update (fun z => (w.detach x z).nextSibling) x none)
      (w.detach x p).lastChild (some x) y ∧
    ((w.append p x) y).previousSibling =
      update (fun z => (w.detach x z).previousSibling) x (w.detach x p).lastChild y ∧
    ((w.append p x) y).firstChild =
      (if y = p ∧ (w.detach x p).lastChild = none then some x else (w.detach x y).firstChild) ∧
    ((w.append p x) y).lastChild = (if y = p then some x else (w.detach x y).lastChild) ∧
    ((w.append p x) y).parent = if y = x then some p else (w.detach x y).parent := by
  rw [append_eq hne]
  generalize hlast : (w.detach x p).lastChild = last
  generalize hw : (w.detach x).edit x (fun c => { c with
    parent := some p, previousSibling := last, nextSibling := none }) = w1
  have hone : ∀ z, w1 z = if z = x then { w.detach x z with
      parent := some p, previousSibling := last, nextSibling := none } else w.detach x z := by
    intro z
    rw [← hw, edit_apply]
  obtain ⟨hnext, hprevious, hfirst, hback, hup⟩ := joinNext_fields w1 last (some x) p y
  have hnexts : (fun z => (w1 z).nextSibling) =
      update (fun z => (w.detach x z).nextSibling) x none := by
    funext z
    rw [hone]
    by_cases hz : z = x
    · rw [if_pos hz, hz, update_self]
    · rw [if_neg hz, update_of_ne hz]
  have hpreviouses : (w1 y).previousSibling =
      update (fun z => (w.detach x z).previousSibling) x last y := by
    rw [hone]
    by_cases hy : y = x
    · rw [if_pos hy, hy, update_self]
    · rw [if_neg hy, update_of_ne hy]
  have hself : (w1 y).firstChild = (w.detach x y).firstChild ∧
      (w1 y).lastChild = (w.detach x y).lastChild ∧
      (w1 y).parent = if y = x then some p else (w.detach x y).parent := by
    rw [hone]
    split
    next => exact ⟨rfl, rfl, rfl⟩
    next => exact ⟨rfl, rfl, rfl⟩
  rw [hnexts] at hnext
  rw [hpreviouses] at hprevious
  rw [hself.1] at hfirst
  rw [hself.2.1] at hback
  rw [hself.2.2] at hup
  rw [edit_apply]
  by_cases hy : y = p
  · rw [if_pos hy, if_pos hy]
    exact ⟨hnext, hprevious, hfirst, rfl, hup⟩
  · rw [if_neg hy, if_neg hy]
    exact ⟨hnext, hprevious, hfirst, hback, hup⟩

theorem Linked.append_parent (h : Linked w t) (hne : p ≠ x) (y : Fin n) :
    ((w.append p x) y).parent = if y = x then some p else (w y).parent := by
  rw [(append_fields hne y).2.2.2.2, h.detach_parent]
  split
  next => rfl
  next => rfl

theorem Linked.append (h : Linked w t) (hne : p ≠ x) :
    Linked (w.append p x) (t.graft p x) where
  parent := by
    intro q c
    have hcut := (h.detach x).parent q c
    rw [h.append_parent hne]
    rw [h.detach_parent] at hcut
    unfold Children.graft
    by_cases hq : q = p
    · rw [if_pos hq, mem_append, mem_singleton, hcut, hq]
      by_cases hc : c = x
      · rw [if_pos hc, if_pos hc]
        exact iff_of_true (.inr hc) rfl
      · rw [if_neg hc, if_neg hc]
        exact or_iff_left hc
    · rw [if_neg hq, hcut]
      by_cases hc : c = x
      · rw [if_pos hc, if_pos hc]
        exact iff_of_false nofun fun e => hq (Option.some.inj e).symm
      · rw [if_neg hc, if_neg hc]
  lists := by
    intro q
    have hcut := (h.detach x).lists q
    have hfields := append_fields (w := w) hne
    have hroot : (w.detach x x).parent = none := by rw [h.detach_parent, if_pos rfl]
    have hnotMem : ∀ r, x ∉ t.cut x r := (h.detach x).notMem hroot
    rw [(hfields q).2.2.1, (hfields q).2.2.2.1]
    unfold Children.graft
    by_cases hq : q = p
    · subst hq
      rw [if_pos rfl, if_pos rfl]
      convert hcut.pushBack (hnotMem q) using 1
      · exact funext fun y => (hfields y).1
      · exact funext fun y => (hfields y).2.1
      · cases (w.detach x q).lastChild with
        | none => rw [if_pos ⟨rfl, rfl⟩]; rfl
        | some a => rw [if_neg fun hand => nomatch hand.2]; rfl
    · rw [if_neg fun hand => hq hand.1, if_neg hq, if_neg hq]
      refine hcut.congr (fun y hy => ?_) fun y hy => ?_
      · have hyx : y ≠ x := fun e => hnotMem q (e ▸ hy)
        rw [(hfields y).1, link_ne, update_of_ne hyx]
        -- the last child of `p` is in no other list
        intro e
        refine hq ((h.detach x).disjoint hy (mem_of_getLast? ?_))
        exact ((h.detach x).lists p).tail_eq.symm.trans e
      · have hyx : y ≠ x := fun e => hnotMem q (e ▸ hy)
        rw [(hfields y).2.1, update_of_ne hyx]

/-! ## Resetting -/

/-- A widget without its place among its siblings. -/
def released (c : Widget n σ) : Widget n σ :=
  { c with parent := none, previousSibling := none, nextSibling := none }

variable {l : List (Fin n)}

/-- The loop releases every child. -/
theorem releaseFrom_seg {q : Option (Fin n)} {fuel : Nat} :
    ∀ {w : Widgets n σ}, Seg (fun x => (w x).nextSibling) (fun x => (w x).previousSibling) q l none →
      l.Nodup → l.length ≤ fuel →
      releaseFrom fuel l.head? w = some fun y => if y ∈ l then released (w y) else w y := by
  induction l generalizing q fuel with
  | nil =>
    intro w _ _ _
    cases fuel <;> rfl
  | cons c l ih =>
    intro w hseg hnodup hfuel
    obtain ⟨-, hnext, hrest⟩ := seg_cons.mp hseg
    obtain ⟨hc, hnodup⟩ := nodup_cons.mp hnodup
    cases fuel with
    | zero => exact absurd hfuel (Nat.not_succ_le_zero _)
    | succ fuel =>
      have hsame : ∀ y ∈ l, w.edit c released y = w y := by
        intro y hy
        exact update_of_ne (ne_of_mem_of_not_mem hy hc) ..
      have hrest' : Seg (fun x => (w.edit c released x).nextSibling)
          (fun x => (w.edit c released x).previousSibling) (some c) l none :=
        hrest.congr (fun y hy => by rw [hsame y hy]) fun y hy => by rw [hsame y hy]
      have hloop := ih hrest' hnodup (Nat.le_of_succ_le_succ hfuel)
      rw [Option.or_none] at hnext
      show releaseFrom fuel (w c).nextSibling (w.edit c released) = _
      rw [hnext, hloop]
      congr 1
      funext y
      by_cases hy : y ∈ l
      · rw [if_pos hy, if_pos (mem_cons_of_mem _ hy), hsame y hy]
      · rw [if_neg hy]
        by_cases hyc : y = c
        · rw [if_pos (hyc ▸ mem_cons_self), hyc]
          exact update_self ..
        · rw [if_neg fun hmem => (mem_cons.mp hmem).elim hyc hy]
          exact update_of_ne hyc ..

/-- The result of resetting a widget. -/
def wiped (w : Widgets n σ) (t : Children n) (x : Fin n) : Widgets n σ := fun y =>
  if y = x then .zero else if y ∈ t.cut x x then released (w.detach x y) else w.detach x y

theorem Linked.reset_eq (h : Linked w t) (x : Fin n) : w.reset x = some (wiped w t x) := by
  have hlist := (h.detach x).lists x
  have hloop := releaseFrom_seg hlist.seg hlist.nodup
    (hlist.nodup.length_le_card.trans (Fintype.card_fin n).le)
  unfold reset
  dsimp only
  rw [hlist.head_eq]
  show (releaseFrom n (t.cut x x).head? (w.detach x)).bind _ = _
  rw [hloop]
  show some _ = some _
  congr 1
  funext y
  unfold edit wiped
  rw [update_apply]

theorem Linked.wiped_parent (h : Linked w t) (x y : Fin n) :
    (wiped w t x y).parent = if y = x ∨ y ∈ t.cut x x then none else (w y).parent := by
  unfold wiped
  by_cases hy : y = x
  · rw [if_pos hy, if_pos (.inl hy)]
    rfl
  · rw [if_neg hy]
    by_cases hmem : y ∈ t.cut x x
    · rw [if_pos hmem, if_pos (.inr hmem)]
      rfl
    · rw [if_neg hmem, if_neg (not_or.mpr ⟨hy, hmem⟩), h.detach_parent, if_neg hy]

theorem Linked.wiped (h : Linked w t) (x : Fin n) :
    Linked (wiped w t x) (update (t.cut x) x []) where
  parent := by
    intro p c
    have hcut := (h.detach x).parent p c
    rw [h.detach_parent] at hcut
    rw [h.wiped_parent, update_apply]
    by_cases hp : p = x
    · subst hp
      rw [if_pos rfl]
      refine iff_of_false not_mem_nil ?_
      -- the children of `x` have lost their parent
      by_cases hc : c = p ∨ c ∈ t.cut p p
      · rw [if_pos hc]
        exact nofun
      · rw [if_neg hc]
        intro e
        rw [if_neg (not_or.mp hc).1] at hcut
        exact hc (.inr (hcut.mpr e))
    · rw [if_neg hp, hcut]
      by_cases hc : c = x
      · rw [if_pos hc, if_pos (.inl hc)]
      · rw [if_neg hc]
        by_cases hmem : c ∈ t.cut x x
        · rw [if_pos (.inr hmem)]
          refine iff_of_false (fun e => ?_) nofun
          rw [if_neg hc] at hcut
          exact hp ((h.detach x).disjoint (hcut.mpr e) hmem)
        · rw [if_neg (not_or.mpr ⟨hc, hmem⟩)]
  lists := by
    intro q
    by_cases hq : q = x
    · subst hq
      rw [update_self]
      unfold Widgets.wiped
      rw [if_pos rfl]
      exact dlist_nil
    · rw [update_of_ne hq]
      have hroot : (w.detach x x).parent = none := by rw [h.detach_parent, if_pos rfl]
      have hsame : ∀ y ∈ t.cut x q, Widgets.wiped w t x y = w.detach x y := by
        intro y hy
        unfold Widgets.wiped
        rw [if_neg (ne_of_mem_of_not_mem hy ((h.detach x).notMem hroot q)),
          if_neg fun hmem => hq ((h.detach x).disjoint hy hmem)]
      have hfields : (Widgets.wiped w t x q).firstChild = (w.detach x q).firstChild ∧
          (Widgets.wiped w t x q).lastChild = (w.detach x q).lastChild := by
        unfold Widgets.wiped
        rw [if_neg hq]
        split
        next => exact ⟨rfl, rfl⟩
        next => exact ⟨rfl, rfl⟩
      rw [hfields.1, hfields.2]
      exact ((h.detach x).lists q).congr (fun y hy => by rw [hsame y hy]) fun y hy => by
        rw [hsame y hy]

/-! ## Chains of parents -/

variable {o : Option (Fin n)}

theorem Chain.unique {l l' : List (Fin n)} (h : Chain w o l)
    (h' : Chain w o l') : l = l' := by
  induction h generalizing l' with
  | nil =>
    cases h'
    rfl
  | cons _ ih =>
    cases h' with
    | cons hrest => rw [ih hrest]

theorem Chain.tail_of_mem (h : Chain w o l) (hx : x ∈ l) :
    ∃ l', Chain w (some x) l' ∧ l'.length ≤ l.length := by
  induction h with
  | nil => exact nomatch hx
  | @cons c l hrest ih =>
    obtain rfl | hmem := mem_cons.mp hx
    · exact ⟨_, .cons hrest, Nat.le_refl _⟩
    · obtain ⟨l', hl', hle⟩ := ih hmem
      exact ⟨l', hl', Nat.le_succ_of_le hle⟩

/-- A chain does not come back. -/
theorem Chain.nodup (h : Chain w o l) : l.Nodup := by
  induction h with
  | nil => exact nodup_nil
  | @cons c l hrest ih =>
    refine nodup_cons.mpr ⟨fun hmem => ?_, ih⟩
    obtain ⟨l', hl', hle⟩ := hrest.tail_of_mem hmem
    rw [hl'.unique (.cons hrest), length_cons] at hle
    exact absurd hle (Nat.not_succ_le_self _)

theorem Chain.length_le (h : Chain w o l) : l.length ≤ n :=
  h.nodup.length_le_card.trans (Fintype.card_fin n).le

/-- A chain only reads the parents of its members. -/
theorem Chain.congr (h : Chain w o l)
    (heq : ∀ y ∈ l, (w' y).parent = (w y).parent) : Chain w' o l := by
  induction h with
  | nil => exact .nil
  | @cons c l _ ih =>
    refine .cons ?_
    rw [heq c mem_cons_self]
    exact ih fun y hy => heq y (mem_cons_of_mem _ hy)

/-- Where parents are only removed, the chains still end. -/
theorem Chain.cut (h : Chain w o l)
    (heq : ∀ y, (w' y).parent = none ∨ (w' y).parent = (w y).parent) : ∃ l', Chain w' o l' := by
  induction h with
  | nil => exact ⟨[], .nil⟩
  | @cons c l _ ih =>
    obtain hnone | hsame := heq c
    · refine ⟨[c], .cons ?_⟩
      rw [hnone]
      exact .nil
    · obtain ⟨l', hl'⟩ := ih
      refine ⟨c :: l', .cons ?_⟩
      rw [hsame]
      exact hl'

/-- So they do where one widget gets a parent that it is no ancestor of. -/
theorem Chain.graft {l above : List (Fin n)} (h : Chain w o l)
    (heq : ∀ y, (w' y).parent = if y = x then some p else (w y).parent)
    (habove : Chain w (some p) above) (hx : x ∉ above) : ∃ l', Chain w' o l' := by
  have hkept : Chain w' (some p) above := habove.congr fun y hy => by
    rw [heq, if_neg (ne_of_mem_of_not_mem hy hx)]
  induction h with
  | nil => exact ⟨[], .nil⟩
  | @cons c l _ ih =>
    by_cases hc : c = x
    · refine ⟨c :: above, .cons ?_⟩
      rw [heq, if_pos hc]
      exact hkept
    · obtain ⟨l', hl'⟩ := ih
      refine ⟨c :: l', .cons ?_⟩
      rw [heq, if_neg hc]
      exact hl'

theorem Chain.isAncestorFrom {fuel : Nat} (h : Chain w o l)
    (hfuel : l.length ≤ fuel) (a : Fin n) :
    isAncestorFrom w a fuel o = some (decide (a ∈ l)) := by
  induction h generalizing fuel with
  | nil => cases fuel <;> rfl
  | @cons c l _ ih =>
    cases fuel with
    | zero => exact absurd hfuel (Nat.not_succ_le_zero _)
    | succ fuel =>
      unfold Widgets.isAncestorFrom
      by_cases hc : c = a
      · rw [if_pos hc, decide_eq_true (hc ▸ mem_cons_self)]
      · rw [if_neg hc, ih (Nat.le_of_succ_le_succ hfuel)]
        congr 1
        rw [decide_eq_decide, mem_cons]
        exact (or_iff_right (Ne.symm hc)).symm

/-- The members of the chain above a widget are its ancestors. -/
theorem Linked.mem_chain {a : Fin n} (h : Linked w t)
    (hl : Chain w (w x).parent l) : a ∈ l ↔ t.Above a x := by
  constructor
  · intro hmem
    generalize ho : (w x).parent = o at hl
    induction hl generalizing x with
    | nil => exact nomatch hmem
    | @cons c l hrest ih =>
      have hchild := (h.parent c x).mpr ho
      obtain rfl | hmem := mem_cons.mp hmem
      · exact .single hchild
      · exact (ih hmem rfl).tail hchild
  · intro habove
    induction habove generalizing l with
    | single hchild =>
      rw [(h.parent _ _).mp hchild] at hl
      cases hl with
      | cons => exact mem_cons_self
    | @tail b c _ hchild ih =>
      rw [(h.parent b c).mp hchild] at hl
      cases hl with
      | cons hrest => exact mem_cons_of_mem _ (ih hrest)

/-! ## Runs -/

/-- The links of the widgets are those of a forest. -/
structure Forest (w : Widgets n σ) : Prop where
  /-- Forwards, backwards and at both ends. -/
  linked : Linked w w.children
  acyclic : ∀ x, ¬w.children.Above x x
  rooted : ∀ x, ∃ l, Chain w (some x) l

theorem Linked.forest (h : Linked w t) (hrooted : ∀ x, ∃ l, Chain w (some x) l) : Forest w where
  linked := by
    rw [h.children_eq]
    exact h
  acyclic := by
    intro x habove
    rw [h.children_eq] at habove
    obtain ⟨l, hl⟩ := hrooted x
    have hnodup := hl.nodup
    cases hl with
    | cons hrest => exact (nodup_cons.mp hnodup).1 ((h.mem_chain hrest).mpr habove)
  rooted := hrooted

/-- Cutting a widget off leaves a forest. -/
theorem Forest.detach (h : Forest w) (x : Fin n) :
    Forest (w.detach x) ∧ (w.detach x).children = w.children.cut x := by
  have hlinked := h.linked.detach x
  refine ⟨hlinked.forest fun y => ?_, hlinked.children_eq⟩
  obtain ⟨l, hl⟩ := h.rooted y
  refine hl.cut fun z => ?_
  rw [h.linked.detach_parent]
  split
  next => exact .inl rfl
  next => exact .inr rfl

theorem Forest.append (h : Forest w) (hne : p ≠ x) (habove : ¬w.children.Above x p) :
    Forest (w.append p x) ∧ (w.append p x).children = w.children.graft p x := by
  have hlinked := h.linked.append hne
  refine ⟨hlinked.forest fun y => ?_, hlinked.children_eq⟩
  obtain ⟨l, hl⟩ := h.rooted y
  obtain ⟨above, hrest⟩ := h.rooted p
  refine hl.graft (h.linked.append_parent hne) hrest fun hmem => ?_
  cases hrest with
  | cons hrest =>
    obtain hself | hmem := mem_cons.mp hmem
    · exact hne hself.symm
    · exact habove ((h.linked.mem_chain hrest).mp hmem)

theorem Forest.wiped (h : Forest w) (x : Fin n) :
    Forest (wiped w w.children x) ∧
      (Widgets.wiped w w.children x).children = update (w.children.cut x) x [] := by
  have hlinked := h.linked.wiped x
  refine ⟨hlinked.forest fun y => ?_, hlinked.children_eq⟩
  obtain ⟨l, hl⟩ := h.rooted y
  refine hl.cut fun z => ?_
  rw [h.linked.wiped_parent]
  split
  next => exact .inl rfl
  next => exact .inr rfl

/-- The walk up from the parent finds out whether a cycle would be closed. -/
theorem Forest.isAncestor (h : Forest w) (a x : Fin n) :
    ∃ cycle, w.isAncestor a x = some cycle ∧ (cycle = true ↔ w.children.Above a x) := by
  obtain ⟨l, hl⟩ := h.rooted x
  cases hl with
  | cons hrest =>
    refine ⟨decide (a ∈ _), hrest.isAncestorFrom hrest.length_le a, ?_⟩
    rw [decide_eq_true_eq]
    exact h.linked.mem_chain hrest

theorem Forest.step (h : Forest w) (op : Op n) : ∃ answer w', step w op = some (answer, w') ∧
    Forest w' ∧ Children.Effect w.children op answer w'.children := by
  cases op with
  | addChild p c =>
    by_cases hself : p = c
    · exact ⟨false, w, if_pos hself, h, .refused (.inl hself)⟩
    · obtain ⟨cycle, hcycle, habove⟩ := h.isAncestor c p
      have hadd : w.addChild p c =
          if cycle then some (false, w)
          else if (w c).parent = some p then some (true, w) else some (true, w.append p c) := by
        unfold addChild
        rw [if_neg hself, hcycle]
        cases cycle with
        | false =>
          show (if (w c).parent = some p then some (true, w) else some (true, w.append p c)) = _
          rfl
        | true => rfl
      cases cycle with
      | true => exact ⟨false, w, hadd, h, .refused (.inr (habove.mp rfl))⟩
      | false =>
        have hfree : ¬(p = c ∨ w.children.Above c p) := not_or.mpr
          ⟨hself, fun hmem => nomatch habove.mpr hmem⟩
        rw [if_neg Bool.false_ne_true] at hadd
        by_cases hparent : (w c).parent = some p
        · rw [if_pos hparent] at hadd
          exact ⟨true, w, hadd, h, .present hfree ((h.linked.parent p c).mpr hparent)⟩
        · rw [if_neg hparent] at hadd
          obtain ⟨hforest, hchildren⟩ := h.append hself (not_or.mp hfree).2
          refine ⟨true, w.append p c, hadd, hforest, ?_⟩
          rw [hchildren]
          exact .added hfree fun hmem => hparent ((h.linked.parent p c).mp hmem)
  | removeChild p c =>
    by_cases hparent : (w c).parent = some p
    · refine ⟨true, w.detach c, ?_, (h.detach c).1, ?_⟩
      · show some (true, w.removeChild p c) = _
        unfold removeChild
        rw [if_neg (not_not.mpr hparent)]
      · rw [(h.detach c).2]
        exact .removed ((h.linked.parent p c).mpr hparent)
    · refine ⟨true, w, ?_, h, .other fun hmem => hparent ((h.linked.parent p c).mp hmem)⟩
      show some (true, w.removeChild p c) = _
      unfold removeChild
      rw [if_pos hparent]
  | detach c =>
    refine ⟨true, w.detach c, rfl, (h.detach c).1, ?_⟩
    rw [(h.detach c).2]
    exact .detached
  | reset c =>
    refine ⟨true, Widgets.wiped w w.children c, ?_, (h.wiped c).1, ?_⟩
    · show (w.reset c).map _ = _
      rw [h.linked.reset_eq]
      rfl
    · rw [(h.wiped c).2]
      exact .reset

end Widgets

end MeatySkeleton.Gui
