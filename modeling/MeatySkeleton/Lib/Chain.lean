import Mathlib.Algebra.Group.Nat.Defs
import Mathlib.Data.List.Basic

/-!
# Intrusive doubly linked lists

An intrusive list keeps its links inside the nodes, so the whole list is two
partial maps `next, prev : α → Option α` together with a head and a tail. This
file relates such a pair of maps to the list of nodes it spells out:

* `Seg next prev p l n`: the nodes of `l` are linked both ways in this order,
  the first one looks back at `p` and the last one looks forward at `n`;
* `DList next prev head tail l`: `l` is the whole list, without repetition.

The edits that intrusive lists are built from are stated as equalities of the two
maps, so a program which performs them on its own node records can use them at
`next := field ∘ nodes`: appending at the tail, unlinking a node and inserting
before a node. An edit writes at most one link of a neighbour that may be absent;
`link f i v` is that write.
-/

namespace MeatySkeleton.Lib

open Function List Option

variable {α : Type} {next prev next' prev' : α → Option α}

/-- The nodes of a segment are linked both ways, between `p` and `n`. -/
def Seg (next prev : α → Option α) : Option α → List α → Option α → Prop
  | _, [], _ => True
  | p, x :: xs, n => prev x = p ∧ next x = xs.head?.or n ∧ Seg next prev (some x) xs n

variable {p n : Option α}

@[simp] theorem seg_nil : Seg next prev p [] n := trivial

variable {x : α}

theorem seg_cons {xs : List α} :
    Seg next prev p (x :: xs) n ↔
      prev x = p ∧ next x = xs.head?.or n ∧ Seg next prev (some x) xs n := Iff.rfl

theorem seg_singleton :
    Seg next prev p [x] n ↔ prev x = p ∧ next x = n := by
  simp [seg_cons]

/-- A segment splits at any seam: each half sees the other's end node. -/
theorem seg_append :
    ∀ (l : List α) {ys : List α}, Seg next prev p (l ++ ys) n ↔
      Seg next prev p l (ys.head?.or n) ∧ Seg next prev (l.getLast?.or p) ys n := by
  intro l
  induction l generalizing p with
  | nil => intro ys; simp
  | cons x xs ih =>
    intro ys
    rw [cons_append, seg_cons, seg_cons, ih]
    cases xs with
    | nil => simp; tauto
    | cons y ys' =>
      have hlast : ((x :: y :: ys').getLast?.or p) = ((y :: ys').getLast?.or (some x)) := by
        rw [getLast?_cons_cons]
        cases h : (y :: ys').getLast? with
        | none => simp at h
        | some z => rfl
      rw [hlast]
      simp only [cons_append, head?_cons, some_or]
      tauto

/-- A segment only reads the links of its own nodes. -/
theorem Seg.congr {n : Option α} : ∀ {l : List α} {p : Option α}, Seg next prev p l n →
    (∀ x ∈ l, next' x = next x) → (∀ x ∈ l, prev' x = prev x) → Seg next' prev' p l n
  | [], _, _, _, _ => trivial
  | x :: _, _, ⟨hp, hn, hr⟩, hnext, hprev =>
    ⟨(hprev x mem_cons_self).trans hp, (hnext x mem_cons_self).trans hn,
      Seg.congr hr (fun y hy => hnext y (mem_cons_of_mem _ hy))
        (fun y hy => hprev y (mem_cons_of_mem _ hy))⟩

/-- Redirecting the last node's forward link moves the far end of a segment. -/
theorem Seg.retarget {n n' : Option α} : ∀ {l : List α} {p : Option α}, Seg next prev p l n →
    l.Nodup → (∀ x ∈ l, some x ≠ l.getLast? → next' x = next x) →
    (∀ x, l.getLast? = some x → next' x = n') → (∀ x ∈ l, prev' x = prev x) →
    Seg next' prev' p l n'
  | [], _, _, _, _, _, _ => trivial
  | [x], _, ⟨hp, _, _⟩, _, _, hlast, hprev =>
    ⟨(hprev x mem_cons_self).trans hp, hlast x rfl, trivial⟩
  | x :: y :: ys, p, ⟨hp, hn, hr⟩, hnd, hnext, hlast, hprev => by
    have hxy : some x ≠ (x :: y :: ys).getLast? := by
      intro h
      have hmem : x ∈ y :: ys := mem_of_getLast? (by rw [getLast?_cons_cons] at h; exact h.symm)
      exact (nodup_cons.mp hnd).1 hmem
    refine ⟨(hprev x mem_cons_self).trans hp, ?_, ?_⟩
    · rw [hnext x mem_cons_self hxy, hn]; rfl
    · refine Seg.retarget hr (nodup_cons.mp hnd).2 ?_ ?_ ?_
      · intro z hz hne
        exact hnext z (mem_cons_of_mem _ hz) (by rw [getLast?_cons_cons]; exact hne)
      · intro z hz
        exact hlast z (by rw [getLast?_cons_cons]; exact hz)
      · exact fun z hz => hprev z (mem_cons_of_mem _ hz)

/-- Redirecting the first node's back link moves the near end of a segment. -/
theorem Seg.rebase {p p' n : Option α} : ∀ {l : List α}, Seg next prev p l n → l.Nodup →
    (∀ x ∈ l, next' x = next x) → (∀ x, l.head? = some x → prev' x = p') →
    (∀ x ∈ l, some x ≠ l.head? → prev' x = prev x) → Seg next' prev' p' l n
  | [], _, _, _, _, _ => trivial
  | x :: xs, ⟨_, hn, hr⟩, hnd, hnext, hhead, hprev => by
    refine ⟨hhead x rfl, (hnext x mem_cons_self).trans hn, ?_⟩
    refine hr.congr (fun y hy => hnext y (mem_cons_of_mem _ hy)) (fun y hy => ?_)
    refine hprev y (mem_cons_of_mem _ hy) ?_
    intro h
    have hyx : y = x := by simpa using h
    exact (nodup_cons.mp hnd).1 (hyx ▸ hy)

/-- Read from the other end, the two maps change places. -/
theorem Seg.reverse {n : Option α} : ∀ {l : List α} {p : Option α}, Seg next prev p l n →
    Seg prev next n l.reverse p
  | [], _, _ => trivial
  | x :: xs, p, ⟨hp, hn, hr⟩ => by
    rw [reverse_cons, seg_append, seg_singleton, getLast?_reverse]
    exact ⟨hr.reverse, hn, hp⟩

/-- A head, a tail and two link maps describe one list, each node once. -/
structure DList (next prev : α → Option α) (head tail : Option α) (l : List α) : Prop where
  nodup : l.Nodup
  head_eq : head = l.head?
  tail_eq : tail = l.getLast?
  seg : Seg next prev none l none

theorem dlist_nil : DList next prev none none [] :=
  ⟨nodup_nil, rfl, rfl, trivial⟩

variable {head tail : Option α} {l : List α}

/-- A list only reads the links of its own nodes. -/
theorem DList.congr (h : DList next prev head tail l)
    (hnext : ∀ x ∈ l, next' x = next x) (hprev : ∀ x ∈ l, prev' x = prev x) :
    DList next' prev' head tail l :=
  ⟨h.nodup, h.head_eq, h.tail_eq, h.seg.congr hnext hprev⟩

variable {xs ys : List α}

/-- The links around a member: its neighbours are its links. -/
theorem DList.split
    (h : DList next prev head tail (xs ++ x :: ys)) :
    Seg next prev none xs (some x) ∧ prev x = xs.getLast? ∧ next x = ys.head? ∧
      Seg next prev (some x) ys none := by
  have hs := (seg_append xs).mp h.seg
  simp only [head?_cons, or_none, seg_cons] at hs
  exact ⟨hs.1, hs.2.1, hs.2.2.1, hs.2.2.2⟩

/-- The nodes met by following the links, at most `n` of them. -/
def follow (next : α → Option α) : Nat → Option α → List α
  | 0, _ => []
  | _, none => []
  | n + 1, some x => x :: follow next n (next x)

theorem Seg.follow_eq : ∀ {l : List α} {p : Option α} {n : Nat}, Seg next prev p l none →
    l.length ≤ n → follow next n l.head? = l
  | [], _, 0, _, _ => rfl
  | [], _, _ + 1, _, _ => rfl
  | x :: l, _, 0, _, hn => absurd hn (Nat.not_succ_le_zero _)
  | x :: l, _, n + 1, ⟨_, hnext, hrest⟩, hn => by
    rw [head?_cons, follow, hnext, or_none, hrest.follow_eq (Nat.le_of_succ_le_succ hn)]

/-- Following the links from the head finds the list. -/
theorem DList.follow_eq {n : Nat}
    (h : DList next prev head tail l) (hn : l.length ≤ n) : follow next n head = l := by
  rw [h.head_eq]
  exact h.seg.follow_eq hn

variable [DecidableEq α]

/-- Write `v` into the link of a neighbour that may be absent. -/
def link (f : α → Option α) (i : Option α) (v : Option α) : α → Option α :=
  match i with
  | none => f
  | some a => update f a v

@[simp] theorem link_none (f : α → Option α) (v : Option α) : link f none v = f := rfl

@[simp] theorem link_some (f : α → Option α) (a : α) (v : Option α) :
    link f (some a) v = update f a v := rfl

theorem link_ne {f : α → Option α} {i v : Option α} (h : i ≠ some x) :
    link f i v x = f x := by
  cases i with
  | none => rfl
  | some a => exact update_of_ne (fun e => h (by rw [e])) _ _

theorem link_eq {f : α → Option α} {v : Option α} {i : Option α} (h : i = some x) :
    link f i v x = v := by
  subst h; exact update_self ..

/-- Appending a fresh node at the tail. -/
theorem DList.pushBack
    (h : DList next prev head tail l) (hx : x ∉ l) :
    DList (link (update next x none) tail (some x)) (update prev x tail)
      (if tail.isSome then head else some x) (some x) (l ++ [x]) := by
  have hmem : ∀ y ∈ l, y ≠ x := fun y hy e => hx (e ▸ hy)
  have htail : tail ≠ some x := by
    intro ht
    exact hx (mem_of_getLast? (h.tail_eq.symm.trans ht))
  refine ⟨?_, ?_, ?_, ?_⟩
  · rw [nodup_append]
    exact ⟨h.nodup, by simp,
      fun a ha b hb => by rw [mem_singleton.mp hb]; exact hmem a ha⟩
  · cases l with
    | nil => simp [h.tail_eq]
    | cons y ys =>
      have : tail.isSome := by rw [h.tail_eq]; simp
      rw [if_pos this, h.head_eq]; rfl
  · simp
  · rw [seg_append]
    constructor
    · refine h.seg.retarget h.nodup ?_ ?_ ?_
      · intro y hy hne
        rw [link_ne (by rw [h.tail_eq]; exact fun e => hne e.symm), update_of_ne (hmem y hy)]
      · intro y hy
        rw [link_eq (h.tail_eq.trans hy)]; rfl
      · intro y hy
        exact update_of_ne (hmem y hy) _ _
    · rw [seg_singleton]
      refine ⟨?_, ?_⟩
      · rw [update_self, h.tail_eq, or_none]
      · rw [link_ne htail, update_self]

/-- Unlinking a member joins its neighbours. The node's own links are free to
change: nothing in the remaining list reads them. -/
theorem DList.remove
    (h : DList next prev head tail (xs ++ x :: ys))
    (hnext : ∀ y, y ≠ x → next' y = link next (prev x) (next x) y)
    (hprev : ∀ y, y ≠ x → prev' y = link prev (next x) (prev x) y) :
    DList next' prev' (if (prev x).isSome then head else next x)
      (if (next x).isSome then tail else prev x) (xs ++ ys) := by
  obtain ⟨hxs, hpx, hnx, hys⟩ := h.split
  have hnd := h.nodup
  rw [nodup_append, nodup_cons] at hnd
  obtain ⟨hndx, ⟨hxy, hndy⟩, hdisj⟩ := hnd
  have hxx : ∀ y ∈ xs, y ≠ x := fun y hy => hdisj y hy x mem_cons_self
  have hyx : ∀ y ∈ ys, y ≠ x := fun y hy e => hxy (e ▸ hy)
  have hsep : ∀ y ∈ xs, y ∉ ys := fun y hy hy' => hdisj y hy y (mem_cons_of_mem _ hy') rfl
  refine ⟨?_, ?_, ?_, ?_⟩
  · rw [nodup_append]
    exact ⟨hndx, hndy, fun a ha b hb e => hsep a ha (e ▸ hb)⟩
  · rw [hpx, hnx, h.head_eq]
    cases xs with
    | nil => simp
    | cons y ys' => simp
  · rw [hpx, hnx, h.tail_eq]
    cases hl : ys.getLast? with
    | none =>
      have : ys = [] := getLast?_eq_none_iff.mp hl
      subst this; simp
    | some z =>
      have hne : ys ≠ [] := by rintro rfl; simp at hl
      have : ys.head?.isSome := by cases ys with | nil => exact absurd rfl hne | cons _ _ => rfl
      rw [if_pos this, getLast?_append, getLast?_append, hl, getLast?_cons]
      simp [hl]
  · rw [seg_append]
    constructor
    · refine hxs.retarget hndx ?_ ?_ ?_
      · intro y hy hne
        rw [hnext y (hxx y hy), link_ne (by rw [hpx]; exact fun e => hne e.symm)]
      · intro y hy
        rw [hnext y (hxx y (mem_of_getLast? hy)), link_eq (hpx.trans hy), hnx, or_none]
      · intro y hy
        rw [hprev y (hxx y hy), link_ne]
        rw [hnx]; intro e
        exact hsep y hy (mem_of_head? e)
    · refine hys.rebase hndy ?_ ?_ ?_
      · intro y hy
        rw [hnext y (hyx y hy), link_ne]
        rw [hpx]; intro e
        exact hsep y (mem_of_getLast? e) hy
      · intro y hy
        rw [hprev y (hyx y (mem_of_head? hy)), link_eq (hnx.trans hy), hpx, or_none]
      · intro y hy hne
        rw [hprev y (hyx y hy), link_ne]
        rw [hnx]; exact fun e => hne e.symm

/-- Inserting a fresh node before a member. -/
theorem DList.insertBefore {c x : α}
    (h : DList next prev head tail (xs ++ c :: ys)) (hx : x ∉ xs ++ c :: ys) :
    DList (link (update next x (some c)) (prev c) (some x))
      (update (update prev x (prev c)) c (some x))
      (if (prev c).isSome then head else some x) tail (xs ++ x :: c :: ys) := by
  obtain ⟨hxs, hpc, hnc, hys⟩ := h.split
  have hnd := h.nodup
  rw [nodup_append, nodup_cons] at hnd
  obtain ⟨hndx, ⟨hcy, hndy⟩, hdisj⟩ := hnd
  rw [mem_append, mem_cons, not_or, not_or] at hx
  obtain ⟨hxxs, hxc, hxys⟩ := hx
  have hcxs : c ∉ xs := fun hmem => hdisj c hmem c mem_cons_self rfl
  have hsep : ∀ y ∈ xs, y ∉ ys := fun y hy hy' => hdisj y hy y (mem_cons_of_mem _ hy') rfl
  have hlast : ∀ y, prev c = some y → y ∈ xs := fun y e =>
    mem_of_getLast? (hpc.symm.trans e)
  refine ⟨?_, ?_, ?_, ?_⟩
  · rw [nodup_append, nodup_cons, nodup_cons, mem_cons, not_or]
    refine ⟨hndx, ⟨⟨hxc, hxys⟩, hcy, hndy⟩, fun a ha b hb hab => ?_⟩
    subst hab
    rcases mem_cons.mp hb with rfl | hb
    · exact hxxs ha
    · exact hdisj a ha a hb rfl
  · rw [hpc, h.head_eq]
    cases xs with
    | nil => rfl
    | cons y xs => rw [getLast?_cons]; rfl
  · rw [h.tail_eq, getLast?_append, getLast?_append, getLast?_cons_cons]
  · rw [seg_append, seg_cons, seg_cons]
    refine ⟨?_, ?_, ?_, ?_, ?_, ?_⟩
    · -- the last node before `c` now looks at `x`
      refine hxs.retarget hndx ?_ ?_ ?_
      · intro y hy hne
        rw [link_ne (by rw [hpc]; exact fun e => hne e.symm),
          update_of_ne (ne_of_mem_of_not_mem hy hxxs)]
      · intro y hy
        rw [link_eq (hpc.trans hy)]
        rfl
      · intro y hy
        rw [update_of_ne (ne_of_mem_of_not_mem hy hcxs),
          update_of_ne (ne_of_mem_of_not_mem hy hxxs)]
    · rw [update_of_ne hxc, update_self, hpc, or_none]
    · rw [link_ne (fun e => hxxs (hlast x e)), update_self]
      rfl
    · rw [update_self]
    · rw [link_ne (fun e => hcxs (hlast c e)), update_of_ne (Ne.symm hxc), hnc, or_none]
    · refine hys.congr ?_ ?_
      · intro y hy
        rw [link_ne (fun e => hsep y (hlast y e) hy), update_of_ne (ne_of_mem_of_not_mem hy hxys)]
      · intro y hy
        rw [update_of_ne (ne_of_mem_of_not_mem hy hcy), update_of_ne (ne_of_mem_of_not_mem hy hxys)]

omit [DecidableEq α] in
/-- The first node of a non-empty list, and the rest. -/
theorem DList.head_split
    (h : DList next prev head tail l) (hx : head = some x) : ∃ ys, l = x :: ys := by
  cases l with
  | nil => rw [h.head_eq] at hx; exact absurd hx (by simp)
  | cons y ys =>
    rw [h.head_eq] at hx
    exact ⟨ys, by rw [some.inj hx]⟩

end MeatySkeleton.Lib
