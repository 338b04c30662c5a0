import MeatySkeleton.Lib.Chain

/-!
# Intrusive queues

A queue through one link per node, with a head to take from and a tail to append to:
`SQueue next head tail l` says that the links lead through the nodes of `l`, without
repetition. Appending and taking are edits of `l`.
-/

namespace MeatySkeleton.Lib

open Function List

variable {α : Type} {next next' : α → Option α}

/-- From `first` on, the links lead through `l` and end there. -/
def Linked (next : α → Option α) : Option α → List α → Prop
  | first, [] => first = none
  | first, x :: l => first = some x ∧ Linked next (next x) l

variable {first : Option α}

section

variable {l : List α} (h : Linked next first l)

include h

theorem Linked.head_eq :
    first = l.head? := by
  cases l with
  | nil => exact h
  | cons x l => exact h.1

theorem Linked.congr
    (heq : ∀ x ∈ l, next' x = next x) : Linked next' first l := by
  induction l generalizing first with
  | nil => exact h
  | cons x l ih =>
    refine ⟨h.1, ?_⟩
    rw [heq x mem_cons_self]
    exact ih h.2 fun y hy => heq y (mem_cons_of_mem _ hy)

/-- The last node is linked to a new one. -/
theorem Linked.snoc {x : α}
    (hn : l.Nodup) (hx : next' x = none) (hlast : ∀ y, l.getLast? = some y → next' y = some x)
    (hrest : ∀ y ∈ l, l.getLast? ≠ some y → next' y = next y) :
    Linked next' (first.or (some x)) (l ++ [x]) := by
  induction l generalizing first with
  | nil =>
    obtain rfl : first = none := h
    exact ⟨rfl, hx⟩
  | cons y l ih =>
    obtain ⟨rfl, htail⟩ := h
    obtain ⟨hy, hn⟩ := nodup_cons.mp hn
    refine ⟨rfl, ?_⟩
    have hfirst : next' y = (next y).or (some x) := by
      cases l with
      | nil =>
        have hnone : next y = none := htail
        rw [hlast y rfl, hnone]
        rfl
      | cons z l =>
        have hne : (y :: z :: l).getLast? ≠ some y := by
          intro he
          rw [getLast?_cons_cons] at he
          exact hy (mem_of_getLast? he)
        rw [hrest y mem_cons_self hne, htail.1]
        rfl
    rw [hfirst]
    refine ih htail hn ?_ ?_
    · intro z hz
      refine hlast z ?_
      cases l with
      | nil => cases hz
      | cons w l => rwa [getLast?_cons_cons]
    · intro z hz hne
      refine hrest z (mem_cons_of_mem _ hz) ?_
      cases l with
      | nil => cases hz
      | cons w l => rwa [getLast?_cons_cons]

end

/-- A head, a tail and the links describe one queue, each node once. -/
structure SQueue (next : α → Option α) (head tail : Option α) (l : List α) : Prop where
  nodup : l.Nodup
  linked : Linked next head l
  tail_eq : tail = l.getLast?

theorem squeue_nil : SQueue next none none [] where
  nodup := .nil
  linked := rfl
  tail_eq := rfl

variable [DecidableEq α] {head tail : Option α} {l : List α} {x : α}

theorem SQueue.push (h : SQueue next head tail l) (hx : x ∉ l) :
    SQueue (link (update next x none) tail (some x)) (head.or (some x)) (some x)
      (l ++ [x]) where
  nodup := by
    refine nodup_append.mpr ⟨h.nodup, by simp, fun y hy z hz => ?_⟩
    rw [mem_singleton.mp hz]
    exact ne_of_mem_of_not_mem hy hx
  linked := by
    rw [h.tail_eq]
    refine h.linked.snoc h.nodup ?_ ?_ ?_
    · cases hlast : l.getLast? with
      | none => exact update_self ..
      | some y =>
        have hne : x ≠ y := (ne_of_mem_of_not_mem (mem_of_getLast? hlast) hx).symm
        exact (update_of_ne hne ..).trans (update_self ..)
    · intro y hy
      rw [hy]
      exact update_self ..
    · intro y hy hne
      have hyx : y ≠ x := ne_of_mem_of_not_mem hy hx
      cases hlast : l.getLast? with
      | none => exact update_of_ne hyx ..
      | some z =>
        have hyz : y ≠ z := by
          intro he
          rw [he] at hne
          exact hne hlast
        exact (update_of_ne hyz ..).trans (update_of_ne hyx ..)
  tail_eq := by rw [getLast?_concat]

theorem SQueue.pop (h : SQueue next head tail (x :: l)) :
    SQueue (update next x none) (next x) (if (next x).isSome then tail else none) l where
  nodup := (nodup_cons.mp h.nodup).2
  linked := by
    refine h.linked.2.congr fun y hy => ?_
    exact update_of_ne (ne_of_mem_of_not_mem hy (nodup_cons.mp h.nodup).1) ..
  tail_eq := by
    rw [h.linked.2.head_eq, h.tail_eq]
    cases l with
    | nil => rfl
    | cons y l =>
      rw [getLast?_cons_cons]
      rfl

end MeatySkeleton.Lib
