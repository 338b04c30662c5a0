import MeatySkeleton.Gui.Compositor
import Mathlib.Data.List.Basic

/-!
# Damage is not lost

The rectangles recorded lie inside the screen and no two of them touch. The merging loop keeps
their pixels and those of the rectangle it carries, and each of its passes has one rectangle
less to look at. So the record covers what was asked for.
-/

namespace MeatySkeleton.Gui

open List Option Device

namespace Rect

variable {r s t u : Rect} {px py : Int}

/-- Inside the screen, with at least one pixel. -/
def Proper (screen r : Rect) : Prop := r.Inside screen ∧ 0 < r.width ∧ 0 < r.height

theorem Proper.not_empty {screen : Rect} (h : Proper screen r) : r.isEmpty = false := by
  have hne : ¬(r.width = 0 ∨ r.height = 0) := by
    have := h.2
    omega
  rwa [← isEmpty_iff, Bool.not_eq_true] at hne

theorem intersect_proper {screen : Rect} (h : r.intersect screen = some t) : Proper screen t :=
  ⟨intersect_inside_right h, (intersect_some h).width, (intersect_some h).height⟩

theorem touchOrOverlap_comm (r s : Rect) : r.touchOrOverlap s = s.touchOrOverlap r := by
  unfold touchOrOverlap
  rw [Bool.eq_iff_iff]
  simp only [Bool.and_eq_true, decide_eq_true_eq]
  tauto

/-- Rectangles that do not touch have no pixel in common. -/
theorem not_has_of_apart (h : r.touchOrOverlap s = false) : ¬(r.Has px py ∧ s.Has px py) := by
  intro ⟨hr, hs⟩
  have hre : r.isEmpty = false := by
    rw [← Bool.not_eq_true]
    exact fun he => not_has_of_isEmpty he hr
  have hse : s.isEmpty = false := by
    rw [← Bool.not_eq_true]
    exact fun he => not_has_of_isEmpty he hs
  have hmeet : r.x ≤ s.right ∧ s.x ≤ r.right ∧ r.y ≤ s.bottom ∧ s.y ≤ r.bottom := by
    unfold Has at hr hs
    omega
  unfold touchOrOverlap at h
  rw [hre, hse, decide_eq_true hmeet.1, decide_eq_true hmeet.2.1, decide_eq_true hmeet.2.2.1,
    decide_eq_true hmeet.2.2.2] at h
  exact nomatch h

/-- Two rectangles of a screen unite to one of the screen that has both. -/
theorem union_proper {screen : Rect} (hwidth : screen.width < 2 ^ 32)
    (hheight : screen.height < 2 ^ 32) (hr : Proper screen r) (hs : Proper screen s) :
    ∃ u, r.union s = some u ∧ Proper screen u ∧ r.Inside u ∧ s.Inside u := by
  have hre := hr.not_empty
  have hse := hs.not_empty
  unfold union
  rw [hre, hse, if_neg Bool.false_ne_true, if_neg Bool.false_ne_true]
  unfold Proper Inside at *
  unfold right bottom at *
  dsimp only
  rw [if_neg (by omega)]
  refine ⟨_, rfl, ?_⟩
  unfold toU32
  dsimp only
  omega

end Rect

namespace Compositor

variable {clipped combined merged screen : Rect} {damage rest : List Rect} {index : Nat}

/-! ## The merging loop -/

theorem firstMerge_some (h : firstMerge clipped damage = some (index, combined)) :
    ∃ r, damage[index]? = some r ∧ clipped.union r = some combined := by
  obtain ⟨i, -, hi⟩ := exists_of_findSome?_eq_some h
  obtain ⟨r, hr, hi⟩ := bind_eq_some_iff.mp hi
  split at hi
  next => exact nomatch hi
  next =>
    obtain ⟨u, hu, hi⟩ := bind_eq_some_iff.mp hi
    cases hi
    exact ⟨r, hr, hu⟩

/-- When the loop finds nothing to merge with, the rectangle touches none. -/
theorem firstMerge_none (hunion : ∀ r ∈ damage, (clipped.union r).isSome)
    (h : firstMerge clipped damage = none) : ∀ r ∈ damage, clipped.touchOrOverlap r = false := by
  intro r hr
  obtain ⟨i, hi, rfl⟩ := mem_iff_getElem.mp hr
  have hnone := findSome?_eq_none_iff.mp h i (mem_range.mpr hi)
  rw [getElem?_eq_getElem hi] at hnone
  by_contra htouch
  rw [Bool.not_eq_false] at htouch
  obtain ⟨u, hu⟩ := isSome_iff_exists.mp (hunion _ hr)
  simp [htouch, hu] at hnone

/-- The others stay, in some order. -/
theorem swapRemove_perm {r : Rect} (h : damage[index]? = some r) :
    (r :: swapRemove damage index).Perm damage := by
  obtain ⟨hi, hr⟩ := List.getElem?_eq_some_iff.mp h
  have hne : damage ≠ [] := length_pos_iff.mp (Nat.zero_lt_of_lt hi)
  unfold swapRemove
  rw [getLast?_eq_some_getLast hne]
  generalize hlast : damage.getLast hne = last
  obtain ⟨front, rfl⟩ : ∃ front, damage = front ++ [last] :=
    ⟨damage.dropLast, hlast ▸ (dropLast_concat_getLast hne).symm⟩
  dsimp only
  by_cases hfront : index < front.length
  · -- the last rectangle moves to the place of this one
    rw [set_append_left _ _ hfront, dropLast_concat, set_eq_take_append_cons_drop, if_pos hfront]
    rw [getElem_append_left hfront] at hr
    have hsplit : front.take index ++ r :: front.drop (index + 1) = front := by
      rw [← hr, getElem_cons_drop, take_append_drop]
    have hmoved : (last :: (front.take index ++ r :: front.drop (index + 1))).Perm
        (r :: (front.take index ++ last :: front.drop (index + 1))) :=
      (perm_middle.cons _).trans ((List.Perm.swap ..).trans (perm_middle.symm.cons _))
    rw [hsplit] at hmoved
    exact hmoved.symm.trans (perm_append_singleton ..).symm
  · -- this is the last rectangle
    have hindex : index = front.length := by
      rw [length_append] at hi
      exact Nat.le_antisymm (Nat.le_of_lt_succ hi) (Nat.le_of_not_lt hfront)
    subst hindex
    rw [getElem_concat_length rfl] at hr
    rw [set_append_right _ _ (Nat.le_refl _), Nat.sub_self, hr]
    show (r :: (front ++ [r]).dropLast).Perm _
    rw [dropLast_concat]
    exact (perm_append_singleton ..).symm

/-- What is left over by the loop, and what it carries at its end. -/
structure Merged (screen clipped : Rect) (damage : List Rect) (merged : Rect) (rest : List Rect) :
    Prop where
  proper : screen.Proper merged
  apart : ∀ r ∈ rest, merged.touchOrOverlap r = false
  inside : clipped.Inside merged
  kept : ∀ r ∈ damage, r.Inside merged ∨ r ∈ rest
  rest : ∃ gone, (gone ++ rest).Perm damage

/-- The loop ends, and loses no pixel. -/
theorem mergeLoop_merged (hwidth : screen.width < 2 ^ 32) (hheight : screen.height < 2 ^ 32)
    {passes : Nat} : ∀ {clipped : Rect} {damage : List Rect}, damage.length < passes →
      screen.Proper clipped → (∀ r ∈ damage, screen.Proper r) →
      ∃ merged rest, mergeLoop passes clipped damage = some (merged, rest) ∧
        Merged screen clipped damage merged rest := by
  induction passes with
  | zero => exact fun hlength => absurd hlength (Nat.not_lt_zero _)
  | succ passes ih =>
    intro clipped damage hlength hclipped hdamage
    have hunion : ∀ r ∈ damage, ∃ u, clipped.union r = some u ∧ screen.Proper u ∧
        clipped.Inside u ∧ r.Inside u :=
      fun r hr => Rect.union_proper hwidth hheight hclipped (hdamage r hr)
    unfold mergeLoop
    split
    next hnone =>
      refine ⟨clipped, damage, rfl, hclipped, firstMerge_none (fun r hr => ?_) hnone, .refl _,
        fun r hr => .inr hr, [], .refl _⟩
      obtain ⟨u, hu, -⟩ := hunion r hr
      exact isSome_of_eq_some hu
    next index combined hsome =>
      obtain ⟨r, hr, hcombined⟩ := firstMerge_some hsome
      have hperm := swapRemove_perm hr
      have hmem := mem_of_getElem? hr
      obtain ⟨u, hu, hproper, hleft, hright⟩ := hunion r hmem
      obtain rfl := some.inj (hcombined.symm.trans hu)
      have hshorter : (swapRemove damage index).length < passes := by
        have := hperm.length_eq
        rw [length_cons] at this
        omega
      obtain ⟨merged, rest, hloop, hmerged⟩ := ih hshorter hproper fun s hs =>
        hdamage s (hperm.mem_iff.mp (mem_cons_of_mem _ hs))
      refine ⟨merged, rest, hloop, hmerged.proper, hmerged.apart, hleft.trans hmerged.inside,
        fun s hs => ?_, ?_⟩
      · obtain rfl | hs := mem_cons.mp (hperm.mem_iff.mpr hs)
        · exact .inl (hright.trans hmerged.inside)
        · exact hmerged.kept s hs
      · obtain ⟨gone, hgone⟩ := hmerged.rest
        exact ⟨r :: gone, (hgone.cons r).trans hperm⟩

/-! ## The record -/

variable {c c' : Compositor} {rect : Rect} {px py : Int}

/-- Proper rectangles, no two of them touching, at most as many as there is room for. -/
structure Recorded (c : Compositor) : Prop where
  proper : ∀ r ∈ c.damage, c.screenRect.Proper r
  apart : c.damage.Pairwise fun r s => r.touchOrOverlap s = false
  count : c.damage.length ≤ maxDamageRects

/-- The pixel is recorded to be shown again. -/
def Damaged (c : Compositor) (px py : Int) : Prop :=
  c.screenRect.Has px py ∧ (c.fullDamage = true ∨ ∃ r ∈ c.damage, r.Has px py)

theorem Recorded.empty (h : c.damage = []) : c.Recorded := by
  refine ⟨?_, ?_, ?_⟩
  all_goals rw [h]
  · exact nofun
  · exact .nil
  · exact Nat.zero_le _

/-- A call of `gui_compositor_damage` returns; the record covers what it covered and the
rectangle. -/
theorem addDamage_spec (h : c.Recorded) (hinitialized : c.initialized = true)
    (hwidth : c.backbuffer.width < 2 ^ 32) (hheight : c.backbuffer.height < 2 ^ 32) (rect : Rect) :
    ∃ c', c.addDamage rect = some c' ∧ c'.Recorded ∧ c'.backbuffer = c.backbuffer ∧
      c'.initialized = true ∧
      ∀ px py, c.Damaged px py ∨ c.screenRect.Has px py ∧ rect.Has px py → c'.Damaged px py := by
  unfold addDamage
  rw [hinitialized]
  split
  next hfull =>
    refine ⟨c, rfl, h, rfl, hinitialized, fun px py hp => ?_⟩
    have hfull : c.fullDamage = true := by simpa using hfull
    exact hp.elim id fun hp => ⟨hp.1, .inl hfull⟩
  next hfull =>
    have hfull : ¬c.fullDamage = true := by simpa using hfull
    split
    next hnone =>
      refine ⟨c, rfl, h, rfl, hinitialized, fun px py hp => ?_⟩
      exact hp.elim id fun hp => absurd ⟨hp.2, hp.1⟩ (Rect.intersect_none hnone)
    next clipped hclipped =>
      obtain ⟨merged, rest, hloop, hmerged⟩ := mergeLoop_merged hwidth hheight
        (Nat.lt_succ_self c.damage.length) (Rect.intersect_proper hclipped) h.proper
      obtain ⟨gone, hgone⟩ := hmerged.rest
      have hrest : ∀ r ∈ rest, c.screenRect.Proper r :=
        fun r hr => h.proper r (hgone.mem_iff.mp (mem_append_right _ hr))
      have hapart : rest.Pairwise fun r s => r.touchOrOverlap s = false := by
        refine (pairwise_append.mp ((hgone.pairwise_iff fun {r s} hrs => ?_).mpr h.apart)).2.1
        exact (Rect.touchOrOverlap_comm s r).trans hrs
      simp only [hloop, bind_eq_bind, bind_some]
      split
      next =>
        refine ⟨_, rfl, .empty rfl, rfl, rfl, fun px py hp => ⟨?_, .inl rfl⟩⟩
        exact hp.elim And.left And.left
      next hroom =>
        refine ⟨_, rfl, ⟨fun r hr => ?_, ?_, ?_⟩, rfl, rfl, fun px py hp => ?_⟩
        · obtain hr | hr := mem_append.mp hr
          · exact hrest r hr
          · obtain rfl := mem_singleton.mp hr
            exact hmerged.proper
        · refine pairwise_append.mpr ⟨hapart, pairwise_singleton .., fun r hr s hs => ?_⟩
          obtain rfl := mem_singleton.mp hs
          exact (Rect.touchOrOverlap_comm ..).trans (hmerged.apart r hr)
        · show (rest ++ [merged]).length ≤ _
          rw [length_append]
          exact Nat.lt_of_not_le hroom
        · have hin : merged ∈ rest ++ [merged] := mem_append_right _ mem_cons_self
          obtain ⟨hscreen, hfull' | ⟨r, hr, hhas⟩⟩ | ⟨hscreen, hhas⟩ := hp
          · exact absurd hfull' hfull
          · obtain hinside | hr := hmerged.kept r hr
            · exact ⟨hscreen, .inr ⟨merged, hin, hinside.has hhas⟩⟩
            · exact ⟨hscreen, .inr ⟨r, mem_append_left _ hr, hhas⟩⟩
          · have hclip := (Rect.intersect_has hclipped).mpr ⟨hhas, hscreen⟩
            exact ⟨hscreen, .inr ⟨merged, hin, hmerged.inside.has hclip⟩⟩

end Compositor

end MeatySkeleton.Gui
