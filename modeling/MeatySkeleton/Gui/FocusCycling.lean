import MeatySkeleton.Gui.WindowFocus
import Mathlib.Data.List.Rotate

/-!
# Going through the windows

`gui_window_focus_next` and `gui_window_focus_previous` look from the position of the active
window on, upwards or downwards, and put the window that they find on the top. So after one call
the active window is the top one, and what is left is a list that the next call takes a window
from (`Topped`): `gui_window_focus_next` takes the first one and puts the window that was active
at its end, which turns the list around; `gui_window_focus_previous` takes the last one and puts
the window that was active there, so it goes to and fro between two windows.
-/

namespace MeatySkeleton.Gui.Registry

open List Lib

variable {W : Type} [DecidableEq W] {s : Registry W} {a v w : W} {P Q R : List W}

/-- The visible normal windows, from the bottom of the stack to its top. -/
def visibleWindows (s : Registry W) : List W := s.normalWindows.filter fun w => (s.windows w).visible

/-- What is active after each of `n` calls. -/
def actives (f : Registry W → Registry W) : Nat → Registry W → List (Option W)
  | 0, _ => []
  | n + 1, s => (f s).activeNormalWindow :: actives f n (f s)

/-- As many calls as there are visible windows make every one of them active once, and the last
call the one that is active now. -/
def Cycles (s : Registry W) (f : Registry W → Registry W) : Prop :=
  (actives f s.visibleWindows.length s).Perm (s.visibleWindows.map some) ∧
    (f^[s.visibleWindows.length] s).activeNormalWindow = s.activeNormalWindow

/-- With this window on the top, and active. -/
def raised (s : Registry W) (w : W) : Registry W :=
  { s with normalWindows := s.normalWindows.erase w ++ [w], activeNormalWindow := some w }

/-! ## One call -/

omit [DecidableEq W] in
theorem mem_visibleWindows : w ∈ s.visibleWindows ↔
    w ∈ s.normalWindows ∧ (s.windows w).visible = true :=
  mem_filter

omit [DecidableEq W] in
theorem Listed.visible_nodup (h : s.Listed) : s.visibleWindows.Nodup := h.nodup.filter _

omit [DecidableEq W] in
theorem Listed.active_mem (h : s.Listed) (ha : s.activeNormalWindow = some a) :
    a ∈ s.visibleWindows :=
  have hvisible := h.active a ha
  mem_visibleWindows.mpr ⟨(h.entries a).mpr hvisible.1, hvisible.2⟩

/-- The positions lead through these windows. -/
def Leads (s : Registry W) : List Nat → List W → Prop :=
  List.Forall₂ fun i w => s.normalWindows[i]? = some w

omit [DecidableEq W] in
theorem Leads.mem {positions : List Nat} {order : List W} (h : s.Leads positions order)
    (hw : w ∈ order) : w ∈ s.normalWindows := by
  induction h with
  | nil => exact absurd hw not_mem_nil
  | cons hi _ ih =>
    rcases mem_cons.mp hw with rfl | hw
    · exact mem_of_getElem? hi
    · exact ih hw

theorem firstIndex_eq (h : s.normalWindows.Nodup) (p : W → Bool) {positions : List Nat}
    {order : List W} (hleads : s.Leads positions order) :
    s.firstIndex p positions = (order.find? p).map s.normalWindows.idxOf := by
  unfold firstIndex
  induction hleads with
  | nil => rfl
  | @cons i w _ _ hi _ ih =>
    rw [find?_cons, find?_cons, hi, Option.any_some]
    cases p w with
    | false => exact ih
    | true =>
      obtain ⟨hlt, rfl⟩ := List.getElem?_eq_some_iff.mp hi
      exact congrArg some (h.idxOf_getElem i hlt).symm

theorem focusIndexLocked_idxOf (hw : w ∈ s.visibleWindows) (hactive : s.activeNormalWindow ≠ some w) :
    s.focusIndexLocked (s.normalWindows.idxOf w) = (true, s.raised w) := by
  obtain ⟨hmem, hvisible⟩ := mem_visibleWindows.mp hw
  unfold focusIndexLocked
  rw [getElem?_idxOf hmem]
  dsimp only
  rw [hvisible, if_neg nofun, if_neg fun h => hactive h.1, eraseIdx_idxOf_eq_erase]
  rfl

/-- The search finds the first visible window of its order but for the active one. -/
theorem focusCandidate_eq (h : s.Listed) (ha : s.activeNormalWindow = some a)
    (hcount : 2 ≤ s.normalWindows.length) {candidate : Nat → Nat} {order : List W}
    (hleads : s.Leads ((List.range s.normalWindows.length).map fun i => candidate (i + 1)) order)
    (hfirst : (order.filter fun w => (s.windows w).visible && decide (w ≠ a)).head? = some w) :
    s.focusCandidate candidate = (true, s.raised w) := by
  have hpred : (fun w => (s.windows w).visible && s.activeNormalWindow != some w) =
      fun w => (s.windows w).visible && decide (w ≠ a) := by
    funext w
    rw [ha]
    by_cases hw : w = a
    · simp [hw]
    · simp [hw, Ne.symm hw]
  rw [head?_filter] at hfirst
  have hfound := find?_some hfirst
  rw [Bool.and_eq_true, decide_eq_true_eq] at hfound
  have hmem : w ∈ s.normalWindows := by
    exact hleads.mem (mem_of_find?_eq_some hfirst)
  unfold focusCandidate
  rw [if_neg (Nat.not_lt_of_le hcount), hpred]
  dsimp only
  rw [firstIndex_eq h.nodup _ hleads, hfirst]
  refine focusIndexLocked_idxOf (mem_visibleWindows.mpr ⟨hmem, hfound.1⟩) ?_
  rw [ha]
  exact fun e => hfound.2 (Option.some.inj e).symm

/-! ## The order of the search -/

omit [DecidableEq W] in
theorem leads_iff (candidate : Nat → Nat) {order : List W}
    (hlength : order.length = s.normalWindows.length) :
    s.Leads ((List.range s.normalWindows.length).map fun i => candidate (i + 1)) order ↔
      ∀ i < s.normalWindows.length, s.normalWindows[candidate (i + 1)]? = order[i]? := by
  unfold Leads
  rw [forall₂_iff_get]
  simp only [length_map, length_range, get_eq_getElem, getElem_map,
    getElem_range, hlength, true_and]
  refine forall_congr' fun i => ⟨fun h hi => ?_, fun h hi horder => ?_⟩
  · have horder : i < order.length := hlength.symm ▸ hi
    rw [getElem?_eq_getElem horder]
    exact h hi hi
  · have horder : i < order.length := hlength.symm ▸ hi
    rw [h hi, getElem?_eq_getElem horder]

theorem activeIndex_split {pre post : List W} (h : s.Listed) (ha : s.activeNormalWindow = some a)
    (hsplit : s.normalWindows = pre ++ a :: post) : s.activeIndex = pre.length := by
  unfold activeIndex
  have hnodup := h.nodup
  rw [hsplit, nodup_append] at hnodup
  have hpre : a ∉ pre := fun hmem => hnodup.2.2 a hmem a mem_cons_self rfl
  rw [ha, hsplit]
  dsimp only
  rw [idxOf_append_of_notMem hpre, idxOf_cons_self, Nat.add_zero]

omit [DecidableEq W] in
/-- Upwards from the active window, and from the bottom. -/
theorem leads_next {pre post : List W} (hsplit : s.normalWindows = pre ++ a :: post) :
    s.Leads ((List.range s.normalWindows.length).map fun i =>
      (pre.length + (i + 1)) % s.normalWindows.length) (post ++ (pre ++ [a])) := by
  have hcount : s.normalWindows.length = (pre ++ [a]).length + post.length := by
    rw [hsplit, length_append, length_append, length_cons, length_singleton]
    omega
  refine (leads_iff (fun i => (pre.length + i) % s.normalWindows.length) ?_).mpr ?_
  · rw [hcount, length_append, Nat.add_comm]
  · intro i hi
    have hrotate : s.normalWindows.rotate (pre ++ [a]).length = post ++ (pre ++ [a]) := by
      rw [hsplit, append_cons, rotate_append_length_eq]
    rw [← hrotate, getElem?_rotate hi, length_append, length_singleton]
    congr 2
    omega

omit [DecidableEq W] in
/-- Downwards from the active window, and from the top. -/
theorem leads_previous {pre post : List W} (hsplit : s.normalWindows = pre ++ a :: post) :
    s.Leads ((List.range s.normalWindows.length).map fun i =>
      (pre.length + s.normalWindows.length - (i + 1) % s.normalWindows.length) %
        s.normalWindows.length) ((post ++ pre).reverse ++ [a]) := by
  have hcount : s.normalWindows.length = pre.length + post.length + 1 := by
    rw [hsplit, length_append, length_cons]
    omega
  refine (leads_iff (fun i => (pre.length + s.normalWindows.length -
    i % s.normalWindows.length) % s.normalWindows.length) ?_).mpr ?_
  · rw [hcount, length_append, length_reverse, length_append, length_singleton]
    omega
  · intro i hi
    rw [hcount] at hi ⊢
    rw [hsplit, reverse_append, append_assoc]
    -- below the active window, above it, and the active window itself
    rcases Nat.lt_or_ge i pre.length with hlow | hlow
    · have hmod : (i + 1) % (pre.length + post.length + 1) = i + 1 := Nat.mod_eq_of_lt (by omega)
      have hat : pre.length + (pre.length + post.length + 1) - (i + 1) =
          (pre.length - (i + 1)) + (pre.length + post.length + 1) := by omega
      rw [hmod, hat, Nat.add_mod_right, Nat.mod_eq_of_lt (by omega),
        getElem?_append_left (by omega), getElem?_append_left (by simpa using hlow),
        getElem?_reverse hlow]
      congr 1
      omega
    · rcases Nat.lt_or_ge i (pre.length + post.length) with hhigh | hhigh
      · have hmod : (i + 1) % (pre.length + post.length + 1) = i + 1 := Nat.mod_eq_of_lt (by omega)
        rw [hmod, Nat.mod_eq_of_lt (by omega), getElem?_append_right (by omega),
          getElem?_append_right (by simpa using hlow), length_reverse,
          getElem?_append_left (by rw [length_reverse]; omega),
          getElem?_reverse (by omega)]
        have hat : pre.length + (pre.length + post.length + 1) - (i + 1) - pre.length =
            post.length - 1 - (i - pre.length) + 1 := by omega
        rw [hat, getElem?_cons_succ]
      · have hlast : i = pre.length + post.length := by omega
        rw [hlast, Nat.mod_self, Nat.sub_zero, Nat.add_mod_right, Nat.mod_eq_of_lt (by omega),
          getElem?_append_right (Nat.le_refl _), Nat.sub_self, ← append_assoc,
          getElem?_append_right (by simp), length_append, length_reverse,
          length_reverse, Nat.sub_self]
        rfl

/-! ## What is found -/

omit [DecidableEq W] in
theorem visible_split (h : s.visibleWindows = P ++ a :: Q) : ∃ pre post,
    s.normalWindows = pre ++ a :: post ∧ (pre.filter fun w => (s.windows w).visible) = P ∧
      (post.filter fun w => (s.windows w).visible) = Q := by
  obtain ⟨pre, rest, hl, hpre, hrest⟩ := filter_eq_append_iff.mp h
  obtain ⟨hidden, post, rfl, hhidden, -, hpost⟩ := filter_eq_cons_iff.mp hrest
  refine ⟨pre ++ hidden, post, by rw [hl, append_assoc], ?_, hpost⟩
  rw [filter_append, hpre, filter_eq_nil_iff.mpr hhidden, append_nil]

/-- The windows that the search goes through before it comes to the active one. -/
theorem searched_eq (h : s.Listed) (hvisible : s.visibleWindows = P ++ a :: Q) {order : List W}
    (horder : (order.filter fun w => (s.windows w).visible) = R) (hR : R ⊆ P ++ Q) :
    ((order ++ [a]).filter fun w => (s.windows w).visible && decide (w ≠ a)) = R := by
  have hnodup := h.visible_nodup
  rw [hvisible] at hnodup
  have hnot : a ∉ P ++ Q := (nodup_cons.mp (nodup_middle.mp hnodup)).1
  have hother : ∀ w ∈ R, decide (w ≠ a) = true := fun w hw =>
    decide_eq_true fun e => hnot (e ▸ hR hw)
  rw [filter_append, filter_singleton]
  rw [decide_eq_false (not_not_intro rfl), Bool.and_false, cond_false, append_nil]
  simp only [Bool.and_comm]
  rw [← filter_filter, horder, filter_eq_self.mpr hother]

omit [DecidableEq W] in
/-- There is another visible window. -/
theorem two_listed (hvisible : s.visibleWindows = P ++ a :: Q) (hne : Q ++ P ≠ []) :
    2 ≤ s.normalWindows.length := by
  have hle : s.visibleWindows.length ≤ s.normalWindows.length := length_filter_le _ _
  have hpos := length_pos_iff.mpr hne
  rw [hvisible, length_append, length_cons] at hle
  rw [length_append] at hpos
  omega

variable (h : s.Listed) (ha : s.activeNormalWindow = some a)
  (hvisible : s.visibleWindows = P ++ a :: Q)
include h ha hvisible

/-- The window that comes next upwards, from the top on from the bottom. -/
theorem focusNext_eq (hfirst : Q ++ P = w :: R) : s.focusNext = (true, s.raised w) := by
  obtain ⟨pre, post, hsplit, hpre, hpost⟩ := visible_split hvisible
  have hindex := activeIndex_split h ha hsplit
  have hleads := leads_next hsplit
  rw [← append_assoc] at hleads
  have hbefore : pre.length ≠ s.normalWindows.length := by
    rw [hsplit, length_append, length_cons]
    omega
  unfold focusNext
  dsimp only
  simp only [hindex, if_neg hbefore]
  refine focusCandidate_eq h ha (two_listed hvisible (hfirst ▸ cons_ne_nil w R)) hleads ?_
  · rw [searched_eq h hvisible (R := Q ++ P) ?_ ?_, hfirst, head?_cons]
    · rw [filter_append, hpre, hpost]
    · exact fun v hv => mem_append.mpr (mem_append.mp hv).symm

/-- The window that comes next downwards, from the bottom on from the top. -/
theorem focusPrevious_eq (hlast : Q ++ P = R ++ [w]) : s.focusPrevious = (true, s.raised w) := by
  obtain ⟨pre, post, hsplit, hpre, hpost⟩ := visible_split hvisible
  have hindex := activeIndex_split h ha hsplit
  have hleads := leads_previous hsplit
  have hbefore : pre.length ≠ s.normalWindows.length := by
    rw [hsplit, length_append, length_cons]
    omega
  unfold focusPrevious
  dsimp only
  simp only [hindex, if_neg hbefore]
  refine focusCandidate_eq h ha (two_listed hvisible (hlast ▸ concat_ne_nil w R)) hleads ?_
  · rw [searched_eq h hvisible (R := (Q ++ P).reverse) ?_ ?_, hlast]
    · simp
    · rw [filter_reverse, filter_append, hpre, hpost]
    · intro v hv
      exact mem_append.mpr (mem_append.mp (mem_reverse.mp hv)).symm

omit h ha hvisible

/-! ## The active window on the top -/

/-- The active window is the top one of the visible ones; these are the others. -/
structure Topped (s : Registry W) (R : List W) (a : W) : Prop where
  listed : s.Listed
  active : s.activeNormalWindow = some a
  visible : s.visibleWindows = R ++ [a]

theorem raised_topped (h : s.Listed) (hw : w ∈ s.visibleWindows) :
    (s.raised w).Topped (s.visibleWindows.erase w) w := by
  obtain ⟨hmem, hshown⟩ := mem_visibleWindows.mp hw
  have hperm : (s.normalWindows.erase w ++ [w]).Perm s.normalWindows :=
    perm_append_comm.trans (perm_cons_erase hmem).symm
  refine ⟨h.refocused (.inr ⟨w, _, hperm, hperm.mem_iff.mpr hmem, hshown, rfl⟩), rfl, ?_⟩
  have hlast : [w].filter (fun w => (s.windows w).visible) = [w] := by
    rw [filter_singleton, hshown, cond_true]
  show (s.normalWindows.erase w ++ [w]).filter (fun w => (s.windows w).visible) = _
  rw [filter_append, hlast, h.visible_nodup.erase_eq_filter, h.nodup.erase_eq_filter,
    visibleWindows, filter_filter, filter_filter]
  simp only [Bool.and_comm]

namespace Topped

theorem next (h : s.Topped (w :: R) a) : s.focusNext.2.Topped (R ++ [a]) w := by
  have hw : w ∈ s.visibleWindows := h.visible ▸ mem_append_left _ mem_cons_self
  have hnext := focusNext_eq (Q := []) h.listed h.active h.visible (nil_append _)
  have htopped := raised_topped h.listed hw
  rw [h.visible, cons_append, erase_cons_head] at htopped
  rw [hnext]
  exact htopped

theorem previous (h : s.Topped (R ++ [w]) a) : s.focusPrevious.2.Topped (R ++ [a]) w := by
  have hw : w ∈ s.visibleWindows := by rw [h.visible]; simp
  have hprevious := focusPrevious_eq (Q := []) h.listed h.active h.visible (nil_append _)
  have hnot : w ∉ R := by
    have hnodup := h.listed.visible_nodup
    rw [h.visible, append_assoc] at hnodup
    exact fun hmem => (nodup_append.mp hnodup).2.2 w hmem w mem_cons_self rfl
  have htopped := raised_topped h.listed hw
  rw [h.visible, append_assoc, erase_append_right _ hnot, singleton_append,
    erase_cons_head] at htopped
  rw [hprevious]
  exact htopped

/-- Upwards, the others become active in their order. -/
theorem actives_next (h : s.Topped (R ++ P) a) :
    actives (fun s => s.focusNext.2) R.length s = R.map some := by
  induction R generalizing s P a with
  | nil => rfl
  | cons w R ih =>
    have hnext : s.focusNext.2.Topped (R ++ (P ++ [a])) w := by
      rw [← append_assoc]
      exact h.next
    rw [length_cons, map_cons, actives, hnext.active, ih hnext]

end Topped

/-! ## As many calls as there are visible windows -/

omit [DecidableEq W] in
theorem actives_getLast (f : Registry W → Registry W) (n : Nat) (s : Registry W) :
    (actives f (n + 1) s).getLast? = some (f^[n + 1] s).activeNormalWindow := by
  induction n generalizing s with
  | zero => rfl
  | succ n ih =>
    have hne : actives f (n + 1) (f s) ≠ [] := nofun
    rw [actives, getLast?_cons_of_ne_nil hne, ih, ← Function.iterate_succ_apply]

omit [DecidableEq W] in
/-- The windows below the active one and above it, and that one of them is left. -/
theorem exists_others (h : s.Listed) (ha : s.activeNormalWindow = some a)
    (hcount : 2 ≤ s.visibleWindows.length) :
    ∃ P Q, s.visibleWindows = P ++ a :: Q ∧ Q ++ P ≠ [] := by
  obtain ⟨P, Q, hvisible⟩ := append_of_mem (h.active_mem ha)
  refine ⟨P, Q, hvisible, fun hnil => ?_⟩
  obtain ⟨rfl, rfl⟩ := append_eq_nil_iff.mp hnil
  rw [hvisible] at hcount
  exact absurd hcount (by simp)

omit [DecidableEq W] in
theorem mem_others (hvisible : s.visibleWindows = P ++ a :: Q) (hw : w ∈ Q ++ P) :
    w ∈ s.visibleWindows := by
  rw [hvisible]
  rcases mem_append.mp hw with hQ | hP
  · exact mem_append_right _ (mem_cons_of_mem _ hQ)
  · exact mem_append_left _ hP

omit [DecidableEq W] in
theorem others_ne (h : s.Listed) (hvisible : s.visibleWindows = P ++ a :: Q) (hw : w ∈ Q ++ P) :
    w ≠ a := by
  have hnodup := h.visible_nodup
  rw [hvisible] at hnodup
  have hnot : a ∉ P ++ Q := (nodup_cons.mp (nodup_middle.mp hnodup)).1
  exact fun e => hnot (mem_append.mpr (mem_append.mp (e ▸ hw)).symm)

theorem length_erase (hw : w ∈ s.visibleWindows) :
    s.visibleWindows.length = (s.visibleWindows.erase w).length + 1 := by
  have hpos := length_pos_of_mem hw
  rw [length_erase_of_mem hw]
  omega

/-- The window above the active one becomes active, and then the others from the bottom on. -/
theorem actives_focusNext (h : s.Listed) (ha : s.activeNormalWindow = some a)
    (hvisible : s.visibleWindows = P ++ a :: Q) (hfirst : Q ++ P = w :: R) :
    actives (fun s => s.focusNext.2) s.visibleWindows.length s =
      (w :: s.visibleWindows.erase w).map some := by
  have hw := mem_others hvisible (hfirst ▸ mem_cons_self)
  have htopped := raised_topped h hw
  rw [← append_nil (s.visibleWindows.erase w)] at htopped
  rw [length_erase hw, actives, map_cons, focusNext_eq h ha hvisible hfirst, htopped.actives_next]
  rfl

/-- With more than one window above the active one, the last to become active is the top one. -/
theorem last_active_iff (hnodup : (P ++ a :: Q).Nodup) (hfirst : Q ++ P = w :: R) :
    (w :: (P ++ a :: Q).erase w).getLast? = some a ↔ Q.length ≤ 1 := by
  cases Q with
  | nil =>
    obtain rfl : P = w :: R := hfirst
    refine iff_of_true ?_ (Nat.zero_le 1)
    rw [cons_append, erase_cons_head, ← cons_append, getLast?_concat]
  | cons q Q =>
    obtain ⟨rfl, -⟩ := cons_eq_cons.mp hfirst
    have hnot : q ∉ P := fun hq =>
      (nodup_append.mp hnodup).2.2 q hq q (mem_cons_of_mem _ mem_cons_self) rfl
    obtain ⟨ha, hQ⟩ := nodup_cons.mp (nodup_append.mp hnodup).2.1
    have hqa : a ≠ q := fun e => ha (e ▸ mem_cons_self)
    rw [erase_append_right _ hnot, erase_cons_tail (by simpa using hqa),
      erase_cons_head, getLast?_cons_of_ne_nil (by simp), getLast?_append_cons]
    cases Q with
    | nil => exact iff_of_true rfl (Nat.le_refl 1)
    | cons q' Q =>
      refine iff_of_false (fun hlast => ha ?_) (by simp)
      rw [getLast?_cons_of_ne_nil (cons_ne_nil _ _)] at hlast
      exact mem_cons_of_mem _ (mem_of_getLast? hlast)

/-- Upwards every visible window becomes active once, and the first one is the last one if at
most one window is above it. -/
theorem cycles_next_iff (h : s.Listed) (ha : s.activeNormalWindow = some a)
    (hcount : 2 ≤ s.visibleWindows.length) :
    s.Cycles (fun s => s.focusNext.2) ↔
      s.visibleWindows.length ≤ s.visibleWindows.idxOf a + 2 := by
  obtain ⟨P, Q, hvisible, hne⟩ := exists_others h ha hcount
  obtain ⟨w, R, hfirst⟩ := exists_cons_of_ne_nil hne
  have hw := mem_others hvisible (hfirst ▸ mem_cons_self)
  have hactives := actives_focusNext h ha hvisible hfirst
  have hlast := actives_getLast (fun s => s.focusNext.2) (s.visibleWindows.erase w).length s
  rw [← length_erase hw, hactives, getLast?_map] at hlast
  have hperm : ((w :: s.visibleWindows.erase w).map some).Perm (s.visibleWindows.map some) :=
    (perm_cons_erase hw).symm.map some
  have hnodup := h.visible_nodup
  have hend : ((fun s => s.focusNext.2)^[s.visibleWindows.length] s).activeNormalWindow =
      s.activeNormalWindow ↔ (w :: s.visibleWindows.erase w).getLast? = some a := by
    rw [ha]
    obtain ⟨v, hv, hlast⟩ := Option.map_eq_some_iff.mp hlast
    rw [← hlast, hv]
  unfold Cycles
  rw [hactives, hend, and_iff_right hperm]
  rw [hvisible] at hnodup ⊢
  have hbelow : a ∉ P := fun hmem =>
    (nodup_append.mp hnodup).2.2 a hmem a mem_cons_self rfl
  rw [last_active_iff hnodup hfirst, idxOf_append_of_notMem hbelow, idxOf_cons_self,
    length_append, length_cons]
  omega

/-- Downwards the calls go to and fro between two windows. -/
theorem cycles_previous_iff (h : s.Listed) (ha : s.activeNormalWindow = some a)
    (hcount : 2 ≤ s.visibleWindows.length) :
    s.Cycles (fun s => s.focusPrevious.2) ↔ s.visibleWindows.length = 2 := by
  obtain ⟨P, Q, hvisible, hne⟩ := exists_others h ha hcount
  obtain ⟨R, w, hlast⟩ := (eq_nil_or_concat' (Q ++ P)).resolve_left hne
  have hother : w ∈ Q ++ P := hlast ▸ mem_append_right _ (mem_singleton_self w)
  have hw := mem_others hvisible hother
  have hrest : s.visibleWindows.erase w ≠ [] := by
    intro hnil
    have hlength := length_erase hw
    rw [hnil, length_nil] at hlength
    omega
  obtain ⟨S, x, hS⟩ := (eq_nil_or_concat' (s.visibleWindows.erase w)).resolve_left hrest
  have hfirst : s.focusPrevious.2.Topped (S ++ [x]) w := by
    rw [focusPrevious_eq h ha hvisible hlast, ← hS]
    exact raised_topped h hw
  have hsecond := hfirst.previous
  have hlength : s.visibleWindows.length = S.length + 2 := by
    rw [length_erase hw, hS, length_append, length_singleton]
  have hperm := (perm_cons_erase hw).symm.map some
  rw [hS] at hperm
  unfold Cycles
  constructor
  · -- the third call goes back to the window of the first one
    rintro ⟨hcycle, -⟩
    rcases Nat.eq_zero_or_pos S.length with hzero | hpos
    · rw [hlength, hzero]
    · have hnodup := hcycle.nodup_iff.mpr (h.visible_nodup.map fun _ _ => Option.some.inj)
      obtain ⟨m, hm⟩ : ∃ m, s.visibleWindows.length = m + 3 := ⟨S.length - 1, by omega⟩
      rw [hm, actives, actives, actives, hfirst.active, hsecond.previous.active] at hnodup
      exact absurd (mem_cons_of_mem _ mem_cons_self) (nodup_cons.mp hnodup).1
  · intro htwo
    obtain rfl : S = [] := length_eq_zero_iff.mp (by omega)
    have hax : a = x := by
      have hmem : a ∈ s.visibleWindows.erase w :=
        (mem_erase_of_ne (others_ne h hvisible hother).symm).mpr (h.active_mem ha)
      rw [hS] at hmem
      exact mem_singleton.mp hmem
    rw [htwo, actives, actives, actives, hfirst.active, hsecond.active]
    refine ⟨hperm, ?_⟩
    show s.focusPrevious.2.focusPrevious.2.activeNormalWindow = _
    rw [hsecond.active, ha, hax]

/-- Both go through the windows and come back if there are two of them, and only then. -/
theorem cycles_iff (h : s.Listed) (ha : s.activeNormalWindow = some a)
    (hcount : 2 ≤ s.visibleWindows.length) :
    s.Cycles (fun s => s.focusNext.2) ∧ s.Cycles (fun s => s.focusPrevious.2) ↔
      s.visibleWindows.length = 2 := by
  rw [cycles_next_iff h ha hcount, cycles_previous_iff h ha hcount]
  refine and_iff_right_of_imp fun htwo => ?_
  rw [htwo]
  exact Nat.le_add_left 2 _

/-- With a new normal window. -/
def withWindow (s : Registry Nat) (w : Nat) : Registry Nat := (s.create w 0 0 8 8 .normal true).2

def twoWindows : Registry Nat := (start.withWindow 0).withWindow 1

def threeWindows : Registry Nat := twoWindows.withWindow 2

theorem twoWindows_listed : twoWindows.Listed := create_listed (create_listed start_listed rfl) rfl

theorem threeWindows_listed : threeWindows.Listed := create_listed twoWindows_listed rfl

theorem cycles_iff_twoWindows :
    twoWindows.Cycles (fun s => s.focusNext.2) ∧ twoWindows.Cycles fun s => s.focusPrevious.2 :=
  (cycles_iff twoWindows_listed rfl (Nat.le_refl 2)).mpr rfl

/-- Of three windows, the calls for the previous one leave out the first. -/
theorem threeWindows_not_cycles :
    threeWindows.Listed ∧ threeWindows.activeNormalWindow = some 2 ∧
    threeWindows.visibleWindows = [0, 1, 2] ∧
    actives (fun s => s.focusPrevious.2) 3 threeWindows = [some 1, some 2, some 1] ∧
    ¬threeWindows.Cycles fun s => s.focusPrevious.2 := by
  refine ⟨threeWindows_listed, rfl, rfl, rfl, fun h => ?_⟩
  have hnodup := h.1.nodup_iff.mpr (threeWindows_listed.visible_nodup.map fun _ _ => Option.some.inj)
  exact absurd hnodup (by decide)

end MeatySkeleton.Gui.Registry
