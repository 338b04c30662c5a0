import MeatySkeleton.Gui.Window
import MeatySkeleton.Lib.Run
import Mathlib.Data.List.Find
import Mathlib.Data.List.Nodup

/-!
# The registry of normal windows

Over every sequence of calls the registry lists the live normal windows, each once, and the
active window is a visible one of them. That there is an active window whenever a normal
window is visible fails in one place: `gui_window_set_visible` does not make a window active
that it shows, as `gui_window_create` does. It holds in the runs where no window is shown
while none is active.
-/

namespace MeatySkeleton.Gui.Registry

open Function List Lib

variable {W : Type} [DecidableEq W] {s s' : Registry W} {v w : W}

/-- Created as a normal window and not yet destroyed. -/
def LiveNormal (s : Registry W) (w : W) : Prop :=
  (s.windows w).surface ≠ none ∧ (s.windows w).zClass = .normal

def Visible (s : Registry W) (w : W) : Prop := s.LiveNormal w ∧ (s.windows w).visible = true

/-- The registry lists the live normal windows. -/
structure Tracked (s : Registry W) : Prop where
  entries : ∀ w, w ∈ s.normalWindows ↔ s.LiveNormal w
  nodup : s.normalWindows.Nodup
  count : s.normalWindows.length ≤ normalWindowCapacity

/-- And the active window is a visible one. -/
structure Listed (s : Registry W) : Prop extends Tracked s where
  active : ∀ w, s.activeNormalWindow = some w → s.Visible w

/-- Some window is active if a normal window is visible. -/
def Elected (s : Registry W) : Prop := (∃ w, s.Visible w) → s.activeNormalWindow ≠ none

/-! ## Writing to a window -/

theorem put_self (s : Registry W) (w : W) (a : Window) : (s.put w a).windows w = a :=
  update_self ..

theorem put_ne (s : Registry W) (a : Window) (h : v ≠ w) :
    (s.put w a).windows v = s.windows v :=
  update_of_ne h ..

theorem put_put (s : Registry W) (w : W) (a b : Window) : (s.put w a).put w b = s.put w b := by
  unfold put
  rw [update_idem]

theorem liveNormal_put_ne (a : Window) (h : v ≠ w) : (s.put w a).LiveNormal v ↔ s.LiveNormal v := by
  unfold LiveNormal
  rw [put_ne s a h]

theorem visible_put_ne (a : Window) (h : v ≠ w) : (s.put w a).Visible v ↔ s.Visible v := by
  unfold Visible
  rw [liveNormal_put_ne a h, put_ne s a h]

variable {a : Window}

/-- A write that does not make the window a live normal one, or another. -/
theorem Tracked.put (h : s.Tracked)
    (ha : (s.put w a).LiveNormal w ↔ s.LiveNormal w) : (s.put w a).Tracked := by
  refine ⟨fun v => ?_, h.nodup, h.count⟩
  rw [show (s.put w a).normalWindows = s.normalWindows from rfl, h.entries v]
  by_cases hv : v = w
  · rw [hv, ha]
  · rw [liveNormal_put_ne a hv]

/-- A write to a window that is no live normal one, before or after. -/
theorem Listed.put (h : s.Listed) (hw : ¬s.LiveNormal w)
    (ha : ¬(s.put w a).LiveNormal w) : (s.put w a).Listed := by
  refine ⟨h.toTracked.put (iff_of_false ha hw), fun v hv => ?_⟩
  have hvisible := h.active v hv
  have hne : v ≠ w := fun e => hw (e ▸ hvisible.1)
  exact (visible_put_ne a hne).mpr hvisible

theorem Elected.put (h : s.Elected) (ha : ¬(s.put w a).Visible w) :
    (s.put w a).Elected := by
  intro ⟨v, hv⟩
  have hne : v ≠ w := fun e => ha (e ▸ hv)
  exact h ⟨v, (visible_put_ne a hne).mp hv⟩

theorem not_liveNormal_zero : ¬(s.put w .zero).LiveNormal w := by
  intro h
  rw [LiveNormal, put_self] at h
  exact h.1 rfl

/-! ## The active window -/

omit [DecidableEq W] in
theorem elect_visible (h : s.Tracked) (he : s.elect = some w) : s.Visible w := by
  have hw := mem_of_find?_eq_some he
  have hvisible : (s.windows w).visible = true := by
    apply find?_some (p := fun w => (s.windows w).visible) he
  exact ⟨(h.entries w).mp (mem_reverse.mp hw), hvisible⟩

omit [DecidableEq W] in
theorem elect_none (h : s.Tracked) (he : s.elect = none) : ¬s.Visible w := by
  intro hw
  have hmem := (h.entries w).mpr hw.1
  exact find?_eq_none.mp he w (mem_reverse.mpr hmem) hw.2

theorem resign_listed (h : s.Tracked)
    (hactive : ∀ v, s.activeNormalWindow = some v → v ≠ w → s.Visible v) :
    (s.resign w).Listed := by
  unfold resign
  split
  next =>
    refine ⟨⟨h.entries, h.nodup, h.count⟩, fun v hv => ?_⟩
    exact elect_visible (s := s) h hv
  next hw => exact ⟨h, fun v hv => hactive v hv fun e => hw (e ▸ hv)⟩

theorem resign_elected (h : s.Tracked) (he : s.activeNormalWindow ≠ some w → s.Elected) :
    (s.resign w).Elected := by
  unfold resign
  split
  next => exact fun ⟨v, hv⟩ hnone => elect_none h hnone hv
  next hw => exact he hw

/-- The election does not look at a window that is not listed. -/
theorem resign_put (a : Window) (hw : w ∉ s.normalWindows) :
    (s.resign w).put w a = (s.put w a).resign w := by
  have helect : (s.put w a).elect = s.elect := by
    refine find?_congr fun v hv => ?_
    have hne : v ≠ w := ne_of_mem_of_not_mem (mem_reverse.mp hv) hw
    rw [put_ne s a hne]
  unfold resign
  rw [helect]
  split
  next h => rw [if_pos (show (s.put w a).activeNormalWindow = _ from h)]; rfl
  next h => rw [if_neg (show (s.put w a).activeNormalWindow ≠ _ from h)]

/-! ## Lifecycle -/

/-- A window made from a dead one and put on the top. -/
theorem Listed.push (h : s.Listed) (hw : ¬s.LiveNormal w)
    (hcount : s.normalWindows.length < normalWindowCapacity)
    (ha : (s.put w a).Visible w) :
    Listed { s.put w a with
      normalWindows := s.normalWindows ++ [w], activeNormalWindow := some w } := by
  have hmem : w ∉ s.normalWindows := fun hmem => hw ((h.entries w).mp hmem)
  refine ⟨⟨fun v => ?_, ?_, ?_⟩, fun v hv => ?_⟩
  · show v ∈ s.normalWindows ++ [w] ↔ (s.put w a).LiveNormal v
    rw [mem_append, mem_singleton, h.entries v]
    by_cases hv : v = w
    · rw [hv]
      exact iff_of_true (.inr rfl) ha.1
    · rw [liveNormal_put_ne a hv]
      exact or_iff_left hv
  · exact List.Nodup.append h.nodup (nodup_singleton w) (disjoint_singleton.mpr hmem)
  · show (s.normalWindows ++ [w]).length ≤ _
    rw [length_append, length_singleton]
    exact hcount
  · obtain rfl := Option.some.inj hv
    exact ha

variable {x y : Int} {width height : Nat} {zClass : ZClass} {allocated : Bool}

/-- What a call of `gui_window_create` for a dead window can do. -/
theorem create_cases (s : Registry W) (w : W) :
    (s.create w x y width height zClass allocated).2 = s ∨
    (s.create w x y width height zClass allocated).2 = s.put w .zero ∨
    ∃ surface, (zClass ≠ .normal ∧ (s.create w x y width height zClass allocated).2 =
        s.put w ⟨x, y, zClass, true, some surface⟩) ∨
      (zClass = .normal ∧ s.normalWindows.length < normalWindowCapacity ∧
        (s.create w x y width height zClass allocated).2 =
          { s.put w ⟨x, y, zClass, true, some surface⟩ with
            normalWindows := s.normalWindows ++ [w], activeNormalWindow := some w }) := by
  unfold create
  split
  next => exact .inl rfl
  next =>
    split
    next => exact .inr (.inl rfl)
    next surface _ =>
      right
      unfold registryAdd
      rw [put_self]
      by_cases hz : zClass = .normal
      · rw [if_neg (not_not_intro hz)]
        by_cases hfull : normalWindowCapacity ≤ s.normalWindows.length
        · left
          rw [if_pos (show normalWindowCapacity ≤ (s.put w _).normalWindows.length from hfull)]
          exact put_put ..
        · right
          rw [if_neg (show ¬normalWindowCapacity ≤ (s.put w _).normalWindows.length from hfull)]
          exact ⟨surface, .inr ⟨hz, Nat.lt_of_not_le hfull, rfl⟩⟩
      · rw [if_pos hz]
        exact .inr ⟨surface, .inl ⟨hz, rfl⟩⟩

theorem create_listed (h : s.Listed) (hw : (s.windows w).surface = none) :
    (s.create w x y width height zClass allocated).2.Listed := by
  have hdead : ¬s.LiveNormal w := fun hlive => hlive.1 hw
  obtain he | he | ⟨surface, ⟨hz, he⟩ | ⟨hz, hcount, he⟩⟩ :=
    create_cases (x := x) (y := y) s w
  all_goals rw [he]
  · exact h
  · exact h.put hdead not_liveNormal_zero
  · refine h.put hdead fun hlive => hz ?_
    rw [LiveNormal, put_self] at hlive
    exact hlive.2
  · refine h.push hdead hcount ?_
    rw [Visible, LiveNormal, put_self]
    exact ⟨⟨nofun, hz⟩, rfl⟩

theorem create_elected (he : s.Elected) :
    (s.create w x y width height zClass allocated).2.Elected := by
  obtain h | h | ⟨surface, ⟨hz, h⟩ | ⟨-, -, h⟩⟩ := create_cases (x := x) (y := y) s w
  all_goals rw [h]
  · exact he
  · exact he.put fun hv => not_liveNormal_zero hv.1
  · refine he.put fun hv => hz ?_
    rw [Visible, LiveNormal, put_self] at hv
    exact hv.1.2
  · exact fun _ => nofun

/-- Without a window that is destroyed. -/
def unlisted (s : Registry W) (w : W) : Registry W :=
  { s.put w .zero with normalWindows := s.normalWindows.erase w }

theorem destroy_eq (h : s.Tracked) (w : W) : s.destroy w =
    if w ∈ s.normalWindows then (s.unlisted w).resign w else s.put w .zero := by
  unfold destroy registryRemove
  split
  next =>
    have hw : w ∉ s.normalWindows.erase w := h.nodup.not_mem_erase
    exact resign_put (s := { s with normalWindows := s.normalWindows.erase w }) .zero hw
  next => rfl

theorem unlisted_tracked (h : s.Tracked) (w : W) : (s.unlisted w).Tracked := by
  refine ⟨fun v => ?_, h.nodup.erase w, length_erase_le.trans h.count⟩
  show v ∈ s.normalWindows.erase w ↔ (s.put w .zero).LiveNormal v
  rw [h.nodup.mem_erase_iff, h.entries v]
  by_cases hv : v = w
  · rw [hv]
    exact iff_of_false (fun hmem => hmem.1 rfl) not_liveNormal_zero
  · rw [liveNormal_put_ne _ hv]
    exact and_iff_right hv

theorem destroy_listed (h : s.Listed) (w : W) : (s.destroy w).Listed := by
  rw [destroy_eq h.toTracked]
  split
  next =>
    refine resign_listed (unlisted_tracked h.toTracked w) fun v hv hne => ?_
    exact (visible_put_ne _ hne).mpr (h.active v hv)
  next hmem => exact h.put (fun hlive => hmem ((h.entries w).mpr hlive)) not_liveNormal_zero

theorem destroy_elected (h : s.Tracked) (he : s.Elected) (w : W) : (s.destroy w).Elected := by
  have hzero : (s.put w .zero).Elected := he.put fun hv => not_liveNormal_zero hv.1
  rw [destroy_eq h]
  split
  next => exact resign_elected (unlisted_tracked h w) fun _ => hzero
  next => exact hzero

/-! ## Showing and hiding -/

/-- A window with its flag written. -/
def shown (s : Registry W) (w : W) (visible : Bool) : Registry W :=
  s.put w { s.windows w with visible }

variable {visible : Bool}

theorem setVisible_eq (s : Registry W) (w : W) (visible : Bool) : s.setVisible w visible =
    if visible = true ∨ (s.windows w).zClass ≠ .normal then s.shown w visible
    else (s.shown w visible).resign w := by
  unfold setVisible shown
  simp only [put_self, Bool.or_eq_true, decide_eq_true_eq]

theorem liveNormal_shown : (s.shown w visible).LiveNormal v ↔ s.LiveNormal v := by
  by_cases hv : v = w
  · rw [hv, LiveNormal, shown, put_self]
    rfl
  · exact liveNormal_put_ne _ hv

theorem shown_tracked (h : s.Tracked) : (s.shown w visible).Tracked := h.put liveNormal_shown

theorem visible_shown : (s.shown w visible).Visible w ↔ s.LiveNormal w ∧ visible = true := by
  rw [Visible, liveNormal_shown, shown, put_self]

theorem setVisible_listed (h : s.Listed) : (s.setVisible w visible).Listed := by
  have hactive : ∀ v, s.activeNormalWindow = some v → v ≠ w → (s.shown w visible).Visible v :=
    fun v hv hne => (visible_put_ne _ hne).mpr (h.active v hv)
  rw [setVisible_eq]
  split
  next hkeep =>
    refine ⟨shown_tracked h.toTracked, fun v hv => ?_⟩
    by_cases hne : v = w
    · have hlive := (h.active v hv).1
      rw [hne] at hlive ⊢
      exact visible_shown.mpr ⟨hlive, hkeep.resolve_right (not_not_intro hlive.2)⟩
    · exact hactive v hv hne
  next => exact resign_listed (shown_tracked h.toTracked) hactive

theorem setVisible_elected (h : s.Listed) (he : s.Elected) : (s.setVisible w visible).Elected ↔
    (visible = true → s.LiveNormal w → s.activeNormalWindow ≠ none) := by
  rw [setVisible_eq]
  constructor
  · intro helected hvisible hlive
    rw [if_pos (.inl hvisible)] at helected
    exact helected ⟨w, visible_shown.mpr ⟨hlive, hvisible⟩⟩
  · intro hshow
    have helected : (s.shown w visible).Elected := by
      intro ⟨v, hv⟩
      by_cases hne : v = w
      · obtain ⟨hlive, hvisible⟩ := visible_shown.mp (hne ▸ hv)
        exact hshow hvisible hlive
      · exact he ⟨v, (visible_put_ne _ hne).mp hv⟩
    split
    next => exact helected
    next => exact resign_elected (shown_tracked h.toTracked) fun _ => helected

/-! ## Focus -/

/-- The windows are permuted and a visible one becomes active, or nothing changes. -/
def Refocused (s s' : Registry W) : Prop :=
  s' = s ∨ ∃ w, ∃ l : List W, l.Perm s.normalWindows ∧ w ∈ l ∧ (s.windows w).visible = true ∧
    s' = { s with normalWindows := l, activeNormalWindow := some w }

omit [DecidableEq W] in
theorem Listed.refocused (h : s.Listed) (hs : Refocused s s') : s'.Listed := by
  obtain rfl | ⟨w, l, hperm, hw, hvisible, rfl⟩ := hs
  · exact h
  · refine ⟨⟨fun v => ?_, hperm.nodup_iff.mpr h.nodup, ?_⟩, fun v hv => ?_⟩
    · exact hperm.mem_iff.trans (h.entries v)
    · exact hperm.length_eq.le.trans h.count
    · obtain rfl := Option.some.inj hv
      exact ⟨(h.entries w).mp (hperm.mem_iff.mp hw), hvisible⟩

omit [DecidableEq W] in
theorem Elected.refocused (he : s.Elected) (hs : Refocused s s') : s'.Elected := by
  obtain rfl | ⟨w, l, -, -, -, rfl⟩ := hs
  · exact he
  · exact fun _ => nofun

theorem eraseIdx_append_perm {l : List W} {i : Nat} (h : l[i]? = some w) :
    (l.eraseIdx i ++ [w]).Perm l := by
  obtain ⟨hi, rfl⟩ := List.getElem?_eq_some_iff.mp h
  have hfront : (l[i] :: l.eraseIdx i).Perm (l[i] :: l.erase l[i]) :=
    (erase_getElem hi).symm.cons _
  refine perm_append_comm.trans (hfront.trans ?_)
  exact (perm_cons_erase (getElem_mem hi)).symm

theorem focusIndexLocked_refocused (s : Registry W) (i : Nat) :
    Refocused s (s.focusIndexLocked i).2 := by
  unfold focusIndexLocked
  split
  next => exact .inl rfl
  next w hw =>
    split
    next => exact .inl rfl
    next hvisible =>
      split
      next => exact .inl rfl
      next =>
        rw [Bool.not_eq_true, Bool.not_eq_false'] at hvisible
        exact .inr ⟨w, _, eraseIdx_append_perm hw, mem_append_right _ mem_cons_self, hvisible, rfl⟩

theorem focusIndexLocked_unchanged {i : Nat} (h : (s.focusIndexLocked i).1 = false) :
    (s.focusIndexLocked i).2 = s := by
  unfold focusIndexLocked at h ⊢
  split
  next => rfl
  next w hw =>
    rw [hw] at h
    dsimp only at h
    split
    next => rfl
    next hvisible =>
      rw [if_neg hvisible] at h
      split
      next => rfl
      next hbelow =>
        rw [if_neg hbelow] at h
        cases h

theorem focusCandidate_unchanged {candidate : Nat → Nat}
    (h : (s.focusCandidate candidate).1 = false) : (s.focusCandidate candidate).2 = s := by
  unfold focusCandidate at h ⊢
  split
  next => rfl
  next hcount =>
    rw [if_neg hcount] at h
    exact focusIndexLocked_unchanged h

theorem focus_refocused (s : Registry W) (w : W) : Refocused s (s.focus w).2 := by
  unfold focus
  split
  · exact .inl rfl
  · exact focusIndexLocked_refocused s _

theorem focusCandidate_refocused (s : Registry W) (candidate : Nat → Nat) :
    Refocused s (s.focusCandidate candidate).2 := by
  unfold focusCandidate
  split
  · exact .inl rfl
  · exact focusIndexLocked_refocused s _

/-! ## Runs -/

/-- A window is created when it is not live only. -/
def Dead (s : Registry W) : Op W → Prop
  | .create window .. => (s.windows window).surface = none
  | _ => True

/-- No normal window is shown while none is active. -/
def ShowsActive (s : Registry W) : Op W → Prop
  | .setVisible window true => s.LiveNormal window → s.activeNormalWindow ≠ none
  | _ => True

theorem call_listed (h : s.Listed) {op : Op W} (hop : s.Dead op) : (s.call op).Listed := by
  cases op with
  | create => exact create_listed h hop
  | destroy w => exact destroy_listed h w
  | setVisible => exact setVisible_listed h
  | focus w => exact h.refocused (focus_refocused s w)
  | focusAtPoint => exact h.refocused (focusIndexLocked_refocused s _)
  | focusNext | focusPrevious => exact h.refocused (focusCandidate_refocused s _)

theorem call_elected (h : s.Listed) (he : s.Elected) (op : Op W) :
    (s.call op).Elected ↔ s.ShowsActive op := by
  cases op with
  | create => exact iff_of_true (create_elected he) trivial
  | destroy w => exact iff_of_true (destroy_elected h.toTracked he w) trivial
  | setVisible w visible =>
    refine (setVisible_elected h he).trans ?_
    cases visible with
    | true => exact ⟨fun hshow => hshow rfl, fun hshow _ => hshow⟩
    | false => exact iff_of_true nofun trivial
  | focus w => exact iff_of_true (he.refocused (focus_refocused s w)) trivial
  | focusAtPoint => exact iff_of_true (he.refocused (focusIndexLocked_refocused s _)) trivial
  | focusNext | focusPrevious =>
    exact iff_of_true (he.refocused (focusCandidate_refocused s _)) trivial

omit [DecidableEq W] in
theorem start_listed : (start : Registry W).Listed := by
  refine ⟨⟨fun w => ?_, nodup_nil, Nat.zero_le _⟩, nofun⟩
  exact iff_of_false not_mem_nil fun h => h.1 rfl

omit [DecidableEq W] in
theorem start_elected : (start : Registry W).Elected := fun ⟨_, h⟩ => absurd rfl h.1.1

/-- In every run whose calls create dead windows only, the registry lists the live normal
windows and the active one is visible. -/
theorem run_listed {ops : List (Op W)} (hr : RunWhere step Dead start ops s) : s.Listed := by
  refine hr.invariant start_listed fun t op u ht hop hu => ?_
  obtain rfl := Option.some.inj hu
  exact call_listed ht hop

/-- While no window is shown when none is active, a window is active whenever one is visible;
the next call keeps this exactly if it is not such a call either. -/
theorem run_elected {ops : List (Op W)}
    (hr : RunWhere step (fun s op => s.Dead op ∧ s.ShowsActive op) start ops s) :
    s.Listed ∧ s.Elected ∧ ∀ op, s.Dead op → ((s.call op).Elected ↔ s.ShowsActive op) := by
  have hlisted := run_listed (hr.mono fun _ _ h => h.1)
  have hboth : s.Listed ∧ s.Elected := by
    refine hr.invariant (I := fun s => s.Listed ∧ s.Elected) ⟨start_listed, start_elected⟩ ?_
    intro t op u ht hop hu
    obtain rfl := Option.some.inj hu
    exact ⟨call_listed ht.1 hop.1, (call_elected ht.1 ht.2 op).mpr hop.2⟩
  exact ⟨hlisted, hboth.2, fun op _ => call_elected hlisted hboth.2 op⟩

/-- Two windows are created, hidden and destroyed in turn. -/
theorem run_elected_two_windows :
    (call (call (call start (.create 0 0 0 8 8 .normal true)) (.create 1 4 4 8 8 .normal true))
      (.setVisible 1 false) : Registry Nat).Elected := by
  have hr : RunWhere step (fun s op => s.Dead op ∧ s.ShowsActive op) (start : Registry Nat)
      [.create 0 0 0 8 8 .normal true, .create 1 4 4 8 8 .normal true, .setVisible 1 false]
      (call (call (call start (.create 0 0 0 8 8 .normal true))
        (.create 1 4 4 8 8 .normal true)) (.setVisible 1 false)) :=
    .cons ⟨rfl, trivial⟩ rfl (.cons ⟨rfl, trivial⟩ rfl (.cons ⟨trivial, trivial⟩ rfl .nil))
  exact (run_elected hr).2.1

/-- A window is created, hidden and shown: it is visible and none is active. -/
theorem setVisible_not_elected :
    RunWhere step Dead (start : Registry Nat)
      [.create 0 0 0 8 8 .normal true, .setVisible 0 false, .setVisible 0 true]
      (call (call (call start (.create 0 0 0 8 8 .normal true)) (.setVisible 0 false))
        (.setVisible 0 true)) ∧
    ¬(call (call (call start (.create 0 0 0 8 8 .normal true)) (.setVisible 0 false))
      (.setVisible 0 true) : Registry Nat).Elected := by
  refine ⟨.cons rfl rfl (.cons trivial rfl (.cons trivial rfl .nil)), fun h => h ⟨0, ?_⟩ rfl⟩
  exact ⟨⟨nofun, rfl⟩, rfl⟩

end MeatySkeleton.Gui.Registry
