import Mathlib.Algebra.Group.Nat.Defs
import Mathlib.Data.List.Basic

/-!
# Runs of a labelled step function

A system is a partial step function `step : σ → ℓ → Option σ`: `none` when the
action named by the label cannot be taken in the state. `RunWhere step ok s ls t`
says that the actions `ls`, taken one after the other from `s`, lead to `t` and
that each of them met `ok` in the state it was taken in. With `ok` always true
this is a plain run (`Run`).

`RunWhere.invariant` is the induction every safety result of such a system goes
through: what holds at the start and is kept by each step that meets `ok` holds
in every state the run passes.
-/

namespace MeatySkeleton.Lib

variable {σ ℓ : Type}

/-- A run whose every action met `ok` in the state it was taken in. -/
inductive RunWhere (step : σ → ℓ → Option σ) (ok : σ → ℓ → Prop) (s : σ) : List ℓ → σ → Prop
  | nil : RunWhere step ok s [] s
  | snoc {ls : List ℓ} {t u : σ} {l : ℓ} : RunWhere step ok s ls t → ok t l → step t l = some u →
      RunWhere step ok s (ls ++ [l]) u

/-- A run with no condition on its actions. -/
abbrev Run (step : σ → ℓ → Option σ) (s : σ) : List ℓ → σ → Prop :=
  RunWhere step (fun _ _ => True) s

variable {step : σ → ℓ → Option σ} {ok : σ → ℓ → Prop} {s t : σ} {ls : List ℓ}

theorem RunWhere.invariant {I : σ → Prop} (hr : RunWhere step ok s ls t) (h0 : I s)
    (hstep : ∀ t l u, I t → ok t l → step t l = some u → I u) : I t := by
  induction hr with
  | nil => exact h0
  | snoc _ hok hs ih => exact hstep _ _ _ ih hok hs

theorem RunWhere.mono {ok' : σ → ℓ → Prop} (hr : RunWhere step ok s ls t)
    (h : ∀ t l, ok t l → ok' t l) : RunWhere step ok' s ls t := by
  induction hr with
  | nil => exact .nil
  | snoc _ hok hs ih => exact .snoc ih (h _ _ hok) hs

/-- Conditions that agree wherever the runs go. -/
theorem RunWhere.congr {ok' : σ → ℓ → Prop} {I : σ → Prop} (h0 : I s)
    (hstep : ∀ t l u, I t → ok t l → step t l = some u → I u)
    (hiff : ∀ t l, I t → (ok t l ↔ ok' t l)) :
    RunWhere step ok s ls t ↔ RunWhere step ok' s ls t := by
  have hinv : ∀ {ls : List ℓ} {t : σ}, RunWhere step ok s ls t → I t :=
    fun hr => hr.invariant h0 hstep
  constructor
  · intro hr
    induction hr with
    | nil => exact .nil
    | snoc hrest hok hs ih => exact .snoc ih ((hiff _ _ (hinv hrest)).mp hok) hs
  · intro hr
    induction hr with
    | nil => exact .nil
    | snoc _ hok hs ih => exact .snoc ih ((hiff _ _ (hinv ih)).mpr hok) hs

/-- Take the actions one after the other, as long as each meets `ok`. -/
def exec (step : σ → ℓ → Option σ) (ok : σ → ℓ → Prop) [∀ s l, Decidable (ok s l)] :
    σ → List ℓ → Option σ
  | s, [] => some s
  | s, l :: ls => if ok s l then (step s l).bind fun s' => exec step ok s' ls else none

theorem RunWhere.cons {l : ℓ} {u : σ} (hok : ok s l) (hs : step s l = some u)
    (hr : RunWhere step ok u ls t) : RunWhere step ok s (l :: ls) t := by
  induction hr with
  | nil =>
    change RunWhere step ok s ([] ++ [l]) u
    exact .snoc .nil hok hs
  | snoc _ hok' hs' ih =>
    rw [← List.cons_append]
    exact .snoc ih hok' hs'

/-- An executed list of actions is a run. -/
theorem run_of_exec [∀ s l, Decidable (ok s l)] :
    ∀ {ls : List ℓ} {s : σ}, exec step ok s ls = some t → RunWhere step ok s ls t
  | [], s, h => by
    obtain rfl : s = t := Option.some.inj h
    exact .nil
  | l :: ls, s, h => by
    rw [exec, Option.ite_none_right_eq_some] at h
    obtain ⟨hok, h⟩ := h
    obtain ⟨u, hu, hrest⟩ := Option.bind_eq_some_iff.mp h
    exact (run_of_exec hrest).cons hok hu

/-- The actions are executed and the state they lead to is looked at. -/
theorem exists_exec [∀ s l, Decidable (ok s l)] {Q : σ → Prop} (P : σ → Prop) [DecidablePred P]
    (h : (exec step ok s ls).any (fun t => decide (P t)) = true)
    (hQ : ∀ t, RunWhere step ok s ls t → P t → Q t) : ∃ t, exec step ok s ls = some t ∧ Q t := by
  obtain ⟨t, ht, hP⟩ := (Option.any_eq_true _ _).mp h
  exact ⟨t, ht, hQ t (run_of_exec ht) (of_decide_eq_true hP)⟩

theorem exists_run [∀ s l, Decidable (ok s l)] {Q : σ → Prop} (P : σ → Prop) [DecidablePred P]
    (h : (exec step ok s ls).any (fun t => decide (P t)) = true)
    (hQ : ∀ t, RunWhere step ok s ls t → P t → Q t) : ∃ t, RunWhere step ok s ls t ∧ Q t := by
  obtain ⟨t, ht, hP⟩ := (Option.any_eq_true _ _).mp h
  have hrun := run_of_exec ht
  exact ⟨t, hrun, hQ t hrun (of_decide_eq_true hP)⟩

end MeatySkeleton.Lib
