import Mathlib.Algebra.Group.Nat.Defs

/-!
# Refinement of a component that answers calls

A component carries out a call in a state and answers it:
`step : σ → ℓ → Option (α × σ)`, with `none` for a fault. What it is for is said
by `effect : τ → ℓ → α → τ → Prop`, the answers and next states an abstract
object allows. `Refines` is the square of one call, for the states that meet an
invariant and the calls that meet `ok` there; `Refines.run` puts the squares of
a whole sequence of calls side by side.
-/

namespace MeatySkeleton.Lib

variable {σ τ ℓ α : Type}

/-- Carry out the calls one after the other and collect the answers. -/
def runAll (step : σ → ℓ → Option (α × σ)) : σ → List ℓ → Option (List α × σ)
  | s, [] => some ([], s)
  | s, l :: ls => do
    let (a, s) ← step s l
    let (as, s) ← runAll step s ls
    return (a :: as, s)

/-- Each call meets `ok` in the state it is made in. -/
def Admitted (step : σ → ℓ → Option (α × σ)) (ok : σ → ℓ → Prop) : σ → List ℓ → Prop
  | _, [] => True
  | s, l :: ls => ok s l ∧ ∀ a s', step s l = some (a, s') → Admitted step ok s' ls

theorem Admitted.cons {step : σ → ℓ → Option (α × σ)} {ok : σ → ℓ → Prop} {s s' : σ} {l : ℓ}
    {ls : List ℓ} {a : α} (hok : ok s l) (hstep : step s l = some (a, s'))
    (h : Admitted step ok s' ls) : Admitted step ok s (l :: ls) := by
  refine ⟨hok, fun b u hu => ?_⟩
  obtain ⟨-, rfl⟩ := Prod.mk.inj (Option.some.inj (hstep.symm.trans hu))
  exact h

/-- The abstract object gives these answers to these calls. -/
inductive Follows (effect : τ → ℓ → α → τ → Prop) : τ → List ℓ → List α → τ → Prop
  | nil {t : τ} : Follows effect t [] [] t
  | cons {t u v : τ} {l : ℓ} {a : α} {ls : List ℓ} {as : List α} : effect t l a u →
      Follows effect u ls as v → Follows effect t (l :: ls) (a :: as) v

/-- Each admitted call returns, keeps the invariant and is one of the abstract object. -/
def Refines (step : σ → ℓ → Option (α × σ)) (effect : τ → ℓ → α → τ → Prop) (I : σ → Prop)
    (ok : σ → ℓ → Prop) (view : σ → τ) : Prop :=
  ∀ s l, I s → ok s l → ∃ a s', step s l = some (a, s') ∧ I s' ∧ effect (view s) l a (view s')

variable {step : σ → ℓ → Option (α × σ)} {effect : τ → ℓ → α → τ → Prop} {I : σ → Prop}
  {ok : σ → ℓ → Prop} {view : σ → τ}

theorem Refines.run (h : Refines step effect I ok view) {ls : List ℓ} : ∀ {s : σ}, I s →
    Admitted step ok s ls →
    ∃ as s', runAll step s ls = some (as, s') ∧ I s' ∧ Follows effect (view s) ls as (view s') := by
  induction ls with
  | nil => exact fun {s} hs _ => ⟨[], s, rfl, hs, .nil⟩
  | cons l ls ih =>
    intro s hs hadm
    obtain ⟨hok, hrest⟩ := hadm
    obtain ⟨a, u, hu, hi, heff⟩ := h s l hs hok
    obtain ⟨as, v, hv, hi', hfollows⟩ := ih hi (hrest a u hu)
    refine ⟨a :: as, v, ?_, hi', .cons heff hfollows⟩
    rw [runAll, hu]
    show (runAll step u ls).bind _ = _
    rw [hv]
    rfl

end MeatySkeleton.Lib
