import Mathlib.Algebra.Group.Nat.Defs

/-!
# Stateful computations that fail or fault

A C function that reports failure keeps what it has changed by then (`failed`). A `fault`
is what the language does not define: a division by zero, an index out of bounds, a loop
that goes on for ever. `attempt` is a caller that goes on after a failure, and `zoom` runs a
computation on a part of the state.

`Meets P m Q E` says that from a state with `P` the computation does not fault, that `Q`
holds of its result and the state then, and `E` of the state in which it fails. `Keeps` is
the case of an invariant. `Ends` and `Stays` say the same of a computation that may fault. The
rules follow the shape of the program.
-/

namespace MeatySkeleton.Lib

variable {σ τ α β : Type}

/-- How a computation ends. -/
inductive Ending (σ α : Type) where
  | done (a : α) (s : σ)
  | failed (s : σ)
  | fault

def Ending.Meets (Q : α → σ → Prop) (E : σ → Prop) : Ending σ α → Prop
  | .done a s => Q a s
  | .failed s => E s
  | .fault => False

/-- The same for a computation that may fault. -/
def Ending.Ends (Q : α → σ → Prop) (E : σ → Prop) : Ending σ α → Prop
  | .done a s => Q a s
  | .failed s => E s
  | .fault => True

/-- Whether it is a result with that property, for evaluation. -/
def Ending.returns (p : α → σ → Bool) : Ending σ α → Bool
  | .done a s => p a s
  | .failed _ => false
  | .fault => false

/-- Whether it fails in a state with that property. -/
def Ending.fails (p : σ → Bool) : Ending σ α → Bool
  | .done _ _ => false
  | .failed s => p s
  | .fault => false

/-- The result and the state then, if there is one. -/
def Ending.result : Ending σ α → Option (α × σ)
  | .done a s => some (a, s)
  | .failed _ => none
  | .fault => none

variable {e : Ending σ α}

theorem Ending.result_eq_some {a : α} {s : σ} :
    e.result = some (a, s) ↔ e = .done a s := by
  cases e with
  | done b t =>
    constructor
    · intro h
      cases h
      rfl
    · intro h
      cases h
      rfl
  | failed t => exact ⟨nofun, nofun⟩
  | fault => exact ⟨nofun, nofun⟩

/-- Another state at the end. -/
def Ending.map (f : σ → τ) : Ending σ α → Ending τ α
  | .done a s => .done a (f s)
  | .failed s => .failed (f s)
  | .fault => .fault

theorem Ending.exists_done {p : α → σ → Bool} (h : e.returns p = true) :
    ∃ a s, e = .done a s ∧ p a s = true := by
  cases e with
  | done a s => exact ⟨a, s, rfl, h⟩
  | failed s => exact nomatch h
  | fault => exact nomatch h

theorem Ending.exists_failed {p : σ → Bool} (h : e.fails p = true) :
    ∃ s, e = .failed s ∧ p s = true := by
  cases e with
  | done a s => exact nomatch h
  | failed s => exact ⟨s, rfl, h⟩
  | fault => exact nomatch h

def Effect (σ α : Type) := σ → Ending σ α

namespace Effect

protected def bind (m : Effect σ α) (f : α → Effect σ β) : Effect σ β := fun s =>
  match m s with
  | .done a s => f a s
  | .failed s => .failed s
  | .fault => .fault

instance : Monad (Effect σ) where
  pure a := fun s => .done a s
  bind := Effect.bind

def fail : Effect σ α := .failed

def crash : Effect σ α := fun _ => .fault

def get : Effect σ σ := fun s => .done s s

def modify (f : σ → σ) : Effect σ Unit := fun s => .done () (f s)

/-- Fail unless the condition holds. -/
def require (c : Prop) [Decidable c] : Effect σ Unit := if c then pure () else fail

/-- Fault unless the condition holds. -/
def demand (c : Prop) [Decidable c] : Effect σ Unit := if c then pure () else crash

/-- An `if` without `else`. -/
def when (c : Prop) [Decidable c] (m : Effect σ Unit) : Effect σ Unit := if c then m else pure ()

/-- Go on after a failure. -/
def attempt (m : Effect σ α) : Effect σ (Option α) := fun s =>
  match m s with
  | .done a s => .done (some a) s
  | .failed s => .done none s
  | .fault => .fault

/-- Run on a part of the state. -/
def zoom (part : σ → τ) (replace : σ → τ → σ) (m : Effect τ α) : Effect σ α := fun s =>
  match m (part s) with
  | .done a t => .done a (replace s t)
  | .failed t => .failed (replace s t)
  | .fault => .fault

def Meets (P : σ → Prop) (m : Effect σ α) (Q : α → σ → Prop) (E : σ → Prop) : Prop :=
  ∀ s, P s → (m s).Meets Q E

/-- The invariant holds at the end, however the computation ends, and `Q` of its result. -/
def Keeps (I : σ → Prop) (m : Effect σ α) (Q : α → Prop) : Prop :=
  Meets I m (fun a s => I s ∧ Q a) I

variable {P P' I : σ → Prop} {m : Effect σ α} {f : α → Effect σ β} {Q Q' : α → σ → Prop}
  {R : β → σ → Prop} {E E' : σ → Prop} {c : Prop} [Decidable c]

theorem Meets.bind (hm : Meets P m Q E) (hf : ∀ a, Meets (Q a) (f a) R E) :
    Meets P (m >>= f) R E := by
  intro s hs
  have hs' := hm s hs
  show (Effect.bind m f s).Meets R E
  unfold Effect.bind
  generalize m s = e at hs' ⊢
  cases e with
  | done a t => exact hf a t hs'
  | failed t => exact hs'
  | fault => exact hs'

theorem Meets.mono (hm : Meets P m Q E) (hP : ∀ s, P' s → P s) (hQ : ∀ a s, Q a s → Q' a s)
    (hE : ∀ s, E s → E' s) : Meets P' m Q' E' := by
  intro s hs
  have hs' := hm s (hP s hs)
  generalize m s = e at hs' ⊢
  cases e with
  | done a t => exact hQ a t hs'
  | failed t => exact hE t hs'
  | fault => exact hs'

theorem Meets.require (hE : ∀ s, P s → E s)
    (h : c → Meets P (k ()) R E) : Meets P (require c >>= k) R E := by
  intro s hs
  show (Effect.bind (Effect.require c) k s).Meets R E
  unfold Effect.bind Effect.require
  by_cases hc : c
  · rw [if_pos hc]
    exact h hc s hs
  · rw [if_neg hc]
    exact hE s hs

/-- A computation after which every result satisfies `C`. -/
def After (m : Effect σ α) (C : α → σ → Prop) (s : σ) : Prop := ∀ a t, m s = .done a t → C a t

theorem Meets.after {C : α → σ → Prop} (hm : Meets P m Q E) :
    Meets (fun s => P s ∧ After m C s) m (fun a s => Q a s ∧ C a s) E := by
  intro s hs
  have hs' := hm s hs.1
  cases hend : m s with
  | done a t =>
    rw [hend] at hs'
    exact ⟨hs', hs.2 a t hend⟩
  | failed t =>
    rw [hend] at hs'
    exact hs'
  | fault =>
    rw [hend] at hs'
    exact hs'

theorem Meets.reached {s : σ} (hm : Meets P m Q E) (hs : P s) : After m Q s := by
  intro a t hend
  have hs' := hm s hs
  rw [hend] at hs'
  exact hs'

theorem Meets.attempt (hm : Meets P m (fun _ => I) I) : Meets P (attempt m) (fun _ => I) E := by
  intro s hs
  have hs' := hm s hs
  unfold Effect.attempt
  generalize m s = e at hs' ⊢
  cases e with
  | done a t => exact hs'
  | failed t => exact hs'
  | fault => exact hs'

theorem Meets.zoom {P : τ → Prop} {m : Effect τ α} {Q : α → τ → Prop} {E : τ → Prop}
    {part : σ → τ} {replace : σ → τ → σ} {s0 : σ} (hm : Meets P m Q E) (hs0 : P (part s0)) :
    Meets (fun s => s = s0) (zoom part replace m) (fun a s => ∃ t, s = replace s0 t ∧ Q a t)
      fun s => ∃ t, s = replace s0 t ∧ E t := by
  intro s hs
  subst hs
  have hend := hm (part s) hs0
  unfold Effect.zoom
  cases heq : m (part s) with
  | done a t =>
    rw [heq] at hend
    exact ⟨t, rfl, hend⟩
  | failed t =>
    rw [heq] at hend
    exact ⟨t, rfl, hend⟩
  | fault =>
    rw [heq] at hend
    exact hend

/-! ## From one state -/

section
variable {s : σ}

theorem meets_bind (hm : (m s).Meets Q E) (hf : ∀ a t, Q a t → (f a t).Meets R E) :
    ((m >>= f) s).Meets R E :=
  Meets.bind (P := fun t => t = s) (fun _ ht => ht ▸ hm) hf s rfl

theorem meets_mono (hm : (m s).Meets Q E) (hQ : ∀ a t, Q a t → Q' a t)
    (hE : ∀ t, E t → E' t) : (m s).Meets Q' E' :=
  Meets.mono (P := fun t => t = s) (fun _ ht => ht ▸ hm) (fun _ ht => ht) hQ hE s rfl

theorem meets_zoom {part : τ → σ} {replace : τ → σ → τ} {t : τ} {Q : α → τ → Prop}
    {E : τ → Prop}
    (hm : (m (part t)).Meets (fun a u => Q a (replace t u)) fun u => E (replace t u)) :
    (zoom part replace m t).Meets Q E := by
  unfold zoom
  cases hend : m (part t) with
  | done a u =>
    rw [hend] at hm
    exact hm
  | failed u =>
    rw [hend] at hm
    exact hm
  | fault =>
    rw [hend] at hm
    exact hm

theorem meets_done {a : α} {t : σ} (hm : (m s).Meets Q E) (h : m s = .done a t) : Q a t := by
  rw [h] at hm
  exact hm

theorem meets_failed {t : σ} (hm : (m s).Meets Q E) (h : m s = .failed t) : E t := by
  rw [h] at hm
  exact hm

end

/-! ## Invariants -/

section
variable {Q Q' : α → Prop} {R : β → Prop} {R' : β → σ → Prop}

theorem Keeps.pure {a : α} (h : Q a) : Keeps I (pure a : Effect σ α) Q := fun _ hs => ⟨hs, h⟩

theorem Keeps.fail : Keeps I (fail : Effect σ α) Q := fun _ hs => hs

theorem Keeps.bind (hm : Keeps I m Q) (hf : ∀ a, Q a → Keeps I (f a) R) : Keeps I (m >>= f) R :=
  Meets.bind hm fun a s hs => hf a hs.2 s hs.1

theorem Keeps.mono (hm : Keeps I m Q) (h : ∀ a, Q a → Q' a) : Keeps I m Q' :=
  Meets.mono hm (fun _ hs => hs) (fun a _ hs => ⟨hs.1, h a hs.2⟩) fun _ hs => hs

theorem Keeps.get : Keeps I get I := fun _ hs => ⟨hs, hs⟩

theorem Keeps.modify {g : σ → σ} (h : ∀ s, I s → I (g s)) : Keeps I (modify g) fun _ => True :=
  fun s hs => ⟨h s hs, trivial⟩

/-- After a check the condition is known. -/
theorem Keeps.require {k : Unit → Effect σ β} (h : c → Keeps I (k ()) R) :
    Keeps I (require c >>= k) R := by
  refine Keeps.bind (Q := fun _ => c) ?_ fun _ hc => h hc
  unfold Effect.require
  split
  next hc => exact .pure hc
  next => exact .fail

theorem Keeps.demand {k : Unit → Effect σ β} (hc : c) (h : Keeps I (k ()) R) :
    Keeps I (demand c >>= k) R := by
  refine Keeps.bind (Q := fun _ => True) ?_ fun _ _ => h
  unfold Effect.demand
  rw [if_pos hc]
  exact .pure trivial

theorem Keeps.ite {m' : Effect σ α} (h : c → Keeps I m Q) (h' : ¬c → Keeps I m' Q) :
    Keeps I (if c then m else m') Q := by
  split
  next hc => exact h hc
  next hc => exact h' hc

theorem Keeps.when {m : Effect σ Unit} (h : c → Keeps I m fun _ => True) :
    Keeps I (when c m) fun _ => True :=
  .ite h fun _ => .pure trivial

theorem Keeps.attempt (hm : Keeps I m Q) :
    Keeps I (attempt m) fun r => ∀ a, r = some a → Q a := by
  intro s hs
  have hs' := hm s hs
  unfold Effect.attempt
  generalize m s = e at hs' ⊢
  cases e with
  | done a t => exact ⟨hs'.1, fun b hb => Option.some.inj hb ▸ hs'.2⟩
  | failed t => exact ⟨hs', nofun⟩
  | fault => exact hs'

theorem Keeps.meets (hm : Keeps I m Q) (hE : ∀ s, I s → E s)
    (hf : ∀ a, Q a → Meets I (f a) R' E) : Meets I (m >>= f) R' E :=
  Meets.bind (Meets.mono hm (fun _ hs => hs) (fun _ _ hs => hs) hE)
    fun a s hs => hf a hs.2 s hs.1

theorem Keeps.exists {ι : Type} {p : ι → Prop} {J : ι → σ → Prop}
    (h : ∀ i, p i → Keeps (J i) m Q) : Keeps (fun s => ∃ i, p i ∧ J i s) m Q := by
  rintro s ⟨i, hp, hs⟩
  exact meets_mono (h i hp s hs) (fun _ _ ht => ⟨⟨i, hp, ht.1⟩, ht.2⟩) fun _ ht => ⟨i, hp, ht⟩

/-- What leaves a state alone has one result there. -/
theorem Keeps.result {s0 : σ} (hm : Keeps (fun s => s = s0) m Q) :
    Keeps (fun s => s = s0) m fun a => Q a ∧ m s0 = .done a s0 := by
  intro s hs
  subst hs
  have hs' := hm s rfl
  generalize m s = e at hs' ⊢
  cases e with
  | done a t =>
    obtain ⟨ht, hQ⟩ := hs'
    exact ⟨ht, hQ, by rw [ht]⟩
  | failed t => exact hs'
  | fault => exact hs'

theorem Keeps.zoom {J : τ → Prop} {m : Effect τ α} {part : σ → τ} {replace : σ → τ → σ}
    (hm : Keeps J m Q) (hpart : ∀ s, I s → J (part s))
    (hreplace : ∀ s t, I s → J t → I (replace s t)) : Keeps I (zoom part replace m) Q := by
  intro s hs
  have hs' := hm (part s) (hpart s hs)
  unfold Effect.zoom
  cases hend : m (part s) with
  | done a t =>
    rw [hend] at hs'
    exact ⟨hreplace s t hs hs'.1, hs'.2⟩
  | failed t =>
    rw [hend] at hs'
    exact hreplace s t hs hs'
  | fault =>
    rw [hend] at hs'
    exact hs'

end

/-! ## Results -/

section
variable {s t u : σ} {a : α} {b : β} {k : Unit → Effect σ β}

theorem bind_done (h : m s = .done a t) : (m >>= f) s = f a t := by
  show Effect.bind m f s = f a t
  rw [Effect.bind, h]

theorem bind_failed (h : m s = .failed t) : (m >>= f) s = .failed t := by
  show Effect.bind m f s = .failed t
  rw [Effect.bind, h]

theorem bind_fault (h : m s = .fault) : (m >>= f) s = .fault := by
  show Effect.bind m f s = .fault
  rw [Effect.bind, h]

/-- What a computation does next depends on how it ended only. -/
theorem bind_congr {m' : Effect σ α} (h : m s = m' t) : (m >>= f) s = (m' >>= f) t := by
  show Effect.bind m f s = Effect.bind m' f t
  rw [Effect.bind, Effect.bind, h]

theorem bind_cont {f' : α → Effect σ β} (h : ∀ a t, m s = .done a t → f a t = f' a t) :
    (m >>= f) s = (m >>= f') s := by
  show Effect.bind m f s = Effect.bind m f' s
  unfold Effect.bind
  cases hm : m s with
  | done a t => exact h a t hm
  | failed t => rfl
  | fault => rfl

theorem bind_eq_done : (m >>= f) s = .done b u ↔ ∃ a t, m s = .done a t ∧ f a t = .done b u := by
  constructor
  · intro h
    change Effect.bind m f s = .done b u at h
    unfold Effect.bind at h
    generalize m s = e at h ⊢
    cases e with
    | done a t => exact ⟨a, t, rfl, h⟩
    | failed t =>
      cases h
    | fault =>
      cases h
  · rintro ⟨a, t, hm, hf⟩
    rw [bind_done hm, hf]

theorem attempt_done (h : m s = .done a t) : attempt m s = .done (some a) t := by
  unfold attempt
  rw [h]

theorem attempt_failed (h : m s = .failed t) : attempt m s = .done none t := by
  unfold attempt
  rw [h]

theorem attempt_fault (h : m s = .fault) : attempt m s = .fault := by
  unfold attempt
  rw [h]

theorem result_bind : ((m >>= f) s).result = (m s).result.bind fun r => (f r.1 r.2).result := by
  show (Effect.bind m f s).result = _
  unfold Effect.bind
  cases m s with
  | done a t => rfl
  | failed t => rfl
  | fault => rfl

theorem result_cont {f' : α → Effect σ β}
    (h : ∀ a t, m s = .done a t → (f a t).result = (f' a t).result) :
    ((m >>= f) s).result = ((m >>= f') s).result := by
  rw [result_bind, result_bind]
  cases hm : m s with
  | done a t => exact h a t hm
  | failed t => rfl
  | fault => rfl

theorem get_bind {f : σ → Effect σ β} : (get >>= f) s = f s s := rfl

theorem modify_bind {g : σ → σ} : (modify g >>= k) s = k () (g s) := rfl

theorem pure_bind_eq : ((pure a : Effect σ α) >>= f) s = f a s := rfl

theorem bind_bind_eq {γ : Type} {h : β → Effect σ γ} :
    ((m >>= f) >>= h) s = (m >>= fun a => f a >>= h) s := by
  show Effect.bind (Effect.bind m f) h s = Effect.bind m (fun a => Effect.bind (f a) h) s
  unfold Effect.bind
  cases m s with
  | done a t => rfl
  | failed t => rfl
  | fault => rfl

theorem bind_pure_eq : (m >>= pure) s = m s := by
  show Effect.bind m _ s = m s
  unfold Effect.bind
  cases m s with
  | done a t => rfl
  | failed t => rfl
  | fault => rfl

theorem pure_eq_done {a' : α} : (pure a : Effect σ α) s = .done a' t ↔ a = a' ∧ s = t := by
  constructor
  · intro h
    cases h
    exact ⟨rfl, rfl⟩
  · rintro ⟨rfl, rfl⟩
    rfl

theorem require_pos (h : c) : (require c : Effect σ Unit) = pure () := if_pos h

theorem require_neg (h : ¬c) : (require c : Effect σ Unit) = fail := if_neg h

theorem demand_pos (h : c) : (demand c : Effect σ Unit) = pure () := if_pos h

theorem demand_neg (h : ¬c) : (demand c : Effect σ Unit) = crash := if_neg h

theorem require_bind (h : c) : (require c >>= k) s = k () s := by
  rw [require_pos h]
  rfl

theorem require_failed (h : ¬c) : (require c >>= k) s = .failed s := by
  rw [require_neg h]
  rfl

theorem demand_bind (h : c) : (demand c >>= k) s = k () s := by
  rw [demand_pos h]
  rfl

theorem require_eq_done : (require c >>= k) s = .done b u ↔ c ∧ k () s = .done b u := by
  by_cases hc : c
  · rw [require_bind hc]
    exact ⟨fun h => ⟨hc, h⟩, And.right⟩
  · rw [require_failed hc]
    exact ⟨nofun, fun h => absurd h.1 hc⟩

theorem demand_eq_done : (demand c >>= k) s = .done b u ↔ c ∧ k () s = .done b u := by
  by_cases hc : c
  · rw [demand_bind hc]
    exact ⟨fun h => ⟨hc, h⟩, And.right⟩
  · rw [demand_neg hc]
    exact ⟨nofun, fun h => absurd h.1 hc⟩

variable {replace : σ → τ → σ} {part : σ → τ}

theorem result_zoom {m : Effect τ α} :
    (zoom part replace m s).result = (m (part s)).result.map fun r => (r.1, replace s r.2) := by
  unfold zoom
  cases m (part s) with
  | done a t => rfl
  | failed t => rfl
  | fault => rfl

theorem zoom_done {m : Effect τ α} {v : τ}
    (h : m (part s) = .done a v) : zoom part replace m s = .done a (replace s v) := by
  rw [zoom, h]

theorem zoom_failed {m : Effect τ α} {v : τ}
    (h : m (part s) = .failed v) : zoom part replace m s = .failed (replace s v) := by
  rw [zoom, h]

/-- Two steps on the same part. -/
theorem zoom_bind {m : Effect τ α} {f : α → Effect τ β}
    (hpart : ∀ t, part (replace s t) = t)
    (hreplace : ∀ t t', replace (replace s t) t' = replace s t') :
    zoom part replace (m >>= f) s = (zoom part replace m >>= fun a => zoom part replace (f a)) s := by
  cases hm : m (part s) with
  | done a t =>
    rw [zoom, bind_done hm, bind_done (zoom_done hm), zoom, hpart]
    cases f a t with
    | done b t' => exact congrArg _ (hreplace t t').symm
    | failed t' => exact congrArg _ (hreplace t t').symm
    | fault => rfl
  | failed t => rw [zoom, bind_failed hm, bind_failed (zoom_failed hm)]
  | fault =>
    have hfault : zoom part replace m s = .fault := by rw [zoom, hm]
    rw [zoom, bind_fault hm, bind_fault hfault]

theorem zoom_eq_done {m : Effect τ α} :
    zoom part replace m s = .done a t ↔ ∃ v, m (part s) = .done a v ∧ replace s v = t := by
  constructor
  · intro h
    unfold zoom at h
    cases hm : m (part s) with
    | done a' v =>
      rw [hm] at h
      cases h
      exact ⟨v, rfl, rfl⟩
    | failed v =>
      rw [hm] at h
      cases h
    | fault =>
      rw [hm] at h
      cases h
  · rintro ⟨v, hm, rfl⟩
    exact zoom_done hm

end

/-! ## Computations that may fault -/

/-- The invariant holds at the end, if there is one. -/
def Stays (I : σ → Prop) (m : Effect σ α) : Prop := ∀ s, I s → (m s).Ends (fun _ => I) I

section
variable {I : σ → Prop} {m : Effect σ α} {f : α → Effect σ β} {Q Q' : α → σ → Prop}
  {R : β → σ → Prop} {E E' : σ → Prop} {c : Prop} [Decidable c] {s t : σ} {a : α}

theorem ends_bind (hm : (m s).Ends Q E') (hE : ∀ t, E' t → E t)
    (hf : ∀ a t, Q a t → (f a t).Ends R E) : ((m >>= f) s).Ends R E := by
  show (Effect.bind m f s).Ends R E
  unfold Effect.bind
  generalize m s = e at hm ⊢
  cases e with
  | done a t => exact hf a t hm
  | failed t => exact hE t hm
  | fault => trivial

theorem ends_mono {e : Ending σ α} (he : e.Ends Q E) (hQ : ∀ a t, Q a t → Q' a t)
    (hE : ∀ t, E t → E' t) : e.Ends Q' E' := by
  cases e with
  | done a t => exact hQ a t he
  | failed t => exact hE t he
  | fault => trivial

theorem ends_require {k : Unit → Effect σ β} (hE : ¬c → E s) (h : c → (k () s).Ends R E) :
    ((require c >>= k) s).Ends R E := by
  by_cases hc : c
  · rw [require_bind hc]
    exact h hc
  · rw [require_failed hc]
    exact hE hc

theorem ends_demand {k : Unit → Effect σ β} (h : c → (k () s).Ends R E) :
    ((demand c >>= k) s).Ends R E := by
  by_cases hc : c
  · rw [demand_bind hc]
    exact h hc
  · rw [demand_neg hc]
    trivial

theorem ends_attempt (hm : (m s).Ends Q E) : (attempt m s).Ends
    (fun r t => (∃ a, r = some a ∧ Q a t) ∨ r = none ∧ E t) fun _ => False := by
  unfold attempt
  generalize m s = e at hm ⊢
  cases e with
  | done a t => exact .inl ⟨a, rfl, hm⟩
  | failed t => exact .inr ⟨rfl, hm⟩
  | fault => trivial

theorem ends_done (hm : (m s).Ends Q E) (h : m s = .done a t) : Q a t := by
  rw [h] at hm
  exact hm

theorem ends_failed (hm : (m s).Ends Q E) (h : m s = .failed t) : E t := by
  rw [h] at hm
  exact hm

theorem Stays.pure : Stays I (pure a : Effect σ α) := fun _ hs => hs

theorem Stays.fail : Stays I (fail : Effect σ α) := fun _ hs => hs

theorem Stays.crash : Stays I (crash : Effect σ α) := fun _ _ => trivial

theorem Stays.get : Stays I get := fun _ hs => hs

theorem Stays.modify {g : σ → σ} (h : ∀ s, I s → I (g s)) : Stays I (modify g) := h

theorem Stays.bind (hm : Stays I m) (hf : ∀ a, Stays I (f a)) : Stays I (m >>= f) :=
  fun s hs => ends_bind (hm s hs) (fun _ ht => ht) fun a t ht => hf a t ht

theorem Stays.ite {m' : Effect σ α} (h : Stays I m) (h' : Stays I m') :
    Stays I (if c then m else m') := by
  split
  next => exact h
  next => exact h'

theorem Stays.require : Stays I (require c) := .ite .pure .fail

theorem Stays.demand : Stays I (demand c) := .ite .pure .crash

theorem Stays.when {m : Effect σ Unit} (h : Stays I m) : Stays I (when c m) := .ite h .pure

theorem Stays.attempt (hm : Stays I m) : Stays I (attempt m) := by
  intro s hs
  refine ends_mono (ends_attempt (hm s hs)) ?_ fun _ h => h.elim
  rintro r t (⟨a, -, ht⟩ | ⟨-, ht⟩)
  · exact ht
  · exact ht

theorem Stays.zoom {J : τ → Prop} {m : Effect τ α} {part : σ → τ} {replace : σ → τ → σ}
    (hm : Stays J m) (hpart : ∀ s, I s → J (part s))
    (hreplace : ∀ s t, I s → J t → I (replace s t)) : Stays I (zoom part replace m) := by
  intro s hs
  have hend := hm (part s) (hpart s hs)
  unfold Effect.zoom
  cases heq : m (part s) with
  | done a t =>
    rw [heq] at hend
    exact hreplace s t hs hend
  | failed t =>
    rw [heq] at hend
    exact hreplace s t hs hend
  | fault => trivial

end

/-! ## What a computation does not look at -/

/-- The computation neither uses nor changes what `g` changes. -/
def Unaware (g : σ → σ) (m : Effect σ α) : Prop := ∀ s, m (g s) = (m s).map g

section
variable {g : σ → σ} {k : Unit → Effect σ β} {a : α}

theorem Unaware.pure : Unaware g (pure a : Effect σ α) := fun _ => rfl

theorem Unaware.fail : Unaware g (fail : Effect σ α) := fun _ => rfl

theorem Unaware.bind (hm : Unaware g m) (hf : ∀ a, Unaware g (f a)) : Unaware g (m >>= f) := by
  intro s
  show Effect.bind m f (g s) = (Effect.bind m f s).map g
  unfold Effect.bind
  rw [hm s]
  cases m s with
  | done a t => exact hf a t
  | failed t => rfl
  | fault => rfl

/-- What is done with the state is the same for both. -/
theorem Unaware.get {f : σ → Effect σ β} (hsame : ∀ s, f (g s) = f s) (hf : ∀ s, Unaware g (f s)) :
    Unaware g (get >>= f) := by
  intro s
  show f (g s) (g s) = (f s s).map g
  rw [hsame]
  exact hf s s

theorem Unaware.modify {r : σ → σ} (h : ∀ s, r (g s) = g (r s)) : Unaware g (modify r) :=
  fun s => congrArg (Ending.done ()) (h s)

theorem Unaware.require (hk : ∀ u, Unaware g (k u)) : Unaware g (require c >>= k) := by
  refine bind (fun s => ?_) hk
  unfold Effect.require
  split
  next => rfl
  next => rfl

theorem Unaware.demand : Unaware g (demand c) := by
  intro s
  unfold Effect.demand
  split
  next => rfl
  next => rfl

theorem Unaware.ite {m' : Effect σ α} (h : Unaware g m) (h' : Unaware g m') :
    Unaware g (if c then m else m') := by
  split
  next => exact h
  next => exact h'

theorem Unaware.zoom {m : Effect τ α} {part : σ → τ} {replace : σ → τ → σ} {g' : τ → τ}
    (hm : Unaware g' m) (hpart : ∀ s, part (g s) = g' (part s))
    (hreplace : ∀ s t, replace (g s) (g' t) = g (replace s t)) :
    Unaware g (zoom part replace m) := by
  intro s
  unfold Effect.zoom
  rw [hpart, hm (part s)]
  cases m (part s) with
  | done a t => exact congrArg (Ending.done a) (hreplace s t)
  | failed t => exact congrArg Ending.failed (hreplace s t)
  | fault => rfl

end

end Effect

end MeatySkeleton.Lib
