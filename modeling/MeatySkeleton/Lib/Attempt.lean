import Mathlib.Algebra.Group.Nat.Defs
import Mathlib.Data.List.Basic

/-!
# Computations that may give up, with a log

An `Attempt` ends with a value or gives up, and on the way writes events to a log
that giving up does not undo: a function that returns early on every failed check,
seen by somebody who watches what it does to a device. `attempt` is a caller that
goes on after a failure.

`Meets P m Q` says that `m` logs only events that satisfy `P` and that its value,
if there is one, satisfies `Q`. The rules below follow the shape of the program,
so a function is proved by reading it from top to bottom.
-/

namespace MeatySkeleton.Lib

structure Attempt (ε α : Type) where
  value : Option α
  log : List ε

namespace Attempt

variable {ε α β : Type}

def fail : Attempt ε α := ⟨none, []⟩

protected def bind (m : Attempt ε α) (f : α → Attempt ε β) : Attempt ε β :=
  match m.value with
  | some a => ⟨(f a).value, m.log ++ (f a).log⟩
  | none => ⟨none, m.log⟩

instance : Monad (Attempt ε) where
  pure a := ⟨some a, []⟩
  bind := Attempt.bind

def emit (e : ε) : Attempt ε Unit := ⟨some (), [e]⟩

/-- Give up unless the condition holds. -/
def require (c : Prop) [Decidable c] : Attempt ε Unit := if c then pure () else fail

/-- Carry on after a failure. -/
def attempt (m : Attempt ε α) : Attempt ε (Option α) := ⟨some m.value, m.log⟩

/-- Every event satisfies `P`, and the value `Q`. -/
structure Meets (P : ε → Prop) (m : Attempt ε α) (Q : α → Prop) : Prop where
  log : ∀ e ∈ m.log, P e
  value : ∀ a, m.value = some a → Q a

variable {P : ε → Prop} {m : Attempt ε α} {f : α → Attempt ε β} {Q Q' : α → Prop} {R : β → Prop}

/-! ## Values -/

theorem value_bind : (m >>= f).value = m.value.bind fun a => (f a).value := by
  change (Attempt.bind m f).value = _
  unfold Attempt.bind
  cases m.value with
  | none => rfl
  | some a => rfl

theorem value_bind_none (h : m.value = none) : (m >>= f).value = none := by
  rw [value_bind, h]
  rfl

theorem value_bind_some {a : α} (h : m.value = some a) : (m >>= f).value = (f a).value := by
  rw [value_bind, h]
  rfl

variable {k : Unit → Attempt ε β}

theorem value_require {c : Prop} [Decidable c] :
    (Attempt.require c >>= k).value = if c then (k ()).value else none := by
  rw [value_bind]
  unfold Attempt.require
  split
  next => rfl
  next => rfl

theorem value_bind_eq_some {b : β} :
    (m >>= f).value = some b ↔ ∃ a, m.value = some a ∧ (f a).value = some b := by
  rw [value_bind]
  exact Option.bind_eq_some_iff

theorem value_require_eq_some {c : Prop} [Decidable c] {b : β} :
    (Attempt.require c >>= k).value = some b ↔ c ∧ (k ()).value = some b := by
  rw [value_require]
  split
  next hc => exact (and_iff_right hc).symm
  next hc => exact iff_of_false nofun fun h => hc h.1

/-! ## Events and values -/

theorem Meets.pure {a : α} (h : Q a) : Meets P (pure a : Attempt ε α) Q where
  log := fun _ he => absurd he List.not_mem_nil
  value := fun _ hb => Option.some.inj hb ▸ h

theorem Meets.fail : Meets P (fail : Attempt ε α) Q where
  log := fun _ he => absurd he List.not_mem_nil
  value := fun _ hb => nomatch hb

theorem Meets.emit {e : ε} (h : P e) : Meets P (emit e) fun _ => True where
  log := fun _ he => List.mem_singleton.mp he ▸ h
  value := fun _ _ => trivial

theorem Meets.bind (hm : Meets P m Q) (hf : ∀ a, Q a → Meets P (f a) R) : Meets P (m >>= f) R := by
  change Meets P (Attempt.bind m f) R
  unfold Attempt.bind
  split
  next a ha =>
    have hfa := hf a (hm.value a ha)
    exact ⟨fun e he => (List.mem_append.mp he).elim (hm.log e) (hfa.log e), hfa.value⟩
  next => exact ⟨hm.log, fun _ hb => nomatch hb⟩

theorem Meets.mono (hm : Meets P m Q) (h : ∀ a, Q a → Q' a) : Meets P m Q' :=
  ⟨hm.log, fun a ha => h a (hm.value a ha)⟩

/-- After a check the condition is known. -/
theorem Meets.check {c : Prop} [Decidable c] :
    Meets P (Attempt.require c : Attempt ε Unit) fun _ => c := by
  unfold Attempt.require
  split
  next hc => exact .pure hc
  next => exact .fail

theorem Meets.require {c : Prop} [Decidable c]
    (h : c → Meets P (k ()) R) : Meets P (Attempt.require c >>= k) R :=
  Meets.check.bind fun _ hc => h hc

theorem Meets.attempt (hm : Meets P m Q) :
    Meets P (attempt m) fun o => ∀ a, o = some a → Q a where
  log := hm.log
  value := fun _ ho a ha => hm.value a ((Option.some.inj ho).trans ha)

end Attempt

end MeatySkeleton.Lib
