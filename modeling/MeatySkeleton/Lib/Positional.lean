import Mathlib.Data.List.Induction
import Mathlib.Data.Nat.Digits.Defs

/-!
# Positional numerals

The number that digits write in a base, the most significant digit first.
-/

namespace Positional

/-- The number that digits write. -/
def value (base : Nat) (digits : List Nat) : Nat := Nat.ofDigits base digits.reverse

variable {base : Nat}

theorem value_append (high low : List Nat) :
    value base (high ++ low) = value base high * base ^ low.length + value base low := by
  unfold value
  rw [List.reverse_append, Nat.ofDigits_append, List.length_reverse, Nat.mul_comm, Nat.add_comm]

theorem value_concat (high : List Nat) (digit : Nat) :
    value base (high ++ [digit]) = value base high * base + digit := by
  rw [value_append, List.length_singleton, Nat.pow_one]
  exact congrArg _ Nat.ofDigits_singleton

end Positional
