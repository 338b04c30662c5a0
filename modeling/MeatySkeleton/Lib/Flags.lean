import Mathlib.Algebra.Group.Nat.Defs

/-!
# Flags

A flag is one bit of a word, tested with a mask: `(word & flag) != 0`. Masks are written as
constants in the code; `BitVec.twoPow` is the mask of a bit by its number.
-/

namespace MeatySkeleton.Lib

variable {w i : Nat} {x : BitVec w}

/-- `(word & flag) != 0`. -/
def hasFlag (x flag : BitVec w) : Bool := x &&& flag != 0#w

theorem hasFlag_twoPow (hi : i < w) (x : BitVec w) :
    hasFlag x (BitVec.twoPow w i) = x.getLsbD i := by
  have hne : BitVec.twoPow w i ≠ 0#w := by
    intro he
    have hbit : (BitVec.twoPow w i).getLsbD i = true := by
      rw [BitVec.getLsbD_twoPow]
      simpa using hi
    rw [he] at hbit
    simp at hbit
  rw [hasFlag, BitVec.and_twoPow]
  cases x.getLsbD i with
  | false => simp
  | true => simpa using hne

/-- Of two words, those flags that are set in one of them only. -/
theorem hasFlag_xor (hi : i < w) (x y : BitVec w) : hasFlag (x ^^^ y) (BitVec.twoPow w i) =
    (hasFlag x (BitVec.twoPow w i) != hasFlag y (BitVec.twoPow w i)) := by
  rw [hasFlag_twoPow hi, hasFlag_twoPow hi, hasFlag_twoPow hi, BitVec.getLsbD_xor]

/-- Setting a flag changes nothing where it is set. -/
theorem or_twoPow_eq_iff (hi : i < w) :
    x ||| BitVec.twoPow w i = x ↔ hasFlag x (BitVec.twoPow w i) = true := by
  rw [hasFlag_twoPow hi]
  constructor
  · intro he
    rw [← he, BitVec.getLsbD_or, BitVec.getLsbD_twoPow]
    simp [hi]
  · intro hset
    apply BitVec.eq_of_getLsbD_eq
    intro j hj
    rw [BitVec.getLsbD_or, BitVec.getLsbD_twoPow]
    by_cases hij : i = j
    · subst hij
      rw [hset, Bool.true_or]
    · simp [hij]

end MeatySkeleton.Lib
