import Mathlib.Algebra.Group.Nat.Defs
import Mathlib.Data.Nat.Init
import Mathlib.Logic.Function.Basic

/-!
# Bits packed into bytes

A bitmap is an array of bytes; bit `i` is bit `i % 8` of byte `i / 8`. `bitAt`,
`setBit` and `clearBit` are the three expressions with which C code reads and
writes such a bitmap. A read after a write is the written bit or the old one
(`bitAt_setBit`, `bitAt_clearBit`), which is all a user of the bitmap needs.
-/

namespace MeatySkeleton.Lib

open Function

abbrev PackedBits := Nat → BitVec 8

/-- The mask of bit `i` in its byte. -/
def bitMask (i : Nat) : BitVec 8 := 1#8 <<< (i % 8)

def bitAt (bits : PackedBits) (i : Nat) : Bool := bits (i / 8) &&& bitMask i != 0#8

def setBit (bits : PackedBits) (i : Nat) : PackedBits :=
  update bits (i / 8) (bits (i / 8) ||| bitMask i)

def clearBit (bits : PackedBits) (i : Nat) : PackedBits :=
  update bits (i / 8) (bits (i / 8) &&& ~~~bitMask i)

variable {bits : PackedBits} {i j : Nat}

theorem bitMask_getLsbD (i n : Nat) : (bitMask i).getLsbD n = decide (n = i % 8) := by
  have hi : i % 8 < 8 := Nat.mod_lt _ (by decide)
  rw [bitMask, ← BitVec.twoPow_eq, BitVec.getLsbD_twoPow, decide_eq_true hi, Bool.true_and]
  exact decide_eq_decide.mpr eq_comm

/-- The masked read is the bit. -/
theorem bitAt_eq (bits : PackedBits) (i : Nat) : bitAt bits i = (bits (i / 8)).getLsbD (i % 8) := by
  have hmask := bitMask_getLsbD i
  cases hb : (bits (i / 8)).getLsbD (i % 8) with
  | false =>
    have hzero : bits (i / 8) &&& bitMask i = 0#8 := by
      apply BitVec.eq_of_getLsbD_eq
      intro n _
      rw [BitVec.getLsbD_and, hmask, BitVec.getLsbD_zero]
      by_cases hn : n = i % 8
      · rw [hn, hb, Bool.false_and]
      · rw [decide_eq_false hn, Bool.and_false]
    rw [bitAt, hzero]
    rfl
  | true =>
    rw [bitAt, bne_iff_ne]
    intro hzero
    have hat : (bits (i / 8) &&& bitMask i).getLsbD (i % 8) = true := by
      rw [BitVec.getLsbD_and, hb, hmask, decide_eq_true rfl]
      rfl
    rw [hzero, BitVec.getLsbD_zero] at hat
    cases hat

/-- Two bits of one byte are the same bit if their masks are. -/
theorem same_bit (hbyte : i / 8 = j / 8) (hbit : i % 8 = j % 8) : i = j := by
  rw [← Nat.div_add_mod i 8, ← Nat.div_add_mod j 8, hbyte, hbit]

theorem bitAt_setBit (bits : PackedBits) (i j : Nat) :
    bitAt (setBit bits i) j = (bitAt bits j || decide (j = i)) := by
  rw [bitAt_eq, bitAt_eq, setBit]
  by_cases hbyte : j / 8 = i / 8
  · rw [hbyte, update_self, BitVec.getLsbD_or, bitMask_getLsbD]
    congr 1
    refine decide_eq_decide.mpr ⟨fun hbit => same_bit hbyte hbit, ?_⟩
    rintro rfl
    rfl
  · have hne : j ≠ i := fun he => hbyte (by rw [he])
    rw [update_of_ne hbyte, decide_eq_false hne, Bool.or_false]

theorem bitAt_clearBit (bits : PackedBits) (i j : Nat) :
    bitAt (clearBit bits i) j = (bitAt bits j && !decide (j = i)) := by
  rw [bitAt_eq, bitAt_eq, clearBit]
  by_cases hbyte : j / 8 = i / 8
  · have hj : j % 8 < 8 := Nat.mod_lt _ (by decide)
    rw [hbyte, update_self, BitVec.getLsbD_and, BitVec.getLsbD_not, bitMask_getLsbD,
      decide_eq_true hj, Bool.true_and]
    congr 2
    refine decide_eq_decide.mpr ⟨fun hbit => same_bit hbyte hbit, ?_⟩
    rintro rfl
    rfl
  · have hne : j ≠ i := fun he => hbyte (by rw [he])
    rw [update_of_ne hbyte, decide_eq_false hne, Bool.not_false, Bool.and_true]

/-- The bitmap as a set of bits, after a bit was set. -/
theorem bitAt_setBit_update (bits : PackedBits) (i : Nat) :
    bitAt (setBit bits i) = update (bitAt bits) i true := by
  funext j
  rw [bitAt_setBit]
  by_cases hj : j = i
  · rw [hj, decide_eq_true rfl, Bool.or_true, update_self]
  · rw [decide_eq_false hj, Bool.or_false, update_of_ne hj]

theorem bitAt_clearBit_update (bits : PackedBits) (i : Nat) :
    bitAt (clearBit bits i) = update (bitAt bits) i false := by
  funext j
  rw [bitAt_clearBit]
  by_cases hj : j = i
  · rw [hj, decide_eq_true rfl, Bool.not_true, Bool.and_false, update_self]
  · rw [decide_eq_false hj, Bool.not_false, Bool.and_true, update_of_ne hj]

end MeatySkeleton.Lib
