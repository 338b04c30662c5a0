import Mathlib.Algebra.Group.Nat.Defs
import Mathlib.Logic.Function.Basic

/-!
# The bytes of a memory of words

A page of memory as a function from word indices to 32-bit words, read and
written byte by byte, the least significant byte of a word first. `byteOf_setByte`
is the law of such a memory: a write is seen at its own place and nowhere else.
-/

namespace MeatySkeleton.Lib

open Function

/-- Byte `i` of a word, counted from the least significant one. -/
def byteAt (w : BitVec 32) (i : Nat) : BitVec 8 := w.extractLsb' (8 * i) 8

/-- The word with byte `i` replaced. -/
def putByte (w : BitVec 32) (i : Nat) (b : BitVec 8) : BitVec 32 :=
  (w &&& ~~~(0xFF#32 <<< (8 * i))) ||| (b.setWidth 32 <<< (8 * i))

def byteOf (page : Nat → BitVec 32) (j : Nat) : BitVec 8 := byteAt (page (j / 4)) (j % 4)

def setByte (page : Nat → BitVec 32) (j : Nat) (b : BitVec 8) : Nat → BitVec 32 :=
  update page (j / 4) (putByte (page (j / 4)) (j % 4) b)

theorem byteMask_bit (j : Nat) : (0xFF#32).getLsbD j = decide (j < 8) := by
  by_cases h : j < 32
  · revert j
    decide
  · rw [BitVec.getLsbD_of_ge _ _ (by omega)]
    symm
    exact decide_eq_false (by omega)

theorem byteAt_putByte (w : BitVec 32) {i k : Nat} (hi : i < 4) (hk : k < 4) (b : BitVec 8) :
    byteAt (putByte w i b) k = if k = i then b else byteAt w k := by
  apply BitVec.eq_of_getLsbD_eq
  intro j hj
  simp only [byteAt, putByte, BitVec.getLsbD_extractLsb', BitVec.getLsbD_or, BitVec.getLsbD_and,
    BitVec.getLsbD_not, BitVec.getLsbD_shiftLeft, BitVec.getLsbD_setWidth, byteMask_bit]
  split
  next hki =>
    subst hki
    have hlt : 8 * k + j < 32 := by omega
    have hlow : j < 32 := by omega
    have hge : ¬8 * k + j < 8 * k := by omega
    simp [hj, hlt, hlow, hge]
  next hki =>
    have hlt : 8 * k + j < 32 := by omega
    rw [BitVec.getLsbD_extractLsb']
    by_cases hbelow : 8 * k + j < 8 * i
    · simp [hlt, hbelow, hj]
    · -- above byte `i`: neither the mask nor the new byte reaches this bit
      have hout : ¬8 * k + j - 8 * i < 8 := by omega
      have hb : b.getLsbD (8 * k + j - 8 * i) = false := BitVec.getLsbD_of_ge _ _ (by omega)
      simp [hlt, hbelow, hj, hout, hb]

theorem byteOf_setByte (page : Nat → BitVec 32) (j k : Nat) (b : BitVec 8) :
    byteOf (setByte page j b) k = if k = j then b else byteOf page k := by
  have hj : j % 4 < 4 := Nat.mod_lt _ (by decide)
  have hk : k % 4 < 4 := Nat.mod_lt _ (by decide)
  rw [byteOf, byteOf, setByte]
  by_cases hword : k / 4 = j / 4
  · rw [hword, update_self, byteAt_putByte _ hj hk]
    by_cases hbyte : k % 4 = j % 4
    · have hkj : k = j := by omega
      rw [if_pos hbyte, if_pos hkj]
    · have hkj : k ≠ j := fun he => hbyte (by rw [he])
      rw [if_neg hbyte, if_neg hkj]
  · have hkj : k ≠ j := fun he => hword (by rw [he])
    rw [update_of_ne hword, if_neg hkj]

/-- A word is what its bytes are. -/
theorem word_ext {w w' : BitVec 32} (h : ∀ i, i < 4 → byteAt w i = byteAt w' i) : w = w' := by
  apply BitVec.eq_of_getLsbD_eq
  intro j hj
  have hbyte := congrArg (fun b => b.getLsbD (j % 8)) (h (j / 8) (by omega))
  have hsplit : 8 * (j / 8) + j % 8 = j := by omega
  have hlt : j % 8 < 8 := Nat.mod_lt _ (by decide)
  simp only [byteAt, BitVec.getLsbD_extractLsb', hsplit, hlt, decide_true, Bool.true_and] at hbyte
  exact hbyte

/-- A word whose four bytes are zero is zero. -/
theorem word_eq_zero {w : BitVec 32} (h : ∀ i, i < 4 → byteAt w i = 0#8) : w = 0#32 := by
  apply BitVec.eq_of_getLsbD_eq
  intro j hj
  have hbyte := congrArg (fun b => b.getLsbD (j % 8)) (h (j / 8) (by omega))
  have hsplit : 8 * (j / 8) + j % 8 = j := by omega
  have hlt : j % 8 < 8 := Nat.mod_lt _ (by decide)
  simp only [byteAt, BitVec.getLsbD_extractLsb', hsplit, hlt, decide_true, Bool.true_and,
    BitVec.getLsbD_zero] at hbyte
  rw [hbyte, BitVec.getLsbD_zero]

/-- A page whose bytes are all zero holds zero words. -/
theorem page_eq_zero {page : Nat → BitVec 32} {n : Nat} (h : ∀ j, j < 4 * n → byteOf page j = 0#8)
    {i : Nat} (hi : i < n) : page i = 0#32 := by
  apply word_eq_zero
  intro b hb
  have hbyte := h (4 * i + b) (by omega)
  have hword : (4 * i + b) / 4 = i := by omega
  have hpos : (4 * i + b) % 4 = b := by omega
  rw [byteOf, hword, hpos] at hbyte
  exact hbyte

end MeatySkeleton.Lib
