import Mathlib.Algebra.Group.Nat.Defs
import Mathlib.Data.Nat.Init
import Mathlib.Logic.Function.Basic

/-!
# Byte-addressed memory

A memory is a map from addresses to bytes. Words are little-endian. Every write
comes with two facts: what a read at the same place sees, and `Within`, the range
of addresses it may change. Reads only depend on the bytes they cover
(`get32_congr`), so a write elsewhere is invisible to them.
-/

namespace MeatySkeleton.Lib

open Function

abbrev Mem := Nat → UInt8

/-- The little-endian 32-bit word at `a`. -/
def get32 (m : Mem) (a : Nat) : Nat :=
  (m a).toNat + 256 * (m (a + 1)).toNat + 65536 * (m (a + 2)).toNat + 16777216 * (m (a + 3)).toNat

/-- The little-endian 16-bit word at `a`. -/
def get16 (m : Mem) (a : Nat) : Nat := (m a).toNat + 256 * (m (a + 1)).toNat

/-- The little-endian 64-bit word at `a`. -/
def get64 (m : Mem) (a : Nat) : Nat := get32 m a + 2 ^ 32 * get32 m (a + 4)

/-- Store the low 32 bits of `v` at `a`. -/
def put32 (m : Mem) (a v : Nat) : Mem := fun x =>
  if x = a then UInt8.ofNat v
  else if x = a + 1 then UInt8.ofNat (v / 256)
  else if x = a + 2 then UInt8.ofNat (v / 65536)
  else if x = a + 3 then UInt8.ofNat (v / 16777216)
  else m x

/-- Store the low 16 bits of `v` at `a`. -/
def put16 (m : Mem) (a v : Nat) : Mem := fun x =>
  if x = a then UInt8.ofNat v
  else if x = a + 1 then UInt8.ofNat (v / 256)
  else m x

def put8 (m : Mem) (a : Nat) (v : UInt8) : Mem := update m a v

/-- `memset`. -/
def fill (m : Mem) (a n : Nat) (v : UInt8) : Mem := fun x => if a ≤ x ∧ x < a + n then v else m x

/-- `memcpy`, for ranges that do not overlap. -/
def copy (m : Mem) (dst src n : Nat) : Mem := fun x =>
  if dst ≤ x ∧ x < dst + n then m (src + (x - dst)) else m x

/-- `memcpy` from another memory. -/
def copyFrom (m : Mem) (dst : Nat) (m' : Mem) (src n : Nat) : Mem := fun x =>
  if dst ≤ x ∧ x < dst + n then m' (src + (x - dst)) else m x

/-- `m'` differs from `m` in the addresses from `lo` up to `hi` only. -/
def Within (m m' : Mem) (lo hi : Nat) : Prop := ∀ x, x < lo ∨ hi ≤ x → m' x = m x

variable {m m' m'' : Mem} {a v lo hi n : Nat}

theorem Within.refl (m : Mem) (lo hi : Nat) : Within m m lo hi := fun _ _ => rfl

theorem Within.trans (h : Within m m' lo hi) (h' : Within m' m'' lo hi) : Within m m'' lo hi :=
  fun x hx => (h' x hx).trans (h x hx)

theorem Within.mono {lo' hi' : Nat} (h : Within m m' lo hi) (hlo : lo' ≤ lo) (hhi : hi ≤ hi') :
    Within m m' lo' hi' := fun x hx => h x (by omega)

theorem put32_within (m : Mem) (a v : Nat) : Within m (put32 m a v) a (a + 4) := by
  intro x hx
  unfold put32
  rw [if_neg (by omega), if_neg (by omega), if_neg (by omega), if_neg (by omega)]

theorem put16_within (m : Mem) (a v : Nat) : Within m (put16 m a v) a (a + 2) := by
  intro x hx
  unfold put16
  rw [if_neg (by omega), if_neg (by omega)]

theorem put8_within (m : Mem) (a : Nat) (b : UInt8) : Within m (put8 m a b) a (a + 1) :=
  fun x hx => update_of_ne (by omega) ..

theorem fill_within (m : Mem) (a n : Nat) (b : UInt8) : Within m (fill m a n b) a (a + n) :=
  fun x hx => if_neg (by omega)

theorem copy_within (m : Mem) (dst src n : Nat) : Within m (copy m dst src n) dst (dst + n) :=
  fun x hx => if_neg (by omega)

theorem copyFrom_within (m : Mem) (dst : Nat) (m' : Mem) (src n : Nat) :
    Within m (copyFrom m dst m' src n) dst (dst + n) :=
  fun x hx => if_neg (by omega)

/-- Two copies in a row. -/
theorem copyFrom_append (m : Mem) (dst : Nat) (m' : Mem) (src n k : Nat) :
    copyFrom (copyFrom m dst m' src n) (dst + n) m' (src + n) k = copyFrom m dst m' src (n + k) := by
  funext x
  unfold copyFrom
  by_cases hlow : dst ≤ x ∧ x < dst + n
  · rw [if_neg (by omega), if_pos hlow, if_pos (by omega)]
  · by_cases hhigh : dst + n ≤ x ∧ x < dst + n + k
    · rw [if_pos hhigh, if_pos (by omega)]
      congr 1
      omega
    · rw [if_neg hhigh, if_neg hlow, if_neg (by omega)]

theorem copyFrom_low {src k x : Nat} (hx : x < k) :
    copyFrom m 0 m' src k x = m' (src + x) := by
  unfold copyFrom
  rw [if_pos (by omega), Nat.sub_zero]

theorem copyFrom_add {dst k x : Nat} (hx : x < k) :
    copyFrom m dst m' 0 k (dst + x) = m' x := by
  unfold copyFrom
  rw [if_pos (by omega), Nat.add_sub_cancel_left, Nat.zero_add]

/-- A block that was read, with some bytes of it replaced, is written back. -/
theorem copyFrom_back {image m source : Mem} {a bs offset k : Nat} (hk : offset + k ≤ bs) :
    copyFrom image a (copyFrom (copyFrom m 0 image a bs) offset source 0 k) 0 bs =
      copyFrom image (a + offset) source 0 k := by
  funext x
  by_cases hin : a ≤ x ∧ x < a + bs
  · have hlow : copyFrom image a (copyFrom (copyFrom m 0 image a bs) offset source 0 k) 0 bs x =
        copyFrom (copyFrom m 0 image a bs) offset source 0 k (x - a) := by
      show (if a ≤ x ∧ x < a + bs then _ else _) = _
      rw [if_pos hin, Nat.zero_add]
    rw [hlow]
    by_cases hnew : a + offset ≤ x ∧ x < a + offset + k
    · show (if offset ≤ x - a ∧ x - a < offset + k then source (0 + (x - a - offset)) else _) =
        if a + offset ≤ x ∧ x < a + offset + k then source (0 + (x - (a + offset))) else _
      rw [if_pos (by omega), if_pos hnew, Nat.sub_sub]
    · show (if offset ≤ x - a ∧ x - a < offset + k then _ else copyFrom m 0 image a bs (x - a)) =
        if a + offset ≤ x ∧ x < a + offset + k then _ else image x
      rw [if_neg (by omega), if_neg hnew, copyFrom_low (by omega)]
      congr 1
      omega
  · show (if a ≤ x ∧ x < a + bs then _ else image x) =
      if a + offset ≤ x ∧ x < a + offset + k then _ else image x
    rw [if_neg hin, if_neg (by omega)]

theorem put8_eq_copyFrom (m : Mem) (a : Nat) (byte : UInt8) :
    put8 m a byte = copyFrom m a (fun _ => byte) 0 1 := by
  funext x
  unfold put8 copyFrom
  by_cases hx : x = a
  · rw [hx, update_self, if_pos (by omega)]
  · rw [update_of_ne hx, if_neg (by omega)]

/-- A structure is copied back with one of its fields replaced. -/
theorem copyFrom_put16 {m source : Mem} {a k i value : Nat} (hi : i + 2 ≤ k)
    (hsource : ∀ x < k, source x = m (a + x)) :
    copyFrom m a (put16 source i value) 0 k = put16 m (a + i) value := by
  funext x
  unfold copyFrom
  by_cases hx : a ≤ x ∧ x < a + k
  · rw [if_pos hx, Nat.zero_add]
    unfold put16
    by_cases h0 : x = a + i
    · rw [if_pos (by omega), if_pos h0]
    · by_cases h1 : x = a + i + 1
      · rw [if_neg (by omega), if_pos (by omega), if_neg h0, if_pos h1]
      · rw [if_neg (by omega), if_neg (by omega), if_neg h0, if_neg h1, hsource _ (by omega)]
        congr 1
        omega
  · rw [if_neg hx]
    exact (put16_within m (a + i) value x (by omega)).symm

theorem get32_lt (m : Mem) (a : Nat) : get32 m a < 2 ^ 32 := by
  have hbyte : ∀ x, (m x).toNat < 256 := fun x => UInt8.toNat_lt _
  have h0 := hbyte a
  have h1 := hbyte (a + 1)
  have h2 := hbyte (a + 2)
  have h3 := hbyte (a + 3)
  rw [get32]
  omega

theorem get16_lt (m : Mem) (a : Nat) : get16 m a < 2 ^ 16 := by
  have hlow := UInt8.toNat_lt (m a)
  have hhigh := UInt8.toNat_lt (m (a + 1))
  unfold get16
  omega

theorem get64_lt (m : Mem) (a : Nat) : get64 m a < 2 ^ 64 := by
  have hlow := get32_lt m a
  have hhigh := get32_lt m (a + 4)
  rw [get64]
  omega

theorem get32_congr (h : ∀ i < 4, m' (a + i) = m (a + i)) : get32 m' a = get32 m a := by
  have h0 : m' a = m a := h 0 (by omega)
  unfold get32
  rw [h0, h 1 (by omega), h 2 (by omega), h 3 (by omega)]

theorem get16_congr (h : ∀ i < 2, m' (a + i) = m (a + i)) : get16 m' a = get16 m a := by
  have h0 : m' a = m a := h 0 (by omega)
  unfold Lib.get16
  rw [h0, h 1 (by omega)]

theorem put16_congr {x : Nat} (h : m' x = m x) (v : Nat) : put16 m' a v x = put16 m a v x := by
  unfold Lib.put16
  rw [h]

theorem Within.get32 (h : Within m m' lo hi) (ha : a + 4 ≤ lo ∨ hi ≤ a) :
    get32 m' a = get32 m a :=
  get32_congr fun i hi => h _ (by omega)

theorem Within.get16 (h : Within m m' lo hi) (ha : a + 2 ≤ lo ∨ hi ≤ a) :
    get16 m' a = get16 m a := by
  unfold Lib.get16
  rw [h a (by omega), h (a + 1) (by omega)]

/-- A word is written twice. -/
theorem put16_put16 (m : Mem) (a v w : Nat) : put16 (put16 m a v) a w = put16 m a w := by
  funext x
  unfold put16
  by_cases h0 : x = a
  · rw [if_pos h0, if_pos h0]
  · by_cases h1 : x = a + 1
    · rw [if_neg h0, if_pos h1, if_neg h0, if_pos h1]
    · rw [if_neg h0, if_neg h1, if_neg h0, if_neg h1, if_neg h0, if_neg h1]

/-- A word is written back. -/
theorem put16_get16 (m : Mem) (a : Nat) : put16 m a (Lib.get16 m a) = m := by
  funext x
  have hlow := UInt8.toNat_lt (m a)
  have hhigh := UInt8.toNat_lt (m (a + 1))
  unfold put16 Lib.get16
  by_cases h0 : x = a
  · rw [if_pos h0, h0]
    apply UInt8.toNat_inj.mp
    rw [UInt8.toNat_ofNat']
    omega
  · by_cases h1 : x = a + 1
    · rw [if_neg h0, if_pos h1, h1]
      apply UInt8.toNat_inj.mp
      rw [UInt8.toNat_ofNat']
      omega
    · rw [if_neg h0, if_neg h1]

@[simp] theorem get16_put16 (m : Mem) (a v : Nat) : Lib.get16 (put16 m a v) a = v % 2 ^ 16 := by
  have hnext : (a + 1 = a) = False := by simp
  simp only [Lib.get16, put16, hnext, if_true, if_false, UInt8.toNat_ofNat']
  omega

@[simp] theorem get32_put32 (m : Mem) (a v : Nat) : get32 (put32 m a v) a = v % 2 ^ 32 := by
  have e1 : (a + 1 = a) = False := by simp
  have e2 : (a + 2 = a) = False := by simp
  have e3 : (a + 3 = a) = False := by simp
  simp only [Lib.get32, put32, e1, e2, e3, if_true, if_false, Nat.add_left_cancel_iff,
    UInt8.toNat_ofNat']
  simp
  omega

@[simp] theorem put8_self (m : Mem) (a : Nat) (b : UInt8) : put8 m a b a = b :=
  update_self ..

end MeatySkeleton.Lib
