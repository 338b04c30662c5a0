import MeatySkeleton.Lib.Positional
import MeatySkeleton.Libc.FormatParsing

/-!
# Rounding digits

`round_digit_buffer` adds one unit in the last place to the digits that a conversion of a floating
point number has written. It adds one to the character of a digit, which for a `9` in base 16 is not
the next digit: `round_iff` says that it rounds exactly the strings in which it meets no such `9`.
-/

namespace MeatySkeleton.Libc.Printf

open List Option

open Positional (value)

/-! ## The code -/

/-- The digit that a character is. -/
def digitOf (c : Char) : Option Nat :=
  if '0'.toNat ≤ c.toNat ∧ c.toNat ≤ '9'.toNat then some (c.toNat - '0'.toNat)
  else if 'a'.toNat ≤ c.toNat ∧ c.toNat ≤ 'f'.toNat then some (c.toNat - 'a'.toNat + 10)
  else if 'A'.toNat ≤ c.toNat ∧ c.toNat ≤ 'F'.toNat then some (c.toNat - 'A'.toNat + 10)
  else none

/-- `++*position`. -/
def nextChar (c : Char) : Char := Char.ofNat (c.toNat + 1)

/-- The loop of `round_digit_buffer`, before a position. -/
def roundDigitBuffer (base : Nat) : Nat → List Char → Bool × List Char
  | 0, buffer => (true, buffer)
  | position + 1, buffer =>
    let c := buffer.getD position '.'
    if c = '.' then roundDigitBuffer base position buffer
    else
      match digitOf c with
      | none => roundDigitBuffer base position buffer
      | some digit =>
        if digit + 1 < base then (false, buffer.set position (nextChar c))
        else if digit + 1 = base then roundDigitBuffer base position (buffer.set position '0')
        else roundDigitBuffer base position buffer

/-! ## What it is for -/

variable {base : Nat} {s s' : List Char} {c : Char}

/-- A digit of the base, or the point. -/
def IsPlace (base : Nat) (c : Char) : Prop := c = '.' ∨ ∃ d < base, digitOf c = some d

instance : Decidable (IsPlace base c) := inferInstanceAs (Decidable (_ ∨ _))

/-- Digits with one point at most. -/
structure DigitString (base : Nat) (s : List Char) : Prop where
  places : ∀ c ∈ s, IsPlace base c
  one_point : s.count '.' ≤ 1

def digitsIn (s : List Char) : List Nat := s.filterMap digitOf

/-- One unit more in the last place, in the same places, with what is carried out of them. -/
structure Rounded (base : Nat) (s : List Char) (carry : Bool) (s' : List Char) : Prop where
  places : ∀ c ∈ s', IsPlace base c
  same : s'.map (· == '.') = s.map (· == '.')
  value : value base (digitsIn s') + carry.toNat * base ^ (digitsIn s).length =
    value base (digitsIn s) + 1
  carry_iff : carry = true ↔ ∀ d ∈ digitsIn s, d + 1 = base

/-- A point or the greatest digit: what rounding leaves behind when it goes on. -/
def passes (base : Nat) (c : Char) : Bool := c = '.' || digitOf c = some (base - 1)

/-- The last digit that is not the greatest. -/
def lowest (base : Nat) (s : List Char) : Option Char := (s.reverse.dropWhile (passes base)).head?

/-! ## Characters -/

theorem digitOf_eq (c : Char) : digitOf c =
    if 48 ≤ c.toNat ∧ c.toNat ≤ 57 then some (c.toNat - 48)
    else if 97 ≤ c.toNat ∧ c.toNat ≤ 102 then some (c.toNat - 97 + 10)
    else if 65 ≤ c.toNat ∧ c.toNat ≤ 70 then some (c.toNat - 65 + 10)
    else none := rfl

/-- The next character of a digit is the next digit, but for a `9`. -/
theorem digitOf_next {d : Nat} (hd : digitOf c = some d) (hlast : d + 1 < 16) (hnine : c ≠ '9') :
    digitOf (nextChar c) = some (d + 1) := by
  have hdigit : ∀ n < 103, Char.ofNat n ≠ '9' → ∀ d ∈ digitOf (Char.ofNat n), d + 1 < 16 →
      digitOf (nextChar (Char.ofNat n)) = some (d + 1) := by decide
  have hlow : c.toNat < 103 := by
    by_contra hhigh
    rw [digitOf_eq, if_neg (by omega), if_neg (by omega), if_neg (by omega)] at hd
    exact some_ne_none d hd.symm
  have hc := hdigit c.toNat hlow
  rw [Char.ofNat_toNat] at hc
  exact hc hnine d hd hlast

theorem not_isPlace_colon : ¬ IsPlace base ':' := by
  rintro (hpoint | ⟨d, -, hd⟩)
  · exact absurd hpoint (by decide)
  · exact some_ne_none d hd.symm

/-! ## One place -/

theorem getD_place (high after : List Char) (default : Char) :
    (high ++ c :: after).getD high.length default = c := by
  simp

theorem set_place (high after : List Char) (c' : Char) :
    (high ++ c :: after).set high.length c' = high ++ c' :: after := by
  simp

variable {high after : List Char} {d : Nat}

theorem round_point (base : Nat) (high after : List Char) :
    roundDigitBuffer base (high.length + 1) (high ++ '.' :: after) =
      roundDigitBuffer base high.length (high ++ '.' :: after) := by
  rw [roundDigitBuffer, getD_place, if_pos rfl]

theorem digitOf_ne_point (hd : digitOf c = some d) : c ≠ '.' := by
  rintro rfl
  exact some_ne_none d hd.symm

theorem round_less (hd : digitOf c = some d) (hless : d + 1 < base) :
    roundDigitBuffer base (high.length + 1) (high ++ c :: after) =
      (false, high ++ nextChar c :: after) := by
  rw [roundDigitBuffer, getD_place, if_neg (digitOf_ne_point hd), hd]
  dsimp only
  rw [if_pos hless, set_place]

theorem round_greatest (hd : digitOf c = some d) (hgreatest : d + 1 = base) :
    roundDigitBuffer base (high.length + 1) (high ++ c :: after) =
      roundDigitBuffer base high.length (high ++ '0' :: after) := by
  rw [roundDigitBuffer, getD_place, if_neg (digitOf_ne_point hd), hd]
  dsimp only
  rw [if_neg (by omega), if_pos hgreatest, set_place]

theorem lowest_concat (base : Nat) (high : List Char) (c : Char) :
    lowest base (high ++ [c]) = if passes base c then lowest base high else some c := by
  unfold lowest
  rw [reverse_append, reverse_singleton, singleton_append, dropWhile_cons]
  split
  next => rfl
  next => rfl

theorem digitsIn_concat (hd : digitOf c = some d) : digitsIn (high ++ [c]) = digitsIn high ++ [d] := by
  unfold digitsIn
  rw [filterMap_append, filterMap_cons_some hd, filterMap_nil]

theorem digitsIn_point (high : List Char) : digitsIn (high ++ ['.']) = digitsIn high := by
  unfold digitsIn
  rw [filterMap_append]
  exact append_nil _

/-! ## All places -/

theorem forall_concat {p : Char → Prop} (hs : ∀ c ∈ s, p c) (hc : p c) : ∀ x ∈ s ++ [c], p x := by
  intro x hx
  cases mem_append.mp hx with
  | inl h => exact hs x h
  | inr h => exact mem_singleton.mp h ▸ hc

/-- A point stays where it is. -/
theorem Rounded.point {carry : Bool} (h : Rounded base s carry s') :
    Rounded base (s ++ ['.']) carry (s' ++ ['.']) := by
  refine ⟨forall_concat h.places (.inl rfl), ?_, ?_, ?_⟩
  · rw [map_append, map_append, h.same]
  · rw [digitsIn_point, digitsIn_point]
    exact h.value
  · rw [digitsIn_point]
    exact h.carry_iff

/-- The greatest digit becomes a zero, and what follows it goes on to the places before it. -/
theorem Rounded.greatest {carry : Bool} (h : Rounded base s carry s') (hbase : 0 < base)
    (hd : digitOf c = some d) (hgreatest : d + 1 = base) :
    Rounded base (s ++ [c]) carry (s' ++ ['0']) := by
  have hzero : digitOf '0' = some 0 := rfl
  refine ⟨forall_concat h.places (.inr ⟨0, hbase, hzero⟩), ?_, ?_, ?_⟩
  · rw [map_append, map_append, h.same, map_singleton, map_singleton,
      beq_false_of_ne (digitOf_ne_point hd)]
    rfl
  · rw [digitsIn_concat hd, digitsIn_concat hzero, Positional.value_concat, Positional.value_concat,
      length_append, length_singleton, Nat.pow_succ, ← Nat.mul_assoc, Nat.add_zero,
      ← Nat.add_mul, h.value, Nat.add_mul]
    omega
  · rw [digitsIn_concat hd, h.carry_iff]
    constructor
    · intro hall x hx
      cases mem_append.mp hx with
      | inl hhigh => exact hall x hhigh
      | inr hlow => exact mem_singleton.mp hlow ▸ hgreatest
    · intro hall x hx
      exact hall x (mem_append_left _ hx)

/-- Another digit takes the unit. -/
theorem rounded_less (hs : ∀ c ∈ s, IsPlace base c) (hd : digitOf c = some d)
    (hless : d + 1 < base) (hbase : base ≤ 16) (hnine : c ≠ '9') :
    Rounded base (s ++ [c]) false (s ++ [nextChar c]) := by
  have hnext := digitOf_next hd (by omega) hnine
  refine ⟨forall_concat hs (.inr ⟨d + 1, hless, hnext⟩), ?_, ?_, ?_⟩
  · rw [map_append, map_append, map_singleton, map_singleton,
      beq_false_of_ne (digitOf_ne_point hd), beq_false_of_ne (digitOf_ne_point hnext)]
  · rw [digitsIn_concat hd, digitsIn_concat hnext, Positional.value_concat, Positional.value_concat,
      Bool.toNat_false, Nat.zero_mul]
    omega
  · rw [digitsIn_concat hd]
    refine iff_of_false Bool.false_ne_true fun hall => ?_
    have := hall d (mem_append_right _ (mem_singleton_self d))
    omega

/-- The loop from the last place on, by induction on the places before it. -/
theorem round_places (hbase : base ≤ 16) (hs : ∀ c ∈ s, IsPlace base c) (after : List Char) :
    ∃ carry s', roundDigitBuffer base s.length (s ++ after) = (carry, s' ++ after) ∧
      (lowest base s ≠ some '9' → Rounded base s carry s') ∧
      (lowest base s = some '9' → ':' ∈ s') := by
  induction s using List.reverseRecOn generalizing after with
  | nil =>
    refine ⟨true, [], rfl, fun _ => ⟨hs, rfl, rfl, ?_⟩, fun h => (some_ne_none _ h.symm).elim⟩
    exact iff_of_true rfl fun d hd => absurd hd not_mem_nil
  | append_singleton high c ih =>
    have hhigh : ∀ c ∈ high, IsPlace base c := fun x hx => hs x (mem_append_left _ hx)
    rw [length_append, length_singleton, append_assoc, singleton_append, lowest_concat]
    cases hs c (mem_append_right _ (mem_singleton_self c)) with
    | inl hpoint =>
      subst hpoint
      obtain ⟨carry, s', hround, hgood, hbad⟩ := ih hhigh ('.' :: after)
      have hpasses : passes base '.' = true := rfl
      rw [round_point, hround, if_pos hpasses]
      refine ⟨carry, s' ++ ['.'], by simp, fun h => (hgood h).point, fun h => ?_⟩
      exact mem_append_left _ (hbad h)
    | inr hdigit =>
      obtain ⟨d, hd, hdigit⟩ := hdigit
      by_cases hgreatest : d + 1 = base
      · have hpasses : passes base c = true := by
          simp only [passes, hdigit, Bool.or_eq_true, decide_eq_true_eq, some.injEq]
          omega
        obtain ⟨carry, s', hround, hgood, hbad⟩ := ih hhigh ('0' :: after)
        rw [round_greatest hdigit hgreatest, hround, if_pos hpasses]
        refine ⟨carry, s' ++ ['0'], by simp, fun h => ?_, fun h => ?_⟩
        · exact (hgood h).greatest (by omega) hdigit hgreatest
        · exact mem_append_left _ (hbad h)
      · have hpasses : passes base c = false := by
          simp only [passes, hdigit, Bool.or_eq_false_iff, decide_eq_false_iff_not, some.injEq]
          exact ⟨digitOf_ne_point hdigit, by omega⟩
        rw [round_less hdigit (by omega), if_neg (by rw [hpasses]; exact Bool.false_ne_true)]
        refine ⟨false, high ++ [nextChar c], by simp, fun h => ?_, fun h => ?_⟩
        · have hnine : c ≠ '9' := fun heq => h (congrArg some heq)
          exact rounded_less hhigh hdigit (by omega) hbase hnine
        · rw [some.inj h]
          exact mem_append_right _ (mem_singleton_self _)

/-- The digits are rounded exactly when the last one that is not the greatest is no `9`. -/
theorem round_iff (hbase : base = 10 ∨ base = 16) (hs : DigitString base s) :
    Rounded base s (roundDigitBuffer base s.length s).1 (roundDigitBuffer base s.length s).2 ↔
      lowest base s ≠ some '9' := by
  obtain ⟨carry, s', hround, hgood, hbad⟩ := round_places (by omega) hs.places []
  rw [List.append_nil, List.append_nil] at hround
  rw [hround]
  refine ⟨fun h hnine => ?_, hgood⟩
  exact not_isPlace_colon (h.places ':' (hbad hnine))

theorem round_iff_hex : Rounded 16 "1.aF".toList
    (roundDigitBuffer 16 4 "1.aF".toList).1 (roundDigitBuffer 16 4 "1.aF".toList).2 :=
  (round_iff (s := "1.aF".toList) (.inr rfl) ⟨forall_of_all (by decide), by decide⟩).mpr (by decide)

theorem nine_not_rounded : DigitString 16 "1.9".toList ∧
    roundDigitBuffer 16 3 "1.9".toList = (false, "1.:".toList) ∧
    ¬ Rounded 16 "1.9".toList false "1.:".toList := by
  refine ⟨⟨forall_of_all (by decide), by decide⟩, rfl, fun h => ?_⟩
  exact not_isPlace_colon (h.places ':' (by decide))

end MeatySkeleton.Libc.Printf
