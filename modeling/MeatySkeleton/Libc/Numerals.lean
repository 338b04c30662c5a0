import MeatySkeleton.Libc.StandardFormat

/-!
# The numbers `vfprintf` writes

`__int_str` and `__uint_str` write the digits of a number and lay them out in a field: the standard
layout of the standard digits, for every width that they keep.
-/

namespace MeatySkeleton.Libc.Printf

open List
open Nat (toDigits)

variable {base value : Nat} {digit : List Char} {sign body : List Char}

/-! ## Digits -/

theorem mem_toDigits {c : Char} (hb : 1 < base) (h : c ∈ toDigits base value) :
    ∃ k < base, k.digitChar = c := by
  induction value using Nat.strongRecOn with
  | _ value ih =>
    rw [Nat.toDigits_eq_if hb] at h
    split at h
    next hlt => exact ⟨value, hlt, (mem_singleton.mp h).symm⟩
    next hge =>
      rcases mem_append.mp h with h | h
      · exact ih (value / base) (Nat.div_lt_self (by omega) hb) h
      · exact ⟨value % base, Nat.mod_lt _ (by omega), (mem_singleton.mp h).symm⟩

theorem toDigits_head (hb : 1 < base) (hb' : base ≤ 16) (hvalue : value ≠ 0) :
    (toDigits base value).head? ≠ some '0' := by
  have hdigit : ∀ k < 16, k ≠ 0 → k.digitChar ≠ '0' := by decide
  induction value using Nat.strongRecOn with
  | _ value ih =>
    rw [Nat.toDigits_eq_if hb]
    split
    next hlt =>
      intro hhead
      exact hdigit value (by omega) hvalue (Option.some.inj hhead)
    next hge =>
      have hquotient : value / base ≠ 0 := by
        have hpos := Nat.div_pos (Nat.le_of_not_lt hge) (Nat.zero_lt_of_lt hb)
        omega
      have hne := ih (value / base) (Nat.div_lt_self (by omega) hb) hquotient
      cases hdigits : toDigits base (value / base) with
      | nil => exact absurd hdigits Nat.toDigits_ne_nil
      | cons c rest =>
        rw [hdigits] at hne
        exact hne

/-- The loops of the code write the digits, in their own characters. -/
theorem numeral_eq {f : Char → Char} (hb : 1 < base)
    (hdigit : ∀ k < base, digit.getD k '0' = f k.digitChar) {fuel : Nat} (hfuel : value < fuel)
    (written : List Char) :
    numeral digit base fuel value written = (toDigits base value).map f ++ written := by
  induction fuel generalizing value written with
  | zero => exact absurd hfuel (Nat.not_lt_zero _)
  | succ fuel ih =>
    have hmod : value % base < base := Nat.mod_lt _ (by omega)
    rw [numeral, hdigit _ hmod]
    split
    next hzero =>
      have hlt : value < base := (Nat.div_eq_zero_iff_lt (by omega)).mp hzero
      rw [Nat.toDigits_of_lt_base hlt, Nat.mod_eq_of_lt hlt]
      rfl
    next hmore =>
      have hle : base ≤ value := Nat.le_of_not_lt fun hlt => hmore (Nat.div_eq_of_lt hlt)
      have hless : value / base < fuel := by
        have := Nat.div_lt_self (show 0 < value by omega) hb
        omega
      rw [ih hless, Nat.toDigits_of_base_le hb hle, map_append, append_assoc]
      rfl

theorem length_toDigits_le (hb : 1 < base) (hvalue : value < 2 ^ 64) :
    (toDigits base value).length ≤ 64 := by
  rw [Nat.length_toDigits_le_iff hb (by decide)]
  exact Nat.lt_of_lt_of_le hvalue (Nat.pow_le_pow_left hb 64)

/-! ## Fields -/

/-- The end of the two functions, for a number that fits the buffer: a field of the standard. -/
theorem padded_eq {signFirst left zero : Bool} {width : Nat}
    (hsign : sign = [] ∨ (signFirst = true ∧ sign ∈ [['-'], ['+'], [' ']]))
    (hbody : body.head? ≠ some '-' ∧ body.head? ≠ some '+' ∧ body.head? ≠ some ' ')
    (hwidth : width ≤ 255) (hlength : sign.length + body.length ≤ 255) :
    padded (sign ++ body) signFirst width left zero = layout left zero width sign body := by
  have htake : ∀ {l : List Char}, l.length ≤ 255 → l.take 255 = l :=
    fun h => take_of_length_le h
  unfold padded layout
  rw [if_neg (Nat.not_lt.mpr hwidth), length_append]
  dsimp only
  generalize hpadding : width - (sign.length + body.length) = padding
  have hfits : padding + (sign.length + body.length) ≤ 255 := by omega
  cases left with
  | true =>
    have hmin : min padding (255 - (sign.length + body.length)) = padding := by omega
    rw [if_pos rfl, if_pos rfl, hmin]
  | false =>
    rw [if_neg Bool.false_ne_true, if_neg Bool.false_ne_true]
    have hsigned : sign ≠ [] → (sign ++ body).take 1 = sign ∧ (sign ++ body).drop sign.length = body ∧
        ((sign ++ body).head? = some '-' ∨ (sign ++ body).head? = some '+' ∨
          (sign ++ body).head? = some ' ') ∧ signFirst = true := by
      intro hne
      obtain ⟨hfirst, hmem⟩ := hsign.resolve_left hne
      simp only [mem_cons, not_mem_nil, or_false] at hmem
      rcases hmem with rfl | rfl | rfl
      · exact ⟨rfl, rfl, .inl rfl, hfirst⟩
      · exact ⟨rfl, rfl, .inr (.inl rfl), hfirst⟩
      · exact ⟨rfl, rfl, .inr (.inr rfl), hfirst⟩
    cases zero with
    | false =>
      rw [if_neg (fun h => Bool.false_ne_true h.2.1), if_neg Bool.false_ne_true,
        if_neg Bool.false_ne_true]
      rw [nil_append, length_nil, drop_zero, htake]
      rw [length_append, length_append, length_replicate]
      exact hfits
    | true =>
      by_cases hempty : sign = []
      · subst hempty
        rw [if_neg, if_pos rfl, if_pos rfl]
        · rw [length_nil, drop_zero, nil_append, nil_append, htake]
          rw [length_append, length_replicate]
          rw [length_nil, Nat.zero_add] at hfits
          exact hfits
        · rintro ⟨-, -, hhead⟩
          rw [nil_append] at hhead
          rcases hhead with h | h | h
          · exact hbody.1 h
          · exact hbody.2.1 h
          · exact hbody.2.2 h
      · obtain ⟨htake1, hdrop, hhead, hfirst⟩ := hsigned hempty
        rw [if_pos ⟨hfirst, rfl, hhead⟩, if_pos rfl, if_pos rfl, htake1, hdrop, htake]
        rw [length_append, length_append, length_replicate]
        omega

/-- The head of a number is no sign and no space. -/
theorem toDigits_unsigned {f : Char → Char} (hb : 1 < base)
    (hf : ∀ k < base, f k.digitChar ≠ '-' ∧ f k.digitChar ≠ '+' ∧ f k.digitChar ≠ ' ') :
    ((toDigits base value).map f).head? ≠ some '-' ∧
      ((toDigits base value).map f).head? ≠ some '+' ∧
      ((toDigits base value).map f).head? ≠ some ' ' := by
  have hhead : ∀ c, ((toDigits base value).map f).head? = some c →
      ∃ k < base, f k.digitChar = c := by
    intro c hc
    obtain ⟨d, hd, rfl⟩ := mem_map.mp (mem_of_mem_head? hc)
    obtain ⟨k, hk, rfl⟩ := mem_toDigits hb hd
    exact ⟨k, hk, rfl⟩
  refine ⟨fun hc => ?_, fun hc => ?_, fun hc => ?_⟩
  · obtain ⟨k, hk, heq⟩ := hhead _ hc
    exact (hf k hk).1 heq
  · obtain ⟨k, hk, heq⟩ := hhead _ hc
    exact (hf k hk).2.1 heq
  · obtain ⟨k, hk, heq⟩ := hhead _ hc
    exact (hf k hk).2.2 heq

/-- The sign of a number under the flags `+` and space. -/
def signText (value : Int) (plus space : Bool) : List Char :=
  if value < 0 then ['-'] else if plus then ['+'] else if space then [' '] else []

theorem intStr_eq {i : Int} {plus space left zero : Bool} {width : Nat} (hi : i.natAbs < 2 ^ 64)
    (hwidth : width ≤ 255) : intStr i 10 plus space width left zero =
      layout left zero width (signText i plus space) (toDigits 10 i.natAbs) := by
  have hvalue : (if i < 0 then (-(i + 1)).toNat + 1 else i.toNat) = i.natAbs := by
    split
    next => omega
    next => omega
  have hnumber := @numeral_eq 10 i.natAbs "0123456789".toList id (by decide) (by decide)
    (i.natAbs + 1) (Nat.lt_succ_self _) []
  rw [map_id, append_nil] at hnumber
  have hsign : signText i plus space = [] ∨
      (true = true ∧ signText i plus space ∈ [['-'], ['+'], [' ']]) := by
    unfold signText
    split
    next => exact .inr ⟨rfl, by decide⟩
    next =>
      cases plus with
      | true => exact .inr ⟨rfl, by simp⟩
      | false =>
        cases space with
        | true => exact .inr ⟨rfl, by simp⟩
        | false => exact .inl rfl
  have hshort : (signText i plus space).length ≤ 1 := by
    unfold signText
    split
    next => exact Nat.le_refl _
    next => cases plus <;> cases space <;> decide
  have hlong := @length_toDigits_le 10 i.natAbs (by decide) hi
  have hdigits : digits 10 = ("0123456789".toList, 10) := rfl
  unfold intStr
  rw [hdigits]
  dsimp only
  rw [if_neg (by decide), hvalue, hnumber]
  have hfits : (signText i plus space).length + (toDigits 10 i.natAbs).length ≤ 255 := by omega
  have hhead := @toDigits_unsigned 10 i.natAbs id (by decide) (by decide)
  rw [map_id] at hhead
  exact padded_eq hsign hhead hwidth hfits

/-- The digits of `%u`, `%o`, `%x` and `%X`. -/
def uintDigits (specifier : Char) (value : Nat) : List Char :=
  match specifier with
  | 'o' => toDigits 8 value
  | 'x' => toDigits 16 value
  | 'X' => (toDigits 16 value).map Char.toUpper
  | _ => toDigits 10 value

theorem uintStr_of {b : Nat} {f : Char → Char} (hdigits : digits b = (digit, base)) (hb : 1 < base)
    (hb' : base ≤ 16) (hdigit : ∀ k < base, digit.getD k '0' = f k.digitChar)
    (hsigns : ∀ k < base, f k.digitChar ≠ '-' ∧ f k.digitChar ≠ '+' ∧ f k.digitChar ≠ ' ')
    {width : Nat} {left zero : Bool} (hvalue : value < 2 ^ 64) (hwidth : width ≤ 255) :
    uintStr value b width left zero =
      layout left zero width [] ((toDigits base value).map f) := by
  have hlong := length_toDigits_le hb hvalue
  have hfits : ([] : List Char).length + ((toDigits base value).map f).length ≤ 255 := by
    rw [length_map, length_nil]
    omega
  unfold uintStr
  rw [hdigits]
  dsimp only
  rw [if_neg (by omega), numeral_eq hb hdigit (Nat.lt_succ_self value), append_nil]
  exact padded_eq (.inl rfl) (toDigits_unsigned hb hsigns) hwidth hfits

theorem uintStr_eq {width : Nat} {left zero : Bool} {specifier : Char} (hvalue : value < 2 ^ 64)
    (hwidth : width ≤ 255) : uintStr value (uintBase specifier) width left zero =
      layout left zero width [] (uintDigits specifier value) := by
  have hplain : ∀ b ∈ [8, 10], uintStr value b width left zero =
      layout left zero width [] (toDigits b value) := by
    intro b hb
    have hlayout := @uintStr_of b value "0123456789".toList b id
    rw [map_id] at hlayout
    simp only [mem_cons, not_mem_nil, or_false] at hb
    rcases hb with rfl | rfl
    · exact hlayout rfl (by decide) (by decide) (by decide) (by decide) hvalue hwidth
    · exact hlayout rfl (by decide) (by decide) (by decide) (by decide) hvalue hwidth
  by_cases ho : specifier = 'o'
  · subst ho
    exact hplain 8 (by decide)
  by_cases hx : specifier = 'x'
  · subst hx
    have hlayout := @uintStr_of 16 value "0123456789abcdef".toList 17 id
    rw [map_id] at hlayout
    exact hlayout rfl (by decide) (by decide) (by decide) (by decide) hvalue hwidth
  by_cases hX : specifier = 'X'
  · subst hX
    exact @uintStr_of 16 value "0123456789ABCDEF".toList 16 Char.toUpper rfl (by decide) (by decide)
      (by decide) (by decide) _ _ _ hvalue hwidth
  have hbase : uintBase specifier = 10 := by
    unfold uintBase
    split
    case h_4 => rfl
    all_goals contradiction
  have hdigits : uintDigits specifier value = toDigits 10 value := by
    unfold uintDigits
    split
    case h_4 => rfl
    all_goals contradiction
  rw [hbase, hdigits]
  exact hplain 10 (by decide)

end MeatySkeleton.Libc.Printf
