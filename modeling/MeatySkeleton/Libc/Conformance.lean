import MeatySkeleton.Libc.Conversions
import Mathlib.Data.UInt

/-!
# What `vfprintf` writes, and what the standard specifies

The text of a conversion is that of the standard but for three things. The precision of an integer
conversion only turns the padding with zeros off, so digits that it asks for are missing, and the
single zero that a precision of zero would leave out is written. The prefix of `#` comes before the
spaces of a field. And the precision of `%s` ends at 255. `conforms_iff` says that these are all.
-/

namespace MeatySkeleton.Libc.Printf

open List Option
open Nat (toDigits)

variable {takes : Nat → Bool} {floatText : Spec → Char → Args → List Char}
  {memory : UInt32 → List Char} {args : Args} {w : Wanted} {length : Length}
  {left : Bool} {width base value : Nat} {lead body body' : List Char}

/-! ## Fields -/

theorem length_layout (left zero : Bool) (width : Nat) (lead body : List Char) :
    (layout left zero width lead body).length = max width (lead.length + body.length) := by
  unfold layout
  cases left <;> cases zero <;> simp <;> omega

theorem layout_joined (left : Bool) (width : Nat) (lead body : List Char) :
    layout left false width lead body = layout left false width [] (lead ++ body) := by
  unfold layout
  rw [length_append, length_nil, Nat.zero_add]
  rfl

/-- The padding with spaces shows what is padded. -/
theorem filter_layout (left : Bool) (width : Nat) (lead body : List Char) :
    (layout left false width lead body).filter (· ≠ ' ') =
      lead.filter (· ≠ ' ') ++ body.filter (· ≠ ' ') := by
  unfold layout
  cases left with
  | false => simp [filter_append]
  | true => simp [filter_append]

theorem filter_spaces {l : List Char} (h : ' ' ∉ l) : l.filter (· ≠ ' ') = l := by
  refine filter_eq_self.mpr fun c hc => ?_
  exact decide_eq_true fun hspace => h (hspace ▸ hc)

theorem layout_inj (hbody : ' ' ∉ body) (hbody' : ' ' ∉ body') :
    layout left false width lead body = layout left false width lead body' ↔ body = body' := by
  constructor
  · intro h
    have hfilter := congrArg (List.filter (· ≠ ' ')) h
    rw [filter_layout, filter_layout, filter_spaces hbody, filter_spaces hbody'] at hfilter
    exact append_cancel_left hfilter
  · intro h
    rw [h]

/-- A text before the spaces of a field is one in the field where there are none. -/
theorem append_layout (hlead : lead ≠ []) (hspaces : ' ' ∉ lead) :
    lead ++ layout false false (width - lead.length) [] body = layout false false width lead body ↔
      width ≤ lead.length + body.length := by
  unfold layout
  rw [if_neg Bool.false_ne_true, if_neg Bool.false_ne_true, if_neg Bool.false_ne_true,
    if_neg Bool.false_ne_true, length_nil, Nat.zero_add, nil_append, Nat.sub_sub]
  constructor
  · intro h
    by_contra hlt
    cases lead with
    | nil => exact hlead rfl
    | cons c lead =>
      obtain ⟨n, hn⟩ : ∃ n, width - ((c :: lead).length + body.length) = n + 1 :=
        ⟨width - ((c :: lead).length + body.length) - 1, by omega⟩
      rw [hn, replicate_succ] at h
      have hspace : c = ' ' := (List.cons.inj h).1
      exact hspaces (hspace ▸ mem_cons_self)
  · intro h
    rw [Nat.sub_eq_zero_of_le h]
    rfl

/-! ## Digits -/

/-- What is written has the digits that the precision asks for. -/
def Wanted.HasDigits (w : Wanted) (count : Nat) (something : Prop) : Prop :=
  ∀ precision, w.precision = some precision → precision ≤ count ∧ (precision = 0 → something)

theorem numberDigits_length (base value : Nat) (precision : Option Nat) :
    (numberDigits base value precision).length =
      if precision = some 0 ∧ value = 0 then 0
      else max (precision.getD 1) (toDigits base value).length := by
  unfold numberDigits
  split
  next => rfl
  next =>
    rw [length_append, length_replicate]
    omega

theorem numberDigits_eq (h : w.HasDigits (toDigits base value).length (value ≠ 0)) :
    numberDigits base value w.precision = toDigits base value := by
  have hpos := length_pos_of_ne_nil (Nat.toDigits_ne_nil (b := base) (n := value))
  unfold numberDigits
  generalize toDigits base value = digits at hpos h
  dsimp only
  cases hp : w.precision with
  | none =>
    rw [if_neg (fun h => nomatch h.1), getD_none, Nat.sub_eq_zero_of_le hpos]
    rfl
  | some precision =>
    obtain ⟨hle, hzero⟩ := h precision hp
    rw [if_neg (fun h => hzero (some.inj h.1) h.2), getD_some, Nat.sub_eq_zero_of_le hle]
    rfl

theorem numberDigits_iff :
    (numberDigits base value w.precision).length = (toDigits base value).length ↔
      w.HasDigits (toDigits base value).length (value ≠ 0) := by
  have hpos := length_pos_of_ne_nil (Nat.toDigits_ne_nil (b := base) (n := value))
  constructor
  · intro h precision hp
    rw [numberDigits_length, hp] at h
    split at h
    next => omega
    next hneither =>
      rw [getD_some] at h
      refine ⟨by omega, fun hzero hvalue => hneither ⟨?_, hvalue⟩⟩
      rw [hzero]
  · intro h
    rw [numberDigits_eq h]

theorem numberDigits_map_iff {f : Char → Char} :
    (toDigits base value).map f = (numberDigits base value w.precision).map f ↔
      w.HasDigits (toDigits base value).length (value ≠ 0) := by
  constructor
  · intro h
    have hlength := congrArg List.length h
    rw [length_map, length_map] at hlength
    exact numberDigits_iff.mp hlength.symm
  · intro h
    rw [numberDigits_eq h]

/-- With `#` the zero in front counts as a digit. -/
theorem octalDigits_iff (hvalue : value ≠ 0) :
    '0' :: toDigits 8 value =
        (if (numberDigits 8 value w.precision).head? ≠ some '0' then
          '0' :: numberDigits 8 value w.precision else numberDigits 8 value w.precision) ↔
      w.HasDigits ((toDigits 8 value).length + 1) True := by
  have hhead := @toDigits_head 8 value (by decide) (by decide) hvalue
  have hnumber : numberDigits 8 value w.precision = List.replicate
      (w.precision.getD 1 - (toDigits 8 value).length) '0' ++ toDigits 8 value :=
    if_neg fun h => hvalue h.2
  have hpos := length_pos_of_ne_nil (Nat.toDigits_ne_nil (b := 8) (n := value))
  rw [hnumber]
  generalize toDigits 8 value = digits at *
  cases hp : w.precision with
  | none =>
    rw [getD_none, Nat.sub_eq_zero_of_le hpos, replicate_zero, nil_append, if_pos hhead]
    refine ⟨fun _ precision hsome => ?_, fun _ => rfl⟩
    rw [hp] at hsome
    cases hsome
  | some precision =>
    rw [getD_some]
    constructor
    · intro h precision' hsome
      obtain rfl := some.inj (hp.symm.trans hsome)
      have hlength := congrArg List.length h
      refine ⟨?_, fun _ => trivial⟩
      split at hlength
      next =>
        simp only [length_cons, length_append, length_replicate] at hlength
        omega
      next =>
        simp only [length_cons, length_append, length_replicate] at hlength
        omega
    · intro h
      obtain ⟨hle, -⟩ := h precision hp
      by_cases hfew : precision ≤ digits.length
      · rw [Nat.sub_eq_zero_of_le hfew, replicate_zero, nil_append, if_pos hhead]
      · have hone : precision - digits.length = 1 := by omega
        rw [hone]
        rfl

/-! ## Integers -/

/-- The prefix is where the standard has it. -/
def Wanted.InPlace (w : Wanted) (count : Nat) : Prop :=
  w.left = true ∨ (w.zero && w.precision.isNone) = true ∨ w.width ≤ count

theorem numberDigits_spaces {f : Char → Char} (hb : 1 < base)
    (hf : ∀ k < base, f k.digitChar ≠ ' ') (precision : Option Nat) :
    ' ' ∉ (numberDigits base value precision).map f := by
  have hdigits := @toDigits_spaces base value f hb hf
  have hzero : f '0' ≠ ' ' := hf 0 (Nat.zero_lt_of_lt hb)
  unfold numberDigits
  split
  next => exact not_mem_nil
  next =>
    rw [map_append, map_replicate, mem_append]
    rintro (hmem | hmem)
    · exact hzero (eq_of_mem_replicate hmem).symm
    · exact hdigits hmem

theorem integerText_inj (hbody : ' ' ∉ body) (hbody' : ' ' ∉ body')
    (hnone : w.precision = none → body = body') :
    w.integerText lead body = w.integerText lead body' ↔ body = body' := by
  constructor
  · intro h
    unfold Wanted.integerText at h
    cases hp : w.precision with
    | none => exact hnone hp
    | some precision =>
      rw [hp, isNone_some, Bool.and_false, layout_inj hbody hbody'] at h
      exact h
  · intro h
    rw [h]

theorem Wanted.HasDigits.of_none (h : w.precision = none) (count : Nat) (something : Prop) :
    w.HasDigits count something := by
  intro precision hp
  rw [h] at hp
  cases hp

theorem integerText_iff {f : Char → Char} (hb : 1 < base) (hf : ∀ k < base, f k.digitChar ≠ ' ') :
    w.integerText lead ((toDigits base value).map f) =
        w.integerText lead ((numberDigits base value w.precision).map f) ↔
      w.HasDigits (toDigits base value).length (value ≠ 0) := by
  rw [integerText_inj (toDigits_spaces hb hf) (numberDigits_spaces hb hf _), numberDigits_map_iff]
  intro hp
  exact numberDigits_map_iff.mpr (.of_none hp _ _)

/-- The zeros of the code are those of the standard, where they matter. -/
theorem layout_zeros (w : Wanted) (length : Length) (asked : Option Nat) (lead body : List Char) :
    layout w.left (w.spec length asked).zeros w.width lead body = w.integerText lead body := by
  unfold Spec.zeros Wanted.spec Wanted.integerText
  cases w.left with
  | true => rfl
  | false =>
    cases w.precision with
    | none => simp
    | some precision => simp

theorem writtenInt_iff (asked : Option Nat) (value : Int) :
    (w.spec length asked).writtenInt value = w.signedText value ↔
      w.HasDigits (toDigits 10 value.natAbs).length (value.natAbs ≠ 0) := by
  have htext := @integerText_iff w 10 value.natAbs (signText value w.plus w.space) id (by decide)
    (by decide)
  rw [List.map_id, List.map_id, ← layout_zeros w length asked] at htext
  exact htext

theorem writtenUint_eq (asked : Option Nat) (specifier : Char) (value : Nat) :
    (w.spec length asked).writtenUint specifier value =
      if alternate w.alternate specifier value ≠ [] ∧ w.left = false ∧
          (w.zero && w.precision.isNone) = false then
        alternate w.alternate specifier value ++
          layout false false (w.width - (alternate w.alternate specifier value).length) []
            (uintDigits specifier value)
      else w.integerText (alternate w.alternate specifier value) (uintDigits specifier value) := by
  have hzeros : w.left = false →
      ((w.spec length asked).zeros = false ↔ (w.zero && w.precision.isNone) = false) := by
    intro hleft
    unfold Spec.zeros Wanted.spec
    rw [hleft]
    cases w.precision with
    | none => simp
    | some precision => simp
  unfold Spec.writtenUint
  rw [← layout_zeros w length asked]
  refine if_congr ?_ rfl rfl
  exact and_congr_right fun _ => and_congr_right fun hleft => hzeros hleft

theorem writtenUint_iff {asked : Option Nat} {specifier : Char} {lead' : List Char}
    (hlead : ' ' ∉ lead') (hbody : ' ' ∉ body') :
    (w.spec length asked).writtenUint specifier value = w.integerText lead' body' ↔
      w.integerText (alternate w.alternate specifier value) (uintDigits specifier value) =
        w.integerText lead' body' ∧
      (alternate w.alternate specifier value ≠ [] →
        w.InPlace ((alternate w.alternate specifier value).length +
          (uintDigits specifier value).length)) := by
  have hspaces := uintDigits_spaces specifier value
  have hplain : ' ' ∉ alternate w.alternate specifier value := by
    unfold alternate
    split
    next =>
      split
      all_goals decide
    next => exact not_mem_nil
  rw [writtenUint_eq]
  generalize uintDigits specifier value = body at hspaces ⊢
  generalize alternate w.alternate specifier value = lead at hplain ⊢
  unfold Wanted.InPlace
  split
  next hcond =>
    obtain ⟨hne, hleft, hzero⟩ := hcond
    unfold Wanted.integerText
    rw [hleft, hzero]
    constructor
    · intro h
      have hfilter := congrArg (List.filter (· ≠ ' ')) h
      rw [filter_append, filter_layout, filter_layout, filter_spaces hplain,
        filter_spaces hspaces, filter_spaces hlead, filter_spaces hbody] at hfilter
      have hsame : layout false false w.width lead body = layout false false w.width lead' body' := by
        rw [layout_joined, layout_joined false w.width lead', ← hfilter]
        rfl
      rw [← hsame, append_layout hne hplain] at h
      exact ⟨hsame, fun _ => .inr (.inr h)⟩
    · rintro ⟨hsame, hplace⟩
      rw [← hsame, append_layout hne hplain]
      exact ((hplace hne).resolve_left Bool.false_ne_true).resolve_left Bool.false_ne_true
  next hcond =>
    refine ⟨fun h => ⟨h, fun hne => ?_⟩, And.left⟩
    by_contra hplace
    rw [not_or, not_or, Bool.not_eq_true, Bool.not_eq_true] at hplace
    exact hcond ⟨hne, hplace.1, hplace.2.1⟩

theorem decimal_iff (asked : Option Nat) :
    (w.spec length asked).writtenUint 'u' value =
        w.integerText [] (numberDigits 10 value w.precision) ↔
      w.HasDigits (toDigits 10 value).length (value ≠ 0) := by
  have hlead : alternate w.alternate 'u' value = [] := by
    unfold alternate
    split
    next => rfl
    next => rfl
  have hspaces := @numberDigits_spaces 10 value id (by decide) (by decide) w.precision
  have htext := @integerText_iff w 10 value [] id (by decide) (by decide)
  rw [List.map_id] at hspaces
  rw [List.map_id, List.map_id] at htext
  rw [writtenUint_iff not_mem_nil hspaces, hlead]
  exact (and_iff_left fun hne => absurd rfl hne).trans htext

theorem hex_iff (asked : Option Nat) {letter : Char} (hletter : letter = 'x' ∨ letter = 'X') :
    (w.spec length asked).writtenUint letter value = w.hexText letter value ↔
      w.HasDigits (toDigits 16 value).length (value ≠ 0) ∧
      (w.alternate = true → value ≠ 0 → w.InPlace (2 + (toDigits 16 value).length)) := by
  obtain ⟨f, hf, hdigits, hnumber⟩ : ∃ f : Char → Char, (∀ k < 16, f k.digitChar ≠ ' ') ∧
      uintDigits letter value = (toDigits 16 value).map f ∧
      ∀ body : List Char, (if letter = 'X' then body.map Char.toUpper else body) = body.map f := by
    rcases hletter with rfl | rfl
    · refine ⟨id, by decide, (List.map_id _).symm, fun body => ?_⟩
      rw [if_neg (by decide), List.map_id]
    · exact ⟨Char.toUpper, by decide, rfl, fun body => if_pos rfl⟩
  have hlead : alternate w.alternate letter value =
      if w.alternate = true ∧ value ≠ 0 then ['0', letter] else [] := by
    rcases hletter with rfl | rfl
    · rfl
    · rfl
  have hspaces := @numberDigits_spaces 16 value f (by decide) hf w.precision
  have hplain : ' ' ∉ (if w.alternate = true ∧ value ≠ 0 then ['0', letter] else []) := by
    split
    next => rcases hletter with rfl | rfl <;> decide
    next => exact not_mem_nil
  unfold Wanted.hexText
  dsimp only
  rw [hnumber, writtenUint_iff hplain hspaces, hlead, hdigits, length_map,
    integerText_iff (by decide) hf]
  refine and_congr_right fun _ => ⟨fun h halternate hvalue => ?_, fun h hne => ?_⟩
  · rw [if_pos ⟨halternate, hvalue⟩] at h
    exact h (cons_ne_nil _ _)
  · split at hne
    next hcond =>
      rw [if_pos hcond]
      exact h hcond.1 hcond.2
    next => exact absurd rfl hne

theorem octal_spaces : ' ' ∉ (if w.alternate = true ∧
    (numberDigits 8 value w.precision).head? ≠ some '0' then
      '0' :: numberDigits 8 value w.precision else numberDigits 8 value w.precision) := by
  have hnumber := @numberDigits_spaces 8 value id (by decide) (by decide) w.precision
  rw [List.map_id] at hnumber
  split
  next => exact not_mem_cons_of_ne_of_not_mem (by decide) hnumber
  next => exact hnumber

/-- The zero of `#` is one of the zeros of the padding. -/
theorem integerText_octal (w : Wanted) (digits : List Char) :
    w.integerText ['0'] digits = w.integerText [] ('0' :: digits) := by
  have hzeros : ∀ n, ['0'] ++ List.replicate n '0' ++ digits = List.replicate n '0' ++ '0' :: digits := by
    intro n
    rw [singleton_append, ← replicate_succ, replicate_succ', append_assoc]
    rfl
  unfold Wanted.integerText layout
  dsimp only
  have hlength : ['0'].length + digits.length = ([] : List Char).length + ('0' :: digits).length := by
    simp [Nat.add_comm]
  rw [hlength]
  cases w.left with
  | true => rfl
  | false =>
    cases w.zero && w.precision.isNone with
    | true => exact hzeros _
    | false => rfl

/-- What `#` makes of the digits of zero. -/
theorem octalZero_iff :
    ['0'] = (if (numberDigits 8 0 w.precision).head? ≠ some '0' then
      '0' :: numberDigits 8 0 w.precision else numberDigits 8 0 w.precision) ↔
    w.HasDigits 1 True := by
  have hdigits : toDigits 8 0 = ['0'] := rfl
  unfold numberDigits
  rw [hdigits]
  cases hp : w.precision with
  | none => exact ⟨fun _ => .of_none hp _ _, fun _ => rfl⟩
  | some precision =>
    have hiff : w.HasDigits 1 True ↔ precision ≤ 1 := by
      refine ⟨fun h => (h precision hp).1, fun h precision' hsome => ?_⟩
      obtain rfl := some.inj (hp.symm.trans hsome)
      exact ⟨h, fun _ => trivial⟩
    rw [hiff]
    rcases precision with _ | _ | precision
    · exact ⟨fun _ => Nat.zero_le _, fun _ => rfl⟩
    · exact ⟨fun _ => Nat.le_refl _, fun _ => rfl⟩
    · refine ⟨fun h => ?_, fun h => absurd h (by omega)⟩
      have hlength := congrArg List.length h
      simp [replicate_succ] at hlength

/-- The digits of `%o`, with the zero of `#`. -/
theorem octalText_iff : w.integerText (alternate w.alternate 'o' value) (toDigits 8 value) =
      w.octalText value ↔
    w.HasDigits ((alternate w.alternate 'o' value).length + (toDigits 8 value).length)
      (value ≠ 0 ∨ w.alternate = true) := by
  have hspaces := @octal_spaces w value
  have hdigits := @toDigits_spaces 8 value id (by decide) (by decide)
  rw [List.map_id] at hdigits
  unfold Wanted.octalText alternate
  dsimp only
  by_cases halternate : w.alternate = true
  · simp only [halternate, true_and, or_true] at hspaces ⊢
    by_cases hvalue : value = 0
    · subst hvalue
      rw [if_neg (fun h => h rfl), integerText_inj hdigits hspaces]
      · exact octalZero_iff
      · intro hp
        exact octalZero_iff.mpr (.of_none hp _ _)
    · have hzero : ' ' ∉ '0' :: toDigits 8 value :=
        not_mem_cons_of_ne_of_not_mem (by decide) hdigits
      rw [if_pos hvalue, integerText_octal, integerText_inj hzero hspaces, octalDigits_iff hvalue,
        length_singleton, Nat.add_comm]
      intro hp
      exact (octalDigits_iff hvalue).mpr (.of_none hp _ _)
  · have hplain := @integerText_iff w 8 value [] id (by decide) (by decide)
    rw [List.map_id, List.map_id] at hplain
    rw [if_neg (fun h => halternate h.1), if_neg (fun h => halternate h.1), hplain, length_nil,
      Nat.zero_add, or_iff_left halternate]

theorem octal_iff (asked : Option Nat) :
    (w.spec length asked).writtenUint 'o' value = w.octalText value ↔
      w.HasDigits ((alternate w.alternate 'o' value).length + (toDigits 8 value).length)
        (value ≠ 0 ∨ w.alternate = true) ∧
      (w.alternate = true → value ≠ 0 → w.InPlace (1 + (toDigits 8 value).length)) := by
  have hlead : alternate w.alternate 'o' value =
      if w.alternate = true ∧ value ≠ 0 then ['0'] else [] := rfl
  rw [← octalText_iff]
  unfold Wanted.octalText
  refine (writtenUint_iff not_mem_nil octal_spaces).trans ?_
  refine and_congr_right fun _ => ⟨fun h halternate hvalue => ?_, fun h hne => ?_⟩
  · rw [hlead, if_pos ⟨halternate, hvalue⟩] at h
    exact h (cons_ne_nil _ _)
  · rw [hlead] at hne ⊢
    split at hne
    next hcond =>
      rw [if_pos hcond]
      exact h hcond.1 hcond.2
    next => exact absurd rfl hne

/-! ## Strings -/

theorem writtenString_iff (asked : Option Nat) (hwidth : w.width ≤ 255) (string : List Char) :
    (w.spec length asked).writtenString string = w.stringText string ↔
      ∀ precision, w.precision = some precision → precision ≤ 255 ∨ string.length ≤ 255 := by
  unfold Spec.writtenString Wanted.stringText Wanted.spec
  dsimp only
  cases w.precision with
  | none => exact ⟨fun _ _ hp => (nomatch hp), fun _ => rfl⟩
  | some precision =>
    dsimp only [map_some]
    unfold atMost255
    by_cases hover : 255 < precision
    · rw [if_pos hover]
      constructor
      · intro h precision' hp
        obtain rfl := some.inj hp
        have hlength := congrArg List.length h
        rw [length_layout, length_layout, length_take, length_take, length_nil] at hlength
        omega
      · intro h
        have hshort := (h precision rfl).resolve_left (Nat.not_le.mpr hover)
        rw [take_of_length_le hshort, take_of_length_le (by omega)]
    · rw [if_neg hover]
      refine ⟨fun _ precision' hp => ?_, fun _ => rfl⟩
      obtain rfl := some.inj hp
      exact .inl (Nat.le_of_not_lt hover)

/-! ## Conversions -/

/-- That a conversion is none of those that `vfprintf` gets wrong. -/
def Wanted.Kept (w : Wanted) (memory : UInt32 → List Char) (length : Length) (specifier : Char)
    (args : Args) : Prop :=
  match specifier with
  | 'd' | 'i' =>
    let digits := toDigits 10 (length.signedValue args).natAbs
    w.HasDigits digits.length ((length.signedValue args).natAbs ≠ 0)
  | 'u' =>
    let digits := toDigits 10 (length.unsignedValue args)
    w.HasDigits digits.length (length.unsignedValue args ≠ 0)
  | 'o' =>
    let digits := toDigits 8 (length.unsignedValue args)
    w.HasDigits
        ((Printf.alternate w.alternate 'o' (length.unsignedValue args)).length + digits.length)
        (length.unsignedValue args ≠ 0 ∨ w.alternate = true) ∧
      (w.alternate = true → length.unsignedValue args ≠ 0 → w.InPlace (1 + digits.length))
  | 'x' | 'X' =>
    let digits := toDigits 16 (length.unsignedValue args)
    w.HasDigits digits.length (length.unsignedValue args ≠ 0) ∧
      (w.alternate = true → length.unsignedValue args ≠ 0 → w.InPlace (2 + digits.length))
  | 's' => ∀ precision, w.precision = some precision →
      precision ≤ 255 ∨ (memory (args 0)).length ≤ 255
  | _ => True

theorem written_iff {c : Char} (asked : Option Nat) (hletter : c ∈ integral ++ ['c', 's', '%'])
    (hwidth : w.width ≤ 255) (args : Args) :
    (w.spec length asked).written memory c args = w.text memory length c args ↔
      w.Kept memory length c args := by
  simp only [integral, cons_append, nil_append, mem_cons, not_mem_nil, or_false] at hletter
  rcases hletter with rfl | rfl | rfl | rfl | rfl | rfl | rfl | rfl | rfl
  · exact writtenInt_iff asked _
  · exact writtenInt_iff asked _
  · exact decimal_iff asked
  · exact octal_iff asked
  · exact hex_iff asked (.inl rfl)
  · exact hex_iff asked (.inr rfl)
  · exact ⟨fun _ => trivial, fun _ => rfl⟩
  · exact writtenString_iff asked hwidth _
  · exact ⟨fun _ => trivial, fun _ => rfl⟩

/-! ## Formats -/

/-- What `vfprintf` writes for a piece. -/
def Piece.written (memory : UInt32 → List Char) (p : Piece) (args : Args) : List Char :=
  match p with
  | .literal c => [c]
  | .conversion d =>
    ((d.wanted args).1.spec d.length none).written memory d.specifier (d.wanted args).2

def writtenText (memory : UInt32 → List Char) : List Piece → Args → List Char
  | [], _ => []
  | p :: pieces, args =>
    p.written memory args ++ writtenText memory pieces (p.standard memory args).2

/-- What holds of each piece of a format and the arguments that it finds. -/
def Throughout (holds : Piece → Args → Prop) (memory : UInt32 → List Char) :
    List Piece → Args → Prop
  | [], _ => True
  | p :: pieces, args => holds p args ∧ Throughout holds memory pieces (p.standard memory args).2

/-- That a piece is none of those that `vfprintf` gets wrong. -/
def Piece.Kept (memory : UInt32 → List Char) (p : Piece) (args : Args) : Prop :=
  match p with
  | .literal _ => True
  | .conversion d => (d.wanted args).1.Kept memory d.length d.specifier (d.wanted args).2

theorem Piece.written_iff {p : Piece} (hvalid : p.Valid) (hfits : p.Fits args) :
    p.written memory args = (p.standard memory args).1 ↔ p.Kept memory args := by
  cases p with
  | literal c => exact ⟨fun _ => trivial, fun _ => rfl⟩
  | conversion d => exact Printf.written_iff none (Directive.Valid.specifier_mem hvalid) hfits.1 _

theorem formatLoop_wrote (htakes : ∀ i, takes i = true) {pieces : List Piece} {fuel : Nat}
    {s : Printer} (hfuel : (formatOf pieces).length ≤ fuel) (hvalid : ∀ p ∈ pieces, p.Valid)
    (hfits : Throughout Piece.Fits memory pieces s.args) :
    ∃ s', formatLoop takes floatText memory fuel (formatOf pieces) s = some s' ∧
      Wrote s s' (writtenText memory pieces s.args) := by
  induction pieces generalizing fuel s with
  | nil =>
    refine ⟨s, ?_, .refl s⟩
    cases fuel <;> rfl
  | cons p pieces ih =>
    obtain ⟨hp, hrest⟩ := hfits
    have hvalid' := fun p hp => hvalid p (mem_cons_of_mem _ hp)
    have htext : formatOf (p :: pieces) = p.text ++ formatOf pieces := flatMap_cons
    have hthis := hvalid p mem_cons_self
    rw [htext] at hfuel ⊢
    cases fuel with
    | zero =>
      rw [length_append] at hfuel
      cases p with
      | literal c => exact absurd hfuel (by simp [Piece.text])
      | conversion d => exact absurd hfuel (by simp [Piece.text])
    | succ fuel =>
      cases p with
      | literal c =>
        have hc : c ≠ '%' := hthis
        have hargs := (@displayCharacter_shown takes s c).1
        rw [← hargs] at hrest
        obtain ⟨s', hend, hwrote⟩ := ih (Nat.le_of_succ_le_succ hfuel) hvalid' hrest
        rw [hargs] at hwrote
        refine ⟨s', ?_, (displayCharacter_wrote htakes s c).trans hwrote⟩
        show formatLoop takes floatText memory (fuel + 1) (c :: formatOf pieces) s = _
        rw [formatLoop, if_pos hc, hend]
      | conversion d =>
        have hd : d.Valid := hthis
        obtain ⟨asked, hspec⟩ := parseSpec_text hd hp.1 (formatOf pieces)
        have hne : d.text ++ formatOf pieces ≠ [] := by simp [Directive.text]
        have hwrote := @convert_wrote takes floatText memory
          { s with args := (d.wanted s.args).2 } ((d.wanted s.args).1.spec d.length asked) htakes
          d.specifier hd.letter hp.1 hp.2
        have hargs := (@convert_shown takes floatText memory
          ((d.wanted s.args).1.spec d.length asked) d.specifier
          { s with args := (d.wanted s.args).2 }).1
        rw [argumentWords_eq hd rfl] at hargs
        have hless : (formatOf pieces).length ≤ fuel := by
          rw [length_append, Piece.text, length_cons] at hfuel
          omega
        obtain ⟨s', hend, hwrote'⟩ := ih (s := convert takes floatText memory
          ((d.wanted s.args).1.spec d.length asked) d.specifier
          { s with args := (d.wanted s.args).2 }) hless hvalid' (by rw [hargs]; exact hrest)
        rw [hargs] at hwrote'
        refine ⟨s', ?_, .of_same (hwrote.trans hwrote') rfl rfl⟩
        show formatLoop takes floatText memory (fuel + 1) ('%' :: (d.text ++ formatOf pieces)) s = _
        rw [formatLoop, if_neg (fun h => h rfl), if_neg hne, hspec]
        exact hend

/-- `vfprintf` writes what the standard specifies and returns how many characters that are. -/
def Conforms (takes : Nat → Bool) (floatText : Spec → Char → Args → List Char)
    (memory : UInt32 → List Char) (pieces : List Piece) (args : Args) : Prop :=
  ∃ s, vfprintf takes floatText memory (formatOf pieces) args = some (s.output.length, s) ∧
    s.output = standardText memory pieces args

theorem vfprintf_written (htakes : ∀ i, takes i = true) {pieces : List Piece}
    (hvalid : ∀ p ∈ pieces, p.Valid) (hfits : Throughout Piece.Fits memory pieces args) :
    ∃ s, vfprintf takes floatText memory (formatOf pieces) args = some (s.output.length, s) ∧
      s.output = writtenText memory pieces args := by
  obtain ⟨s, hend, hwrote⟩ := @formatLoop_wrote takes floatText memory htakes pieces
    (formatOf pieces).length ⟨args, [], 0, 0, []⟩ (Nat.le_refl _) hvalid hfits
  have houtput : s.output = writtenText memory pieces args := hwrote.output
  have hchars : s.chars = s.output.length := by
    rw [hwrote.chars, houtput, Nat.zero_add]
  refine ⟨s, ?_, houtput⟩
  unfold vfprintf
  rw [hend, map_some, hchars]

theorem conforms_written (htakes : ∀ i, takes i = true) {pieces : List Piece}
    (hvalid : ∀ p ∈ pieces, p.Valid) (hfits : Throughout Piece.Fits memory pieces args) :
    Conforms takes floatText memory pieces args ↔
      writtenText memory pieces args = standardText memory pieces args := by
  obtain ⟨s, hreturn, houtput⟩ := @vfprintf_written takes floatText memory args htakes pieces hvalid
    hfits
  constructor
  · rintro ⟨s', hreturn', htext⟩
    rw [hreturn] at hreturn'
    obtain ⟨-, rfl⟩ := Prod.mk.inj (some.inj hreturn')
    rw [← houtput, htext]
  · intro htext
    exact ⟨s, hreturn, houtput.trans htext⟩

/-- Wrong texts can make up for each other, but not in each part of a format from its start. -/
theorem written_throughout {pieces : List Piece} (hvalid : ∀ p ∈ pieces, p.Valid)
    (hfits : Throughout Piece.Fits memory pieces args) :
    (∀ k, writtenText memory (pieces.take k) args = standardText memory (pieces.take k) args) ↔
      Throughout (Piece.Kept memory) memory pieces args := by
  induction pieces generalizing args with
  | nil => exact ⟨fun _ => trivial, fun _ k => by rw [take_nil]; rfl⟩
  | cons p pieces ih =>
    obtain ⟨hp, hrest⟩ := hfits
    have hpiece := @Piece.written_iff memory args p (hvalid p mem_cons_self) hp
    rw [Throughout, ← ih (fun p hp => hvalid p (mem_cons_of_mem _ hp)) hrest, ← hpiece]
    constructor
    · intro h
      have hfirst : p.written memory args = (p.standard memory args).1 := by
        have hone := h 1
        rw [take_succ_cons, take_zero] at hone
        simpa [writtenText, standardText] using hone
      refine ⟨hfirst, fun k => ?_⟩
      have hnext := h (k + 1)
      rw [take_succ_cons, writtenText, standardText, hfirst] at hnext
      exact append_cancel_left hnext
    · rintro ⟨hfirst, hnext⟩ k
      cases k with
      | zero => rfl
      | succ k => rw [take_succ_cons, writtenText, standardText, hfirst, hnext]

theorem Throughout.take {holds : Piece → Args → Prop} {pieces : List Piece}
    (h : Throughout holds memory pieces args) (k : Nat) :
    Throughout holds memory (pieces.take k) args := by
  induction pieces generalizing args k with
  | nil => rwa [take_nil]
  | cons p pieces ih =>
    cases k with
    | zero => trivial
    | succ k => exact ⟨h.1, ih h.2 k⟩

/-- A format and each part of it from its start are written as the standard specifies, exactly
where all conversions are ones that `vfprintf` gets right. -/
theorem conforms_iff (htakes : ∀ i, takes i = true) {pieces : List Piece}
    (hvalid : ∀ p ∈ pieces, p.Valid) (hfits : Throughout Piece.Fits memory pieces args) :
    (∀ k, Conforms takes floatText memory (pieces.take k) args) ↔
      Throughout (Piece.Kept memory) memory pieces args := by
  rw [← written_throughout hvalid hfits]
  refine forall_congr' fun k => conforms_written htakes ?_ (hfits.take k)
  exact fun p hp => hvalid p (List.mem_of_mem_take hp)

/-- `%08X %d` of 2³¹ and 2³¹ is `80000000 -2147483648`. -/
theorem conforms_iff_number : Conforms (fun _ => true) (fun _ _ _ => []) (fun _ => [])
    [.conversion ⟨['0'], some (.number ['8']), none, .none, 'X'⟩, .literal ' ',
      .conversion ⟨[], none, none, .none, 'd'⟩] fun _ => 2 ^ 31 := by
  have hnumber : ∀ digits, some (Amount.number ['8']) = some (Amount.number digits) →
      digits ≠ [] ∧ digits.head? ≠ some '0' ∧ ∀ c ∈ digits, isdigit c = true := by
    rintro _ ⟨⟩
    exact ⟨by decide, by decide, forall_of_all (by decide)⟩
  have hhex : (⟨['0'], some (.number ['8']), none, .none, 'X'⟩ : Directive).Valid :=
    ⟨forall_of_all (by decide), hnumber, by simp, .inl (by decide)⟩
  have hint : (⟨[], none, none, .none, 'd'⟩ : Directive).Valid :=
    ⟨forall_of_all (by decide), by simp, by simp, .inl (by decide)⟩
  refine (@conforms_iff _ _ _ _ (fun _ => rfl) [.conversion _, .literal ' ', .conversion _] ?_
    ?_).mpr ?_ 3
  · intro p hp
    simp only [List.mem_cons, List.not_mem_nil, or_false] at hp
    rcases hp with rfl | rfl | rfl
    · exact hhex
    · exact (by decide : ' ' ≠ '%')
    · exact hint
  · exact ⟨⟨by decide, by simp⟩, trivial, ⟨by decide, by simp⟩, trivial⟩
  · exact ⟨⟨fun _ h => (by cases h), fun h => (by cases h)⟩, trivial, fun _ h => (by cases h), trivial⟩

/-- `%.3d` of 5 is `5`, and `%#6x` of 5 is `0x   5`. -/
theorem precision_not_conforms :
    ((⟨[], none, some (.number ['3']), .none, 'd'⟩ : Directive).Valid ∧
      ¬Conforms (fun _ => true) (fun _ _ _ => []) (fun _ => [])
        [.conversion ⟨[], none, some (.number ['3']), .none, 'd'⟩] fun _ => 5) ∧
    ((⟨['#'], some (.number ['6']), none, .none, 'x'⟩ : Directive).Valid ∧
      ¬Conforms (fun _ => true) (fun _ _ _ => []) (fun _ => [])
        [.conversion ⟨['#'], some (.number ['6']), none, .none, 'x'⟩] fun _ => 5) := by
  have hwritten : ∀ pieces text, (vfprintf (fun _ => true) (fun _ _ _ => []) (fun _ => [])
        (formatOf pieces) fun _ => 5).map (fun r => r.2.output) = some text →
      standardText (fun _ => []) pieces (fun _ => 5) ≠ text →
      ¬Conforms (fun _ => true) (fun _ _ _ => []) (fun _ => []) pieces fun _ => 5 := by
    rintro pieces text houtput hne ⟨s, hreturn, hstandard⟩
    rw [hreturn] at houtput
    exact hne (hstandard.symm.trans (Option.some.inj houtput))
  constructor
  · refine ⟨⟨nofun, nofun, ?_, .inl (by decide)⟩, ?_⟩
    · rintro _ ⟨⟩
      exact forall_of_all (by decide)
    · exact hwritten _ ['5'] (by decide +kernel) (by decide +kernel)
  · refine ⟨⟨forall_of_all (by decide), ?_, nofun, .inl (by decide)⟩, ?_⟩
    · rintro _ ⟨⟩
      exact ⟨by decide, by decide, forall_of_all (by decide)⟩
    · exact hwritten _ ['0', 'x', ' ', ' ', ' ', '5'] (by decide +kernel) (by decide +kernel)

end MeatySkeleton.Libc.Printf
