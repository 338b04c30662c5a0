import MeatySkeleton.Libc.FormatParsing
import MeatySkeleton.Libc.FormatScanning
import MeatySkeleton.Libc.Numerals

/-!
# What `vfprintf` writes

Each conversion writes one text, `Spec.written`, which depends on nothing that was written before.
While every call of `fputc` succeeds, that text is all there is to a conversion: it is counted as it
is written.
-/

namespace MeatySkeleton.Libc.Printf

open List

variable {takes : Nat → Bool} {floatText : Spec → Char → Args → List Char}
  {memory : UInt32 → List Char} {args : Args} {s : Printer} {spec : Spec}
  {length : Length}

/-! ## Writing -/

/-- The text has been written and counted. -/
structure Wrote (s s' : Printer) (text : List Char) : Prop where
  output : s'.output = s.output ++ text
  chars : s'.chars = s.chars + text.length

theorem Wrote.refl (s : Printer) : Wrote s s [] := ⟨(append_nil _).symm, rfl⟩

theorem Wrote.trans {s1 s2 : Printer} {text text' : List Char} (h : Wrote s s1 text)
    (h' : Wrote s1 s2 text') : Wrote s s2 (text ++ text') := by
  constructor
  · rw [h'.output, h.output, append_assoc]
  · rw [h'.chars, h.chars, length_append, Nat.add_assoc]

/-- The arguments that are taken first do not show. -/
theorem Wrote.of_same {s1 s2 : Printer} {text : List Char} (h : Wrote s1 s2 text)
    (houtput : s.output = s1.output) (hchars : s.chars = s1.chars) : Wrote s s2 text := by
  constructor
  · rw [h.output, houtput]
  · rw [h.chars, hchars]

section
variable (htakes : ∀ i, takes i = true)
include htakes

theorem displayCharacter_wrote (s : Printer) (c : Char) : Wrote s (displayCharacter takes s c) [c] := by
  unfold displayCharacter
  rw [if_pos (htakes _)]
  exact ⟨rfl, rfl⟩

theorem displayString_wrote (s : Printer) (string : List Char) :
    Wrote s (displayString takes s string) string := by
  unfold displayString
  induction string generalizing s with
  | nil => exact .refl s
  | cons c string ih => exact (displayCharacter_wrote htakes s c).trans (ih _)

theorem displayRepeatedCharacter_wrote (s : Printer) (c : Char) (amount : Nat) :
    Wrote s (displayRepeatedCharacter takes s c amount) (List.replicate amount c) :=
  displayString_wrote htakes s _

theorem displayField_wrote (s : Printer) {left : Bool} {width : Nat} {content : List Char} :
    Wrote s (displayField takes s left (width - content.length) content)
      (layout left false width [] content) := by
  unfold displayField layout
  rw [length_nil, Nat.zero_add]
  cases left with
  | false =>
    exact (displayRepeatedCharacter_wrote htakes s ' ' _).trans (displayString_wrote htakes _ _)
  | true =>
    exact (displayString_wrote htakes s content).trans (displayRepeatedCharacter_wrote htakes _ _ _)

end

/-! ## Arguments -/

theorem intArgument_eq (h : length ≠ .L) (args : Args) :
    intArgument length args = (some (length.signedValue args), length.words) := by
  cases length with
  | L => exact absurd rfl h
  | none | hh | h | l | ll | j | z | t => rfl

theorem raw_lt (length : Length) (args : Args) : length.raw args < 2 ^ 64 := by
  have h0 := (args 0).toNat_lt
  have h1 := (args 1).toNat_lt
  unfold Length.raw Args.double
  split
  next => omega
  next => omega

theorem uintArgument_eq (h : length ≠ .L) (args : Args) :
    uintArgument length args = (length.unsignedValue args, length.words) := by
  have hword : (args 0).toNat % 2 ^ 32 = (args 0).toNat := Nat.mod_eq_of_lt (args 0).toNat_lt
  have hdouble : args.double % 2 ^ 64 = args.double := Nat.mod_eq_of_lt (raw_lt .ll args)
  cases length with
  | L => exact absurd rfl h
  | hh | h => rfl
  | none | l | z | t => exact congrArg (·, 1) hword.symm
  | ll | j => exact congrArg (·, 2) hdouble.symm

theorem signedValue_lt (length : Length) (args : Args) : (length.signedValue args).natAbs < 2 ^ 64 := by
  have hpow : 2 ^ length.bits ≤ 2 ^ 64 := by
    cases length <;> decide
  have hpos : 0 < 2 ^ length.bits := Nat.two_pow_pos _
  unfold Length.signedValue
  generalize 2 ^ length.bits = m at hpow hpos
  have hle := Int.le_bmod (x := length.raw args) hpos
  have hlt := Int.bmod_lt (x := length.raw args) hpos
  omega

theorem unsignedValue_lt (length : Length) (args : Args) : length.unsignedValue args < 2 ^ 64 :=
  Nat.lt_of_le_of_lt (Nat.mod_le _ _) (raw_lt length args)

/-! ## Texts -/

/-- Whether the padding of a number is zeros. -/
def Spec.zeros (spec : Spec) : Bool := if spec.precision.isSome then false else spec.flags.zeroPad

def Spec.writtenInt (spec : Spec) (value : Int) : List Char :=
  layout spec.flags.leftJustify spec.zeros spec.width
    (signText value spec.flags.plusSign spec.flags.spaceNoSign) (Nat.toDigits 10 value.natAbs)

/-- The prefix may come before the spaces. -/
def Spec.writtenUint (spec : Spec) (specifier : Char) (value : Nat) : List Char :=
  let lead := Printf.alternate spec.flags.altForm specifier value
  let body := uintDigits specifier value
  if lead ≠ [] ∧ spec.flags.leftJustify = false ∧ spec.zeros = false then
    lead ++ layout false false (spec.width - lead.length) [] body
  else layout spec.flags.leftJustify spec.zeros spec.width lead body

def Spec.writtenString (spec : Spec) (string : List Char) : List Char :=
  layout spec.flags.leftJustify false spec.width []
    (match spec.precision with
    | some precSpec => string.take precSpec
    | none => string)

/-- What `vfprintf` writes for a conversion whose arguments come next. -/
def Spec.written (spec : Spec) (memory : UInt32 → List Char) (specifier : Char) (args : Args) :
    List Char :=
  match specifier with
  | 'd' | 'i' => spec.writtenInt (spec.length.signedValue args)
  | 'u' | 'o' | 'x' | 'X' => spec.writtenUint specifier (spec.length.unsignedValue args)
  | 'c' => layout spec.flags.leftJustify false spec.width [] [Char.ofNat ((args 0).toNat % 256)]
  | 's' => spec.writtenString (memory (args 0))
  | _ => ['%']

/-- How many characters of a string there are to display. -/
def Spec.shown (spec : Spec) (n : Nat) : Nat :=
  match spec.precision with
  | some precSpec => if precSpec < n then precSpec else n
  | none => n

theorem Spec.take_shown (spec : Spec) (string : List Char) :
    string.take (spec.shown string.length) =
      match spec.precision with
      | some precSpec => string.take precSpec
      | none => string := by
  unfold Spec.shown
  cases spec.precision with
  | none => exact take_length
  | some precision =>
    dsimp only
    split
    next => rfl
    next hle =>
      rw [take_length]
      exact (take_of_length_le (Nat.le_of_not_lt hle)).symm

theorem Spec.shown_le (spec : Spec) (n : Nat) : spec.shown n ≤ n := by
  unfold Spec.shown
  split
  next =>
    split
    next hlt => exact Nat.le_of_lt hlt
    next => exact Nat.le_refl _
  next => exact Nat.le_refl _

theorem alternate_length (altForm : Bool) (specifier : Char) (value : Nat) :
    (alternate altForm specifier value).length ≤ 2 := by
  unfold alternate
  split
  next =>
    split
    all_goals decide
  next => decide

theorem uintDigits_ne_nil (specifier : Char) (value : Nat) : uintDigits specifier value ≠ [] := by
  unfold uintDigits
  split
  case h_3 => exact fun h => Nat.toDigits_ne_nil (map_eq_nil_iff.mp h)
  all_goals exact Nat.toDigits_ne_nil

theorem toDigits_spaces {base value : Nat} {f : Char → Char} (hb : 1 < base)
    (hf : ∀ k < base, f k.digitChar ≠ ' ') : ' ' ∉ (Nat.toDigits base value).map f := by
  intro hc
  obtain ⟨d, hd, hspace⟩ := mem_map.mp hc
  obtain ⟨k, hk, rfl⟩ := mem_toDigits hb hd
  exact hf k hk hspace

theorem uintDigits_spaces (specifier : Char) (value : Nat) : ' ' ∉ uintDigits specifier value := by
  have hplain : ∀ base, 1 < base → base ≤ 16 → ' ' ∉ Nat.toDigits base value := by
    intro base hb hle
    have hdigit : ∀ k < 16, k.digitChar ≠ ' ' := by decide
    have hspaces := @toDigits_spaces base value id hb fun k hk => hdigit k (by omega)
    rw [map_id] at hspaces
    exact hspaces
  unfold uintDigits
  split
  next => exact hplain 8 (by decide) (by decide)
  next => exact hplain 16 (by decide) (by decide)
  next => exact toDigits_spaces (by decide) (by decide)
  next => exact hplain 10 (by decide) (by decide)

theorem trimEnd_spaces {body : List Char} (h : ' ' ∉ body) (n : Nat) :
    trimEnd (body ++ List.replicate n ' ') = body := by
  have hkept : body.reverse.dropWhile (· = ' ') = body.reverse := by
    cases hreverse : body.reverse with
    | nil => rfl
    | cons c rest =>
      refine dropWhile_cons_of_neg fun hspace => h ?_
      rw [← of_decide_eq_true hspace, ← mem_reverse, hreverse]
      exact mem_cons_self
  unfold trimEnd
  rw [reverse_append, reverse_replicate, dropWhile_append_of_pos (by simp), hkept, reverse_reverse]

section
variable (htakes : ∀ i, takes i = true)
include htakes

theorem convertInt_wrote (hlength : spec.length ≠ .L) (hwidth : spec.width ≤ 255) (s : Printer) :
    Wrote s (convertInt takes spec s) (spec.writtenInt (spec.length.signedValue s.args)) := by
  have htext := @intStr_eq (spec.length.signedValue s.args) spec.flags.plusSign
    spec.flags.spaceNoSign spec.flags.leftJustify spec.zeros spec.width
    (signedValue_lt spec.length s.args) hwidth
  unfold convertInt
  rw [intArgument_eq hlength]
  unfold Spec.writtenInt
  rw [← htext]
  exact .of_same (displayString_wrote htakes _ _) rfl rfl

theorem convertCharacter_wrote (s : Printer) : Wrote s (convertCharacter takes spec s)
    (layout spec.flags.leftJustify false spec.width [] [Char.ofNat ((s.args 0).toNat % 256)]) := by
  have hpadding : (if 1 < spec.width then spec.width - 1 else 0) =
      spec.width - [Char.ofNat ((s.args 0).toNat % 256)].length := by
    rw [length_singleton]
    split
    next => rfl
    next => omega
  unfold convertCharacter
  rw [hpadding]
  exact .of_same (displayField_wrote htakes { s with args := s.args.drop 1 }) rfl rfl

theorem convertString_wrote (hpointer : s.args 0 ≠ 0) :
    Wrote s (convertString takes memory spec s) (spec.writtenString (memory (s.args 0))) := by
  have hdisplayed : ∀ string : List Char, layout spec.flags.leftJustify false spec.width []
      (string.take (spec.shown string.length)) = spec.writtenString string :=
    fun string => congrArg _ (spec.take_shown string)
  have hfield : ∀ (string : List Char) (s : Printer), Wrote s
      (displayField takes s spec.flags.leftJustify (spec.width - spec.shown string.length)
        (string.take (spec.shown string.length))) (spec.writtenString string) := by
    intro string s
    have hlength : (string.take (spec.shown string.length)).length = spec.shown string.length := by
      rw [length_take, Nat.min_eq_left (spec.shown_le _)]
    have hfield := @displayField_wrote takes htakes s spec.flags.leftJustify spec.width
      (string.take (spec.shown string.length))
    rw [hlength, hdisplayed] at hfield
    exact hfield
  unfold convertString
  dsimp only
  rw [if_neg hpointer]
  exact .of_same (hfield _ _) rfl rfl

theorem convertUint_wrote (hlength : spec.length ≠ .L) (hwidth : spec.width ≤ 255)
    (specifier : Char) (s : Printer) : Wrote s (convertUint takes spec specifier s)
      (spec.writtenUint specifier (spec.length.unsignedValue s.args)) := by
  have hvalue := unsignedValue_lt spec.length s.args
  unfold convertUint Spec.writtenUint
  rw [uintArgument_eq hlength]
  dsimp only
  generalize spec.length.unsignedValue s.args = value at hvalue
  have hlead := alternate_length spec.flags.altForm specifier value
  have hbody := length_pos_of_ne_nil (uintDigits_ne_nil specifier value)
  have hspaces := uintDigits_spaces specifier value
  have htext := @uintStr_eq value
  generalize alternate spec.flags.altForm specifier value = lead at hlead ⊢
  generalize hw : (if 0 < lead.length ∧ lead.length ≤ spec.width then spec.width - lead.length
    else spec.width) = numberWidth
  have hnumber : numberWidth ≤ 255 ∧ numberWidth - (uintDigits specifier value).length =
      spec.width - (lead.length + (uintDigits specifier value).length) := by
    split at hw
    next => omega
    next => omega
  rw [uintStr_eq hvalue hnumber.1, uintStr_eq hvalue hnumber.1]
  generalize uintDigits specifier value = body at hbody hspaces hnumber ⊢
  have hlayout : ∀ left zero, layout left zero numberWidth [] body =
      if left then body ++ List.replicate (spec.width - (lead.length + body.length)) ' '
      else List.replicate (spec.width - (lead.length + body.length)) (if zero then '0' else ' ') ++
        body := by
    intro left zero
    unfold layout
    rw [length_nil, Nat.zero_add, hnumber.2]
    cases left <;> cases zero <;> rfl
  have hprinted : ∀ text, Wrote s
      (displayString takes (displayString takes
        { s with args := s.args.drop spec.length.words } lead) text) (lead ++ text) := fun text =>
    .of_same ((displayString_wrote htakes _ lead).trans (displayString_wrote htakes _ text)) rfl rfl
  have hzeros : (if spec.precision.isSome then false else spec.flags.zeroPad) = spec.zeros := rfl
  rw [hlayout, hlayout, hzeros]
  generalize spec.zeros = zeros
  generalize spec.flags.leftJustify = left
  cases left with
  | true =>
    simp only [Bool.true_eq_false, and_false, false_and, if_false, if_true, trimEnd_spaces hspaces]
    exact .of_same ((hprinted body).trans (displayRepeatedCharacter_wrote htakes _ _ _)) rfl rfl
  | false =>
    simp only [Bool.false_eq_true, if_false, if_true, true_and, and_true]
    by_cases hempty : lead = []
    · subst hempty
      simp only [length_nil, Nat.lt_irrefl, ne_eq, not_true_eq_false, false_and, if_false]
      cases zeros with
      | false => exact hprinted _
      | true => exact hprinted _
    · have hpos := length_pos_of_ne_nil hempty
      simp only [hpos, ne_eq, hempty, not_false_eq_true, true_and]
      unfold layout
      cases zeros with
      | true =>
        simp only [Bool.false_eq_true, Bool.true_eq_false, if_false, if_true, append_assoc]
        exact hprinted _
      | false =>
        simp only [Bool.false_eq_true, if_false, if_true, length_nil, Nat.zero_add,
          nil_append, Nat.sub_sub]
        exact hprinted _

theorem convert_wrote {c : Char}
    (hletter : (c ∈ integral ∧ spec.length ≠ .L) ∨ (c ∈ ['c', 's', '%'] ∧ spec.length = .none))
    (hwidth : spec.width ≤ 255) (hpointer : c = 's' → s.args 0 ≠ 0) :
    Wrote s (convert takes floatText memory spec c s) (spec.written memory c s.args) := by
  rcases hletter with ⟨hmem, hlength⟩ | ⟨hmem, -⟩
  · simp only [integral, mem_cons, not_mem_nil, or_false] at hmem
    rcases hmem with rfl | rfl | rfl | rfl | rfl | rfl
    · exact convertInt_wrote htakes hlength hwidth s
    · exact convertInt_wrote htakes hlength hwidth s
    · exact convertUint_wrote htakes hlength hwidth 'u' s
    · exact convertUint_wrote htakes hlength hwidth 'o' s
    · exact convertUint_wrote htakes hlength hwidth 'x' s
    · exact convertUint_wrote htakes hlength hwidth 'X' s
  · simp only [mem_cons, not_mem_nil, or_false] at hmem
    rcases hmem with rfl | rfl | rfl
    · exact convertCharacter_wrote htakes s
    · exact convertString_wrote htakes (hpointer rfl)
    · exact displayCharacter_wrote htakes s '%'

end

/-- A conversion takes the arguments that the standard gives it. -/
theorem argumentWords_eq {d : Directive} (h : d.Valid)
    (hlength : spec.length = d.length) : argumentWords spec d.specifier = d.argumentWords := by
  unfold Directive.argumentWords
  rcases h.letter with ⟨hmem, hL⟩ | ⟨hmem, -⟩
  · rw [if_pos hmem]
    rw [← hlength] at hL ⊢
    have hint := congrArg Prod.snd (intArgument_eq hL fun _ => 0)
    have huint := congrArg Prod.snd (uintArgument_eq hL fun _ => 0)
    simp only [integral, mem_cons, not_mem_nil, or_false] at hmem
    rcases hmem with hc | hc | hc | hc | hc | hc
    all_goals
      rw [hc]
      first | exact hint | exact huint
  · simp only [mem_cons, not_mem_nil, or_false] at hmem
    rcases hmem with hc | hc | hc
    all_goals
      rw [hc]
      rfl

end MeatySkeleton.Libc.Printf
