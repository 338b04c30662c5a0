import MeatySkeleton.Libc.Printf

/-!
# What `vfprintf` reads

A format that ends inside a conversion is read further than its terminator, for the letter of that
conversion is then the terminator itself, and the loop goes on behind it. And `%s` takes the length
of its whole argument, also where a precision says how much of it there is to be read.
`readsWithin_iff` says that nothing else is read that should not be.
-/

namespace MeatySkeleton.Libc.Printf

open List

variable {takes : Nat → Bool} {floatText : Spec → Char → Args → List Char}
  {memory : UInt32 → List Char} {format : List Char} {args : Args} {s : Printer} {spec : Spec}

/-! ## The conversions of a format -/

/-- How many words of the `va_list` a conversion takes. -/
def argumentWords (spec : Spec) : Char → Nat
  | 'c' | 's' | 'p' => 1
  | 'd' | 'i' => (intArgument spec.length fun _ => 0).2
  | 'u' | 'o' | 'x' | 'X' => (uintArgument spec.length fun _ => 0).2
  | 'n' => if spec.length = .L then 0 else 1
  | 'f' | 'F' | 'e' | 'E' | 'g' | 'G' | 'a' | 'A' => if spec.length = .L then 3 else 2
  | _ => 0

/-- A conversion, the letter of which may be missing, and the arguments from its own on. -/
structure Conversion where
  spec : Spec
  specifier : Option Char
  args : Args

/-- The conversions of a format, one after the other. -/
def conversions : Nat → List Char → Args → List Conversion
  | _, [], _ => []
  | 0, _ :: _, _ => []
  | fuel + 1, c :: format, args =>
    if c ≠ '%' then conversions fuel format args
    else if format = [] then []
    else
      let (spec, args, rest) := parseSpec args format
      match rest with
      | [] => [⟨spec, none, args⟩]
      | specifier :: rest => ⟨spec, some specifier, args⟩ ::
          conversions fuel rest (args.drop (argumentWords spec specifier))

/-- What a conversion reads of a string that it has a precision for. -/
def Conversion.reads (memory : UInt32 → List Char) (c : Conversion) : List Read :=
  if c.specifier = some 's' ∧ c.args 0 ≠ 0 then
    (c.spec.asked.map fun asked => ⟨asked, (memory (c.args 0)).length + 1⟩).toList
  else []

/-! ## Displaying -/

/-- Nothing but the output has changed. -/
def Shown (s s' : Printer) : Prop := s'.args = s.args ∧ s'.reads = s.reads

theorem Shown.refl (s : Printer) : Shown s s := ⟨rfl, rfl⟩

theorem Shown.trans {s1 s2 : Printer} (h : Shown s s1) (h' : Shown s1 s2) : Shown s s2 :=
  ⟨h'.1.trans h.1, h'.2.trans h.2⟩

theorem displayCharacter_shown (s : Printer) (c : Char) : Shown s (displayCharacter takes s c) := by
  unfold displayCharacter
  split
  next => exact ⟨rfl, rfl⟩
  next => exact ⟨rfl, rfl⟩

theorem displayString_shown (s : Printer) (string : List Char) :
    Shown s (displayString takes s string) := by
  unfold displayString
  induction string generalizing s with
  | nil => exact .refl s
  | cons c string ih => exact (displayCharacter_shown s c).trans (ih _)

theorem displayRepeatedCharacter_shown (s : Printer) (c : Char) (amount : Nat) :
    Shown s (displayRepeatedCharacter takes s c amount) := displayString_shown s _

theorem displayField_shown (s : Printer) (leftJustify : Bool) (padding : Nat) (content : List Char) :
    Shown s (displayField takes s leftJustify padding content) := by
  unfold displayField
  cases leftJustify with
  | false => exact (displayRepeatedCharacter_shown s ' ' padding).trans (displayString_shown _ _)
  | true => exact (displayString_shown s content).trans (displayRepeatedCharacter_shown _ _ _)

theorem displayPaddedFloat_shown (s : Printer) (text : List Char) (width : Nat)
    (leftJustify zeroPad : Bool) :
    Shown s (displayPaddedFloat takes s text width leftJustify zeroPad) := by
  unfold displayPaddedFloat
  cases leftJustify with
  | false =>
    exact ((displayString_shown _ _).trans (displayRepeatedCharacter_shown _ _ _)).trans
      (displayString_shown _ _)
  | true => exact (displayString_shown s text).trans (displayRepeatedCharacter_shown _ _ _)

/-! ## Arguments -/

theorem intArgument_words (length : Length) (args : Args) :
    (intArgument length args).2 = (intArgument length fun _ => 0).2 := by
  cases length <;> rfl

theorem uintArgument_words (length : Length) (args : Args) :
    (uintArgument length args).2 = (uintArgument length fun _ => 0).2 := by
  cases length <;> rfl

theorem convertInt_shown : Shown
    { s with args := s.args.drop (intArgument spec.length fun _ => 0).2 }
    (convertInt takes spec s) := by
  unfold convertInt
  rw [← intArgument_words spec.length s.args]
  rcases intArgument spec.length s.args with ⟨_ | integer, words⟩
  · exact .refl _
  · exact displayString_shown _ _

theorem convertUint_shown (specifier : Char) : Shown
    { s with args := s.args.drop (uintArgument spec.length fun _ => 0).2 }
    (convertUint takes spec specifier s) := by
  unfold convertUint
  rw [← uintArgument_words spec.length s.args]
  rcases uintArgument spec.length s.args with ⟨integer, words⟩
  generalize (if spec.precision.isSome then false else spec.flags.zeroPad) = zeroPad
  dsimp only
  split
  next => exact (displayString_shown _ _).trans (displayString_shown _ _)
  next =>
    split
    next => exact (displayString_shown _ _).trans (displayString_shown _ _)
    next =>
      exact ((displayString_shown _ _).trans (displayString_shown _ _)).trans
        (displayRepeatedCharacter_shown _ _ _)

theorem convertPointer_shown :
    Shown { s with args := s.args.drop 1 } (convertPointer takes spec s) := by
  unfold convertPointer
  dsimp only
  split
  next => exact (displayString_shown _ _).trans (displayString_shown _ _)
  next => exact displayField_shown _ _ _ _

theorem convertString_shown : Shown
    { s with
      args := s.args.drop 1
      reads := s.reads ++ Conversion.reads memory ⟨spec, some 's', s.args⟩ }
    (convertString takes memory spec s) := by
  have hdisplay : ∀ reads padding content, reads = Conversion.reads memory ⟨spec, some 's', s.args⟩ →
      Shown
        { s with
          args := s.args.drop 1
          reads := s.reads ++ Conversion.reads memory ⟨spec, some 's', s.args⟩ }
        (displayField takes { s with args := s.args.drop 1, reads := s.reads ++ reads }
          spec.flags.leftJustify padding content) := by
    rintro reads padding content rfl
    exact displayField_shown _ _ _ _
  refine hdisplay _ _ _ ?_
  unfold Conversion.reads
  by_cases hnull : s.args 0 = 0
  · cases spec.asked <;> simp [hnull]
  · cases spec.asked <;> simp [hnull]

/-- A conversion takes its arguments, and reads what it reads of a string. -/
theorem convert_shown (spec : Spec) (specifier : Char) (s : Printer) : Shown
    { s with
      args := s.args.drop (argumentWords spec specifier)
      reads := s.reads ++ Conversion.reads memory ⟨spec, some specifier, s.args⟩ }
    (convert takes floatText memory spec specifier s) := by
  have hother : specifier ≠ 's' →
      s.reads ++ Conversion.reads memory ⟨spec, some specifier, s.args⟩ = s.reads := by
    intro hne
    unfold Conversion.reads
    rw [if_neg (by simp [hne]), append_nil]
  by_cases hs : specifier = 's'
  · subst hs
    exact convertString_shown
  · rw [hother hs]
    unfold convert
    split
    case h_1 => exact displayCharacter_shown _ _
    case h_2 => exact displayField_shown _ _ _ _
    case h_3 => exact absurd rfl hs
    case h_4 | h_5 => exact convertInt_shown
    case h_6 | h_7 | h_8 | h_9 => exact convertUint_shown _
    case h_10 => exact convertPointer_shown
    case h_11 => exact .refl _
    case h_12 | h_13 | h_14 | h_15 | h_16 | h_17 | h_18 | h_19 =>
      exact displayPaddedFloat_shown _ _ _ _ _
    case h_20 =>
      have hwords : argumentWords spec specifier = 0 := by
        unfold argumentWords
        split <;> first | rfl | contradiction
      rw [hwords]
      exact displayString_shown _ _

/-! ## Parsing -/

theorem parseFlags_le (flags : Flags) (format : List Char) :
    (parseFlags flags format).2.length ≤ format.length := by
  fun_induction parseFlags flags format with
  | case6 => exact Nat.le_refl _
  | _ => exact Nat.le_succ_of_le (by assumption)

theorem parseNumber_le (n : Nat) (format : List Char) :
    (parseNumber n format).2.length ≤ format.length := by
  fun_induction parseNumber n format with
  | case1 => exact Nat.le_refl _
  | case2 n c format hdigit ih => exact Nat.le_succ_of_le ih
  | case3 => exact Nat.le_refl _

theorem parseWidthStar_le (flags : Flags) (args : Args) (n : Nat) (format : List Char) :
    (parseWidthStar flags args n format).2.2.length ≤ format.length := by
  unfold parseWidthStar
  split
  next => exact Nat.le_succ _
  next => exact Nat.le_refl _

theorem parsePrecisionStar_le (args : Args) (n asked : Nat) (format : List Char) :
    (parsePrecisionStar args n asked format).2.2.length ≤ format.length := by
  unfold parsePrecisionStar
  split
  next => exact Nat.le_succ _
  next => exact Nat.le_refl _

theorem parsePrecision_le (args : Args) (format : List Char) :
    (parsePrecision args format).2.2.length ≤ format.length := by
  unfold parsePrecision
  split
  next format =>
    have hnumber := parseNumber_le 0 format
    have hstar := parsePrecisionStar_le args (parseNumber 0 format).1 (written format)
      (parseNumber 0 format).2
    exact Nat.le_succ_of_le (Nat.le_trans hstar hnumber)
  next => exact Nat.le_refl _

theorem parseLength_le (format : List Char) : (parseLength format).2.length ≤ format.length := by
  unfold parseLength
  split
  case h_9 => exact Nat.le_refl _
  all_goals
    simp only [length_cons]
    omega

theorem parseSpec_le (args : Args) (format : List Char) :
    (parseSpec args format).2.2.length ≤ format.length := by
  unfold parseSpec
  have hflags := parseFlags_le ⟨false, false, false, false, false⟩ format
  rcases hfirst : parseFlags ⟨false, false, false, false, false⟩ format with ⟨flags, format1⟩
  have hnumber := parseNumber_le 0 format1
  rcases hparsed : parseNumber 0 format1 with ⟨n, format2⟩
  have hstar := parseWidthStar_le flags args n format2
  rcases hwidth : parseWidthStar flags args n format2 with ⟨⟨lengthSpec, flags'⟩, args3, format3⟩
  have hprecision := parsePrecision_le args3 format3
  rcases hprec : parsePrecision args3 format3 with ⟨⟨precision, asked⟩, args4, format4⟩
  have hlength := parseLength_le format4
  rcases hletter : parseLength format4 with ⟨length, format5⟩
  rw [hfirst] at hflags
  rw [hparsed] at hnumber
  rw [hwidth] at hstar
  rw [hprec] at hprecision
  rw [hletter] at hlength
  simp only [hparsed, hwidth, hprec, hletter]
  dsimp only at hflags hnumber hstar hprecision hlength
  omega

/-! ## The loop -/

/-- The loop ends, and has read what its conversions read, unless one of them has no letter. -/
theorem formatLoop_reads {fuel : Nat} (hfuel : format.length ≤ fuel) :
    ((∀ c ∈ conversions fuel format s.args, c.specifier ≠ none) →
      ∃ s', formatLoop takes floatText memory fuel format s = some s' ∧
        s'.reads = s.reads ++ (conversions fuel format s.args).flatMap (Conversion.reads memory)) ∧
    ((∃ c ∈ conversions fuel format s.args, c.specifier = none) →
      formatLoop takes floatText memory fuel format s = none) := by
  induction fuel generalizing format s with
  | zero =>
    obtain rfl := eq_nil_of_length_eq_zero (Nat.le_zero.mp hfuel)
    simp [conversions, formatLoop]
  | succ fuel ih =>
    cases format with
    | nil => simp [conversions, formatLoop]
    | cons c format =>
      rw [length_cons] at hfuel
      unfold conversions formatLoop
      by_cases hc : c ≠ '%'
      · rw [if_pos hc, if_pos hc]
        obtain ⟨hargs, hreads⟩ := @displayCharacter_shown takes s c
        have hrest := @ih format (displayCharacter takes s c) (Nat.le_of_succ_le_succ hfuel)
        rw [hargs, hreads] at hrest
        exact hrest
      rw [if_neg hc, if_neg hc]
      by_cases hlast : format = []
      · rw [if_pos hlast, if_pos hlast]
        constructor
        · intro
          refine ⟨displayCharacter takes s '%', rfl, ?_⟩
          rw [(displayCharacter_shown s '%').2, flatMap_nil, append_nil]
        · rintro ⟨c, hmem, -⟩
          cases hmem
      rw [if_neg hlast, if_neg hlast]
      have hle := parseSpec_le s.args format
      rcases hspec : parseSpec s.args format with ⟨spec, args, _ | ⟨specifier, rest⟩⟩
      · -- the format ends where the letter should be
        exact ⟨fun hall => absurd rfl (hall _ (mem_singleton_self _)), fun _ => rfl⟩
      · rw [hspec, length_cons] at hle
        obtain ⟨hargs, hreads⟩ := @convert_shown takes floatText memory spec specifier { s with args }
        have hrest := @ih rest (convert takes floatText memory spec specifier { s with args })
          (by omega)
        rw [hargs, hreads] at hrest
        dsimp only at hrest ⊢
        constructor
        · intro hall
          obtain ⟨s', hend, hs'⟩ := hrest.1 fun c hc => hall c (mem_cons_of_mem _ hc)
          refine ⟨s', hend, ?_⟩
          rw [hs', flatMap_cons, append_assoc]
        · rintro ⟨c, hmem, hnone⟩
          rcases mem_cons.mp hmem with rfl | hmem
          · cases hnone
          · exact hrest.2 ⟨c, hmem, hnone⟩

/-- `vfprintf` returns, has not read the format further than its terminator, and has read no more
bytes of a string than the precision of its conversion. -/
def ReadsWithin (takes : Nat → Bool) (floatText : Spec → Char → Args → List Char)
    (memory : UInt32 → List Char) (format : List Char) (args : Args) : Prop :=
  ∃ count s, vfprintf takes floatText memory format args = some (count, s) ∧
    ∀ r ∈ s.reads, r.count ≤ r.asked

/-- That a conversion has a letter and, if it is `%s` with a precision, a shorter string. -/
def Conversion.Whole (memory : UInt32 → List Char) (c : Conversion) : Prop :=
  c.specifier ≠ none ∧ (c.specifier = some 's' → c.args 0 ≠ 0 →
    ∀ n, c.spec.asked = some n → (memory (c.args 0)).length < n)

theorem Conversion.reads_iff (c : Conversion) :
    (∀ r ∈ c.reads memory, r.count ≤ r.asked) ↔ (c.specifier = some 's' → c.args 0 ≠ 0 →
      ∀ n, c.spec.asked = some n → (memory (c.args 0)).length < n) := by
  unfold Conversion.reads
  constructor
  · intro h hs hpointer n hn
    rw [if_pos ⟨hs, hpointer⟩, hn] at h
    exact h ⟨n, (memory (c.args 0)).length + 1⟩ (mem_singleton_self _)
  · intro h r hr
    split at hr
    next hc =>
      cases hasked : c.spec.asked with
      | none =>
        rw [hasked] at hr
        cases hr
      | some n =>
        rw [hasked] at hr
        obtain rfl := mem_singleton.mp hr
        exact h hc.1 hc.2 n hasked
    next => cases hr

/-- Only conversions cut off by the terminator, and long strings with a precision, read more. -/
theorem readsWithin_iff : ReadsWithin takes floatText memory format args ↔
    ∀ c ∈ conversions format.length format args, c.Whole memory := by
  obtain ⟨hends, hcut⟩ := @formatLoop_reads takes floatText memory format ⟨args, [], 0, 0, []⟩
    format.length (Nat.le_refl _)
  unfold ReadsWithin vfprintf
  constructor
  · rintro ⟨count, s, hend, hreads⟩ c hc
    have hletters : ∀ c ∈ conversions format.length format args, c.specifier ≠ none := by
      intro c hc hnone
      rw [hcut ⟨c, hc, hnone⟩] at hend
      cases hend
    obtain ⟨s', hend', hs'⟩ := hends hletters
    rw [hend'] at hend
    obtain ⟨-, rfl⟩ := Prod.mk.inj (Option.some.inj hend)
    refine ⟨hletters c hc, (Conversion.reads_iff c).mp fun r hr => hreads r ?_⟩
    rw [hs', List.nil_append]
    exact List.mem_flatMap.mpr ⟨c, hc, hr⟩
  · intro hwhole
    obtain ⟨s', hend, hs'⟩ := hends fun c hc => (hwhole c hc).1
    rw [hend]
    refine ⟨s'.chars, s', rfl, fun r hr => ?_⟩
    rw [hs', List.nil_append] at hr
    obtain ⟨c, hc, hr⟩ := List.mem_flatMap.mp hr
    exact (Conversion.reads_iff c).mpr (hwhole c hc).2 r hr

/-- A width that nothing comes after, and a string that is longer than its precision. -/
theorem cut_not_readsWithin :
    ¬ReadsWithin (fun _ => true) (fun _ _ _ => []) (fun _ => ['h', 'e', 'l', 'l', 'o']) ['%', '5']
      (fun _ => 4096) ∧
    ¬ReadsWithin (fun _ => true) (fun _ _ _ => []) (fun _ => ['h', 'e', 'l', 'l', 'o'])
      ['%', '.', '3', 's'] fun _ => 4096 := by
  constructor
  · rintro ⟨count, s, hend, -⟩
    have hnone : (vfprintf (fun _ => true) (fun _ _ _ => []) (fun _ => ['h', 'e', 'l', 'l', 'o'])
        ['%', '5'] fun _ => 4096).isNone = true := by decide +kernel
    rw [hend] at hnone
    cases hnone
  · rintro ⟨count, s, hend, hreads⟩
    have hread : (vfprintf (fun _ => true) (fun _ _ _ => []) (fun _ => ['h', 'e', 'l', 'l', 'o'])
        ['%', '.', '3', 's'] fun _ => 4096).all
        (fun r => r.2.reads.any fun read => read.asked < read.count) = true := by decide +kernel
    rw [hend] at hread
    obtain ⟨read, hmem, hlt⟩ := List.any_eq_true.mp hread
    exact Nat.lt_irrefl _ (Nat.lt_of_lt_of_le (of_decide_eq_true hlt) (hreads read hmem))

end MeatySkeleton.Libc.Printf
