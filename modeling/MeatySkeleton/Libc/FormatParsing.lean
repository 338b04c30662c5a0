import MeatySkeleton.Libc.StandardFormat

/-!
# The parser of `vfprintf` and the formats of the standard

What `vfprintf` finds between a `%` and its letter is what the standard means by it: one lemma for
each part, whatever comes after it, and `parseSpec_text` for all of them.
-/

namespace MeatySkeleton.Libc.Printf

open List

variable {d : Directive} {args : Args} {rest digits : List Char} {n m : Nat}

/-- The list is empty or starts with such a character. -/
def Starts (p : Char → Prop) (l : List Char) : Prop := ∀ c, l.head? = some c → p c

variable {p : Char → Prop}

theorem Starts.cons {c : Char} (h : p c) (l : List Char) : Starts p (c :: l) := by
  intro c' hc'
  obtain rfl := Option.some.inj hc'
  exact h

/-- What is checked of all characters of a list. -/
theorem forall_of_all [DecidablePred p] {l : List Char}
    (h : (l.all fun c => decide (p c)) = true) : ∀ c ∈ l, p c :=
  fun c hc => of_decide_eq_true (all_eq_true.mp h c hc)

theorem Starts.mono {p q : Char → Prop} {l : List Char} (h : Starts p l) (hpq : ∀ c, p c → q c) :
    Starts q l := fun c hc => hpq c (h c hc)

theorem Starts.within [DecidablePred p] {chars l : List Char}
    (h : Starts (· ∈ chars) l) (hall : (chars.all fun c => decide (p c)) = true) : Starts p l :=
  h.mono (forall_of_all hall)

/-! ## Flags -/

/-- The flags before, and those of a list. -/
def Flags.join (f : Flags) (flags : List Char) : Flags where
  leftJustify := f.leftJustify || flags.contains '-'
  plusSign := f.plusSign || flags.contains '+'
  altForm := f.altForm || flags.contains '#'
  spaceNoSign := f.spaceNoSign || flags.contains ' '
  zeroPad := f.zeroPad || flags.contains '0'

theorem parseFlags_text {flags : List Char} (hflags : ∀ c ∈ flags, c ∈ ['-', '+', '#', ' ', '0'])
    (hrest : Starts (fun c => c ∉ ['-', '+', '#', ' ', '0']) rest) (f : Flags) :
    parseFlags f (flags ++ rest) = (f.join flags, rest) := by
  induction flags generalizing f with
  | nil =>
    have hjoin : f.join [] = f := by simp [Flags.join]
    rw [hjoin, nil_append]
    unfold parseFlags
    split
    case h_6 => rfl
    all_goals
      have hnot := hrest _ rfl
      simp at hnot
  | cons c flags ih =>
    have hc := hflags c mem_cons_self
    have ih := fun f => ih (fun c hc => hflags c (mem_cons_of_mem _ hc)) f
    simp only [mem_cons, not_mem_nil, or_false] at hc
    rcases hc with rfl | rfl | rfl | rfl | rfl
    all_goals
      rw [cons_append, parseFlags, ih]
      simp [Flags.join]

/-! ## Numbers -/

theorem parseNumber_text (hdigits : ∀ c ∈ digits, isdigit c = true)
    (hrest : Starts (fun c => isdigit c = false) rest) (n : Nat) : parseNumber n (digits ++ rest) =
      (digits.foldl (fun n c => if n ≤ 25 then n * 10 + digitValue c else 255) n, rest) := by
  induction digits generalizing n with
  | nil =>
    cases rest with
    | nil => rfl
    | cons c rest =>
      have hc := hrest c rfl
      show parseNumber n (c :: rest) = _
      rw [parseNumber, hc]
      rfl
  | cons c digits ih =>
    rw [cons_append, parseNumber, if_pos (hdigits c mem_cons_self), foldl_cons]
    exact ih (fun c hc => hdigits c (mem_cons_of_mem _ hc)) _

/-- The digits come to their number, up to 255. -/
theorem atMost255_number (h : n = m ∨ (255 ≤ n ∧ 255 ≤ m)) :
    atMost255 (digits.foldl (fun n c => if n ≤ 25 then n * 10 + digitValue c else 255) n) =
      atMost255 (Nat.ofDigitChars 10 digits m) := by
  unfold Nat.ofDigitChars
  induction digits generalizing n m with
  | nil =>
    simp only [foldl_nil]
    unfold atMost255
    split
    next => split <;> omega
    next => split <;> omega
  | cons c digits ih =>
    rw [foldl_cons, foldl_cons]
    refine ih ?_
    unfold digitValue
    split
    next => omega
    next => omega

theorem parseWidthStar_other (h : Starts (· ≠ '*') rest) (flags : Flags) (args : Args) (n : Nat) :
    parseWidthStar flags args n rest = ((n, flags), args, rest) := by
  unfold parseWidthStar
  split
  next => exact absurd rfl (h '*' rfl)
  next => rfl

theorem parsePrecisionStar_other (h : Starts (· ≠ '*') rest) (args : Args) (n asked : Nat) :
    parsePrecisionStar args n asked rest = ((some n, some asked), args, rest) := by
  unfold parsePrecisionStar
  split
  next => exact absurd rfl (h '*' rfl)
  next => rfl

theorem parsePrecision_other (h : Starts (· ≠ '.') rest) (args : Args) :
    parsePrecision args rest = ((none, none), args, rest) := by
  unfold parsePrecision
  split
  next => exact absurd rfl (h '.' rfl)
  next => rfl

/-! ## The letters at the end -/

/-- Length modifiers and conversion letters. -/
def letters : List Char :=
  ['h', 'l', 'j', 'z', 't', 'L', 'd', 'i', 'u', 'o', 'x', 'X', 'c', 's', '%']

theorem Directive.Valid.specifier_mem (h : d.Valid) : d.specifier ∈ integral ++ ['c', 's', '%'] := by
  rcases h.letter with ⟨hmem, -⟩ | ⟨hmem, -⟩
  · exact mem_append_left _ hmem
  · exact mem_append_right _ hmem

theorem Directive.Valid.letters_start (h : d.Valid) (rest : List Char) :
    Starts (· ∈ letters) (d.length.text ++ d.specifier :: rest) := by
  have hletter : d.specifier ∈ letters := by
    have hsub : ∀ c ∈ integral ++ ['c', 's', '%'], c ∈ letters := forall_of_all (by decide)
    exact hsub _ h.specifier_mem
  cases d.length with
  | none => exact .cons hletter _
  | hh | h | l | ll | j | z | t | L => exact .cons (by decide) _

theorem parseLength_text (h : d.Valid) (rest : List Char) :
    parseLength (d.length.text ++ d.specifier :: rest) = (d.length, d.specifier :: rest) := by
  have hne : ∀ c ∈ integral ++ ['c', 's', '%'], c ∉ ['h', 'l', 'j', 'z', 't', 'L'] :=
    forall_of_all (by decide)
  have hc := hne _ h.specifier_mem
  generalize d.specifier = c at hc
  simp only [mem_cons, not_mem_nil, or_false, not_or] at hc
  obtain ⟨hh, hl, hj, hz, ht, hL⟩ := hc
  cases d.length with
  | none => simp [Length.text, parseLength, hh, hl, hj, hz, ht, hL]
  | h => simp [Length.text, parseLength, hh]
  | l => simp [Length.text, parseLength, hl]
  | hh | ll | j | z | t | L => rfl

/-! ## Width and precision -/

theorem Directive.Valid.precision_start (h : d.Valid) (rest : List Char) :
    Starts (· ∈ '.' :: letters) (d.precisionText ++ (d.length.text ++ d.specifier :: rest)) := by
  unfold Directive.precisionText
  cases d.precision with
  | none => exact (h.letters_start rest).mono fun _ => mem_cons_of_mem _
  | some p => exact .cons mem_cons_self _

theorem Directive.Valid.width_start (h : d.Valid) (rest : List Char) :
    Starts (· ∉ ['-', '+', '#', ' ', '0'])
      (d.widthText ++ (d.precisionText ++ (d.length.text ++ d.specifier :: rest))) := by
  unfold Directive.widthText
  cases hwidth : d.width with
  | none => exact (h.precision_start rest).within (by decide)
  | some amount =>
    cases amount with
    | star => exact .cons (by decide) _
    | number digits =>
      obtain ⟨hne, hzero, hdigits⟩ := h.width digits hwidth
      cases digits with
      | nil => exact absurd rfl hne
      | cons c digits =>
        refine .cons (fun hc => ?_) _
        have hdigit := hdigits c mem_cons_self
        simp only [mem_cons, not_mem_nil, or_false] at hc
        rcases hc with rfl | rfl | rfl | rfl | rfl
        · exact absurd hdigit (by decide)
        · exact absurd hdigit (by decide)
        · exact absurd hdigit (by decide)
        · exact absurd hdigit (by decide)
        · exact hzero rfl

theorem widthArgument_eq {v : Int} (hv : v.natAbs ≤ 255) (f : Flags) :
    widthArgument f v = (v.natAbs, { f with leftJustify := f.leftJustify || decide (v < 0) }) := by
  unfold widthArgument
  split
  next hneg =>
    have hmin : v ≠ -2 ^ 31 := by omega
    rw [if_neg hmin, decide_eq_true hneg, Bool.or_true]
    have habs : (-v).toNat = v.natAbs := by omega
    rw [habs]
  next hpos =>
    rw [decide_eq_false hpos, Bool.or_false]
    have habs : v.toNat = v.natAbs := by omega
    rw [habs]

/-- The width, and the flags that come of it. -/
theorem parseWidth_text (h : d.Valid) (hwidth : (d.takeWidth args).1.1 ≤ 255) (f : Flags)
    (rest : List Char) : ∃ n after,
      parseNumber 0 (d.widthText ++ (d.precisionText ++ (d.length.text ++ d.specifier :: rest))) =
        (n, after) ∧ ∃ lengthSpec,
      parseWidthStar f args n after =
        ((lengthSpec, { f with leftJustify := f.leftJustify || (d.takeWidth args).1.2 }),
          (d.takeWidth args).2, d.precisionText ++ (d.length.text ++ d.specifier :: rest)) ∧
      atMost255 lengthSpec = (d.takeWidth args).1.1 := by
  have hnext := h.precision_start rest
  have hnumber : ∀ digits : List Char, (∀ c ∈ digits, isdigit c = true) →
      ∀ n, parseNumber n
        (digits ++ (d.precisionText ++ (d.length.text ++ d.specifier :: rest))) = _ :=
    fun _ hdigits => parseNumber_text hdigits (hnext.within (by decide))
  have hother := parseWidthStar_other (hnext.within (p := (· ≠ '*')) (by decide)) f args
  have hsame : { f with leftJustify := f.leftJustify || false } = f := by
    rw [Bool.or_false]
  unfold Directive.widthText Directive.takeWidth at *
  cases hd : d.width with
  | none =>
    refine ⟨0, _, hnumber [] nofun 0, 0, ?_, rfl⟩
    rw [hother, hsame]
  | some amount =>
    rw [hd] at hwidth
    cases amount with
    | number digits =>
      obtain ⟨-, -, hdigits⟩ := h.width digits hd
      refine ⟨_, _, hnumber digits hdigits 0, ?_⟩
      rw [hother]
      refine ⟨_, congrArg (fun g => ((_, g), args, _)) hsame.symm, ?_⟩
      rw [atMost255_number (.inl rfl)]
      exact if_neg (Nat.not_lt.mpr hwidth)
    | star =>
      refine ⟨0, '*' :: (d.precisionText ++ (d.length.text ++ d.specifier :: rest)), rfl, ?_⟩
      rw [parseWidthStar]
      generalize args.int = v at hwidth ⊢
      refine ⟨v.natAbs, ?_, if_neg (Nat.not_lt.mpr hwidth)⟩
      rw [widthArgument_eq hwidth]

/-- The precision, up to 255. -/
theorem parsePrecision_text (h : d.Valid) (args : Args) (rest : List Char) : ∃ asked,
    parsePrecision args (d.precisionText ++ (d.length.text ++ d.specifier :: rest)) =
      (((d.takePrecision args).1.map atMost255, asked), (d.takePrecision args).2,
        d.length.text ++ d.specifier :: rest) := by
  have hnext := h.letters_start rest
  unfold Directive.precisionText Directive.takePrecision
  cases hd : d.precision with
  | none => exact ⟨none, parsePrecision_other (hnext.within (by decide)) args⟩
  | some amount =>
    cases amount with
    | number digits =>
      have hnumber := parseNumber_text (h.precision digits hd) (hnext.within (by decide)) 0
      have hother := fun n asked => parsePrecisionStar_other (hnext.within (p := (· ≠ '*')) (by decide))
        args n asked
      refine ⟨some (written (digits ++ (d.length.text ++ d.specifier :: rest))), ?_⟩
      show parsePrecision args ('.' :: (digits ++ (d.length.text ++ d.specifier :: rest))) = _
      rw [parsePrecision, hnumber]
      dsimp only
      rw [hother]
      dsimp only [Option.map_some]
      rw [atMost255_number (.inl rfl)]
    | star =>
      refine ⟨precisionArgument args.int, ?_⟩
      show parsePrecision args ('.' :: '*' :: (d.length.text ++ d.specifier :: rest)) = _
      rw [parsePrecision, parseNumber, if_neg (by decide)]
      dsimp only
      rw [parsePrecisionStar]
      generalize args.int = v
      rfl

/-- A conversion as `vfprintf` has it. -/
def Wanted.spec (w : Wanted) (length : Length) (asked : Option Nat) : Spec where
  flags := ⟨w.left, w.plus, w.alternate, w.space, w.zero && !w.left⟩
  width := w.width
  precision := w.precision.map atMost255
  asked := asked
  length := length

theorem parseSpec_text (h : d.Valid) (hwidth : (d.wanted args).1.width ≤ 255) (rest : List Char) :
    ∃ asked, parseSpec args (d.text ++ rest) =
      ((d.wanted args).1.spec d.length asked, (d.wanted args).2, d.specifier :: rest) := by
  have hflags := parseFlags_text h.flags (h.width_start rest) ⟨false, false, false, false, false⟩
  obtain ⟨n, after, hnumber, lengthSpec, hstar, hclamp⟩ := parseWidth_text h hwidth
    (Flags.join ⟨false, false, false, false, false⟩ d.flags) rest
  obtain ⟨asked, hprecision⟩ := parsePrecision_text h (d.takeWidth args).2 rest
  have htext : d.text ++ rest = d.flags ++ (d.widthText ++ (d.precisionText ++
      (d.length.text ++ d.specifier :: rest))) := by
    simp [Directive.text, append_assoc]
  refine ⟨asked, ?_⟩
  rw [htext]
  unfold parseSpec
  rw [hflags]
  dsimp only
  rw [hnumber]
  dsimp only
  rw [hstar]
  dsimp only
  rw [hprecision]
  dsimp only
  rw [parseLength_text h]
  dsimp only
  rw [hclamp]
  unfold Wanted.spec Directive.wanted Flags.join
  dsimp only
  simp only [Bool.false_or]
  -- `-` has `0` forgotten
  cases d.flags.contains '-' || (d.takeWidth args).1.2 with
  | false => simp
  | true => simp

end MeatySkeleton.Libc.Printf
