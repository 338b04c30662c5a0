import MeatySkeleton.Libc.Conformance
import MeatySkeleton.Libc.NumberScanning

/-!
# Numbers that are printed and read back

The digits that `vfprintf` writes are those that `vfscanf` takes, and their value is the number that
was printed: the wrap-around of the one undoes that of the other, also for the least `int`.
-/

namespace MeatySkeleton.Libc.Scanf

open List

open Printf (Args Printer Directive Piece)

variable {takes : Nat → Bool} {floatText : Printf.Spec → Char → Args → List Char}
  {memory : UInt32 → List Char} {args : Args} {s : Stream} {base value : Nat} {letter : Char}

/-! ## Digits -/

theorem scanDigitValue_digitChar (hbase : base = 10 ∨ base = 16) {k : Nat} (hk : k < base) :
    scanDigitValue (code k.digitChar) base = some k := by
  rcases hbase with rfl | rfl
  · have hall : ∀ k < 10, scanDigitValue (code k.digitChar) 10 = some k := by decide
    exact hall k hk
  · have hall : ∀ k < 16, scanDigitValue (code k.digitChar) 16 = some k := by decide
    exact hall k hk

theorem isDigit_toDigits (hbase : base = 10 ∨ base = 16) (value : Nat) :
    ∀ c ∈ (Nat.toDigits base value).map code, isDigit base c = true := by
  intro c hc
  obtain ⟨d, hd, rfl⟩ := mem_map.mp hc
  obtain ⟨k, hk, rfl⟩ := Printf.mem_toDigits (by omega) hd
  unfold isDigit
  rw [scanDigitValue_digitChar hbase hk]
  rfl

theorem valueOf_append (value : Nat) (digits : List Int) (c : Int) :
    valueOf base value (digits ++ [c]) =
      (valueOf base value digits * base + (scanDigitValue c base).getD 0) % 2 ^ 32 := by
  unfold valueOf
  rw [foldl_append]
  rfl

/-- The value that is read wraps around. -/
theorem valueOf_toDigits (hbase : base = 10 ∨ base = 16) (value : Nat) :
    valueOf base 0 ((Nat.toDigits base value).map code) = value % 2 ^ 32 := by
  have hpos : 1 < base := by omega
  induction value using Nat.strongRecOn with
  | _ value ih =>
    rw [Nat.toDigits_eq_if hpos]
    split
    next hlt =>
      show (0 * base + (scanDigitValue (code value.digitChar) base).getD 0) % 2 ^ 32 = _
      rw [scanDigitValue_digitChar hbase hlt, Nat.zero_mul, Nat.zero_add]
      rfl
    next hge =>
      have hless : value / base < value := Nat.div_lt_self (by omega) hpos
      have hdigit := scanDigitValue_digitChar hbase (Nat.mod_lt value (by omega))
      rw [map_append, map_singleton, valueOf_append, ih _ hless, hdigit,
        Option.getD_some, Nat.add_mod, Nat.mod_mul_mod, ← Nat.add_mod, Nat.mul_comm,
        Nat.div_add_mod]

/-! ## Printing -/

/-- The conversion without anything between its `%` and its letter. -/
def plain (letter : Char) : Directive := ⟨[], none, none, .none, letter⟩

def baseOf (letter : Char) : Nat := if letter = 'x' then 16 else 10

theorem baseOf_cases (letter : Char) : baseOf letter = 10 ∨ baseOf letter = 16 := by
  unfold baseOf
  split
  next => exact .inr rfl
  next => exact .inl rfl

/-- What is printed, as sign and digits. -/
def signPrinted (letter : Char) (args : Args) : List Char :=
  if letter = 'd' ∧ args.int < 0 then ['-'] else []

def valuePrinted (letter : Char) (args : Args) : Nat :=
  if letter = 'd' then args.int.natAbs else (args 0).toNat

theorem layout_none (lead body : List Char) : Printf.layout false false 0 lead body = lead ++ body := by
  unfold Printf.layout
  rw [Nat.zero_sub]
  rfl

theorem signedValue_none : Printf.Length.none.signedValue args = args.int := rfl

theorem unsignedValue_none : Printf.Length.none.unsignedValue args = (args 0).toNat :=
  Nat.mod_eq_of_lt (args 0).toNat_lt

/-- The conversion as `vfprintf` has it. -/
def plainSpec : Printf.Spec := ⟨⟨false, false, false, false, false⟩, 0, none, none, .none⟩

theorem writtenInt_plain (value : Int) : plainSpec.writtenInt value =
    (if value < 0 then ['-'] else []) ++ Nat.toDigits 10 value.natAbs := by
  show Printf.layout false false 0 (Printf.signText value false false) _ = _
  rw [layout_none]
  rfl

theorem writtenUint_plain (specifier : Char) (value : Nat) :
    plainSpec.writtenUint specifier value = Printf.uintDigits specifier value := by
  have hlead : Printf.alternate plainSpec.flags.altForm specifier value = [] :=
    if_neg fun h => Bool.false_ne_true h.1
  unfold Printf.Spec.writtenUint
  dsimp only
  rw [hlead, if_neg (fun h => h.1 rfl)]
  exact layout_none [] _

theorem writtenText_plain (letter : Char) :
    Printf.writtenText memory [.conversion (plain letter)] args =
      plainSpec.written memory letter args := by
  have hwanted : (plain letter).wanted args = (⟨false, false, false, false, false, 0, none⟩, args) :=
    rfl
  unfold Printf.writtenText Printf.Piece.written Printf.writtenText
  dsimp only
  rw [hwanted, append_nil]
  rfl

section
variable (spec : Printf.Spec)

theorem written_d : spec.written memory 'd' args =
    spec.writtenInt (spec.length.signedValue args) := rfl

theorem written_u : spec.written memory 'u' args =
    spec.writtenUint 'u' (spec.length.unsignedValue args) := rfl

theorem written_x : spec.written memory 'x' args =
    spec.writtenUint 'x' (spec.length.unsignedValue args) := rfl

end

theorem vfprintf_number (hletter : letter ∈ ['d', 'u', 'x']) (htakes : ∀ i, takes i = true) :
    ∃ printer : Printer,
      Printf.vfprintf takes floatText memory ['%', letter] args =
        some (printer.output.length, printer) ∧
      printer.output = signPrinted letter args ++
        Nat.toDigits (baseOf letter) (valuePrinted letter args) := by
  have hvalid : (plain letter).Valid := by
    refine ⟨nofun, nofun, nofun, .inl ⟨?_, nofun⟩⟩
    simp only [mem_cons, not_mem_nil, or_false] at hletter
    rcases hletter with rfl | rfl | rfl
    all_goals decide
  have hfits : Printf.Throughout Piece.Fits memory [.conversion (plain letter)] args := by
    refine ⟨⟨Nat.zero_le _, fun hs => ?_⟩, trivial⟩
    have hs : letter = 's' := hs
    subst hs
    exact absurd hletter (by decide)
  obtain ⟨printer, hreturn, houtput⟩ := @Printf.vfprintf_written takes floatText memory args htakes
    [.conversion (plain letter)] (fun p hp => mem_singleton.mp hp ▸ hvalid) hfits
  have hformat : Printf.formatOf [.conversion (plain letter)] = ['%', letter] := rfl
  rw [hformat] at hreturn
  refine ⟨printer, hreturn, ?_⟩
  have hlength : plainSpec.length = .none := rfl
  rw [houtput, writtenText_plain]
  simp only [mem_cons, not_mem_nil, or_false] at hletter
  rcases hletter with rfl | rfl | rfl
  · rw [written_d, hlength, signedValue_none, writtenInt_plain]
    unfold signPrinted valuePrinted
    simp [baseOf]
  · rw [written_u, hlength, unsignedValue_none, writtenUint_plain]
    simp [signPrinted, valuePrinted, baseOf, Printf.uintDigits]
  · rw [written_x, hlength, unsignedValue_none, writtenUint_plain]
    simp [signPrinted, valuePrinted, baseOf, Printf.uintDigits]

/-! ## Reading -/

/-- What is stored when a printed number is read. -/
def readBack (letter : Char) (args : Args) : Stored :=
  if letter = 'd' then .int args.int else .unsigned (args 0).toNat

theorem int_range (args : Args) : -2 ^ 31 ≤ args.int ∧ args.int < 2 ^ 31 := by
  have hle := Int.le_bmod (x := (args 0).toNat) (m := 2 ^ 32) (by decide)
  have hlt := Int.bmod_lt (x := (args 0).toNat) (m := 2 ^ 32) (by decide)
  exact ⟨hle, hlt⟩

theorem signed_natAbs {v : Int} (h : -2 ^ 31 ≤ v ∧ v < 2 ^ 31) :
    Printf.signed 32 (if v < 0 then (2 ^ 32 - v.natAbs % 2 ^ 32) % 2 ^ 32 else v.natAbs % 2 ^ 32) =
      v := by
  unfold Printf.signed
  rw [Int.bmod_def]
  split
  next => split <;> omega
  next => split <;> omega

theorem number_readBack (letter : Char) (args : Args) :
    Stored.number (baseOf letter) (letter = 'd') ((signPrinted letter args).map code)
      ((Nat.toDigits (baseOf letter) (valuePrinted letter args)).map code) =
    readBack letter args := by
  unfold Stored.number readBack
  rw [valueOf_toDigits (baseOf_cases letter)]
  by_cases hd : letter = 'd'
  · have hsign : (signPrinted letter args).map code = [code '-'] ↔ args.int < 0 := by
      unfold signPrinted
      by_cases hneg : args.int < 0
      · rw [if_pos ⟨hd, hneg⟩]
        exact ⟨fun _ => hneg, fun _ => rfl⟩
      · rw [if_neg fun h => hneg h.2]
        exact ⟨nofun, fun h => absurd h hneg⟩
    have hvalue := signed_natAbs (int_range args)
    have hprinted : valuePrinted letter args = args.int.natAbs := if_pos hd
    rw [hprinted, if_pos hd]
    generalize args.int = v at hsign hvalue
    dsimp only
    rw [if_pos (decide_eq_true hd), if_congr hsign rfl rfl, hvalue]
  · have hsign : signPrinted letter args = [] := if_neg fun h => hd h.1
    have hprinted : valuePrinted letter args = (args 0).toNat := if_neg hd
    have hlt := (args 0).toNat_lt
    rw [hsign, hprinted, if_neg hd]
    dsimp only
    rw [if_neg (by simpa using hd), if_neg nofun, Nat.mod_eq_of_lt hlt]

/-- A number that is there is read, and nothing after it. -/
theorem scanInteger_present (h : s.Proper) {base : Nat} (isSigned : Bool)
    {space sign digits rest : List Int} (hspace : ∀ c ∈ space, scanIsSpace c = true)
    (hsign : sign ∈ [[], [code '+'], [code '-']]) (hdigits : ∀ c ∈ digits, isDigit base c = true)
    (hsome : digits ≠ []) (hrest : rest.takeWhile (isDigit base) = [])
    (hremaining : s.remaining = space ++ (sign ++ (digits ++ rest))) :
    ∃ s', scanInteger base isSigned 0 s = some (1, some (.number base isSigned sign digits), s') ∧
      s'.remaining = rest := by
  have hne : sign ++ digits ≠ [] := fun hnil => hsome (append_eq_nil_iff.mp hnil).2
  obtain ⟨hfirst, hnone⟩ := @item_start base sign digits rest hsign hdigits hne
  have hkept : (sign ++ (digits ++ rest)).dropWhile scanIsSpace = sign ++ (digits ++ rest) := by
    have hsplit := takeWhile_append_dropWhile (p := scanIsSpace) (l := sign ++ (digits ++ rest))
    rw [hnone] at hsplit
    exact hsplit
  have hafter : s.remaining.dropWhile scanIsSpace = sign ++ (digits ++ rest) := by
    rw [hremaining, dropWhile_append_of_pos hspace, hkept]
  have htaken : digitsOf base 0 (sign ++ (digits ++ rest)) = digits := by
    unfold digitsOf room
    rw [if_pos rfl, hfirst, drop_left, takeWhile_append_of_pos hdigits, hrest, append_nil]
  obtain ⟨s', hend, hparts, -⟩ := @scanInteger_eq s _ base 0 h (Int.le_refl 0) isSigned hafter
  have hinput : sign ++ (digits ++ rest) ≠ [] := by
    intro hnil
    exact hsome (append_eq_nil_iff.mp (append_eq_nil_iff.mp hnil).2).1
  rw [htaken, hfirst] at hend hparts
  rw [if_neg hinput, if_neg hsome, if_neg hsome] at hend
  refine ⟨s', hend, ?_⟩
  exact (append_cancel_left (append_cancel_left hparts)).symm

/-! ## Formats -/

/-- The decimal digits of a field width. -/
structure IsWidth (digits : List Char) (width : Nat) : Prop where
  decimal : ∀ c ∈ digits, Printf.isdigit c = true
  value : Nat.ofDigitChars 10 digits 0 = width
  fits : width < 2 ^ 31

theorem le_ofDigitChars (digits : List Char) (n : Nat) : n ≤ Nat.ofDigitChars 10 digits n := by
  induction digits generalizing n with
  | nil => exact Nat.le_refl _
  | cons c digits ih =>
    have hrest := ih (10 * n + (c.toNat - '0'.toNat))
    rw [Nat.ofDigitChars_cons]
    omega

theorem parseWidth_eq {digits : List Char} (hdigits : ∀ c ∈ digits, Printf.isdigit c = true)
    (hletter : Printf.isdigit letter = false) {n : Nat}
    (hfits : Nat.ofDigitChars 10 digits n < 2 ^ 31) :
    parseWidth n (digits ++ [letter]) = (((Nat.ofDigitChars 10 digits n : Nat) : Int), [letter]) := by
  induction digits generalizing n with
  | nil =>
    have hnot : ¬('0' ≤ letter ∧ letter ≤ '9') := by
      simpa [Printf.isdigit] using hletter
    rw [nil_append, parseWidth, if_neg hnot]
    rfl
  | cons c digits ih =>
    have hc : '0' ≤ c ∧ c ≤ '9' := by
      simpa [Printf.isdigit] using hdigits c mem_cons_self
    rw [Nat.ofDigitChars_cons] at hfits
    have hle := le_ofDigitChars digits (10 * n + (c.toNat - '0'.toNat))
    have hcode : code c - code '0' = ((c.toNat - '0'.toNat : Nat) : Int) := by
      have hge : '0'.toNat ≤ c.toNat := hc.1
      unfold code
      omega
    have hwrap : Int.bmod (n * 10 + (code c - code '0')) (2 ^ 32) =
        ((10 * n + (c.toNat - '0'.toNat) : Nat) : Int) := by
      rw [hcode, Int.bmod_def]
      split
      next => omega
      next => omega
    rw [cons_append, parseWidth, if_pos hc, hwrap,
      ih (fun c hc => hdigits c (mem_cons_of_mem _ hc)) hfits, Nat.ofDigitChars_cons]

theorem scanFunction_number (hletter : letter ∈ ['d', 'u', 'x']) :
    scanFunction letter = some (scanInteger (baseOf letter) (letter = 'd')) := by
  simp only [mem_cons, not_mem_nil, or_false] at hletter
  rcases hletter with rfl | rfl | rfl
  · rfl
  · rfl
  · rfl

/-- A format that is one conversion. -/
theorem vfscanf_number (hletter : letter ∈ ['d', 'u', 'x']) {digits : List Char} {width : Nat}
    (hwidth : IsWidth digits width) {result : Int} {stored : Option Stored} {s' : Stream}
    (hscan : scanInteger (baseOf letter) (letter = 'd') width s = some (result, stored, s')) :
    vfscanf s ('%' :: (digits ++ [letter])) =
      some (if result = eof then eof else if result = 0 then 0 else 1, stored.toList, s') := by
  have hplain : letter ≠ '%' ∧ Printf.isdigit letter = false := by
    simp only [mem_cons, not_mem_nil, or_false] at hletter
    rcases hletter with rfl | rfl | rfl
    all_goals decide
  have hparsed : parseWidth 0 (digits ++ [letter]) = ((width : Int), [letter]) := by
    have hfits := hwidth.fits
    rw [← hwidth.value] at hfits ⊢
    exact parseWidth_eq hwidth.decimal hplain.2 hfits
  unfold vfscanf
  rw [length_cons]
  unfold scanLoop
  rw [if_neg (by decide), if_neg (by decide)]
  split
  next hnil =>
    have hlength := congrArg List.length hnil
    simp at hlength
  next format hformat =>
    cases digits with
    | nil => exact absurd (List.cons.inj hformat).1 hplain.1
    | cons c digits =>
      have hc := hwidth.decimal c mem_cons_self
      rw [(List.cons.inj hformat).1] at hc
      exact absurd hc (by decide)
  next =>
    rw [hparsed]
    dsimp only
    rw [scanFunction_number hletter]
    dsimp only
    rw [hscan, Option.bind_some]
    dsimp only
    split
    next => rfl
    next =>
      split
      next => rfl
      next =>
        unfold scanLoop
        rfl

/-- What a numeric conversion does with the input, for each field width: it takes the longest part
that is white space, an optional sign and digits within the width, and in a format it does the
same. -/
def TakesLongest (letter : Char) (s : Stream) : Prop :=
  ∀ width : Nat, ∃ result stored s' text,
    scanInteger (baseOf letter) (letter = 'd') width s = some (result, stored, s') ∧
    s.remaining = text ++ s'.remaining ∧ Item (baseOf letter) width text ∧
    (∀ text', text' <+: s.remaining → Item (baseOf letter) width text' →
      text'.length ≤ text.length) ∧
    ∀ digits, IsWidth digits width → vfscanf s ('%' :: (digits ++ [letter])) =
      some (if result = eof then eof else if result = 0 then 0 else 1, stored.toList, s')

/-- A printed number after white space is read, with the number as its value, and what comes after
it is left. -/
def ReadBack (letter : Char) (args : Args) (printed : List Char) (s : Stream) : Prop :=
  ∀ space rest, (∀ c ∈ space, scanIsSpace c = true) → rest.takeWhile (isDigit (baseOf letter)) = [] →
    s.remaining = space ++ (printed.map code ++ rest) →
    ∃ s', vfscanf s ['%', letter] = some (1, [readBack letter args], s') ∧ s'.remaining = rest

/-- `vfscanf` takes the longest prefix, and reads back what `vfprintf` prints. -/
theorem numbers_scanned (hletter : letter ∈ ['d', 'u', 'x']) (htakes : ∀ i, takes i = true)
    (h : s.Proper) : TakesLongest letter s ∧ ∃ printer : Printer,
      Printf.vfprintf takes floatText memory ['%', letter] args =
        some (printer.output.length, printer) ∧ ReadBack letter args printer.output s := by
  constructor
  · intro width
    obtain ⟨result, stored, s', text, hscan, hrest, hitem, hlongest⟩ :=
      scanInteger_longest h (baseOf letter) width (letter = 'd')
    exact ⟨result, stored, s', text, hscan, hrest, hitem, hlongest,
      fun digits hdigits => vfscanf_number hletter hdigits hscan⟩
  · obtain ⟨printer, hreturn, houtput⟩ :=
      @vfprintf_number takes floatText memory args letter hletter htakes
    refine ⟨printer, hreturn, fun space rest hspace hrest hremaining => ?_⟩
    have hbase : baseOf letter = 10 ∨ baseOf letter = 16 := baseOf_cases letter
    have hsign : (signPrinted letter args).map code ∈ [[], [code '+'], [code '-']] := by
      unfold signPrinted
      split
      next => simp
      next => exact List.mem_cons_self
    have hsome : (Nat.toDigits (baseOf letter) (valuePrinted letter args)).map code ≠ [] :=
      fun hnil => Nat.toDigits_ne_nil (List.map_eq_nil_iff.mp hnil)
    rw [houtput, List.map_append, List.append_assoc] at hremaining
    obtain ⟨s', hscan, hleft⟩ := scanInteger_present h (letter = 'd') hspace hsign
      (isDigit_toDigits hbase _) hsome hrest hremaining
    rw [number_readBack] at hscan
    have hnone : IsWidth [] 0 := ⟨fun c hc => absurd hc List.not_mem_nil, rfl, by decide⟩
    exact ⟨s', vfscanf_number hletter hnone hscan, hleft⟩

/-- ` -2147483648,`, to be read. -/
def leastStream : Stream :=
  ⟨⟨[32, 45, 50, 49, 52, 55, 52, 56, 51, 54, 52, 56, 44], 0, false⟩, true, false, 0, false, 0, [],
    .none⟩

theorem numbers_scanned_least : TakesLongest 'd' leastStream ∧ ∃ printer : Printer,
    Printf.vfprintf (fun _ => true) (fun _ _ _ => []) (fun _ => []) ['%', 'd'] (fun _ => 2 ^ 31) =
      some (printer.output.length, printer) ∧
    ReadBack 'd' (fun _ => 2 ^ 31) printer.output leastStream :=
  numbers_scanned (by decide) (fun _ => rfl) nofun

end MeatySkeleton.Libc.Scanf
