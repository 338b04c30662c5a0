import MeatySkeleton.Libc.Scanf

/-!
# The numbers `vfscanf` reads

What a numeric conversion takes from a stream: white space, a sign, and the digits that come next,
as many as the field width leaves. `scanInteger_eq` says so for each input, and
`scanInteger_longest` that no longer part of the input is of this form.
-/

namespace MeatySkeleton.Libc

open List Lib

variable {s : Stream} {c : Int} {rest input : List Int} {base fuel : Nat} {width : Int}

/-! ## Streams -/

/-- `EOF` is never pushed back. -/
def Stream.Proper (s : Stream) : Prop := s.hasPushback = true → s.pushback ≠ eof

theorem Stream.remaining_of (hread : s.readable = true) (hpushback : s.hasPushback = false) :
    s.remaining = (s.file.contents.drop s.file.offset).map fun b => (b.toNat : Int) := by
  unfold Stream.remaining
  rw [if_pos hread, hpushback]
  rfl

theorem fgetc_nil (hrest : s.remaining = []) : fgetc s = (eof, s) := by
  unfold fgetc
  by_cases hread : s.readable = true
  · by_cases hpushback : s.hasPushback = true
    · unfold Stream.remaining at hrest
      rw [if_pos hread, if_pos hpushback] at hrest
      cases hrest
    · have hnone : s.hasPushback = false := by simpa using hpushback
      rw [Stream.remaining_of hread hnone, map_eq_nil_iff, drop_eq_nil_iff] at hrest
      have hget : s.file.get = none := by
        unfold ByteFile.get
        rw [getElem?_eq_none hrest]
        rfl
      rw [if_neg (by simp [hread]), if_neg hpushback, ByteFile.read, hget]
  · rw [if_pos (by simpa using hread)]

/-- A character is taken, and can be given back. -/
structure Got (s : Stream) (c : Int) (rest : List Int) (s' : Stream) : Prop where
  fgetc : fgetc s = (c, s')
  remaining : s'.remaining = rest
  proper : s'.Proper
  ne_eof : c ≠ eof
  back : (ungetc s' c).2.remaining = c :: rest
  proper_back : (ungetc s' c).2.Proper

theorem Got.intro {s' : Stream} (hget : Libc.fgetc s = (c, s')) (hrest : s'.remaining = rest)
    (hread : s'.readable = true) (hpushback : s'.hasPushback = false) (hc : c ≠ eof) :
    Got s c rest s' := by
  have hback : (ungetc s' c).2 = { s' with pushback := c, hasPushback := true } := by
    unfold ungetc
    rw [if_neg hc, if_neg (by simp [hread]), if_neg (by simp [hpushback])]
  refine ⟨hget, hrest, ?_, hc, ?_, ?_⟩
  · intro htrue
    rw [hpushback] at htrue
    cases htrue
  · rw [hback, ← hrest, Stream.remaining_of hread hpushback]
    unfold Stream.remaining
    rw [if_pos hread, if_pos rfl]
    rfl
  · rw [hback]
    exact fun _ => hc

theorem fgetc_cons (h : s.Proper) (hrest : s.remaining = c :: rest) : ∃ s', Got s c rest s' := by
  by_cases hread : s.readable = true
  · by_cases hpushback : s.hasPushback = true
    · have hmore : s.remaining = s.pushback ::
          (s.file.contents.drop s.file.offset).map fun b => (b.toNat : Int) := by
        unfold Stream.remaining
        rw [if_pos hread, if_pos hpushback]
        rfl
      obtain ⟨rfl, rfl⟩ := List.cons.inj (hmore.symm.trans hrest)
      refine ⟨{ s with hasPushback := false }, .intro ?_ ?_ hread rfl (h hpushback)⟩
      · unfold fgetc
        rw [if_neg (by simp [hread]), if_pos hpushback]
      · exact Stream.remaining_of hread rfl
    · have hnone : s.hasPushback = false := by simpa using hpushback
      rw [Stream.remaining_of hread hnone] at hrest
      cases hdrop : s.file.contents.drop s.file.offset with
      | nil =>
        rw [hdrop] at hrest
        cases hrest
      | cons b more =>
        rw [hdrop, map_cons] at hrest
        obtain ⟨rfl, rfl⟩ := List.cons.inj hrest
        have hlt : s.file.offset < s.file.contents.length := by
          by_contra hge
          rw [drop_eq_nil_of_le (Nat.le_of_not_lt hge)] at hdrop
          cases hdrop
        rw [drop_eq_getElem_cons hlt] at hdrop
        obtain ⟨hb, hmore⟩ := List.cons.inj hdrop
        have hget : s.file.get = some (b, { s.file with offset := s.file.offset + 1 }) := by
          unfold ByteFile.get
          rw [getElem?_eq_getElem hlt, hb]
          rfl
        refine ⟨{ s with file := { s.file with offset := s.file.offset + 1 } },
          .intro ?_ ?_ hread hnone ?_⟩
        · unfold fgetc
          rw [if_neg (by simp [hread]), if_neg hpushback, ByteFile.read, hget]
          rfl
        · rw [← hmore]
          exact Stream.remaining_of hread hnone
        · unfold eof
          omega
  · unfold Stream.remaining at hrest
    rw [if_neg hread] at hrest
    cases hrest

namespace Scanf

/-! ## Loops -/

theorem skipLoop_eq (h : s.Proper) (hfuel : s.remaining.length < fuel) : ∃ s',
    skipLoop fuel s = some (if s.remaining.dropWhile scanIsSpace = [] then eof else 0, s') ∧
      s'.remaining = s.remaining.dropWhile scanIsSpace ∧ s'.Proper := by
  induction fuel generalizing s with
  | zero => exact absurd hfuel (Nat.not_lt_zero _)
  | succ fuel ih =>
    unfold skipLoop
    cases hrest : s.remaining with
    | nil =>
      rw [fgetc_nil hrest]
      exact ⟨s, rfl, hrest, h⟩
    | cons c rest =>
      obtain ⟨s', hgot⟩ := fgetc_cons h hrest
      rw [hgot.fgetc]
      dsimp only
      rw [if_neg hgot.ne_eof]
      by_cases hspace : scanIsSpace c = true
      · have hless : s'.remaining.length < fuel := by
          rw [hrest, length_cons] at hfuel
          rw [hgot.remaining]
          omega
        rw [if_pos hspace, dropWhile_cons_of_pos hspace, ← hgot.remaining]
        exact ih hgot.proper hless
      · rw [if_neg hspace, dropWhile_cons_of_neg hspace, if_neg (cons_ne_nil _ _)]
        exact ⟨_, rfl, hgot.back, hgot.proper_back⟩

theorem scanSkipSpace_eq (h : s.Proper) : ∃ s',
    scanSkipSpace s = some (if s.remaining.dropWhile scanIsSpace = [] then eof else 0, s') ∧
      s'.remaining = s.remaining.dropWhile scanIsSpace ∧ s'.Proper :=
  skipLoop_eq h (Nat.lt_succ_self _)

/-- The digits of a base. -/
def isDigit (base : Nat) (c : Int) : Bool := (scanDigitValue c base).isSome

/-- What a field width leaves of some digits. -/
def room (width : Int) (consumed : Nat) (digits : List Int) : List Int :=
  if width = 0 then digits else digits.take (width.toNat - consumed)

/-- The value of some digits, wrapping around. -/
def valueOf (base value : Nat) (digits : List Int) : Nat :=
  digits.foldl (fun value c => (value * base + (scanDigitValue c base).getD 0) % 2 ^ 32) value

theorem room_cons {consumed : Nat} {digits : List Int} (h : width = 0 ∨ consumed < width) :
    room width consumed (c :: digits) = c :: room width (consumed + 1) digits := by
  unfold room
  split
  next => rfl
  next hne =>
    have hlt := h.resolve_left hne
    obtain ⟨n, hn⟩ : ∃ n, width.toNat - consumed = n + 1 :=
      ⟨width.toNat - consumed - 1, by omega⟩
    rw [hn, take_succ_cons, show width.toNat - (consumed + 1) = n by omega]

theorem room_full {consumed : Nat} {digits : List Int} (h : ¬(width = 0 ∨ consumed < width)) :
    room width consumed digits = [] := by
  rw [not_or] at h
  unfold room
  rw [if_neg h.1, show width.toNat - consumed = 0 by omega, take_zero]

theorem room_nil {consumed : Nat} : room width consumed [] = [] := by
  unfold room
  split
  next => rfl
  next => exact take_nil

/-- The loop takes the digits that there is room for. -/
theorem digitLoop_eq {n : Number} (h : s.Proper) (hfuel : s.remaining.length < fuel) :
    ∃ s', digitLoop base width fuel n s =
        some (⟨valueOf base n.value (room width n.consumed (s.remaining.takeWhile (isDigit base))),
          n.digits + (room width n.consumed (s.remaining.takeWhile (isDigit base))).length,
          n.consumed + (room width n.consumed (s.remaining.takeWhile (isDigit base))).length⟩, s') ∧
      s.remaining = room width n.consumed (s.remaining.takeWhile (isDigit base)) ++ s'.remaining ∧
      s'.Proper := by
  induction fuel generalizing s n with
  | zero => exact absurd hfuel (Nat.not_lt_zero _)
  | succ fuel ih =>
    unfold digitLoop
    by_cases hroom : width = 0 ∨ n.consumed < width
    · rw [if_pos hroom]
      cases hrest : s.remaining with
      | nil =>
        rw [fgetc_nil hrest, takeWhile_nil, room_nil]
        exact ⟨s, rfl, hrest.symm, h⟩
      | cons c rest =>
        obtain ⟨s', hgot⟩ := fgetc_cons h hrest
        rw [hgot.fgetc]
        dsimp only
        rw [if_neg hgot.ne_eof]
        cases hdigit : scanDigitValue c base with
        | none =>
          have hnot : ¬isDigit base c = true := by simp [isDigit, hdigit]
          rw [takeWhile_cons_of_neg hnot, room_nil]
          exact ⟨_, rfl, hgot.back.symm, hgot.proper_back⟩
        | some digit =>
          have his : isDigit base c = true := by simp [isDigit, hdigit]
          have hless : s'.remaining.length < fuel := by
            rw [hrest, length_cons] at hfuel
            rw [hgot.remaining]
            omega
          obtain ⟨s1, hend, htaken, hproper⟩ := @ih s'
            ⟨(n.value * base + digit) % 2 ^ 32, n.digits + 1, n.consumed + 1⟩ hgot.proper hless
          rw [hgot.remaining] at hend htaken
          rw [takeWhile_cons_of_pos his, room_cons hroom]
          refine ⟨s1, ?_, congrArg (c :: ·) htaken, hproper⟩
          dsimp only at hend ⊢
          have hvalue : ∀ digits, valueOf base n.value (c :: digits) =
              valueOf base ((n.value * base + digit) % 2 ^ 32) digits := by
            intro digits
            unfold valueOf
            rw [foldl_cons, hdigit]
            rfl
          rw [hend, hvalue, length_cons, Nat.add_assoc n.digits, Nat.add_assoc n.consumed,
            Nat.add_comm 1]
    · rw [if_neg hroom, room_full hroom]
      exact ⟨s, rfl, rfl, h⟩

/-! ## Conversions -/

/-- The sign that comes next. -/
def signOf : List Int → List Int
  | c :: _ => if c = code '+' ∨ c = code '-' then [c] else []
  | [] => []

theorem scanSign_eq (h : s.Proper) (hwidth : 0 ≤ width) (hsome : s.remaining ≠ []) : ∃ s',
    scanSign width s =
        (some (decide (signOf s.remaining = [code '-']), (signOf s.remaining).length), s') ∧
      s.remaining = signOf s.remaining ++ s'.remaining ∧ s'.Proper := by
  unfold scanSign
  rw [if_pos (by omega)]
  cases hrest : s.remaining with
  | nil => exact absurd hrest hsome
  | cons c rest =>
    obtain ⟨s', hgot⟩ := fgetc_cons h hrest
    rw [hgot.fgetc]
    dsimp only
    rw [if_neg hgot.ne_eof]
    have hfirst : signOf (c :: rest) = if c = code '+' ∨ c = code '-' then [c] else [] := rfl
    rw [hfirst]
    by_cases hsign : c = code '+' ∨ c = code '-'
    · rw [if_pos hsign, if_pos hsign]
      have hminus : decide ([c] = [code '-']) = decide (c = code '-') := by simp
      refine ⟨s', ?_, ?_, hgot.proper⟩
      · rw [hminus]
        rfl
      · rw [hgot.remaining]
        rfl
    · rw [if_neg hsign, if_neg hsign]
      exact ⟨_, rfl, hgot.back.symm, hgot.proper_back⟩

/-- The digits that come after a sign. -/
def digitsOf (base : Nat) (width : Int) (rest : List Int) : List Int :=
  room width (signOf rest).length ((rest.drop (signOf rest).length).takeWhile (isDigit base))

/-- The value of a sign and digits. -/
def Stored.number (base : Nat) (isSigned : Bool) (sign digits : List Int) : Stored :=
  let value := if sign = [code '-'] then (2 ^ 32 - valueOf base 0 digits) % 2 ^ 32
    else valueOf base 0 digits
  if isSigned then .int (Printf.signed 32 value) else .unsigned value

theorem scanInteger_eq (h : s.Proper) (hwidth : 0 ≤ width) (isSigned : Bool)
    (hrest : s.remaining.dropWhile scanIsSpace = rest) : ∃ s',
    scanInteger base isSigned width s =
        some (if rest = [] then eof else if digitsOf base width rest = [] then 0 else 1,
          if digitsOf base width rest = [] then none
            else some (.number base isSigned (signOf rest) (digitsOf base width rest)), s') ∧
      rest = signOf rest ++ (digitsOf base width rest ++ s'.remaining) ∧ s'.Proper := by
  obtain ⟨s1, hskip, hremaining, hproper⟩ := scanSkipSpace_eq h
  rw [hrest] at hskip hremaining
  unfold scanInteger
  rw [hskip, Option.bind_some]
  dsimp only
  by_cases hempty : rest = []
  · have hdigits : digitsOf base width [] = [] := room_nil
    rw [if_pos hempty, if_pos rfl, if_pos hempty]
    subst hempty
    rw [if_pos hdigits, hdigits]
    exact ⟨s1, rfl, hremaining.symm, hproper⟩
  · have hsome : s1.remaining ≠ [] := fun hnil => hempty (hremaining.symm.trans hnil)
    obtain ⟨s2, hsign, hbody, hproper2⟩ := scanSign_eq hproper hwidth hsome
    rw [hremaining] at hsign hbody
    have hdrop : rest.drop (signOf rest).length = s2.remaining := by
      have hleft := @List.drop_left _ (signOf rest) s2.remaining
      rw [← hbody] at hleft
      exact hleft
    obtain ⟨s3, hloop, htaken, hproper3⟩ := @digitLoop_eq s2 base _ width
      ⟨0, 0, (signOf rest).length⟩ hproper2 (Nat.lt_succ_self _)
    have hdigits : room width (signOf rest).length (s2.remaining.takeWhile (isDigit base)) =
        digitsOf base width rest := by
      unfold digitsOf
      rw [hdrop]
    dsimp only at hloop htaken
    rw [hdigits] at hloop htaken
    rw [if_neg hempty, if_neg (by decide), hsign]
    dsimp only
    rw [hloop, Option.map_some]
    refine ⟨s3, ?_, ?_, hproper3⟩
    · by_cases hnone : digitsOf base width rest = []
      · rw [hnone, if_neg hempty]
        rfl
      · have hpos : 0 + (digitsOf base width rest).length ≠ 0 := by
          have := length_pos_of_ne_nil hnone
          omega
        dsimp only
        rw [if_neg hpos, if_neg hempty, if_neg hnone, if_neg hnone]
        unfold Stored.number
        simp only [decide_eq_true_eq]
    · rw [← htaken, ← hbody]

/-! ## The longest item -/

/-- White space, an optional sign and digits within a field width. -/
structure Item (base width : Nat) (text : List Int) : Prop where
  parts : ∃ space sign digits, text = space ++ (sign ++ digits) ∧
    (∀ c ∈ space, scanIsSpace c = true) ∧ sign ∈ [[], [code '+'], [code '-']] ∧
    (∀ c ∈ digits, isDigit base c = true) ∧ (width = 0 ∨ sign.length + digits.length ≤ width)

theorem signOf_mem (rest : List Int) : signOf rest ∈ [[], [code '+'], [code '-']] := by
  unfold signOf
  split
  next c _ =>
    split
    next hsign =>
      rcases hsign with rfl | rfl
      · simp
      · simp
    next => exact mem_cons_self
  next => exact mem_cons_self

theorem mem_takeWhile {p : Int → Bool} {l : List Int} (hc : c ∈ l.takeWhile p) : p c = true := by
  have hall := all_takeWhile (p := p) (l := l)
  exact all_eq_true.mp hall c hc

theorem digitsOf_digit {c : Int} (hc : c ∈ digitsOf base width rest) : isDigit base c = true := by
  unfold digitsOf room at hc
  split at hc
  next => exact mem_takeWhile hc
  next => exact mem_takeWhile (mem_of_mem_take hc)

theorem length_room (width consumed : Nat) (digits : List Int) :
    (room width consumed digits).length =
      if width = 0 then digits.length else min (width - consumed) digits.length := by
  unfold room
  by_cases hzero : width = 0
  · subst hzero
    rfl
  · have hne : (width : Int) ≠ 0 := Int.natCast_ne_zero.mpr hzero
    rw [if_neg hzero, if_neg hne, length_take, Int.toNat_natCast]

theorem length_sign {sign : List Int} (h : sign ∈ [[], [code '+'], [code '-']]) :
    sign.length ≤ 1 := by
  simp only [mem_cons, not_mem_nil, or_false] at h
  rcases h with rfl | rfl | rfl
  · exact Nat.zero_le _
  · exact Nat.le_refl _
  · exact Nat.le_refl _

/-- What a numeric conversion takes from an input. -/
def itemOf (base : Nat) (width : Int) (input : List Int) : List Int :=
  let rest := input.dropWhile scanIsSpace
  input.takeWhile scanIsSpace ++ (signOf rest ++ digitsOf base width rest)

theorem itemOf_item (base width : Nat) (input : List Int) :
    Item base width (itemOf base width input) := by
  refine ⟨_, _, _, rfl, fun c hc => mem_takeWhile hc, signOf_mem _, fun c hc => digitsOf_digit hc, ?_⟩
  have hsign := length_sign (signOf_mem (input.dropWhile scanIsSpace))
  unfold digitsOf
  rw [length_room]
  by_cases hzero : width = 0
  · exact .inl hzero
  · rw [if_neg hzero]
    omega

theorem digit_range {c : Int} (h : isDigit base c = true) :
    (48 ≤ c ∧ c ≤ 57) ∨ (97 ≤ c ∧ c ≤ 102) ∨ (65 ≤ c ∧ c ≤ 70) := by
  unfold isDigit scanDigitValue at h
  by_cases hdecimal : code '0' ≤ c ∧ c ≤ code '9'
  · exact .inl hdecimal
  by_cases hlower : code 'a' ≤ c ∧ c ≤ code 'f'
  · exact .inr (.inl hlower)
  by_cases hupper : code 'A' ≤ c ∧ c ≤ code 'F'
  · exact .inr (.inr hupper)
  rw [if_neg hdecimal, if_neg hlower, if_neg hupper] at h
  cases h

/-- A digit is neither white space nor a sign. -/
theorem digit_plain {c : Int} (h : isDigit base c = true) :
    scanIsSpace c = false ∧ c ≠ code '+' ∧ c ≠ code '-' := by
  have hrange := digit_range h
  have hplus : code '+' = 43 := rfl
  have hminus : code '-' = 45 := rfl
  have hspace : code ' ' = 32 := rfl
  have htab : code '\t' = 9 := rfl
  have hnewline : code '\n' = 10 := rfl
  have hreturn : code '\r' = 13 := rfl
  refine ⟨?_, by omega, by omega⟩
  unfold scanIsSpace
  rw [hspace, htab, hnewline, hreturn]
  simp only [Bool.or_eq_false_iff, decide_eq_false_iff_not]
  omega

theorem item_start {sign digits more : List Int} (hsign : sign ∈ [[], [code '+'], [code '-']])
    (hdigits : ∀ c ∈ digits, isDigit base c = true) (hne : sign ++ digits ≠ []) :
    signOf (sign ++ (digits ++ more)) = sign ∧
      (sign ++ (digits ++ more)).takeWhile scanIsSpace = [] := by
  simp only [mem_cons, not_mem_nil, or_false] at hsign
  rcases hsign with rfl | rfl | rfl
  · cases digits with
    | nil => exact absurd rfl hne
    | cons c digits =>
      obtain ⟨hspace, hplus, hminus⟩ := digit_plain (hdigits c mem_cons_self)
      refine ⟨if_neg (not_or.mpr ⟨hplus, hminus⟩), takeWhile_cons_of_neg ?_⟩
      rw [hspace]
      exact Bool.false_ne_true
  · exact ⟨rfl, takeWhile_cons_of_neg (by decide)⟩
  · exact ⟨rfl, takeWhile_cons_of_neg (by decide)⟩

/-- No longer part of the input is of the form. -/
theorem item_le {width : Nat} {text : List Int} (h : Item base width text)
    (hstart : text <+: input) : text.length ≤ (itemOf base width input).length := by
  obtain ⟨space, sign, digits, rfl, hspace, hsign, hdigits, hwidth⟩ := h.parts
  obtain ⟨more, rfl⟩ := hstart
  have hinput : space ++ (sign ++ digits) ++ more = space ++ (sign ++ (digits ++ more)) := by
    simp only [append_assoc]
  rw [hinput]
  unfold itemOf
  dsimp only
  rw [takeWhile_append_of_pos hspace, dropWhile_append_of_pos hspace]
  by_cases hempty : sign ++ digits = []
  · rw [hempty, append_nil, length_append, length_append]
    omega
  · obtain ⟨hfirst, hnone⟩ := @item_start base sign digits more hsign hdigits hempty
    have hkept : (sign ++ (digits ++ more)).dropWhile scanIsSpace = sign ++ (digits ++ more) := by
      have hsplit := takeWhile_append_dropWhile (p := scanIsSpace) (l := sign ++ (digits ++ more))
      rw [hnone] at hsplit
      exact hsplit
    unfold digitsOf
    rw [hkept, hfirst, hnone, append_nil, drop_left, takeWhile_append_of_pos hdigits]
    simp only [length_append, length_room]
    split
    next => omega
    next => omega

/-- A numeric conversion takes the longest part of the input that is white space, an optional sign
and digits within the field width. -/
theorem scanInteger_longest (h : s.Proper) (base width : Nat) (isSigned : Bool) :
    ∃ result stored s' text, scanInteger base isSigned width s = some (result, stored, s') ∧
      s.remaining = text ++ s'.remaining ∧ Item base width text ∧
      ∀ text', text' <+: s.remaining → Item base width text' → text'.length ≤ text.length := by
  obtain ⟨s', hend, hrest, -⟩ := @scanInteger_eq s _ base width h (Int.natCast_nonneg _) isSigned rfl
  refine ⟨_, _, s', itemOf base width s.remaining, hend, ?_, itemOf_item _ _ _,
    fun text' hstart hitem => item_le hitem hstart⟩
  unfold itemOf
  rw [append_assoc, append_assoc, ← hrest]
  exact takeWhile_append_dropWhile.symm

end Scanf

end MeatySkeleton.Libc
