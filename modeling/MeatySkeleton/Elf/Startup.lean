import MeatySkeleton.Elf.Image

/-!
# The startup table

What `map_user_stack` writes into the top stack page: the strings from the top downward, the
last one first, and below them, word-aligned, `argc`, the addresses of the strings and NULL
(`Startup`). They go in exactly when their sizes add up to a page at most (`Fits`).
-/

namespace MeatySkeleton.Elf

open List Lib Paging

/-- What strings take up, each with its NUL. -/
def stringBytes (strings : List ((Nat → Byte) × Nat)) : Nat := (strings.map fun s => s.2 + 1).sum

/-- Where string `i` goes, below `top`. -/
def stringAddress (top : Nat) (strings : List ((Nat → Byte) × Nat)) (i : Nat) : Nat :=
  top - stringBytes (strings.drop i)

def stringAddresses (top : Nat) (strings : List ((Nat → Byte) × Nat)) : List Nat :=
  (List.range strings.length).map (stringAddress top strings)

/-- The strings, up to a multiple of four, and the table go into a page. -/
def Fits (strings : List ((Nat → Byte) × Nat)) : Prop :=
  (stringBytes strings + 3) / 4 * 4 + (strings.length + 2) * 4 ≤ pageSize

instance (strings : List ((Nat → Byte) × Nat)) : Decidable (Fits strings) :=
  inferInstanceAs (Decidable (_ ≤ _))

/-- The initial stack pointer. -/
def startupPointer (top : Nat) (strings : List ((Nat → Byte) × Nat)) : Nat :=
  let sp := top - stringBytes strings
  sp - sp % 4 - (strings.length + 2) * 4

variable {strings : List ((Nat → Byte) × Nat)} {bottom sp top : Nat} {bytes : Nat → Option Byte}

theorem stringBytes_append (l l' : List ((Nat → Byte) × Nat)) :
    stringBytes (l ++ l') = stringBytes l + stringBytes l' := by
  unfold stringBytes
  rw [map_append, sum_append]

theorem stringBytes_singleton (s : (Nat → Byte) × Nat) : stringBytes [s] = s.2 + 1 := rfl

/-- A string more, at the end. -/
theorem stringAddress_append (l : List ((Nat → Byte) × Nat)) (s : (Nat → Byte) × Nat) {i : Nat}
    (hi : i ≤ l.length) : stringAddress top (l ++ [s]) i = stringAddress (top - (s.2 + 1)) l i := by
  unfold stringAddress
  rw [drop_append_of_le_length hi, stringBytes_append, stringBytes_singleton]
  omega

theorem stringAddresses_append (l : List ((Nat → Byte) × Nat)) (s : (Nat → Byte) × Nat) :
    stringAddresses top (l ++ [s]) =
      stringAddresses (top - (s.2 + 1)) l ++ [top - (s.2 + 1)] := by
  unfold stringAddresses
  rw [length_append, length_singleton, range_succ, map_append]
  congr 1
  · exact map_congr_left fun i hi =>
      stringAddress_append l s (Nat.le_of_lt (mem_range.mp hi))
  · show [stringAddress top (l ++ [s]) l.length] = _
    rw [stringAddress_append l s (Nat.le_refl _)]
    unfold stringAddress
    rw [drop_length]
    rfl

/-! ## The strings -/

/-- The copies succeed where there is room for all of them. -/
theorem copyArguments_result (h : bottom ≤ sp) :
    (copyArguments bottom strings.reverse sp).2 =
      if bottom + stringBytes strings ≤ sp then
        some (sp - stringBytes strings, stringAddresses sp strings)
      else none := by
  induction strings using List.reverseRecOn generalizing sp with
  | nil =>
    rw [if_pos (by exact h)]
    rfl
  | append_singleton l s ih =>
    rw [reverse_concat, copyArguments, stringBytes_append, stringBytes_singleton,
      stringAddresses_append]
    by_cases hfull : sp < bottom + (s.2 + 1)
    · rw [if_pos hfull, if_neg (by omega)]
    · rw [if_neg hfull]
      dsimp only
      rw [ih (by omega)]
      by_cases hroom : bottom + stringBytes l ≤ sp - (s.2 + 1)
      · rw [if_pos hroom, if_pos (by omega)]
        show some (sp - (s.2 + 1) - stringBytes l, _) = some (sp - (stringBytes l + (s.2 + 1)), _)
        rw [Nat.sub_sub, Nat.add_comm (s.2 + 1)]
      · rw [if_neg hroom, if_neg (by omega)]
        rfl

/-- Each string is copied to its address, and nothing is written elsewhere. -/
theorem copyArguments_bytes (h : bottom + stringBytes strings ≤ sp) (bytes : Nat → Option Byte) :
    (∀ x, x < sp - stringBytes strings - bottom ∨ sp - bottom ≤ x →
      overwritten (copyArguments bottom strings.reverse sp).1 bytes x = bytes x) ∧
    ∀ i (hi : i < strings.length) j, j ≤ (strings[i]).2 →
      overwritten (copyArguments bottom strings.reverse sp).1 bytes
        (stringAddress sp strings i - bottom + j) = some ((strings[i]).1 j) := by
  induction strings using List.reverseRecOn generalizing sp bytes with
  | nil => exact ⟨fun _ _ => rfl, fun i hi => absurd hi (Nat.not_lt_zero i)⟩
  | append_singleton l s ih =>
    rw [stringBytes_append, stringBytes_singleton] at h
    obtain ⟨hrest, hstrings⟩ := @ih (sp - (s.2 + 1)) (by omega)
      (overwritten (memcpy (sp - (s.2 + 1) - bottom) s.1 (s.2 + 1)) bytes)
    rw [reverse_concat, copyArguments, if_neg (by omega)]
    dsimp only
    rw [overwritten_append, stringBytes_append, stringBytes_singleton]
    refine ⟨fun x hx => ?_, fun i hi j hj => ?_⟩
    · rw [hrest x (by omega), overwritten_memcpy, if_neg (by omega)]
    · by_cases hlast : i < l.length
      · rw [stringAddress_append l s (Nat.le_of_lt hlast)]
        have hget : (l ++ [s])[i] = l[i] := getElem_append_left hlast
        rw [hget] at hj ⊢
        exact hstrings i hlast j hj
      · have hat : i = l.length := by
          rw [length_append, length_singleton] at hi
          omega
        subst hat
        have hget : (l ++ [s])[l.length] = s := getElem_concat_length rfl _
        have haddress : stringAddress sp (l ++ [s]) l.length = sp - (s.2 + 1) := by
          rw [stringAddress_append l s (Nat.le_refl _)]
          unfold stringAddress
          rw [drop_length]
          rfl
        rw [hget] at hj ⊢
        rw [haddress, hrest _ (by omega), overwritten_memcpy, if_pos (by omega),
          Nat.add_sub_cancel_left]

/-! ## The table -/

/-- The words of the table are stored one after the other. -/
theorem storeTable_bytes {ws : List Nat} {offset : Nat} (bytes : Nat → Option Byte) :
    (∀ x, x < offset ∨ offset + 4 * ws.length ≤ x →
      overwritten (storeTable offset ws) bytes x = bytes x) ∧
    ∀ i (hi : i < ws.length) b, b < 4 →
      overwritten (storeTable offset ws) bytes (offset + 4 * i + b) = some (wordBytes ws[i] b) := by
  induction ws generalizing offset bytes with
  | nil => exact ⟨fun _ _ => rfl, fun i hi => absurd hi (Nat.not_lt_zero i)⟩
  | cons w ws ih =>
    obtain ⟨hrest, hwords⟩ := @ih (offset + 4) (overwritten (memcpy offset (wordBytes w) 4) bytes)
    rw [storeTable, overwritten_append]
    refine ⟨fun x hx => ?_, fun i hi b hb => ?_⟩
    · rw [length_cons] at hx
      rw [hrest x (by omega), overwritten_memcpy, if_neg (by omega)]
    · cases i with
      | zero =>
        rw [hrest _ (by omega), overwritten_memcpy, if_pos (by omega)]
        show some (wordBytes w (offset + b - offset)) = some (wordBytes w b)
        rw [Nat.add_sub_cancel_left]
      | succ i =>
        have hplace : offset + 4 * (i + 1) + b = offset + 4 + 4 * i + b := by omega
        rw [hplace]
        exact hwords i (Nat.lt_of_succ_lt_succ hi) b hb

/-- What the page shows of a word whose bytes are known. -/
theorem page_word {page : Nat → Word} {offset w : Nat} (haligned : offset % 4 = 0)
    (hholds : ∀ b, b < 4 → byteOf page (offset + b) = wordBytes w b) :
    page (offset / 4) = BitVec.ofNat 32 w := by
  refine word_ext fun i hi => ?_
  have hbyte := hholds i hi
  have hword : (offset + i) / 4 = offset / 4 := by omega
  have hpos : (offset + i) % 4 = i := by omega
  rw [byteOf, hword, hpos] at hbyte
  exact hbyte

/-! ## The page -/

/-- The top stack page, from `bottom` on, as the entry of a program expects it. -/
structure Startup (page : Nat → Word) (bottom sp : Nat) (strings : List ((Nat → Byte) × Nat))
    (address : Nat → Nat) : Prop where
  aligned : sp % 4 = 0
  within : bottom ≤ sp
  argc : (page ((sp - bottom) / 4)).toNat = strings.length
  argv : ∀ i < strings.length, (page ((sp - bottom) / 4 + 1 + i)).toNat = address i
  null : (page ((sp - bottom) / 4 + 1 + strings.length)).toNat = 0
  /-- The strings are above the table, one after the other, up to the end of the page. -/
  above : ∀ i < strings.length, sp + 4 * (strings.length + 2) ≤ address i
  apart : ∀ i (hi : i < strings.length), ∀ k, i < k → k < strings.length →
    address i + ((strings[i]).2 + 1) ≤ address k
  below : ∀ i (hi : i < strings.length), address i + ((strings[i]).2 + 1) ≤ bottom + pageSize
  copy : ∀ i (hi : i < strings.length), ∀ j ≤ (strings[i]).2,
    byteOf page (address i - bottom + j) = (strings[i]).1 j

/-- The steps that write arguments that fit. -/
theorem writeArguments_fits (htop : top % pageSize = 0) (hpage : pageSize ≤ top)
    (hfits : Fits strings) : writeArguments top strings =
      ((copyArguments (top - pageSize) strings.reverse top).1 ++
        storeTable (startupPointer top strings - (top - pageSize))
          (strings.length :: (stringAddresses top strings ++ [0])) ++ [.unmapScratch true],
        some (startupPointer top strings)) := by
  have hcopy := @copyArguments_result strings (top - pageSize) top (Nat.sub_le _ _)
  have hroom : top - pageSize + stringBytes strings ≤ top := by
    unfold Fits at hfits
    unfold pageSize at *
    omega
  rw [if_pos hroom] at hcopy
  have htable : ¬top - stringBytes strings - (top - stringBytes strings) % 4 <
      top - pageSize + (strings.length + 2) * 4 := by
    unfold Fits at hfits
    unfold pageSize at *
    omega
  unfold writeArguments startupPointer
  dsimp only
  generalize copyArguments (top - pageSize) strings.reverse top = r at hcopy ⊢
  obtain ⟨steps, result⟩ := r
  dsimp only at hcopy
  subst hcopy
  dsimp only
  rw [if_neg htable]

/-- Strings that do not fit end the call. -/
theorem copyArguments_full {sp : Nat} (h : bottom ≤ sp) (hsp : sp ≤ bottom + pageSize)
    (hfull : ¬bottom + stringBytes strings ≤ sp) :
    ∃ writes, (copyArguments bottom strings.reverse sp).1 =
      writes ++ [.unmapScratch false, .reject] ∧ Writes writes := by
  induction strings using List.reverseRecOn generalizing sp with
  | nil => exact absurd h hfull
  | append_singleton l s ih =>
    rw [reverse_concat, copyArguments]
    by_cases hfirst : sp < bottom + (s.2 + 1)
    · rw [if_pos hfirst]
      exact ⟨[], rfl, fun _ hs => by cases hs⟩
    · rw [stringBytes_append, stringBytes_singleton] at hfull
      obtain ⟨writes, hsteps, hwrites⟩ := @ih (sp - (s.2 + 1)) (by omega) (by omega) (by omega)
      rw [if_neg hfirst]
      dsimp only
      rw [hsteps, ← append_assoc]
      exact ⟨_, rfl, (writes_memcpy (by omega)).append hwrites⟩

/-- Arguments that do not fit end the call, with the scratch page unmapped. -/
theorem writeArguments_full (htop : top % pageSize = 0) (hpage : pageSize ≤ top)
    (hfits : ¬Fits strings) : ∃ writes, writeArguments top strings =
      (writes ++ [.unmapScratch false, .reject], none) ∧ Writes writes := by
  have hcopy := @copyArguments_result strings (top - pageSize) top (Nat.sub_le _ _)
  by_cases hroom : top - pageSize + stringBytes strings ≤ top
  · rw [if_pos hroom] at hcopy
    have htable : top - stringBytes strings - (top - stringBytes strings) % 4 <
        top - pageSize + (strings.length + 2) * 4 := by
      unfold Fits at hfits
      unfold pageSize at *
      omega
    obtain ⟨hwrites, -⟩ := copyArguments_spec (Prod.ext rfl hcopy) (Nat.sub_le _ _) (by omega)
    unfold writeArguments
    dsimp only
    generalize copyArguments (top - pageSize) strings.reverse top = r at hcopy hwrites ⊢
    obtain ⟨steps, result⟩ := r
    dsimp only at hcopy
    subst hcopy
    dsimp only
    rw [if_pos htable]
    exact ⟨steps, rfl, hwrites⟩
  · rw [if_neg hroom] at hcopy
    obtain ⟨writes, hsteps, hwrites⟩ :=
      @copyArguments_full strings (top - pageSize) top (Nat.sub_le _ _) (by omega) hroom
    unfold writeArguments
    dsimp only
    generalize copyArguments (top - pageSize) strings.reverse top = r at hcopy hsteps ⊢
    obtain ⟨steps, result⟩ := r
    dsimp only at hcopy hsteps
    subst hcopy
    subst hsteps
    exact ⟨writes, rfl, hwrites⟩

theorem stringAddress_bounds (h : stringBytes strings ≤ top) {i : Nat} (hi : i < strings.length) :
    top - stringBytes strings ≤ stringAddress top strings i ∧
      stringAddress top strings i + ((strings[i]).2 + 1) ≤ top ∧
      ∀ k, i < k → stringAddress top strings i + ((strings[i]).2 + 1) ≤ stringAddress top strings k := by
  have hall : stringBytes strings =
      stringBytes (strings.take i) + stringBytes (strings.drop i) := by
    rw [← stringBytes_append, take_append_drop]
  have hdrop : stringBytes (strings.drop i) =
      (strings[i]).2 + 1 + stringBytes (strings.drop (i + 1)) := by
    rw [drop_eq_getElem_cons hi]
    rfl
  unfold stringAddress
  refine ⟨by omega, by omega, fun k hk => ?_⟩
  have hrest : stringBytes (strings.drop (i + 1)) =
      stringBytes ((strings.drop (i + 1)).take (k - (i + 1))) + stringBytes (strings.drop k) := by
    have hsplit : (strings.drop (i + 1)).drop (k - (i + 1)) = strings.drop k := by
      rw [drop_drop, Nat.add_sub_cancel' hk]
    rw [← hsplit, ← stringBytes_append, take_append_drop]
  omega

/-- Where the fitting arguments lie in the page. -/
theorem startupPointer_bounds (htop : top % pageSize = 0) (hpage : pageSize ≤ top)
    (hfits : Fits strings) : startupPointer top strings % 4 = 0 ∧
      top - pageSize ≤ startupPointer top strings ∧
      startupPointer top strings + 4 * (strings.length + 2) ≤ top - stringBytes strings ∧
      stringBytes strings ≤ pageSize ∧ strings.length < pageSize := by
  have hsp : startupPointer top strings =
      top - stringBytes strings - (top - stringBytes strings) % 4 - (strings.length + 2) * 4 := rfl
  have hsize : pageSize = 4096 := rfl
  unfold Fits at hfits
  rw [hsize] at htop hpage hfits ⊢
  generalize stringBytes strings = n at hfits hsp ⊢
  refine ⟨?_, ?_, ?_, ?_, ?_⟩ <;> omega

theorem overwritten_unmap (steps : List Step) (ok : Bool) (bytes : Nat → Option Byte) :
    overwritten (steps ++ [.unmapScratch ok]) bytes = overwritten steps bytes := by
  rw [overwritten_append]
  rfl

theorem stringAddresses_get {i : Nat} (hi : i < strings.length) :
    (stringAddresses top strings)[i]? = some (stringAddress top strings i) := by
  unfold stringAddresses
  rw [getElem?_map, getElem?_range hi]
  rfl

/-- The page after the arguments are written. -/
theorem writeArguments_startup (htop : top % pageSize = 0) (hpage : pageSize ≤ top)
    (hlimit : top < 2 ^ 32) (hfits : Fits strings) {page : Nat → Word}
    (hholds : ∀ j b, j < pageSize →
      overwritten (writeArguments top strings).1 bytes j = some b → byteOf page j = b) :
    Startup page (top - pageSize) (startupPointer top strings) strings
      (stringAddress top strings) := by
  obtain ⟨haligned, hwithin, htable, hroom, hcount⟩ := startupPointer_bounds htop hpage hfits
  rw [writeArguments_fits htop hpage hfits, overwritten_unmap, overwritten_append] at hholds
  have hdiv : (top - pageSize) % 4 = 0 := by
    have hsize : pageSize = 4096 := rfl
    rw [hsize] at htop ⊢
    omega
  generalize startupPointer top strings = sp at haligned hwithin htable hholds ⊢
  generalize hbottom : top - pageSize = bottom at hdiv hwithin hholds ⊢
  have hend : bottom + pageSize = top := by omega
  have hlength : (stringAddresses top strings).length = strings.length := by
    unfold stringAddresses
    rw [length_map, length_range]
  obtain ⟨-, hstrings⟩ := @copyArguments_bytes strings bottom top (by omega) bytes
  obtain ⟨hrest, hwords⟩ := @storeTable_bytes
    (strings.length :: (stringAddresses top strings ++ [0])) (sp - bottom)
    (overwritten (copyArguments bottom strings.reverse top).1 bytes)
  have hall : (strings.length :: (stringAddresses top strings ++ [0])).length =
      strings.length + 2 := by
    rw [length_cons, length_append, hlength, length_singleton]
  -- a word of the table, as a number
  have hword : ∀ i w, (strings.length :: (stringAddresses top strings ++ [0]))[i]? = some w →
      w < 2 ^ 32 → (page ((sp - bottom) / 4 + i)).toNat = w := by
    intro i w hw hlt
    obtain ⟨hi, hget⟩ := List.getElem?_eq_some_iff.mp hw
    have hplace : (sp - bottom + 4 * i) / 4 = (sp - bottom) / 4 + i := by omega
    have hbytes := hwords i hi
    rw [hget] at hbytes
    rw [hall] at hi
    rw [← hplace, page_word (by omega) fun b hb => hholds _ _ (by omega) (hbytes b hb),
      BitVec.toNat_ofNat, Nat.mod_eq_of_lt hlt]
  have hbounds : ∀ i (hi : i < strings.length), _ := fun i hi =>
    @stringAddress_bounds strings top (by omega) i hi
  refine
    { aligned := haligned, within := hwithin, argc := ?_, argv := fun i hi => ?_, null := ?_
      above := fun i hi => ?_, apart := fun i hi k hk _ => ?_, below := fun i hi => ?_
      copy := fun i hi j hj => ?_ }
  · have hfirst := hword 0 strings.length getElem?_cons_zero (by omega)
    rw [Nat.add_zero] at hfirst
    exact hfirst
  · have hget : (strings.length :: (stringAddresses top strings ++ [0]))[1 + i]? =
        some (stringAddress top strings i) := by
      rw [Nat.add_comm, getElem?_cons_succ, getElem?_append_left (by omega)]
      exact stringAddresses_get hi
    rw [Nat.add_assoc]
    obtain ⟨-, hbelow, -⟩ := hbounds i hi
    exact hword (1 + i) _ hget (by omega)
  · have hget : (strings.length :: (stringAddresses top strings ++ [0]))[1 + strings.length]? =
        some 0 := by
      rw [Nat.add_comm, getElem?_cons_succ, getElem?_append_right (by omega), hlength, Nat.sub_self]
      rfl
    rw [Nat.add_assoc]
    exact hword _ 0 hget (Nat.two_pow_pos 32)
  · obtain ⟨habove, -, -⟩ := hbounds i hi
    omega
  · obtain ⟨-, -, hapart⟩ := hbounds i hi
    exact hapart k hk
  · obtain ⟨-, hbelow, -⟩ := hbounds i hi
    omega
  · obtain ⟨habove, hbelow, -⟩ := hbounds i hi
    refine hholds _ _ (by omega) ?_
    show overwritten (storeTable (sp - bottom) _) _ _ = _
    rw [hrest _ (Or.inr (by rw [hall]; omega))]
    exact hstrings i hi j hj

end MeatySkeleton.Elf
