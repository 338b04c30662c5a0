import MeatySkeleton.Lib.Pathname
import MeatySkeleton.Lib.Run

/-!
# Paths and working directories

`process_resolve_path` and the working directories of `process.c`. The code edits the
caller's buffer in place: it appends one component after the other, and for two dots moves
back to the separator before the last one. `Holds` says which stack of names the first
`length` bytes of the buffer stand for; each component changes the stack as the abstract
reading of a path does (`applyComponent_spec`), as long as the path so far fits.

A buffer is a list of bytes, as long as its capacity; a step is `none` when the code
would write or run outside of it. The loop over the components takes a bound on its rounds
and is `none` if there are more; each of them takes a byte of the path. Sizes are those of
strings in memory and do not wrap.
-/

namespace MeatySkeleton.Process

open Function List Lib

abbrev Chars := List UInt8

def slash : UInt8 := 0x2F
def dot : UInt8 := 0x2E

/-- `PROCESS_PATH_MAX`. -/
def processPathMax : Nat := 256

/-- A `const char *`: the bytes before the first NUL. -/
structure CString where
  bytes : Chars
  terminated : 0 ∉ bytes

/-- `buffer[i] = b`. -/
def put (buffer : Chars) (i : Nat) (b : UInt8) : Option Chars :=
  if i < buffer.length then some (buffer.set i b) else none

/-- `memcpy(buffer + i, source, n)` of the `n` bytes `source`. -/
def copyTo (buffer : Chars) (i : Nat) (source : Chars) : Option Chars :=
  if i + source.length ≤ buffer.length then
    some (buffer.take i ++ source ++ buffer.drop (i + source.length))
  else none

def strlen (buffer : Chars) : Option Nat := buffer.findIdx? (· == 0)

/-- The loop of `process_path_apply` that moves back to a separator. -/
def backToSlash (buffer : Chars) : Nat → Nat
  | 0 => 0
  | length + 1 =>
    if length + 1 > 1 ∧ buffer[length]? ≠ some slash then backToSlash buffer length
    else length + 1

/-- The `/` in front of a component, unless it is the first one. -/
def putSeparator (buffer : Chars) (length : Nat) : Option Chars :=
  if length > 1 then put buffer length slash else some buffer

/-- What `process_path_apply` does with one component. -/
def applyComponent (buffer : Chars) (length : Nat) (component : Chars) :
    Option (Bool × Chars × Nat) :=
  if component = [dot] then some (true, buffer, length)
  else if component = [dot, dot] then do
    let length := backToSlash buffer length
    let length := if length > 1 then length - 1 else length
    let buffer ← put buffer length 0
    return (true, buffer, length)
  else
    let separatorLength := if length > 1 then 1 else 0
    if length + separatorLength + component.length + 1 > buffer.length then
      some (false, buffer, length)
    else do
      let buffer ← putSeparator buffer length
      let length := length + separatorLength
      let buffer ← copyTo buffer length component
      let length := length + component.length
      let buffer ← put buffer length 0
      return (true, buffer, length)

/-- The outer loop of `process_path_apply`, for a bound on its rounds. -/
def applyFrom : Nat → Chars → Nat → Chars → Option (Bool × Chars × Nat)
  | 0, _, _, _ => none
  | bound + 1, buffer, length, cursor =>
    let component := cursor.dropWhile (· == slash)
    if component = [] then some (true, buffer, length)
    else
      match applyComponent buffer length (component.takeWhile (· != slash)) with
      | none => none
      | some (false, buffer, length) => some (false, buffer, length)
      | some (true, buffer, length) =>
        applyFrom bound buffer length (component.dropWhile (· != slash))

/-- `process_path_apply`. -/
def processPathApply (buffer : Chars) (length : Nat) (path : CString) :
    Option (Bool × Chars × Nat) :=
  if buffer.length < 2 then some (false, buffer, length)
  else applyFrom (path.bytes.length + 1) buffer length path.bytes

/-- `process_get_cwd`. -/
def processGetCwd (cwd buffer : Chars) : Option (Bool × Chars) := do
  let length ← strlen cwd
  if length + 1 > buffer.length then return (false, buffer)
  else
    let buffer ← copyTo buffer 0 (cwd.take (length + 1))
    return (true, buffer)

/-- `process_resolve_path`. -/
def processResolvePath (cwd : Chars) (path : CString) (buffer : Chars) : Option (Bool × Chars) :=
  if path.bytes = [] ∨ buffer.length < 2 then some (false, buffer)
  else if path.bytes.head? = some slash then do
    let buffer ← put buffer 0 slash
    let buffer ← put buffer 1 0
    let (ok, buffer, _) ← processPathApply buffer 1 path
    return (ok, buffer)
  else do
    let (ok, buffer) ← processGetCwd cwd buffer
    if ok = false then return (false, buffer)
    else
      let length ← strlen buffer
      if length = 0 ∨ buffer.head? ≠ some slash then return (false, buffer)
      else
        let (ok, buffer, _) ← processPathApply buffer length path
        return (ok, buffer)

/-- `process_set_cwd`; `canonical` is what its array holds before. -/
def processSetCwd (canonical cwd : Chars) (path : CString) : Option (Bool × Chars) :=
  if path.bytes.head? ≠ some slash then some (false, cwd)
  else do
    let (ok, canonical) ← processResolvePath cwd path canonical
    if ok = false then return (false, cwd)
    else
      let length ← strlen canonical
      let cwd ← copyTo cwd 0 (canonical.take (length + 1))
      return (true, cwd)

/-! ## Edits of a buffer -/

variable {buffer buffer' text c : Chars} {length n : Nat} {stack : List Chars}

theorem put_eq (h : n < buffer.length) (b : UInt8) :
    ∃ buffer', put buffer n b = some buffer' ∧ buffer'.length = buffer.length ∧
      buffer'.take n = buffer.take n ∧ buffer'[n]? = some b := by
  refine ⟨buffer.set n b, if_pos h, length_set .., ?_, ?_⟩
  · rw [take_set_of_le (Nat.le_refl n)]
  · rw [getElem?_set_self h]

theorem copyTo_eq (ht : buffer.take n = text) (h : n + c.length ≤ buffer.length) :
    ∃ buffer', copyTo buffer n c = some buffer' ∧ buffer'.length = buffer.length ∧
      buffer'.take (n + c.length) = text ++ c := by
  have hlen : text.length = n := by
    rw [← ht, length_take]
    omega
  refine ⟨_, if_pos h, ?_, ?_⟩
  · simp only [length_append, ht, length_drop]
    omega
  · rw [ht, take_left' (by rw [length_append, hlen])]

/-- The byte behind the text is part of it now. -/
theorem put_append (ht : buffer.take n = text) (h : n < buffer.length) (b : UInt8) :
    ∃ buffer', put buffer n b = some buffer' ∧ buffer'.length = buffer.length ∧
      buffer'.take (n + 1) = text ++ [b] := by
  obtain ⟨buffer', he, hlen, htake, hb⟩ := put_eq h b
  refine ⟨buffer', he, hlen, ?_⟩
  rw [take_add_one, htake, ht, hb]
  rfl

/-- The inner loop stops at the last separator, or at the root. -/
theorem backToSlash_eq {k : Nat} (hk : buffer[k]? = some slash) (hle : k < n)
    (hmid : ∀ i, k < i → i < n → buffer[i]? ≠ some slash) : backToSlash buffer n = k + 1 := by
  induction n with
  | zero => omega
  | succ n ih =>
    rw [backToSlash]
    by_cases hn : n = k
    · subst hn
      rw [if_neg fun h => h.2 hk]
    · rw [if_pos ⟨by omega, hmid n (by omega) (by omega)⟩]
      exact ih (by omega) fun i hi hin => hmid i hi (by omega)

/-! ## The buffer as a stack -/

/-- The first `length` bytes are the path of the stack, and a NUL follows. -/
structure Holds (buffer : Chars) (length : Nat) (stack : List Chars) : Prop where
  text : buffer.take length = render slash stack
  nul : buffer[length]? = some 0
  proper : ∀ d ∈ stack, Proper slash dot d

theorem Holds.length_eq (h : Holds buffer length stack) :
    (render slash stack).length = length ∧ length < buffer.length := by
  obtain ⟨hlt, -⟩ := List.getElem?_eq_some_iff.mp h.nul
  rw [← h.text, length_take]
  omega

theorem Holds.head (h : Holds buffer length stack) : buffer.head? = some slash := by
  obtain ⟨hlen, -⟩ := h.length_eq
  have htext := congrArg List.head? h.text
  cases stack with
  | nil =>
    obtain rfl : length = 1 := hlen.symm
    rw [head?_take, if_neg (by decide)] at htext
    exact htext
  | cons d ds =>
    have hpos : length ≠ 0 := by
      rw [← hlen]
      simp [render]
    rw [head?_take, if_neg hpos] at htext
    exact htext

/-- Only the root is written with one byte. -/
theorem render_length (h : ∀ d ∈ stack, Proper slash dot d) :
    0 < (render slash stack).length ∧ (1 < (render slash stack).length ↔ stack ≠ []) := by
  cases stack with
  | nil => simp [render]
  | cons d ds =>
    have hd := length_pos_of_ne_nil (h d mem_cons_self).nonempty
    simp [render]
    omega

/-- Two dots. -/
theorem Holds.up (h : Holds buffer length stack) :
    (if backToSlash buffer length > 1 then backToSlash buffer length - 1
      else backToSlash buffer length) = (render slash stack.dropLast).length ∧
      buffer.take (render slash stack.dropLast).length = render slash stack.dropLast ∧
      (render slash stack.dropLast).length ≤ length := by
  obtain ⟨hlen, hlt⟩ := h.length_eq
  have hget : ∀ i < length, buffer[i]? = (render slash stack)[i]? := by
    intro i hi
    rw [← h.text, getElem?_take_of_lt hi]
  rcases eq_nil_or_concat stack with rfl | ⟨s, c, rfl⟩
  · have hone : length = 1 := hlen.symm
    subst hone
    have hback : backToSlash buffer 1 = 1 :=
      backToSlash_eq (hget 0 (by decide)) (by decide) fun i hi hin => by omega
    rw [hback]
    exact ⟨rfl, h.text, Nat.le_refl 1⟩
  · rw [concat_eq_append] at *
    rw [dropLast_concat]
    -- the separator in front of the last name
    obtain ⟨above, habove, hcase⟩ : ∃ above, render slash (s ++ [c]) = above ++ slash :: c ∧
        (s = [] ∧ above = [] ∨ s ≠ [] ∧ above = render slash s) := by
      rw [render_append]
      by_cases hs : s = []
      · exact ⟨[], if_pos hs, .inl ⟨hs, rfl⟩⟩
      · exact ⟨render slash s, if_neg hs, .inr ⟨hs, rfl⟩⟩
    rw [habove] at hget hlen
    rw [length_append, length_cons] at hlen
    have hback : backToSlash buffer length = above.length + 1 := by
      refine backToSlash_eq ?_ (by omega) fun i hi hin => ?_
      · rw [hget _ (by omega), getElem?_append_right (Nat.le_refl _), Nat.sub_self]
        rfl
      · obtain ⟨j, rfl⟩ : ∃ j, i = above.length + (j + 1) := ⟨i - above.length - 1, by omega⟩
        rw [hget _ hin, getElem?_append_right (Nat.le_add_right _ _), Nat.add_sub_cancel_left,
          getElem?_cons_succ]
        intro hj
        exact (h.proper c (by simp)).plain (mem_of_getElem? hj)
    have htake : ∀ n ≤ length, buffer.take n = (above ++ slash :: c).take n := by
      intro n hn
      rw [← habove, ← h.text, take_take, Nat.min_eq_left hn]
    rw [hback]
    rcases hcase with ⟨rfl, rfl⟩ | ⟨hs, rfl⟩
    · refine ⟨rfl, ?_, ?_⟩
      · exact htake 1 (by omega)
      · show 1 ≤ length
        omega
    · have hpos := (render_length fun d hd => h.proper d (mem_append_left _ hd)).1
      refine ⟨?_, ?_, by omega⟩
      · rw [if_pos (by omega), Nat.add_sub_cancel]
      · rw [htake _ (by omega), take_left' rfl]

/-- A component changes the stack, as long as the path of the new one fits. -/
theorem applyComponent_spec (h : Holds buffer length stack) (hne : c ≠ []) (hplain : slash ∉ c) :
    ((render slash (enterName dot stack c)).length < buffer.length ∧
      ∃ buffer' length', applyComponent buffer length c = some (true, buffer', length') ∧
        buffer'.length = buffer.length ∧ Holds buffer' length' (enterName dot stack c)) ∨
    (buffer.length ≤ (render slash (enterName dot stack c)).length ∧
      applyComponent buffer length c = some (false, buffer, length)) := by
  obtain ⟨hlen, hlt⟩ := h.length_eq
  unfold applyComponent
  by_cases hdot : c = [dot]
  · left
    rw [if_pos hdot, enterName, if_pos (.inr hdot)]
    exact ⟨hlen ▸ hlt, _, _, rfl, rfl, h⟩
  rw [if_neg hdot]
  by_cases hdots : c = [dot, dot]
  · left
    obtain ⟨hback, htake, hle⟩ := h.up
    rw [if_pos hdots, enterName, if_neg (not_or.mpr ⟨hne, hdot⟩), if_pos hdots]
    dsimp only
    rw [hback]
    have hroom : (render slash stack.dropLast).length < buffer.length := by omega
    obtain ⟨buffer', he, hsize, hsame, hnul⟩ := put_eq hroom 0
    rw [he]
    refine ⟨by omega, _, _, rfl, hsize, ⟨hsame.trans htake, hnul, fun d hd => ?_⟩⟩
    exact h.proper d ((dropLast_sublist stack).subset hd)
  · have hc : Proper slash dot c := ⟨hne, hdot, hdots, hplain⟩
    have hproper : ∀ d ∈ stack ++ [c], Proper slash dot d := by
      intro d hd
      rcases mem_append.mp hd with hd | hd
      · exact h.proper d hd
      · rw [mem_singleton.mp hd]
        exact hc
    have hroot := (render_length h.proper).2
    rw [hlen] at hroot
    rw [if_neg hdots, enterName_proper hc]
    dsimp only
    generalize hsep : (if length > 1 then 1 else 0) = separatorLength
    have hnew : (render slash (stack ++ [c])).length = length + separatorLength + c.length := by
      rw [render_append]
      by_cases hs : stack = []
      · have hone : length = 1 := by
          rw [← hlen, hs]
          rfl
        rw [if_pos hs, length_cons, ← hsep, if_neg (by omega)]
        omega
      · rw [if_neg hs, length_append, length_cons, hlen, ← hsep, if_pos (hroot.mpr hs)]
        omega
    by_cases hfit : length + separatorLength + c.length + 1 > buffer.length
    · right
      rw [if_pos hfit]
      exact ⟨by omega, rfl⟩
    left
    rw [if_neg hfit]
    -- the separator, the name and the NUL are written one after the other
    obtain ⟨b1, h1, hsize1, htake1⟩ : ∃ b1,
        putSeparator buffer length = some b1 ∧ b1.length = buffer.length ∧
          b1.take (length + separatorLength) ++ c = render slash (stack ++ [c]) := by
      rw [render_append, putSeparator]
      by_cases hs : stack = []
      · have hone : ¬length > 1 := fun hgt => hroot.mp hgt hs
        have htext := h.text
        rw [if_neg hone] at hsep ⊢
        refine ⟨buffer, rfl, rfl, ?_⟩
        rw [if_pos hs, ← hsep, Nat.add_zero, htext, hs]
        rfl
      · have hgt := hroot.mpr hs
        rw [if_pos hgt] at hsep ⊢
        obtain ⟨b1, he, hsize, htake⟩ := put_append h.text hlt slash
        refine ⟨b1, he, hsize, ?_⟩
        rw [if_neg hs, ← hsep, htake, append_assoc]
        rfl
    obtain ⟨b2, h2, hsize2, htake2⟩ :=
      copyTo_eq (n := length + separatorLength) (c := c) rfl (by omega : _ ≤ b1.length)
    obtain ⟨b3, h3, hsize3, htake3, hnul⟩ :=
      put_eq (by omega : length + separatorLength + c.length < b2.length) 0
    simp only [h1, h2, h3, Option.bind_eq_bind, Option.bind_some]
    refine ⟨by omega, _, _, rfl, by omega, ⟨?_, hnul, hproper⟩⟩
    rw [htake3, htake2, htake1]

/-- All components, one after the other. -/
theorem applyFrom_spec {bound : Nat} {cursor : Chars} (h : Holds buffer length stack)
    (hbound : cursor.length < bound) :
    ((∀ s ∈ along slash dot stack cursor, (render slash s).length < buffer.length) ∧
      ∃ buffer' length', applyFrom bound buffer length cursor = some (true, buffer', length') ∧
        buffer'.length = buffer.length ∧ Holds buffer' length' (interpret slash dot stack cursor)) ∨
    ((∃ s ∈ along slash dot stack cursor, buffer.length ≤ (render slash s).length) ∧
      ∃ buffer' length', applyFrom bound buffer length cursor = some (false, buffer', length') ∧
        buffer'.length = buffer.length) := by
  induction bound generalizing buffer length stack cursor with
  | zero => omega
  | succ bound ih =>
    obtain ⟨hlen, hlt⟩ := h.length_eq
    simp only [← interpret_skip _ cursor, ← mem_along_skip cursor]
    rw [applyFrom]
    by_cases hend : cursor.dropWhile (· == slash) = []
    · left
      rw [if_pos hend, hend]
      refine ⟨fun s hs => ?_, buffer, length, rfl, rfl, h⟩
      simp only [along, splitOn_nil, scanl_cons, scanl_nil, enterName_nil,
        mem_cons, not_mem_nil, or_false, or_self] at hs
      rw [hs]
      omega
    · obtain ⟨hne, hplain, hrest⟩ := nextName hend
      have hshort : ((cursor.dropWhile (· == slash)).dropWhile (· != slash)).length < bound := by
        have hname := length_pos_of_ne_nil hne
        have hsplit := congrArg List.length (takeWhile_append_dropWhile (p := (· != slash))
          (l := cursor.dropWhile (· == slash)))
        have hle := length_dropWhile_le (· == slash) cursor
        rw [length_append] at hsplit
        omega
      rw [if_neg hend]
      generalize hc : (cursor.dropWhile (· == slash)).takeWhile (· != slash) = c at *
      generalize hr : (cursor.dropWhile (· == slash)).dropWhile (· != slash) = rest at *
      have hcursor : cursor.dropWhile (· == slash) = c ++ rest := by
        rw [← hc, ← hr, takeWhile_append_dropWhile]
      simp only [hcursor, interpret_name hplain hrest, mem_along_name hplain hrest]
      rcases applyComponent_spec h hne hplain with
        ⟨hfit, b, n, he, hsize, hholds⟩ | ⟨hlong, he⟩
      · rw [he]
        dsimp only
        rw [← hsize]
        rcases ih hholds hshort with ⟨hall, hdone⟩ | ⟨⟨s, hs, hlong⟩, hfailed⟩
        · refine .inl ⟨fun s hs => ?_, hdone⟩
          rcases hs with rfl | hs
          · omega
          · exact hall s hs
        · exact .inr ⟨⟨s, .inr hs, hlong⟩, hfailed⟩
      · rw [he]
        exact .inr ⟨⟨_, .inr (self_mem_along slash dot _ _), hlong⟩, buffer, length, rfl, rfl⟩

/-! ## Resolving a path -/

/-- The C string in a buffer. -/
def cstring (buffer : Chars) : Option Chars := (strlen buffer).map fun n => buffer.take n

theorem strlen_eq (ht : buffer.take n = text) (hnul : buffer[n]? = some 0) (hplain : 0 ∉ text) :
    strlen buffer = some n := by
  obtain ⟨hlt, hn⟩ := List.getElem?_eq_some_iff.mp hnul
  refine findIdx?_eq_some_iff_getElem.mpr ⟨hlt, by simp [hn], fun j hj => ?_⟩
  have hmem : buffer.get ⟨j, Nat.lt_trans hj hlt⟩ ∈ text := by
    rw [← ht]
    exact mem_take_iff_getElem.mpr ⟨j, by omega, rfl⟩
  intro hzero
  have hz : buffer.get ⟨j, Nat.lt_trans hj hlt⟩ = 0 := eq_of_beq hzero
  exact hplain (hz ▸ hmem)

theorem cstring_spec (h : cstring buffer = some text) :
    strlen buffer = some text.length ∧ buffer.take text.length = text ∧
      buffer[text.length]? = some 0 ∧ 0 ∉ text := by
  obtain ⟨n, hn, rfl⟩ := Option.map_eq_some_iff.mp h
  obtain ⟨hlt, hz, hbefore⟩ := findIdx?_eq_some_iff_getElem.mp hn
  have hlen : (buffer.take n).length = n := by
    rw [length_take]
    omega
  rw [hlen]
  refine ⟨hn, rfl, ?_, fun hmem => ?_⟩
  · rw [getElem?_eq_getElem hlt]
    exact congrArg some (eq_of_beq hz)
  · obtain ⟨j, hj, hzero⟩ := mem_take_iff_getElem.mp hmem
    exact hbefore j (by omega) (by simp [hzero])

/-- The array `cwd` of a process holds the canonical path `dir`. -/
structure Directory (cwd dir : Chars) : Prop where
  size : cwd.length = processPathMax
  text : cstring cwd = some dir
  canonical : Canonical slash dot dir

/-- The names a path is read on top of. -/
def startOf (dir : Chars) (path : CString) : List Chars :=
  if path.bytes.head? = some slash then [] else interpret slash dot [] dir

/-- The path that is meant. -/
def resolved (dir : Chars) (path : CString) : Chars :=
  render slash (interpret slash dot (startOf dir path) path.bytes)

/-- After each component the path so far fits. -/
def Fits (dir : Chars) (path : CString) (capacity : Nat) : Prop :=
  ∀ s ∈ along slash dot (startOf dir path) path.bytes, (render slash s).length < capacity

variable {cwd dir : Chars} {path : CString}

/-- The names of a canonical directory. -/
theorem Directory.names (h : Directory cwd dir) : ∃ names, dir = render slash names ∧
    interpret slash dot [] dir = names ∧ ∀ d ∈ names, Proper slash dot d ∧ 0 ∉ d := by
  obtain ⟨names, hproper, rfl⟩ := canonical_iff.mp h.canonical
  refine ⟨names, rfl, interpret_render hproper, fun d hd => ⟨hproper d hd, fun hz => ?_⟩⟩
  exact (cstring_spec h.text).2.2.2 (mem_render.mpr (.inr ⟨d, hd, hz⟩))

/-- The names on the way hold neither a separator nor a NUL. -/
theorem startOf_proper (h : Directory cwd dir) (path : CString) :
    ∀ d ∈ startOf dir path, Proper slash dot d ∧ 0 ∉ d := by
  obtain ⟨names, -, hnames, hproper⟩ := h.names
  unfold startOf
  split
  · exact nofun
  · rw [hnames]
    exact hproper

theorem along_proper (h : Directory cwd dir) {s : List Chars}
    (hs : s ∈ along slash dot (startOf dir path) path.bytes) :
    ∀ d ∈ s, Proper slash dot d ∧ 0 ∉ d := by
  intro d hd
  rcases mem_along hs hd with hold | ⟨hproper, hmem⟩
  · exact startOf_proper h path d hold
  · exact ⟨hproper, fun hz => path.terminated (hmem 0 hz)⟩

/-- The result of a loop that came to its end. -/
theorem Holds.cstring (h : Holds buffer length stack) (hplain : ∀ d ∈ stack, 0 ∉ d) :
    strlen buffer = some length ∧ Process.cstring buffer = some (render slash stack) := by
  have hzero : (0 : UInt8) ∉ render slash stack := by
    rw [mem_render]
    rintro (hz | ⟨d, hd, hz⟩)
    · exact absurd hz (by decide)
    · exact hplain d hd hz
  have hlen := strlen_eq h.text h.nul hzero
  refine ⟨hlen, ?_⟩
  rw [Process.cstring, hlen, Option.map_some, h.text]

/-- `process_path_apply` of a whole path. -/
theorem processPathApply_spec (h : Holds buffer length stack)
    (hplain : ∀ d ∈ interpret slash dot stack path.bytes, 0 ∉ d) :
    ((∀ s ∈ along slash dot stack path.bytes, (render slash s).length < buffer.length) ∧
      ∃ buffer' length', processPathApply buffer length path = some (true, buffer', length') ∧
        buffer'.length = buffer.length ∧
        cstring buffer' = some (render slash (interpret slash dot stack path.bytes))) ∨
    ((∃ s ∈ along slash dot stack path.bytes, buffer.length ≤ (render slash s).length) ∧
      ∃ buffer' length', processPathApply buffer length path = some (false, buffer', length') ∧
        buffer'.length = buffer.length) := by
  obtain ⟨hlen, hlt⟩ := h.length_eq
  have hpos := (render_length h.proper).1
  rw [processPathApply, if_neg (by omega)]
  rcases applyFrom_spec h (Nat.lt_succ_self path.bytes.length) with
    ⟨hall, b, n, he, hsize, hholds⟩ | hfailed
  · exact .inl ⟨hall, b, n, he, hsize, (hholds.cstring hplain).2⟩
  · exact .inr hfailed

/-- A string is copied to the start of a buffer, its NUL included. -/
theorem copyTo_string {source : Chars} (h : cstring source = some text)
    (hfit : text.length < buffer.length) :
    ∃ buffer', copyTo buffer 0 (source.take (text.length + 1)) = some buffer' ∧
      buffer'.length = buffer.length ∧ buffer'.take text.length = text ∧
        buffer'[text.length]? = some 0 := by
  obtain ⟨-, htake, hnul, -⟩ := cstring_spec h
  have hsource : source.take (text.length + 1) = text ++ [0] := by
    rw [take_add_one, htake, hnul]
    rfl
  have hroom : 0 + (text ++ [0]).length ≤ buffer.length := by
    rw [length_append, length_singleton]
    omega
  obtain ⟨b, he, hsize, hb⟩ := copyTo_eq rfl hroom
  rw [take_zero, nil_append, length_append, length_singleton, Nat.zero_add] at hb
  refine ⟨b, hsource ▸ he, hsize, ?_, ?_⟩
  · have hshort := congrArg (List.take text.length) hb
    rwa [take_take, Nat.min_eq_left (Nat.le_succ _), take_left' rfl] at hshort
  · have hlast := congrArg (fun l => l[text.length]?) hb
    simp only [getElem?_take_of_lt (Nat.lt_succ_self _),
      getElem?_append_right (Nat.le_refl _), Nat.sub_self] at hlast
    exact hlast

/-- `process_get_cwd`. -/
theorem processGetCwd_spec (h : Directory cwd dir) (buffer : Chars) :
    (dir.length < buffer.length ∧ ∃ buffer', processGetCwd cwd buffer = some (true, buffer') ∧
      buffer'.length = buffer.length ∧ buffer'.take dir.length = dir ∧
        buffer'[dir.length]? = some 0) ∨
    (buffer.length ≤ dir.length ∧ processGetCwd cwd buffer = some (false, buffer)) := by
  have hlen := (cstring_spec h.text).1
  rw [processGetCwd, hlen]
  show (_ ∧ ∃ buffer', (if dir.length + 1 > buffer.length then _ else _) = _ ∧ _) ∨
    (_ ∧ (if dir.length + 1 > buffer.length then _ else _) = _)
  by_cases hfit : dir.length + 1 > buffer.length
  · right
    rw [if_pos hfit]
    exact ⟨by omega, rfl⟩
  · left
    obtain ⟨b, he, hcopied⟩ := copyTo_string h.text (by omega : dir.length < buffer.length)
    rw [if_neg hfit, he]
    exact ⟨by omega, b, rfl, hcopied⟩

/-- `process_resolve_path` succeeds exactly if there is a path and it fits all along. -/
theorem processResolvePath_spec (h : Directory cwd dir) (path : CString) (buffer : Chars) :
    (path.bytes ≠ [] ∧ Fits dir path buffer.length ∧
      ∃ buffer', processResolvePath cwd path buffer = some (true, buffer') ∧
        buffer'.length = buffer.length ∧ cstring buffer' = some (resolved dir path)) ∨
    (¬(path.bytes ≠ [] ∧ Fits dir path buffer.length) ∧
      ∃ buffer', processResolvePath cwd path buffer = some (false, buffer') ∧
        buffer'.length = buffer.length) := by
  have hstart := self_mem_along slash dot (startOf dir path) path.bytes
  have hpos := (render_length fun d hd => (startOf_proper h path d hd).1).1
  unfold processResolvePath
  by_cases hguard : path.bytes = [] ∨ buffer.length < 2
  · right
    rw [if_pos hguard]
    refine ⟨fun ⟨hne, hfits⟩ => ?_, buffer, rfl, rfl⟩
    have hshort := hfits _ hstart
    have hsmall := hguard.resolve_left hne
    omega
  rw [if_neg hguard]
  obtain ⟨hne, hsize⟩ := not_or.mp hguard
  -- the first names are in the buffer, then come those of the path
  have happly : ∀ (b : Chars) (n : Nat), b.length = buffer.length → Holds b n (startOf dir path) →
      (Fits dir path buffer.length ∧ ∃ b' n', processPathApply b n path = some (true, b', n') ∧
        b'.length = buffer.length ∧ cstring b' = some (resolved dir path)) ∨
      (¬Fits dir path buffer.length ∧ ∃ b' n', processPathApply b n path = some (false, b', n') ∧
        b'.length = buffer.length) := by
    intro b n hb hholds
    have hplain : ∀ d ∈ interpret slash dot (startOf dir path) path.bytes, 0 ∉ d := fun d hd =>
      (along_proper h (interpret_mem_along _ _) d hd).2
    rcases processPathApply_spec hholds hplain with ⟨hall, hdone⟩ | ⟨⟨s, hs, hlong⟩, hfailed⟩
    · rw [hb] at hall hdone
      exact .inl ⟨hall, hdone⟩
    · rw [hb] at hlong hfailed
      exact .inr ⟨fun hfits => Nat.not_lt.mpr hlong (hfits s hs), hfailed⟩
  by_cases habs : path.bytes.head? = some slash
  · rw [if_pos habs]
    have hroot : startOf dir path = [] := if_pos habs
    obtain ⟨b1, h1, hsize1, htake1⟩ := put_append (take_zero (l := buffer)) (by omega) slash
    obtain ⟨b2, h2, hsize2, htake2, hnul2⟩ := put_eq (by omega : 1 < b1.length) 0
    have hholds : Holds b2 1 (startOf dir path) := by
      rw [hroot]
      exact ⟨htake2.trans htake1, hnul2, nofun⟩
    simp only [h1, h2, Option.bind_eq_bind, Option.bind_some]
    rcases happly b2 1 (by omega) hholds with ⟨hfits, b, n, he, hb, ht⟩ | ⟨hnot, b, n, he, hb⟩
    · rw [he]
      exact .inl ⟨hne, hfits, b, rfl, hb, ht⟩
    · rw [he]
      exact .inr ⟨fun hboth => hnot hboth.2, b, rfl, hb⟩
  · rw [if_neg habs]
    obtain ⟨names, hdir, hnames, hproper⟩ := h.names
    have hcwd : startOf dir path = names := (if_neg habs).trans hnames
    rw [hcwd, ← hdir] at hpos
    rcases processGetCwd_spec h buffer with ⟨hfit, b1, h1, hsize1, htake1, hnul1⟩ | ⟨hlong, h1⟩
    · have hholds : Holds b1 dir.length (startOf dir path) := by
        rw [hcwd]
        exact ⟨htake1.trans hdir, hnul1, fun d hd => (hproper d hd).1⟩
      have hlen := (hholds.cstring fun d hd => (startOf_proper h path d hd).2).1
      have hhead := hholds.head
      simp only [h1, Option.bind_eq_bind, Option.bind_some, hlen]
      rw [if_neg nofun, if_neg (not_or.mpr ⟨by omega, not_not.mpr hhead⟩)]
      rcases happly b1 dir.length hsize1 hholds with
        ⟨hfits, b, n, he, hb, ht⟩ | ⟨hnot, b, n, he, hb⟩
      · rw [he]
        exact .inl ⟨hne, hfits, b, rfl, hb, ht⟩
      · rw [he]
        exact .inr ⟨fun hboth => hnot hboth.2, b, rfl, hb⟩
    · right
      refine ⟨fun ⟨_, hfits⟩ => ?_, buffer, ?_, rfl⟩
      · have hshort := hfits _ hstart
        rw [hcwd, ← hdir] at hshort
        omega
      · rw [h1]
        rfl

/-- What is written is canonical. -/
theorem resolved_canonical (h : Directory cwd dir) (path : CString) :
    Canonical slash dot (resolved dir path) :=
  canonical_iff.mpr ⟨_, fun d hd => (along_proper h (interpret_mem_along _ _) d hd).1, rfl⟩

/-- A canonical path is read as itself, whatever the working directory is. -/
theorem resolved_self (hc : Canonical slash dot path.bytes) (dir : Chars) {capacity : Nat}
    (hfit : path.bytes.length < capacity) :
    path.bytes ≠ [] ∧ resolved dir path = path.bytes ∧ Fits dir path capacity := by
  obtain ⟨names, hproper, hpath⟩ := canonical_iff.mp hc
  have hhead : path.bytes.head? = some slash := by
    rw [hpath]
    cases names with
    | nil => rfl
    | cons d ds => rfl
  have hroot : startOf dir path = [] := if_pos hhead
  refine ⟨fun hnil => ?_, ?_, fun s hs => ?_⟩
  · rw [hnil] at hhead
    cases hhead
  · rw [resolved, hroot, hpath, interpret_render hproper]
  · rw [hroot, hpath] at hs
    rw [hpath] at hfit
    exact Nat.lt_of_le_of_lt (along_render hproper hs) hfit

/-- What `process_resolve_path` promises for a working directory, a path and a buffer. -/
structure Resolves (cwd dir : Chars) (path : CString) (buffer : Chars) : Prop where
  /-- It succeeds exactly if the path is not empty and fits the buffer all along, and gives the
  path that is meant. -/
  returns : ∃ ok buffer', processResolvePath cwd path buffer = some (ok, buffer') ∧
    (ok = true ↔ path.bytes ≠ [] ∧ Fits dir path buffer.length) ∧
    (ok = true → cstring buffer' = some (resolved dir path))
  canonical : Canonical slash dot (resolved dir path)
  /-- The result resolves to itself, in any directory. -/
  again : Fits dir path buffer.length → ∀ (cwd' dir' : Chars) (p : CString) (buffer₂ : Chars),
    Directory cwd' dir' → p.bytes = resolved dir path → buffer₂.length = buffer.length →
    ∃ b, processResolvePath cwd' p buffer₂ = some (true, b) ∧ cstring b = some p.bytes

theorem resolves (h : Directory cwd dir) (path : CString) (buffer : Chars) :
    Resolves cwd dir path buffer := by
  refine ⟨?_, resolved_canonical h path, ?_⟩
  · rcases processResolvePath_spec h path buffer with
      ⟨hne, hfits, b, he, -, ht⟩ | ⟨hnot, b, he, -⟩
    · exact ⟨true, b, he, ⟨fun _ => ⟨hne, hfits⟩, fun _ => rfl⟩, fun _ => ht⟩
    · exact ⟨false, b, he, ⟨nofun, fun hboth => absurd hboth hnot⟩, nofun⟩
  · intro hfits cwd' dir' p buffer2 h' hp hsize
    have hlen : p.bytes.length < buffer2.length := by
      rw [hp, hsize]
      exact hfits _ (interpret_mem_along _ _)
    obtain ⟨hne, hself, hfits'⟩ := resolved_self (hp ▸ resolved_canonical h path) dir' hlen
    rcases processResolvePath_spec h' p buffer2 with ⟨-, -, b, he, -, ht⟩ | ⟨hnot, -⟩
    · exact ⟨b, he, hself ▸ ht⟩
    · exact absurd ⟨hne, hfits'⟩ hnot

/-! ## Working directories -/

/-- The array after `memset` and the first two stores. -/
def freshCwd : Chars := slash :: List.replicate 255 0

/-- The working directory of each process, and the array `inherited_cwd` of a
`process_create` that has not come to its end. -/
structure Cwds where
  cwd : Nat → Option Chars
  inherited : Nat → Option Chars

/-- What is done to the working directories under one lock. An array on the stack holds
anything before it is written. -/
inductive CwdStep
  /-- `process_create` enters process `p` in the registry. -/
  | publish (p : Nat)
  /-- It reads the directory of the parent. -/
  | inherit (p parent : Nat) (stale : Chars)
  /-- It sets that of the child. -/
  | adopt (p : Nat) (stale : Chars)
  /-- `process_set_cwd`. -/
  | setCwd (p : Nat) (path : CString) (stale : Chars)
  /-- The last reference to `p` is gone. -/
  | release (p : Nat)

def Cwds.release (s : Cwds) (p : Nat) : Cwds :=
  { cwd := update s.cwd p none, inherited := update s.inherited p none }

def Cwds.step (s : Cwds) : CwdStep → Option Cwds
  | .publish p =>
    match s.cwd p with
    | none => some { s with cwd := update s.cwd p (some freshCwd) }
    | some _ => none
  | .inherit p parent stale =>
    match s.cwd parent with
    | none => some (s.release p)
    | some cwd =>
      match processGetCwd cwd stale with
      | none => none
      | some (false, _) => some (s.release p)
      | some (true, b) => some { s with inherited := update s.inherited p (some b) }
  | .adopt p stale =>
    match s.cwd p, s.inherited p with
    | some cwd, some b =>
      match h : cstring b with
      | none => none
      | some text =>
        match processSetCwd stale cwd ⟨text, (cstring_spec h).2.2.2⟩ with
        | none => none
        | some (false, _) => some (s.release p)
        | some (true, cwd) =>
          some { cwd := update s.cwd p (some cwd)
                 inherited := update s.inherited p none }
    | _, _ => none
  | .setCwd p path stale =>
    match s.cwd p with
    | none => none
    | some cwd =>
      match processSetCwd stale cwd path with
      | none => none
      | some (_, cwd) => some { s with cwd := update s.cwd p (some cwd) }
  | .release p => some (s.release p)

/-- The arrays on the stack have `PROCESS_PATH_MAX` bytes. -/
def CwdStep.Allowed (_ : Cwds) : CwdStep → Prop
  | .inherit _ _ stale => stale.length = processPathMax
  | .adopt _ stale => stale.length = processPathMax
  | .setCwd _ _ stale => stale.length = processPathMax
  | _ => True

/-- After `process_initialize` the kernel's process is the only one. -/
def Cwds.start : Cwds :=
  { cwd := update (fun _ => none) 1 (some freshCwd), inherited := fun _ => none }

theorem freshCwd_directory : Directory freshCwd [slash] :=
  ⟨by decide +kernel, by decide +kernel, .inl rfl⟩

/-- A copied directory. -/
theorem processGetCwd_directory (h : Directory cwd dir) {b : Chars}
    (hsize : buffer.length = processPathMax) (he : processGetCwd cwd buffer = some (true, b)) :
    Directory b dir := by
  rcases processGetCwd_spec h buffer with ⟨-, b', he', hsize', htake, hnul⟩ | ⟨-, he'⟩
  · obtain rfl := (Prod.mk.inj (Option.some.inj (he.symm.trans he'))).2
    have hlen := strlen_eq htake hnul (cstring_spec h.text).2.2.2
    refine ⟨hsize'.trans hsize, ?_, h.canonical⟩
    rw [cstring, hlen, Option.map_some, htake]
  · cases he.symm.trans he'

/-- `process_set_cwd` leaves the directory alone or sets a canonical one. -/
theorem processSetCwd_directory (h : Directory cwd dir) (hsize : buffer.length = processPathMax)
    (path : CString) : ∃ ok cwd' dir', processSetCwd buffer cwd path = some (ok, cwd') ∧
      Directory cwd' dir' := by
  unfold processSetCwd
  by_cases habs : path.bytes.head? ≠ some slash
  · rw [if_pos habs]
    exact ⟨false, cwd, dir, rfl, h⟩
  rw [if_neg habs]
  rcases processResolvePath_spec h path buffer with
    ⟨hne, hfits, b, he, hb, ht⟩ | ⟨-, b, he, -⟩
  · have hlong := hfits _ (interpret_mem_along _ _)
    change (resolved dir path).length < buffer.length at hlong
    have hfit : (resolved dir path).length < cwd.length := by
      rw [h.size, ← hsize]
      exact hlong
    obtain ⟨cwd', hcopy, hlen, htake, hnul⟩ := copyTo_string ht hfit
    obtain ⟨hstrlen, -, -, hplain⟩ := cstring_spec ht
    refine ⟨true, cwd', resolved dir path, ?_, hlen.trans h.size, ?_, resolved_canonical h path⟩
    · rw [he]
      show (strlen b).bind _ = _
      rw [hstrlen, Option.bind_some, hcopy]
      rfl
    · rw [cstring, strlen_eq htake hnul hplain, Option.map_some, htake]
  · rw [he]
    exact ⟨false, cwd, dir, rfl, h⟩

/-- Every working directory is canonical, the copies included. -/
structure Cwds.Canonical (s : Cwds) : Prop where
  cwd : ∀ p b, s.cwd p = some b → ∃ dir, Directory b dir
  inherited : ∀ p b, s.inherited p = some b → ∃ dir, Directory b dir

/-- One entry is replaced. -/
theorem update_directory {f : Nat → Option Chars} (h : ∀ p b, f p = some b → ∃ dir, Directory b dir)
    {q : Nat} {e : Option Chars} (he : ∀ b ∈ e, ∃ dir, Directory b dir) :
    ∀ p b, update f q e p = some b → ∃ dir, Directory b dir := by
  intro p b hp
  by_cases hpq : p = q
  · rw [hpq, update_self] at hp
    exact he b hp
  · rw [update_of_ne hpq] at hp
    exact h p b hp

theorem Cwds.Canonical.release {s : Cwds} (h : s.Canonical) (p : Nat) : (s.release p).Canonical :=
  ⟨update_directory h.cwd nofun, update_directory h.inherited nofun⟩

theorem Cwds.Canonical.step {s s' : Cwds} (h : s.Canonical) {l : CwdStep} (hok : l.Allowed s)
    (hs : s.step l = some s') : s'.Canonical := by
  cases l with
  | publish p =>
    simp only [Cwds.step] at hs
    split at hs
    · cases hs
      refine ⟨update_directory h.cwd fun b hb => ?_, h.inherited⟩
      obtain rfl := Option.some.inj hb
      exact ⟨_, freshCwd_directory⟩
    · cases hs
  | inherit p parent stale =>
    simp only [Cwds.step] at hs
    split at hs
    · cases hs
      exact h.release p
    next cwd hcwd =>
      obtain ⟨dir, hdir⟩ := h.cwd parent cwd hcwd
      split at hs
      · cases hs
      · cases hs
        exact h.release p
      next b hb =>
        cases hs
        refine ⟨h.cwd, update_directory h.inherited fun b' hb' => ?_⟩
        obtain rfl := Option.some.inj hb'
        exact ⟨dir, processGetCwd_directory hdir hok hb⟩
  | adopt p stale =>
    simp only [Cwds.step] at hs
    split at hs
    next cwd b hcwd hb =>
      obtain ⟨dir, hdir⟩ := h.cwd p cwd hcwd
      split at hs
      · cases hs
      next text ht =>
        obtain ⟨ok, cwd', dir', he, hdir'⟩ :=
          processSetCwd_directory hdir hok ⟨text, (cstring_spec ht).2.2.2⟩
        rw [he] at hs
        cases ok with
        | false =>
          cases hs
          exact h.release p
        | true =>
          cases hs
          refine ⟨update_directory h.cwd fun b hb => ?_, update_directory h.inherited nofun⟩
          obtain rfl := Option.some.inj hb
          exact ⟨dir', hdir'⟩
    · cases hs
  | setCwd p path stale =>
    simp only [Cwds.step] at hs
    split at hs
    · cases hs
    next cwd hcwd =>
      obtain ⟨dir, hdir⟩ := h.cwd p cwd hcwd
      obtain ⟨ok, cwd', dir', he, hdir'⟩ := processSetCwd_directory hdir hok path
      rw [he] at hs
      cases hs
      refine ⟨update_directory h.cwd fun b hb => ?_, h.inherited⟩
      obtain rfl := Option.some.inj hb
      exact ⟨dir', hdir'⟩
  | release p =>
    cases hs
    exact h.release p

/-- Paths resolve as they are meant, and every process has a canonical working directory at any
time. -/
theorem run_paths :
    (∀ cwd dir path buffer, Directory cwd dir → Resolves cwd dir path buffer) ∧
    ∀ ls s, RunWhere Cwds.step CwdStep.Allowed Cwds.start ls s →
      ∀ p cwd, s.cwd p = some cwd → ∃ dir, Directory cwd dir := by
  refine ⟨fun _ _ path buffer h => resolves h path buffer, fun ls s hr => ?_⟩
  have hstart : Cwds.start.Canonical := by
    refine ⟨update_directory (fun _ _ h => by cases h) fun b hb => ?_, fun _ _ h => by cases h⟩
    obtain rfl := Option.some.inj hb
    exact ⟨_, freshCwd_directory⟩
  exact (RunWhere.invariant (I := Cwds.Canonical) hr hstart fun _ _ _ h hok hs => h.step hok hs).cwd

/-- A buffer of `PROCESS_PATH_MAX` bytes before it is written. -/
def staleArray : Chars := List.replicate processPathMax 0xAA

/-- `../bin`, and a process that takes over the directory of the kernel's process. -/
theorem run_paths_spawned :
    Resolves freshCwd [slash] ⟨[dot, dot, slash, 0x62, 0x69, 0x6E], by decide⟩ staleArray ∧
    ∃ s cwd dir, RunWhere Cwds.step CwdStep.Allowed Cwds.start
      [.publish 2, .inherit 2 1 staleArray, .adopt 2 staleArray] s ∧ s.cwd 2 = some cwd ∧
        Directory cwd dir := by
  have hsize : staleArray.length = processPathMax := List.length_replicate
  refine ⟨run_paths.1 freshCwd [slash] _ staleArray freshCwd_directory, ?_⟩
  have hrun : ((Cwds.start.step (.publish 2)).bind fun s1 =>
      (s1.step (.inherit 2 1 staleArray)).bind fun s2 =>
        (s2.step (.adopt 2 staleArray)).bind fun s3 => s3.cwd 2).isSome := by decide +kernel
  obtain ⟨cwd, hcwd⟩ := Option.isSome_iff_exists.mp hrun
  obtain ⟨s1, h₁, hcwd⟩ := Option.bind_eq_some_iff.mp hcwd
  obtain ⟨s2, h₂, hcwd⟩ := Option.bind_eq_some_iff.mp hcwd
  obtain ⟨s3, h₃, hcwd⟩ := Option.bind_eq_some_iff.mp hcwd
  have hr : RunWhere Cwds.step CwdStep.Allowed Cwds.start
      [.publish 2, .inherit 2 1 staleArray, .adopt 2 staleArray] s3 := by
    have hfirst : RunWhere Cwds.step CwdStep.Allowed Cwds.start [.publish 2] s1 :=
      .snoc .nil trivial h₁
    have hinherit : CwdStep.Allowed s1 (.inherit 2 1 staleArray) := hsize
    have hadopt : CwdStep.Allowed s2 (.adopt 2 staleArray) := hsize
    exact .snoc (.snoc hfirst hinherit h₂) hadopt h₃
  obtain ⟨dir, hdir⟩ := run_paths.2 _ s3 hr 2 cwd hcwd
  exact ⟨s3, cwd, dir, hr, hcwd, hdir⟩

/-- A name that does not fit, and two dots that would drop it again: the root fits, but the
buffer is too small for the way there. -/
theorem not_resolved_on_the_way : ∃ (path : CString) (b : Chars), path.bytes ≠ [] ∧
    (resolved [slash] path).length < staleArray.length ∧
    processResolvePath freshCwd path staleArray = some (false, b) := by
  have hrun : (processResolvePath freshCwd
      ⟨List.replicate 255 0x61 ++ [slash, dot, dot], by decide +kernel⟩ staleArray).any
        (fun r => !r.1) := by decide +kernel
  obtain ⟨⟨ok, b⟩, he, hok⟩ := (Option.any_eq_true _ _).mp hrun
  obtain rfl := (Bool.not_eq_true' ok).mp hok
  exact ⟨_, b, by decide +kernel, by decide +kernel, he⟩

end MeatySkeleton.Process
