import Mathlib.Algebra.Group.Nat.Defs
import Mathlib.Data.List.TakeWhile

/-!
# Pathnames

A path over any alphabet with a separator and a dot. `interpret` reads it as the commands
of a stack of names: an empty component and a single dot do nothing, two dots drop the last
name if there is one. `render` writes a stack down as an absolute path; what it writes is
exactly the canonical paths (`canonical_iff`), and reading it again gives the stack back
(`interpret_render`).
-/

namespace MeatySkeleton.Lib

open List

variable {α : Type} [DecidableEq α] (sep dot : α)

/-- One component of a path. -/
def enterName (stack : List (List α)) (c : List α) : List (List α) :=
  if c = [] ∨ c = [dot] then stack
  else if c = [dot, dot] then stack.dropLast
  else stack ++ [c]

/-- The stack a path leads to. -/
def interpret (stack : List (List α)) (path : List α) : List (List α) :=
  (path.splitOn sep).foldl (enterName dot) stack

/-- The stacks on the way, the first and the last one included. -/
def along (stack : List (List α)) (path : List α) : List (List (List α)) :=
  (path.splitOn sep).scanl (enterName dot) stack

/-- The absolute path of a stack. -/
def render : List (List α) → List α
  | [] => [sep]
  | c :: cs => (c :: cs).flatMap (sep :: ·)

/-- A component that names something. -/
structure Proper (c : List α) : Prop where
  nonempty : c ≠ []
  ne_dot : c ≠ [dot]
  ne_dots : c ≠ [dot, dot]
  plain : sep ∉ c

/-- An absolute path with no empty, `.` or `..` component, or the root. In particular a
separator ends only the root. -/
def Canonical (path : List α) : Prop :=
  path = [sep] ∨ ∃ rest, path = sep :: rest ∧
    ∀ c ∈ rest.splitOn sep, c ≠ [] ∧ c ≠ [dot] ∧ c ≠ [dot, dot]

variable {sep dot} {c : List α} {stack cs : List (List α)} {path rest : List α}

/-! ## Components -/

@[simp] theorem enterName_nil : enterName dot stack [] = stack := if_pos (.inl rfl)

theorem enterName_proper (h : Proper sep dot c) : enterName dot stack c = stack ++ [c] := by
  rw [enterName, if_neg (not_or.mpr ⟨h.nonempty, h.ne_dot⟩), if_neg h.ne_dots]

/-- A component holds elements of the path, but no separator. -/
theorem splitOn_mem : ∀ {path c : List α}, c ∈ path.splitOn sep → sep ∉ c ∧ ∀ x ∈ c, x ∈ path
  | [], c, h => by
    rw [splitOn_nil, mem_singleton] at h
    rw [h]
    exact ⟨not_mem_nil, nofun⟩
  | y :: path, c, h => by
    rw [splitOn_cons_eq_if_modifyHead] at h
    split at h
    · rcases mem_cons.mp h with rfl | h
      · exact ⟨not_mem_nil, nofun⟩
      · obtain ⟨hplain, hmem⟩ := splitOn_mem h
        exact ⟨hplain, fun x hx => mem_cons_of_mem y (hmem x hx)⟩
    next hy =>
      obtain ⟨d, ds, hds⟩ := exists_cons_of_ne_nil (splitOn_ne_nil sep path)
      rw [hds, modifyHead_cons] at h
      rcases mem_cons.mp h with rfl | h
      · -- the first component goes on with `y`
        obtain ⟨hplain, hmem⟩ := splitOn_mem (hds ▸ mem_cons_self : d ∈ path.splitOn sep)
        refine ⟨fun hsep => ?_, fun x hx => ?_⟩
        · rcases mem_cons.mp hsep with rfl | hsep
          · exact hy (beq_self_eq_true _)
          · exact hplain hsep
        · rcases mem_cons.mp hx with rfl | hx
          · exact mem_cons_self
          · exact mem_cons_of_mem y (hmem x hx)
      · obtain ⟨hplain, hmem⟩ :=
          splitOn_mem (hds ▸ mem_cons_of_mem d h : c ∈ path.splitOn sep)
        exact ⟨hplain, fun x hx => mem_cons_of_mem y (hmem x hx)⟩

/-- A name of the new stack is an old one, or the component. -/
theorem mem_enterName {d : List α} (h : d ∈ enterName dot stack c) :
    d ∈ stack ∨ (d = c ∧ c ≠ [] ∧ c ≠ [dot] ∧ c ≠ [dot, dot]) := by
  unfold enterName at h
  split at h
  · exact .inl h
  next hplain =>
    obtain ⟨hnonempty, hdot⟩ := not_or.mp hplain
    split at h
    · exact .inl ((dropLast_sublist stack).subset h)
    next hdots =>
      rcases mem_append.mp h with h | h
      · exact .inl h
      · exact .inr ⟨mem_singleton.mp h, hnonempty, hdot, hdots⟩

variable {s : List (List α)}

/-- And one of a stack on the way is an old one, or a component of the path. -/
theorem mem_along (h : s ∈ along sep dot stack path) {d : List α} (hd : d ∈ s) :
    d ∈ stack ∨ (Proper sep dot d ∧ ∀ x ∈ d, x ∈ path) := by
  have hscan : ∀ (cs : List (List α)) (stack : List (List α)), (∀ c ∈ cs, c ∈ path.splitOn sep) →
      s ∈ cs.scanl (enterName dot) stack →
        d ∈ stack ∨ (Proper sep dot d ∧ ∀ x ∈ d, x ∈ path) := by
    intro cs
    induction cs with
    | nil =>
      intro stack _ h
      rw [scanl_nil, mem_singleton] at h
      exact .inl (h ▸ hd)
    | cons c cs ih =>
      intro stack hcs h
      rw [scanl_cons] at h
      rcases mem_cons.mp h with rfl | h
      · exact .inl hd
      · rcases ih _ (fun e he => hcs e (mem_cons_of_mem c he)) h with hold | hnew
        · rcases mem_enterName hold with hold | ⟨rfl, hnonempty, hdot, hdots⟩
          · exact .inl hold
          · obtain ⟨hplain, hmem⟩ := splitOn_mem (hcs d mem_cons_self)
            exact .inr ⟨⟨hnonempty, hdot, hdots, hplain⟩, hmem⟩
        · exact .inr hnew
  exact hscan _ _ (fun c hc => hc) h

/-! ## From separator to separator -/

theorem splitOn_sep (path : List α) : (sep :: path).splitOn sep = [] :: path.splitOn sep := by
  have hnil : sep ∉ ([] : List α) := not_mem_nil
  exact splitOn_append_cons_self_of_not_mem hnil path

variable (sep dot) in
theorem self_mem_along (stack : List (List α)) (path : List α) : stack ∈ along sep dot stack path := by
  obtain ⟨c, cs, hcs⟩ := exists_cons_of_ne_nil (splitOn_ne_nil sep path)
  rw [along, hcs, scanl_cons]
  exact mem_cons_self

theorem interpret_mem_along (stack : List (List α)) (path : List α) :
    interpret sep dot stack path ∈ along sep dot stack path := by
  rw [interpret, along]
  generalize path.splitOn sep = cs
  induction cs generalizing stack with
  | nil => exact mem_singleton.mpr rfl
  | cons c cs ih =>
    rw [foldl_cons, scanl_cons]
    exact mem_cons_of_mem stack (ih _)

/-- A separator in front makes no difference. -/
theorem interpret_sep (stack : List (List α)) (path : List α) :
    interpret sep dot stack (sep :: path) = interpret sep dot stack path := by
  rw [interpret, splitOn_sep, foldl_cons, enterName_nil, interpret]

theorem mem_along_sep :
    s ∈ along sep dot stack (sep :: path) ↔ s ∈ along sep dot stack path := by
  rw [along, splitOn_sep, scanl_cons, enterName_nil]
  refine ⟨fun h => ?_, mem_cons_of_mem stack⟩
  rcases mem_cons.mp h with rfl | h
  · exact self_mem_along sep dot s path
  · exact h

/-- The rest of a path behind a component. -/
def Rest (sep : α) (rest : List α) : Prop := rest = [] ∨ ∃ r, rest = sep :: r

theorem interpret_name (hc : sep ∉ c) (hrest : Rest sep rest) :
    interpret sep dot stack (c ++ rest) = interpret sep dot (enterName dot stack c) rest := by
  rcases hrest with rfl | ⟨r, rfl⟩
  · rw [append_nil, interpret, splitOn_eq_singleton hc, interpret, splitOn_nil]
    simp
  · rw [interpret_sep, interpret, splitOn_append_cons_self_of_not_mem hc, interpret]
    rfl

theorem mem_along_name (hc : sep ∉ c) (hrest : Rest sep rest) :
    s ∈ along sep dot stack (c ++ rest) ↔
      s = stack ∨ s ∈ along sep dot (enterName dot stack c) rest := by
  rcases hrest with rfl | ⟨r, rfl⟩
  · rw [append_nil, along, splitOn_eq_singleton hc, along, splitOn_nil]
    simp
  · rw [mem_along_sep, along, splitOn_append_cons_self_of_not_mem hc, scanl_cons, along]
    exact mem_cons

/-- The separators in front of a name are skipped. -/
theorem interpret_skip (stack : List (List α)) (path : List α) :
    interpret sep dot stack (path.dropWhile (· == sep)) = interpret sep dot stack path := by
  induction path with
  | nil => rfl
  | cons x path ih =>
    by_cases hx : x = sep
    · subst hx
      have hskip : (x :: path).dropWhile (· == x) = path.dropWhile (· == x) :=
        dropWhile_cons_of_pos (beq_self_eq_true x)
      rw [hskip, ih, interpret_sep]
    · rw [dropWhile_cons_of_neg (by simpa using hx)]

theorem mem_along_skip (path : List α) :
    s ∈ along sep dot stack (path.dropWhile (· == sep)) ↔ s ∈ along sep dot stack path := by
  induction path with
  | nil => rfl
  | cons x path ih =>
    by_cases hx : x = sep
    · subst hx
      have hskip : (x :: path).dropWhile (· == x) = path.dropWhile (· == x) :=
        dropWhile_cons_of_pos (beq_self_eq_true x)
      rw [hskip, ih, mem_along_sep]
    · rw [dropWhile_cons_of_neg (by simpa using hx)]

/-- The next name, up to the next separator or the end. -/
theorem nextName (h : path.dropWhile (· == sep) ≠ []) :
    (path.dropWhile (· == sep)).takeWhile (· != sep) ≠ [] ∧
      sep ∉ (path.dropWhile (· == sep)).takeWhile (· != sep) ∧
      Rest sep ((path.dropWhile (· == sep)).dropWhile (· != sep)) := by
  have hhead := head_dropWhile_not (· == sep) h
  obtain ⟨x, xs, hxs⟩ := exists_cons_of_ne_nil h
  simp only [hxs, head_cons] at hhead
  have hx : (x != sep) = true := by simpa using hhead
  rw [hxs]
  refine ⟨?_, fun hmem => ?_, ?_⟩
  · have hname : (x :: xs).takeWhile (· != sep) = x :: xs.takeWhile (· != sep) :=
      takeWhile_cons_of_pos hx
    rw [hname]
    exact cons_ne_nil _ _
  · have hsep := mem_takeWhile_imp hmem
    simp at hsep
  · by_cases hrest : (x :: xs).dropWhile (· != sep) = []
    · exact .inl hrest
    · have hsep := head_dropWhile_not (· != sep) hrest
      obtain ⟨y, ys, hys⟩ := exists_cons_of_ne_nil hrest
      simp only [hys, head_cons] at hsep
      have hy : y = sep := by simpa using hsep
      exact .inr ⟨ys, by rw [hys, hy]⟩

/-! ## The names of a path -/

section Names

omit dot

variable (sep) in
/-- The components that are not empty. -/
def names (path : List α) : List (List α) := (path.splitOn sep).filter (· ≠ [])

theorem names_nil : names sep [] = [] := by
  rw [names, splitOn_nil]
  rfl

theorem names_sep (path : List α) : names sep (sep :: path) = names sep path := by
  rw [names, splitOn_sep, filter_cons_of_neg (by simp), names]

theorem names_skip (path : List α) : names sep (path.dropWhile (· == sep)) = names sep path := by
  induction path with
  | nil => rfl
  | cons x path ih =>
    by_cases hx : x = sep
    · subst hx
      have hskip : (x :: path).dropWhile (· == x) = path.dropWhile (· == x) :=
        dropWhile_cons_of_pos (beq_self_eq_true x)
      rw [hskip, ih, names_sep]
    · rw [dropWhile_cons_of_neg (by simpa using hx)]

theorem names_name (hne : c ≠ []) (hc : sep ∉ c) (hrest : Rest sep rest) :
    names sep (c ++ rest) = c :: names sep rest := by
  have hkeep : ∀ cs : List (List α), (c :: cs).filter (· ≠ []) = c :: cs.filter (· ≠ []) :=
    fun cs => filter_cons_of_pos (by simpa using hne)
  rcases hrest with rfl | ⟨r, rfl⟩
  · rw [append_nil, names, splitOn_eq_singleton hc, hkeep, names_nil]
    rfl
  · rw [names_sep, names, splitOn_append_cons_self_of_not_mem hc, hkeep, names]

end Names

/-! ## Writing a stack down and reading it again -/

section Render

omit [DecidableEq α]

theorem render_append (stack : List (List α)) (c : List α) :
    render sep (stack ++ [c]) = if stack = [] then sep :: c else render sep stack ++ sep :: c := by
  cases stack with
  | nil => simp [render]
  | cons d ds => simp [render]

theorem render_cons : ∀ (c : List α) (cs : List (List α)),
    render sep (c :: cs) = sep :: [sep].intercalate (c :: cs)
  | c, [] => by simp [render]
  | c, d :: ds => by
    have ih := render_cons d ds
    rw [intercalate_cons_cons, append_assoc, singleton_append, ← ih]
    simp [render]

theorem mem_render {x : α} : x ∈ render sep stack ↔ x = sep ∨ ∃ d ∈ stack, x ∈ d := by
  cases stack with
  | nil => simp [render]
  | cons c cs =>
    rw [render, mem_flatMap]
    constructor
    · rintro ⟨d, hd, hx⟩
      rcases mem_cons.mp hx with rfl | hx
      · exact .inl rfl
      · exact .inr ⟨d, hd, hx⟩
    · rintro (rfl | ⟨d, hd, hx⟩)
      · exact ⟨c, mem_cons_self, mem_cons_self⟩
      · exact ⟨d, hd, mem_cons_of_mem _ hx⟩

theorem render_length_append (s t : List (List α)) :
    (render sep s).length ≤ (render sep (s ++ t)).length := by
  induction t generalizing s with
  | nil => simp
  | cons c t ih =>
    have hone : (render sep s).length ≤ (render sep (s ++ [c])).length := by
      rw [render_append]
      split
      next hempty => simp [hempty, render]
      next => simp
    have hrest := ih (s ++ [c])
    rw [append_assoc, singleton_append] at hrest
    exact Nat.le_trans hone hrest

end Render

/-- The components of a canonical path are the names, behind the empty one in front. -/
theorem splitOn_render (h : ∀ d ∈ stack, Proper sep dot d) :
    (render sep stack).splitOn sep = [] :: if stack = [] then [[]] else stack := by
  cases stack with
  | nil => exact splitOn_sep []
  | cons c cs =>
    rw [render_cons, splitOn_sep, if_neg (cons_ne_nil c cs),
      splitOn_intercalate sep (fun d hd => (h d hd).plain) (cons_ne_nil c cs)]

theorem foldl_enterName (h : ∀ d ∈ cs, Proper sep dot d) :
    cs.foldl (enterName dot) stack = stack ++ cs := by
  induction cs generalizing stack with
  | nil => simp
  | cons c cs ih =>
    rw [foldl_cons, enterName_proper (h c mem_cons_self),
      ih fun d hd => h d (mem_cons_of_mem c hd), append_assoc]
    rfl

theorem interpret_render (h : ∀ d ∈ stack, Proper sep dot d) :
    interpret sep dot [] (render sep stack) = stack := by
  rw [interpret, splitOn_render h, foldl_cons, enterName_nil]
  split
  next hempty => simp [hempty]
  next => rw [foldl_enterName h, nil_append]

/-- On the way to a stack that was written down there is nothing longer. -/
theorem along_render (h : ∀ d ∈ stack, Proper sep dot d)
    (hs : s ∈ along sep dot [] (render sep stack)) :
    (render sep s).length ≤ (render sep stack).length := by
  have hscan : ∀ (cs xs : List (List α)), (∀ d ∈ cs, Proper sep dot d) →
      s ∈ cs.scanl (enterName dot) xs → ∃ t, s ++ t = xs ++ cs := by
    intro cs
    induction cs with
    | nil =>
      intro xs _ hmem
      rw [scanl_nil, mem_singleton] at hmem
      exact ⟨[], by rw [hmem]⟩
    | cons c cs ih =>
      intro xs hcs hmem
      rw [scanl_cons] at hmem
      rcases mem_cons.mp hmem with rfl | hmem
      · exact ⟨c :: cs, rfl⟩
      · rw [enterName_proper (hcs c mem_cons_self)] at hmem
        obtain ⟨t, ht⟩ := ih _ (fun d hd => hcs d (mem_cons_of_mem c hd)) hmem
        exact ⟨t, by rw [ht]; simp⟩
  rw [along, splitOn_render h, scanl_cons, enterName_nil] at hs
  rcases mem_cons.mp hs with rfl | hs
  · exact render_length_append [] stack
  split at hs
  next hempty =>
    simp only [scanl_cons, scanl_nil, enterName_nil, mem_cons, not_mem_nil, or_false, or_self] at hs
    rw [hs, hempty]
  next =>
    obtain ⟨t, ht⟩ := hscan stack [] h hs
    rw [nil_append] at ht
    rw [← ht]
    exact render_length_append s t

/-- The canonical paths are the stacks of names. -/
theorem canonical_iff : Canonical sep dot path ↔
    ∃ stack, (∀ d ∈ stack, Proper sep dot d) ∧ path = render sep stack := by
  constructor
  · rintro (rfl | ⟨rest, rfl, hrest⟩)
    · exact ⟨[], nofun, rfl⟩
    · refine ⟨rest.splitOn sep, fun d hd => ?_, ?_⟩
      · obtain ⟨hnonempty, hdot, hdots⟩ := hrest d hd
        exact ⟨hnonempty, hdot, hdots, (splitOn_mem hd).1⟩
      · obtain ⟨c, cs, hcs⟩ := exists_cons_of_ne_nil (splitOn_ne_nil sep rest)
        rw [hcs, render_cons, ← hcs, intercalate_splitOn]
  · rintro ⟨stack, h, rfl⟩
    cases stack with
    | nil => exact .inl rfl
    | cons c cs =>
      refine .inr ⟨_, render_cons c cs, fun d hd => ?_⟩
      rw [splitOn_intercalate sep (fun d hd => (h d hd).plain) (cons_ne_nil c cs)] at hd
      exact ⟨(h d hd).nonempty, (h d hd).ne_dot, (h d hd).ne_dots⟩

end MeatySkeleton.Lib
