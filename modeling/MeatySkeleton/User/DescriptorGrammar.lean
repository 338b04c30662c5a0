import Mathlib.Data.List.Nodup
import Mathlib.Data.List.TakeWhile
import MeatySkeleton.User.Descriptors

/-!
# The grammar of descriptors

What a descriptor file has to look like: one section of its own, in which each line has a key and a
value, and each required key once, with a value that is accepted. Everything else is ignored.
`parse_iff` says that this is what the parser checks, in one pass with the values seen so far.
-/

namespace MeatySkeleton.User

open Function List Option

/-- What a line is. -/
inductive Kind where
  /-- Empty, or a comment. -/
  | blank
  | header
  /-- The header of another section. -/
  | foreign
  | entry (key value : List UInt8)
  | bad
  deriving DecidableEq

namespace Format

variable (f : Format)

def kind (line : List UInt8) : Kind :=
  let text := trim line
  match text.head? with
  | none => .blank
  | some c =>
    if c = byte '#' ∨ c = byte ';' then .blank
    else if c = byte '[' then if text = f.header then .header else .foreign
    else
      match text.dropWhile (· ≠ byte '=') with
      | [] => .bad
      | _ :: after =>
        let key := trim (text.takeWhile (· ≠ byte '='))
        let value := trim after
        if key = [] ∨ value = [] then .bad else .entry key value

def kinds (text : List UInt8) : List Kind := (text.splitOn (byte '\n')).map f.kind

end Format

/-- The lines of the section, after a line that is in it or not. -/
def inside : Bool → List Kind → List Kind
  | _, [] => []
  | within, .blank :: ks => inside within ks
  | _, .header :: ks => inside true ks
  | _, .foreign :: ks => inside false ks
  | within, .entry key value :: ks =>
    if within then .entry key value :: inside within ks else inside within ks
  | within, .bad :: ks => if within then .bad :: inside within ks else inside within ks

/-- The value a line gives to a key. -/
def Kind.valueOf (name : List UInt8) : Kind → Option (List UInt8)
  | .entry key value => if key = name then some value else none
  | _ => none

def values (name : List UInt8) (ks : List Kind) : List (List UInt8) :=
  ks.filterMap (Kind.valueOf name)

namespace Format

variable (f : Format)

structure Grammar (ks : List Kind) : Prop where
  section_once : ks.count .header = 1
  entries : .bad ∉ inside false ks
  required : ∀ key ∈ f.keys, ∃ value, values key.name (inside false ks) = [value] ∧
    key.accepts value = true

/-- What a line of a kind does. -/
def step (p : Parser) : Kind → Option Parser
  | .blank => some p
  | .header =>
    if p.sectionSeen then none else some { p with sectionSeen := true, inSection := true }
  | .foreign => some { p with inSection := false }
  | .bad => if p.inSection then none else some p
  | .entry key value => if p.inSection then f.entry p key value else some p

variable {f} {p p' : Parser} {ks : List Kind}

theorem line_eq (p : Parser) (line : List UInt8) : f.line p line = f.step p (f.kind line) := by
  unfold Format.line kind
  dsimp only
  cases hhead : (trim line).head? with
  | none => rfl
  | some c =>
    dsimp only
    by_cases hcomment : c = byte '#' ∨ c = byte ';'
    · rw [if_pos hcomment, if_pos hcomment]
      rfl
    rw [if_neg hcomment, if_neg hcomment]
    by_cases hbracket : c = byte '['
    · rw [if_pos hbracket, if_pos hbracket]
      by_cases hheader : trim line = f.header
      · rw [if_pos hheader, if_pos hheader]
        rfl
      · rw [if_neg hheader, if_neg hheader]
        rfl
    rw [if_neg hbracket, if_neg hbracket]
    cases hequals : (trim line).dropWhile (· ≠ byte '=') with
    | nil =>
      dsimp only [step]
      cases p.inSection <;> rfl
    | cons e after =>
      dsimp only
      by_cases hempty : trim ((trim line).takeWhile (· ≠ byte '=')) = [] ∨ trim after = []
      · rw [if_pos hempty, if_pos hempty]
        dsimp only [step]
        cases p.inSection <;> rfl
      · rw [if_neg hempty, if_neg hempty]
        dsimp only [step]
        cases p.inSection <;> rfl

/-! ## The lines one after the other -/

variable (f) in
/-- What the lines of a text do. -/
def run (p : Parser) (ks : List Kind) : Option Parser := ks.foldlM f.step p

theorem run_cons (p : Parser) (k : Kind) (ks : List Kind) :
    f.run p (k :: ks) = (f.step p k).bind fun p => f.run p ks := by
  unfold run
  rw [foldlM_cons]
  rfl

/-- A text is its first line, and what follows its end. -/
theorem kinds_line (text : List UInt8) :
    f.kinds text = f.kind (text.takeWhile (· ≠ byte '\n')) ::
      if text.dropWhile (· ≠ byte '\n') = [] then []
      else f.kinds ((text.dropWhile (· ≠ byte '\n')).drop 1) := by
  have hline : byte '\n' ∉ text.takeWhile (· ≠ byte '\n') := by
    intro h
    have := mem_takeWhile_imp h
    simp at this
  have htext := takeWhile_append_dropWhile (p := fun c => decide (c ≠ byte '\n')) (l := text)
  cases hrest : text.dropWhile (· ≠ byte '\n') with
  | nil =>
    rw [hrest, append_nil] at htext
    unfold kinds
    rw [if_pos rfl, htext, splitOn_eq_singleton (htext ▸ hline)]
    rfl
  | cons c rest =>
    have hc : c = byte '\n' := by
      have hhead := head?_dropWhile_not (fun c => decide (c ≠ byte '\n')) text
      rw [hrest] at hhead
      simpa using hhead
    rw [if_neg (cons_ne_nil _ _)]
    conv_lhs => rw [← htext, hrest, hc]
    unfold kinds
    rw [splitOn_append_cons_self_of_not_mem hline]
    rfl

theorem finished_iff (q p' : Parser) :
    (f.complete q, q) = (true, p') ↔ some q = some p' ∧ f.complete p' = true := by
  rw [Prod.mk.injEq, some.injEq]
  constructor
  · rintro ⟨h, rfl⟩
    exact ⟨rfl, h⟩
  · rintro ⟨rfl, h⟩
    exact ⟨h, rfl⟩

/-- The parser accepts what its lines run through, if nothing is missing then. -/
theorem parseLoop_iff {fuel : Nat} {cursor : List UInt8} (hfuel : cursor.length < fuel) :
    f.parseLoop fuel cursor p = (true, p') ↔
      f.run p (f.kinds cursor) = some p' ∧ f.complete p' = true := by
  induction fuel generalizing cursor p with
  | zero => omega
  | succ fuel ih =>
    rw [parseLoop, kinds_line, run_cons, line_eq]
    cases hstep : f.step p (f.kind (cursor.takeWhile (· ≠ byte '\n'))) with
    | none => simp
    | some q =>
      dsimp only [bind_some]
      by_cases hend : cursor.dropWhile (· ≠ byte '\n') = []
      · rw [if_pos hend, if_pos (by rw [hend]; rfl)]
        exact finished_iff q p'
      rw [if_neg hend]
      by_cases hlast : (cursor.dropWhile (· ≠ byte '\n')).drop 1 = []
      · -- the text ends with a newline, and the empty line after it changes nothing
        rw [if_pos hlast, hlast]
        exact finished_iff q p'
      · rw [if_neg hlast]
        refine ih ?_
        have hshorter : (cursor.dropWhile (· ≠ byte '\n')).length ≤ cursor.length :=
          length_dropWhile_le _ _
        have hsome := length_pos_iff.mpr hend
        rw [length_drop]
        omega

/-! ## What a run accepts -/

/-- What has been seen, and what is still in the lines: no section twice, no bad line in it, and no
key twice, with what is accepted. -/
structure Fits (p : Parser) (ks : List Kind) : Prop where
  section_once : p.sectionSeen.toNat + ks.count .header ≤ 1
  entries : .bad ∉ inside p.inSection ks
  once : ∀ key ∈ f.keys,
    ((p.seen key.name).toList ++ values key.name (inside p.inSection ks)).length ≤ 1
  valid : ∀ key ∈ f.keys, ∀ value ∈ values key.name (inside p.inSection ks),
    key.accepts value = true

variable {key : Key}

theorem find_key (hkey : key ∈ f.keys) :
    f.keys.find? (fun k => k.name = key.name) = some key := by
  have hdistinct := inj_on_of_nodup_map f.distinct
  cases hfind : f.keys.find? (fun k => k.name = key.name) with
  | none =>
    have := find?_eq_none.mp hfind key hkey
    simp at this
  | some k =>
    have hname : k.name = key.name := by simpa using find?_some hfind
    rw [hdistinct (mem_of_find?_eq_some hfind) hkey hname]

/-- An entry whose key means nothing here. -/
theorem entry_unknown {key value : List UInt8} (hkey : ∀ k ∈ f.keys, k.name ≠ key) :
    f.entry p key value = some p := by
  unfold entry
  rw [find?_eq_none.mpr (by simpa using hkey)]

variable {value : List UInt8}

/-- An entry of a key, which has to be new and accepted. -/
theorem entry_known (hkey : key ∈ f.keys) :
    f.entry p key.name value =
      if (p.seen key.name).isSome || !key.accepts value then none
      else some { p with seen := update p.seen key.name (some value) } := by
  unfold entry
  rw [find_key hkey]

theorem values_known :
    values key.name (.entry key.name value :: ks) = value :: values key.name ks := by
  unfold values
  exact filterMap_cons_some (if_pos rfl)

theorem values_other {name key value : List UInt8} (h : key ≠ name) :
    values name (.entry key value :: ks) = values name ks := by
  unfold values
  exact filterMap_cons_none (if_neg h)

/-- Going on with fewer lines, with the same seen so far and to be seen. -/
structure Continues (p : Parser) (ks : List Kind) (q : Parser) (ks' : List Kind) : Prop where
  sections : p.sectionSeen.toNat + ks.count .header = q.sectionSeen.toNat + ks'.count .header
  entries : .bad ∈ inside p.inSection ks ↔ .bad ∈ inside q.inSection ks'
  seen : ∀ key ∈ f.keys,
    (p.seen key.name).toList ++ values key.name (inside p.inSection ks) =
      (q.seen key.name).toList ++ values key.name (inside q.inSection ks')
  valid : ∀ key ∈ f.keys,
    (∀ value ∈ values key.name (inside p.inSection ks), key.accepts value = true) ↔
      ∀ value ∈ values key.name (inside q.inSection ks'), key.accepts value = true

theorem Continues.refl (p : Parser) (ks : List Kind) : f.Continues p ks p ks :=
  ⟨rfl, Iff.rfl, fun _ _ => rfl, fun _ _ => Iff.rfl⟩

theorem Continues.trans {ks1 ks2 ks3 : List Kind} {q r : Parser} (h : f.Continues p ks1 q ks2)
    (h' : f.Continues q ks2 r ks3) : f.Continues p ks1 r ks3 :=
  ⟨h.sections.trans h'.sections, h.entries.trans h'.entries,
    fun key hkey => (h.seen key hkey).trans (h'.seen key hkey),
    fun key hkey => (h.valid key hkey).trans (h'.valid key hkey)⟩

variable {q : Parser}

theorem Continues.fits_iff {ks' : List Kind} (h : f.Continues p ks q ks') :
    f.Fits p ks ↔ f.Fits q ks' := by
  constructor
  · intro hfits
    exact ⟨h.sections ▸ hfits.section_once, fun hin => hfits.entries (h.entries.mpr hin),
      fun key hkey => h.seen key hkey ▸ hfits.once key hkey,
      fun key hkey => (h.valid key hkey).mp (hfits.valid key hkey)⟩
  · intro hfits
    exact ⟨h.sections ▸ hfits.section_once, fun hin => hfits.entries (h.entries.mp hin),
      fun key hkey => h.seen key hkey ▸ hfits.once key hkey,
      fun key hkey => (h.valid key hkey).mpr (hfits.valid key hkey)⟩

/-- A line that leaves the entries and the keys alone. -/
theorem Continues.of_inside {ks' : List Kind}
    (hsections : p.sectionSeen.toNat + ks.count .header = q.sectionSeen.toNat + ks'.count .header)
    (hinside : inside p.inSection ks = inside q.inSection ks') (hseen : p.seen = q.seen) :
    f.Continues p ks q ks' := by
  refine ⟨hsections, ?_, ?_, ?_⟩
  · rw [hinside]
  · intro key hkey
    rw [hinside, hseen]
  · intro key hkey
    rw [hinside]

theorem inside_entry {key value : List UInt8} :
    inside true (.entry key value :: ks) = .entry key value :: inside true ks := rfl

/-- The entry of a key that is new, with a value that is accepted. -/
theorem known_continues (hkey : key ∈ f.keys)
    (hin : p.inSection = true) (hnew : p.seen key.name = none)
    (haccepts : key.accepts value = true) :
    f.Continues p (.entry key.name value :: ks)
      { p with seen := update p.seen key.name (some value) } ks := by
  refine ⟨by simp, ?_, ?_, ?_⟩ <;> dsimp only <;> rw [hin, inside_entry]
  · simp
  · intro k hk
    by_cases hname : key.name = k.name
    · rw [← hname, values_known, hnew, update_self]
      rfl
    · rw [values_other hname, update_of_ne (Ne.symm hname)]
  · intro k hk
    by_cases hname : key.name = k.name
    · have hsame := inj_on_of_nodup_map f.distinct hkey hk hname
      rw [← hsame, values_known, forall_mem_cons]
      exact ⟨fun h => h.2, fun h => ⟨haccepts, h⟩⟩
    · rw [values_other hname]

/-- The entry of a key that means nothing here. -/
theorem unknown_continues {key value : List UInt8} (hkey : ∀ k ∈ f.keys, k.name ≠ key)
    (hin : p.inSection = true) : f.Continues p (.entry key value :: ks) p ks := by
  refine ⟨by simp, ?_, ?_, ?_⟩ <;> rw [hin, inside_entry]
  · simp
  · intro k hk
    rw [values_other (hkey k hk).symm]
  · intro k hk
    rw [values_other (hkey k hk).symm]

/-- A key that was seen before, or that does not accept its value, does not fit. -/
theorem known_refused (hkey : key ∈ f.keys)
    (hin : p.inSection = true)
    (hbad : (p.seen key.name).isSome = true ∨ key.accepts value = false) :
    ¬ f.Fits p (.entry key.name value :: ks) := by
  intro h
  cases hbad with
  | inl hseen =>
    obtain ⟨old, hold⟩ := isSome_iff_exists.mp hseen
    have honce := h.once key hkey
    rw [hin, hold, inside_entry, values_known] at honce
    simp at honce
  | inr hrefused =>
    have hvalid := h.valid key hkey value
    rw [hin, inside_entry, values_known] at hvalid
    rw [hvalid mem_cons_self] at hrefused
    exact Bool.noConfusion hrefused

/-- An entry in the section. -/
theorem fits_entry (key value : List UInt8) (hin : p.inSection = true) :
    (∀ q, f.entry p key value = some q → f.Continues p (.entry key value :: ks) q ks) ∧
      (f.entry p key value = none → ¬ f.Fits p (.entry key value :: ks)) := by
  by_cases hknown : ∃ k ∈ f.keys, k.name = key
  · obtain ⟨k, hk, rfl⟩ := hknown
    rw [entry_known hk]
    by_cases hbad : ((p.seen k.name).isSome || !k.accepts value) = true
    · rw [if_pos hbad]
      refine ⟨fun q h => (some_ne_none q h.symm).elim, fun _ => known_refused hk hin ?_⟩
      simpa using hbad
    · rw [if_neg hbad]
      have hgood : p.seen k.name = none ∧ k.accepts value = true := by simpa using hbad
      refine ⟨fun q h => ?_, fun h => (some_ne_none _ h).elim⟩
      rw [← some.inj h]
      exact known_continues hk hin hgood.1 hgood.2
  · have hnames : ∀ k ∈ f.keys, k.name ≠ key := fun k hk hname => hknown ⟨k, hk, hname⟩
    rw [entry_unknown hnames]
    refine ⟨fun q h => ?_, fun h => (some_ne_none _ h).elim⟩
    rw [← some.inj h]
    exact unknown_continues hnames hin

/-- What one line does: what was seen goes on, or the lines do not fit. -/
theorem fits_step (p : Parser) (k : Kind) (ks : List Kind) :
    (∀ q, f.step p k = some q → f.Continues p (k :: ks) q ks) ∧
      (f.step p k = none → ¬ f.Fits p (k :: ks)) := by
  have hsome {q q' : Parser} (hc : f.Continues p (k :: ks) q ks) (h : some q = some q') :
      f.Continues p (k :: ks) q' ks := some.inj h ▸ hc
  have hnone {q : Parser} (h : some q = none) : ¬ f.Fits p (k :: ks) :=
    (some_ne_none q h).elim
  cases k with
  | blank => exact ⟨fun q => hsome (.of_inside (by simp) rfl rfl), hnone⟩
  | header =>
    simp only [step]
    cases hseen : p.sectionSeen with
    | true =>
      refine ⟨fun q h => (some_ne_none q h.symm).elim, fun _ h => ?_⟩
      have honce := h.section_once
      rw [hseen, count_cons_self, Bool.toNat_true] at honce
      omega
    | false =>
      refine ⟨fun q => hsome (.of_inside ?_ rfl rfl), hnone⟩
      rw [hseen, count_cons_self, Bool.toNat_true, Bool.toNat_false]
      omega
  | foreign => exact ⟨fun q => hsome (.of_inside (by simp) rfl rfl), hnone⟩
  | bad =>
    simp only [step]
    cases hin : p.inSection with
    | true =>
      refine ⟨fun q h => (some_ne_none q h.symm).elim, fun _ h => ?_⟩
      have hentries := h.entries
      rw [hin] at hentries
      exact hentries mem_cons_self
    | false => exact ⟨fun q => hsome (.of_inside (by simp) (by rw [hin]; rfl) rfl), hnone⟩
  | entry key value =>
    simp only [step]
    cases hin : p.inSection with
    | true => exact fits_entry key value hin
    | false => exact ⟨fun q => hsome (.of_inside (by simp) (by rw [hin]; rfl) rfl), hnone⟩

/-- A run goes on to its end. -/
theorem run_continues (hrun : f.run p ks = some q) : f.Continues p ks q [] := by
  induction ks generalizing p with
  | nil =>
    rw [← some.inj hrun]
    exact .refl p []
  | cons k ks ih =>
    rw [run_cons] at hrun
    obtain ⟨r, hstep, hrest⟩ := bind_eq_some_iff.mp hrun
    exact ((fits_step p k ks).1 r hstep).trans (ih hrest)

/-- Lines that fit run through. -/
theorem run_of_fits (hfits : f.Fits p ks) : ∃ q, f.run p ks = some q := by
  induction ks generalizing p with
  | nil => exact ⟨p, rfl⟩
  | cons k ks ih =>
    rw [run_cons]
    cases hstep : f.step p k with
    | none => exact absurd hfits ((fits_step p k ks).2 hstep)
    | some r => exact ih (((fits_step p k ks).1 r hstep).fits_iff.mp hfits)

theorem inside_nil (within : Bool) : inside within [] = [] := by
  cases within <;> rfl

/-- After all lines, a key has the values that they gave to it. -/
theorem run_seen (hrun : f.run .empty ks = some q) (hkey : key ∈ f.keys) :
    (q.seen key.name).toList = values key.name (inside false ks) := by
  have hseen := (run_continues hrun).seen key hkey
  rw [inside_nil] at hseen
  exact ((append_nil _).symm.trans hseen.symm).trans (nil_append _)

/-- After all lines, it is known how many sections there were. -/
theorem run_sections (hrun : f.run .empty ks = some q) :
    q.sectionSeen.toNat = ks.count .header := by
  have hsections := (run_continues hrun).sections
  simpa [Parser.empty] using hsections.symm

theorem grammar_of_run (hrun : f.run .empty ks = some q)
    (hcomplete : f.complete q = true) : f.Grammar ks := by
  have hc := run_continues hrun
  obtain ⟨hsection, hkeys⟩ := Bool.and_eq_true_iff.mp hcomplete
  refine ⟨?_, ?_, ?_⟩
  · rw [← run_sections hrun, hsection]
    rfl
  · intro hbad
    have hnone := hc.entries.mp hbad
    rw [inside_nil] at hnone
    exact not_mem_nil hnone
  · intro key hkey
    obtain ⟨value, hvalue⟩ := isSome_iff_exists.mp (all_eq_true.mp hkeys key hkey)
    have hvalues := run_seen hrun hkey
    rw [hvalue] at hvalues
    have haccepts := (hc.valid key hkey).mpr (by rw [inside_nil]; simp [values])
    exact ⟨value, hvalues.symm, haccepts value (hvalues ▸ mem_singleton_self value)⟩

theorem Grammar.fits (h : f.Grammar ks) : f.Fits .empty ks := by
  refine ⟨?_, h.entries, ?_, ?_⟩
  · rw [h.section_once]
    exact Nat.le_refl 1
  · intro key hkey
    obtain ⟨value, hvalues, -⟩ := h.required key hkey
    exact (congrArg List.length hvalues).le
  · intro key hkey value hvalue
    obtain ⟨v, hvalues, haccepts⟩ := h.required key hkey
    have hv : value ∈ [v] := hvalues ▸ hvalue
    rw [mem_singleton.mp hv]
    exact haccepts

theorem Grammar.run (h : f.Grammar ks) : ∃ q, f.run .empty ks = some q ∧ f.complete q = true := by
  obtain ⟨q, hrun⟩ := run_of_fits h.fits
  refine ⟨q, hrun, Bool.and_eq_true_iff.mpr ⟨?_, all_eq_true.mpr ?_⟩⟩
  · have hsections := run_sections hrun
    rw [h.section_once] at hsections
    cases hseen : q.sectionSeen with
    | true => rfl
    | false => simp [hseen] at hsections
  · intro key hkey
    obtain ⟨value, hvalues, -⟩ := h.required key hkey
    have hseen := run_seen hrun hkey
    rw [hvalues] at hseen
    cases hsome : q.seen key.name with
    | some v => rfl
    | none => simp [hsome] at hseen

/-! ## The parser -/

variable (f) in
/-- The lines of a file: of what comes before its NUL. -/
def lines (contents : List UInt8) : List Kind := f.kinds (contents.takeWhile (· ≠ 0))

theorem parse_eq {contents : List UInt8} :
    f.parse contents = (true, q) ↔
      f.run .empty (f.lines contents) = some q ∧ f.complete q = true :=
  parseLoop_iff (Nat.lt_succ_self _)

/-- The parser accepts what has the form of a descriptor. -/
theorem parse_iff (contents : List UInt8) :
    (f.parse contents).1 = true ↔ f.Grammar (f.lines contents) := by
  constructor
  · intro haccepted
    obtain ⟨hrun, hcomplete⟩ :=
      parse_eq.mp (Prod.ext haccepted rfl : f.parse contents = (true, (f.parse contents).2))
    exact grammar_of_run hrun hcomplete
  · intro h
    obtain ⟨q, hq⟩ := h.run
    rw [parse_eq.mpr hq]

/-- Then it has found the value of each key. -/
theorem parse_seen {contents : List UInt8}
    (h : f.Grammar (f.lines contents)) (hkey : key ∈ f.keys)
    (hvalue : values key.name (inside false (f.lines contents)) = [value]) :
    (f.parse contents).2.seen key.name = some value := by
  have haccepted := (parse_iff contents).mpr h
  obtain ⟨hrun, -⟩ :=
    parse_eq.mp (Prod.ext haccepted rfl : f.parse contents = (true, (f.parse contents).2))
  have hseen := run_seen hrun hkey
  rw [hvalue] at hseen
  cases hsome : (f.parse contents).2.seen key.name with
  | none => simp [hsome] at hseen
  | some v => simpa [hsome] using hseen

end Format

end MeatySkeleton.User
