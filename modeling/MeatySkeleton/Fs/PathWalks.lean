import MeatySkeleton.Fs.FileTable
import MeatySkeleton.Lib.Pathname

/-!
# Walking a path

`vfs_lookup` walks a path down to its last component, `vfs_lookup_parent` to the one before it,
each with a loop of its own. The vnodes are any type, a null pointer is `none`, and a function
has no answer (`none`) where it would dereference one. Only `vfs_lookup` looks whether a file
system is mounted and whether the driver has returned a vnode; `walks_agree_iff` says that
nothing else is wrong with the other walk.
-/

namespace MeatySkeleton.Fs

open Function List Option Lib

abbrev PathBytes := List UInt8

def slash : UInt8 := 0x2F

/-- The size of the arrays for a component. -/
def componentSize : Nat := 256

/-- The reference counts of the vnodes. -/
abbrev RefCounts (ν : Type) := ν → BitVec 32

/-- The mounted vnodes and what their drivers do; `none` for an operation that a vnode lacks. A
lookup that succeeds returns a vnode, with a reference, or a null pointer. -/
structure Tree (ν : Type) where
  /-- `vfs_root`. -/
  root : Option ν
  type : ν → VnodeType
  lookup : ν → Option (PathBytes → Option (Option ν))
  create : ν → Option (PathBytes → Option (Option ν))
  mkdir : ν → Option (PathBytes → Option (Option ν))
  /-- Whether the truncation to no bytes succeeds. -/
  truncate : ν → Option Bool

section
variable {ν : Type} [DecidableEq ν]

/-- `vnode_ref`. -/
def RefCounts.ref (refs : RefCounts ν) : Option ν → RefCounts ν
  | none => refs
  | some node => update refs node (refs node + 1#32)

/-- `vnode_unref`. -/
def RefCounts.unref (refs : RefCounts ν) : Option ν → RefCounts ν
  | none => refs
  | some node => update refs node (refs node - 1#32)

/-- `vfs_next_component`: the component and the rest of the path, if it is not too long. -/
def vfsNextComponent (path : PathBytes) : Option (PathBytes × PathBytes) :=
  let path := path.dropWhile (· == slash)
  let component := path.takeWhile (· != slash)
  if componentSize ≤ component.length then none
  else some (component, path.dropWhile (· != slash))

/-- There is less left of the path. -/
theorem vfsNextComponent_shorter {path component rest : PathBytes}
    (h : vfsNextComponent path = some (component, rest)) (hne : component ≠ []) :
    rest.length < path.length := by
  unfold vfsNextComponent at h
  dsimp only at h
  rw [ite_none_left_eq_some] at h
  obtain ⟨rfl, rfl⟩ := Prod.mk.inj (some.inj h.2)
  have hname := length_pos_of_ne_nil hne
  have hsplit := congrArg List.length (takeWhile_append_dropWhile (p := (· != slash))
    (l := path.dropWhile (· == slash)))
  have hle := length_dropWhile_le (· == slash) path
  rw [length_append] at hsplit
  omega

namespace Tree

variable (t : Tree ν)

/-- What both loops do with a component that is not the last: `none` where they give up. -/
def descend (node : ν) (component : PathBytes) : Option (Option ν) :=
  if t.type node ≠ .directory then none
  else match t.lookup node with
    | none => none
    | some lookup => lookup component

/-- The loop of `vfs_lookup`. -/
def lookupFrom (refs : RefCounts ν) (current : ν) (cursor : PathBytes) :
    Option ν × RefCounts ν :=
  match _h : vfsNextComponent cursor with
  | none => (none, refs.unref (some current))
  | some ([], _) => (some current, refs)
  | some (c :: cs, rest) =>
    match t.descend current (c :: cs) with
    | none => (none, refs.unref (some current))
    | some none => (none, refs.unref (some current))
    | some (some next) => lookupFrom ((refs.ref (some next)).unref (some current)) next rest
  termination_by cursor.length
  decreasing_by exact vfsNextComponent_shorter _h (cons_ne_nil _ _)

/-- `vfs_lookup`. -/
def vfsLookup (refs : RefCounts ν) (path : PathBytes) : Option ν × RefCounts ν :=
  match t.root with
  | none => (none, refs)
  | some root =>
    if path.head? ≠ some slash then (none, refs)
    else if path = [slash] then (some root, refs.ref (some root))
    else t.lookupFrom (refs.ref (some root)) root path

/-- The loop of `vfs_lookup_parent`. -/
def parentFrom (refs : RefCounts ν) (current : Option ν) (cursor : PathBytes) :
    Option (Option (Option ν × PathBytes) × RefCounts ν) :=
  match _h : vfsNextComponent cursor with
  | none => some (none, refs.unref current)
  | some ([], _) => some (none, refs.unref current)
  | some (c :: cs, rest) =>
    match vfsNextComponent rest with
    | none => some (none, refs.unref current)
    | some ([], _) =>
      if componentSize < (c :: cs).length + 1 then some (none, refs.unref current)
      else some (some (current, c :: cs), refs)
    | some (_ :: _, _) =>
      match current with
      | none => none
      | some node =>
        match t.descend node (c :: cs) with
        | none => some (none, refs.unref current)
        | some next => parentFrom ((refs.ref next).unref current) next rest
  termination_by cursor.length
  decreasing_by exact vfsNextComponent_shorter _h (cons_ne_nil _ _)

/-- `vfs_lookup_parent`: the parent and the last name. -/
def vfsLookupParent (refs : RefCounts ν) (path : PathBytes) :
    Option (Option (Option ν × PathBytes) × RefCounts ν) :=
  if path.head? ≠ some slash then some (none, refs)
  else t.parentFrom (refs.ref t.root) t.root path

/-- The checks of `vfs_open` on a vnode. -/
def opens (node : ν) (flags : OpenFlags) : Bool :=
  (if t.type node = .directory then flags.has vfsOpenRead &&
      !flags.has (vfsOpenWrite ||| vfsOpenAppend ||| vfsOpenCreate ||| vfsOpenTrunc)
    else t.type node = .regular) &&
  (if flags.has vfsOpenTrunc then flags.has vfsOpenWrite && t.truncate node = some true else true)

/-- The end of `vfs_open`; `block` says whether there is memory for the file object. -/
def finishOpen (refs : RefCounts ν) (node : ν) (flags : OpenFlags) (block : Bool) :
    Option ν × RefCounts ν :=
  if t.opens node flags && block then (some node, refs) else (none, refs.unref (some node))

/-- `vfs_open`: the vnode of the new file object. -/
def vfsOpen (refs : RefCounts ν) (path : PathBytes) (flags : OpenFlags) (block : Bool) :
    Option (Option ν × RefCounts ν) :=
  match t.vfsLookup refs path with
  | (some node, refs) => some (t.finishOpen refs node flags block)
  | (none, refs) =>
    if flags.has vfsOpenCreate = false then some (none, refs)
    else match t.vfsLookupParent refs path with
      | none => none
      | some (none, refs) => some (none, refs)
      | some (some (none, _), _) => none
      | some (some (some parent, name), refs) =>
        if t.type parent ≠ .directory then some (none, refs.unref (some parent))
        else match t.create parent with
          | none => some (none, refs.unref (some parent))
          | some create =>
            match create name with
            | some (some node) =>
              some (t.finishOpen ((refs.ref (some node)).unref (some parent)) node flags block)
            | _ => some (none, refs.unref (some parent))

/-- `vfs_mkdir`: whether a directory was made. -/
def vfsMkdir (refs : RefCounts ν) (path : PathBytes) : Option (Bool × RefCounts ν) :=
  if path.head? ≠ some slash then some (false, refs)
  else match t.vfsLookup refs path with
    | (some existing, refs) => some (false, refs.unref (some existing))
    | (none, refs) =>
      match t.vfsLookupParent refs path with
      | none => none
      | some (none, refs) => some (false, refs)
      | some (some (none, _), refs) => some (false, refs)
      | some (some (some parent, name), refs) =>
        if t.type parent ≠ .directory then some (false, refs.unref (some parent))
        else match t.mkdir parent with
          | none => some (false, refs.unref (some parent))
          | some mkdir =>
            if name = [] then some (false, refs.unref (some parent))
            else match mkdir name with
              | some (some created) =>
                some (true, ((refs.ref (some created)).unref (some parent)).unref (some created))
              | _ => some (false, refs.unref (some parent))

/-! ## The names on the way -/

/-- Where names lead. -/
def resolve : ν → List PathBytes → Option ν
  | node, [] => some node
  | node, name :: names =>
    if componentSize ≤ name.length then none
    else match t.descend node name with
      | some (some next) => resolve next names
      | _ => none

/-- The parent of the last name, as `vfs_lookup_parent` finds it. -/
def parentOf : Option ν → List PathBytes → Option (Option (Option ν × PathBytes))
  | _, [] => some none
  | current, [name] => some (if componentSize ≤ name.length then none else some (current, name))
  | current, name :: next :: names =>
    if componentSize ≤ name.length ∨ componentSize ≤ next.length then some none
    else match current with
      | none => none
      | some node =>
        match t.descend node name with
        | none => some none
        | some below => parentOf below (next :: names)

/-- On the way to the last name but one the walk comes to a null vnode, by names that are not too
long. -/
def MeetsNull : Option ν → List PathBytes → Prop
  | _, [] => False
  | none, [name] => name.length < componentSize
  | none, name :: next :: _ => name.length < componentSize ∧ next.length < componentSize
  | some _, [_] => False
  | some node, name :: next :: names => name.length < componentSize ∧ next.length < componentSize ∧
      ∃ below, t.descend node name = some below ∧ MeetsNull below (next :: names)

/-- The parent is a directory in which the name stands for the vnode. -/
def Resolves (parent : Option ν) (name : PathBytes) (node : ν) : Prop :=
  ∃ directory, parent = some directory ∧ t.type directory = .directory ∧
    ∃ lookup, t.lookup directory = some lookup ∧ lookup name = some (some node)

/-! ## What the two walks promise -/

/-- What holds of a path, whatever the counts are before. -/
structure WalksAgree (path : PathBytes) : Prop where
  agree : ∀ refs parent name refs',
    t.vfsLookupParent refs path = some (some (parent, name), refs') →
      ∀ node, (t.vfsLookup refs path).1 = some node ↔ t.Resolves parent name node
  lookupRefs : ∀ refs, (t.vfsLookup refs path).2 = refs.ref (t.vfsLookup refs path).1
  parentRefs : ∀ refs r refs', t.vfsLookupParent refs path = some (r, refs') →
    refs' = refs.ref (r.bind Prod.fst)
  openRefs : ∀ refs flags block r refs', t.vfsOpen refs path flags block = some (r, refs') →
    refs' = refs.ref r
  mkdirRefs : ∀ refs r refs', t.vfsMkdir refs path = some (r, refs') → refs' = refs
  openNull : ∀ refs flags block, flags.has vfsOpenCreate = true →
    t.vfsOpen refs path flags block ≠ none
  mkdirNull : ∀ refs, t.vfsMkdir refs path ≠ none

end Tree

/-! ## References -/

variable {refs : RefCounts ν}

@[simp] theorem ref_none (refs : RefCounts ν) : refs.ref none = refs := rfl

@[simp] theorem unref_ref (refs : RefCounts ν) (node : Option ν) :
    (refs.ref node).unref node = refs := by
  cases node with
  | none => rfl
  | some n => simp only [RefCounts.ref, RefCounts.unref, update_self, BitVec.add_sub_cancel,
      Function.update_idem, Function.update_eq_self]

theorem ref_comm (refs : RefCounts ν) (a b : Option ν) :
    (refs.ref a).ref b = (refs.ref b).ref a := by
  cases a with
  | none => rfl
  | some a =>
    cases b with
    | none => rfl
    | some b =>
      by_cases hab : a = b
      · rw [hab]
      · simp only [RefCounts.ref, update_of_ne hab, update_of_ne (Ne.symm hab)]
        exact update_comm hab ..

/-- The reference that the walk has on a vnode is dropped for the one on the next. -/
@[simp] theorem ref_unref (refs : RefCounts ν) (a b : Option ν) :
    ((refs.ref a).ref b).unref a = refs.ref b := by
  rw [ref_comm, unref_ref]

/-! ## Components -/

theorem vfsNextComponent_eq (path : PathBytes) :
    (names slash path = [] ∧ vfsNextComponent path = some ([], [])) ∨
    ∃ c cs rest, names slash path = (c :: cs) :: names slash rest ∧
      vfsNextComponent path =
        if componentSize ≤ (c :: cs).length then none else some (c :: cs, rest) := by
  rw [← names_skip path, vfsNextComponent]
  by_cases hend : path.dropWhile (· == slash) = []
  · left
    rw [hend]
    exact ⟨names_nil, rfl⟩
  · right
    obtain ⟨hne, hplain, hrest⟩ := nextName hend
    have hsplit := takeWhile_append_dropWhile (p := (· != slash)) (l := path.dropWhile (· == slash))
    have hnames := names_name hne hplain hrest
    rw [hsplit] at hnames
    obtain ⟨c, cs, hc⟩ := exists_cons_of_ne_nil hne
    rw [hc] at hnames
    refine ⟨c, cs, _, hnames, ?_⟩
    rw [hc]

/-! ## The two loops -/

variable {t : Tree ν}

/-- One round of `vfs_lookup`. -/
theorem lookupFrom_round (t : Tree ν) (refs : RefCounts ν) (current : ν) (cursor : PathBytes) :
    t.lookupFrom refs current cursor = match vfsNextComponent cursor with
      | none => (none, refs.unref (some current))
      | some ([], _) => (some current, refs)
      | some (c :: cs, rest) =>
        match t.descend current (c :: cs) with
        | none => (none, refs.unref (some current))
        | some none => (none, refs.unref (some current))
        | some (some next) => t.lookupFrom ((refs.ref (some next)).unref (some current)) next rest := by
  rw [Tree.lookupFrom]
  split
  all_goals
    rename_i h
    rw [h]

theorem lookupFrom_eq (refs : RefCounts ν) (node : ν) (cursor : PathBytes) :
    t.lookupFrom (refs.ref (some node)) node cursor =
      (t.resolve node (names slash cursor), refs.ref (t.resolve node (names slash cursor))) := by
  induction hlength : cursor.length using Nat.strong_induction_on generalizing refs node cursor with
  | _ length ih =>
    rw [lookupFrom_round]
    rcases vfsNextComponent_eq cursor with ⟨hnames, hnext⟩ | ⟨c, cs, rest, hnames, hnext⟩
    · rw [hnames, Tree.resolve, hnext]
    · rw [hnames, Tree.resolve, hnext]
      by_cases hlong : componentSize ≤ (c :: cs).length
      · rw [if_pos hlong, if_pos hlong]
        dsimp only
        rw [unref_ref]
        rfl
      · rw [if_neg hlong, if_neg hlong]
        rw [if_neg hlong] at hnext
        have hshorter := vfsNextComponent_shorter hnext (cons_ne_nil _ _)
        dsimp only
        cases t.descend node (c :: cs) with
        | none =>
          dsimp only
          rw [unref_ref]
          rfl
        | some next =>
          cases next with
          | none =>
            dsimp only
            rw [unref_ref]
            rfl
          | some next =>
            dsimp only
            rw [ref_unref]
            exact ih rest.length (by omega) refs next rest rfl

/-- One round of `vfs_lookup_parent`. -/
theorem parentFrom_round (t : Tree ν) (refs : RefCounts ν) (current : Option ν)
    (cursor : PathBytes) :
    t.parentFrom refs current cursor = match vfsNextComponent cursor with
      | none => some (none, refs.unref current)
      | some ([], _) => some (none, refs.unref current)
      | some (c :: cs, rest) =>
        match vfsNextComponent rest with
        | none => some (none, refs.unref current)
        | some ([], _) =>
          if componentSize < (c :: cs).length + 1 then some (none, refs.unref current)
          else some (some (current, c :: cs), refs)
        | some (_ :: _, _) =>
          match current with
          | none => none
          | some node =>
            match t.descend node (c :: cs) with
            | none => some (none, refs.unref current)
            | some next => t.parentFrom ((refs.ref next).unref current) next rest := by
  rw [Tree.parentFrom]
  split
  all_goals
    rename_i h
    rw [h]

omit [DecidableEq ν] in
theorem parentOf_nil (t : Tree ν) (current : Option ν) : t.parentOf current [] = some none := by
  rw [Tree.parentOf.eq_def]

omit [DecidableEq ν] in
theorem parentOf_last (t : Tree ν) (current : Option ν) (name : PathBytes) :
    t.parentOf current [name] =
      some (if componentSize ≤ name.length then none else some (current, name)) := by
  rw [Tree.parentOf.eq_def]

omit [DecidableEq ν] in
theorem parentOf_cons (t : Tree ν) (current : Option ν) (name next : PathBytes)
    (names : List PathBytes) : t.parentOf current (name :: next :: names) =
      if componentSize ≤ name.length ∨ componentSize ≤ next.length then some none
      else current.bind fun node =>
        match t.descend node name with
        | none => some none
        | some below => t.parentOf below (next :: names) := by
  rw [Tree.parentOf.eq_def]
  cases current <;> rfl

theorem parentFrom_eq (refs : RefCounts ν) (current : Option ν) (cursor : PathBytes) :
    t.parentFrom (refs.ref current) current cursor =
      (t.parentOf current (names slash cursor)).map fun r => (r, refs.ref (r.bind Prod.fst)) := by
  induction hlength : cursor.length using Nat.strong_induction_on
    generalizing refs current cursor with
  | _ length ih =>
    rw [parentFrom_round]
    rcases vfsNextComponent_eq cursor with ⟨hnames, hnext⟩ | ⟨c, cs, rest, hnames, hnext⟩
    · rw [hnames, parentOf_nil, hnext]
      dsimp only
      rw [unref_ref]
      rfl
    · rw [hnames, hnext]
      by_cases hlong : componentSize ≤ (c :: cs).length
      · have hnone : t.parentOf current ((c :: cs) :: names slash rest) = some none := by
          rcases vfsNextComponent_eq rest with ⟨hrest, -⟩ | ⟨d, ds, rest', hrest, -⟩
          · rw [hrest, parentOf_last, if_pos hlong]
          · rw [hrest, parentOf_cons, if_pos (.inl hlong)]
        rw [if_pos hlong, hnone]
        dsimp only
        rw [unref_ref]
        rfl
      · rw [if_neg hlong]
        rw [if_neg hlong] at hnext
        have hshorter := vfsNextComponent_shorter hnext (cons_ne_nil _ _)
        dsimp only
        rcases vfsNextComponent_eq rest with ⟨hrest, hlast⟩ | ⟨d, ds, rest', hrest, hlast⟩
        · rw [hrest, hlast, parentOf_last, if_neg hlong]
          dsimp only
          rw [if_neg (by omega)]
          rfl
        · have hcons := parentOf_cons t current (c :: cs) (d :: ds) (names slash rest')
          rw [hlast, hrest]
          by_cases hlong' : componentSize ≤ (d :: ds).length
          · rw [if_pos (.inr hlong')] at hcons
            rw [if_pos hlong', hcons]
            dsimp only
            rw [unref_ref]
            rfl
          · rw [if_neg (by omega)] at hcons
            rw [if_neg hlong', hcons]
            cases current with
            | none => rfl
            | some node =>
              dsimp only [bind_some]
              cases t.descend node (c :: cs) with
              | none =>
                dsimp only
                rw [unref_ref]
                rfl
              | some next =>
                dsimp only
                rw [ref_unref, ← hrest]
                exact ih rest.length (by omega) refs next rest rfl

/-! ## The walks of a path -/

/-- `vfs_lookup`, by the names of the path. -/
theorem vfsLookup_eq (refs : RefCounts ν) (path : PathBytes) :
    (t.vfsLookup refs path).2 = refs.ref (t.vfsLookup refs path).1 ∧
    (t.vfsLookup refs path).1 =
      if path.head? = some slash then t.root.bind fun root => t.resolve root (names slash path)
      else none := by
  rw [Tree.vfsLookup]
  cases t.root with
  | none => simp [RefCounts.ref]
  | some root =>
    dsimp only
    by_cases habsolute : path.head? = some slash
    · rw [if_neg (not_not.mpr habsolute), if_pos habsolute]
      by_cases hroot : path = [slash]
      · rw [if_pos hroot, hroot, names_sep, names_nil]
        exact ⟨rfl, rfl⟩
      · rw [if_neg hroot, lookupFrom_eq]
        exact ⟨rfl, rfl⟩
    · rw [if_pos habsolute, if_neg habsolute]
      exact ⟨rfl, rfl⟩

theorem vfsLookupParent_eq (refs : RefCounts ν) (path : PathBytes) :
    t.vfsLookupParent refs path =
      (if path.head? = some slash then t.parentOf t.root (names slash path) else some none).map
        fun r => (r, refs.ref (r.bind Prod.fst)) := by
  rw [Tree.vfsLookupParent]
  by_cases habsolute : path.head? = some slash
  · rw [if_neg (not_not.mpr habsolute), if_pos habsolute, parentFrom_eq]
  · rw [if_pos habsolute, if_neg habsolute]
    rfl

omit [DecidableEq ν] in
/-- The walk by names finds a null vnode where the loop would dereference it or return it. -/
theorem meetsNull_iff (current : Option ν) (path : List PathBytes) :
    t.MeetsNull current path ↔
      t.parentOf current path = none ∨ ∃ name, t.parentOf current path = some (some (none, name)) := by
  induction path generalizing current with
  | nil => cases current <;> simp [Tree.MeetsNull, parentOf_nil]
  | cons name path ih =>
    cases path with
    | nil => cases current <;> simp [Tree.MeetsNull, parentOf_last]
    | cons next path =>
      rw [parentOf_cons]
      by_cases hlong : componentSize ≤ name.length ∨ componentSize ≤ next.length
      · rw [if_pos hlong]
        cases current with
        | none => simp only [Tree.MeetsNull]; grind
        | some node => simp only [Tree.MeetsNull]; grind
      · rw [if_neg hlong]
        have hname : name.length < componentSize := by omega
        have hnext : next.length < componentSize := by omega
        cases current with
        | none => simp [Tree.MeetsNull, hname, hnext]
        | some node =>
          cases hdescend : t.descend node name with
          | none => simp [Tree.MeetsNull, hdescend]
          | some below => simp [Tree.MeetsNull, hdescend, hname, hnext, ih]

omit [DecidableEq ν] in
theorem meetsNull_resolve {current : Option ν} {path : List PathBytes}
    (h : t.MeetsNull current path) : (current.bind fun node => t.resolve node path) = none := by
  induction path generalizing current with
  | nil => cases current <;> cases h
  | cons name path ih =>
    cases current with
    | none => rfl
    | some node =>
      cases path with
      | nil => cases h
      | cons next path =>
        obtain ⟨hname, -, below, hdescend, hrest⟩ := h
        have hbelow := ih hrest
        rw [bind_some, Tree.resolve, if_neg (Nat.not_le_of_lt hname), hdescend]
        cases below with
        | none => rfl
        | some below => exact hbelow

omit [DecidableEq ν] in
/-- The last name leads from the parent to where all names lead. -/
theorem parentOf_agrees {current parent : Option ν} {path : List PathBytes} {name : PathBytes}
    (h : t.parentOf current path = some (some (parent, name))) (node : ν) :
    (current.bind fun c => t.resolve c path) = some node ↔ t.Resolves parent name node := by
  induction path generalizing current with
  | nil =>
    rw [parentOf_nil] at h
    cases h
  | cons first path ih =>
    cases path with
    | nil =>
      rw [parentOf_last] at h
      by_cases hlong : componentSize ≤ first.length
      · rw [if_pos hlong] at h
        cases h
      · rw [if_neg hlong] at h
        obtain ⟨rfl, rfl⟩ := Prod.mk.inj (some.inj (some.inj h))
        cases current with
        | none => simp [Tree.Resolves]
        | some directory =>
          rw [bind_some, Tree.resolve, if_neg hlong, Tree.descend, Tree.Resolves]
          by_cases htype : t.type directory = .directory
          · cases hlookup : t.lookup directory with
            | none => simp [htype, hlookup]
            | some lookup =>
              rcases hresult : lookup first with _ | _ | next
              · simp [htype, hlookup, hresult]
              · simp [htype, hlookup, hresult]
              · simp [htype, hlookup, hresult, Tree.resolve]
          · simp [htype]
    | cons next path =>
      rw [parentOf_cons] at h
      by_cases hlong : componentSize ≤ first.length ∨ componentSize ≤ next.length
      · rw [if_pos hlong] at h
        cases h
      · rw [if_neg hlong] at h
        cases current with
        | none => cases h
        | some directory =>
          rw [bind_some] at h ⊢
          rw [Tree.resolve, if_neg (by omega)]
          cases hdescend : t.descend directory first with
          | none =>
            rw [hdescend] at h
            cases h
          | some below =>
            rw [hdescend] at h
            rw [← ih h]
            cases below <;> rfl

/-! ## References and null vnodes -/

theorem vfsLookup_pair (t : Tree ν) (refs : RefCounts ν) (path : PathBytes) :
    t.vfsLookup refs path = ((t.vfsLookup refs path).1, refs.ref (t.vfsLookup refs path).1) := by
  rw [← (vfsLookup_eq refs path).1]

theorem finishOpen_refs (t : Tree ν) (refs : RefCounts ν) (node : ν) (flags : OpenFlags)
    (block : Bool) : (t.finishOpen (refs.ref (some node)) node flags block).2 =
      refs.ref (t.finishOpen (refs.ref (some node)) node flags block).1 := by
  rw [Tree.finishOpen]
  split
  · rfl
  · exact unref_ref refs (some node)

variable {path : PathBytes} {refs' : RefCounts ν}

theorem vfsLookupParent_refs {r : Option (Option ν × PathBytes)}
    (h : t.vfsLookupParent refs path = some (r, refs')) :
    refs' = refs.ref (r.bind Prod.fst) := by
  rw [vfsLookupParent_eq] at h
  obtain ⟨r', -, hr⟩ := map_eq_some_iff.mp h
  obtain ⟨rfl, rfl⟩ := Prod.mk.inj hr
  rfl

theorem vfsOpen_refs {flags : OpenFlags} {block : Bool} {r : Option ν}
    (h : t.vfsOpen refs path flags block = some (r, refs')) :
    refs' = refs.ref r := by
  rw [Tree.vfsOpen, vfsLookup_pair] at h
  cases hnode : (t.vfsLookup refs path).1 with
  | some node =>
    rw [hnode] at h
    have hfinish := finishOpen_refs t refs node flags block
    rw [some.inj h] at hfinish
    exact hfinish
  | none =>
    rw [hnode] at h
    simp only [ref_none] at h
    split at h
    · cases h
      rfl
    · rcases hparent : t.vfsLookupParent refs path with _ | ⟨_ | ⟨_ | parent, name⟩, refs1⟩
      · rw [hparent] at h
        cases h
      · rw [hparent] at h
        cases h
        exact vfsLookupParent_refs hparent
      · rw [hparent] at h
        cases h
      · -- the parent's reference is dropped
        rw [hparent] at h
        obtain rfl := vfsLookupParent_refs hparent
        simp only [bind_some, unref_ref, ref_unref] at h
        split at h
        · cases h
          rfl
        · split at h
          · cases h
            rfl
          · split at h
            case h_1 node _ =>
              have hfinish := finishOpen_refs t refs node flags block
              rw [some.inj h] at hfinish
              exact hfinish
            · cases h
              rfl

theorem vfsMkdir_refs {r : Bool}
    (h : t.vfsMkdir refs path = some (r, refs')) : refs' = refs := by
  rw [Tree.vfsMkdir, vfsLookup_pair] at h
  split at h
  · exact (Prod.mk.inj (some.inj h)).2.symm
  · cases hnode : (t.vfsLookup refs path).1 with
    | some existing =>
      rw [hnode] at h
      simp only [unref_ref] at h
      exact (Prod.mk.inj (some.inj h)).2.symm
    | none =>
      rw [hnode] at h
      simp only [ref_none] at h
      rcases hparent : t.vfsLookupParent refs path with _ | ⟨_ | ⟨_ | parent, name⟩, refs1⟩
      · rw [hparent] at h
        cases h
      · rw [hparent] at h
        cases h
        exact vfsLookupParent_refs hparent
      · rw [hparent] at h
        cases h
        exact vfsLookupParent_refs hparent
      · rw [hparent] at h
        obtain rfl := vfsLookupParent_refs hparent
        simp only [bind_some, unref_ref, ref_unref] at h
        split at h
        · exact (Prod.mk.inj (some.inj h)).2.symm
        · split at h
          · exact (Prod.mk.inj (some.inj h)).2.symm
          · split at h
            · exact (Prod.mk.inj (some.inj h)).2.symm
            · split at h
              · exact (Prod.mk.inj (some.inj h)).2.symm
              · exact (Prod.mk.inj (some.inj h)).2.symm

/-- A file is created only if the walk to the parent has ended well. -/
theorem vfsOpen_eq_none {flags : OpenFlags} {block : Bool}
    (h : t.vfsOpen refs path flags block = none) :
    t.vfsLookupParent refs path = none ∨
      ∃ name refs', t.vfsLookupParent refs path = some (some (none, name), refs') := by
  rw [Tree.vfsOpen, vfsLookup_pair] at h
  cases hnode : (t.vfsLookup refs path).1 with
  | some node =>
    rw [hnode] at h
    cases h
  | none =>
    rw [hnode] at h
    simp only [ref_none] at h
    split at h
    · cases h
    · rcases hparent : t.vfsLookupParent refs path with _ | ⟨_ | ⟨_ | parent, name⟩, refs1⟩
      · exact .inl rfl
      · rw [hparent] at h
        cases h
      · exact .inr ⟨name, refs1, rfl⟩
      · rw [hparent] at h
        dsimp only at h
        split at h
        · cases h
        · split at h
          · cases h
          · split at h <;> cases h

theorem vfsMkdir_eq_none (h : t.vfsMkdir refs path = none) :
    t.vfsLookupParent refs path = none := by
  rw [Tree.vfsMkdir, vfsLookup_pair] at h
  split at h
  · cases h
  · cases hnode : (t.vfsLookup refs path).1 with
    | some existing =>
      rw [hnode] at h
      cases h
    | none =>
      rw [hnode] at h
      simp only [ref_none] at h
      rcases hparent : t.vfsLookupParent refs path with _ | ⟨_ | ⟨_ | parent, name⟩, refs1⟩
      · rfl
      all_goals
        rw [hparent] at h
        dsimp only at h
      · cases h
      · cases h
      · split at h
        · cases h
        · split at h
          · cases h
          · split at h
            · cases h
            · split at h <;> cases h

/-- What the walk to the parent comes to, where it meets a null vnode. -/
theorem meetsNull_parent (refs : RefCounts ν) (path : PathBytes) :
    (t.vfsLookupParent refs path = none ∨
      ∃ name refs', t.vfsLookupParent refs path = some (some (none, name), refs')) ↔
    path.head? = some slash ∧ t.MeetsNull t.root (names slash path) := by
  rw [vfsLookupParent_eq, meetsNull_iff]
  by_cases habsolute : path.head? = some slash
  · rw [if_pos habsolute]
    rcases t.parentOf t.root (names slash path) with _ | ⟨_ | ⟨_ | parent, name⟩⟩ <;> simp [habsolute]
  · rw [if_neg habsolute]
    simp [habsolute]

/-- Nothing is wrong with the walks exactly where the walk to the parent meets no null vnode. -/
theorem walks_agree_iff (t : Tree ν) (path : PathBytes) :
    t.WalksAgree path ↔ ¬(path.head? = some slash ∧ t.MeetsNull t.root (names slash path)) := by
  constructor
  · intro h hmeets
    have hlookup : (t.vfsLookup (fun _ => 0) path).1 = none := by
      rw [(vfsLookup_eq _ path).2, if_pos hmeets.1]
      exact meetsNull_resolve hmeets.2
    apply h.openNull (fun _ => 0) vfsOpenCreate true rfl
    rw [Tree.vfsOpen, vfsLookup_pair, hlookup]
    dsimp only
    rw [if_neg (by decide), ref_none]
    rcases (meetsNull_parent (fun _ => 0) path).mpr hmeets with hnone | ⟨name, refs', hnull⟩
    · rw [hnone]
    · rw [hnull]
  · intro hno
    refine ⟨?_, fun refs => (vfsLookup_eq refs path).1, fun _ _ _ h => vfsLookupParent_refs h,
      fun _ _ _ _ _ h => vfsOpen_refs h, fun _ _ _ h => vfsMkdir_refs h, ?_, ?_⟩
    · intro refs parent name refs' h node
      rw [vfsLookupParent_eq] at h
      obtain ⟨r, hparent, hr⟩ := Option.map_eq_some_iff.mp h
      obtain ⟨rfl, -⟩ := Prod.mk.inj hr
      by_cases habsolute : path.head? = some slash
      · rw [if_pos habsolute] at hparent
        rw [(vfsLookup_eq refs path).2, if_pos habsolute]
        exact parentOf_agrees hparent node
      · rw [if_neg habsolute] at hparent
        cases hparent
    · intro refs flags block _ hnone
      exact hno ((meetsNull_parent refs path).mp (vfsOpen_eq_none hnone))
    · intro refs hnone
      exact hno ((meetsNull_parent refs path).mp (.inl (vfsMkdir_eq_none hnone)))

end

/-- Nothing is mounted. -/
def unmounted : Tree Nat where
  root := none
  type _ := .regular
  lookup _ := none
  create _ := none
  mkdir _ := none
  truncate _ := none

/-- A file is to be created before anything is mounted: the walk to the parent succeeds with a
null vnode, and `vfs_open` dereferences it. -/
theorem unmounted_open :
    unmounted.vfsOpen (fun _ => 0) [slash, 0x61] vfsOpenCreate true = none := by
  have hnames : names slash [slash, 0x61] = [[0x61]] := by decide
  have habsolute : [slash, 0x61].head? = some slash := rfl
  have hlookup : unmounted.vfsLookup (fun _ => 0) [slash, 0x61] = (none, fun _ => 0) := rfl
  have hparent : unmounted.vfsLookupParent (fun _ => 0) [slash, 0x61] =
      some (some (none, [0x61]), fun _ => 0) := by
    rw [vfsLookupParent_eq, if_pos habsolute, hnames, parentOf_last]
    rfl
  rw [Tree.vfsOpen, hlookup]
  dsimp only
  rw [if_neg (by decide), hparent]

end MeatySkeleton.Fs
