import MeatySkeleton.Elf.Loads

/-!
# A load by itself

What the steps of a load come to when nothing is shared: `Own` has the frame that
is being filled, the pages of the new address space with their bytes, and no
addresses of frames. `Own.perform` is partial. It stops at `reject`, and where the
loader would go wrong by itself: a page entered twice, one under a directory entry
`room` does not allow, one not filled completely.
-/

namespace MeatySkeleton.Elf

open Function Lib Paging

structure UserPage where
  writable : Bool
  bytes : Nat → Option Byte

/-- A frame on its way into an address space. -/
inductive Draft where
  /-- The bytes written so far. -/
  | page (bytes : Nat → Option Byte)
  /-- A cleared page with the first `entries` directory entries done. -/
  | directory (entries : Nat) (complete : Bool)

/-- What the scratch page shows. -/
inductive Target where
  | draft
  | top
deriving DecidableEq

structure Own where
  draft : Option Draft
  target : Option Target
  created : Bool
  /-- The user pages of the new address space, by page number. -/
  page : Nat → Option UserPage
  /-- The page `top_stack_frame` is mapped at. -/
  top : Option Nat

def Own.start : Own := ⟨none, none, false, fun _ => none, none⟩

def Filled (bytes : Nat → Option Byte) : Prop := ∀ j, j < pageSize → (bytes j).isSome = true

def Cleared (bytes : Nat → Option Byte) : Prop := ∀ j, j < pageSize → bytes j = some 0#8

instance (bytes : Nat → Option Byte) : Decidable (Filled bytes) :=
  inferInstanceAs (Decidable (∀ j, j < pageSize → (bytes j).isSome = true))

instance (bytes : Nat → Option Byte) : Decidable (Cleared bytes) :=
  inferInstanceAs (Decidable (∀ j, j < pageSize → bytes j = some 0#8))

def UserPage.write (p : UserPage) (offset : Nat) (b : Byte) : UserPage :=
  { p with bytes := update p.bytes offset (some b) }

/-- The next directory entry of a draft is done. -/
def Draft.share (i : Nat) : Draft → Option Draft
  | .page bytes => if i = 0 ∧ Cleared bytes then some (.directory 1 false) else none
  | .directory entries complete =>
    if i = entries ∧ i < 1024 ∧ complete = false then some (.directory (i + 1) false) else none

/-- A page may be entered at `virtualPage`. -/
def Own.CanEnter (room : Nat → Bool) (p : Own) (virtualPage : Nat) (flags : Word) : Prop :=
  p.created = true ∧ virtualPage % pageSize = 0 ∧ virtualPage / pageSize < pageCount ∧
    room (virtualPage / pageSize / 1024) = true ∧ p.page (virtualPage / pageSize) = none ∧
    flags.has pageUser = true

instance (room : Nat → Bool) (p : Own) (virtualPage : Nat) (flags : Word) :
    Decidable (p.CanEnter room virtualPage flags) := by
  have : Decidable (p.page (virtualPage / pageSize) = none) :=
    decidable_of_iff _ Option.isNone_iff_eq_none
  unfold Own.CanEnter
  infer_instance

def Own.perform (room : Nat → Bool) (p : Own) : Step → Option Own
  | .kernelDirectoryActive _ => some p
  | .allocateFrame =>
    match p.draft, p.target with
    | none, none => some { p with draft := some (.page fun _ => none) }
    | _, _ => none
  | .mapScratch =>
    match p.draft, p.target with
    | some _, none => some { p with target := some .draft }
    | _, _ => none
  | .writeByte offset b =>
    if offset < pageSize then
      match p.target, p.draft, p.top with
      | some .draft, some (.page bytes), _ =>
        some { p with draft := some (.page (update bytes offset (some b))) }
      | some .top, _, some n =>
        some { p with page := update p.page n ((p.page n).map (UserPage.write · offset b)) }
      | _, _, _ => none
    else none
  | .shareEntry i =>
    match p.target, p.draft with
    | some .draft, some d => (d.share i).map fun d => { p with draft := some d }
    | _, _ => none
  | .setRecursiveEntry =>
    match p.target, p.draft with
    | some .draft, some (.directory 1024 false) =>
      some { p with draft := some (.directory 1024 true) }
    | _, _ => none
  | .unmapScratch _ =>
    match p.target with
    | some _ => some { p with target := none }
    | none => none
  | .adoptDirectory =>
    match p.target, p.draft, p.created with
    | none, some (.directory 1024 true), false => some { p with draft := none, created := true }
    | _, _, _ => none
  | .enterPage virtualPage flags top =>
    match p.target, p.draft with
    | none, some (.page bytes) =>
      if Filled bytes ∧ p.CanEnter room virtualPage flags then
        some { p with
          draft := none
          page := update p.page (virtualPage / pageSize) (some ⟨flags.has pageWritable, bytes⟩)
          top := if top then some (virtualPage / pageSize) else p.top }
      else none
    | _, _ => none
  | .mapTopFrame =>
    match p.target, p.top with
    | none, some _ => some { p with target := some .top }
    | _, _ => none
  | .reject => none

/-- All steps one after the other. -/
def Own.run (room : Nat → Bool) (steps : List Step) (p : Own) : Option Own :=
  steps.foldlM (Own.perform room) p

end MeatySkeleton.Elf
