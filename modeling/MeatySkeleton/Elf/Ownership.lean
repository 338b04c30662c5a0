import MeatySkeleton.Elf.Own

/-!
# Whose frame is whose

The invariant of loads that share a machine. `role` gives each frame to the
kernel or to one load, as its new directory, one of its page tables, one of its
pages or the frame it is filling; frames of different roles are different frames.
What a load owns is as `Own` says (`Private`), the scratch page shows the frame of
the load that has it (`Slot`), and the kernel's own tables are as they were.
-/

namespace MeatySkeleton.Elf

open Lib Paging

variable {ι : Type}

inductive Role (ι : Type) where
  | free
  | kernel
  | draft (i : ι)
  | directory (i : ι)
  | table (i : ι) (d : Nat)
  | page (i : ι) (n : Nat)

def Role.owner : Role ι → Option ι
  | .free => none
  | .kernel => none
  | .draft i => some i
  | .directory i => some i
  | .table i _ => some i
  | .page i _ => some i

/-- The load whose new address space a frame is in. -/
def Role.space : Role ι → Option ι
  | .directory i => some i
  | .table i _ => some i
  | .page i _ => some i
  | _ => none

theorem Role.owner_of_space {r : Role ι} {i : ι} (h : r.space = some i) : r.owner = some i := by
  cases r with
  | directory j => exact h
  | table j d => exact h
  | page j n => exact h
  | _ => cases h

/-- The directory entries user pages may be under. -/
def roomOf (m0 : Machine) (k d : Nat) : Bool := !(m0.mem k d).has pagePresent && d != scratchIndex

/-- Frame `f` holds what has been written of a draft. -/
def DraftOk (m0 : Machine) (k : Nat) (m : Machine) (f : Nat) : Draft → Prop
  | .page bytes => ∀ j b, j < pageSize → bytes j = some b → byteOf (m.mem f) j = b
  | .directory entries complete => ∀ d, d < 1024 → m.mem f d =
      if d = recursiveDirectoryIndex then
        if complete then entryFor (f * pageSize) (pagePresent ||| pageWritable) else 0#32
      else if d < entries then newEntry (m0.mem k) f d else 0#32

/-- The page with number `n` in directory `dir` of load `i`. -/
structure PageOk (m : Machine) (role : Nat → Role ι) (i : ι) (dir n : Nat) (p : UserPage) (f : Nat) :
    Prop where
  pde : (m.mem dir (n / 1024)).has pagePresent = true
  pte : (m.mem (frameOf (m.mem dir (n / 1024))) (n % 1024)).has pagePresent = true
  frame : frameOf (m.mem (frameOf (m.mem dir (n / 1024))) (n % 1024)) = f
  owned : role f = .page i n
  user : (m.mem (frameOf (m.mem dir (n / 1024))) (n % 1024)).has pageUser = true
  writable : (m.mem (frameOf (m.mem dir (n / 1024))) (n % 1024)).has pageWritable = p.writable
  bytes : ∀ j b, j < pageSize → p.bytes j = some b → byteOf (m.mem f) j = b

/-- The new directory `dir` of load `i` has exactly the user pages `page`. -/
structure SpaceOk (m0 : Machine) (k : Nat) (m : Machine) (role : Nat → Role ι) (i : ι) (dir : Nat)
    (page : Nat → Option UserPage) : Prop where
  owned : role dir = .directory i
  ok : DirectoryOk m dir
  entry : ∀ d, d < 1023 → (m.mem dir d).has pagePresent = true →
    ((m0.mem k d).shared = true ∧ d ≠ scratchIndex ∧ m.mem dir d = m0.mem k d) ∨
      (roomOf m0 k d = true ∧ role (frameOf (m.mem dir d)) = .table i d ∧
        (m.mem dir d).has pageUser = true ∧ (m.mem dir d).has pageWritable = true)
  mapped : ∀ n p, page n = some p → n < pageCount ∧ roomOf m0 k (n / 1024) = true ∧
    ∃ f, PageOk m role i dir n p f
  unmapped : ∀ n, n < pageCount → roomOf m0 k (n / 1024) = true → page n = none →
    (m.mem dir (n / 1024)).has pagePresent = true →
      (m.mem (frameOf (m.mem dir (n / 1024))) (n % 1024)).has pagePresent = false

/-- `top_stack_frame` is the frame of the page `p.top`. -/
def TopOk (m : Machine) (role : Nat → Role ι) (i : ι) (dir : Nat) (l : Load) (p : Own) : Prop :=
  ∀ n, p.top = some n → ∃ u f, p.page n = some u ∧ l.topFrame = some f ∧ PageOk m role i dir n u f

/-- What load `i` owns is as `p` says. -/
structure Private (m0 : Machine) (k : Nat) (m : Machine) (role : Nat → Role ι) (i : ι) (l : Load)
    (p : Own) : Prop where
  running : l.failed = false
  holding : l.holding = p.target.isSome
  draft : (l.frame = none ∧ p.draft = none) ∨
    ∃ f d, l.frame = some f ∧ p.draft = some d ∧ role f = .draft i ∧ DraftOk m0 k m f d
  space : (l.directory = none ∧ p.created = false ∧ (∀ n, p.page n = none) ∧ p.top = none) ∨
    ∃ dir, l.directory = some dir ∧ p.created = true ∧ SpaceOk m0 k m role i dir p.page ∧
      TopOk m role i dir l p

/-- The kernel's directory and its page tables, as far as the loads may change them. -/
structure KernelKeeps (m0 : Machine) (k : Nat) (m : Machine) (role : Nat → Role ι) : Prop where
  cr3 : m.cr3 = k * pageSize
  kernelDirectory : m.kernelDirectory = k * pageSize
  ok : DirectoryOk m k
  pde : ∀ d, d ≠ scratchIndex → m.mem k d = m0.mem k d
  owned : role k = .kernel
  tableRole : ∀ d, d < 1023 → (m.mem k d).has pagePresent = true →
    role (frameOf (m.mem k d)) = .kernel
  used : ∀ x, role x ≠ .free → m.used x = true
  range : ∀ x i, (role x).owner = some i → 0 < x ∧ x < frameCount

/-- The frame a load has the scratch page mapped to. -/
def heldFrame (l : Load) (p : Own) : Option Nat :=
  match p.target with
  | none => none
  | some .draft => l.frame
  | some .top => l.topFrame

/-- The scratch page shows the frame of the load that has it. -/
structure Slot (m : Machine) (k : Nat) (load : ι → Load) (own : ι → Own) : Prop where
  free : (∀ i, (own i).target = none) → (m.mem k scratchIndex).has pagePresent = true →
    (m.mem (m.scratchTable k) 0).has pagePresent = false
  held : ∀ i, (own i).target ≠ none →
    ∃ f, heldFrame (load i) (own i) = some f ∧ Opened m k (m.scratchTable k) f
  alone : ∀ i j, (own i).target ≠ none → (own j).target ≠ none → i = j

structure Inv (m0 : Machine) (k : Nat) (final : ι → Own) (w : World ι) (own : ι → Own)
    (role : Nat → Role ι) : Prop where
  kernel : KernelKeeps m0 k w.machine role
  load : ∀ i, Private m0 k w.machine role i (w.load i) (own i)
  slot : Slot w.machine k w.load own
  rest : ∀ i, Own.run (roomOf m0 k) (w.load i).steps (own i) = some (final i)

variable {m0 m m' : Machine} {k dir : Nat} {role role' : Nat → Role ι} {i j : ι} {l : Load} {p : Own}

/-! ## What a step leaves to the other loads -/

/-- What a step of load `i` does not do. -/
structure Beyond (m m' : Machine) (role role' : Nat → Role ι) (i : ι) : Prop where
  mem : ∀ x j, j ≠ i → (role x).owner = some j → m'.mem x = m.mem x
  used : ∀ x, m.used x = true → m'.used x = true
  role : ∀ x j, j ≠ i → (role x).owner = some j → role' x = role x

/-- The frames of an address space are as they were. -/
def SpaceKept (m m' : Machine) (role role' : Nat → Role ι) (i : ι) : Prop :=
  ∀ x, (role x).space = some i → m'.mem x = m.mem x ∧ role' x = role x

/-- A page whose entry and contents are as they were. -/
theorem PageOk.of_entry {n f : Nat} {u : UserPage} (h : PageOk m role i dir n u f)
    (hp : (m'.mem dir (n / 1024)).has pagePresent = true)
    (hentry : m'.mem (frameOf (m'.mem dir (n / 1024))) (n % 1024) =
      m.mem (frameOf (m.mem dir (n / 1024))) (n % 1024))
    (hmem : m'.mem f = m.mem f) (howned : role' f = .page i n) : PageOk m' role' i dir n u f where
  pde := hp
  pte := by rw [hentry, h.pte]
  frame := by rw [hentry, h.frame]
  owned := howned
  user := by rw [hentry, h.user]
  writable := by rw [hentry, h.writable]
  bytes := by
    rw [hmem]
    exact h.bytes

theorem PageOk.congr {n f : Nat} {u : UserPage} (h : PageOk m role i dir n u f)
    (hk : SpaceKept m m' role role' i) (hdir : role dir = .directory i)
    (htable : role (frameOf (m.mem dir (n / 1024))) = .table i (n / 1024)) :
    PageOk m' role' i dir n u f := by
  have hrow : m'.mem dir = m.mem dir := (hk dir (by rw [hdir]; rfl)).1
  have hpage := hk f (by rw [h.owned]; rfl)
  have hentries : m'.mem (frameOf (m.mem dir (n / 1024))) = m.mem (frameOf (m.mem dir (n / 1024))) :=
    (hk _ (by rw [htable]; rfl)).1
  exact h.of_entry (by rw [hrow, h.pde]) (by rw [hrow, hentries]) hpage.1 (hpage.2.trans h.owned)

/-- The page table of a page of its own. -/
theorem SpaceOk.table_role {page : Nat → Option UserPage} (h : SpaceOk m0 k m role i dir page)
    {d : Nat} (hroom : roomOf m0 k d = true) (hd : d < 1023)
    (hp : (m.mem dir d).has pagePresent = true) :
    role (frameOf (m.mem dir d)) = .table i d ∧ (m.mem dir d).has pageUser = true ∧
      (m.mem dir d).has pageWritable = true := by
  rcases h.entry d hd hp with ⟨hshared, -⟩ | ⟨-, hrest⟩
  · rw [roomOf, (shared_spec hshared).1] at hroom
    cases hroom
  · exact hrest

theorem page_table_lt {n : Nat} (h : n < pageCount) : n / 1024 < 1023 := by
  rw [pageCount] at h
  omega

theorem SpaceOk.congr {page : Nat → Option UserPage} (h : SpaceOk m0 k m role i dir page)
    (hk : SpaceKept m m' role role' i) (hused : ∀ x, m.used x = true → m'.used x = true) :
    SpaceOk m0 k m' role' i dir page := by
  have hrow := hk dir (by rw [h.owned]; rfl)
  refine
    { owned := hrow.2.trans h.owned
      ok := ?_
      entry := fun d hd hp => ?_
      mapped := fun n u hu => ?_
      unmapped := fun n hn hroom hnone hp => ?_ }
  · exact h.ok.congr (fun x hx => .inl (hused x hx)) fun d => by rw [hrow.1]; exact ⟨rfl, rfl⟩
  · rw [hrow.1] at hp ⊢
    refine (h.entry d hd hp).imp_right fun ⟨hroom, htable, hflags⟩ => ⟨hroom, ?_, hflags⟩
    exact (hk _ (by rw [htable]; rfl)).2.trans htable
  · obtain ⟨hn, hroom, f, hpage⟩ := h.mapped n u hu
    have htable := (h.table_role hroom (page_table_lt hn) hpage.pde).1
    exact ⟨hn, hroom, f, hpage.congr hk h.owned htable⟩
  · rw [hrow.1] at hp ⊢
    have htable := (h.table_role hroom (page_table_lt hn) hp).1
    rw [(hk _ (by rw [htable]; rfl)).1]
    exact h.unmapped n hn hroom hnone hp

theorem TopOk.congr (h : TopOk m role i dir l p) (hok : SpaceOk m0 k m role i dir p.page)
    (hk : SpaceKept m m' role role' i) : TopOk m' role' i dir l p := by
  intro n hn
  obtain ⟨u, f, hu, hf, hpage⟩ := h n hn
  obtain ⟨hcount, hroom, -⟩ := hok.mapped n u hu
  have htable := (hok.table_role hroom (page_table_lt hcount) hpage.pde).1
  exact ⟨u, f, hu, hf, hpage.congr hk hok.owned htable⟩

theorem DraftOk.congr {f : Nat} {d : Draft} (h : DraftOk m0 k m f d) (hf : m'.mem f = m.mem f) :
    DraftOk m0 k m' f d := by
  cases d with
  | page bytes =>
    intro j b hj hb
    rw [hf]
    exact h j b hj hb
  | directory entries complete =>
    intro d hd
    rw [hf]
    exact h d hd

/-- Nothing a load owns is written. -/
theorem Private.kept (h : Private m0 k m role i l p)
    (hkept : ∀ x, (role x).owner = some i → m'.mem x = m.mem x ∧ role' x = role x)
    (hused : ∀ x, m.used x = true → m'.used x = true) : Private m0 k m' role' i l p where
  running := h.running
  holding := h.holding
  draft := h.draft.imp_right fun ⟨f, d, hf, hd, hrole, hok⟩ =>
    have hmine := hkept f (by rw [hrole]; rfl)
    ⟨f, d, hf, hd, hmine.2.trans hrole, hok.congr hmine.1⟩
  space := h.space.imp_right fun ⟨dir, hdir, hcreated, hok, htop⟩ =>
    have hspace : SpaceKept m m' role role' i := fun x hx => hkept x (Role.owner_of_space hx)
    ⟨dir, hdir, hcreated, hok.congr hspace hused, htop.congr hok hspace⟩

/-- The scratch page is mapped or unmapped. -/
theorem Private.retarget (h : Private m0 k m role i l p) (t : Option Target) :
    Private m0 k m role i { l with holding := t.isSome } { p with target := t } :=
  ⟨h.running, rfl, h.draft, h.space⟩

theorem Private.beyond (h : Private m0 k m role j l p) (hb : Beyond m m' role role' i)
    (hj : j ≠ i) : Private m0 k m' role' j l p :=
  h.kept (fun x hx => ⟨hb.mem x j hj hx, hb.role x j hj hx⟩) hb.used

end MeatySkeleton.Elf
