import MeatySkeleton.Lib.Run
import Mathlib.Algebra.Group.Nat.Defs
import Mathlib.Data.List.Basic
import Mathlib.Data.UInt
import Mathlib.Logic.Function.Basic

/-!
# Spin locks

`spinlock.c` and the interrupt flag of `interrupts.c`, one instruction a step, on
any number of processors. A processor runs one activation, the kernel code of a
task or an interrupt handler, and below it stand the ones it interrupted. The
flags of `spin_lock_irqsave` are kept until `interrupt_restore`; `spin_unlock`
may come long before that, also in the middle of the locks held, and
`scheduler_lock` is still held when the processor changes to another task.

An interrupt can come between the read of the flags and the `cli`. That it is
harmless is in `Point.Fits`: the flags read are still the processor's when the
handler has returned.
-/

namespace MeatySkeleton.Sync.SpinLock

open Function List Option Lib

/-- Where an activation is in `spin_lock_irqsave`: before `pushfl`, before `cli`,
before `xchgl`, in the loop of `pause`. -/
inductive Point where
  | outside
  | saving (lock : Nat)
  | disabling (lock : Nat) (flags : Bool)
  | exchanging (lock : Nat) (flags : Bool)
  | waiting (lock : Nat) (flags : Bool)
  deriving DecidableEq

/-- The IF bit of the flags to restore, and the lock they came with until it is
released. -/
structure Saved where
  lock : Option Nat
  flags : Bool

/-- Kernel code that an interrupt stopped. -/
structure Frame where
  point : Point
  saved : List Saved

structure Cpu where
  interruptFlag : Bool
  point : Point
  -- the newest first
  saved : List Saved
  interrupted : List Frame

/-- A task that is not running, from the switch on. -/
structure Parked where
  saved : List Saved
  interrupted : List Frame

variable {C : Type} [DecidableEq C]

/-- The words `locked`, the processors and the other tasks. -/
structure State (C : Type) where
  locked : Nat → UInt32
  cpu : C → Cpu
  parked : Nat → Parked

def State.setCpu (s : State C) (c : C) (cpu : Cpu) : State C :=
  { s with cpu := update s.cpu c cpu }

def State.setLocked (s : State C) (lock : Nat) (word : UInt32) : State C :=
  { s with locked := update s.locked lock word }

/-- The next instruction of `spin_lock_irqsave`. -/
def advance (s : State C) (c : C) : Option (State C) :=
  let cpu := s.cpu c
  match cpu.point with
  | .outside => none
  | .saving lock => some (s.setCpu c { cpu with point := .disabling lock cpu.interruptFlag })
  | .disabling lock flags =>
    some (s.setCpu c { cpu with interruptFlag := false, point := .exchanging lock flags })
  | .exchanging lock flags =>
    -- `atomic_exchange` writes 1 whatever it reads
    some ((s.setCpu c
      (if s.locked lock = 0 then
        { cpu with point := .outside, saved := ⟨some lock, flags⟩ :: cpu.saved }
      else { cpu with point := .waiting lock flags })).setLocked lock 1)
  | .waiting lock flags =>
    some (if s.locked lock ≠ 0 then s else s.setCpu c { cpu with point := .exchanging lock flags })

def locks (saved : List Saved) : List Nat := saved.filterMap Saved.lock

def Cpu.held (cpu : Cpu) : List Nat := locks cpu.saved

def Saved.release (lock : Nat) (e : Saved) : Saved :=
  if e.lock = some lock then ⟨none, e.flags⟩ else e

/-- `spin_unlock`; the flags that came with the lock are still to be restored. -/
def spinUnlock (s : State C) (c : C) (lock : Nat) : Option (State C) :=
  let cpu := s.cpu c
  if cpu.point = .outside ∧ lock ∈ cpu.held then
    some ((s.setCpu c { cpu with saved := cpu.saved.map (Saved.release lock) }).setLocked lock 0)
  else none

/-- `interrupt_restore` of the newest flags, once their lock is released. -/
def interruptRestore (s : State C) (c : C) : Option (State C) :=
  let cpu := s.cpu c
  match cpu.point, cpu.saved with
  | .outside, ⟨none, flags⟩ :: rest =>
    some (s.setCpu c { cpu with interruptFlag := flags, saved := rest })
  | _, _ => none

/-- An interrupt enters through its gate, which clears the flag. -/
def interrupt (s : State C) (c : C) : Option (State C) :=
  let cpu := s.cpu c
  if cpu.interruptFlag then
    some (s.setCpu c ⟨false, .outside, [], ⟨cpu.point, cpu.saved⟩ :: cpu.interrupted⟩)
  else none

/-- A handler that has restored what it saved returns to where the flag was set. -/
def interruptReturn (s : State C) (c : C) : Option (State C) :=
  let cpu := s.cpu c
  match cpu.point, cpu.saved, cpu.interrupted with
  | .outside, [], frame :: rest => some (s.setCpu c ⟨true, frame.point, frame.saved, rest⟩)
  | _, _, _ => none

/-- The switch to a parked task, with one lock held. That task releases the lock and
restores the flags the scheduler has chosen, then its own. -/
def switchTask (s : State C) (c : C) (slot : Nat) (flags : Bool) : Option (State C) :=
  let cpu := s.cpu c
  match cpu.point, cpu.saved with
  | .outside, ⟨some lock, _⟩ :: rest =>
    if locks rest = [] then
      let next := s.parked slot
      some { s.setCpu c
          { cpu with saved := ⟨some lock, flags⟩ :: next.saved, interrupted := next.interrupted } with
        parked := update s.parked slot ⟨rest, cpu.interrupted⟩ }
    else none
  | _, _ => none

inductive Action where
  | lock (lock : Nat)
  | advance
  | unlock (lock : Nat)
  | restore
  | setFlag (flag : Bool)
  | interrupt
  | interruptReturn
  | switch (slot : Nat) (flags : Bool)

def step (s : State C) : C × Action → Option (State C)
  | (c, .lock lock) =>
    if (s.cpu c).point = .outside then some (s.setCpu c { s.cpu c with point := .saving lock })
    else none
  | (c, .advance) => advance s c
  | (c, .unlock lock) => spinUnlock s c lock
  | (c, .restore) => interruptRestore s c
  | (c, .setFlag flag) =>
    -- `sti` and `cli` elsewhere in the kernel
    if (s.cpu c).point = .outside ∧ (s.cpu c).held = [] then
      some (s.setCpu c { s.cpu c with interruptFlag := flag })
    else none
  | (c, .interrupt) => interrupt s c
  | (c, .interruptReturn) => interruptReturn s c
  | (c, .switch slot flags) => switchTask s c slot flags

/-- Every lock is `SPINLOCK_INITIALIZER`, and no task has run. -/
def start (flag : C → Bool) : State C :=
  ⟨fun _ => 0, fun c => ⟨flag c, .outside, [], []⟩, fun _ => ⟨[], []⟩⟩

/-! ## Who holds what -/

/-- A lock's word is set while a processor holds it; `owner` is the one that does. -/
structure Owned (locked : Nat → UInt32) (held : C → List Nat) (owner : Nat → Option C) : Prop where
  word : ∀ lock, locked lock = 0 ↔ owner lock = none
  held : ∀ c lock, lock ∈ held c ↔ owner lock = some c

variable {locked : Nat → UInt32} {held : C → List Nat} {owner : Nat → Option C} {lock : Nat} {c : C}

omit [DecidableEq C] in
theorem Owned.spin (h : Owned locked held owner) (htaken : locked lock ≠ 0) :
    Owned (update locked lock 1) held owner := by
  refine ⟨fun l => ?_, h.held⟩
  have hl := h.word l
  grind [update_apply]

theorem Owned.take (h : Owned locked held owner) (hfree : locked lock = 0) (c : C) :
    Owned (update locked lock 1) (update held c (lock :: held c)) (update owner lock (some c)) := by
  have hnone : owner lock = none := (h.word lock).mp hfree
  refine ⟨fun l => ?_, fun d l => ?_⟩
  · have hl := h.word l
    grind [update_apply]
  · have hl := h.held d l
    grind [update_apply]

theorem Owned.release (h : Owned locked held owner) (hc : lock ∈ held c) :
    Owned (update locked lock 0) (update held c ((held c).filter (· ≠ lock)))
      (update owner lock none) := by
  have howner : owner lock = some c := (h.held c lock).mp hc
  refine ⟨fun l => ?_, fun d l => ?_⟩
  · have hl := h.word l
    grind [update_apply]
  · have hl := h.held d l
    grind [update_apply]

/-! ## The interrupt flag -/

/-- Flags to restore while a lock is still held have interrupts disabled. -/
def Nested : List Saved → Prop
  | [] => True
  | newest :: rest => (locks rest ≠ [] → newest.flags = false) ∧ Nested rest

/-- An activation at this point runs on with the flag and the saved flags given. -/
def Point.Fits (flag : Bool) (saved : List Saved) : Point → Prop
  | .outside | .saving _ => True
  | .disabling _ flags => flags = flag
  | .exchanging _ flags | .waiting _ flags => flag = false ∧ (locks saved ≠ [] → flags = false)

/-- It runs on with interrupts enabled. -/
structure Frame.Fits (f : Frame) : Prop where
  point : f.point.Fits true f.saved
  free : locks f.saved = []

structure Cpu.Inv (cpu : Cpu) : Prop where
  nested : Nested cpu.saved
  off : cpu.held ≠ [] → cpu.interruptFlag = false
  point : cpu.point.Fits cpu.interruptFlag cpu.saved
  interrupted : ∀ f ∈ cpu.interrupted, f.Fits

structure Parked.Inv (t : Parked) : Prop where
  free : locks t.saved = []
  interrupted : ∀ f ∈ t.interrupted, f.Fits

structure State.Inv (s : State C) : Prop where
  cpu : ∀ c, (s.cpu c).Inv
  parked : ∀ slot, (s.parked slot).Inv
  owned : ∃ owner, Owned s.locked (fun c => (s.cpu c).held) owner

variable {s t : State C}

/-- A step of one processor. -/
theorem State.Inv.change (h : s.Inv) {cpu : Cpu} {locked : Nat → UInt32} {parked : Nat → Parked}
    (hcpu : cpu.Inv) (hparked : ∀ slot, (parked slot).Inv)
    (howned : ∃ owner, Owned locked (update (fun d => (s.cpu d).held) c cpu.held) owner) :
    State.Inv ⟨locked, update s.cpu c cpu, parked⟩ := by
  have hheld : (fun d => (update s.cpu c cpu d).held) =
      update (fun d => (s.cpu d).held) c cpu.held := by
    funext d
    rw [update_apply, update_apply]
    exact apply_ite Cpu.held ..
  refine ⟨fun d => ?_, hparked, hheld ▸ howned⟩
  show Cpu.Inv (update s.cpu c cpu d)
  rw [update_apply]
  split
  · exact hcpu
  · exact h.cpu d

/-- The locks held stay the same. -/
theorem State.Inv.keep (h : s.Inv) {cpu : Cpu} (hcpu : cpu.Inv)
    (hheld : cpu.held = (s.cpu c).held) : (s.setCpu c cpu).Inv := by
  refine h.change hcpu h.parked ?_
  rw [hheld, update_eq_self c]
  exact h.owned

theorem locks_release (saved : List Saved) (lock : Nat) :
    locks (saved.map (Saved.release lock)) = (locks saved).filter (· ≠ lock) := by
  rw [locks, locks, filterMap_map, filter_filterMap]
  refine congrFun (congrArg _ (funext fun e => ?_)) saved
  rw [Function.comp_apply, Saved.release]
  cases he : e.lock <;> grind

variable {saved : List Saved}

theorem Nested.release (h : Nested saved) (lock : Nat) :
    Nested (saved.map (Saved.release lock)) := by
  induction saved with
  | nil => exact h
  | cons newest rest ih =>
    refine ⟨fun hne => ?_, ih h.2⟩
    have hflags : (newest.release lock).flags = newest.flags := by
      unfold Saved.release
      split <;> rfl
    refine hflags.trans (h.1 fun hnil => hne ?_)
    rw [locks_release, hnil, filter_nil]

theorem nested_of_free (h : locks saved = []) : Nested saved := by
  induction saved with
  | nil => trivial
  | cons newest rest ih =>
    have hrest : locks rest = [] := filterMap_eq_nil_iff.mpr fun e he =>
      filterMap_eq_nil_iff.mp h e (mem_cons_of_mem newest he)
    exact ⟨fun hne => absurd hrest hne, ih hrest⟩

theorem Cpu.Inv.outside {cpu : Cpu} (hp : cpu.point = .outside) (hnested : Nested cpu.saved)
    (hoff : cpu.held ≠ [] → cpu.interruptFlag = false) (hbelow : ∀ f ∈ cpu.interrupted, f.Fits) :
    cpu.Inv where
  nested := hnested
  off := hoff
  point := by
    rw [hp]
    trivial
  interrupted := hbelow

theorem advance_inv (h : s.Inv) (hs : advance s c = some t) : t.Inv := by
  obtain ⟨hnested, hoff, hpoint, hbelow⟩ := h.cpu c
  unfold advance at hs
  dsimp only at hs
  split at hs
  next => cases hs
  next l hp =>
    obtain rfl := some.inj hs
    exact h.keep ⟨hnested, hoff, rfl, hbelow⟩ rfl
  next l flags hp =>
    obtain rfl := some.inj hs
    rw [hp] at hpoint
    -- the flags read still are the processor's, so with a lock held they are off
    refine h.keep ⟨hnested, fun _ => rfl, ⟨rfl, fun hne => ?_⟩, hbelow⟩ rfl
    exact hpoint.trans (hoff hne)
  next l flags hp =>
    obtain rfl := some.inj hs
    rw [hp] at hpoint
    split
    next hfree =>
      refine h.change (.outside rfl ⟨hpoint.2, hnested⟩ (fun _ => hpoint.1) hbelow)
        h.parked ?_
      exact h.owned.imp' _ fun _ howned => howned.take hfree c
    next htaken =>
      have h' : (s.setLocked l 1).Inv :=
        ⟨h.cpu, h.parked, h.owned.imp fun _ howned => howned.spin htaken⟩
      exact h'.keep ⟨hnested, hoff, hpoint, hbelow⟩ rfl
  next l flags hp =>
    obtain rfl := some.inj hs
    rw [hp] at hpoint
    split
    next => exact h
    next => exact h.keep ⟨hnested, hoff, hpoint, hbelow⟩ rfl

theorem spinUnlock_inv (h : s.Inv) (hs : spinUnlock s c lock = some t) : t.Inv := by
  obtain ⟨hnested, hoff, hpoint, hbelow⟩ := h.cpu c
  rw [spinUnlock, ite_none_right_eq_some, some.injEq] at hs
  obtain ⟨⟨hp, hheld⟩, rfl⟩ := hs
  obtain ⟨owner, howned⟩ := h.owned
  refine h.change (.outside hp (hnested.release lock) (fun hne => hoff fun hnil => hne ?_)
    hbelow) h.parked ⟨update owner lock none, ?_⟩
  · rw [Cpu.held, locks_release, ← Cpu.held, hnil, filter_nil]
  · rw [Cpu.held, locks_release]
    exact howned.release hheld

theorem interruptRestore_inv (h : s.Inv) (hs : interruptRestore s c = some t) : t.Inv := by
  obtain ⟨hnested, hoff, hpoint, hbelow⟩ := h.cpu c
  unfold interruptRestore at hs
  dsimp only at hs
  split at hs
  next flags rest hp hsaved =>
    obtain rfl := some.inj hs
    rw [hsaved] at hnested
    refine h.keep (.outside hp hnested.2 hnested.1 hbelow) ?_
    rw [Cpu.held, Cpu.held, hsaved]
    rfl
  next => cases hs

theorem interrupt_inv (h : s.Inv) (hs : interrupt s c = some t) : t.Inv := by
  obtain ⟨hnested, hoff, hpoint, hbelow⟩ := h.cpu c
  rw [interrupt, ite_none_right_eq_some, some.injEq] at hs
  obtain ⟨hflag, rfl⟩ := hs
  -- the gate opens only where no lock is held
  have hnil : (s.cpu c).held = [] := by
    by_contra hne
    exact Bool.false_ne_true ((hoff hne).symm.trans hflag)
  refine h.keep (.outside rfl trivial (fun _ => rfl) ?_) hnil.symm
  intro f hf
  rcases mem_cons.mp hf with rfl | hf
  · exact ⟨hflag ▸ hpoint, hnil⟩
  · exact hbelow f hf

theorem interruptReturn_inv (h : s.Inv) (hs : interruptReturn s c = some t) : t.Inv := by
  obtain ⟨hnested, hoff, hpoint, hbelow⟩ := h.cpu c
  unfold interruptReturn at hs
  dsimp only at hs
  split at hs
  next f rest hp hsaved heq =>
    obtain rfl := some.inj hs
    rw [heq] at hbelow
    have hf : f.Fits := hbelow f mem_cons_self
    refine h.keep ⟨nested_of_free hf.free, fun hne => absurd hf.free hne, hf.point,
      fun g hg => hbelow g (mem_cons_of_mem f hg)⟩ ?_
    rw [Cpu.held, Cpu.held, hsaved]
    exact hf.free
  next => cases hs

theorem switchTask_inv {slot : Nat} {flags : Bool} (h : s.Inv)
    (hs : switchTask s c slot flags = some t) : t.Inv := by
  obtain ⟨hnested, hoff, hpoint, hbelow⟩ := h.cpu c
  unfold switchTask at hs
  dsimp only at hs
  split at hs
  next l old rest hp hsaved =>
    rw [ite_none_right_eq_some, some.injEq] at hs
    obtain ⟨hrest, rfl⟩ := hs
    obtain ⟨hfree, hnext⟩ := h.parked slot
    -- the lock goes over to the next task, so its holder is still this processor
    have hheld : (s.cpu c).held = [l] := by
      rw [Cpu.held, hsaved]
      exact congrArg (l :: ·) hrest
    have hkeeps : locks (⟨some l, flags⟩ :: (s.parked slot).saved) = [l] := congrArg (l :: ·) hfree
    refine h.change (.outside hp ⟨fun hne => absurd hfree hne, nested_of_free hfree⟩ (fun _ => ?_)
      hnext) (fun slot' => ?_) ?_
    · exact hoff (hheld ▸ cons_ne_nil l [])
    · rw [update_apply]
      split
      · exact ⟨hrest, hbelow⟩
      · exact h.parked slot'
    · rw [Cpu.held, hkeeps, ← hheld, update_eq_self c]
      exact h.owned
  next => cases hs

theorem step_inv {act : Action} (h : s.Inv) (hs : step s (c, act) = some t) : t.Inv := by
  obtain ⟨hnested, hoff, -, hbelow⟩ := h.cpu c
  cases act with
  | lock l =>
    rw [step, ite_none_right_eq_some, some.injEq] at hs
    obtain ⟨-, rfl⟩ := hs
    exact h.keep ⟨hnested, hoff, trivial, hbelow⟩ rfl
  | advance => exact advance_inv h hs
  | unlock l => exact spinUnlock_inv h hs
  | restore => exact interruptRestore_inv h hs
  | setFlag flag =>
    rw [step, ite_none_right_eq_some, some.injEq] at hs
    obtain ⟨⟨hp, hheld⟩, rfl⟩ := hs
    exact h.keep (.outside hp hnested (fun hne => absurd hheld hne) hbelow) rfl
  | interrupt => exact interrupt_inv h hs
  | interruptReturn => exact interruptReturn_inv h hs
  | switch slot flags => exact switchTask_inv h hs

omit [DecidableEq C] in
theorem start_inv (flag : C → Bool) : (start flag).Inv where
  cpu _ := .outside rfl trivial (fun hne => absurd rfl hne) fun f hf => by cases hf
  parked _ := ⟨rfl, fun f hf => by cases hf⟩
  owned := by
    refine ⟨fun _ => none, fun l => iff_of_true rfl rfl, fun c l => ?_⟩
    simp [start, Cpu.held, locks]

/-! ## Mutual exclusion -/

def Holds (s : State C) (c : C) (lock : Nat) : Prop := lock ∈ (s.cpu c).held

/-- Before an exchange or in the loop after it. -/
def Point.target : Point → Option Nat
  | .exchanging lock _ | .waiting lock _ => some lock
  | _ => none

/-- What the users of the locks rely on. -/
structure Safe (s : State C) : Prop where
  word : ∀ lock, s.locked lock ≠ 0 ↔ ∃ c, Holds s c lock
  unique : ∀ lock c d, Holds s c lock → Holds s d lock → c = d
  /-- No handler runs above an activation that holds a lock or waits for one. -/
  undisturbed : ∀ c, (s.cpu c).interruptFlag = true →
    (s.cpu c).held = [] ∧ (s.cpu c).point.target = none
  below : ∀ c, ∀ f ∈ (s.cpu c).interrupted, locks f.saved = [] ∧ f.point.target = none
  /-- Flags restored while an older lock is held leave interrupts off. -/
  inner : ∀ c newest rest, (s.cpu c).saved = newest :: rest → locks rest ≠ [] → newest.flags = false

theorem Point.target_of_fits {p : Point} (h : p.Fits true saved) :
    p.target = none := by
  cases p with
  | exchanging lock flags => exact absurd h.1.symm Bool.false_ne_true
  | waiting lock flags => exact absurd h.1.symm Bool.false_ne_true
  | _ => rfl

omit [DecidableEq C] in
theorem State.Inv.safe (h : s.Inv) : Safe s where
  word lock := by
    obtain ⟨owner, howned⟩ := h.owned
    rw [ne_eq, howned.word, ← ne_eq, ne_none_iff_exists']
    exact exists_congr fun c => (howned.held c lock).symm
  unique lock c d hc hd := by
    obtain ⟨owner, howned⟩ := h.owned
    exact some.inj (((howned.held c lock).mp hc).symm.trans ((howned.held d lock).mp hd))
  undisturbed c hflag := by
    have hpoint := (h.cpu c).point
    rw [hflag] at hpoint
    refine ⟨?_, Point.target_of_fits hpoint⟩
    by_contra hne
    exact Bool.false_ne_true (((h.cpu c).off hne).symm.trans hflag)
  below c f hf :=
    have hfits := (h.cpu c).interrupted f hf
    ⟨hfits.free, Point.target_of_fits hfits.point⟩
  inner c newest rest hsaved := by
    have hnested := (h.cpu c).nested
    rw [hsaved] at hnested
    exact hnested.1

/-- On any number of processors, with any interrupts and task switches between the
instructions, a lock has at most one holder and its word says whether it has one;
and no interrupt comes while a lock is held or waited for. -/
theorem spin_locks_exclude {flag : C → Bool} {acts : List (C × Action)}
    (hr : Run step (start flag) acts t) : Safe t := by
  refine State.Inv.safe (hr.invariant (start_inv flag) fun s act u h _ hs => ?_)
  rcases act with ⟨c, act⟩
  exact step_inv h hs

theorem spin_locks_exclude_once : ∃ t, Run step (start fun _ : Bool => true)
    [(false, .lock 0), (false, .advance), (false, .interrupt)] t ∧ Safe t :=
  exists_run (fun t => (t.cpu false).interrupted.map Frame.point = [.disabling 0 true])
    (by decide +kernel) fun _ hr _ => spin_locks_exclude hr

end MeatySkeleton.Sync.SpinLock
