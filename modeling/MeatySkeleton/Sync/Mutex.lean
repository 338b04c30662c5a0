import MeatySkeleton.Sync.Blocking

/-!
# The mutex

`mutex.c` over the blocking machine: `mutex_lock` competes again each time its
task runs, so between an unlock and the next pass of the popped waiter any other
task may take the mutex.
-/

namespace MeatySkeleton.Sync

open Option Lib Scheduler

/-- `mutex_t`, its wait queue aside. -/
structure Mutex where
  locked : Bool
  owner : Option TaskPtr
  deriving DecidableEq

/-- `mutex_initialize`. -/
def mutexInitialize : Mutex := ⟨false, none⟩

/-- A pass through the loop of `mutex_lock`. -/
def mutexLock (mutex : Mutex) (current : TaskPtr) : Attempt Mutex :=
  -- not recursive
  if mutex.locked && mutex.owner = some current then .finish false mutex
  else if !mutex.locked then .finish true ⟨true, some current⟩
  else .wait

def mutexTryLock (mutex : Mutex) (current : TaskPtr) : Option Mutex :=
  if mutex.locked then none else some ⟨true, some current⟩

/-- `mutex_unlock`, up to the pop. -/
def mutexUnlock (mutex : Mutex) (current : TaskPtr) : Option Mutex :=
  if !mutex.locked then none
  else if mutex.owner ≠ some current then none
  else some ⟨false, none⟩

def mutexOperations : Primitive Mutex := ⟨mutexLock, mutexTryLock, mutexUnlock⟩

/-! ## Holding -/

def Event.task : Event → TaskPtr
  | .acquired t | .released t => t

/-- `t` is between a successful lock and its unlock: that is its last operation. -/
def Holds (log : List Event) (t : TaskPtr) : Prop :=
  log.find? (fun e => e.task = t) = some (.acquired t)

theorem holds_cons (e : Event) (log : List Event) (u : TaskPtr) :
    Holds (e :: log) u ↔ if e.task = u then e = .acquired u else Holds log u := by
  unfold Holds
  rw [List.find?_cons]
  split
  next he => rw [if_pos (of_decide_eq_true he), some.injEq]
  next he => rw [if_neg (of_decide_eq_false he)]

theorem holds_acquired (log : List Event) (t u : TaskPtr) :
    Holds (.acquired t :: log) u ↔ u = t ∨ Holds log u := by
  rw [holds_cons]
  by_cases hu : t = u
  · subst hu
    simp [Event.task]
  · have hne : u ≠ t := Ne.symm hu
    simp [Event.task, hu, hne]

theorem holds_released (log : List Event) (t u : TaskPtr) :
    Holds (.released t :: log) u ↔ u ≠ t ∧ Holds log u := by
  rw [holds_cons]
  by_cases hu : t = u
  · subst hu
    simp [Event.task]
  · have hne : u ≠ t := Ne.symm hu
    simp [Event.task, hu, hne]

/-- What a mutex promises. -/
structure MutexSound (s : World Mutex) : Prop where
  exclusive : ∀ t u, Holds s.log t → Holds s.log u → t = u
  owner : ∀ t, Holds s.log t ↔ s.obj.owner = some t
  locked : s.obj.locked = true ↔ ∃ t, s.obj.owner = some t ∧ Holds s.log t
  /-- An unlock by any other task fails and changes nothing. -/
  unlock : ∀ t, ¬Holds s.log t →
    mutexUnlock s.obj t = none ∧ ∀ s', step mutexOperations s (.release t) = some s' → s' = s
  /-- While the mutex is free, a task that waits has a popped waiter ahead of it. -/
  wakeup : s.obj.locked = false → s.queue.head ≠ none → ∃ t, s.pending t = true ∧ s.AboutToRun t

/-- What every step keeps. -/
structure MutexInv (s : World Mutex) (l : List TaskPtr) : Prop where
  owner : ∀ t, Holds s.log t ↔ s.obj.owner = some t
  locked : s.obj.locked = s.obj.owner.isSome
  wakeup : s.obj.locked = false → l ≠ [] → ∃ t, s.pending t = true

variable {s s' : World Mutex} {l l' : List TaskPtr} {t : TaskPtr}

variable {mutex mutex' : Mutex}

theorem mutexLock_finish {ok : Bool}
    (h : mutexLock mutex t = .finish ok mutex') :
    (ok = false ∧ mutex' = mutex ∧ mutex.locked = true) ∨
      (ok = true ∧ mutex' = ⟨true, some t⟩ ∧ mutex.locked = false) := by
  unfold mutexLock at h
  split at h
  next hc =>
    obtain ⟨rfl, rfl⟩ := Attempt.finish.inj h
    exact .inl ⟨rfl, rfl, ((Bool.and_eq_true _ _).mp hc).1⟩
  next =>
    split at h
    next hfree =>
      obtain ⟨rfl, rfl⟩ := Attempt.finish.inj h
      exact .inr ⟨rfl, rfl, (Bool.not_eq_true' _).mp hfree⟩
    next => cases h

theorem mutexLock_wait {mutex : Mutex} (h : mutexLock mutex t = .wait) : mutex.locked = true := by
  cases hl : mutex.locked with
  | true => rfl
  | false =>
    unfold mutexLock at h
    rw [hl] at h
    cases h

theorem mutexTryLock_some (h : mutexTryLock mutex t = some mutex') :
    mutex' = ⟨true, some t⟩ ∧ mutex.locked = false := by
  unfold mutexTryLock at h
  split at h
  next => cases h
  next hfree => exact ⟨(some.inj h).symm, Bool.eq_false_iff.mpr hfree⟩

theorem mutexUnlock_some (h : mutexUnlock mutex t = some mutex') :
    mutex' = ⟨false, none⟩ ∧ mutex.owner = some t := by
  unfold mutexUnlock at h
  split at h
  next => cases h
  next =>
    split at h
    next => cases h
    next howner => exact ⟨(some.inj h).symm, not_not.mp howner⟩

/-- A task takes a free mutex. -/
theorem MutexInv.claimed (h : MutexInv s l) (hfree : s.obj.locked = false)
    (hobj : s'.obj = ⟨true, some t⟩) (hlog : s'.log = .acquired t :: s.log) :
    MutexInv s' l := by
  have hnone : s.obj.owner = none := by
    rw [h.locked] at hfree
    exact not_isSome_iff_eq_none.mp (Bool.eq_false_iff.mp hfree)
  refine ⟨fun u => ?_, ?_, ?_⟩
  · rw [hlog, holds_acquired, h.owner, hobj, hnone]
    show u = t ∨ none = some u ↔ some t = some u
    constructor
    · rintro (rfl | he)
      · rfl
      · cases he
    · intro he
      exact .inl (some.inj he).symm
  · rw [hobj]
    rfl
  · rw [hobj]
    exact nofun

/-- A locked mutex stays as it is: nothing is promised about wakeups. -/
theorem MutexInv.unchanged (h : MutexInv s l) (hlocked : s.obj.locked = true)
    (hobj : s'.obj = s.obj) (hlog : s'.log = s.log) : MutexInv s' l' := by
  refine ⟨fun u => ?_, ?_, fun hfree => ?_⟩
  · rw [hlog, hobj]
    exact h.owner u
  · rw [hobj]
    exact h.locked
  · rw [hobj, hlocked] at hfree
    cases hfree

theorem MutexInv.step (hi : BlockingInv s l) (h : MutexInv s l)
    (he : Effect mutexOperations s l s' l') : MutexInv s' l' := by
  cases he with
  | quiet hobj hlog hpending =>
    refine ⟨fun u => ?_, ?_, fun hfree hne => ?_⟩
    · rw [hlog, hobj]
      exact h.owner u
    · rw [hobj]
      exact h.locked
    · rw [hobj] at hfree
      rw [hpending]
      exact h.wakeup hfree hne
  | refused t _ hatt hlog _ =>
    rcases mutexLock_finish hatt with ⟨-, hobj, hlocked⟩ | ⟨hok, -, -⟩
    · exact h.unchanged hlocked hobj hlog
    · cases hok
  | acquired t _ hatt hlog _ =>
    rcases mutexLock_finish hatt with ⟨hok, -, -⟩ | ⟨-, hobj, hfree⟩
    · cases hok
    · exact h.claimed hfree hobj hlog
  | taken t htry hlog _ =>
    obtain ⟨hobj, hfree⟩ := mutexTryLock_some htry
    exact h.claimed hfree hobj hlog
  | enqueued t _ hatt hobj hlog _ => exact h.unchanged (mutexLock_wait hatt) hobj hlog
  | released t hrel hlog hpending =>
    obtain ⟨hobj, howner⟩ := mutexUnlock_some hrel
    refine ⟨fun u => ?_, ?_, fun _ hne => ?_⟩
    · rw [hlog, holds_released, h.owner, hobj, howner]
      show u ≠ t ∧ some t = some u ↔ none = some u
      constructor
      · rintro ⟨hut, he⟩
        exact absurd (some.inj he).symm hut
      · exact nofun
    · rw [hobj]
      rfl
    · -- the queue was not empty, so its first task is pending now
      cases l with
      | nil => exact absurd rfl hne
      | cons w l =>
        refine ⟨w, ?_⟩
        rw [hpending]
        exact Function.update_self ..

theorem MutexInv.sound (hi : BlockingInv s l) (h : MutexInv s l) : MutexSound s := by
  constructor
  · intro t u ht hu
    have ht' := (h.owner t).mp ht
    rw [(h.owner u).mp hu] at ht'
    exact (some.inj ht').symm
  · exact h.owner
  · rw [h.locked, isSome_iff_exists]
    constructor
    · rintro ⟨t, ht⟩
      exact ⟨t, ht, (h.owner t).mpr ht⟩
    · rintro ⟨t, ht, -⟩
      exact ⟨t, ht⟩
  · intro t ht
    have hother : s.obj.owner ≠ some t := fun he => ht ((h.owner t).mpr he)
    have hnone : mutexUnlock s.obj t = none := by
      unfold mutexUnlock
      rw [if_pos hother]
      split <;> rfl
    refine ⟨hnone, fun s' hs => ?_⟩
    have hrel : mutexOperations.release s.obj t = none := hnone
    rw [Sync.step, ite_none_right_eq_some] at hs
    obtain ⟨-, hs⟩ := hs
    dsimp only [taskStep] at hs
    rw [ite_none_right_eq_some, hrel] at hs
    exact (some.inj hs.2).symm
  · intro hfree hhead
    obtain ⟨t, ht⟩ := h.wakeup hfree (hi.head_isSome.mp hhead)
    exact ⟨t, ht, hi.pending ht⟩

/-- In every state of every run of any number of tasks. -/
theorem run_mutexSound {n : Nat} {ls : List Label} {s : World Mutex}
    (hr : Run (step mutexOperations) (start n mutexInitialize) ls s) : MutexSound s := by
  have h0 : MutexInv (start n mutexInitialize) [] :=
    ⟨fun t => by simp [start, Holds, mutexInitialize], rfl, fun _ hne => absurd rfl hne⟩
  obtain ⟨l, hi, h⟩ := run_keeps h0 (fun _ _ _ _ hi h _ he => h.step hi he) hr
  exact h.sound hi

/-- Task 0 locks, tasks 1 and 2 queue up, and task 0 unlocks: task 1 is popped and
not yet woken. -/
def contended : List Label :=
  [.dispatch 0, .dispatch 1, .dispatch 2, .tryAcquire 0, .call 1, .attempt 1, .handOver 1,
    .call 2, .attempt 2, .handOver 2, .release 0]

theorem run_mutexSound_contended : ∃ s : World Mutex,
    exec (step mutexOperations) (fun _ _ => True) (start 3 mutexInitialize) contended = some s ∧
      s.obj.locked = false ∧ s.queue.head = some 2 ∧ MutexSound s :=
  exists_exec (fun s => s.obj.locked = false ∧ s.queue.head = some 2) (by decide +kernel)
    fun _ hr ⟨hfree, hhead⟩ => ⟨hfree, hhead, run_mutexSound hr⟩

end MeatySkeleton.Sync
