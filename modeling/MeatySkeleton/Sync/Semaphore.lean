import MeatySkeleton.Sync.Blocking
import MeatySkeleton.Lib.Tally

/-!
# The counting semaphore

`semaphore.c` over the blocking machine. A signal adds its permit before it pops
a waiter, and the popped waiter competes for it with everybody else, so a waiter
may find the count at zero again.
-/

namespace MeatySkeleton.Sync

open Function List Lib Scheduler

/-- `semaphore->count`, a `size_t`. -/
abbrev Count := BitVec 32

def sizeMax : Count := 0xFFFFFFFF#32

/-- A pass through the loop of `semaphore_wait`. -/
def semaphoreWait (count : Count) (_current : TaskPtr) : Attempt Count :=
  if count ≠ 0#32 then .finish true (count - 1#32) else .wait

def semaphoreTryWait (count : Count) (_current : TaskPtr) : Option Count :=
  if count = 0#32 then none else some (count - 1#32)

/-- `semaphore_signal`, up to the pop. -/
def semaphoreSignal (count : Count) (_current : TaskPtr) : Option Count :=
  if count = sizeMax then none else some (count + 1#32)

def semaphoreOperations : Primitive Count :=
  ⟨semaphoreWait, semaphoreTryWait, semaphoreSignal⟩

def Event.isAcquired : Event → Bool
  | .acquired _ => true
  | .released _ => false

/-- Completed waits. -/
def waits (log : List Event) : Nat := log.countP Event.isAcquired

/-- Successful signals. -/
def signals (log : List Event) : Nat := log.countP fun e => !e.isAcquired

theorem log_acquired (log : List Event) (t : TaskPtr) :
    signals (.acquired t :: log) = signals log ∧ waits (.acquired t :: log) = waits log + 1 :=
  ⟨countP_cons_of_neg nofun, countP_cons_of_pos rfl⟩

theorem log_released (log : List Event) (t : TaskPtr) :
    signals (.released t :: log) = signals log + 1 ∧ waits (.released t :: log) = waits log :=
  ⟨countP_cons_of_pos rfl, countP_cons_of_neg nofun⟩

/-- The popped waiters that have not looked at the count again. -/
def pendingCount (s : World Count) : Nat :=
  tally (fun t => (s.pending t).toNat) (List.range s.taskCount)

/-- What a semaphore promises. -/
structure SemaphoreSound (initialCount : Count) (s : World Count) : Prop where
  permits : initialCount.toNat + signals s.log = waits s.log + s.obj.toNat
  wakeup : s.queue.head ≠ none → s.obj.toNat ≤ pendingCount s

/-- What every step keeps. -/
structure SemaphoreInv (initialCount : Count) (s : World Count) (l : List TaskPtr) : Prop where
  permits : initialCount.toNat + signals s.log = waits s.log + s.obj.toNat
  wakeup : l ≠ [] → s.obj.toNat ≤ pendingCount s

variable {initialCount : Count} {s s' : World Count} {l l' : List TaskPtr} {t : TaskPtr}

variable {count count' : Count}

theorem semaphoreWait_finish {ok : Bool}
    (h : semaphoreWait count t = .finish ok count') :
    ok = true ∧ count'.toNat + 1 = count.toNat := by
  unfold semaphoreWait at h
  split at h
  next hne =>
    obtain ⟨rfl, rfl⟩ := Attempt.finish.inj h
    exact ⟨rfl, by bv_omega⟩
  next => cases h

theorem semaphoreWait_wait {count : Count} (h : semaphoreWait count t = .wait) :
    count.toNat = 0 := by
  unfold semaphoreWait at h
  split at h
  next => cases h
  next hz =>
    rw [not_not.mp hz]
    rfl

theorem semaphoreTryWait_some (h : semaphoreTryWait count t = some count') :
    count'.toNat + 1 = count.toNat := by
  unfold semaphoreTryWait at h
  split at h
  next => cases h
  next hne =>
    obtain rfl := Option.some.inj h
    bv_omega

theorem semaphoreSignal_some (h : semaphoreSignal count t = some count') :
    count'.toNat = count.toNat + 1 := by
  unfold semaphoreSignal sizeMax at h
  split at h
  next => cases h
  next hne =>
    obtain rfl := Option.some.inj h
    bv_omega

/-- One task's flag changes. -/
theorem pendingCount_update {b : Bool} (ht : t < s.taskCount) (hc : s'.taskCount = s.taskCount)
    (hp : s'.pending = update s.pending t b) :
    pendingCount s' + (s.pending t).toNat = pendingCount s + b.toNat := by
  have htally := tally_update (fun u => (s.pending u).toNat) (fun u => (s'.pending u).toNat)
    (l := List.range s.taskCount) nodup_range (mem_range.mpr ht) (fun u _ hu => by
      show (s'.pending u).toNat = (s.pending u).toNat
      rw [hp, update_of_ne hu])
  have hb : s'.pending t = b := by rw [hp, update_self]
  unfold pendingCount
  rw [hc, htally, hb]

/-- A waiter that looks again is no longer counted. -/
theorem pendingCount_looked (ht : t < s.taskCount) (hc : s'.taskCount = s.taskCount)
    (hp : s'.pending = update s.pending t false) :
    pendingCount s ≤ pendingCount s' + 1 := by
  have h := pendingCount_update ht hc hp
  have hle : (s.pending t).toNat ≤ 1 := Bool.toNat_le _
  change pendingCount s' + (s.pending t).toNat = pendingCount s + 0 at h
  omega

theorem pendingCount_same (hc : s'.taskCount = s.taskCount) (hp : s'.pending = s.pending) :
    pendingCount s' = pendingCount s := by
  unfold pendingCount
  rw [hc, hp]

theorem SemaphoreInv.step (hi : BlockingInv s l) (h : SemaphoreInv initialCount s l)
    (hc : s'.taskCount = s.taskCount) (he : Effect semaphoreOperations s l s' l') :
    SemaphoreInv initialCount s' l' := by
  have hpermits := h.permits
  cases he with
  | quiet hobj hlog hpending =>
    refine ⟨?_, fun hne => ?_⟩
    · rw [hlog, hobj]
      exact hpermits
    · rw [hobj, pendingCount_same hc hpending]
      exact h.wakeup hne
  | refused t _ hatt _ _ =>
    have hok := (semaphoreWait_finish (t := t) hatt).1
    cases hok
  | acquired t ht hatt hlog hpending =>
    have hcount := (semaphoreWait_finish (t := t) hatt).2
    refine ⟨?_, fun hne => ?_⟩
    · rw [hlog, (log_acquired s.log t).1, (log_acquired s.log t).2]
      omega
    · have hle := h.wakeup hne
      have hlooked := pendingCount_looked ht hc hpending
      omega
  | taken t htry hlog hpending =>
    have hcount := semaphoreTryWait_some (t := t) htry
    refine ⟨?_, fun hne => ?_⟩
    · rw [hlog, (log_acquired s.log t).1, (log_acquired s.log t).2]
      omega
    · have hle := h.wakeup hne
      rw [pendingCount_same hc hpending]
      omega
  | enqueued t _ hatt hobj hlog _ =>
    have hzero := semaphoreWait_wait (t := t) hatt
    refine ⟨?_, fun _ => ?_⟩
    · rw [hlog, hobj]
      exact hpermits
    · rw [hobj, hzero]
      exact Nat.zero_le _
  | released t hrel hlog hpending =>
    have hcount := semaphoreSignal_some (t := t) hrel
    refine ⟨?_, fun hne => ?_⟩
    · rw [hlog, (log_released s.log t).1, (log_released s.log t).2]
      omega
    · cases l with
      | nil => exact absurd rfl hne
      | cons w l =>
        have hw : w ∈ w :: l := mem_cons_self
        have hle := h.wakeup (cons_ne_nil w l)
        have hone := pendingCount_update (hi.mem_lt hw) hc hpending
        -- the popped waiter was on the queue, so it was not counted before
        have hnot : s.pending w = false := by
          rw [World.pending, (hi.flag w).mpr hw, Bool.not_true, Bool.and_false]
        rw [hnot] at hone
        change pendingCount s' + 0 = pendingCount s + 1 at hone
        omega

/-- In every state of every run of any number of tasks. -/
theorem run_semaphoreSound {n : Nat} {initialCount : Count} {ls : List Label} {s : World Count}
    (hr : Run (step semaphoreOperations) (start n initialCount) ls s) :
    SemaphoreSound initialCount s := by
  have h0 : SemaphoreInv initialCount (start n initialCount) [] := by
    refine ⟨?_, fun hne => absurd rfl hne⟩
    show initialCount.toNat + 0 = 0 + initialCount.toNat
    omega
  obtain ⟨l, hi, h⟩ := run_keeps h0 (fun _ _ _ _ hi h hc he => h.step hi hc he) hr
  exact ⟨h.permits, fun hhead => h.wakeup (hi.head_isSome.mp hhead)⟩

/-- Three tasks queue up at count zero; two signals pop two of them, and a
newcomer takes one of the two permits. -/
def stolen : List Label :=
  [.dispatch 0, .dispatch 1, .dispatch 2, .dispatch 3, .call 1, .attempt 1, .handOver 1,
    .call 2, .attempt 2, .handOver 2, .call 3, .attempt 3, .handOver 3,
    .release 0, .wake 0, .release 0, .wake 0, .tryAcquire 0]

theorem run_semaphoreSound_stolen : ∃ s : World Count,
    exec (step semaphoreOperations) (fun _ _ => True) (start 4 0#32) stolen = some s ∧
      s.obj = 1#32 ∧ s.queue.head = some 3 ∧ SemaphoreSound 0#32 s :=
  exists_exec (fun s => s.obj = 1#32 ∧ s.queue.head = some 3) (by decide +kernel)
    fun _ hr ⟨hone, hhead⟩ => ⟨hone, hhead, run_semaphoreSound hr⟩

end MeatySkeleton.Sync
