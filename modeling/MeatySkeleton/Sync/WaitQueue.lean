import MeatySkeleton.Scheduler.State

/-!
# Wait queues

`wait_queue_t` is an intrusive list through the `wait_previous` and `wait_next`
fields of the tasks; `waiting_on` tells whether a task is on the queue (there is
one queue here, so it is a flag). The two list operations are shown to be the two
list edits, which is all the later modules use of the links.
-/

namespace MeatySkeleton.Sync

open Function Lib Scheduler

/-- The part of `task_t` that waiting uses. -/
structure Waiter where
  state : TaskState
  waitingOn : Bool
  waitPrevious : Option TaskPtr
  waitNext : Option TaskPtr
  deriving DecidableEq

/-- `wait_queue_t`, its lock aside. -/
structure WaitQueue where
  head : Option TaskPtr
  tail : Option TaskPtr
  count : Nat
  deriving DecidableEq

/-- `wait_queue_initialize`. -/
def waitQueueInitialize : WaitQueue := ⟨none, none, 0⟩

/-- Write to the record behind a task pointer. -/
def edit (tasks : TaskPtr → Waiter) (t : TaskPtr) (f : Waiter → Waiter) : TaskPtr → Waiter :=
  update tasks t (f (tasks t))

@[simp] theorem edit_self (tasks : TaskPtr → Waiter) (t : TaskPtr) (f : Waiter → Waiter) :
    edit tasks t f t = f (tasks t) := update_self ..

variable {f : Waiter → Waiter}

theorem edit_ne {tasks : TaskPtr → Waiter} {t u : TaskPtr} (h : u ≠ t) :
    edit tasks t f u = tasks u := update_of_ne h ..

/-- A field the write does not touch reads as before. -/
theorem edit_field {β : Type} {g : Waiter → β} {tasks : TaskPtr → Waiter} {t : TaskPtr}
    (h : ∀ k, g (f k) = g k) (u : TaskPtr) :
    g (edit tasks t f u) = g (tasks u) := by
  by_cases hu : u = t
  · subst hu
    rw [edit_self, h]
  · rw [edit_ne hu]

/-- A field after a write to it. -/
theorem edit_read {β : Type} {g : Waiter → β} {tasks : TaskPtr → Waiter} {t : TaskPtr}
    {v : β} (h : g (f (tasks t)) = v) :
    (fun u => g (edit tasks t f u)) = update (fun u => g (tasks u)) t v := by
  funext u
  by_cases hu : u = t
  · subst hu
    rw [edit_self, update_self, h]
  · rw [edit_ne hu, update_of_ne hu]

def Waiter.linked (previous next : Option TaskPtr) (k : Waiter) : Waiter :=
  { k with waitPrevious := previous, waitNext := next }
def Waiter.next (v : Option TaskPtr) (k : Waiter) : Waiter := { k with waitNext := v }
def Waiter.previous (v : Option TaskPtr) (k : Waiter) : Waiter := { k with waitPrevious := v }
def Waiter.popped (k : Waiter) : Waiter :=
  { k with waitPrevious := none, waitNext := none, waitingOn := false }

open Waiter (linked popped)

/-- `wait_queue_push_back`. -/
def waitQueuePushBack (tasks : TaskPtr → Waiter) (queue : WaitQueue) (t : TaskPtr) :
    (TaskPtr → Waiter) × WaitQueue :=
  let tasks := edit tasks t (linked queue.tail none)
  match queue.tail with
  | some last =>
    (edit tasks last (Waiter.next (some t)), ⟨queue.head, some t, queue.count + 1⟩)
  | none => (tasks, ⟨some t, some t, queue.count + 1⟩)

/-- The successor of a popped task becomes the first, if there is one. -/
def detachHead (tasks : TaskPtr → Waiter) (queue : WaitQueue) :
    Option TaskPtr → (TaskPtr → Waiter) × Option TaskPtr
  | some next => (edit tasks next (Waiter.previous none), queue.tail)
  | none => (tasks, none)

/-- `wait_queue_pop_front`. -/
def waitQueuePopFront (tasks : TaskPtr → Waiter) (queue : WaitQueue) :
    (TaskPtr → Waiter) × WaitQueue × Option TaskPtr :=
  match queue.head with
  | none => (tasks, queue, none)
  | some t =>
    let next := (tasks t).waitNext
    let r := detachHead tasks queue next
    (edit r.1 t popped, ⟨next, r.2, queue.count - 1⟩, some t)

def waitNextOf (tasks : TaskPtr → Waiter) (t : TaskPtr) : Option TaskPtr := (tasks t).waitNext
def waitPrevOf (tasks : TaskPtr → Waiter) (t : TaskPtr) : Option TaskPtr := (tasks t).waitPrevious

/-- The queue holds the tasks of `l`, in this order. -/
structure Queued (tasks : TaskPtr → Waiter) (queue : WaitQueue) (l : List TaskPtr) : Prop where
  list : DList (waitNextOf tasks) (waitPrevOf tasks) queue.head queue.tail l
  count : queue.count = l.length

variable {tasks tasks' : TaskPtr → Waiter} {queue : WaitQueue} {l : List TaskPtr} {t u : TaskPtr}

/-- Only the links matter. -/
theorem Queued.congr (h : Queued tasks queue l) (hnext : ∀ u, (tasks' u).waitNext = (tasks u).waitNext)
    (hprev : ∀ u, (tasks' u).waitPrevious = (tasks u).waitPrevious) : Queued tasks' queue l :=
  ⟨h.list.congr (fun u _ => hnext u) (fun u _ => hprev u), h.count⟩

theorem waitNextOf_linked (tasks : TaskPtr → Waiter) (t : TaskPtr) (p n : Option TaskPtr) :
    waitNextOf (edit tasks t (linked p n)) = update (waitNextOf tasks) t n :=
  edit_read (g := Waiter.waitNext) (f := linked p n) rfl

theorem waitPrevOf_linked (tasks : TaskPtr → Waiter) (t : TaskPtr) (p n : Option TaskPtr) :
    waitPrevOf (edit tasks t (linked p n)) = update (waitPrevOf tasks) t p :=
  edit_read (g := Waiter.waitPrevious) (f := linked p n) rfl

theorem waitNextOf_next (tasks : TaskPtr → Waiter) (t : TaskPtr) (v : Option TaskPtr) :
    waitNextOf (edit tasks t (Waiter.next v)) = update (waitNextOf tasks) t v :=
  edit_read (g := Waiter.waitNext) (f := Waiter.next v) rfl

theorem waitPrevOf_next (tasks : TaskPtr → Waiter) (t : TaskPtr) (v : Option TaskPtr) :
    waitPrevOf (edit tasks t (Waiter.next v)) = waitPrevOf tasks :=
  funext (edit_field (g := Waiter.waitPrevious) (f := Waiter.next v) fun _ => rfl)

theorem pushBack_links (tasks : TaskPtr → Waiter) (queue : WaitQueue) (t : TaskPtr) :
    waitNextOf (waitQueuePushBack tasks queue t).1 =
        link (update (waitNextOf tasks) t none) queue.tail (some t) ∧
      waitPrevOf (waitQueuePushBack tasks queue t).1 =
        update (waitPrevOf tasks) t queue.tail := by
  unfold waitQueuePushBack
  cases hq : queue.tail with
  | none => exact ⟨waitNextOf_linked .., waitPrevOf_linked ..⟩
  | some last =>
    refine ⟨?_, ?_⟩
    · rw [link_some, ← waitNextOf_linked tasks t (some last)]
      exact waitNextOf_next ..
    · rw [← waitPrevOf_linked tasks t (some last) none]
      exact waitPrevOf_next ..

/-- Pushing writes nothing but links. -/
theorem pushBack_keeps {β : Type} {g : Waiter → β} (hl : ∀ p n k, g (linked p n k) = g k)
    (hn : ∀ v k, g (Waiter.next v k) = g k) (tasks : TaskPtr → Waiter) (queue : WaitQueue)
    (t u : TaskPtr) : g ((waitQueuePushBack tasks queue t).1 u) = g (tasks u) := by
  unfold waitQueuePushBack
  cases queue.tail with
  | none => exact edit_field (hl _ _) u
  | some last => exact (edit_field (hn _) u).trans (edit_field (hl _ _) u)

/-- `wait_queue_push_back` appends. -/
theorem Queued.pushBack (h : Queued tasks queue l) (ht : t ∉ l) :
    Queued (waitQueuePushBack tasks queue t).1 (waitQueuePushBack tasks queue t).2 (l ++ [t]) := by
  obtain ⟨hn, hp⟩ := pushBack_links tasks queue t
  have hpush := h.list.pushBack ht
  refine ⟨?_, ?_⟩
  · rw [hn, hp]
    unfold waitQueuePushBack
    cases hq : queue.tail with
    | none => simpa [hq] using hpush
    | some last => simpa [hq] using hpush
  · have hcount : (waitQueuePushBack tasks queue t).2.count = queue.count + 1 := by
      unfold waitQueuePushBack
      cases queue.tail <;> rfl
    rw [hcount, h.count, List.length_append]
    rfl

theorem detachHead_keeps {β : Type} {g : Waiter → β} (hp : ∀ v k, g (Waiter.previous v k) = g k)
    (tasks : TaskPtr → Waiter) (queue : WaitQueue) (next : Option TaskPtr) (u : TaskPtr) :
    g ((detachHead tasks queue next).1 u) = g (tasks u) := by
  cases next with
  | none => rfl
  | some nx => exact edit_field (hp _) u

/-- What is left after the pop of the first task. -/
theorem popFront_some (h : queue.head = some t) : waitQueuePopFront tasks queue =
    (edit (detachHead tasks queue (tasks t).waitNext).1 t popped,
      ⟨(tasks t).waitNext, (detachHead tasks queue (tasks t).waitNext).2, queue.count - 1⟩,
      some t) := by
  rw [waitQueuePopFront, h]

/-- Popping writes no state, and clears the flag of the task it returns. -/
theorem popFront_keeps (tasks : TaskPtr → Waiter) (queue : WaitQueue) (u : TaskPtr) :
    ((waitQueuePopFront tasks queue).1 u).state = (tasks u).state ∧
      ((waitQueuePopFront tasks queue).1 u).waitingOn =
        ((tasks u).waitingOn && decide ((waitQueuePopFront tasks queue).2.2 ≠ some u)) := by
  cases hhead : queue.head with
  | none =>
    rw [waitQueuePopFront, hhead]
    simp
  | some t =>
    rw [popFront_some hhead]
    have hstate := detachHead_keeps (g := Waiter.state) (fun _ _ => rfl) tasks queue
      (tasks t).waitNext u
    have hwait := detachHead_keeps (g := Waiter.waitingOn) (fun _ _ => rfl) tasks queue
      (tasks t).waitNext u
    refine ⟨(edit_field (g := Waiter.state) (f := popped) (fun _ => rfl) u).trans hstate, ?_⟩
    by_cases hu : u = t
    · subst hu
      simp [popped]
    · have hne : some t ≠ some u := fun he => hu (Option.some.inj he).symm
      show (edit _ t popped u).waitingOn = ((tasks u).waitingOn && decide (some t ≠ some u))
      rw [edit_ne hu, hwait, decide_eq_true hne, Bool.and_true]

/-- `wait_queue_pop_front` takes the first task off. -/
theorem Queued.popFront (h : Queued tasks queue l) :
    (waitQueuePopFront tasks queue).2.2 = l.head? ∧
      Queued (waitQueuePopFront tasks queue).1 (waitQueuePopFront tasks queue).2.1 l.tail := by
  cases hhead : queue.head with
  | none =>
    have hnil : l = [] := by
      cases l with
      | nil => rfl
      | cons x xs =>
        have he := h.list.head_eq
        rw [hhead] at he
        cases he
    subst hnil
    rw [waitQueuePopFront, hhead]
    exact ⟨rfl, h⟩
  | some t =>
    obtain ⟨ys, rfl⟩ := h.list.head_split hhead
    have hlist : DList (waitNextOf tasks) (waitPrevOf tasks) queue.head queue.tail ([] ++ t :: ys) :=
      h.list
    obtain ⟨-, hprev, -, -⟩ := hlist.split
    change waitPrevOf tasks t = none at hprev
    have hn : waitNextOf tasks t = (tasks t).waitNext := rfl
    rw [popFront_some hhead]
    refine ⟨rfl, ?_, ?_⟩
    · have hnext' : ∀ y, y ≠ t →
          waitNextOf (edit (detachHead tasks queue (tasks t).waitNext).1 t popped) y =
            link (waitNextOf tasks) (waitPrevOf tasks t) (waitNextOf tasks t) y := by
        intro y hy
        rw [hprev, link_none]
        calc ((edit (detachHead tasks queue (tasks t).waitNext).1 t popped) y).waitNext
            = ((detachHead tasks queue (tasks t).waitNext).1 y).waitNext := by rw [edit_ne hy]
          _ = (tasks y).waitNext := detachHead_keeps (g := Waiter.waitNext) (fun _ _ => rfl) ..
      have hprev' : ∀ y, y ≠ t →
          waitPrevOf (edit (detachHead tasks queue (tasks t).waitNext).1 t popped) y =
            link (waitPrevOf tasks) (waitNextOf tasks t) (waitPrevOf tasks t) y := by
        intro y hy
        show ((edit (detachHead tasks queue (tasks t).waitNext).1 t popped) y).waitPrevious = _
        rw [edit_ne hy, hprev, hn]
        cases (tasks t).waitNext with
        | none => rfl
        | some nx => exact congrFun (edit_read (g := Waiter.waitPrevious) (f := Waiter.previous none) rfl) y
      have hlinks := hlist.remove hnext' hprev'
      rw [hprev, hn] at hlinks
      cases hnx : (tasks t).waitNext with
      | none =>
        rw [hnx] at hlinks
        exact hlinks
      | some nx =>
        rw [hnx] at hlinks
        exact hlinks
    · show queue.count - 1 = ys.length
      rw [h.count]
      rfl

end MeatySkeleton.Sync
