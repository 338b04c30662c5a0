import MeatySkeleton.Scheduler.State

/-!
# The sleep queue

`sleep_queue.c` keeps the sleeping tasks in an intrusive list, the earliest `wake_tick`
first. Insertion walks the list from the head and goes behind the tasks that are due
no later; both list operations are shown to be list edits, and insertion to keep the
order.
-/

namespace MeatySkeleton.Sync

open Function List Lib Scheduler

/-- `sleep_head`, `sleep_tail` and the sleep fields of the tasks. -/
structure SleepQueue where
  head : Option TaskPtr
  tail : Option TaskPtr
  next : TaskPtr → Option TaskPtr
  previous : TaskPtr → Option TaskPtr
  wakeTick : TaskPtr → Nat

/-- The loop of `sleep_queue_insert`: the first task from `current` on that is due later.
`none` means that `fuel` did not suffice. -/
def findLater (queue : SleepQueue) (wakeTick : Nat) : Nat → Option TaskPtr → Option (Option TaskPtr)
  | _, none => some none
  | 0, some _ => none
  | fuel + 1, some current =>
    if queue.wakeTick current ≤ wakeTick then findLater queue wakeTick fuel (queue.next current)
    else some (some current)

/-- `sleep_queue_insert`. -/
def sleepQueueInsert (fuel : Nat) (queue : SleepQueue) (task : TaskPtr) : Option SleepQueue :=
  let queue := { queue with
    previous := update queue.previous task none
    next := update queue.next task none }
  match queue.head with
  | none => some { queue with head := some task, tail := some task }
  | some _ =>
    (findLater queue (queue.wakeTick task) fuel queue.head).map fun
      | none =>
        { queue with
          previous := update queue.previous task queue.tail
          next := link queue.next queue.tail (some task)
          tail := some task }
      | some current =>
        { queue with
          next := link (update queue.next task (some current)) (queue.previous current)
            (some task)
          head := if (queue.previous current).isSome then queue.head else some task
          previous := update
            (update queue.previous task (queue.previous current)) current (some task) }

/-- `sleep_queue_remove_head`. -/
def sleepQueueRemoveHead (queue : SleepQueue) : SleepQueue × Option TaskPtr :=
  match queue.head with
  | none => (queue, none)
  | some task =>
    let head := queue.next task
    let previous := link queue.previous head none
    ({ queue with
      head := head
      tail := if head.isSome then queue.tail else none
      previous := update previous task none
      next := update queue.next task none }, some task)

/-- The links spell out the tasks of `l`, in the order of their wake ticks. -/
structure SleepQueue.Holds (queue : SleepQueue) (l : List TaskPtr) : Prop where
  list : DList queue.next queue.previous queue.head queue.tail l
  sorted : l.Pairwise fun a b => queue.wakeTick a ≤ queue.wakeTick b

variable {queue : SleepQueue} {l : List TaskPtr} {t : TaskPtr} {fuel : Nat}

/-- Where the walk over a part of the list ends. -/
theorem findLater_seg (queue : SleepQueue) (wakeTick : Nat) {next previous : TaskPtr → Option TaskPtr}
    (hnext : queue.next = next) :
    ∀ {l : List TaskPtr} {p : Option TaskPtr} {fuel : Nat}, Seg next previous p l none →
      l.length ≤ fuel → ∃ xs ys, l = xs ++ ys ∧
        findLater queue wakeTick fuel l.head? = some ys.head? ∧
        (∀ a ∈ xs, queue.wakeTick a ≤ wakeTick) ∧
        ∀ b, ys.head? = some b → wakeTick < queue.wakeTick b
  | [], _, fuel, _, _ => ⟨[], [], rfl, by cases fuel <;> rfl, nofun, nofun⟩
  | x :: l, _, 0, _, hfuel => absurd hfuel (Nat.not_succ_le_zero _)
  | x :: l, _, fuel + 1, ⟨_, hx, hrest⟩, hfuel => by
    rw [head?_cons, findLater]
    by_cases hdue : queue.wakeTick x ≤ wakeTick
    · obtain ⟨xs, ys, rfl, hfind, hxs, hys⟩ := findLater_seg queue wakeTick hnext hrest (Nat.le_of_succ_le_succ hfuel)
      rw [if_pos hdue, hnext, hx, Option.or_none]
      refine ⟨x :: xs, ys, rfl, hfind, fun a ha => ?_, hys⟩
      rcases mem_cons.mp ha with rfl | ha
      · exact hdue
      · exact hxs a ha
    · rw [if_neg hdue]
      refine ⟨[], x :: l, rfl, rfl, nofun, fun b hb => ?_⟩
      obtain rfl := Option.some.inj hb
      exact Nat.lt_of_not_le hdue

/-- A task between those that are due no later and those that are due later. -/
theorem sorted_insert {wake : TaskPtr → Nat} {xs ys : List TaskPtr}
    (h : (xs ++ ys).Pairwise fun a b => wake a ≤ wake b) (hxs : ∀ a ∈ xs, wake a ≤ wake t)
    (hys : ∀ b, ys.head? = some b → wake t < wake b) :
    (xs ++ t :: ys).Pairwise fun a b => wake a ≤ wake b := by
  obtain ⟨hxx, hyy, hxy⟩ := pairwise_append.mp h
  have hty : ∀ b ∈ ys, wake t ≤ wake b := by
    intro b hb
    cases ys with
    | nil => cases hb
    | cons y ys =>
      have hlt := hys y rfl
      rcases mem_cons.mp hb with rfl | hb
      · exact Nat.le_of_lt hlt
      · exact Nat.le_trans (Nat.le_of_lt hlt) ((pairwise_cons.mp hyy).1 b hb)
  refine pairwise_append.mpr ⟨hxx, pairwise_cons.mpr ⟨hty, hyy⟩, fun a ha b hb => ?_⟩
  rcases mem_cons.mp hb with rfl | hb
  · exact hxs a ha
  · exact hxy a ha b hb

/-- Insertion finds its place behind every task that is due no later. -/
theorem SleepQueue.Holds.insert (h : queue.Holds l) (ht : t ∉ l) (hfuel : l.length ≤ fuel) :
    ∃ queue' xs ys, sleepQueueInsert fuel queue t = some queue' ∧ l = xs ++ ys ∧
      queue'.Holds (xs ++ t :: ys) ∧ queue'.wakeTick = queue.wakeTick := by
  have hne : ∀ y ∈ l, y ≠ t := fun y hy => ne_of_mem_of_not_mem hy ht
  -- clearing the links of `t` is invisible to the list
  have hlist : DList (update queue.next t none) (update queue.previous t none)
      queue.head queue.tail l :=
    h.list.congr (fun y hy => update_of_ne (hne y hy) ..)
      fun y hy => update_of_ne (hne y hy) ..
  unfold sleepQueueInsert
  dsimp only
  split
  next hhead =>
    obtain rfl : l = [] := head?_eq_none_iff.mp (h.list.head_eq.symm.trans hhead)
    have hpush := hlist.pushBack ht
    rw [h.list.tail_eq] at hpush
    refine ⟨_, [], [], rfl, rfl, ⟨?_, pairwise_singleton ..⟩, rfl⟩
    simpa using hpush
  next first hhead =>
    obtain ⟨xs, ys, rfl, hfind, hxs, hys⟩ := findLater_seg
      { queue with
        previous := update queue.previous t none
        next := update queue.next t none }
      (queue.wakeTick t) rfl hlist.seg hfuel
    have hsorted := sorted_insert h.sorted hxs hys
    rw [← h.list.head_eq] at hfind
    rw [hfind, Option.map_some]
    cases ys with
    | nil =>
      have hpush := hlist.pushBack ht
      have htail : queue.tail.isSome := by
        have hsome := h.list.tail_eq
        rw [append_nil] at hsome
        cases hxs' : xs.getLast? with
        | none =>
          rw [getLast?_eq_none_iff] at hxs'
          rw [h.list.head_eq, hxs'] at hhead
          cases hhead
        | some y =>
          rw [hsome, hxs']
          rfl
      rw [if_pos htail, update_idem, append_nil] at hpush
      exact ⟨_, xs, [], rfl, rfl, ⟨hpush, hsorted⟩, rfl⟩
    | cons c ys =>
      refine ⟨_, xs, c :: ys, rfl, rfl, ⟨?_, hsorted⟩, rfl⟩
      exact hlist.insertBefore ht

/-- Removing the head. -/
theorem SleepQueue.Holds.removeHead (h : queue.Holds (t :: l)) :
    ∃ queue', sleepQueueRemoveHead queue = (queue', some t) ∧ queue'.Holds l ∧
      queue'.wakeTick = queue.wakeTick := by
  have hhead : queue.head = some t := h.list.head_eq
  have hlist : DList queue.next queue.previous queue.head queue.tail ([] ++ t :: l) := h.list
  obtain ⟨-, hprev, -, -⟩ := hlist.split
  unfold sleepQueueRemoveHead
  rw [hhead]
  refine ⟨_, rfl, ⟨?_, (pairwise_cons.mp h.sorted).2⟩, rfl⟩
  have hremove : DList (update queue.next t none)
      (update (link queue.previous (queue.next t) none) t none) _ _ ([] ++ l) :=
    hlist.remove (fun y hy => by rw [update_of_ne hy, hprev]; rfl)
      fun y hy => by rw [update_of_ne hy, hprev]; rfl
  rw [hprev] at hremove
  exact hremove

end MeatySkeleton.Sync
