import MeatySkeleton.Sync.SleepQueue
import MeatySkeleton.Lib.Run
import Mathlib.Data.List.Perm.Subperm

/-!
# Sleeping tasks and the timer

`task_sleep` on any number of CPUs and `sleep_queue_tick` in the timer interrupt. A step
is what is done in one go under `sleep_lock` or under `scheduler_lock`, or a scheduling
decision about a task that is not asleep. A task that goes to sleep takes two steps, as
it keeps `sleep_lock` until it is SLEEPING (`blocking`). The timer interrupt is handled by
one CPU with interrupts off, so there is one call of `sleep_queue_tick` at a time; it
gives the lock back before each wake.

`TickCall` records what the queue was at the start of a call, who came in since and who
was removed. The run queues are not part of this machine: any READY task may be
dispatched.
-/

namespace MeatySkeleton.Sync

open Function List Option Lib Scheduler

/-! ## The machine -/

/-- `timer_ms_to_ticks`. -/
def timerMsToTicks (frequency milliseconds : Nat) : Nat :=
  if frequency = 0 then 0
  else
    let ticks := milliseconds / 1000 * frequency % 2 ^ 64
    (ticks + (milliseconds % 1000 * frequency + 999) / 1000) % 2 ^ 64

/-- The `wake_tick` of a task that goes to sleep. -/
def wakeTickAfter (now delayTicks : Nat) : Nat :=
  let delayTicks := if delayTicks = 0 then 1 else delayTicks
  if 2 ^ 64 - 1 - now < delayTicks then 2 ^ 64 - 1 else now + delayTicks

/-- A task with its wake tick. -/
abbrev Entry := TaskPtr × Nat

/-- A call of `sleep_queue_tick` and what it saw. -/
structure TickCall where
  tick : Nat
  before : List Entry
  inserted : List Entry
  removed : List Entry

inductive Ticker where
  | idle
  | looping (call : TickCall)
  /-- About to call `scheduler_wake` for the task it removed. -/
  | waking (call : TickCall) (w : TaskPtr)

inductive SleepPhase where
  | outside
  /-- In the queue, still running and holding `sleep_lock`. -/
  | blocking
  /-- Switched out in `scheduler_block_current_wait`, or back from there. -/
  | asleep
  deriving DecidableEq

structure Sleepers where
  queue : SleepQueue
  state : TaskPtr → TaskState
  phase : TaskPtr → SleepPhase
  /-- Who holds `sleep_lock` between two steps. -/
  lockedBy : Option TaskPtr
  /-- `system_ticks`. -/
  ticks : Nat
  ticker : Ticker
  frequency : Nat
  taskCount : Nat

inductive SleepLabel where
  /-- `task_sleep` up to the hand-over; `now` is what `timer_ticks` returned. -/
  | sleep (t : TaskPtr) (now milliseconds : Nat)
  | handOver (t : TaskPtr)
  /-- The end of `task_sleep`. -/
  | resume (t : TaskPtr)
  | dispatch (t : TaskPtr)
  | preempt (t : TaskPtr)
  | block (t : TaskPtr)
  | unblock (t : TaskPtr)
  | exit (t : TaskPtr)
  | tick
  | pop
  | wake

/-- The task a label is about. -/
def SleepLabel.task : SleepLabel → Option TaskPtr
  | .sleep t _ _ | .handOver t | .resume t | .dispatch t | .preempt t | .block t | .unblock t
  | .exit t => some t
  | .tick | .pop | .wake => none

/-- The tasks in the sleep queue, found by following the links. -/
def Sleepers.sleepers (s : Sleepers) : List TaskPtr := follow s.queue.next s.taskCount s.queue.head

def SleepQueue.entries (queue : SleepQueue) (l : List TaskPtr) : List Entry :=
  l.map fun t => (t, queue.wakeTick t)

/-- Somebody came in during a call of `sleep_queue_tick`. -/
def Ticker.noteInserted (e : Entry) : Ticker → Ticker
  | .idle => .idle
  | .looping c => .looping { c with inserted := e :: c.inserted }
  | .waking c w => .waking { c with inserted := e :: c.inserted } w

def Sleepers.setState (s : Sleepers) (t : TaskPtr) (v : TaskState) : Sleepers :=
  { s with state := update s.state t v }

def Sleepers.goto (s : Sleepers) (t : TaskPtr) (p : SleepPhase) : Sleepers :=
  { s with phase := update s.phase t p }

def SleepQueue.setWakeTick (queue : SleepQueue) (t : TaskPtr) (wakeTick : Nat) : SleepQueue :=
  { queue with wakeTick := update queue.wakeTick t wakeTick }

/-- `task_sleep` up to its call of `scheduler_block_current_wait`. -/
def taskSleep (s : Sleepers) (t : TaskPtr) (now milliseconds : Nat) : Option Sleepers :=
  let wakeTick := wakeTickAfter now (timerMsToTicks s.frequency milliseconds)
  (sleepQueueInsert s.taskCount (s.queue.setWakeTick t wakeTick) t).map fun queue =>
    { s with
      queue
      phase := update s.phase t .blocking
      lockedBy := some t
      ticker := s.ticker.noteInserted (t, wakeTick) }

/-- `scheduler_block_current_wait`. -/
def blockSleeping (s : Sleepers) (t : TaskPtr) : Sleepers :=
  if s.state t ≠ .running then { s.goto t .asleep with lockedBy := none }
  else { (s.setState t .sleeping).goto t .asleep with lockedBy := none }

/-- `scheduler_wake`. -/
def wakeSleeper (s : Sleepers) (w : TaskPtr) : Sleepers :=
  if s.state w ≠ .blocked ∧ s.state w ≠ .sleeping then s else s.setState w .ready

/-- A pass through the loop of `sleep_queue_tick` up to the release of the lock. -/
def tickPass (s : Sleepers) (c : TickCall) : Sleepers :=
  match s.queue.head with
  | none => { s with ticker := .idle }
  | some first =>
    if c.tick < s.queue.wakeTick first then { s with ticker := .idle }
    else
      let (queue, removed) := sleepQueueRemoveHead s.queue
      match removed with
      | none => { s with queue }
      | some w =>
        { s with
          queue
          ticker := .waking { c with removed := c.removed ++ [(w, s.queue.wakeTick w)] } w }

def sleepStep (s : Sleepers) : SleepLabel → Option Sleepers
  | .sleep t now milliseconds =>
    if s.phase t = .outside ∧ s.state t = .running ∧ s.lockedBy = none ∧ milliseconds ≠ 0 then
      taskSleep s t now milliseconds
    else none
  | .handOver t => if s.phase t = .blocking then some (blockSleeping s t) else none
  | .resume t =>
    if s.phase t = .asleep ∧ s.state t = .running then
      some { s.goto t .outside with queue := s.queue.setWakeTick t 0 }
    else none
  | .dispatch t => if s.state t = .ready then some (s.setState t .running) else none
  | .preempt t =>
    -- interrupts are off while sleep_lock is held; task_sleep(0) is a preemption too
    if s.state t = .running ∧ s.lockedBy ≠ some t then some (s.setState t .ready) else none
  | .block t =>
    if s.state t = .running ∧ s.phase t = .outside then some (s.setState t .blocked) else none
  | .unblock t => if s.state t = .blocked then some (s.setState t .ready) else none
  | .exit t =>
    if s.state t = .running ∧ s.phase t = .outside then some (s.setState t .zombie) else none
  | .tick =>
    -- timer_handle_tick
    match s.ticker with
    | .idle =>
      let ticks := (s.ticks + 1) % 2 ^ 64
      some { s with ticks, ticker := .looping ⟨ticks, s.queue.entries s.sleepers, [], []⟩ }
    | _ => none
  | .pop =>
    match s.ticker with
    | .looping c => if s.lockedBy = none then some (tickPass s c) else none
    | _ => none
  | .wake =>
    match s.ticker with
    | .waking c w => some { wakeSleeper s w with ticker := .looping c }
    | _ => none

def Sleepers.step (s : Sleepers) (l : SleepLabel) : Option Sleepers :=
  if ∀ t, l.task = some t → t < s.taskCount then sleepStep s l else none

/-- `n` READY tasks and an empty queue. -/
def Sleepers.start (n frequency ticks : Nat) : Sleepers where
  queue := ⟨none, none, fun _ => none, fun _ => none, fun _ => 0⟩
  state := fun _ => .ready
  phase := fun _ => .outside
  lockedBy := none
  ticks := ticks
  ticker := .idle
  frequency := frequency
  taskCount := n

/-! ## The steps of the timer -/

theorem tick_cases {s s' : Sleepers} (h : sleepStep s .tick = some s') : s.ticker = .idle ∧
    s' = { s with
      ticks := (s.ticks + 1) % 2 ^ 64
      ticker := .looping ⟨(s.ticks + 1) % 2 ^ 64, s.queue.entries s.sleepers, [], []⟩ } := by
  dsimp only [sleepStep] at h
  split at h
  next hticker => exact ⟨hticker, (some.inj h).symm⟩
  next => cases h

theorem pop_cases {s s' : Sleepers} (h : sleepStep s .pop = some s') :
    ∃ c, s.ticker = .looping c ∧ s.lockedBy = none ∧ s' = tickPass s c := by
  dsimp only [sleepStep] at h
  split at h
  next c hticker =>
    obtain ⟨hlock, h⟩ := ite_none_right_eq_some.mp h
    exact ⟨c, hticker, hlock, (some.inj h).symm⟩
  next => cases h

theorem wake_cases {s s' : Sleepers} (h : sleepStep s .wake = some s') :
    ∃ c w, s.ticker = .waking c w ∧ s' = { wakeSleeper s w with ticker := .looping c } := by
  dsimp only [sleepStep] at h
  split at h
  next c w hticker => exact ⟨c, w, hticker, (some.inj h).symm⟩
  next => cases h

/-! ## The invariant -/

/-- The call that is going on. -/
def Ticker.call : Ticker → Option TickCall
  | .idle => none
  | .looping c | .waking c _ => some c

/-- What a call has done so far: nothing was removed early, and the queue of the start is
still there in its order, split between the removed and the queued. -/
structure CallOk (ticks : Nat) (entries : List Entry) (c : TickCall) : Prop where
  tick : c.tick = ticks
  due : ∀ e ∈ c.removed, e.2 ≤ c.tick
  order : c.before.Sublist (c.removed ++ entries)
  balance : (c.removed ++ entries).Perm (c.inserted ++ c.before)

/-- Where each task can be; `l` are the tasks in the queue. -/
structure SleepInv (s : Sleepers) (l : List TaskPtr) : Prop where
  holds : s.queue.Holds l
  bound : ∀ t ∈ l, t < s.taskCount
  queued : ∀ t ∈ l, (s.phase t = .blocking ∧ s.state t = .running) ∨
    (s.phase t = .asleep ∧ s.state t = .sleeping)
  blocking : ∀ t, s.phase t = .blocking → t ∈ l ∧ s.lockedBy = some t
  sleeping : ∀ t, s.state t = .sleeping → t ∈ l ∨ ∃ c, s.ticker = .waking c t
  waking : ∀ c w, s.ticker = .waking c w →
    w ∉ l ∧ s.state w = .sleeping ∧ s.phase w = .asleep ∧ s.queue.wakeTick w ≤ c.tick
  call : ∀ c, s.ticker.call = some c → CallOk s.ticks (s.queue.entries l) c

variable {s s' : Sleepers} {l : List TaskPtr} {t w : TaskPtr} {c : TickCall}

theorem SleepInv.length_le (h : SleepInv s l) : l.length ≤ s.taskCount := by
  have hsub : l.Subperm (List.range s.taskCount) :=
    subperm_of_subset h.holds.list.nodup fun t ht => mem_range.mpr (h.bound t ht)
  have hlength := hsub.length_le
  rwa [length_range] at hlength

theorem setState_self (s : Sleepers) (t : TaskPtr) (v : TaskState) : (s.setState t v).state t = v :=
  update_self ..

theorem setState_ne {u : TaskPtr} {v : TaskState} (h : u ≠ t) :
    (s.setState t v).state u = s.state u := update_of_ne h ..

/-- The links lead through the whole queue. -/
theorem SleepInv.sleepers (h : SleepInv s l) : s.sleepers = l :=
  h.holds.list.follow_eq h.length_le

/-- Only a running task is about to block. -/
theorem SleepInv.phase_ne (h : SleepInv s l) (hrun : s.state t ≠ .running) :
    s.phase t ≠ .blocking := by
  intro hphase
  rcases h.queued t (h.blocking t hphase).1 with ⟨-, hst⟩ | ⟨hp, -⟩
  · exact hrun hst
  · rw [hphase] at hp
    cases hp

theorem SleepInv.notMem (h : SleepInv s l) (hout : s.phase t = .outside) : t ∉ l := by
  intro hmem
  rcases h.queued t hmem with ⟨hphase, -⟩ | ⟨hphase, -⟩ <;> rw [hout] at hphase <;> cases hphase

/-- A scheduling decision about a task that is neither asleep nor about to be. -/
theorem SleepInv.scheduled (h : SleepInv s l) (hold : s.state t ≠ .sleeping) {v : TaskState}
    (hnew : v ≠ .sleeping) (hphase : s.phase t ≠ .blocking) : SleepInv (s.setState t v) l := by
  have hnot : t ∉ l := by
    intro hmem
    rcases h.queued t hmem with ⟨hp, -⟩ | ⟨-, hst⟩
    · exact hphase hp
    · exact hold hst
  refine { h with queued := ?queued, sleeping := ?sleeping, waking := ?waking }
  case queued =>
    intro u hu
    rw [setState_ne (ne_of_mem_of_not_mem hu hnot)]
    exact h.queued u hu
  case sleeping =>
    intro u hu
    by_cases hut : u = t
    · subst hut
      rw [setState_self] at hu
      exact absurd hu hnew
    · rw [setState_ne hut] at hu
      exact h.sleeping u hu
  case waking =>
    intro c w hw
    obtain ⟨hnotMem, hst, hasleep, hdue⟩ := h.waking c w hw
    have hne : w ≠ t := by
      rintro rfl
      exact hold hst
    exact ⟨hnotMem, (setState_ne hne).trans hst, hasleep, hdue⟩

theorem entries_congr {queue queue' : SleepQueue} (h : ∀ t ∈ l, queue'.wakeTick t = queue.wakeTick t) :
    queue'.entries l = queue.entries l :=
  map_congr_left fun t ht => by rw [h t ht]

theorem setWakeTick_ne {queue : SleepQueue} {u : TaskPtr} {wakeTick : Nat} (h : u ≠ t) :
    (queue.setWakeTick t wakeTick).wakeTick u = queue.wakeTick u :=
  update_of_ne h ..

theorem Holds.setWakeTick {queue : SleepQueue} (h : queue.Holds l) (hnot : t ∉ l) (wakeTick : Nat) :
    (queue.setWakeTick t wakeTick).Holds l where
  list := h.list
  sorted := by
    refine h.sorted.imp_of_mem fun {a b} ha hb hab => ?_
    rw [setWakeTick_ne (ne_of_mem_of_not_mem ha hnot),
      setWakeTick_ne (ne_of_mem_of_not_mem hb hnot)]
    exact hab

theorem setWakeTick_entries (queue : SleepQueue) (hnot : t ∉ l) (wakeTick : Nat) :
    (queue.setWakeTick t wakeTick).entries l = queue.entries l :=
  entries_congr fun _ hu => setWakeTick_ne (ne_of_mem_of_not_mem hu hnot)

theorem CallOk.inserted {ticks : Nat} {xs ys : List Entry} (h : CallOk ticks (xs ++ ys) c) (e : Entry) :
    CallOk ticks (xs ++ e :: ys) { c with inserted := e :: c.inserted } where
  tick := h.tick
  due := h.due
  order := by
    refine h.order.trans (List.Sublist.append_left ?_ _)
    exact List.Sublist.append_left (sublist_cons_self ..) _
  balance := by
    rw [← append_assoc]
    refine perm_middle.trans (List.Perm.cons e ?_)
    rw [append_assoc]
    exact h.balance

theorem noteInserted_call {ticker : Ticker} {e : Entry} (h : (ticker.noteInserted e).call = some c) :
    ∃ c₀, ticker.call = some c₀ ∧ c = { c₀ with inserted := e :: c₀.inserted } := by
  cases ticker with
  | idle => cases h
  | looping c₀ => exact ⟨c₀, rfl, (some.inj h).symm⟩
  | waking c₀ w => exact ⟨c₀, rfl, (some.inj h).symm⟩

theorem noteInserted_waking {ticker : Ticker} {e : Entry} (h : ticker.noteInserted e = .waking c w) :
    ∃ c₀, ticker = .waking c₀ w ∧ c.tick = c₀.tick := by
  cases ticker with
  | idle => cases h
  | looping c₀ => cases h
  | waking c₀ w =>
    obtain ⟨rfl, rfl⟩ := Ticker.waking.inj h
    exact ⟨c₀, rfl, rfl⟩

section

variable (h : SleepInv s l)

include h

/-- A running task enters the queue; the walk never runs out of fuel. -/
theorem SleepInv.taskSleep (ht : t < s.taskCount) (hout : s.phase t = .outside)
    (hrun : s.state t = .running) (hlock : s.lockedBy = none) (now milliseconds : Nat) :
    ∃ s' xs ys, taskSleep s t now milliseconds = some s' ∧ l = xs ++ ys ∧
      SleepInv s' (xs ++ t :: ys) ∧
      s'.queue.wakeTick t = wakeTickAfter now (timerMsToTicks s.frequency milliseconds) := by
  have hnot := h.notMem hout
  unfold Sync.taskSleep
  dsimp only
  generalize wakeTickAfter now (timerMsToTicks s.frequency milliseconds) = wakeTick
  obtain ⟨queue, xs, ys, hinsert, rfl, hholds, hwake⟩ :=
    (Holds.setWakeTick h.holds hnot wakeTick).insert hnot h.length_le
  rw [hinsert, map_some]
  have hself : queue.wakeTick t = wakeTick := by
    rw [hwake]
    exact update_self ..
  refine ⟨_, xs, ys, rfl, rfl, ?_, hself⟩
  have hmem : ∀ u, u ∈ xs ++ t :: ys ↔ u = t ∨ u ∈ xs ++ ys := fun u => by
    rw [mem_append, mem_cons, mem_append]
    exact or_left_comm
  have hnone : ∀ u, s.phase u ≠ .blocking := fun u hu => by
    have hheld := (h.blocking u hu).2
    rw [hlock] at hheld
    cases hheld
  constructor
  case holds => exact hholds
  case bound =>
    intro u hu
    rcases (hmem u).mp hu with rfl | hu
    · exact ht
    · exact h.bound u hu
  case queued =>
    intro u hu
    by_cases hut : u = t
    · subst hut
      exact .inl ⟨update_self .., hrun⟩
    · dsimp only
      rw [update_of_ne hut]
      exact h.queued u (((hmem u).mp hu).resolve_left hut)
  case blocking =>
    intro u hu
    by_cases hut : u = t
    · subst hut
      exact ⟨(hmem u).mpr (.inl rfl), rfl⟩
    · dsimp only at hu
      rw [update_of_ne hut] at hu
      exact absurd hu (hnone u)
  case sleeping =>
    intro u hu
    rcases h.sleeping u hu with hin | ⟨c, hc⟩
    · exact .inl ((hmem u).mpr (.inr hin))
    · right
      dsimp only
      rw [hc]
      exact ⟨_, rfl⟩
  case waking =>
    intro c w hw
    obtain ⟨c0, hw0, htick⟩ := noteInserted_waking hw
    obtain ⟨hnotMem, hst, hasleep, hdue⟩ := h.waking c0 w hw0
    have hne : w ≠ t := by
      rintro rfl
      rw [hout] at hasleep
      cases hasleep
    refine ⟨fun hin => ((hmem w).mp hin).elim hne hnotMem, hst, ?_, ?_⟩
    · exact (update_of_ne hne ..).trans hasleep
    · dsimp only
      rw [hwake, htick, setWakeTick_ne hne]
      exact hdue
  case call =>
    intro c hc
    obtain ⟨c0, hc0, rfl⟩ := noteInserted_call hc
    have hentries : queue.entries (xs ++ t :: ys) =
        s.queue.entries xs ++ (t, wakeTick) :: s.queue.entries ys := by
      have hrest : queue.entries (xs ++ ys) = s.queue.entries (xs ++ ys) := by
        rw [← setWakeTick_entries s.queue hnot wakeTick]
        exact entries_congr fun u _ => by rw [hwake]
      rw [SleepQueue.entries, map_append] at hrest ⊢
      rw [map_cons, hself]
      rw [SleepQueue.entries, map_append] at hrest
      obtain ⟨hxs, hys⟩ := append_inj hrest (by rw [length_map, length_map])
      rw [hxs, hys]
      rfl
    have hok := h.call c0 hc0
    rw [SleepQueue.entries, map_append] at hok
    dsimp only
    rw [hentries]
    exact hok.inserted _

/-- The queued task becomes SLEEPING, and `sleep_lock` is free again. -/
theorem SleepInv.handOver (hphase : s.phase t = .blocking) :
    SleepInv (blockSleeping s t) l := by
  obtain ⟨hmem, hheld⟩ := h.blocking t hphase
  have hrun : s.state t = .running := by
    rcases h.queued t hmem with ⟨-, hst⟩ | ⟨hp, -⟩
    · exact hst
    · rw [hphase] at hp
      cases hp
  rw [blockSleeping, if_neg (not_not_intro hrun)]
  refine { h with
    queued := ?queued, blocking := ?blocking, sleeping := ?sleeping, waking := ?waking }
  case queued =>
    intro u hu
    by_cases hut : u = t
    · subst hut
      exact .inr ⟨update_self .., update_self ..⟩
    · rcases h.queued u hu with ⟨hp, hst⟩ | ⟨hp, hst⟩
      · -- only the holder of the lock is about to block
        have hother := (h.blocking u hp).2
        rw [hheld] at hother
        exact absurd (some.inj hother).symm hut
      · exact .inr ⟨(update_of_ne hut ..).trans hp, (setState_ne hut).trans hst⟩
  case blocking =>
    intro u hu
    by_cases hut : u = t
    · subst hut
      have hasleep := update_self u SleepPhase.asleep s.phase
      rw [Sleepers.goto] at hu
      cases hasleep.symm.trans hu
    · have hp : s.phase u = .blocking := (update_of_ne hut ..).symm.trans hu
      have hother := (h.blocking u hp).2
      rw [hheld] at hother
      exact absurd (some.inj hother).symm hut
  case sleeping =>
    intro u hu
    by_cases hut : u = t
    · subst hut
      exact .inl hmem
    · exact h.sleeping u ((setState_ne hut).symm.trans hu)
  case waking =>
    intro c w hw
    obtain ⟨hnotMem, hst, hasleep, hdue⟩ := h.waking c w hw
    have hne : w ≠ t := fun he => hnotMem (he ▸ hmem)
    exact ⟨hnotMem, (setState_ne hne).trans hst, (update_of_ne hne ..).trans hasleep, hdue⟩

/-- A woken task leaves `task_sleep`. -/
theorem SleepInv.resume (hphase : s.phase t = .asleep)
    (hrun : s.state t = .running) :
    SleepInv { s.goto t .outside with queue := s.queue.setWakeTick t 0 } l := by
  have hnot : t ∉ l := by
    intro hmem
    rcases h.queued t hmem with ⟨hp, -⟩ | ⟨-, hst⟩
    · rw [hphase] at hp
      cases hp
    · rw [hrun] at hst
      cases hst
  refine { h with
    holds := Holds.setWakeTick h.holds hnot 0, queued := ?queued, blocking := ?blocking
    waking := ?waking, call := ?call }
  case queued =>
    intro u hu
    have hphase_eq : (s.goto t .outside).phase u = s.phase u :=
      update_of_ne (ne_of_mem_of_not_mem hu hnot) ..
    dsimp only
    rw [hphase_eq]
    exact h.queued u hu
  case blocking =>
    intro u hu
    by_cases hut : u = t
    · subst hut
      have hout := update_self u SleepPhase.outside s.phase
      cases hout.symm.trans hu
    · exact h.blocking u ((update_of_ne hut ..).symm.trans hu)
  case waking =>
    intro c w hw
    obtain ⟨hnotMem, hst, hasleep, hdue⟩ := h.waking c w hw
    have hne : w ≠ t := by
      rintro rfl
      have hst' : s.state w = .sleeping := hst
      rw [hrun] at hst'
      cases hst'
    refine ⟨hnotMem, hst, (update_of_ne hne ..).trans hasleep, ?_⟩
    show (s.queue.setWakeTick t 0).wakeTick w ≤ c.tick
    rw [setWakeTick_ne hne]
    exact hdue
  case call =>
    intro c hc
    dsimp only
    rw [setWakeTick_entries s.queue hnot]
    exact h.call c hc

/-- A call of `sleep_queue_tick` begins. -/
theorem SleepInv.tick (hidle : s.ticker = .idle) (ticks : Nat) :
    SleepInv { s with ticks, ticker := .looping ⟨ticks, s.queue.entries s.sleepers, [], []⟩ } l := by
  refine { h with sleeping := ?sleeping, waking := nofun, call := ?call }
  case sleeping =>
    intro u hu
    rcases h.sleeping u hu with hin | ⟨c, hc⟩
    · exact .inl hin
    · rw [hidle] at hc
      cases hc
  case call =>
    intro c hc
    obtain rfl := some.inj hc
    rw [h.sleepers]
    exact ⟨rfl, nofun, List.Sublist.refl _, List.Perm.refl _⟩

/-- A call of `sleep_queue_tick` ends. -/
theorem SleepInv.ended (hloop : s.ticker = .looping c) :
    SleepInv { s with ticker := .idle } l :=
  { h with
    sleeping := by
      intro u hu
      rcases h.sleeping u hu with hin | ⟨c', hc'⟩
      · exact .inl hin
      · rw [hloop] at hc'
        cases hc'
    waking := nofun
    call := nofun }

end

theorem CallOk.removed {ticks : Nat} {e : Entry} {entries : List Entry}
    (h : CallOk ticks (e :: entries) c) (hdue : e.2 ≤ c.tick) :
    CallOk ticks entries { c with removed := c.removed ++ [e] } where
  tick := h.tick
  due := by
    intro e' he'
    rcases mem_append.mp he' with hold | hnew
    · exact h.due e' hold
    · rw [mem_singleton.mp hnew]
      exact hdue
  order := by
    dsimp only
    rw [append_assoc]
    exact h.order
  balance := by
    dsimp only
    rw [append_assoc]
    exact h.balance

theorem tickPass_state (s : Sleepers) (c : TickCall) : (tickPass s c).state = s.state := by
  unfold tickPass
  split
  · rfl
  · split
    · rfl
    · dsimp only
      split <;> rfl

/-- A pass through the loop ends the call, or removes the first task. -/
theorem SleepInv.tickPass (h : SleepInv s l) (hloop : s.ticker = .looping c)
    (hlock : s.lockedBy = none) :
    (tickPass s c = { s with ticker := .idle } ∧ ∀ t ∈ l, c.tick < s.queue.wakeTick t) ∨
      ∃ w rest, l = w :: rest ∧ (tickPass s c).ticker =
        .waking { c with removed := c.removed ++ [(w, s.queue.wakeTick w)] } w ∧
        SleepInv (tickPass s c) rest := by
  have hcall := h.call c (by rw [hloop]; rfl)
  unfold Sync.tickPass
  split
  next hhead =>
    obtain rfl : l = [] := head?_eq_none_iff.mp (h.holds.list.head_eq.symm.trans hhead)
    exact .inl ⟨rfl, nofun⟩
  next first hhead =>
    obtain ⟨rest, rfl⟩ := h.holds.list.head_split hhead
    split
    next hlater =>
      left
      refine ⟨rfl, fun t ht => ?_⟩
      rcases mem_cons.mp ht with rfl | ht
      · exact hlater
      · exact Nat.lt_of_lt_of_le hlater ((pairwise_cons.mp h.holds.sorted).1 t ht)
    next hdue =>
      right
      obtain ⟨queue, hremove, hholds, hwake⟩ := h.holds.removeHead
      obtain ⟨hnot, -⟩ := nodup_cons.mp h.holds.list.nodup
      rw [hremove]
      refine ⟨first, rest, rfl, rfl, ?_⟩
      -- nobody holds the lock, so the first task is switched out
      obtain ⟨hasleep, hst⟩ : s.phase first = .asleep ∧ s.state first = .sleeping := by
        rcases h.queued first mem_cons_self with ⟨hp, -⟩ | hq
        · have hheld := (h.blocking first hp).2
          rw [hlock] at hheld
          cases hheld
        · exact hq
      constructor
      case holds => exact hholds
      case bound => exact fun u hu => h.bound u (mem_cons_of_mem _ hu)
      case queued => exact fun u hu => h.queued u (mem_cons_of_mem _ hu)
      case blocking =>
        intro u hu
        have hheld := (h.blocking u hu).2
        rw [hlock] at hheld
        cases hheld
      case sleeping =>
        intro u hu
        rcases h.sleeping u hu with hin | ⟨c', hc'⟩
        · rcases mem_cons.mp hin with rfl | hin
          · exact .inr ⟨_, rfl⟩
          · exact .inl hin
        · rw [hloop] at hc'
          cases hc'
      case waking =>
        intro c' w hw
        obtain ⟨rfl, rfl⟩ := Ticker.waking.inj hw
        dsimp only
        rw [hwake]
        exact ⟨hnot, hst, hasleep, Nat.le_of_not_lt hdue⟩
      case call =>
        intro c' hc'
        obtain rfl := some.inj hc'
        have hentries : queue.entries rest = s.queue.entries rest :=
          entries_congr fun u _ => by rw [hwake]
        dsimp only
        rw [hentries]
        exact hcall.removed (Nat.le_of_not_lt hdue)

/-- The removed task is made READY. -/
theorem SleepInv.wake (h : SleepInv s l) (hwaking : s.ticker = .waking c w) :
    wakeSleeper s w = s.setState w .ready ∧
      SleepInv { s.setState w .ready with ticker := .looping c } l := by
  obtain ⟨hnot, hst, hasleep, hdue⟩ := h.waking c w hwaking
  have hwakes : wakeSleeper s w = s.setState w .ready := by
    rw [wakeSleeper, hst, if_neg (by decide)]
  refine ⟨hwakes, ?_⟩
  refine { h with queued := ?queued, sleeping := ?sleeping, waking := nofun, call := ?call }
  case queued =>
    intro u hu
    have hsame : (s.setState w .ready).state u = s.state u :=
      setState_ne (ne_of_mem_of_not_mem hu hnot)
    dsimp only
    rw [hsame]
    exact h.queued u hu
  case sleeping =>
    intro u hu
    by_cases huw : u = w
    · subst huw
      cases (setState_self s u .ready).symm.trans hu
    · rcases h.sleeping u ((setState_ne huw).symm.trans hu) with hin | ⟨c', hc'⟩
      · exact .inl hin
      · rw [hwaking] at hc'
        exact absurd (Ticker.waking.inj hc').2.symm huw
  case call =>
    intro c' hc'
    obtain rfl := some.inj hc'
    exact h.call c (by rw [hwaking]; rfl)

/-! ## Runs -/

/-- Every step keeps the invariant. -/
theorem SleepInv.step (h : SleepInv s l) {a : SleepLabel} (hstep : s.step a = some s') :
    ∃ l', SleepInv s' l' := by
  obtain ⟨hbound, hstep⟩ := ite_none_right_eq_some.mp hstep
  cases a with
  | sleep t now milliseconds =>
    obtain ⟨⟨hout, hrun, hlock, -⟩, hstep⟩ := ite_none_right_eq_some.mp hstep
    obtain ⟨s1, xs, ys, hs1, -, hinv, -⟩ :=
      h.taskSleep (hbound t rfl) hout hrun hlock now milliseconds
    obtain rfl := some.inj (hs1.symm.trans hstep)
    exact ⟨_, hinv⟩
  | handOver t =>
    obtain ⟨hphase, hstep⟩ := ite_none_right_eq_some.mp hstep
    obtain rfl := some.inj hstep
    exact ⟨l, h.handOver hphase⟩
  | resume t =>
    obtain ⟨⟨hphase, hrun⟩, hstep⟩ := ite_none_right_eq_some.mp hstep
    obtain rfl := some.inj hstep
    exact ⟨l, h.resume hphase hrun⟩
  | dispatch t =>
    obtain ⟨hready, hstep⟩ := ite_none_right_eq_some.mp hstep
    obtain rfl := some.inj hstep
    exact ⟨l, h.scheduled (by simp [hready]) nofun (h.phase_ne (by simp [hready]))⟩
  | preempt t =>
    obtain ⟨⟨hrun, hlock⟩, hstep⟩ := ite_none_right_eq_some.mp hstep
    obtain rfl := some.inj hstep
    exact ⟨l, h.scheduled (by simp [hrun]) nofun fun hp => hlock (h.blocking t hp).2⟩
  | block t =>
    obtain ⟨⟨hrun, hout⟩, hstep⟩ := ite_none_right_eq_some.mp hstep
    obtain rfl := some.inj hstep
    exact ⟨l, h.scheduled (by simp [hrun]) nofun (by simp [hout])⟩
  | unblock t =>
    obtain ⟨hblocked, hstep⟩ := ite_none_right_eq_some.mp hstep
    obtain rfl := some.inj hstep
    exact ⟨l, h.scheduled (by simp [hblocked]) nofun (h.phase_ne (by simp [hblocked]))⟩
  | exit t =>
    obtain ⟨⟨hrun, hout⟩, hstep⟩ := ite_none_right_eq_some.mp hstep
    obtain rfl := some.inj hstep
    exact ⟨l, h.scheduled (by simp [hrun]) nofun (by simp [hout])⟩
  | tick =>
    obtain ⟨hticker, rfl⟩ := tick_cases hstep
    exact ⟨l, h.tick hticker _⟩
  | pop =>
    obtain ⟨c, hticker, hlock, rfl⟩ := pop_cases hstep
    rcases h.tickPass hticker hlock with ⟨hend, -⟩ | ⟨w, rest, -, -, hinv⟩
    · rw [hend]
      exact ⟨l, h.ended hticker⟩
    · exact ⟨rest, hinv⟩
  | wake =>
    obtain ⟨c, w, hticker, rfl⟩ := wake_cases hstep
    obtain ⟨hwakes, hinv⟩ := h.wake hticker
    rw [hwakes]
    exact ⟨l, hinv⟩

theorem SleepInv.start (n frequency ticks : Nat) : SleepInv (Sleepers.start n frequency ticks) [] where
  holds := ⟨dlist_nil, .nil⟩
  bound := nofun
  queued := nofun
  blocking := nofun
  sleeping := nofun
  waking := nofun
  call := nofun

/-- Every state a run reaches has its queue. -/
theorem SleepInv.run {n frequency ticks : Nat} {labels : List SleepLabel}
    (h : Run Sleepers.step (Sleepers.start n frequency ticks) labels s) : ∃ l, SleepInv s l :=
  h.invariant (I := fun s => ∃ l, SleepInv s l) ⟨[], .start n frequency ticks⟩
    fun _ _ _ ⟨_, hinv⟩ _ hstep => hinv.step hstep

/-- What a call of `sleep_queue_tick` has done when it ends: `entries` is what it left. -/
structure TickCall.Done (c : TickCall) (entries : List Entry) : Prop where
  /-- Nobody was removed early. -/
  removed : ∀ e ∈ c.removed, e.2 ≤ c.tick
  /-- Nobody who is due was left. -/
  left : ∀ e ∈ entries, c.tick < e.2
  /-- Who was there and who came in is removed or left, once. -/
  balance : (c.removed ++ entries).Perm (c.inserted ++ c.before)
  /-- The due tasks of the start were removed in queue order. -/
  order : (c.before.filter fun e => e.2 ≤ c.tick).Sublist c.removed
  /-- If nobody came in, the removed are exactly the due tasks of the start. -/
  quiet : c.inserted = [] → c.removed = c.before.filter fun e => e.2 ≤ c.tick

/-- What holds of the sleeping tasks between any two steps. -/
structure Sleepers.Kept (s : Sleepers) : Prop where
  /-- Consistent links, each task once, sorted by `wake_tick`. -/
  queue : s.queue.Holds s.sleepers
  /-- A sleeping task is in the queue, or about to be woken. -/
  sleeping : ∀ t, s.state t = .sleeping → t ∈ s.sleepers ∨ ∃ c, s.ticker = .waking c t
  /-- A task in the queue is asleep, or still on its way there and holds the lock. -/
  queued : ∀ t ∈ s.sleepers, s.state t = .sleeping ∨
    s.phase t = .blocking ∧ s.state t = .running ∧ s.lockedBy = some t
  /-- A task that is about to be woken is asleep, due and out of the queue. -/
  waking : ∀ c w, s.ticker = .waking c w →
    w ∉ s.sleepers ∧ s.state w = .sleeping ∧ s.queue.wakeTick w ≤ c.tick ∧ c.tick = s.ticks

/-- What the steps of `task_sleep` and of `sleep_queue_tick` do. -/
structure Sleepers.Steps (s : Sleepers) : Prop where
  /-- The walk of `sleep_queue_insert` ends. -/
  sleep : ∀ t now milliseconds, t < s.taskCount → s.phase t = .outside → s.state t = .running →
    s.lockedBy = none → milliseconds ≠ 0 → ∃ s', s.step (.sleep t now milliseconds) = some s' ∧
      (∃ xs ys, s.sleepers = xs ++ ys ∧ s'.sleepers = xs ++ t :: ys) ∧
      s'.queue.wakeTick t = wakeTickAfter now (timerMsToTicks s.frequency milliseconds)
  /-- A pass of the tick loop ends the call or takes the first task out. -/
  pop : ∀ c, s.ticker = .looping c → s.lockedBy = none → ∃ s', s.step .pop = some s' ∧
    ((s'.ticker = .idle ∧ s'.queue = s.queue ∧ c.Done (s.queue.entries s.sleepers)) ∨
      ∃ w, s.sleepers = w :: s'.sleepers ∧ s'.ticker =
        .waking { c with removed := c.removed ++ [(w, s.queue.wakeTick w)] } w)
  /-- The task taken out is made READY. -/
  wake : ∀ c w, s.ticker = .waking c w → ∃ s', s.step .wake = some s' ∧
    s'.ticker = .looping c ∧ s'.state = update s.state w .ready
  /-- Nothing else ends a sleep. -/
  asleep : ∀ a t s', s.step a = some s' → s.state t = .sleeping → s'.state t ≠ .sleeping →
    a = .wake ∧ ∃ c, s.ticker = .waking c t

/-- When nobody left is due, the call has done its work. -/
theorem CallOk.done {ticks : Nat} {entries : List Entry} (h : CallOk ticks entries c)
    (hleft : ∀ e ∈ entries, c.tick < e.2) : c.Done entries := by
  have hsplit : (c.removed ++ entries).filter (fun e => e.2 ≤ c.tick) = c.removed := by
    have hremoved : c.removed.filter (fun e => e.2 ≤ c.tick) = c.removed :=
      filter_eq_self.mpr fun e he => decide_eq_true (h.due e he)
    have hentries : entries.filter (fun e => e.2 ≤ c.tick) = [] :=
      filter_eq_nil_iff.mpr fun e he hdue =>
        Nat.not_le_of_lt (hleft e he) (of_decide_eq_true hdue)
    rw [filter_append, hremoved, hentries, append_nil]
  constructor
  case removed => exact h.due
  case left => exact hleft
  case balance => exact h.balance
  case order =>
    have hfilter := h.order.filter fun e => e.2 ≤ c.tick
    rwa [hsplit] at hfilter
  case quiet =>
    intro hnone
    have hperm := h.balance
    rw [hnone, nil_append] at hperm
    rw [h.order.eq_of_length hperm.length_eq.symm, hsplit]

theorem SleepInv.kept (h : SleepInv s l) : s.Kept where
  queue := by
    rw [h.sleepers]
    exact h.holds
  sleeping := by
    rw [h.sleepers]
    exact h.sleeping
  queued := by
    rw [h.sleepers]
    intro t ht
    rcases h.queued t ht with ⟨hp, hst⟩ | ⟨-, hst⟩
    · exact .inr ⟨hp, hst, (h.blocking t hp).2⟩
    · exact .inl hst
  waking := by
    rw [h.sleepers]
    intro c w hw
    obtain ⟨hnot, hst, -, hdue⟩ := h.waking c w hw
    exact ⟨hnot, hst, hdue, (h.call c (by rw [hw]; rfl)).tick⟩

/-- Only the wake of the removed task ends a sleep. -/
theorem SleepInv.asleep (h : SleepInv s l) {a : SleepLabel} (hstep : s.step a = some s')
    (hst : s.state t = .sleeping) (hend : s'.state t ≠ .sleeping) :
    a = .wake ∧ ∃ c, s.ticker = .waking c t := by
  obtain ⟨-, hstep⟩ := ite_none_right_eq_some.mp hstep
  have hother : ∀ {u v}, s.state u ≠ .sleeping → (s.setState u v).state t = .sleeping := by
    intro u v hu
    have hne : t ≠ u := by
      intro he
      rw [he] at hst
      exact hu hst
    rw [setState_ne hne]
    exact hst
  cases a with
  | sleep u now milliseconds =>
    obtain ⟨-, hstep⟩ := ite_none_right_eq_some.mp hstep
    obtain ⟨queue, -, rfl⟩ := map_eq_some_iff.mp hstep
    exact absurd hst hend
  | handOver u =>
    obtain ⟨hphase, hstep⟩ := ite_none_right_eq_some.mp hstep
    obtain rfl := some.inj hstep
    have hrun : s.state u = .running := by
      by_contra hrun
      exact h.phase_ne hrun hphase
    rw [blockSleeping, if_neg (not_not_intro hrun)] at hend
    exact absurd (hother (by simp [hrun])) hend
  | resume u =>
    obtain ⟨-, hstep⟩ := ite_none_right_eq_some.mp hstep
    obtain rfl := some.inj hstep
    exact absurd hst hend
  | dispatch u =>
    obtain ⟨hready, hstep⟩ := ite_none_right_eq_some.mp hstep
    obtain rfl := some.inj hstep
    exact absurd (hother (by simp [hready])) hend
  | preempt u =>
    obtain ⟨⟨hrun, -⟩, hstep⟩ := ite_none_right_eq_some.mp hstep
    obtain rfl := some.inj hstep
    exact absurd (hother (by simp [hrun])) hend
  | block u =>
    obtain ⟨⟨hrun, -⟩, hstep⟩ := ite_none_right_eq_some.mp hstep
    obtain rfl := some.inj hstep
    exact absurd (hother (by simp [hrun])) hend
  | unblock u =>
    obtain ⟨hblocked, hstep⟩ := ite_none_right_eq_some.mp hstep
    obtain rfl := some.inj hstep
    exact absurd (hother (by simp [hblocked])) hend
  | exit u =>
    obtain ⟨⟨hrun, -⟩, hstep⟩ := ite_none_right_eq_some.mp hstep
    obtain rfl := some.inj hstep
    exact absurd (hother (by simp [hrun])) hend
  | tick =>
    obtain ⟨-, rfl⟩ := tick_cases hstep
    exact absurd hst hend
  | pop =>
    obtain ⟨c, -, -, rfl⟩ := pop_cases hstep
    rw [tickPass_state] at hend
    exact absurd hst hend
  | wake =>
    refine ⟨rfl, ?_⟩
    obtain ⟨c, w, hticker, rfl⟩ := wake_cases hstep
    by_cases hw : t = w
    · exact ⟨c, by rw [hticker, hw]⟩
    · rw [(h.wake hticker).1] at hend
      exact absurd ((setState_ne hw).trans hst) hend

theorem step_of_task {a : SleepLabel} (h : a.task = none) : s.step a = sleepStep s a :=
  if_pos fun t ht => by
    rw [h] at ht
    cases ht

theorem SleepInv.steps (h : SleepInv s l) : s.Steps where
  sleep := by
    intro t now milliseconds ht hout hrun hlock hms
    obtain ⟨s', xs, ys, hs', rfl, hinv, hwake⟩ := h.taskSleep ht hout hrun hlock now milliseconds
    refine ⟨s', ?_, ⟨xs, ys, h.sleepers, hinv.sleepers⟩, hwake⟩
    have hguard : ∀ u, (SleepLabel.sleep t now milliseconds).task = some u → u < s.taskCount := by
      intro u hu
      obtain rfl := some.inj hu
      exact ht
    rw [Sleepers.step, if_pos hguard, sleepStep, if_pos ⟨hout, hrun, hlock, hms⟩, hs']
  pop := by
    intro c hloop hlock
    have hstep : s.step .pop = some (Sync.tickPass s c) := by
      rw [step_of_task rfl]
      simp only [sleepStep, hloop]
      exact if_pos hlock
    refine ⟨_, hstep, ?_⟩
    rw [h.sleepers]
    rcases h.tickPass hloop hlock with ⟨hend, hleft⟩ | ⟨w, rest, rfl, hticker, hinv⟩
    · left
      rw [hend]
      refine ⟨rfl, rfl, (h.call c (by rw [hloop]; rfl)).done fun e he => ?_⟩
      obtain ⟨u, hu, rfl⟩ := mem_map.mp he
      exact hleft u hu
    · right
      rw [hinv.sleepers]
      exact ⟨w, rfl, hticker⟩
  wake := by
    intro c w hwaking
    have hstep : s.step .wake = some { wakeSleeper s w with ticker := .looping c } := by
      rw [step_of_task rfl]
      simp only [sleepStep, hwaking]
    refine ⟨_, hstep, rfl, ?_⟩
    rw [(h.wake hwaking).1]
    rfl
  asleep := fun a t s' hstep => h.asleep hstep

/-- Every sleeper is in the queue until its tick has come, and the tick wakes the due. -/
theorem sleepers_kept {n frequency ticks : Nat} {labels : List SleepLabel}
    (h : Run Sleepers.step (Sleepers.start n frequency ticks) labels s) : s.Kept ∧ s.Steps := by
  obtain ⟨l, hinv⟩ := SleepInv.run h
  exact ⟨hinv.kept, hinv.steps⟩

/-- The second sleeper is due first. -/
theorem sleepers_kept_two_sleepers : ∃ s, Run Sleepers.step (Sleepers.start 2 100 0)
      [.dispatch 0, .sleep 0 0 25, .handOver 0, .dispatch 1, .sleep 1 0 5, .handOver 1, .tick,
        .pop, .wake, .pop] s ∧
    s.state 0 = .sleeping ∧ s.state 1 = .ready ∧ s.sleepers = [0] ∧ s.Kept ∧ s.Steps :=
  exists_run (fun s => s.state 0 = .sleeping ∧ s.state 1 = .ready ∧ s.sleepers = [0])
    (by decide +kernel)
    fun _ hr ⟨hsleeping, hready, hsleepers⟩ => ⟨hsleeping, hready, hsleepers, sleepers_kept hr⟩

end MeatySkeleton.Sync
