import MeatySkeleton.Cleanup.Lifecycle
import MeatySkeleton.Lib.RefCount

/-!
# Where an exited task can be

On the stack its CPU has not left, in the hands of a `task_internal_finish_switch`, in the
cleanup queue, with the reaper, or freed. The weights below count these places; for a task
that runs or has exited they add up to one, for every other task to none. The counters of
`task.c` are tallies of the same places.
-/

namespace MeatySkeleton.Cleanup

open Function Lib Scheduler

/-! ## Places -/

def Context.isTask (i : Nat) (t : Context) : Nat := if t = .task i then 1 else 0

/-- How many CPUs run on the stack of the task. -/
def Lifecycle.onStack (s : Lifecycle) (i : Nat) : Nat :=
  tally (fun cpu => (s.current cpu).isTask i) (List.range s.cpus)

/-- Whether this call is the one that hands the task over. -/
def Finish.handsOver (i : Nat) (f : Finish) : Nat :=
  if f.stage = .push ∨ f.stage = .check ∧ f.leftZombie = true then f.previous.isTask i else 0

def Lifecycle.leaving (s : Lifecycle) (i : Nat) : Nat := tally (Finish.handsOver i) s.finishes

def Reaper.holds (i : Nat) : Reaper → Nat
  | .popped t => t.isTask i
  | .detached id _ | .released id _ | .dropped id => one id i
  | _ => 0

/-- Freed by the reaper. -/
def Lifecycle.gone (s : Lifecycle) (i : Nat) : Nat :=
  if s.state (.task i) = .zombie ∧ s.allocated i = false then 1 else 0

def Lifecycle.places (s : Lifecycle) (l : List Context) (i : Nat) : Nat :=
  s.onStack i + s.leaving i + l.count (.task i) + s.reaper.holds i + s.gone i

/-- Running, or exited: the states of a task with a place. -/
def placed : TaskState → Nat
  | .running | .zombie => 1
  | _ => 0

def Finish.signals (f : Finish) : Nat := if f.stage = .signal then 1 else 0

/-- The task the reaper popped still counts as pending. -/
def Reaper.busy : Reaper → Nat
  | .waiting | .permitted => 0
  | _ => 1

/-- Freed, but still in `live_task_count`. -/
def Reaper.counted : Reaper → Nat
  | .freed => 1
  | _ => 0

/-- Freed, but not yet in `cleanup_total_reaped`. -/
def Reaper.unrecorded : Reaper → Nat
  | .freed | .uncounted => 1
  | _ => 0

/-- The reference to its process that the reaper took from the task. -/
def Reaper.processRef (p : Nat) : Reaper → Nat
  | .detached _ (some q) | .released _ (some q) => one q p
  | _ => 0

def Reaper.permit : Reaper → Nat
  | .permitted => 1
  | _ => 0

/-- What the reaper has already taken from the task it destroys. -/
def Lifecycle.Stripped (s : Lifecycle) : Reaper → Prop
  | .detached id _ => s.process id = none
  | .released id _ | .dropped id => s.process id = none ∧ s.space id = none
  | _ => True

/-- The invariant; `l` are the tasks in the cleanup queue. -/
structure Inv (s : Lifecycle) (l : List Context) : Prop where
  halted : s.halted = false
  queue : SQueue s.queue.next s.queue.head s.queue.tail l
  places : ∀ i, s.places l i = placed (s.state (.task i))
  running : ∀ i, s.state (.task i) = .running → s.onStack i = 1
  exited : ∀ t, s.state t = .zombie → ∃ i, t = .task i
  queued : ∀ t ∈ l, ∃ i, t = .task i
  pushing : ∀ f ∈ s.finishes, f.stage = .push → ∃ i, f.previous = .task i
  popped : ∀ t, s.reaper = .popped t → ∃ i, t = .task i
  permits : l.length = s.permits + tally Finish.signals s.finishes + s.reaper.permit
  pending : s.queue.pending = l.length + s.reaper.busy
  live : s.live = 2 * s.cpus + 1 + tally (fun i => if s.allocated i then 1 else 0)
    (List.range s.nextId) + s.reaper.counted
  fresh : ∀ i, s.nextId ≤ i → s.allocated i = false ∧ s.state (.task i) = .new
  known : ∀ i, s.allocated i = false → s.state (.task i) = .new ∨ s.state (.task i) = .zombie
  bare : ∀ i, s.allocated i = false → s.space i = none ∧ s.process i = none
  spaced : ∀ i, s.allocated i = true → s.space i = none →
    (∃ p, s.reaper = .released i p) ∨ s.reaper = .dropped i
  stripped : s.Stripped s.reaper
  spaceRefs : ∀ a, a ≠ s.kernelSpace →
    s.spaceRefs a = tally (holder s.space a) (List.range s.nextId)
  processRefs : ∀ p, s.immortal p = false →
    s.processRefs p = tally (holder s.process p) (List.range s.nextId) + s.reaper.processRef p
  liveThreads : ∀ p, s.liveThreads p = tally (holder s.process p) (List.range s.nextId)
  pushes : ∀ i, s.pushes i = l.count (.task i) + s.reaper.holds i + s.gone i
  reaps : ∀ i, s.reaps i = s.gone i
  totalReaped : s.queue.totalReaped + s.reaper.unrecorded = tally s.reaps (List.range s.nextId)

variable {s : Lifecycle} {l : List Context} {t : Context} {i : Nat} {cpu : Nat}

theorem isTask_self (i : Nat) : (Context.task i).isTask i = 1 := if_pos rfl

theorem isTask_ne (h : t ≠ .task i) : t.isTask i = 0 := if_neg h

/-- The CPUs on the stack of a task when one CPU changes its stack. -/
theorem onStack_switch (hcpu : cpu < s.cpus) (next : Context) :
    ({ s with current := update s.current cpu next } : Lifecycle).onStack i +
        (s.current cpu).isTask i = s.onStack i + next.isTask i := by
  have hupdate := tally_range_update (fun c => (s.current c).isTask i)
    (fun c => (update s.current cpu next c).isTask i) hcpu
    fun c hc => by rw [update_of_ne hc]
  rw [update_self] at hupdate
  exact hupdate

theorem onStack_pos (hcpu : cpu < s.cpus) (h : s.current cpu = .task i) : 1 ≤ s.onStack i := by
  have hle := le_tally (fun c => (s.current c).isTask i) (List.mem_range.mpr hcpu)
  rw [h, isTask_self] at hle
  exact hle

theorem placed_le (v : TaskState) : placed v ≤ 1 := by
  cases v <;> decide

/-- The task a CPU runs on is running or has exited, and is nowhere else. -/
theorem Inv.current (h : Inv s l) (hcpu : cpu < s.cpus) (ht : s.current cpu = .task i) :
    (s.state (.task i) = .running ∨ s.state (.task i) = .zombie) ∧ s.onStack i = 1 ∧
      s.leaving i + l.count (.task i) + s.reaper.holds i + s.gone i = 0 := by
  have hpos := onStack_pos hcpu ht
  have hplaces := h.places i
  have hle := placed_le (s.state (.task i))
  rw [Lifecycle.places] at hplaces
  refine ⟨?_, by omega, by omega⟩
  cases hst : s.state (.task i) with
  | running => exact .inl rfl
  | zombie => exact .inr rfl
  | _ =>
    rw [hst] at hplaces
    dsimp only [placed] at hplaces
    omega

/-- A task with a place other than a stack has exited, and has no other place. -/
theorem Inv.zombie (h : Inv s l)
    (hpos : 0 < s.leaving i + l.count (.task i) + s.reaper.holds i + s.gone i) :
    s.state (.task i) = .zombie ∧ s.onStack i = 0 ∧
      s.leaving i + l.count (.task i) + s.reaper.holds i + s.gone i = 1 := by
  have hplaces := h.places i
  have hle := placed_le (s.state (.task i))
  rw [Lifecycle.places] at hplaces
  refine ⟨?_, by omega, by omega⟩
  cases hst : s.state (.task i) with
  | zombie => rfl
  | running =>
    have hone := h.running i hst
    omega
  | _ =>
    rw [hst] at hplaces
    dsimp only [placed] at hplaces
    omega

/-- The reaper does not have a task that was never published. -/
theorem Inv.notHeld (h : Inv s l) (hnew : s.state (.task i) = .new) : s.reaper.holds i = 0 := by
  have hplaces := h.places i
  rw [Lifecycle.places, hnew] at hplaces
  dsimp only [placed] at hplaces
  omega

end MeatySkeleton.Cleanup
