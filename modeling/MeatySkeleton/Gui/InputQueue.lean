import MeatySkeleton.Lib.DropRing
import MeatySkeleton.Sync.Semaphore

/-!
# The input queue of the GUI

`gui/input.c`: keyboard and mouse drivers publish events, from any task or interrupt, into a
ring that the dispatcher task empties. A publisher counts its event in a semaphore after it has
released the queue, in a second critical section, and may then have to wake the dispatcher; the
dispatcher takes a token and then an event. `Input` has one step for each critical section, so
a run is an interleaving of them. `β` is what an event holds besides its type.
-/

namespace MeatySkeleton.Gui

open Lib Sync

/-- `gui_input_event_type_t`. -/
inductive InputEventType
  | mouseMove
  | mouseButtonDown
  | mouseButtonUp
  | keyDown
  | keyUp
  deriving DecidableEq

/-- `gui_input_event_t`. -/
structure InputEvent (β : Type) where
  type : InputEventType
  data : β
  deriving DecidableEq

/-- `GUI_INPUT_EVENT_BUFFER_SIZE`. -/
def inputEventBufferSize : Nat := 128

/-- The variables of the queue; the count of dropped events is a `uint32_t`. -/
structure InputQueue (β : Type) where
  events : DropRing (InputEvent β)
  droppedEvents : Nat

namespace InputQueue

variable {β : Type}

/-- `gui_input_next_index`. -/
def nextIndex (index : Nat) : Nat := (index + 1) &&& (inputEventBufferSize - 1)

/-- What a call of `gui_input_push` does with its event. -/
inductive Pushed
  | coalesced
  | full
  | queued
  deriving DecidableEq

/-- The critical section of `gui_input_push`. -/
def push (q : InputQueue β) (event : InputEvent β) : Pushed × InputQueue β :=
  let previousIndex := (q.events.writeIndex + 2 ^ 32 - 1) &&& (inputEventBufferSize - 1)
  if event.type = .mouseMove ∧ q.events.readIndex ≠ q.events.writeIndex ∧
      (q.events.slots previousIndex).type = .mouseMove then
    (.coalesced, { q with
      events.slots := Function.update q.events.slots previousIndex event })
  else
    match q.events.push nextIndex event with
    | (true, events) => (.queued, { q with events })
    | (false, _) => (.full, { q with droppedEvents := (q.droppedEvents + 1) % 2 ^ 32 })

/-- `gui_input_pop`. -/
def pop (q : InputQueue β) : Option (InputEvent β × InputQueue β) :=
  match q.events.pop nextIndex with
  | none => none
  | some (event, events) => some (event, { q with events })

end InputQueue

/-- Where the dispatcher task is. -/
inductive Dispatcher
  /-- Before its next look at the count, in `semaphore_wait`. -/
  | looking
  /-- Not running, until it is woken. -/
  | blocked
  /-- It has a token, and no event yet. -/
  | holding
  /-- In `gui_input_dispatch`. -/
  | dispatching
  deriving DecidableEq

/-- What became of a published event. -/
inductive Fate
  | kept
  | overwritten
  | dropped
  deriving DecidableEq

/-- The queue, its semaphore, the dispatcher, the calls of publishers under way, and, as a
record, the events published, the newest first, and those the dispatcher has received. -/
structure Input (β : Type) where
  queue : InputQueue β
  count : Count
  dispatcher : Dispatcher
  /-- Whether the dispatcher is on the wait queue of the semaphore. -/
  waiting : Bool
  /-- Calls that have queued an event and not signalled it yet. -/
  toSignal : Nat
  /-- Calls that have taken the dispatcher off the wait queue and not woken it yet. -/
  toWake : Nat
  published : List (InputEvent β × Fate)
  received : List (InputEvent β)

namespace Input

variable {β : Type}

/-- Mark the newest event that was not dropped as overwritten. -/
def overwriteNewest : List (InputEvent β × Fate) → List (InputEvent β × Fate)
  | [] => []
  | (event, .dropped) :: published => (event, .dropped) :: overwriteNewest published
  | (event, _) :: published => (event, .overwritten) :: published

inductive Label (β : Type)
  | push (event : InputEvent β)
  | signal
  | wake
  | look
  | pop
  | dispatched

/-- One critical section. -/
def step (s : Input β) : Label β → Option (Input β)
  | .push event =>
    let (pushed, queue) := s.queue.push event
    match pushed with
    | .coalesced =>
      some { s with queue, published := (event, .kept) :: overwriteNewest s.published }
    | .full => some { s with queue, published := (event, .dropped) :: s.published }
    | .queued => some { s with
        queue, toSignal := s.toSignal + 1, published := (event, .kept) :: s.published }
  | .signal =>
    if s.toSignal = 0 then none
    else
      match semaphoreSignal s.count 0 with
      | none => some { s with toSignal := s.toSignal - 1 }
      | some count => some { s with
          count
          toSignal := s.toSignal - 1
          waiting := false
          toWake := if s.waiting then s.toWake + 1 else s.toWake }
  | .wake =>
    if s.toWake = 0 then none
    else some { s with
      toWake := s.toWake - 1
      dispatcher := if s.dispatcher = .blocked then .looking else s.dispatcher }
  | .look =>
    if s.dispatcher ≠ .looking then none
    else
      match semaphoreWait s.count 0 with
      | .finish _ count => some { s with count, dispatcher := .holding }
      | .wait => some { s with dispatcher := .blocked, waiting := true }
  | .pop =>
    if s.dispatcher ≠ .holding then none
    else
      match s.queue.pop with
      | none => some { s with dispatcher := .looking }
      | some (event, queue) => some { s with
          queue, dispatcher := .dispatching, received := s.received ++ [event] }
  | .dispatched =>
    if s.dispatcher ≠ .dispatching then none else some { s with dispatcher := .looking }

/-- After `gui_input_initialize`. -/
def start (events : Nat → InputEvent β) : Input β :=
  ⟨⟨⟨events, 0, 0⟩, 0⟩, 0, .looking, false, 0, 0, [], []⟩

end Input

end MeatySkeleton.Gui
