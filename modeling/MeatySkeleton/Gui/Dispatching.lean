import MeatySkeleton.Gui.InputQueue

/-!
# What the dispatcher receives

The ring holds the events that are kept and not received yet, in the order in which they were
published. An event is signalled after it is queued, so the tokens of the semaphore, the one the
dispatcher holds and those that are still to come are together as many as the events in the
ring: a dispatcher that sleeps while there is one is about to be signalled or woken.
-/

namespace MeatySkeleton.Gui

open Function List Option Lib Sync

variable {β : Type}

namespace InputQueue

variable {q : InputQueue β} {l : List (InputEvent β)} {event : InputEvent β}

/-- The events in the ring, the oldest one first. -/
def contents (q : InputQueue β) : List (InputEvent β) := q.events.contents inputEventBufferSize

theorem and_mask (n : Nat) : n &&& (inputEventBufferSize - 1) = n % inputEventBufferSize :=
  Nat.and_two_pow_sub_one_eq_mod n 7

theorem nextIndex_eq (index : Nat) : nextIndex index = (index + 1) % inputEventBufferSize :=
  and_mask _

/-- The slot behind the write index has the newest event. -/
theorem previousIndex_eq (h : q.events.Holds inputEventBufferSize (l ++ [event])) :
    (q.events.writeIndex + 2 ^ 32 - 1) &&& (inputEventBufferSize - 1) =
      ringSlot inputEventBufferSize q.events.readIndex l.length := by
  have hstart := h.ring.start_lt
  rw [and_mask, h.write, length_append, length_singleton]
  unfold ringSlot inputEventBufferSize at *
  omega

/-- What a call of `gui_input_push` can do. -/
inductive PushCase (q : InputQueue β) (l : List (InputEvent β)) (event : InputEvent β) : Prop
  /-- It overwrites the newest event, if both are moves. -/
  | coalesced (queue : InputQueue β) (front : List (InputEvent β)) (previous : InputEvent β)
      (result : q.push event = (.coalesced, queue)) (split : l = front ++ [previous])
      (move : event.type = .mouseMove) (previousMove : previous.type = .mouseMove)
      (same : queue.droppedEvents = q.droppedEvents)
      (holds : queue.events.Holds inputEventBufferSize (front ++ [event]))
  /-- It counts the event as dropped. -/
  | full (queue : InputQueue β) (result : q.push event = (.full, queue))
      (counted : queue.droppedEvents = (q.droppedEvents + 1) % 2 ^ 32)
      (holds : queue.events.Holds inputEventBufferSize l)
  /-- It appends the event. -/
  | queued (queue : InputQueue β) (result : q.push event = (.queued, queue))
      (same : queue.droppedEvents = q.droppedEvents)
      (holds : queue.events.Holds inputEventBufferSize (l ++ [event]))

theorem push_cases (h : q.events.Holds inputEventBufferSize l) (event : InputEvent β) :
    PushCase q l event := by
  have hroom := h.room
  by_cases hcoalesce : event.type = .mouseMove ∧ q.events.readIndex ≠ q.events.writeIndex ∧
      (q.events.slots ((q.events.writeIndex + 2 ^ 32 - 1) &&&
        (inputEventBufferSize - 1))).type = .mouseMove
  · obtain ⟨hmove, hne, hprevious⟩ := hcoalesce
    obtain ⟨front, previous, rfl⟩ := eq_nil_or_concat' l |>.resolve_left
      fun hnil => hne (h.empty_iff.mpr hnil)
    have hresult : q.push event = (.coalesced, { q with
        events.slots := update q.events.slots
          (ringSlot inputEventBufferSize q.events.readIndex front.length) event }) := by
      unfold InputQueue.push
      dsimp only
      rw [if_pos ⟨hmove, hne, hprevious⟩, previousIndex_eq h]
    rw [previousIndex_eq h, h.ring.last] at hprevious
    exact .coalesced _ front previous hresult rfl hmove hprevious rfl (h.setLast event)
  · by_cases hfull : l.length + 1 = inputEventBufferSize
    · have hresult : q.push event =
          (.full, { q with droppedEvents := (q.droppedEvents + 1) % 2 ^ 32 }) := by
        unfold InputQueue.push
        dsimp only
        rw [if_neg hcoalesce, h.push_full nextIndex_eq hfull event]
      exact .full _ hresult rfl h
    · obtain ⟨events, hpush, hholds⟩ := h.push_room nextIndex_eq (by omega) event
      have hresult : q.push event = (.queued, { q with events }) := by
        unfold InputQueue.push
        dsimp only
        rw [if_neg hcoalesce, hpush]
      exact .queued _ hresult rfl hholds

end InputQueue

/-! ## What becomes of the events -/

namespace Input

/-- The events that are neither overwritten nor dropped, the oldest one first. -/
def keptOf : List (InputEvent β × Fate) → List (InputEvent β)
  | [] => []
  | (event, .kept) :: published => keptOf published ++ [event]
  | (_, _) :: published => keptOf published

/-- How many were dropped. -/
def droppedOf (published : List (InputEvent β × Fate)) : Nat :=
  published.countP fun p => p.2 = .dropped

/-- An event that is overwritten is a move, and so is the next event after it that was not
dropped, the one it was overwritten by. The type given is that of the next one after them all. -/
def Coalesced : Option InputEventType → List (InputEvent β × Fate) → Prop
  | _, [] => True
  | next, (_, .dropped) :: published => Coalesced next published
  | _, (event, .kept) :: published => Coalesced (some event.type) published
  | next, (event, .overwritten) :: published =>
    event.type = .mouseMove ∧ next = some .mouseMove ∧ Coalesced (some event.type) published

variable {published : List (InputEvent β × Fate)} {events front : List (InputEvent β)}
  {previous event : InputEvent β}

theorem Coalesced.next (h : Coalesced none published) (next : Option InputEventType) :
    Coalesced next published := by
  induction published with
  | nil => trivial
  | cons p published ih =>
    obtain ⟨event, fate⟩ := p
    cases fate with
    | kept => exact h
    | overwritten => exact absurd h.2.1 nofun
    | dropped => exact ih h

/-- The newest event that is kept is the one that is overwritten. -/
theorem Coalesced.overwriteNewest (h : Coalesced none published)
    (hkept : keptOf published = front ++ [previous]) (hprevious : previous.type = .mouseMove) :
    Coalesced (some .mouseMove) (overwriteNewest published) ∧
    keptOf (overwriteNewest published) = front ∧
    droppedOf (overwriteNewest published) = droppedOf published := by
  induction published with
  | nil => exact absurd hkept (by simp [keptOf])
  | cons p published ih =>
    obtain ⟨event, fate⟩ := p
    cases fate with
    | kept =>
      obtain ⟨hfront, hevent⟩ := append_inj' hkept rfl
      obtain rfl := (List.cons.inj hevent).1
      exact ⟨⟨hprevious, rfl, h⟩, hfront, rfl⟩
    | overwritten => exact absurd h.2.1 nofun
    | dropped =>
      obtain ⟨hcoalesced, hrest, hdropped⟩ := ih h hkept
      refine ⟨hcoalesced, hrest, ?_⟩
      unfold droppedOf at *
      show List.countP _ ((event, Fate.dropped) :: _) = List.countP _ ((event, Fate.dropped) :: _)
      rw [countP_cons, countP_cons, hdropped]

/-! ## Runs -/

/-- Whether the dispatcher has a token. -/
def held (s : Input β) : Nat := if s.dispatcher = .holding then 1 else 0

variable {s s' : Input β} {l : List (InputEvent β)} {label : Label β} {labels : List (Label β)}

theorem held_of_ne (h : s.dispatcher ≠ .holding) : s.held = 0 := if_neg h

structure Inv (s : Input β) (l : List (InputEvent β)) : Prop where
  holds : s.queue.events.Holds inputEventBufferSize l
  order : keptOf s.published = s.received ++ l
  coalesced : Coalesced none s.published
  dropped : s.queue.droppedEvents = droppedOf s.published % 2 ^ 32
  tokens : s.count.toNat + s.held + s.toSignal = l.length
  /-- The dispatcher is put on the wait queue when the count is zero. -/
  waiting : s.waiting = true → s.dispatcher = .blocked ∧ s.count.toNat = 0
  /-- A blocked one that has been taken off it is about to be woken. -/
  woken : s.dispatcher = .blocked → s.waiting = false → 0 < s.toWake
  waking : 0 < s.toWake → s.toWake = 1 ∧ s.dispatcher = .blocked ∧ s.waiting = false

theorem start_inv (events : Nat → InputEvent β) : (start events).Inv [] :=
  ⟨.empty (Nat.succ_pos 127) events, rfl, trivial, rfl, rfl, nofun, nofun, nofun⟩

section

variable (h : s.Inv l)

include h

theorem Inv.push (hs : s.step (.push event) = some s') : ∃ l', s'.Inv l' := by
  unfold step at hs
  dsimp only at hs
  cases InputQueue.push_cases h.holds event with
  | coalesced queue front previous hresult hsplit hmove hprevious hsame hholds =>
    subst hsplit
    rw [hresult] at hs
    obtain rfl := some.inj hs
    have hkept : keptOf s.published = (s.received ++ front) ++ [previous] := by
      rw [h.order, append_assoc]
    obtain ⟨hcoalesced, hfront, hdropped⟩ := h.coalesced.overwriteNewest hkept hprevious
    refine ⟨front ++ [event], hholds, ?_, ?_, ?_, ?_, h.waiting, h.woken, h.waking⟩
    · show keptOf (overwriteNewest s.published) ++ [event] = _
      rw [hfront, append_assoc]
    · show Coalesced (some event.type) _
      rw [hmove]
      exact hcoalesced
    · show queue.droppedEvents = droppedOf ((event, .kept) :: _) % 2 ^ 32
      rw [hsame, h.dropped, ← hdropped]
      rfl
    · have htokens := h.tokens
      rw [length_append] at htokens ⊢
      exact htokens
  | full queue hresult hcounted hholds =>
    rw [hresult] at hs
    obtain rfl := some.inj hs
    refine ⟨l, hholds, h.order, h.coalesced, ?_, h.tokens, h.waiting, h.woken, h.waking⟩
    show queue.droppedEvents = droppedOf ((event, .dropped) :: s.published) % 2 ^ 32
    rw [hcounted, h.dropped, Nat.mod_add_mod]
    unfold droppedOf
    rw [countP_cons_of_pos (by exact decide_eq_true rfl)]
  | queued queue hresult hsame hholds =>
    rw [hresult] at hs
    obtain rfl := some.inj hs
    refine ⟨l ++ [event], hholds, ?_, h.coalesced.next _, ?_, ?_, h.waiting, h.woken, h.waking⟩
    · show keptOf s.published ++ [event] = _
      rw [h.order, append_assoc]
    · exact hsame.trans h.dropped
    · have htokens := h.tokens
      rw [length_append]
      exact congrArg (· + 1) htokens

theorem Inv.signal (hs : s.step .signal = some s') : ∃ l', s'.Inv l' := by
  unfold step at hs
  dsimp only at hs
  have htokens := h.tokens
  have hroom := h.holds.room
  split at hs
  next => exact nomatch hs
  next hsignal =>
    split at hs
    next hmax =>
      -- the count is at most the number of events
      have hcount : s.count = sizeMax := by
        unfold semaphoreSignal at hmax
        split at hmax
        next hc => exact hc
        next => exact nomatch hmax
      rw [hcount] at htokens
      unfold inputEventBufferSize at hroom
      exact absurd hroom (by
        have : sizeMax.toNat = 2 ^ 32 - 1 := rfl
        omega)
    next count hcount =>
      have hcount := semaphoreSignal_some (t := 0) hcount
      obtain rfl := some.inj hs
      refine ⟨l, h.holds, h.order, h.coalesced, h.dropped, ?_, nofun, fun hblocked _ => ?_,
        fun hwake => ?_⟩
      · show count.toNat + s.held + (s.toSignal - 1) = _
        omega
      · dsimp only at hblocked ⊢
        by_cases hw : s.waiting = true
        · rw [if_pos hw]
          exact Nat.succ_pos _
        · rw [if_neg hw]
          exact h.woken hblocked (Bool.not_eq_true _ ▸ hw)
      · dsimp only at hwake ⊢
        by_cases hw : s.waiting = true
        · have hidle : s.toWake = 0 := by
            by_contra hne
            exact absurd (hw.symm.trans (h.waking (Nat.pos_of_ne_zero hne)).2.2) nofun
          rw [if_pos hw, hidle]
          exact ⟨rfl, (h.waiting hw).1, rfl⟩
        · rw [if_neg hw] at hwake ⊢
          exact ⟨(h.waking hwake).1, (h.waking hwake).2.1, rfl⟩

theorem Inv.wake (hs : s.step .wake = some s') : ∃ l', s'.Inv l' := by
  unfold step at hs
  dsimp only at hs
  split at hs
  next => exact nomatch hs
  next hwake =>
    obtain ⟨hone, hblocked, hwaiting⟩ := h.waking (Nat.pos_of_ne_zero hwake)
    have hheld : s.held = 0 := held_of_ne (by rw [hblocked]; exact nofun)
    rw [if_pos hblocked, hone] at hs
    obtain rfl := some.inj hs
    refine ⟨l, h.holds, h.order, h.coalesced, h.dropped, ?_, fun hw => ?_, nofun, nofun⟩
    · show s.count.toNat + 0 + s.toSignal = _
      rw [← hheld]
      exact h.tokens
    · exact absurd (hwaiting.symm.trans hw) nofun

theorem Inv.look (hs : s.step .look = some s') : ∃ l', s'.Inv l' := by
  unfold step at hs
  dsimp only at hs
  split at hs
  next => exact nomatch hs
  next hlooking =>
    rw [ne_eq, not_not] at hlooking
    have hwaiting : s.waiting = false := by
      rw [← Bool.not_eq_true]
      exact fun hw => nomatch hlooking.symm.trans (h.waiting hw).1
    have hheld : s.held = 0 := held_of_ne (by rw [hlooking]; exact nofun)
    have htokens := h.tokens
    have hidle : ¬0 < s.toWake := fun hpos => nomatch hlooking.symm.trans (h.waking hpos).2.1
    split at hs
    next ok count hwait =>
      have hcount := (semaphoreWait_finish (t := 0) hwait).2
      obtain rfl := some.inj hs
      refine ⟨l, h.holds, h.order, h.coalesced, h.dropped, ?_, ?_, nofun,
        fun hpos => absurd hpos hidle⟩
      · show count.toNat + 1 + s.toSignal = _
        omega
      · exact fun hw => absurd (hwaiting.symm.trans hw) nofun
    next hwait =>
      have hzero := semaphoreWait_wait (t := 0) hwait
      obtain rfl := some.inj hs
      refine ⟨l, h.holds, h.order, h.coalesced, h.dropped, ?_, fun _ => ⟨rfl, hzero⟩, nofun,
        fun hpos => absurd hpos hidle⟩
      show s.count.toNat + 0 + s.toSignal = _
      omega

theorem Inv.pop (hs : s.step .pop = some s') : ∃ l', s'.Inv l' := by
  unfold step at hs
  dsimp only at hs
  split at hs
  next => exact nomatch hs
  next hholding =>
    rw [ne_eq, not_not] at hholding
    have hheld : s.held = 1 := if_pos hholding
    have hwaiting : s.waiting = false := by
      rw [← Bool.not_eq_true]
      exact fun hw => nomatch hholding.symm.trans (h.waiting hw).1
    have htokens := h.tokens
    cases l with
    | nil =>
      -- a token held stands for an event in the ring
      rw [length_nil] at htokens
      omega
    | cons event l =>
      obtain ⟨events, hpop, hholds⟩ := h.holds.pop_cons InputQueue.nextIndex_eq
      rw [InputQueue.pop, hpop] at hs
      obtain rfl := some.inj hs
      refine ⟨l, hholds, ?_, h.coalesced, h.dropped, ?_, ?_, nofun, fun hpos => ?_⟩
      · show keptOf s.published = (s.received ++ [event]) ++ l
        rw [h.order, append_assoc]
        rfl
      · rw [length_cons] at htokens
        show s.count.toNat + 0 + s.toSignal = l.length
        omega
      · exact fun hw => absurd (hwaiting.symm.trans hw) nofun
      · exact nomatch hholding.symm.trans (h.waking hpos).2.1

theorem Inv.dispatched (hs : s.step .dispatched = some s') : ∃ l', s'.Inv l' := by
  unfold step at hs
  dsimp only at hs
  split at hs
  next => exact nomatch hs
  next hdispatching =>
    rw [ne_eq, not_not] at hdispatching
    obtain rfl := some.inj hs
    have hheld : s.held = 0 := held_of_ne (by rw [hdispatching]; exact nofun)
    refine ⟨l, h.holds, h.order, h.coalesced, h.dropped, ?_, fun hw => ?_, nofun, fun hpos => ?_⟩
    · show s.count.toNat + 0 + s.toSignal = _
      rw [← hheld]
      exact h.tokens
    · exact nomatch hdispatching.symm.trans (h.waiting hw).1
    · exact nomatch hdispatching.symm.trans (h.waking hpos).2.1

theorem Inv.step (hs : s.step label = some s') : ∃ l', s'.Inv l' := by
  cases label with
  | push => exact h.push hs
  | signal => exact h.signal hs
  | wake => exact h.wake hs
  | look => exact h.look hs
  | pop => exact h.pop hs
  | dispatched => exact h.dispatched hs

end

/-- In every interleaving the dispatcher receives, in order and once each, the events that are
not overwritten by the move after them and not dropped. The tokens counted, held and still to be
signalled are as many as the events in the ring, so a dispatcher that sleeps while there is one
is about to be signalled or woken, and one that has a token finds an event. -/
theorem run_dispatched {events : Nat → InputEvent β} (hr : Run step (start events) labels s) :
    s.received ++ s.queue.contents = keptOf s.published ∧ Coalesced none s.published ∧
    s.queue.droppedEvents = droppedOf s.published % 2 ^ 32 ∧
    s.count.toNat + s.held + s.toSignal = s.queue.contents.length ∧
    (s.dispatcher = .blocked → s.queue.contents ≠ [] → 0 < s.toSignal ∨ 0 < s.toWake) ∧
    (s.dispatcher = .holding → s.queue.contents ≠ []) := by
  obtain ⟨l, h⟩ : ∃ l, s.Inv l := by
    refine hr.invariant (I := fun s => ∃ l, s.Inv l) ⟨[], start_inv events⟩ ?_
    intro t label u ⟨l, ht⟩ _ hu
    exact ht.step hu
  have htokens := h.tokens
  have hcontents : s.queue.contents = l := h.holds.contents_eq
  rw [hcontents]
  refine ⟨h.order.symm, h.coalesced, h.dropped, htokens, fun hblocked hne => ?_, ?_⟩
  · have hpositive := List.length_pos_iff.mpr hne
    by_cases hw : s.waiting = true
    · have hheld : s.held = 0 := held_of_ne (by rw [hblocked]; exact nofun)
      have hzero := (h.waiting hw).2
      exact .inl (by omega)
    · exact .inr (h.woken hblocked (Bool.not_eq_true _ ▸ hw))
  · intro hholding hnil
    have hheld : s.held = 1 := if_pos hholding
    rw [hnil, List.length_nil] at htokens
    omega

/-- A move is overwritten between the two steps of the dispatcher, which receives the later one. -/
theorem run_dispatched_overwritten : ∃ s : Input Nat,
    exec step (fun _ _ => True) (start fun _ => ⟨.keyUp, 0⟩)
      [.push ⟨.mouseMove, 1⟩, .signal, .look, .push ⟨.mouseMove, 2⟩, .pop] = some s ∧
    s.received = [⟨.mouseMove, 2⟩] ∧ s.received ++ s.queue.contents = keptOf s.published :=
  exists_exec (fun s => s.received = [⟨.mouseMove, 2⟩]) (by decide)
    fun _ hr hs => ⟨hs, (run_dispatched hr).1⟩

/-- Between the two steps of a publisher an event is queued, nothing is counted, and the
dispatcher sleeps. -/
theorem queued_before_signalled : ∃ s : Input Nat,
    Run step (start fun _ => ⟨.keyUp, 0⟩) [.look, .push ⟨.keyDown, 1⟩] s ∧
    s.dispatcher = .blocked ∧ s.queue.contents = [⟨.keyDown, 1⟩] ∧
    s.count.toNat + s.held ≠ s.queue.contents.length :=
  ⟨_, .cons trivial rfl (.cons trivial rfl .nil), rfl, rfl, nofun⟩

end Input

end MeatySkeleton.Gui
