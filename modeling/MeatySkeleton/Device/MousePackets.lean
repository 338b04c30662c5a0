import MeatySkeleton.Lib.DropRing
import MeatySkeleton.Lib.Flags
import MeatySkeleton.Lib.Run

/-!
# Mouse packets

The interrupt handler of `mouse.c` puts packets together from bytes and decodes each third one
into events for a ring. The movement of a packet is a number of nine bits, with its sign in the
first byte; the decoder takes the sign from the top bit of the movement byte instead.
`run_published_iff` says for which packets that makes no difference.
-/

namespace MeatySkeleton.Device

open Function List Lib

def mousePacketLeft : BitVec 8 := 0x01#8
def mousePacketRight : BitVec 8 := 0x02#8
def mousePacketMiddle : BitVec 8 := 0x04#8
def mousePacketAlwaysOne : BitVec 8 := 0x08#8
def mousePacketXOverflow : BitVec 8 := 0x40#8
def mousePacketYOverflow : BitVec 8 := 0x80#8

def mouseButtonMaskLeft : BitVec 8 := 0x01#8
def mouseButtonMaskRight : BitVec 8 := 0x02#8
def mouseButtonMaskMiddle : BitVec 8 := 0x04#8

def i8042StatusOutputFull : BitVec 8 := 0x01#8
def i8042StatusAuxData : BitVec 8 := 0x20#8

/-- `MOUSE_EVENT_BUFFER_SIZE`. -/
def mouseEventBufferSize : Nat := 128

inductive MouseButton where
  | left
  | right
  | middle
  deriving DecidableEq

inductive MouseEventType where
  | move
  | buttonDown
  | buttonUp
  deriving DecidableEq

/-- `mouse_event_t`. -/
structure MouseEvent where
  type : MouseEventType
  dx : Int
  dy : Int
  button : MouseButton
  buttons : BitVec 8
  deriving DecidableEq

/-- The state of the driver and its ring of events; the counters are `uint32_t`. -/
structure Mouse where
  packet : Nat → BitVec 8
  packetIndex : Nat
  buttons : BitVec 8
  packetsReceived : Nat
  badPackets : Nat
  events : DropRing MouseEvent
  eventDropCount : Nat

namespace Mouse

/-- `mouse_event_next_index`. -/
def eventNextIndex (index : Nat) : Nat := (index + 1) &&& (mouseEventBufferSize - 1)

/-- `mouse_event_push`. -/
def eventPush (m : Mouse) (event : MouseEvent) : Mouse :=
  match m.events.push eventNextIndex event with
  | (true, events) => { m with events }
  | (false, _) => { m with eventDropCount := (m.eventDropCount + 1) % 2 ^ 32 }

/-- `mouse_read_event`. -/
def readEvent (m : Mouse) : Option MouseEvent × Mouse :=
  match m.events.pop eventNextIndex with
  | none => (none, m)
  | some (event, events) => (some event, { m with events })

/-- `mouse_publish_button_change`. -/
def publishButtonChange (button : MouseButton) (pressed : Bool) (newButtons : BitVec 8)
    (m : Mouse) : Mouse :=
  m.eventPush
    { type := if pressed then .buttonDown else .buttonUp
      dx := 0
      dy := 0
      button
      buttons := newButtons }

/-- The buttons of a packet, by its first byte. -/
def newButtons (flags : BitVec 8) : BitVec 8 :=
  let new := 0#8
  let new := if hasFlag flags mousePacketLeft then new ||| mouseButtonMaskLeft else new
  let new := if hasFlag flags mousePacketRight then new ||| mouseButtonMaskRight else new
  if hasFlag flags mousePacketMiddle then new ||| mouseButtonMaskMiddle else new

/-- `mouse_decode_packet`. -/
def decodePacket (m : Mouse) : Mouse :=
  let flags := m.packet 0
  if hasFlag flags (mousePacketXOverflow ||| mousePacketYOverflow) then
    { m with badPackets := (m.badPackets + 1) % 2 ^ 32 }
  else
    let dx := (m.packet 1).toInt
    let dy := -(m.packet 2).toInt
    let old := m.buttons
    let new := newButtons flags
    let m := { m with buttons := new, packetsReceived := (m.packetsReceived + 1) % 2 ^ 32 }
    let m := if dx ≠ 0 ∨ dy ≠ 0 then m.eventPush ⟨.move, dx, dy, .left, new⟩ else m
    let changed := old ^^^ new
    let m := if hasFlag changed mouseButtonMaskLeft then
      m.publishButtonChange .left (hasFlag new mouseButtonMaskLeft) new else m
    let m := if hasFlag changed mouseButtonMaskRight then
      m.publishButtonChange .right (hasFlag new mouseButtonMaskRight) new else m
    if hasFlag changed mouseButtonMaskMiddle then
      m.publishButtonChange .middle (hasFlag new mouseButtonMaskMiddle) new else m

/-- `mouse_interrupt_handler`, with what it reads from the two ports. -/
def interruptHandler (m : Mouse) (status data : BitVec 8) : Mouse :=
  if hasFlag status i8042StatusOutputFull = false then m
  else if hasFlag status i8042StatusAuxData = false then m
  else if m.packetIndex = 0 ∧ hasFlag data mousePacketAlwaysOne = false then
    { m with badPackets := (m.badPackets + 1) % 2 ^ 32 }
  else
    let m := { m with
      packet := update m.packet m.packetIndex data, packetIndex := m.packetIndex + 1 }
    if m.packetIndex < 3 then m
    else decodePacket { m with packetIndex := 0 }

/-- A byte of the mouse arrives. -/
def arrive (m : Mouse) (data : BitVec 8) : Mouse :=
  m.interruptHandler (i8042StatusOutputFull ||| i8042StatusAuxData) data

/-- Up to `count` events are read. -/
def readEvents : Nat → Mouse → Mouse
  | 0, m => m
  | count + 1, m => readEvents count m.readEvent.2

/-- The events that are waiting to be read, the oldest first. -/
def queued (m : Mouse) : List MouseEvent := m.events.contents mouseEventBufferSize

end Mouse

/-! ## Packets -/

/-- A packet as the mouse sends it: bit 3 of the first byte is set. -/
structure Packet where
  first : BitVec 8
  x : BitVec 8
  y : BitVec 8
  sync : hasFlag first mousePacketAlwaysOne = true

namespace Packet

/-- A movement: its byte below the sign bit, in two's complement. -/
def movement (sign : Bool) (byte : BitVec 8) : Int := (BitVec.ofBool sign ++ byte : BitVec 9).toInt

/-- The sign bits are bit 4 and bit 5. -/
def xSign (p : Packet) : Bool := p.first.getLsbD 4
def ySign (p : Packet) : Bool := p.first.getLsbD 5

/-- Positive to the right. -/
def dx (p : Packet) : Int := movement p.xSign p.x

/-- Positive downwards. -/
def dy (p : Packet) : Int := -movement p.ySign p.y

/-- One of the movements does not fit into nine bits. -/
def overflow (p : Packet) : Bool := p.first.getLsbD 6 || p.first.getLsbD 7

/-- Bits 0 to 2. -/
def buttons (p : Packet) : BitVec 8 := p.first &&& 7#8

end Packet

/-- The number of the bit of a button. -/
def MouseButton.bit : MouseButton → Nat
  | .left => 0
  | .right => 1
  | .middle => 2

/-- The event of a button, if it has changed. -/
def buttonEvents (held now : BitVec 8) (button : MouseButton) : List MouseEvent :=
  if held.getLsbD button.bit = now.getLsbD button.bit then []
  else [⟨if now.getLsbD button.bit then .buttonDown else .buttonUp, 0, 0, button, now⟩]

/-- The events of a movement and of the buttons. -/
def eventsOf (dx dy : Int) (held now : BitVec 8) : List MouseEvent :=
  (if dx = 0 ∧ dy = 0 then [] else [⟨.move, dx, dy, .left, now⟩]) ++
    [.left, .right, .middle].flatMap (buttonEvents held now)

/-- The events of a packet, after one with the buttons `held`. -/
def Packet.events (p : Packet) (held : BitVec 8) : List MouseEvent :=
  if p.overflow then [] else eventsOf p.dx p.dy held p.buttons

/-! ## The stream -/

/-- The driver, and the buttons of the last packet that had no overflow. -/
structure MouseStream where
  mouse : Mouse
  held : BitVec 8

/-- A packet arrives, and events are read after its first and after its second byte; or an event
is read. -/
inductive MouseLabel where
  | packet (p : Packet) (early late : Nat)
  | read

namespace MouseStream

def step (s : MouseStream) : MouseLabel → Option MouseStream
  | .packet p early late =>
    some
      { mouse := ((((s.mouse.arrive p.first).readEvents early).arrive p.x).readEvents late).arrive p.y
        held := if p.overflow then s.held else p.buttons }
  | .read => some { s with mouse := s.mouse.readEvent.2 }

/-- Before the first packet. -/
def start (packet : Nat → BitVec 8) (slots : Nat → MouseEvent) : MouseStream where
  mouse := ⟨packet, 0, 0#8, 0, 0, ⟨slots, 0, 0⟩, 0⟩
  held := 0#8

/-- The packet publishes its events, and nothing else. -/
def Publishes (s : MouseStream) : MouseLabel → Prop
  | .packet p early late => ∀ s' ∈ s.step (.packet p early late),
      s'.mouse.queued = s.mouse.queued.drop (early + late) ++ p.events s.held
  | .read => True

/-- The top bits of the movement bytes are the sign bits, and the ring has room for the events. -/
def Faithful (s : MouseStream) : MouseLabel → Prop
  | .packet p early late => p.overflow = true ∨ (p.xSign = p.x.msb ∧ p.ySign = p.y.msb ∧
      s.mouse.queued.length - (early + late) + (p.events s.held).length < mouseEventBufferSize)
  | .read => True

end MouseStream

/-! ## The ring of events -/

namespace Mouse

variable {m : Mouse} {l : List MouseEvent}

theorem eventNextIndex_eq (index : Nat) : eventNextIndex index = (index + 1) % mouseEventBufferSize :=
  Nat.and_two_pow_sub_one_eq_mod _ 7

@[simp] theorem eventPush_packetIndex (m : Mouse) (event : MouseEvent) :
    (m.eventPush event).packetIndex = m.packetIndex := by
  unfold eventPush
  split <;> rfl

@[simp] theorem eventPush_buttons (m : Mouse) (event : MouseEvent) :
    (m.eventPush event).buttons = m.buttons := by
  unfold eventPush
  split <;> rfl

theorem eventPush_events (m : Mouse) (event : MouseEvent) :
    (m.eventPush event).events = (m.events.push eventNextIndex event).2 := by
  unfold eventPush DropRing.push
  by_cases hfull : eventNextIndex m.events.writeIndex = m.events.readIndex
  · rw [if_pos hfull]
  · rw [if_neg hfull]

/-- What reading does not touch. -/
theorem readEvents_same (count : Nat) (m : Mouse) : (m.readEvents count).packet = m.packet ∧
    (m.readEvents count).packetIndex = m.packetIndex ∧
      (m.readEvents count).buttons = m.buttons := by
  induction count generalizing m with
  | zero => exact ⟨rfl, rfl, rfl⟩
  | succ count ih =>
    have hone : m.readEvent.2.packet = m.packet ∧ m.readEvent.2.packetIndex = m.packetIndex ∧
        m.readEvent.2.buttons = m.buttons := by
      unfold readEvent
      split <;> exact ⟨rfl, rfl, rfl⟩
    obtain ⟨hpacket, hindex, hbuttons⟩ := ih m.readEvent.2
    exact ⟨hpacket.trans hone.1, hindex.trans hone.2.1, hbuttons.trans hone.2.2⟩

theorem readEvents_holds (h : m.events.Holds mouseEventBufferSize l) (count : Nat) :
    (m.readEvents count).events.Holds mouseEventBufferSize (l.drop count) := by
  induction count generalizing m l with
  | zero => exact h
  | succ count ih =>
    cases l with
    | nil =>
      have hnone : m.readEvent.2 = m := by
        rw [readEvent, h.pop_nil]
      rw [readEvents, hnone, drop_nil]
      have hrest := ih h
      rwa [drop_nil] at hrest
    | cons event l =>
      obtain ⟨events, he, hholds⟩ := h.pop_cons eventNextIndex_eq
      rw [readEvents, readEvent, he]
      exact ih (m := { m with events }) hholds

/-- Pushing an event if a condition is met. -/
theorem pushIf_spec (m : Mouse) (c : Prop) [Decidable c] (event : MouseEvent) :
    (if c then m.eventPush event else m).packetIndex = m.packetIndex ∧
    (if c then m.eventPush event else m).buttons = m.buttons ∧
    (if c then m.eventPush event else m).events =
      (if c then [event] else []).foldl (fun r e => (r.push eventNextIndex e).2) m.events := by
  by_cases hc : c
  · rw [if_pos hc, if_pos hc]
    exact ⟨eventPush_packetIndex .., eventPush_buttons .., eventPush_events ..⟩
  · rw [if_neg hc, if_neg hc]
    exact ⟨rfl, rfl, rfl⟩

/-! ## Decoding -/

theorem overflow_flags : ∀ flags : BitVec 8,
    hasFlag flags (mousePacketXOverflow ||| mousePacketYOverflow) =
      (flags.getLsbD 6 || flags.getLsbD 7) := by decide

theorem newButtons_eq : ∀ flags : BitVec 8, newButtons flags = flags &&& 7#8 := by decide

theorem publishButton_spec (m : Mouse) (button : MouseButton) (held now : BitVec 8)
    {m' : Mouse} (h : m' = if hasFlag (held ^^^ now) (BitVec.twoPow 8 button.bit) then
      m.publishButtonChange button (hasFlag now (BitVec.twoPow 8 button.bit)) now else m) :
    m'.packetIndex = m.packetIndex ∧ m'.buttons = m.buttons ∧ m'.events =
      (buttonEvents held now button).foldl (fun r e => (r.push eventNextIndex e).2) m.events := by
  have hbit : button.bit < 8 := by cases button <;> decide
  rw [hasFlag_xor hbit, hasFlag_twoPow hbit, hasFlag_twoPow hbit] at h
  subst h
  obtain ⟨hindex, hbuttons, hevents⟩ := pushIf_spec m
    ((held.getLsbD button.bit != now.getLsbD button.bit) = true)
    ⟨if now.getLsbD button.bit then .buttonDown else .buttonUp, 0, 0, button, now⟩
  refine ⟨hindex, hbuttons, hevents.trans ?_⟩
  unfold buttonEvents
  cases held.getLsbD button.bit <;> cases now.getLsbD button.bit <;> rfl

/-- The events that the decoder makes of the packet it has put together. -/
theorem decodePacket_spec (m : Mouse) : (decodePacket m).packetIndex = m.packetIndex ∧
    if (m.packet 0).getLsbD 6 || (m.packet 0).getLsbD 7 then
      (decodePacket m).buttons = m.buttons ∧ (decodePacket m).events = m.events
    else
      (decodePacket m).buttons = m.packet 0 &&& 7#8 ∧
      (decodePacket m).events = (eventsOf (m.packet 1).toInt (-(m.packet 2).toInt) m.buttons
        (m.packet 0 &&& 7#8)).foldl (fun r e => (r.push eventNextIndex e).2) m.events := by
  unfold decodePacket
  dsimp only
  rw [overflow_flags, newButtons_eq]
  by_cases hov : ((m.packet 0).getLsbD 6 || (m.packet 0).getLsbD 7) = true
  · rw [if_pos hov, if_pos hov]
    exact ⟨rfl, rfl, rfl⟩
  · rw [if_neg hov, if_neg hov]
    generalize m.packet 0 &&& 7#8 = now
    generalize (m.packet 1).toInt = dx
    generalize -(m.packet 2).toInt = dy
    obtain ⟨hindex1, hbuttons1, hevents1⟩ := pushIf_spec { m with
      buttons := now, packetsReceived := (m.packetsReceived + 1) % 2 ^ 32 } (dx ≠ 0 ∨ dy ≠ 0)
      ⟨.move, dx, dy, .left, now⟩
    generalize (if dx ≠ 0 ∨ dy ≠ 0 then _ else _ : Mouse) = m1 at *
    generalize hm2 : (if hasFlag (m.buttons ^^^ now) mouseButtonMaskLeft then _ else m1) = m2
    obtain ⟨hindex2, hbuttons2, hevents2⟩ := publishButton_spec m1 .left m.buttons now hm2.symm
    generalize hm3 : (if hasFlag (m.buttons ^^^ now) mouseButtonMaskRight then _ else m2) = m3
    obtain ⟨hindex3, hbuttons3, hevents3⟩ := publishButton_spec m2 .right m.buttons now hm3.symm
    generalize hm4 : (if hasFlag (m.buttons ^^^ now) mouseButtonMaskMiddle then _ else m3) = m4
    obtain ⟨hindex4, hbuttons4, hevents4⟩ := publishButton_spec m3 .middle m.buttons now hm4.symm
    refine ⟨?_, ?_, ?_⟩
    · rw [hindex4, hindex3, hindex2, hindex1]
    · rw [hbuttons4, hbuttons3, hbuttons2, hbuttons1]
    · have hmove : (if dx ≠ 0 ∨ dy ≠ 0 then [(⟨.move, dx, dy, .left, now⟩ : MouseEvent)] else []) =
          if dx = 0 ∧ dy = 0 then [] else [⟨.move, dx, dy, .left, now⟩] := by
        by_cases hzero : dx = 0 ∧ dy = 0
        · rw [if_pos hzero, if_neg (by omega)]
        · rw [if_neg hzero, if_pos (by omega)]
      rw [hevents4, hevents3, hevents2, hevents1, hmove, eventsOf, foldl_append]
      show _ = (buttonEvents m.buttons now .left ++ (buttonEvents m.buttons now .right ++
        (buttonEvents m.buttons now .middle ++ []))).foldl _ _
      rw [append_nil, foldl_append, foldl_append]

/-! ## Putting a packet together -/

/-- A byte that does not complete a packet. -/
theorem arrive_store (m : Mouse) {data : BitVec 8} (hlt : m.packetIndex < 2)
    (hsync : m.packetIndex = 0 → hasFlag data mousePacketAlwaysOne = true) :
    m.arrive data = { m with
      packet := update m.packet m.packetIndex data, packetIndex := m.packetIndex + 1 } := by
  unfold arrive interruptHandler
  have hgo : ¬(m.packetIndex = 0 ∧ hasFlag data mousePacketAlwaysOne = false) := by
    intro ⟨hzero, hno⟩
    exact absurd ((hsync hzero).symm.trans hno) nofun
  rw [if_neg (by decide), if_neg (by decide), if_neg hgo]
  dsimp only
  rw [if_pos (by omega)]

/-- The byte that completes a packet. -/
theorem arrive_complete (m : Mouse) (data : BitVec 8) (hindex : m.packetIndex = 2) :
    m.arrive data = decodePacket { m with
      packet := update m.packet 2 data, packetIndex := 0 } := by
  unfold arrive interruptHandler
  rw [if_neg (by decide), if_neg (by decide), if_neg (by omega), hindex]
  rfl

end Mouse

/-! ## Movements -/

/-- The events the decoder makes of a packet. -/
def Packet.decoded (p : Packet) (held : BitVec 8) : List MouseEvent :=
  if p.overflow then [] else eventsOf p.x.toInt (-p.y.toInt) held p.buttons

theorem movement_eq_iff : ∀ (sign : Bool) (byte : BitVec 8),
    Packet.movement sign byte = byte.toInt ↔ sign = byte.msb := by decide

theorem movement_eq_zero : ∀ (sign : Bool) (byte : BitVec 8),
    Packet.movement sign byte = 0 → sign = byte.msb := by decide

theorem move_mem_eventsOf {dx dy : Int} {held now : BitVec 8} {event : MouseEvent}
    (h : event ∈ eventsOf dx dy held now) (hmove : event.type = .move) :
    event.dx = dx ∧ event.dy = dy := by
  rcases mem_append.mp h with hmem | hmem
  · split at hmem
    · cases hmem
    · rw [mem_singleton.mp hmem]
      exact ⟨rfl, rfl⟩
  · obtain ⟨button, -, hbutton⟩ := mem_flatMap.mp hmem
    unfold buttonEvents at hbutton
    split at hbutton
    · cases hbutton
    · rw [mem_singleton.mp hbutton] at hmove
      dsimp only at hmove
      split at hmove <;> cases hmove

/-- The decoder's events are those of the packet only if the top bits are the sign bits. -/
theorem Packet.signs_of_taken (p : Packet) {held : BitVec 8} {room : Nat}
    (hov : p.overflow = false) (h : (p.decoded held).take room = p.events held) :
    p.xSign = p.x.msb ∧ p.ySign = p.y.msb := by
  rw [Packet.decoded, Packet.events, hov, if_neg nofun, if_neg nofun] at h
  by_cases hzero : p.dx = 0 ∧ p.dy = 0
  · exact ⟨movement_eq_zero _ _ hzero.1, movement_eq_zero _ _ (Int.neg_eq_zero.mp hzero.2)⟩
  · have hmem : (⟨.move, p.dx, p.dy, .left, p.buttons⟩ : MouseEvent) ∈
        eventsOf p.dx p.dy held p.buttons := by
      rw [eventsOf, if_neg hzero]
      exact mem_append_left _ (mem_singleton.mpr rfl)
    rw [← h] at hmem
    obtain ⟨hdx, hdy⟩ := move_mem_eventsOf (mem_of_mem_take hmem) rfl
    exact ⟨(movement_eq_iff _ _).mp hdx, (movement_eq_iff _ _).mp (Int.neg_inj.mp hdy)⟩

theorem Packet.decoded_of_signs (p : Packet) (hx : p.xSign = p.x.msb) (hy : p.ySign = p.y.msb)
    (held : BitVec 8) : p.decoded held = p.events held := by
  rw [Packet.decoded, Packet.events, Packet.dx, Packet.dy, (movement_eq_iff _ _).mpr hx,
    (movement_eq_iff _ _).mpr hy]

/-! ## Runs -/

/-- The bytes in the order in which they are sent. -/
def Packet.bytes (p : Packet) : Nat → BitVec 8
  | 0 => p.first
  | 1 => p.x
  | _ => p.y

/-- The first `n` bytes of a packet have arrived. -/
structure Mouse.Collected (m : Mouse) (p : Packet) (n : Nat) (held : BitVec 8)
    (l : List MouseEvent) : Prop where
  index : m.packetIndex = n
  packet : ∀ i < n, m.packet i = p.bytes i
  buttons : m.buttons = held
  ring : m.events.Holds mouseEventBufferSize l

namespace Mouse.Collected

variable {m : Mouse} {p : Packet} {n : Nat} {held : BitVec 8} {l : List MouseEvent}

theorem read (h : m.Collected p n held l) (count : Nat) :
    (m.readEvents count).Collected p n held (l.drop count) := by
  obtain ⟨hpacket, hindex, hbuttons⟩ := m.readEvents_same count
  refine ⟨hindex.trans h.index, fun i hi => ?_, hbuttons.trans h.buttons, ?_⟩
  · rw [hpacket]
    exact h.packet i hi
  · exact readEvents_holds h.ring count

theorem next (h : m.Collected p n held l) (hn : n < 2) :
    (m.arrive (p.bytes n)).Collected p (n + 1) held l := by
  have hsync : m.packetIndex = 0 → hasFlag (p.bytes n) mousePacketAlwaysOne = true := by
    intro hzero
    rw [h.index] at hzero
    rw [hzero]
    exact p.sync
  rw [m.arrive_store (h.index ▸ hn) hsync, h.index]
  refine ⟨rfl, fun i hi => ?_, h.buttons, h.ring⟩
  rcases Nat.lt_succ_iff_lt_or_eq.mp hi with hlt | rfl
  · rw [← h.packet i hlt]
    exact update_of_ne (Nat.ne_of_lt hlt) ..
  · exact update_self ..

/-- The third byte completes the packet, and it is decoded. -/
theorem complete (h : m.Collected p 2 held l) :
    (m.arrive p.y).Collected p 0 (if p.overflow then held else p.buttons)
      (l ++ (p.decoded held).take (mouseEventBufferSize - 1 - l.length)) := by
  rw [m.arrive_complete p.y h.index]
  generalize hm : ({ m with packet := update m.packet 2 p.y, packetIndex := 0 } : Mouse) = m'
  have hfirst : m'.packet 0 = p.first := by
    rw [← hm]
    exact h.packet 0 Nat.two_pos
  have hx : m'.packet 1 = p.x := by
    rw [← hm]
    exact h.packet 1 (by decide)
  have hy : m'.packet 2 = p.y := by
    rw [← hm]
    exact update_self 2 p.y m.packet
  have hbuttons : m'.buttons = held := by
    rw [← hm]
    exact h.buttons
  have hring : m'.events.Holds mouseEventBufferSize l := by
    rw [← hm]
    exact h.ring
  obtain ⟨hindex, hrest⟩ := decodePacket_spec m'
  have hzero : m'.packetIndex = 0 := by rw [← hm]
  rw [hfirst, hx, hy, hbuttons] at hrest
  change if p.overflow = true then _ else _ at hrest
  refine ⟨hindex.trans hzero, nofun, ?_, ?_⟩
  · cases hov : p.overflow with
    | true =>
      rw [hov, if_pos rfl] at hrest
      exact hrest.1
    | false =>
      rw [hov, if_neg nofun] at hrest
      exact hrest.1
  · rw [Packet.decoded]
    cases hov : p.overflow with
    | true =>
      rw [hov, if_pos rfl] at hrest
      rw [hrest.2, if_pos rfl, take_nil, append_nil]
      exact hring
    | false =>
      rw [hov, if_neg nofun] at hrest
      rw [hrest.2, if_neg nofun]
      exact hring.pushAll eventNextIndex_eq _

end Mouse.Collected

namespace MouseStream

variable {s s' : MouseStream} {l : List MouseEvent}

/-- Between two packets. -/
structure Inv (s : MouseStream) (l : List MouseEvent) : Prop where
  index : s.mouse.packetIndex = 0
  buttons : s.mouse.buttons = s.held
  ring : s.mouse.events.Holds mouseEventBufferSize l

theorem Inv.queued (h : s.Inv l) : s.mouse.queued = l := h.ring.contents_eq

theorem start_inv (packet : Nat → BitVec 8) (slots : Nat → MouseEvent) :
    (start packet slots).Inv [] := ⟨rfl, rfl, .empty (by decide) slots⟩

/-- A packet publishes as many of the decoder's events as the ring has room for. -/
theorem Inv.packet (h : s.Inv l) (p : Packet) (early late : Nat) :
    ∃ s', s.step (.packet p early late) = some s' ∧
      s'.Inv (l.drop (early + late) ++ (p.decoded s.held).take
        (mouseEventBufferSize - 1 - (l.drop (early + late)).length)) := by
  have hstart : s.mouse.Collected p 0 s.held l := ⟨h.index, nofun, h.buttons, h.ring⟩
  have hlast := ((((hstart.next (by decide)).read early).next (by decide)).read late).complete
  rw [drop_drop] at hlast
  exact ⟨_, rfl, hlast.index, hlast.buttons, hlast.ring⟩

theorem Inv.read (h : s.Inv l) : ∃ s', s.step .read = some s' ∧ s'.Inv (l.drop 1) := by
  obtain ⟨-, hindex, hbuttons⟩ := s.mouse.readEvents_same 1
  exact ⟨_, rfl, hindex.trans h.index, hbuttons.trans h.buttons, Mouse.readEvents_holds h.ring 1⟩

theorem Inv.step (h : s.Inv l) {label : MouseLabel} (hs : s.step label = some s') :
    ∃ l', s'.Inv l' := by
  cases label with
  | packet p early late =>
    obtain ⟨t, ht, hinv⟩ := h.packet p early late
    obtain rfl := Option.some.inj (ht.symm.trans hs)
    exact ⟨_, hinv⟩
  | read =>
    obtain ⟨t, ht, hinv⟩ := h.read
    obtain rfl := Option.some.inj (ht.symm.trans hs)
    exact ⟨_, hinv⟩

/-- When a packet publishes just its events. -/
theorem Inv.publishes_iff (h : s.Inv l) (label : MouseLabel) :
    s.Publishes label ↔ s.Faithful label := by
  cases label with
  | read => exact Iff.rfl
  | packet p early late =>
    obtain ⟨s', hs, hinv⟩ := h.packet p early late
    have hroom := hinv.ring.room
    simp only [Publishes, Faithful, hs, h.queued, Option.mem_def, Option.some.injEq, forall_eq']
    rw [hinv.queued, append_cancel_left_eq, length_drop]
    cases hov : p.overflow with
    | true => simp [Packet.decoded, Packet.events, hov]
    | false =>
      simp only [Bool.false_eq_true, false_or]
      rw [length_append, length_drop] at hroom
      constructor
      · intro htake
        obtain ⟨hx, hy⟩ := p.signs_of_taken hov htake
        refine ⟨hx, hy, ?_⟩
        rw [htake] at hroom
        exact hroom
      · intro ⟨hx, hy, hlt⟩
        rw [p.decoded_of_signs hx hy]
        exact take_of_length_le (by omega)

/-- A run in which every packet publishes its events is one in which every packet is faithful. -/
theorem run_published_iff (packet : Nat → BitVec 8) (slots : Nat → MouseEvent)
    (labels : List MouseLabel) (s : MouseStream) :
    RunWhere step Publishes (start packet slots) labels s ↔
      RunWhere step Faithful (start packet slots) labels s :=
  RunWhere.congr (I := fun s => ∃ l, Inv s l) ⟨[], start_inv packet slots⟩
    (fun _ _ _ ⟨_, h⟩ _ hs => h.step hs) fun _ label ⟨_, h⟩ => h.publishes_iff label

/-- A movement of 200 to the right is published as one of 56 to the left. -/
theorem fast_movement : ∃ s p, step (start (fun _ => 0) fun _ => ⟨.move, 0, 0, .left, 0⟩)
      (.packet p 0 0) = some s ∧ p.overflow = false ∧
    s.mouse.queued = [⟨.move, -56, 0, .left, 0⟩] ∧
    p.events 0 = [⟨.move, 200, 0, .left, 0⟩] :=
  ⟨_, ⟨0x08, 200, 0, rfl⟩, rfl, rfl, by decide, by decide⟩

end MouseStream

end MeatySkeleton.Device
