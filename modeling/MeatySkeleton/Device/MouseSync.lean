import MeatySkeleton.Device.MousePackets

/-!
# A lost byte

The handler takes a byte for the first of a packet if it expects one and bit 3 is set. When a
byte has been lost it is a byte ahead of the mouse, and it falls back by dropping a byte that
it expects to be a first one: a movement byte with bit 3 clear. Two such bytes bring it back, a
movement to the side and, with it or later, one up or down (`resync_iff`). Nothing makes
the mouse send them, so there is no bound that holds for all streams (`not_resync`).
-/

namespace MeatySkeleton.Device

open Lib

/-- The byte of a packet that is lost. -/
inductive LostByte where
  | first
  | x
  | y
  deriving DecidableEq

/-- The bytes that arrive. -/
def Packet.all (p : Packet) : List (BitVec 8) := [p.first, p.x, p.y]

def Packet.without (p : Packet) : LostByte → List (BitVec 8)
  | .first => [p.x, p.y]
  | .x => [p.first, p.y]
  | .y => [p.first, p.x]

/-- The handler after some bytes. -/
def Mouse.arriveAll (m : Mouse) (bytes : List (BitVec 8)) : Mouse := bytes.foldl Mouse.arrive m

/-- The handler before packet `n` of a stream whose first packet has lost a byte. -/
def Mouse.before (m : Mouse) (lost : LostByte) (stream : Nat → Packet) : Nat → Mouse
  | 0 => m
  | 1 => m.arriveAll ((stream 0).without lost)
  | n + 2 => (m.before lost stream (n + 1)).arriveAll (stream (n + 1)).all

/-- The packet is put together from its own bytes: when its third byte arrives, the first two are
in place. -/
structure Mouse.Framed (m : Mouse) (p : Packet) : Prop where
  index : ((m.arrive p.first).arrive p.x).packetIndex = 2
  first : ((m.arrive p.first).arrive p.x).packet 0 = p.first
  x : ((m.arrive p.first).arrive p.x).packet 1 = p.x

/-- Bit 3. -/
def marked (byte : BitVec 8) : Bool := hasFlag byte mousePacketAlwaysOne

/-- The packet, counted from the one that has lost a byte, whose movement is the first to be taken
for a first byte. -/
def LostByte.exposed : LostByte → Nat
  | .first => 0
  | _ => 1

/-- Two movement bytes among the packets from `start` on before packet `n` that the handler does
not take for first bytes. -/
def Resyncs (stream : Nat → Packet) (start n : Nat) : Prop :=
  ∃ i j, start ≤ i ∧ i ≤ j ∧ j < n ∧ marked (stream i).x = false ∧ marked (stream j).y = false

variable {m : Mouse} {p : Packet} {stream : Nat → Packet} {n : Nat}

/-! ## The position of the handler -/

theorem arrive_packetIndex (m : Mouse) (data : BitVec 8) : (m.arrive data).packetIndex =
    if m.packetIndex = 0 ∧ marked data = false then 0
    else if m.packetIndex < 2 then m.packetIndex + 1 else 0 := by
  unfold Mouse.arrive Mouse.interruptHandler marked
  rw [if_neg (by decide), if_neg (by decide)]
  by_cases hdrop : m.packetIndex = 0 ∧ hasFlag data mousePacketAlwaysOne = false
  · rw [if_pos hdrop, if_pos hdrop]
    exact hdrop.1
  · rw [if_neg hdrop, if_neg hdrop]
    dsimp only
    by_cases hlt : m.packetIndex < 2
    · rw [if_pos hlt, if_pos (by omega)]
    · rw [if_neg hlt, if_neg (by omega)]
      exact (Mouse.decodePacket_spec _).1

/-- Where the handler stands after a whole packet that it met at position `index`. -/
def advance (index : Nat) (p : Packet) : Nat :=
  if index = 0 then 0
  else if index = 1 then if marked p.y then 1 else 0
  else if marked p.x then 2
  else if marked p.y then 1 else 0

theorem arriveAll_packetIndex (p : Packet) (h : m.packetIndex ≤ 2) :
    (m.arriveAll p.all).packetIndex = advance m.packetIndex p := by
  have hsync : marked p.first = true := p.sync
  rw [Mouse.arriveAll, Packet.all, List.foldl_cons, List.foldl_cons, List.foldl_cons,
    List.foldl_nil, arrive_packetIndex, arrive_packetIndex, arrive_packetIndex, advance, hsync]
  have hcases : m.packetIndex = 0 ∨ m.packetIndex = 1 ∨ m.packetIndex = 2 := by omega
  rcases hcases with hi | hi | hi <;> rw [hi] <;>
    cases marked p.x <;> cases marked p.y <;> rfl

/-- A packet that has lost a byte. -/
theorem without_packetIndex (p : Packet) (lost : LostByte) (h : m.packetIndex = 0) :
    (m.arriveAll (p.without lost)).packetIndex =
      if lost = .first then advance 2 p else 2 := by
  have hsync : marked p.first = true := p.sync
  cases lost
  all_goals
    rw [Mouse.arriveAll, Packet.without, List.foldl_cons, List.foldl_cons, List.foldl_nil,
      arrive_packetIndex, arrive_packetIndex, h]
  case first => cases hx : marked p.x <;> cases hy : marked p.y <;> simp [advance, hx, hy]
  case x => simp [hsync]
  case y => simp [hsync]

/-- The first two bytes of a packet whose first byte is taken for one. -/
theorem arrive_two (p : Packet) (h : m.packetIndex = 0) : (m.arrive p.first).arrive p.x =
    { m with
      packet := Function.update (Function.update m.packet 0 p.first) 1 p.x, packetIndex := 2 } := by
  have hfirst := m.arrive_store (by omega : m.packetIndex < 2) fun _ => p.sync
  rw [h] at hfirst
  rw [hfirst]
  exact Mouse.arrive_store _ (by decide : 1 < 2) nofun

theorem framed_iff (h : m.packetIndex ≤ 2) (p : Packet) : m.Framed p ↔ m.packetIndex = 0 := by
  have hsync : marked p.first = true := p.sync
  constructor
  · intro hframed
    have hindex := hframed.index
    rw [arrive_packetIndex, arrive_packetIndex, hsync] at hindex
    have hcases : m.packetIndex = 0 ∨ m.packetIndex = 1 ∨ m.packetIndex = 2 := by omega
    rcases hcases with hi | hi | hi
    · exact hi
    · rw [hi] at hindex
      cases hx : marked p.x <;> simp [hx] at hindex
    · rw [hi] at hindex
      cases hx : marked p.x <;> simp [hx] at hindex
  · intro hzero
    have htwo := arrive_two p hzero
    refine ⟨?_, ?_, ?_⟩
    all_goals rw [htwo]
    · simp
    · simp

/-! ## The whole stream -/

/-- Where the handler stands before packet `n`, when it has been a byte ahead since packet
`start`. -/
structure Standing (index : Nat) (stream : Nat → Packet) (start n : Nat) : Prop where
  le : index ≤ 2
  back : index = 0 ↔ Resyncs stream start n
  ahead : index = 2 ↔ ∀ i, start ≤ i → i < n → marked (stream i).x = true

theorem resyncs_succ (stream : Nat → Packet) {start n : Nat} (h : start ≤ n) :
    Resyncs stream start (n + 1) ↔ Resyncs stream start n ∨ (marked (stream n).y = false ∧
      ∃ i, start ≤ i ∧ i < n + 1 ∧ marked (stream i).x = false) := by
  constructor
  · intro ⟨i, j, hi, hij, hj, hx, hy⟩
    rcases Nat.lt_succ_iff_lt_or_eq.mp hj with hlt | rfl
    · exact .inl ⟨i, j, hi, hij, hlt, hx, hy⟩
    · exact .inr ⟨hy, i, hi, Nat.lt_succ_of_le hij, hx⟩
  · intro hor
    rcases hor with ⟨i, j, hi, hij, hj, hx, hy⟩ | ⟨hy, i, hi, hin, hx⟩
    · exact ⟨i, j, hi, hij, by omega, hx, hy⟩
    · exact ⟨i, n, hi, by omega, by omega, hx, hy⟩

/-- It starts a byte ahead. -/
theorem Standing.start (stream : Nat → Packet) (start : Nat) : Standing 2 stream start start where
  le := Nat.le_refl 2
  back := by
    constructor
    · intro h
      cases h
    · intro ⟨i, j, hi, hij, hj, _⟩
      omega
  ahead := by
    refine iff_of_true rfl ?_
    intro i hi hlt
    omega

theorem Standing.next {index start : Nat} (h : Standing index stream start n) (hn : start ≤ n) :
    Standing (advance index (stream n)) stream start (n + 1) := by
  have hle := h.le
  have hahead : (∀ i, start ≤ i → i < n + 1 → marked (stream i).x = true) ↔
      index = 2 ∧ marked (stream n).x = true := by
    rw [h.ahead]
    constructor
    · intro hall
      exact ⟨fun i hi hlt => hall i hi (by omega), hall n hn (by omega)⟩
    · intro ⟨hall, hx⟩ i hi hlt
      rcases Nat.lt_succ_iff_lt_or_eq.mp hlt with hin | rfl
      · exact hall i hi hin
      · exact hx
  have hsome : (∃ i, start ≤ i ∧ i < n + 1 ∧ marked (stream i).x = false) ↔
      ¬(index = 2 ∧ marked (stream n).x = true) := by
    rw [← hahead]
    simp
  have hback : Resyncs stream start (n + 1) ↔
      index = 0 ∨ (marked (stream n).y = false ∧ ¬(index = 2 ∧ marked (stream n).x = true)) := by
    rw [resyncs_succ stream hn, hsome, h.back]
  have hcases : index = 0 ∨ index = 1 ∨ index = 2 := by omega
  refine ⟨?_, ?_, ?_⟩
  · rcases hcases with rfl | rfl | rfl
    all_goals unfold advance
    all_goals grind
  · rw [hback]
    rcases hcases with rfl | rfl | rfl
    all_goals unfold advance
    all_goals grind
  · rw [hahead]
    rcases hcases with rfl | rfl | rfl
    all_goals unfold advance
    all_goals grind

/-- Before every packet after the one that has lost a byte. -/
theorem before_standing (hm : m.packetIndex = 0) (lost : LostByte) (stream : Nat → Packet)
    (n : Nat) :
    Standing (m.before lost stream (n + 1)).packetIndex stream lost.exposed (n + 1) := by
  induction n with
  | zero =>
    rw [Mouse.before, without_packetIndex (stream 0) lost hm]
    cases lost with
    | first => exact (Standing.start stream 0).next (Nat.le_refl 0)
    | x => exact Standing.start stream 1
    | y => exact Standing.start stream 1
  | succ n ih =>
    have hexposed : lost.exposed ≤ n + 1 := by
      cases lost <;> simp [LostByte.exposed]
    rw [Mouse.before, arriveAll_packetIndex (stream (n + 1)) ih.le]
    exact ih.next hexposed

theorem Resyncs.mono {start k : Nat} (h : Resyncs stream start n) (hk : n ≤ k) :
    Resyncs stream start k := by
  obtain ⟨i, j, hi, hij, hj, hx, hy⟩ := h
  exact ⟨i, j, hi, hij, by omega, hx, hy⟩

/-- When a packet after the one that has lost a byte is put together from its own bytes. -/
theorem framed_before_iff (hm : m.packetIndex = 0) (lost : LostByte) (stream : Nat → Packet)
    (hn : 1 ≤ n) :
    (m.before lost stream n).Framed (stream n) ↔ Resyncs stream lost.exposed n := by
  obtain ⟨k, rfl⟩ : ∃ k, n = k + 1 := ⟨n - 1, by omega⟩
  have hstanding := before_standing hm lost stream k
  rw [framed_iff hstanding.le, hstanding.back]

/-- When all packets from `n` on are. -/
theorem resync_iff (hm : m.packetIndex = 0) (lost : LostByte) (stream : Nat → Packet)
    (hn : 1 ≤ n) :
    (∀ k ≥ n, (m.before lost stream k).Framed (stream k)) ↔ Resyncs stream lost.exposed n := by
  constructor
  · intro h
    exact (framed_before_iff hm lost stream hn).mp (h n (Nat.le_refl n))
  · intro h k hk
    exact (framed_before_iff hm lost stream (Nat.le_trans hn hk)).mpr (h.mono hk)

/-- A slow movement brings the handler back with the next packet. -/
theorem resync_iff_slow :
    (∀ k ≥ 1, ((MouseStream.start (fun _ => 0) fun _ => ⟨.move, 0, 0, .left, 0⟩).mouse.before
      .first (fun _ => ⟨0x08, 1, 1, rfl⟩) k).Framed ⟨0x08, 1, 1, rfl⟩) ↔
    Resyncs (fun _ => ⟨0x08, 1, 1, rfl⟩) 0 1 :=
  resync_iff rfl .first (fun _ => ⟨0x08, 1, 1, rfl⟩) (Nat.le_refl 1)

/-- A mouse that goes on moving by 8 in both directions: no packet is ever put together from its
own bytes again, whichever byte is lost. -/
theorem not_resync : ∃ (m : Mouse) (stream : Nat → Packet), m.packetIndex = 0 ∧
    ∀ lost, ∀ n ≥ 1, ¬(m.before lost stream n).Framed (stream n) := by
  refine ⟨(MouseStream.start (fun _ => 0) fun _ => ⟨.move, 0, 0, .left, 0⟩).mouse,
    fun _ => ⟨0x08, 8, 8, rfl⟩, rfl, ?_⟩
  intro lost n hn hframed
  obtain ⟨i, j, -, -, -, hx, -⟩ := (framed_before_iff rfl lost _ hn).mp hframed
  have hmarked : marked 8 = true := rfl
  rw [hmarked] at hx
  cases hx

end MeatySkeleton.Device
