import Szczupak.Net.Rtl8139Core

/-!
Packets between the card and the driver.  Positions in the packet stream only grow; a
packet lies from its position modulo the ring on, also where that leads behind the ring.
-/

namespace Szczupak

section Packets

variable {packet : RxPacket} {mem : Mem} {place : Nat}

theorem RxPacket.length : packet.bytes.length = packet.frame.length + 8 := by
  simp [RxPacket.bytes]
  omega

theorem RxPacket.room_bounds : packet.frame.length + 8 ≤ packet.room ∧
    packet.room < packet.frame.length + 12 ∧ packet.room % 4 = 0 := by
  rw [RxPacket.room, RxPacket.length]
  omega

theorem packet_parts (here : mem.read place packet.bytes.length = packet.bytes) :
    mem.readLE place 2 = packet.status.toNat % 65536 ∧ mem.readLE (place + 2) 2 =
    (packet.frame.length + 4) % 65536 ∧
      mem.read (place + 4) packet.frame.length = packet.frame := by
  have whole : packet.bytes.length = 2 + (2 + (packet.frame.length + 4)) := by
    rw [RxPacket.length]
    omega
  rw [whole, Mem.read_add, Mem.read_add, Mem.read_add, RxPacket.bytes, List.append_assoc,
    List.append_assoc] at here
  obtain ⟨status, here⟩ := List.append_inj here (by simp)
  obtain ⟨length, here⟩ := List.append_inj here (by simp)
  obtain ⟨frame, -⟩ := List.append_inj here (by simp)
  exact ⟨Mem.readLE_leBytes status, Mem.readLE_leBytes length, frame⟩

end Packets

def PacketsAt (mem : Mem) : Nat → List RxPacket → Nat → Prop
  | first, [], last => first = last
  | first, packet :: rest, last =>
      packet.Legal ∧ mem.read (first % rtlRxBufferSize) packet.bytes.length = packet.bytes ∧
        PacketsAt mem (first + packet.room) rest last

section Packets

variable {mem : Mem} {first last : Nat} {packets : List RxPacket} {packet : RxPacket}

section

variable (held : PacketsAt mem first packets last)
include held

theorem PacketsAt.order : first ≤ last := by
  induction packets generalizing first with
  | nil => exact Nat.le_of_eq held
  | cons packet rest ih =>
      have later := ih held.2.2
      omega

theorem PacketsAt.concat (legal : packet.Legal)
    (here : mem.read (last % rtlRxBufferSize) packet.bytes.length = packet.bytes) :
    PacketsAt mem first (packets ++ [packet]) (last + packet.room) := by
  induction packets generalizing first with
  | nil =>
      obtain rfl : first = last := held
      exact ⟨legal, here, rfl⟩
  | cons other rest ih => exact ⟨held.1, held.2.1, ih held.2.2⟩

theorem PacketsAt.store {bytes : List UInt8}
    (fits : last + bytes.length ≤ first + rtlRxBufferSize) :
    PacketsAt (mem.store (last % rtlRxBufferSize) bytes) first packets last := by
  induction packets generalizing first with
  | nil => exact held
  | cons packet rest ih =>
      obtain ⟨legal, here, later⟩ := held
      have room := @packet.room_bounds
      have order := later.order
      refine ⟨legal, ?_, ih later (by omega)⟩
      rw [← here, Mem.read_length]
      apply Mem.read_congr
      intro index bound
      rw [RxPacket.length] at bound
      apply Mem.store_outside
      simp only [rtlRxBufferSize] at fits ⊢
      omega

end

end Packets

def RxRun.next (s : RxRun) : Option (List UInt8) := s.stored[s.returned.length]?

/-- Where the next frame lies behind the ring, the bytes at the start of the ring are the same. -/
def RxRun.EndsInRing (s : RxRun) : Prop :=
  ∀ frame ∈ s.next, ∀ i < frame.length, rtlRxBufferSize ≤ s.nic.rxOffset + 4 + i →
    s.nic.rxBuffer (s.nic.rxOffset + 4 + i - rtlRxBufferSize) = frame.getD i 0

instance (s : RxRun) : Decidable s.EndsInRing :=
  inferInstanceAs (Decidable (∀ frame ∈ s.next, ∀ i < frame.length, _ ≤ s.nic.rxOffset + 4 + i → _ = _))

def RxEvent.ReadsBack (s : RxRun) : RxEvent → Prop
  | .receive _ => True
  | .poll => s.EndsInRing

instance (s : RxRun) : (event : RxEvent) → Decidable (event.ReadsBack s)
  | .receive _ => .isTrue trivial
  | .poll => inferInstanceAs (Decidable s.EndsInRing)

structure RxWaiting (s : RxRun) (first : Nat) (packets : List RxPacket) (last : Nat) : Prop where
  initialized : s.nic.initialized = true
  wrap : s.nic.rcr.testBit rtlRcrWrap = true
  aligned : first % 4 = 0
  offset : s.nic.rxOffset = first % rtlRxBufferSize
  readTo : s.nic.readPosition = first % rtlRxBufferSize
  written : s.nic.writePosition = last % rtlRxBufferSize
  room : last < first + rtlRxBufferSize
  held : PacketsAt s.nic.rxBuffer first packets last
  frames : packets.map RxPacket.frame = s.stored.drop s.returned.length
  returned : s.returned.length ≤ s.stored.length

def RxAgrees (s : RxRun) : Prop := ∃ first packets last, RxWaiting s first packets last

section Runs

variable {s after : RxRun} {first last outCapacity : Nat} {packets : List RxPacket} {packet : RxPacket}

theorem RxWaiting.empty (waiting : RxWaiting s first packets last) : s.nic.rxEmpty = true ↔
    packets = [] := by
  have order := waiting.held.order
  have room := waiting.room
  rw [Rtl8139.rxEmpty, waiting.written, waiting.readTo, decide_eq_true_iff]
  constructor
  · intro same
    have equal : first = last := by
      simp only [rtlRxBufferSize] at same room
      omega
    cases packets with
    | nil => rfl
    | cons packet rest =>
        have later := waiting.held.2.2.order
        have := @packet.room_bounds
        omega
  · rintro rfl
    rw [show first = last from waiting.held]

theorem RxWaiting.receive (waiting : RxWaiting s first packets last) (legal : packet.Legal)
    {nic : Rtl8139} (received : s.nic.receive packet = some nic) :
    RxWaiting { s with nic, stored := s.stored ++ [packet.frame] } first (packets ++ [packet])
    (last + packet.room) := by
  have order := waiting.held.order
  have room := waiting.room
  have bounds := @packet.room_bounds
  unfold Rtl8139.receive at received
  simp only [waiting.wrap, if_true] at received
  split at received
  next fits =>
    cases received
    have used : (last % rtlRxBufferSize + rtlRxBufferSize - first % rtlRxBufferSize) %
        rtlRxBufferSize = last - first := by
      simp only [rtlRxBufferSize] at room ⊢
      omega
    rw [waiting.written, waiting.readTo, used] at fits
    have stored : PacketsAt (s.nic.rxBuffer.store (last % rtlRxBufferSize) packet.bytes) first
      packets last := by
      apply waiting.held.store
      rw [RxPacket.length]
      omega
    refine ⟨waiting.initialized, waiting.wrap, waiting.aligned, waiting.offset, waiting.readTo, ?_,
      ?_, ?_, ?_, ?_⟩
    · simp only [waiting.written, rtlRxBufferSize]
      omega
    · simp only [rtlRxBufferSize] at fits room ⊢
      omega
    · simp only [waiting.written]
      apply stored.concat legal
      exact Mem.read_store_same _ _ _
    · rw [List.map_append, waiting.frames]
      exact (List.drop_append_of_le_length waiting.returned).symm
    · simp only [List.length_append]
      have := waiting.returned
      omega
  next => contradiction

theorem ringRead_inside {mem : Mem} {place : Nat} (inside : place < rtlRxBufferSize) :
    rtl8139RingReadU8 mem place = mem place := by
  rw [rtl8139RingReadU8, Nat.mod_eq_of_lt inside]

theorem ringReadU16_inside {mem : Mem} {place : Nat} (inside : place + 1 < rtlRxBufferSize) :
    rtl8139RingReadU16 mem place = mem.readLE place 2 := by
  simp only [rtl8139RingReadU16, ringRead_inside inside, ringRead_inside (Nat.lt_of_succ_lt inside),
    Mem.readLE]
  omega

theorem ringCopy_frame {mem : Mem} {place : Nat} {frame : List UInt8} (inside : place ≤ rtlRxBufferSize)
    (small : frame.length ≤ rtlRxBufferSize) (here : mem.read place frame.length = frame) :
    rtl8139RingCopy mem place frame.length = frame ↔ ∀ i < frame.length,
      rtlRxBufferSize ≤ place + i → mem (place + i - rtlRxBufferSize) = frame.getD i 0 := by
  have bytes : ∀ i < frame.length, mem (place + i) = frame.getD i 0 := by
    intro i bound
    have byte := congrArg (fun bytes : List UInt8 => bytes.getD i 0) here
    simpa [Mem.read, bound] using byte
  have reads : ∀ i < frame.length, (rtl8139RingCopy mem place frame.length).getD i 0 =
      if place + i < rtlRxBufferSize then frame.getD i 0 else mem (place + i - rtlRxBufferSize) := by
    intro i bound
    rw [← bytes i bound]
    simp only [rtl8139RingCopy, List.getD_eq_getElem?_getD, List.getElem?_map,
      List.getElem?_range bound, Option.map_some, Option.getD_some]
    by_cases before : place + i < rtlRxBufferSize
    · rw [if_pos before, ringRead_inside before]
    · rw [if_neg before, rtl8139RingReadU8, Nat.mod_eq_sub_mod (by omega), Nat.mod_eq_of_lt (by omega)]
  have length : (rtl8139RingCopy mem place frame.length).length = frame.length := by
    simp [rtl8139RingCopy]
  constructor
  · intro same i bound behind
    have read := reads i bound
    rw [same, if_neg (by omega)] at read
    exact read.symm
  · intro wrapped
    apply List.ext_getElem length
    intro i bound frameBound
    have read := reads i frameBound
    rw [List.getD_eq_getElem _ _ bound, List.getD_eq_getElem _ _ frameBound] at read
    rw [read]
    split
    next => rfl
    next behind =>
      rw [wrapped i frameBound (by omega), List.getD_eq_getElem _ _ frameBound]

theorem RxWaiting.poll {rest : List RxPacket} (waiting : RxWaiting s first (packet :: rest) last)
    (large : 1514 ≤ outCapacity) :
    ∃ nic, rtl8139HwPollFrame outCapacity s.nic =
        (some (rtl8139RingCopy s.nic.rxBuffer (s.nic.rxOffset + 4) packet.frame.length), nic) ∧
      RxWaiting { s with nic, returned := s.returned ++
        [rtl8139RingCopy s.nic.rxBuffer (s.nic.rxOffset + 4) packet.frame.length] }
        (first + packet.room) rest last := by
  obtain ⟨legal, here, later⟩ := waiting.held
  obtain ⟨odd, least, most⟩ := legal
  obtain ⟨status, length, -⟩ := packet_parts here
  have bounds := @RxPacket.room_bounds packet
  have aligned := waiting.aligned
  have order := later.order
  have room := waiting.room
  have inRing : first % rtlRxBufferSize + 3 < rtlRxBufferSize := by
    simp only [rtlRxBufferSize]
    omega
  have notEmpty : s.nic.rxEmpty = false := by
    rw [Bool.eq_false_iff, ne_eq, waiting.empty]
    simp
  have statusRead : rtl8139RingReadU16 s.nic.rxBuffer s.nic.rxOffset = packet.status.toNat := by
    rw [waiting.offset, ringReadU16_inside (by omega), status, Nat.mod_eq_of_lt packet.status.toNat_lt]
  have lengthRead : rtl8139RingReadU16 s.nic.rxBuffer (s.nic.rxOffset + 2) =
    packet.frame.length + 4 := by
    rw [waiting.offset, ringReadU16_inside (by omega), length, Nat.mod_eq_of_lt (by omega)]
  have advanced : (s.nic.rxOffset + (packet.frame.length + 4) + 4 + 3) / 4 * 4 % rtlRxBufferSize =
      (first + packet.room) % rtlRxBufferSize := by
    rw [waiting.offset]
    simp only [RxPacket.room, RxPacket.length, rtlRxBufferSize]
    omega
  have whole : ¬(packet.frame.length + 4 - 4 > outCapacity) := by omega
  refine ⟨{ s.nic with
    rxOffset := (first + packet.room) % rtlRxBufferSize
    capr := ((first + packet.room) % rtlRxBufferSize + 0x10000 - 16) % 0x10000 }, ?_, ?_⟩
  · rw [rtl8139HwPollFrame]
    simp only [waiting.initialized, notEmpty, statusRead, lengthRead, advanced, if_neg whole]
    rw [if_neg (by simp; omega), if_neg (by simp), if_neg (by omega), Nat.add_sub_cancel]
  · have count : s.returned.length < s.stored.length := by
      have lengths := congrArg List.length waiting.frames
      simp only [List.map_cons, List.length_cons, List.length_drop] at lengths
      omega
    refine ⟨waiting.initialized, waiting.wrap, by omega, rfl, ?_, waiting.written, by omega, later, ?_, ?_⟩
    · simp only [Rtl8139.readPosition, rtlRxBufferSize]
      omega
    · have frames := congrArg (List.drop 1) waiting.frames
      simp only [List.map_cons, List.drop_succ_cons, List.drop_zero, List.drop_drop] at frames
      rw [frames, List.length_append]
      rfl
    · simp only [List.length_append, List.length_singleton]
      omega

theorem RxWaiting.pollEmpty (waiting : RxWaiting s first [] last) :
    rtl8139HwPollFrame outCapacity s.nic = (none, s.nic) := by
  rw [rtl8139HwPollFrame]
  simp [waiting.initialized, waiting.empty.mpr rfl]

theorem RxAgrees.polls (large : 1514 ≤ outCapacity) (agrees : RxAgrees s) :
    (rtl8139HwPollFrame outCapacity s.nic).1.isSome ↔ s.returned.length < s.stored.length := by
  obtain ⟨first, packets, last, waiting⟩ := agrees
  have lengths := congrArg List.length waiting.frames
  rw [List.length_map, List.length_drop] at lengths
  cases packets with
  | nil =>
      rw [waiting.pollEmpty]
      simp only [List.length_nil] at lengths
      simp
      omega
  | cons packet rest =>
      obtain ⟨nic, polled, -⟩ := waiting.poll large
      rw [polled]
      simp only [List.length_cons] at lengths
      simp
      omega

theorem RxWaiting.nextFrame (waiting : RxWaiting s first packets last) :
    s.next = packets.head?.map RxPacket.frame := by
  rw [RxRun.next, ← List.head?_map, waiting.frames, List.head?_drop]

theorem rxStep_agrees {event : RxEvent} (large : 1514 ≤ outCapacity) (agrees : RxAgrees s)
    (stepped : rxStep outCapacity s event = some after) :
    RxAgrees after ∧ (after.returned <+: after.stored ↔ s.returned <+: s.stored ∧ event.ReadsBack s) := by
  obtain ⟨first, packets, last, waiting⟩ := agrees
  cases event with
  | receive packet =>
      rw [rxStep] at stepped
      split at stepped
      next legal =>
        obtain ⟨nic, received, rfl⟩ := Option.map_eq_some_iff.mp stepped
        refine ⟨⟨_, _, _, waiting.receive legal received⟩, ?_⟩
        rw [RxEvent.ReadsBack, and_true, List.prefix_iff_eq_take, List.prefix_iff_eq_take,
          List.take_append_of_le_length waiting.returned]
      next => contradiction
  | poll =>
      rw [rxStep] at stepped
      cases packets with
      | nil =>
          rw [waiting.pollEmpty] at stepped
          cases stepped
          refine ⟨⟨_, _, _, waiting⟩, (and_iff_left ?_).symm⟩
          simp [RxEvent.ReadsBack, RxRun.EndsInRing, waiting.nextFrame]
      | cons packet rest =>
          obtain ⟨nic, polled, later⟩ := waiting.poll large
          rw [polled] at stepped
          cases stepped
          refine ⟨⟨_, _, _, later⟩, ?_⟩
          obtain ⟨⟨-, -, most⟩, here, -⟩ := waiting.held
          obtain ⟨-, -, frame⟩ := packet_parts here
          have aligned := waiting.aligned
          have inside : s.nic.rxOffset + 4 ≤ rtlRxBufferSize := by
            rw [waiting.offset]
            simp only [rtlRxBufferSize]
            omega
          have small : packet.frame.length ≤ rtlRxBufferSize := Nat.le_trans most (by decide)
          rw [← waiting.offset] at frame
          have stored : s.stored = s.stored.take s.returned.length ++ packet.frame ::
            rest.map RxPacket.frame := by
            rw [← List.map_cons, waiting.frames, List.take_append_drop]
          have reads : RxEvent.poll.ReadsBack s ↔
              rtl8139RingCopy s.nic.rxBuffer (s.nic.rxOffset + 4) packet.frame.length = packet.frame := by
            rw [ringCopy_frame inside small frame]
            simp [RxEvent.ReadsBack, RxRun.EndsInRing, waiting.nextFrame]
          rw [reads]
          conv_lhs => rw [stored]
          rw [List.prefix_append_inj_of_length_eq, List.singleton_prefix_cons_iff, List.prefix_iff_eq_take]
          rw [List.length_take, Nat.min_eq_left waiting.returned]

theorem rtl8139HwInit_agrees (rxBuffer : Mem) : RxAgrees (rxStart rxBuffer) :=
  have wrap : (0x0000000F ||| (1 <<< 7) : Nat).testBit rtlRcrWrap = true := by decide
  have readTo : (0xFFF0 + 16) % 0x10000 % rtlRxBufferSize = 0 % rtlRxBufferSize := by decide
  ⟨0, [], 0, rfl, wrap, rfl, rfl, readTo, rfl, by decide, rfl, rfl, Nat.le_refl _⟩

end Runs

/-- Polls return the received frames, in order and whole, exactly when each frame ends in the ring
or is followed there by its own bytes. -/
theorem rtl8139_polls_in_order (outCapacity : Nat) (large : 1514 ≤ outCapacity) (rxBuffer : Mem)
    (events : List RxEvent) (s : RxRun)
    (reached : runActions (rxStep outCapacity) (rxStart rxBuffer) events = some s) :
    (s.returned <+: s.stored ∧
        ((rtl8139HwPollFrame outCapacity s.nic).1.isSome ↔ s.returned.length < s.stored.length)) ↔
      RunMeets (rxStep outCapacity) (fun state event => event.ReadsBack state)
      (rxStart rxBuffer) events := by
  have exact := @runActions_exact _ _ (rxStep outCapacity) (fun state event =>
    event.ReadsBack state) RxAgrees (fun state => state.returned <+: state.stored)
    (fun state event next agrees stepped => (rxStep_agrees large agrees stepped).1)
    (fun state event next agrees stepped => (rxStep_agrees large agrees stepped).2)
    _ _ _ (rtl8139HwInit_agrees rxBuffer) reached
  have agrees : RxAgrees s := runActions_invariant
    (fun state event next agrees stepped => (rxStep_agrees large agrees stepped).1)
    (rtl8139HwInit_agrees rxBuffer) reached
  rw [and_iff_left (agrees.polls large), exact]
  exact and_iff_right List.nil_prefix

/-- Two frames arrive before the first poll and one behind it. -/
def threePackets : List RxEvent :=
  [.receive ⟨1, List.replicate 60 7, Vector.replicate 4 0⟩, .receive ⟨1, List.replicate 61 8,
   Vector.replicate 4 0⟩, .poll, .receive ⟨1, List.replicate 62 9, Vector.replicate 4 0⟩, .poll]

theorem threePackets_polled : ∃ s, runActions (rxStep 1578) (rxStart fun _ => 0) threePackets =
    some s ∧ s.stored.length = 3 ∧ s.returned.length = 2 ∧ s.returned <+: s.stored ∧
      (rtl8139HwPollFrame 1578 s.nic).1.isSome = true := by
  have lengths : (runActions (rxStep 1578) (rxStart fun _ => 0) threePackets).map
      (fun s => (s.stored.length, s.returned.length)) = some (3, 2) := by decide +kernel
  obtain ⟨s, reached, same⟩ := Option.map_eq_some_iff.mp lengths
  obtain ⟨stored, returned⟩ := Prod.mk.inj same
  obtain ⟨inOrder, more⟩ := (rtl8139_polls_in_order 1578 (by decide) _ _ s reached).mpr
    (by decide +kernel)
  exact ⟨s, reached, stored, returned, inOrder, more.mpr (by rw [stored, returned]; decide)⟩

def maximalPacket : RxPacket := ⟨1, List.replicate 1514 1, Vector.replicate 4 0⟩
def sixPackets : List RxEvent :=
  (List.replicate 6 [RxEvent.receive maximalPacket, RxEvent.poll]).flatten

/-- The sixth packet ends behind the ring, and the driver reads the beginning of the ring there. -/
theorem sixthPacket_misread : ∃ s,
    runActions (rxStep 1578) (rxStart fun _ => 0) sixPackets = some s ∧ ¬s.returned <+: s.stored := by
  have bytes : ((runActions (rxStep 1578) (rxStart fun _ => 0) sixPackets).map fun s =>
      (s.stored[5]?.bind (·[569]?), s.returned[5]?.bind (·[569]?))) = some (some 1, some 0) := by
    decide +kernel
  obtain ⟨s, reached, same⟩ := Option.map_eq_some_iff.mp bytes
  refine ⟨s, reached, fun inOrder => ?_⟩
  obtain ⟨stored, returned⟩ := Prod.mk.inj same
  obtain ⟨frame, frameAt, -⟩ := Option.bind_eq_some_iff.mp returned
  obtain ⟨bound, -⟩ := List.getElem?_eq_some_iff.mp frameAt
  rw [List.prefix_iff_getElem?.mp inOrder 5 bound] at stored
  rw [List.getElem?_eq_getElem bound, stored] at returned
  exact absurd returned (by decide)

end Szczupak
