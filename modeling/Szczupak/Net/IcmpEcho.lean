import Szczupak.Net.RoundTrip

/-!
The answer to a ping.  A frame handed to the card is counted in `attempts`,
and is on the wire when the card takes it.
-/

namespace Szczupak

def IcmpSumValid (message : List UInt8) : Prop := wordSum message % 65535 = 0

instance (message : List UInt8) : Decidable (IcmpSumValid message) :=
  inferInstanceAs (Decidable (_ = _))

/-- What `net_handle_icmp` answers. -/
structure EchoAsked (world : World) (config : NetConfig) (message : List UInt8) (dstIp : UInt32)
    (srcMac : Mac) : Prop where
  card : world.initialized = true
  configured : config.configured = true ∧ config.ip ≠ ipZero
  ours : dstIp = config.ip
  sender : srcMac ≠ macZero ∧ srcMac ≠ macBroadcast
  header : 8 ≤ message.length
  fits : message.length ≤ 1480
  request : byteAt message 0 = 8 ∧ byteAt message 1 = 0
  sum : IcmpSumValid message

structure EchoAnswer (ourIp srcIp : UInt32) (request header reply : List UInt8) : Prop where
  headerLength : header.length = ipv4HeaderSize
  headerSum : wordSum header % 65535 = 0
  datagram : ipv4Accept (header ++ reply) = some ⟨ourIp, srcIp, ipProtoIcmp, reply⟩
  length : reply.length = request.length
  type : byteAt reply 0 = 0 ∧ byteAt reply 1 = 0
  sum : IcmpSumValid reply
  content : reply.drop 4 = request.drop 4

def HandsOver (world : World) (state after : NetState) (frame : List UInt8) : Prop :=
  after.attempts = state.attempts + 1 ∧
    after.wire = if world.accepts state.attempts then state.wire ++ [frame] else state.wire

def HandsNothing (state after : NetState) : Prop := after.attempts = state.attempts ∧
    after.wire = state.wire

section Echo

variable {world : World} {state : NetState} {message : List UInt8} {srcIp dstIp : UInt32} {srcMac : Mac}

theorem checksumFinalize_zero {data : List UInt8} (short : data.length ≤ 2000) :
    checksumFinalize (checksumAddBytes 0 data) = 0 ↔ 0 < wordSum data ∧ wordSum data % 65535 = 0 := by
  have limit := wordSum_le data
  have total := @checksumAddBytes_toNat data 0 (by
    have zero : UInt32.toNat 0 = 0 := rfl
    omega)
  obtain ⟨fold, same, some⟩ := @endAround_twice (wordSum data) (by omega)
  have zero : UInt32.toNat 0 = 0 := rfl
  rw [zero, Nat.zero_add] at total
  rw [← UInt16.toNat_inj, checksumFinalize_toNat, total, UInt16.toNat_zero]
  constructor
  · intro complete
    have positive : 0 < wordSum data := by
      by_contra none
      have empty : wordSum data = 0 := by omega
      rw [empty] at complete
      exact absurd complete (by decide)
    omega
  · rintro ⟨positive, valid⟩
    have nonzero := some positive
    omega

theorem wordSum_pos {message : List UInt8} (request : byteAt message 0 = 8) : 0 < wordSum message := by
  match message with
  | [] => cases request
  | [only] =>
      have same : only = 8 := request
      rw [same]
      decide
  | high :: low :: rest =>
      have same : high = 8 := request
      rw [same, wordSum]
      have eight : UInt8.toNat 8 = 8 := rfl
      omega

theorem icmpEchoReply_length (header : 8 ≤ message.length) :
    (icmpEchoReply message).length = message.length := by
  simp only [icmpEchoReply, List.length_append, be16_length, List.length_cons, List.length_nil,
    List.length_drop]
  omega

theorem icmpEchoReply_verifies (fits : message.length ≤ 1480) :
    icmpChecksum (icmpEchoReply message) = 0 := by
  unfold icmpChecksum icmpEchoReply
  dsimp only
  refine @checksum_verifies [0, 0] (message.drop 4) ([0, 0, 0, 0] ++ message.drop 4) _ 0
    (icmpChecksum ([0, 0, 0, 0] ++ message.drop 4)) rfl ?_ rfl (by decide) ?_ (.inl rfl)
  · rw [List.append_assoc]
  · simp only [List.length_cons, List.length_nil, List.length_drop]
    omega

theorem icmpEchoReply_answers (ourIp srcIp : UInt32) (identification : UInt16)
    (header : 8 ≤ message.length) (fits : message.length ≤ 1480) :
    EchoAnswer ourIp srcIp message (ipv4Header (UInt16.ofNat (ipv4HeaderSize + message.length))
      identification 64 ipProtoIcmp ourIp srcIp) (icmpEchoReply message) := by
  have length := icmpEchoReply_length header
  have size : ipv4HeaderSize = 20 := rfl
  have accepted := @ipv4Accept_sent ourIp srcIp identification 64 ipProtoIcmp
    (icmpEchoReply message) (by omega) []
  rw [List.append_nil, length] at accepted
  have headerLength := ipv4Header_length (UInt16.ofNat (ipv4HeaderSize + message.length))
    identification 64 ipProtoIcmp ourIp srcIp
  refine ⟨headerLength, ?_, accepted, length, ⟨rfl, rfl⟩, ?_, rfl⟩
  · exact ((checksumFinalize_zero (by omega)).mp (ipv4Header_verifies _ _ _ _ _ _)).2
  · exact ((checksumFinalize_zero (by omega)).mp (icmpEchoReply_verifies fits)).2

theorem netSendEthernetFrame_card {dstMac : Mac} {ethertype : UInt16} {payload : List UInt8}
    (fits : payload.length ≤ ethMtu) :
    (world.initialized = true → HandsOver world state (netSendEthernetFrame world state dstMac
      ethertype payload).2 (ethernetFrame dstMac world.mac ethertype payload)) ∧
    (world.initialized ≠ true →
      HandsNothing state (netSendEthernetFrame world state dstMac ethertype payload).2) := by
  unfold netSendEthernetFrame
  constructor
  · intro card
    rw [if_neg (by simp [card, fits])]
    exact ⟨rfl, rfl⟩
  · intro missing
    rw [if_pos (by simp [missing])]
    exact ⟨rfl, rfl⟩

theorem netHandleIcmp_other
    (other : ¬(8 ≤ message.length ∧ icmpChecksum message = 0 ∧ byteAt message 0 = 8 ∧
    byteAt message 1 = 0)) :
    HandsNothing state (netHandleIcmp world state message srcIp dstIp srcMac) := by
  unfold netHandleIcmp
  dsimp only
  split
  · exact ⟨rfl, rfl⟩
  · next header =>
    split
    · exact ⟨rfl, rfl⟩
    · next summed =>
      rw [if_neg (fun request => other ⟨by omega, by simpa using summed, request.1, request.2⟩)]
      split
      · split
        · exact ⟨rfl, rfl⟩
        · exact ⟨rfl, rfl⟩
      · split
        · split
          · exact ⟨rfl, rfl⟩
          · exact ⟨rfl, rfl⟩
        · exact ⟨rfl, rfl⟩

theorem netHandleIcmp_request (header : 8 ≤ message.length) (summed : icmpChecksum message = 0)
    (request : byteAt message 0 = 8 ∧ byteAt message 1 = 0) :
    netHandleIcmp world state message srcIp dstIp srcMac =
    icmpAnswerEcho world state message srcIp dstIp srcMac := by
  unfold netHandleIcmp
  dsimp only
  rw [if_neg (by omega), if_neg (by simp [summed]), if_pos request]

def EchoGuards (config : NetConfig) (message : List UInt8) (dstIp : UInt32) (srcMac : Mac) : Prop :=
  (config.configured = true ∧ config.ip ≠ ipZero) ∧ (srcMac ≠ macZero ∧ srcMac ≠ macBroadcast) ∧
    dstIp = config.ip ∧ message.length ≤ 1480

theorem icmpAnswerEcho_refuses (refused : ¬EchoGuards state.config message dstIp srcMac) :
    HandsNothing state (icmpAnswerEcho world state message srcIp dstIp srcMac) := by
  unfold icmpAnswerEcho
  split
  · exact ⟨rfl, rfl⟩
  · next configured =>
    split
    · exact ⟨rfl, rfl⟩
    · next sender =>
      split
      · exact ⟨rfl, rfl⟩
      · next ours =>
        split
        · exact ⟨rfl, rfl⟩
        · next fits =>
          exfalso
          apply refused
          have limit : ethMtu - ipv4HeaderSize = 1480 := rfl
          refine ⟨by simpa using configured, not_or.mp sender, not_not.mp ours, by omega⟩

theorem icmpAnswerEcho_answers (guards : EchoGuards state.config message dstIp srcMac) :
    ∃ cache readings, icmpAnswerEcho world state message srcIp dstIp srcMac =
      (netSendEthernetFrame world
        { state with ipIdentification := state.ipIdentification + 1, arpCache := cache, readings := readings }
        srcMac ethTypeIpv4 (ipv4Header (UInt16.ofNat (ipv4HeaderSize + message.length))
          state.ipIdentification 64
          ipProtoIcmp state.config.ip srcIp ++ icmpEchoReply message)).2 := by
  obtain ⟨configured, sender, ours, fits⟩ := guards
  have limit : ethMtu - ipv4HeaderSize = 1480 := rfl
  unfold icmpAnswerEcho
  rw [if_neg (by simpa using configured), if_neg (not_or.mpr sender), if_neg (not_not.mpr ours),
    if_neg (by omega)]
  dsimp only
  unfold arpCacheUpdate
  split
  · exact ⟨state.arpCache, state.readings, rfl⟩
  · dsimp only
    split
    · exact ⟨_, _, rfl⟩
    · exact ⟨_, _, rfl⟩

theorem icmpAnswerEcho_sends (guards : EchoGuards state.config message dstIp srcMac)
    (header : 8 ≤ message.length) :
    ∃ ipHeader reply, EchoAnswer state.config.ip srcIp message ipHeader reply ∧
      (world.initialized = true → HandsOver world state (icmpAnswerEcho world state message
        srcIp dstIp srcMac) (ethernetFrame srcMac world.mac ethTypeIpv4 (ipHeader ++ reply))) ∧
      (world.initialized ≠ true →
      HandsNothing state (icmpAnswerEcho world state message srcIp dstIp srcMac)) := by
  have fits := guards.2.2.2
  have answer := icmpEchoReply_answers state.config.ip srcIp state.ipIdentification header fits
  obtain ⟨cache, readings, sent⟩ := @icmpAnswerEcho_answers world
    state message srcIp dstIp srcMac guards
  refine ⟨_, _, answer, ?_⟩
  rw [sent]
  refine netSendEthernetFrame_card ?_
  rw [List.length_append, answer.headerLength, answer.length]
  have size : ipv4HeaderSize = 20 := rfl
  have limit : ethMtu = 1500 := rfl
  omega

end Echo

/-- A request is answered with one packet, whatever else happens nothing is sent. -/
theorem icmp_echo_answered (world : World) (state : NetState) (message : List UInt8)
    (srcIp dstIp : UInt32) (srcMac : Mac) :
    (EchoAsked world state.config message dstIp srcMac →
      ∃ header reply, EchoAnswer state.config.ip srcIp message header reply ∧
        HandsOver world state (netHandleIcmp world state message srcIp dstIp srcMac)
          (ethernetFrame srcMac world.mac ethTypeIpv4 (header ++ reply))) ∧
    (¬EchoAsked world state.config message dstIp srcMac →
      HandsNothing state (netHandleIcmp world state message srcIp dstIp srcMac)) := by
  constructor
  · intro asked
    have summed : icmpChecksum message = 0 :=
      (checksumFinalize_zero (by have fits := asked.fits; omega)).mpr ⟨wordSum_pos asked.request.1, asked.sum⟩
    rw [netHandleIcmp_request asked.header summed asked.request]
    obtain ⟨header, reply, answer, sends, _⟩ := @icmpAnswerEcho_sends world state message
      srcIp dstIp srcMac ⟨asked.configured, asked.sender, asked.ours, asked.fits⟩ asked.header
    exact ⟨header, reply, answer, sends asked.card⟩
  · intro silent
    by_cases request : 8 ≤ message.length ∧ icmpChecksum message = 0 ∧ byteAt message 0 = 8 ∧
      byteAt message 1 = 0
    · obtain ⟨header, summed, request⟩ := request
      rw [netHandleIcmp_request header summed request]
      by_cases guards : EchoGuards state.config message dstIp srcMac
      · obtain ⟨_, _, _, _, refuses⟩ :=
          @icmpAnswerEcho_sends world state message srcIp dstIp srcMac guards header
        apply refuses
        intro card
        obtain ⟨configured, sender, ours, fits⟩ := guards
        have sum := ((checksumFinalize_zero (by omega)).mp summed).2
        exact silent ⟨card, configured, ours, sender, header, fits, request, sum⟩
      · exact icmpAnswerEcho_refuses guards
    · exact netHandleIcmp_other request

/-- A ping of 10.0.0.1 that comes from a multicast hardware address. -/
def multicastPing : List UInt8 := [8, 0, 0xF7, 0xFD, 0, 1, 0, 1]

def multicastMac : Mac := ⟨#[1, 0, 0x5E, 0, 0, 1], rfl⟩

theorem multicastPing_answered : multicastMac[0] % 2 = 1 ∧ IcmpSumValid multicastPing ∧
    (netHandleIcmp lanWorld lanState multicastPing 0x0A000002 0x0A000001 multicastMac).wire.length =
    1 := by
  decide +kernel

end Szczupak
