import Szczupak.Net.RoundTrip

/-!
The checksum of received UDP datagrams.  `net_handle_udp` adds up a copy in a buffer of 1508 bytes,
and the frame buffer admits longer datagrams.
-/

namespace Szczupak

def udpWords (srcIp dstIp : UInt32) (datagram : List UInt8) : Nat :=
  srcIp.toNat / 65536 + srcIp.toNat % 65536 + dstIp.toNat / 65536 + dstIp.toNat % 65536 +
    ipProtoUdp.toNat + datagram.length + wordSum datagram

def UdpSumValid (srcIp dstIp : UInt32) (datagram : List UInt8) : Prop :=
  udpWords srcIp dstIp datagram % 65535 = 0

instance (srcIp dstIp : UInt32) (datagram : List UInt8) :
    Decidable (UdpSumValid srcIp dstIp datagram) :=
  inferInstanceAs (Decidable (_ = _))

/-- The bytes of a UDP datagram in an IPv4 payload, as many as its header says. -/
def udpBytes (payload : List UInt8) : List UInt8 := payload.take (readBe16 payload 4).toNat

def UdpWhole (payload : List UInt8) : Prop :=
  udpHeaderSize ≤ (readBe16 payload 4).toNat ∧ (readBe16 payload 4).toNat ≤ payload.length

instance (payload : List UInt8) : Decidable (UdpWhole payload) :=
  inferInstanceAs (Decidable (_ ∧ _))

def udpDeliver (world : World) (state : NetState) (datagram : UdpDatagram)
    (srcIp : UInt32) : Option NetState :=
  if datagram.srcPort = 67 ∧ datagram.dstPort = 68 then dhcpHandlePacket world state
    datagram.payload srcIp
  else some (dnsHandleUdpPacket world state datagram.payload srcIp datagram.srcPort datagram.dstPort)

/-- The datagram an IPv4 packet hands to one of the two handlers. -/
def udpHanded (config : NetConfig) (datagram : Ipv4Datagram) : Option UdpDatagram :=
  if ipv4ForUs config datagram.dstIp then udpAccept datagram.payload datagram.srcIp datagram.dstIp
    else none

section Verify

variable {srcIp dstIp : UInt32} {payload datagram : List UInt8}

theorem pseudoHeaderSum_toNat (srcIp dstIp : UInt32) {length : Nat} (fits : length < 65536) :
    (pseudoHeaderSum srcIp dstIp ipProtoUdp length).toNat =
      srcIp.toNat / 65536 + srcIp.toNat % 65536 + dstIp.toNat / 65536 + dstIp.toNat % 65536 +
      ipProtoUdp.toNat +
        length := by
  have low : ∀ word : UInt32, (word &&& (0xFFFF : UInt32)).toNat = word.toNat % 65536 := by
    intro word
    rw [UInt32.toNat_and]
    exact Nat.and_two_pow_sub_one_eq_mod word.toNat 16
  have high : ∀ word : UInt32, (word >>> 16).toNat % 65536 = word.toNat / 65536 := by
    intro word
    have bound := word.toNat_lt
    have shifted : (word >>> 16).toNat = word.toNat / 65536 := by
      rw [UInt32.toNat_shiftRight]
      exact Nat.shiftRight_eq_div_pow word.toNat 16
    rw [shifted]
    omega
  have narrow : (UInt16.ofNat length).toNat = length := UInt16.toNat_ofNat_of_lt' fits
  have halves : ∀ word : UInt32, word.toNat / 65536 < 65536 ∧ word.toNat % 65536 < 65536 := by
    intro word
    have bound := word.toNat_lt
    omega
  obtain ⟨srcHigh, srcLow⟩ := halves srcIp
  obtain ⟨dstHigh, dstLow⟩ := halves dstIp
  have protocol := ipProtoUdp.toNat_lt
  unfold pseudoHeaderSum
  simp only [UInt32.toNat_add, UInt8.toNat_toUInt32, UInt16.toNat_toUInt32, low, high, narrow]
  generalize srcIp.toNat / 65536 = srcUpper at *
  generalize srcIp.toNat % 65536 = srcLower at *
  generalize dstIp.toNat / 65536 = dstUpper at *
  generalize dstIp.toNat % 65536 = dstLower at *
  omega

/-- The two values that pass say that the sum is valid; the second never occurs without the
substitution of zero. -/
theorem udpChecksum_valid (fits : datagram.length < 65536) :
    udpChecksum srcIp dstIp datagram = 0xFFFF ∨ udpChecksum srcIp dstIp datagram = 0 ↔
      UdpSumValid srcIp dstIp datagram := by
  have words := wordSum_le datagram
  have pseudo := pseudoHeaderSum_toNat srcIp dstIp fits
  have small := pseudoHeaderSum_small srcIp dstIp ipProtoUdp datagram.length
  have total := @checksumAddBytes_toNat datagram
    (pseudoHeaderSum srcIp dstIp ipProtoUdp datagram.length) (by omega)
  rw [pseudo] at total small
  have positive : 0 < udpWords srcIp dstIp datagram := by
    have protocol : ipProtoUdp.toNat = 17 := rfl
    unfold udpWords
    omega
  have bound : udpWords srcIp dstIp datagram < 2 ^ 32 := by
    unfold udpWords
    omega
  obtain ⟨fold, same, some⟩ := endAround_twice bound
  have final := checksumFinalize_toNat
    (checksumAddBytes (pseudoHeaderSum srcIp dstIp ipProtoUdp datagram.length) datagram)
  rw [total] at final
  change _ = 65535 - endAround (endAround (udpWords srcIp dstIp datagram)) at final
  have nonzero := some positive
  have zero : checksumFinalize
      (checksumAddBytes (pseudoHeaderSum srcIp dstIp ipProtoUdp datagram.length) datagram) = 0 ↔
        UdpSumValid srcIp dstIp datagram := by
    rw [← UInt16.toNat_inj, final, UdpSumValid]
    simp only [UInt16.toNat_zero]
    omega
  have ones : checksumFinalize
      (checksumAddBytes (pseudoHeaderSum srcIp dstIp ipProtoUdp datagram.length) datagram) ≠ 0xFFFF := by
    intro equal
    have value := congrArg UInt16.toNat equal
    rw [final] at value
    have limit : UInt16.toNat 0xFFFF = 65535 := rfl
    omega
  rw [← zero, udpChecksum]
  split
  next isZero => simp [isZero]
  next notZero => simp [notZero, ones]

theorem udpAccept_some : (udpAccept payload srcIp dstIp).isSome = true ↔ UdpWhole payload ∧
    (readBe16 payload 6 = 0 ∨ udpHeaderSize + ethMtu < (readBe16 payload 4).toNat ∨
      UdpSumValid srcIp dstIp (udpBytes payload)) := by
  have range := (readBe16 payload 4).toNat_lt
  have verified := @udpChecksum_valid srcIp dstIp (udpBytes payload) (by
    rw [udpBytes, List.length_take]
    omega)
  rw [← verified, udpAccept, UdpWhole, udpBytes]
  dsimp only
  split
  next short =>
    constructor
    · intro impossible
      cases impossible
    · rintro ⟨whole, _⟩
      omega
  next header =>
    split
    next broken =>
      constructor
      · intro impossible
        cases impossible
      · rintro ⟨whole, _⟩
        omega
    next whole =>
      split
      next refused =>
        obtain ⟨summed, short, ones, zero⟩ := refused
        constructor
        · intro impossible
          cases impossible
        · rintro ⟨_, blank | long | valid | valid⟩
          · exact absurd blank summed
          · omega
          · exact absurd valid ones
          · exact absurd valid zero
      next kept =>
        refine ⟨fun _ => ⟨by omega, ?_⟩, fun _ => rfl⟩
        by_contra refused
        apply kept
        simp only [not_or] at refused
        exact ⟨refused.1, Nat.le_of_not_lt refused.2.1, refused.2.2⟩

end Verify

theorem netHandleIpv4_udp (world : World) (state : NetState) {packet : List UInt8}
    {datagram : Ipv4Datagram}
    (srcMac : Mac) (accepted : ipv4Accept packet = some datagram)
    (udp : datagram.protocol = ipProtoUdp) : netHandleIpv4 world state packet srcMac =
      match udpHanded state.config datagram with
      | none => some (ipv4LearnSender world state datagram.srcIp srcMac)
      | some handed => udpDeliver world (ipv4LearnSender world state datagram.srcIp srcMac) handed
        datagram.srcIp := by
  have config : (ipv4LearnSender world state datagram.srcIp srcMac).config = state.config := by
    unfold ipv4LearnSender
    split
    · exact (arpCacheUpdate_same world state datagram.srcIp srcMac).config
    · rfl
  unfold netHandleIpv4 udpHanded
  simp only [accepted, config]
  split
  next =>
    rw [ipv4Dispatch, udp, if_neg (by decide), if_pos rfl, netHandleUdp]
    cases udpAccept datagram.payload datagram.srcIp datagram.dstIp <;> rfl
  next => rfl

/-- For a packet with a nonzero checksum field, what is handed on has a valid sum, except for a
datagram to this host that is longer than the buffer and whose sum is not. -/
theorem udp_sum_enforced (world : World) (state : NetState) {packet : List UInt8}
    {datagram : Ipv4Datagram}
    (srcMac : Mac) (accepted : ipv4Accept packet = some datagram)
    (udp : datagram.protocol = ipProtoUdp) (summed : readBe16 datagram.payload 6 ≠ 0) :
    netHandleIpv4 world state packet srcMac =
      (match udpHanded state.config datagram with
      | none => some (ipv4LearnSender world state datagram.srcIp srcMac)
      | some handed => udpDeliver world (ipv4LearnSender world state datagram.srcIp srcMac) handed
        datagram.srcIp) ∧
    (((udpHanded state.config datagram).isSome = true →
        UdpSumValid datagram.srcIp datagram.dstIp (udpBytes datagram.payload)) ↔
      ¬(ipv4ForUs state.config datagram.dstIp = true ∧ UdpWhole datagram.payload ∧
        udpHeaderSize + ethMtu < (readBe16 datagram.payload 4).toNat ∧
        ¬UdpSumValid datagram.srcIp datagram.dstIp (udpBytes datagram.payload))) := by
  refine ⟨netHandleIpv4_udp world state srcMac accepted udp, ?_⟩
  rw [udpHanded]
  split
  next forUs =>
    rw [udpAccept_some]
    constructor
    · rintro enforced ⟨_, whole, long, invalid⟩
      exact invalid (enforced ⟨whole, Or.inr (Or.inl long)⟩)
    · rintro covered ⟨whole, blank | long | valid⟩
      · exact absurd blank summed
      · by_contra invalid
        exact covered ⟨forUs, whole, long, invalid⟩
      · exact valid
  next other =>
    constructor
    · rintro _ ⟨forUs, _⟩
      exact other forUs
    · intro _ impossible
      cases impossible

def lanOffer : List UInt8 := udpPacket 7 ipBroadcast 67 68 [1]

def lanOfferPacket : List UInt8 :=
  ipv4Header (UInt16.ofNat (ipv4HeaderSize + lanOffer.length)) 0 64 ipProtoUdp 7 ipBroadcast ++
    (lanOffer ++ [])

theorem udp_sum_enforced_lan :
    netHandleIpv4 lanWorld lanState lanOfferPacket macZero =
      (match udpHanded lanState.config ⟨7, ipBroadcast, ipProtoUdp, lanOffer⟩ with
      | none => some (ipv4LearnSender lanWorld lanState 7 macZero)
      | some handed => udpDeliver lanWorld (ipv4LearnSender lanWorld lanState 7 macZero) handed 7) ∧
    (((udpHanded lanState.config ⟨7, ipBroadcast, ipProtoUdp, lanOffer⟩).isSome = true →
        UdpSumValid 7 ipBroadcast (udpBytes lanOffer)) ↔
      ¬(ipv4ForUs lanState.config ipBroadcast = true ∧ UdpWhole lanOffer ∧
        udpHeaderSize + ethMtu < (readBe16 lanOffer 4).toNat ∧
        ¬UdpSumValid 7 ipBroadcast (udpBytes lanOffer))) :=
  udp_sum_enforced lanWorld lanState macZero (ipv4Accept_sent (by decide) []) rfl (by decide)

/-- A broadcast from a DHCP server to a client, of 1509 bytes and with a wrong checksum. -/
def oversizedPacket : List UInt8 :=
  ipv4Header 1529 0 64 ipProtoUdp 7 ipBroadcast ++
    (be16 67 ++ be16 68 ++ be16 1509 ++ be16 1 ++ List.replicate 1501 0)

theorem oversizedPacket_unverified : oversizedPacket.length ≤ ethMtu + 64 ∧
    ∃ datagram ∈ ipv4Accept oversizedPacket, datagram.protocol = ipProtoUdp ∧
      readBe16 datagram.payload 6 ≠ 0 ∧ (udpHanded lanState.config datagram).isSome = true ∧
      ¬UdpSumValid datagram.srcIp datagram.dstIp (udpBytes datagram.payload) := by
  decide +kernel

end Szczupak
