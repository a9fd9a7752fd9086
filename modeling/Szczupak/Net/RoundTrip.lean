import Szczupak.Lib.OnesComplement
import Szczupak.Net.Transmit

/-!
What the transmit path sends, the receive path accepts and decodes: the checksums verify,
the lengths agree, and the padding of a short frame is cut off.
-/

namespace Szczupak

theorem checksumAddBytes_toNat (data : List UInt8) {sum : UInt32}
    (bound : sum.toNat + wordSum data < 2 ^ 32) :
    (checksumAddBytes sum data).toNat = sum.toNat + wordSum data := by
  induction data using wordSum.induct generalizing sum with
  | case1 high low rest ih =>
      have word : (high.toUInt32 <<< 8 ||| low.toUInt32).toNat = high.toNat * 256 + low.toNat := by
        have shifted : (high.toUInt32 <<< 8).toNat = high.toNat * 2 ^ 8 := shifted_toNat high 8 (by decide)
        rw [UInt32.toNat_or, shifted, UInt8.toNat_toUInt32, or_below 8 low.toNat_lt]
        omega
      simp only [wordSum] at bound
      have added : (sum + (high.toUInt32 <<< 8 ||| low.toUInt32)).toNat =
          sum.toNat + (high.toNat * 256 + low.toNat) := by
        rw [UInt32.toNat_add, word]
        omega
      simp only [checksumAddBytes, wordSum]
      rw [ih (by omega), added]
      omega
  | case2 last =>
      have shifted : (last.toUInt32 <<< 8).toNat = last.toNat * 2 ^ 8 := shifted_toNat last 8 (by decide)
      simp only [wordSum] at bound
      simp only [checksumAddBytes, wordSum]
      rw [UInt32.toNat_add, shifted]
      omega
  | case3 => rfl

theorem checksumFinalize_toNat (sum : UInt32) :
    (checksumFinalize sum).toNat = 65535 - endAround (endAround sum.toNat) := by
  have small := (foldCarry_stops sum).1
  have folded : (foldCarry (foldCarry sum)).toNat = endAround (endAround sum.toNat) := by
    rw [foldCarry_toNat, foldCarry_toNat]
    rfl
  have narrowed : (foldCarry (foldCarry sum)).toUInt16.toNat = endAround (endAround sum.toNat) := by
    rw [UInt32.toNat_toUInt16, folded]
    omega
  unfold checksumFinalize
  rw [UInt16.toNat_not, narrowed]
  rfl

theorem wordSum_be16 (value : UInt16) : wordSum (be16 value) = value.toNat := by
  have bound := value.toNat_lt
  simp only [be16, wordSum]
  rw [highByte_toNat, UInt16.toNat_toUInt8]
  omega

theorem wordSum_field (front rest : List UInt8) (value : UInt16) (even : front.length % 2 = 0) :
    wordSum (front ++ (be16 value ++ rest)) = wordSum (front ++ (be16 0 ++ rest)) + value.toNat := by
  rw [wordSum_append _ _ even, wordSum_append _ _ even, wordSum_append (be16 value) rest (by simp),
    wordSum_append (be16 0) rest (by simp), wordSum_be16, wordSum_be16]
  have zero : UInt16.toNat 0 = 0 := rfl
  omega

theorem checksum_verifies {front rest blank filled : List UInt8} {sum : UInt32} {field : UInt16}
    (blankLayout : blank = front ++ (be16 0 ++ rest))
    (filledLayout : filled = front ++ (be16 field ++ rest)) (even : front.length % 2 = 0)
    (small : sum.toNat < 2 ^ 20) (short : front.length + rest.length < 2 ^ 11)
    (computed : field = checksumFinalize (checksumAddBytes sum blank) ∨
      checksumFinalize (checksumAddBytes sum blank) = 0 ∧ field = 0xFFFF) :
    checksumFinalize (checksumAddBytes sum filled) = 0 := by
  have fieldBound := field.toNat_lt
  have limit := wordSum_le blank
  have length : blank.length = front.length + (2 + rest.length) := by
    rw [blankLayout, List.length_append, List.length_append, be16_length]
  have added : wordSum filled = wordSum blank + field.toNat := by
    rw [filledLayout, blankLayout]
    exact wordSum_field front rest field even
  have blankSum := @checksumAddBytes_toNat blank sum (by omega)
  have filledSum := @checksumAddBytes_toNat filled sum (by omega)
  apply UInt16.toNat.inj
  have zero : UInt16.toNat 0 = 0 := rfl
  rw [checksumFinalize_toNat, filledSum, zero, added, ← Nat.add_assoc]
  rcases computed with same | ⟨none, ones⟩
  · have value := congrArg UInt16.toNat same
    rw [checksumFinalize_toNat, blankSum] at value
    have complete := endAround_complement (by omega) value
    omega
  · have value := congrArg UInt16.toNat none
    rw [checksumFinalize_toNat, blankSum, zero] at value
    have field : field.toNat = 65535 := congrArg UInt16.toNat ones
    have complete := endAround_ones (by omega) value
    rw [field]
    omega

theorem ipv4Header_verifies (totalLength identification : UInt16) (ttl protocol : UInt8)
    (srcIp dstIp : UInt32) :
    ipv4Checksum (ipv4Header totalLength identification ttl protocol srcIp dstIp) = 0 := by
  have layout : ∀ checksum, ipv4HeaderWith checksum totalLength identification ttl
    protocol srcIp dstIp =
      ([0x45, 0] ++ be16 totalLength ++ be16 identification ++ be16 0x4000 ++ [ttl, protocol]) ++
        (be16 checksum ++ (be32 srcIp ++ be32 dstIp)) := by
    intro checksum
    simp only [ipv4HeaderWith, List.append_assoc]
  unfold ipv4Checksum ipv4Header
  dsimp only
  exact checksum_verifies (layout 0) (layout _) (by simp) (by decide) (by simp) (.inl rfl)

theorem pseudoHeaderSum_small (srcIp dstIp : UInt32) (protocol : UInt8) (length : Nat) :
    (pseudoHeaderSum srcIp dstIp protocol length).toNat < 2 ^ 20 := by
  have half : ∀ word : UInt32, (word &&& (0xFFFF : UInt32)).toNat ≤ 65535 := by
    intro word
    rw [UInt32.toNat_and]
    exact Nat.and_le_right
  have upperSrc := half (srcIp >>> 16)
  have lowerSrc := half srcIp
  have upperDst := half (dstIp >>> 16)
  have lowerDst := half dstIp
  have protocolBound := protocol.toNat_lt
  have lengthBound := (UInt16.ofNat length).toNat_lt
  unfold pseudoHeaderSum
  simp only [UInt32.toNat_add, UInt8.toNat_toUInt32, UInt16.toNat_toUInt32]
  omega

theorem tcpPacket_verifies (srcIp dstIp : UInt32) {call : TcpCall} (fits : call.payload.length ≤ 1460) :
    tcpChecksum srcIp dstIp (tcpPacket srcIp dstIp call) = 0 := by
  unfold tcpChecksum
  have length : (tcpPacket srcIp dstIp call).length = (tcpPacketWith 0 call).length := by
    unfold tcpPacket
    rw [tcpPacketWith_length, tcpPacketWith_length]
  rw [length]
  have layout : ∀ checksum, tcpPacketWith checksum call =
      (be16 call.srcPort ++ be16 call.dstPort ++ be32 call.sequence ++ be32 call.ackNumber ++
        [(5 : UInt8) <<< 4, call.flags] ++ be16 0xFFFF) ++ (be16 checksum ++ (be16 0 ++ call.payload)) := by
    intro checksum
    simp only [tcpPacketWith, List.append_assoc]
  refine checksum_verifies (layout 0) (layout _) (by simp) (pseudoHeaderSum_small _ _ _ _) ?_ (.inl rfl)
  simp only [List.length_append, be16_length, be32_length, List.length_cons, List.length_nil]
  omega

theorem udpPacket_verifies (srcIp dstIp : UInt32) (srcPort dstPort : UInt16) {payload : List UInt8}
    (fits : payload.length ≤ 1472) :
    udpChecksum srcIp dstIp (udpPacket srcIp dstIp srcPort dstPort payload) = 0xFFFF := by
  have length : (udpPacket srcIp dstIp srcPort dstPort payload).length =
      (udpPacketWith 0 srcPort dstPort payload).length := by
    unfold udpPacket
    rw [udpPacketWith_length, udpPacketWith_length]
  have layout : ∀ checksum, udpPacketWith checksum srcPort dstPort payload =
      (be16 srcPort ++ be16 dstPort ++ be16 (UInt16.ofNat (udpHeaderSize + payload.length))) ++
        (be16 checksum ++ payload) := by
    intro checksum
    simp only [udpPacketWith, List.append_assoc]
  have verifies : checksumFinalize (checksumAddBytes
      (pseudoHeaderSum srcIp dstIp ipProtoUdp (udpPacketWith 0 srcPort dstPort payload).length)
      (udpPacket srcIp dstIp srcPort dstPort payload)) = 0 := by
    refine checksum_verifies (layout 0) (layout _) (by simp) (pseudoHeaderSum_small _ _ _ _) ?_ ?_
    · simp only [List.length_append, be16_length]
      omega
    · unfold udpPacketSum udpChecksum
      dsimp only
      split
      · rename_i none
        exact .inr ⟨none, rfl⟩
      · exact .inl rfl
  unfold udpChecksum
  rw [length, verifies]
  rfl

theorem ipv4Header_fields (totalLength identification : UInt16) (ttl protocol : UInt8)
    (srcIp dstIp : UInt32) (rest : List UInt8) :
    let packet := ipv4Header totalLength identification ttl protocol srcIp dstIp ++ rest
    byteAt packet 0 = 0x45 ∧ readBe16 packet 2 = totalLength ∧ byteAt packet 9 = protocol ∧
      readBe32 packet 12 = srcIp ∧ readBe32 packet 16 = dstIp :=
  ⟨rfl, word16_bytes totalLength, rfl, word32_bytes srcIp, word32_bytes dstIp⟩

variable {srcIp dstIp : UInt32}

theorem ipv4Accept_sent {identification : UInt16} {ttl protocol : UInt8}
    {packet : List UInt8} (fits : packet.length ≤ 1480) (padding : List UInt8) :
    ipv4Accept (ipv4Header (UInt16.ofNat (ipv4HeaderSize + packet.length)) identification ttl
      protocol srcIp dstIp ++ (packet ++ padding)) = some ⟨srcIp, dstIp, protocol, packet⟩ := by
  generalize headerEq : ipv4Header (UInt16.ofNat (ipv4HeaderSize + packet.length))
    identification ttl protocol srcIp dstIp = header
  have verifies : ipv4Checksum header = 0 := by
    rw [← headerEq]
    exact ipv4Header_verifies _ _ _ _ _ _
  have headerLength : header.length = ipv4HeaderSize := by
    rw [← headerEq]
    exact ipv4Header_length _ _ _ _ _ _
  obtain ⟨version, total, proto, source, destination⟩ := ipv4Header_fields
    (UInt16.ofNat (ipv4HeaderSize + packet.length)) identification ttl protocol srcIp dstIp
    (packet ++ padding)
  rw [headerEq] at version total proto source destination
  have size : ipv4HeaderSize = 20 := rfl
  have totalNat : (UInt16.ofNat (ipv4HeaderSize + packet.length)).toNat =
      ipv4HeaderSize + packet.length := UInt16.toNat_ofNat_of_lt' (by
    have limit : UInt16.size = 65536 := rfl
    omega)
  have ihl : ((0x45 : UInt8) &&& (0x0F : UInt8)).toNat * 4 = 20 := rfl
  have four : (0x45 : UInt8) >>> 4 = 4 := rfl
  have long : (header ++ (packet ++ padding)).length = 20 + (packet.length + padding.length) := by
    rw [List.length_append, List.length_append, headerLength, size]
  have front : (header ++ (packet ++ padding)).take 20 = header := by
    rw [← size, ← headerLength, List.take_left]
  have body : ((header ++ (packet ++ padding)).take (ipv4HeaderSize + packet.length)).drop 20 =
    packet := by
    rw [← List.append_assoc, List.take_left' (by rw [List.length_append, headerLength]), ← size,
      ← headerLength, List.drop_left]
  unfold ipv4Accept
  simp only [version, total, totalNat, ihl, four, long, front, verifies, proto, source,
    destination, body]
  rw [if_neg (by omega), if_neg (by simp [size]), if_neg (by omega)]
  simp

theorem tcpAccept_sent {call : TcpCall} (fits : call.payload.length ≤ 1460)
    (ports : call.srcPort ≠ 0 ∧ call.dstPort ≠ 0) :
    tcpAccept (tcpPacket srcIp dstIp call) srcIp dstIp =
      some ⟨srcIp, call.srcPort, call.dstPort, call.sequence, call.ackNumber, call.flags, call.payload⟩ := by
  obtain ⟨srcPort, dstPort, sequence, ackNumber, offset, flags, _, payload⟩ :=
    tcpPacketWith_fields (tcpPacketSum srcIp dstIp call) call
  have verifies := tcpPacket_verifies srcIp dstIp fits
  have length := tcpPacketWith_length (tcpPacketSum srcIp dstIp call) call
  have words : ((0x50 : UInt8) >>> 4).toNat * 4 = 20 := rfl
  have size : tcpHeaderSize = 20 := rfl
  unfold tcpPacket at verifies ⊢
  unfold tcpAccept
  simp only [offset, words, verifies, srcPort, dstPort, sequence, ackNumber, flags, payload, length]
  rw [if_neg (by omega), if_neg (by omega), if_neg (by simp), if_neg (by simp [ports.1, ports.2])]

theorem udpAccept_sent {srcPort dstPort : UInt16} {payload : List UInt8}
    (fits : payload.length ≤ 1472) :
    udpAccept (udpPacket srcIp dstIp srcPort dstPort payload) srcIp dstIp =
      some ⟨srcPort, dstPort, payload⟩ := by
  obtain ⟨source, destination, total, checksum, body⟩ := udpPacketWith_fields
    (udpPacketSum srcIp dstIp srcPort dstPort payload) srcPort dstPort payload
  have verifies := udpPacket_verifies srcIp dstIp srcPort dstPort fits
  have length := udpPacketWith_length (udpPacketSum srcIp dstIp srcPort dstPort payload)
    srcPort dstPort payload
  have size : udpHeaderSize = 8 := rfl
  have totalNat : (UInt16.ofNat (udpHeaderSize + payload.length)).toNat =
      udpHeaderSize + payload.length := UInt16.toNat_ofNat_of_lt' (by
    have limit : UInt16.size = 65536 := rfl
    omega)
  unfold udpPacket at verifies ⊢
  unfold udpAccept
  have whole : (udpPacketWith (udpPacketSum srcIp dstIp srcPort dstPort payload) srcPort dstPort
      payload).take (udpHeaderSize + payload.length) =
      udpPacketWith (udpPacketSum srcIp dstIp srcPort dstPort payload) srcPort dstPort payload := by
    rw [← length, List.take_length]
  simp only [total, totalNat, length, source, destination, checksum, whole, verifies]
  rw [if_neg (by omega), if_neg (by omega), if_neg (by simp)]
  rw [size, body]

def SendCall.bound (config : NetConfig) (call : SendCall) : UInt32 × UInt32 :=
  (call.addresses.1.load config, call.addresses.2.load config)

/-- The configuration that a frame brings: a DHCP ACK of the request that is waiting for it. -/
def acknowledgedConfig (world : World) (state : NetState) (frame : List UInt8) : Option NetConfig :=
  match deliveredDatagram world state.config frame with
  | none => none
  | some datagram =>
      if datagram.protocol ≠ ipProtoUdp then none
      else
        match udpAccept datagram.payload datagram.srcIp datagram.dstIp with
        | none => none
        | some accepted =>
            if accepted.srcPort = 67 ∧ accepted.dstPort = 68 ∧ state.dhcp.state = .waitAck then
              match dhcpAccept world state.dhcp accepted.payload with
              | none => none
              | some (msgType, options) =>
                  if msgType = dhcpMsgAck then
                    some (dhcpApplyAck state (readBe32 accepted.payload 16) options).config
                  else none
            else none

/-- The frame gives another value to an address that the call points to. -/
def SendCall.rebinds (call : SendCall) (world : World) (state : NetState) (frame : List UInt8) : Bool :=
  (acknowledgedConfig world state frame).any fun config => call.bound config != call.bound state.config

def SendCall.KeepsAddresses (world : World) (state : NetState) (rounds : List (List (List UInt8)))
    (call : SendCall) : Prop :=
  SendMeets (netPoll world) world (RoundSilent world call.rebinds) (call.build state)
    (call.dstIp state.config) call.forced rounds

theorem SendCall.build_config (call : SendCall) (state : NetState) :
    (call.build state).config = state.config := by
  cases call with
  | tcp src dst call ttl => rfl
  | udp src dst srcPort dstPort payload forceBroadcastEth => rfl

variable {state after : NetState} {world : World}

theorem dhcpHandlePacket_config {payload : List UInt8} {sourceIp : UInt32}
    (done : dhcpHandlePacket world state payload sourceIp = some after) :
    after.config = state.config ∨ ∃ options, state.dhcp.state = .waitAck ∧
      dhcpAccept world state.dhcp payload = some (dhcpMsgAck, options) ∧
      after.config = (dhcpApplyAck state (readBe32 payload 16) options).config := by
  unfold dhcpHandlePacket at done
  split at done
  · cases done
    exact Or.inl rfl
  · rename_i msgType options accepted
    dsimp only at done
    split at done
    · cases done
      left
      split
      · rfl
      · rfl
    · split at done
      · rename_i applies
        cases done
        exact Or.inr ⟨options, applies.2, applies.1 ▸ accepted, rfl⟩
      · split at done
        · obtain ⟨⟨sent, final⟩, discovered, same⟩ := Option.map_eq_some_iff.mp done
          cases same
          exact Or.inl (dhcpSendDiscover_only discovered).config
        · cases done
          exact Or.inl rfl

variable {call : SendCall}

theorem netHandleEthernet_bound {frame : List UInt8}
    (steady : call.rebinds world state frame = false)
    (handled : netHandleEthernet world state frame = some after) :
    call.bound after.config = call.bound state.config := by
  refine @netHandleEthernet_view world state after frame _ (fun state => call.bound state.config)
    (fun same => congrArg call.bound same.config) ?_ handled
  intro datagram cache readings srcMac delivered dispatched
  unfold SendCall.rebinds acknowledgedConfig at steady
  simp only [delivered] at steady
  unfold ipv4Dispatch at dispatched
  split at dispatched
  · cases dispatched
    exact congrArg call.bound (netHandleIcmp_same world _ _ _ _ _).config
  · split at dispatched
    · rename_i protocol
      rw [if_neg (not_not_intro protocol)] at steady
      unfold netHandleUdp at dispatched
      split at dispatched
      · cases dispatched
        rfl
      · rename_i accepted wellFormed
        rw [wellFormed] at steady
        dsimp only at steady
        split at dispatched
        · rename_i ports
          rcases dhcpHandlePacket_config dispatched with same | ⟨options, waiting, reply, config⟩
          · exact congrArg call.bound same
          · have applies : accepted.srcPort = 67 ∧ accepted.dstPort = 68 ∧ state.dhcp.state = .waitAck :=
              ⟨ports.1, ports.2, waiting⟩
            have answer : dhcpAccept world state.dhcp accepted.payload = some (dhcpMsgAck, options) := reply
            rw [if_pos applies, answer] at steady
            simp only [if_true, Option.any_some, bne_eq_false_iff_eq] at steady
            exact (congrArg call.bound config).trans steady
        · cases dispatched
          exact congrArg call.bound (dnsHandleUdpPacket_same world _ _ _ _ _).config
    · split at dispatched
      · unfold netHandleTcp at dispatched
        split at dispatched
        · cases dispatched
          rfl
        · exact congrArg call.bound (tcpDeliver_only dispatched).config
      · cases dispatched
        rfl

/-- The driver sends at least 60 bytes, the missing ones zero. -/
def padFrame (frame : List UInt8) : List UInt8 := frame ++ List.replicate (60 - frame.length) 0

theorem macAt_append (front rest : List UInt8) (mac : Mac) {offset : Nat}
    (here : offset = front.length) : macAt (front ++ (mac.toList ++ rest)) offset = mac := by
  subst here
  apply Vector.ext
  intro index bound
  unfold macAt
  rw [Vector.getElem_ofFn, byteAt_append_right, byteAt_append_left _ _ (by simpa using bound)]
  simp [byteAt, bound]

theorem netHandleEthernet_sent {receiver : World} {host : NetState} {dstMac srcMac : Mac}
    {payload : List UInt8} (mac : receiver.mac = dstMac) :
    netHandleEthernet receiver host (padFrame (ethernetFrame dstMac srcMac ethTypeIpv4 payload)) =
      netHandleIpv4 receiver host
        ((padFrame (ethernetFrame dstMac srcMac ethTypeIpv4 payload)).drop ethHeaderSize) srcMac := by
  generalize padEq : List.replicate (60 - (ethernetFrame dstMac srcMac ethTypeIpv4 payload).length)
    (0 : UInt8) = padding
  have padded : padFrame (ethernetFrame dstMac srcMac ethTypeIpv4 payload) =
      dstMac.toList ++ (srcMac.toList ++ (be16 ethTypeIpv4 ++ (payload ++ padding))) := by
    unfold padFrame
    rw [padEq]
    simp only [ethernetFrame, List.append_assoc]
  have destination : macAt (padFrame (ethernetFrame dstMac srcMac ethTypeIpv4 payload)) 0 = dstMac := by
    rw [padded]
    exact macAt_append [] _ dstMac rfl
  have source : macAt (padFrame (ethernetFrame dstMac srcMac ethTypeIpv4 payload)) 6 = srcMac := by
    rw [padded]
    exact macAt_append dstMac.toList _ srcMac (by simp)
  have kind : readBe16 (padFrame (ethernetFrame dstMac srcMac ethTypeIpv4 payload)) 12 =
      ethTypeIpv4 := by
    rw [padded, ← List.append_assoc]
    have field := readBe16_append_right (dstMac.toList ++ srcMac.toList)
      (be16 ethTypeIpv4 ++ (payload ++ padding)) 0
    have length : (dstMac.toList ++ srcMac.toList).length = 12 := by simp
    rw [length] at field
    exact field.trans (word16_bytes ethTypeIpv4)
  have long : ¬(padFrame (ethernetFrame dstMac srcMac ethTypeIpv4 payload)).length < ethHeaderSize := by
    rw [padded]
    simp [ethHeaderSize]
    omega
  unfold netHandleEthernet
  rw [if_neg long, if_neg (by rw [destination, mac]; simp), if_pos kind, source]

def SendCall.Decoded (srcIp dstIp : UInt32) (packet : List UInt8) : SendCall → Prop
  | tcp _ _ call _ =>
      tcpAccept packet srcIp dstIp = some ⟨srcIp, call.srcPort, call.dstPort, call.sequence,
        call.ackNumber, call.flags, call.payload⟩
  | udp _ _ srcPort dstPort payload _ =>
      udpAccept packet srcIp dstIp = some ⟨srcPort, dstPort, payload⟩

theorem SendCall.Fits.packet_length (fits : call.Fits) (config : NetConfig) :
    (call.packet config).length ≤ 1480 := by
  cases call with
  | tcp src dst call ttl =>
      have length : (tcpPacket (src.load config) (dst.load config) call).length =
          tcpHeaderSize + call.payload.length := tcpPacketWith_length _ call
      have bound : call.payload.length ≤ 1460 := fits.1
      have size : tcpHeaderSize = 20 := rfl
      simp only [SendCall.packet]
      omega
  | udp src dst srcPort dstPort payload forceBroadcastEth =>
      have length : (udpPacket (src.load config) (dst.load config) srcPort dstPort payload).length =
          udpHeaderSize + payload.length := udpPacketWith_length _ srcPort dstPort payload
      have bound : payload.length ≤ 1472 := fits
      have size : udpHeaderSize = 8 := rfl
      simp only [SendCall.packet]
      omega

theorem SendCall.Fits.decoded (fits : call.Fits) (config : NetConfig) :
    call.Decoded (call.addresses.1.load config) (call.addresses.2.load config)
    (call.packet config) := by
  cases call with
  | tcp src dst call ttl => exact tcpAccept_sent fits.1 fits.2
  | udp src dst srcPort dstPort payload forceBroadcastEth => exact udpAccept_sent fits

theorem padFrame_payload (dstMac srcMac : Mac) (ethertype : UInt16) (header packet : List UInt8) :
    ∃ padding, (padFrame (ethernetFrame dstMac srcMac ethertype (header ++ packet))).drop
      ethHeaderSize = header ++ (packet ++ padding) := by
  refine ⟨List.replicate (60 - (ethernetFrame dstMac srcMac ethertype (header ++ packet)).length) 0, ?_⟩
  have front : (dstMac.toList ++ srcMac.toList ++ be16 ethertype).length = ethHeaderSize := by
    simp [ethHeaderSize]
  unfold padFrame
  nth_rewrite 1 [ethernetFrame]
  rw [List.append_assoc, ← front, List.drop_left, List.append_assoc]

/-- A frame of the call, padded by the driver, is accepted and decoded to the call, and a host with
the frame's hardware address that takes the destination address hands it to the handler. -/
def SendCall.Received (world : World) (config : NetConfig) (call : SendCall)
    (frame : List UInt8) : Prop :=
  let srcIp := call.addresses.1.load config
  let dstIp := call.addresses.2.load config
  ∃ packet, ipv4Accept ((padFrame frame).drop ethHeaderSize) =
    some ⟨srcIp, dstIp, call.protocol, packet⟩ ∧ call.Decoded srcIp dstIp packet ∧
    ∀ receiver host, receiver.mac = macAt frame 0 → ipv4ForUs host.config dstIp = true →
      netHandleEthernet receiver host (padFrame frame) =
        ipv4Dispatch receiver (ipv4LearnSender receiver host srcIp world.mac)
          ⟨srcIp, dstIp, call.protocol, packet⟩ world.mac

theorem SendCall.Frame.received {config later : NetConfig}
    {frame : List UInt8} (sent : call.Frame world config later frame) (fits : call.Fits)
    (kept : call.bound later = call.bound config) : call.Received world config frame := by
  obtain ⟨dstMac, identification, ttl, layout⟩ := sent
  simp only [SendCall.bound, Prod.mk.injEq] at kept
  rw [kept.1, kept.2] at layout
  generalize srcEq : call.addresses.1.load config = srcIp at layout
  generalize dstEq : call.addresses.2.load config = dstIp at layout
  have accepted : ipv4Accept ((padFrame frame).drop ethHeaderSize) =
      some ⟨srcIp, dstIp, call.protocol, call.packet config⟩ := by
    obtain ⟨padding, dropped⟩ := padFrame_payload dstMac world.mac ethTypeIpv4
      (ipv4Header (UInt16.ofNat (ipv4HeaderSize + (call.packet config).length)) identification ttl
        call.protocol srcIp dstIp) (call.packet config)
    rw [layout]
    exact (congrArg ipv4Accept dropped).trans (ipv4Accept_sent (fits.packet_length config) padding)
  have decoded := fits.decoded config
  rw [srcEq, dstEq] at decoded
  simp only [SendCall.Received, srcEq, dstEq]
  refine ⟨call.packet config, accepted, decoded, ?_⟩
  intro receiver host mac address
  have target : macAt frame 0 = dstMac := by
    rw [layout, ethernetFrame, List.append_assoc, List.append_assoc]
    exact macAt_append [] _ dstMac rfl
  have delivered := @netHandleEthernet_sent receiver host dstMac world.mac
    (ipv4Header (UInt16.ofNat (ipv4HeaderSize + (call.packet config).length)) identification ttl
      call.protocol srcIp dstIp ++ call.packet config) (mac.trans target)
  rw [← layout] at delivered
  obtain ⟨cache, readings, learned⟩ := ipv4LearnSender_eq receiver host srcIp world.mac
  rw [delivered]
  unfold netHandleIpv4
  rw [accepted]
  dsimp only
  rw [if_pos (by rw [learned]; exact address)]

/-- Whatever arrives while the call waits, as long as nothing of it is answered from the call's
own buffer or moves an address that the call points to. -/
theorem packet_round_trip {world : World} {state after : NetState} {call : SendCall}
    {rounds : List (List (List UInt8))} (quiet : call.Undisturbed world state rounds)
    (steady : call.KeepsAddresses world state rounds)
    (sent : call.run world state rounds = some (true, after)) :
    ∃ earlier frame, after.wire = earlier ++ [frame] ∧ call.Received world state.config frame := by
  obtain ⟨fits, dstMac, ready, frame, resolved, transmitted, layout⟩ := SendCall.sent quiet sent
  have kept : call.bound ready.config = call.bound (call.build state).config :=
    netResolveDestMac_view (fun same => congrArg call.bound same.config)
      (netPoll_view netHandleEthernet_bound) steady resolved
  rw [SendCall.build_config] at kept
  exact ⟨ready.wire, frame, transmitted, layout.received fits kept⟩

def lanDatagram : SendCall :=
  .udp .configIp (.given 0x0A000002) 49152 7 [1, 2, 3] false

theorem lanArpReply_meets {answered : World → NetState → List UInt8 → Bool}
    (silent : ∀ state, deliveredDatagram lanWorld state.config lanArpReply = none →
      answered lanWorld state lanArpReply = false) :
    SendMeets (netPoll lanWorld) lanWorld (RoundSilent lanWorld answered) (call.build lanState)
      (call.dstIp lanState.config) call.forced [[lanArpReply]] := by
  have notIpv4 : ∀ config, deliveredDatagram lanWorld config lanArpReply = none := by
    intro config
    unfold deliveredDatagram
    rw [if_neg (by decide), if_neg (by decide), if_pos (by decide)]
  intro nextHop _ looked asked _ _ _
  rw [if_neg (by decide)]
  exact ⟨fun _ => ⟨silent _ (notIpv4 _), fun _ _ => trivial⟩, fun _ _ => trivial⟩

theorem lanDatagram_round_trip :
    ∃ after earlier frame, lanDatagram.run lanWorld lanState [[lanArpReply]] = some (true, after) ∧
      after.wire = earlier ++ [frame] ∧ lanDatagram.Received lanWorld lanState.config frame := by
  have succeeds : (lanDatagram.run lanWorld lanState [[lanArpReply]]).map Prod.fst = some true := by
    decide +kernel
  have quiet : lanDatagram.Undisturbed lanWorld lanState [[lanArpReply]] := by
    refine lanArpReply_meets fun state notIpv4 => ?_
    show udpAnswered lanWorld state lanArpReply = false
    rw [udpAnswered, notIpv4]
  have steady : lanDatagram.KeepsAddresses lanWorld lanState [[lanArpReply]] := by
    refine lanArpReply_meets fun state notIpv4 => ?_
    rw [SendCall.rebinds, acknowledgedConfig, notIpv4]
    rfl
  obtain ⟨⟨sent, after⟩, ran, rfl⟩ := Option.map_eq_some_iff.mp succeeds
  obtain ⟨earlier, frame, transmitted, received⟩ := packet_round_trip quiet steady ran
  exact ⟨after, earlier, frame, ran, transmitted, received⟩

/-- What goes to 10.0.0.2 is the reset for the stray segment; its checksum was computed for
10.0.0.3 and does not verify. -/
theorem stray_segment_spoils_round_trip :
    ¬∀ (world : World) (state after : NetState) (call : SendCall) (rounds : List (List (List UInt8))),
      call.run world state rounds = some (true, after) →
      ∃ earlier frame, after.wire = earlier ++ [frame] ∧ call.Received world state.config frame := by
  intro always
  have spoiled : (openingCall.run lanWorld lanState [[lanStraySyn, lanArpReply]]).map
      (fun done => (done.1, done.2.wire.getLast?.bind fun frame =>
        (ipv4Accept ((padFrame frame).drop ethHeaderSize)).map fun datagram =>
          (tcpAccept datagram.payload datagram.srcIp datagram.dstIp).isSome)) =
        some (true, some false) := by
    decide +kernel
  obtain ⟨⟨sent, after⟩, ran, outcome⟩ := Option.map_eq_some_iff.mp spoiled
  simp only [Prod.mk.injEq] at outcome
  obtain ⟨rfl, last⟩ := outcome
  obtain ⟨earlier, frame, transmitted, packet, accepted, decoded, _⟩ := always _ _ after _ _ ran
  rw [transmitted, List.getLast?_concat, Option.bind_some, accepted, Option.map_some] at last
  have segment : tcpAccept packet _ _ = some _ := decoded
  rw [segment] at last
  cases last

end Szczupak
