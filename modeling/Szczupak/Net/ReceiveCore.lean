import Szczupak.Net.StackCore

/-!
The receive path of `net/net_rx.c` with the ARP, ICMP, UDP, DHCP, DNS and TCP handlers.
What a handler accepts and decodes is a function of its own; what the handler then does
may send, and a send inside a handler polls no frames, because `net_poll` does not nest.
-/

namespace Szczupak

/-! DHCP, `net/net_dhcp.c` -/

def dhcpMsgDiscover : UInt8 := 1
def dhcpMsgOffer : UInt8 := 2
def dhcpMsgAck : UInt8 := 5
def dhcpMsgNak : UInt8 := 6

def dhcpOptSubnetMask : UInt8 := 1
def dhcpOptRouter : UInt8 := 3
def dhcpOptDns : UInt8 := 6
def dhcpOptHostname : UInt8 := 12
def dhcpOptLeaseTime : UInt8 := 51
def dhcpOptMsgType : UInt8 := 53
def dhcpOptServerId : UInt8 := 54
def dhcpOptParamList : UInt8 := 55
def dhcpOptClientId : UInt8 := 61
def dhcpOptEnd : UInt8 := 255

def dhcpMagicCookie : List UInt8 := [99, 130, 83, 99]

structure DhcpOptions where
  msgType : Option UInt8
  serverId : Option UInt32
  subnetMask : Option UInt32
  router : Option UInt32
  dns : Option UInt32
  leaseTime : Option UInt32

def dhcpOptionsClear : DhcpOptions := ⟨none, none, none, none, none, none⟩

/-- One option with its value, later options of a kind replacing earlier ones. -/
def dhcpOption (options : DhcpOptions) (option : UInt8) (value : List UInt8) : DhcpOptions :=
  if option = dhcpOptMsgType ∧ value.length = 1 then { options with msgType := some (byteAt value 0) }
  else if option = dhcpOptServerId ∧ value.length = 4 then
    { options with serverId := some (readBe32 value 0) }
  else if option = dhcpOptSubnetMask ∧ value.length = 4 then
    { options with subnetMask := some (readBe32 value 0) }
  else if option = dhcpOptRouter ∧ value.length ≥ 4 then
    { options with router := some (readBe32 value 0) }
  else if option = dhcpOptDns ∧ value.length ≥ 4 then { options with dns := some (readBe32 value 0) }
  else if option = dhcpOptLeaseTime ∧ value.length = 4 then
    { options with leaseTime := some (readBe32 value 0) }
  else options

/-- The loop of `dhcp_parse_options`; every turn takes at least one byte, so the number of
bytes bounds the turns. -/
def dhcpParseLoop : Nat → DhcpOptions → List UInt8 → DhcpOptions
  | 0, options, _ => options
  | fuel + 1, options, data =>
      match data with
      | [] => options
      | option :: rest =>
          if option = 0 then dhcpParseLoop fuel options rest
          else if option = dhcpOptEnd then options
          else
            match rest with
            | [] => options
            | length :: body =>
                if length.toNat > body.length then options
                else
                  dhcpParseLoop fuel (dhcpOption options option (body.take length.toNat))
                    (body.drop length.toNat)

def dhcpParseOptions (data : List UInt8) : DhcpOptions :=
  dhcpParseLoop data.length dhcpOptionsClear data

def dhcpPrepareBase (world : World) (xid : UInt32) : List UInt8 :=
  [1, 1, 6, 0] ++ be32 xid ++ be16 0 ++ be16 0x8000 ++ List.replicate 16 0 ++ world.mac.toList ++
    List.replicate 202 0 ++ dhcpMagicCookie

def dhcpHostname : List UInt8 := [83, 122, 99, 122, 117, 112, 97, 107, 79, 83]

def dhcpDiscover (world : World) (xid : UInt32) : List UInt8 :=
  dhcpPrepareBase world xid ++ [dhcpOptMsgType, 1, dhcpMsgDiscover] ++
    [dhcpOptParamList, 3, dhcpOptSubnetMask, dhcpOptRouter, dhcpOptDns] ++
    [dhcpOptClientId, 7, 1] ++ world.mac.toList ++
    [dhcpOptHostname, UInt8.ofNat dhcpHostname.length] ++ dhcpHostname ++ [dhcpOptEnd]

/-- Inside `net_poll` a nested `net_poll` returns at once. -/
def idlePoll (state : NetState) (_ : Unit) : Option NetState := some state

def idleRounds (world : World) : List Unit := List.replicate world.patience ()

def dhcpSendDiscover (world : World) (state : NetState) : Option (Bool × NetState) :=
  netSendUdpIpv4 idlePoll world state (.given ipZero) (.given ipBroadcast) 68 67
    (dhcpDiscover world state.dhcp.xid) true (idleRounds world)

def dhcpApplyAck (state : NetState) (yiaddr : UInt32) (options : DhcpOptions) : NetState :=
  { state with
    config := {
      configured := true
      ip := if yiaddr ≠ 0 then yiaddr else state.dhcp.offeredIp
      netmask := (options.subnetMask.or state.dhcp.offeredSubnet).getD 0xFFFFFF00
      gateway := (options.router.or state.dhcp.offeredRouter).getD 0
      dns := (options.dns.or state.dhcp.offeredDns).getD 0
      leaseTimeSeconds := (options.leaseTime.or state.dhcp.leaseTime).getD 0 } }

def dhcpAccept (world : World) (dhcp : DhcpClient) (payload : List UInt8) :
    Option (UInt8 × DhcpOptions) :=
  if payload.length < 240 then none
  else if byteAt payload 0 ≠ 2 ∨ byteAt payload 1 ≠ 1 ∨ byteAt payload 2 ≠ 6 then none
  else if readBe32 payload 4 ≠ dhcp.xid then none
  else if macAt payload 28 ≠ world.mac then none
  else if (payload.drop 236).take 4 ≠ dhcpMagicCookie then none
  else
    let options := dhcpParseOptions (payload.drop 240)
    options.msgType.map fun msgType => (msgType, options)

def dhcpTakeOffer (state : NetState) (yiaddr siaddr sourceIp : UInt32) (options : DhcpOptions) :
    NetState :=
  { state with
    dhcp := { state.dhcp with
      state := .offerReady
      offeredIp := yiaddr
      serverIp := options.serverId.getD (if siaddr ≠ 0 then siaddr else sourceIp)
      offeredSubnet := options.subnetMask
      offeredRouter := options.router
      offeredDns := options.dns
      leaseTime := options.leaseTime } }

def dhcpHandlePacket (world : World) (state : NetState) (payload : List UInt8) (sourceIp : UInt32) :
    Option NetState :=
  match dhcpAccept world state.dhcp payload with
  | none => some state
  | some (msgType, options) =>
      let yiaddr := readBe32 payload 16
      let siaddr := readBe32 payload 20
      if msgType = dhcpMsgOffer ∧ state.dhcp.state = .waitOffer then
        some (if yiaddr = 0 then state else dhcpTakeOffer state yiaddr siaddr sourceIp options)
      else if msgType = dhcpMsgAck ∧ state.dhcp.state = .waitAck then
        let applied := dhcpApplyAck state yiaddr options
        some { applied with dhcp := { applied.dhcp with state := .bound } }
      else if msgType = dhcpMsgNak ∧ state.dhcp.state = .waitAck then
        (dhcpSendDiscover world { state with dhcp := { state.dhcp with state := .waitOffer } }).map
          Prod.snd
      else some state

/-! DNS, `net/net_dns.c` -/

/-- `dns_skip_name` with the labels it may still take, 129 at the start. -/
def dnsSkipName (packet : List UInt8) : Nat → Nat → Option Nat
  | 0, _ => none
  | labels + 1, offset =>
      if offset ≥ packet.length then none
      else
        let length := byteAt packet offset
        let mark := length &&& (0xC0 : UInt8)
        if length = 0 then some (offset + 1)
        else if mark = 0xC0 then if offset + 1 ≥ packet.length then none else some (offset + 2)
        else if mark ≠ 0 ∨ length > 63 then none
        else if offset + 1 + length.toNat > packet.length then none
        else dnsSkipName packet labels (offset + 1 + length.toNat)

def dnsSkipQuestions (packet : List UInt8) : Nat → Nat → Option Nat
  | 0, offset => some offset
  | count + 1, offset =>
      match dnsSkipName packet 129 offset with
      | none => none
      | some after =>
          if after + 4 > packet.length then none else dnsSkipQuestions packet count (after + 4)

/-- The address and time-to-live of the first answer of type A, class IN and length 4. -/
def dnsFindAnswer (packet : List UInt8) : Nat → Nat → Option (UInt32 × UInt32)
  | 0, _ => none
  | count + 1, offset =>
      match dnsSkipName packet 129 offset with
      | none => none
      | some record =>
          if record + 10 > packet.length then none
          else
            let rdlength := (readBe16 packet (record + 8)).toNat
            if record + 10 + rdlength > packet.length then none
            else if readBe16 packet record = 1 ∧ readBe16 packet (record + 2) = 1 ∧ rdlength = 4 then
              some (readBe32 packet (record + 10), readBe32 packet (record + 4))
            else dnsFindAnswer packet count (record + 10 + rdlength)

def dnsParseResponseA (packet : List UInt8) (expectedTxid : UInt16) : Option (UInt32 × UInt32) :=
  if packet.length < 12 then none
  else if readBe16 packet 0 ≠ expectedTxid then none
  else if readBe16 packet 2 &&& (0x8000 : UInt16) = 0 then none
  else if readBe16 packet 2 &&& (0x000F : UInt16) ≠ 0 then none
  else
    match dnsSkipQuestions packet (readBe16 packet 4).toNat 12 with
    | none => none
    | some offset => dnsFindAnswer packet (readBe16 packet 6).toNat offset

def dnsNormalizeTtl (seconds : UInt32) : UInt32 :=
  if seconds < 30 then 30 else if seconds > 86400 then 86400 else seconds

def dnsHandleUdpPacket (world : World) (state : NetState) (payload : List UInt8) (srcIp : UInt32)
    (srcPort dstPort : UInt16) : NetState :=
  if !state.dns.waiting || state.dns.received then state
  else if srcPort ≠ 53 ∨ dstPort ≠ state.dns.srcPort then state
  else if srcIp ≠ state.dns.expectedServerIp then state
  else
    match dnsParseResponseA payload state.dns.txid with
    | none => state
    | some (ip, ttl) =>
        let (now, state) := pitGetTicks world state
        { state with
          dns := { state.dns with
            resolvedIp := ip, ttlSeconds := dnsNormalizeTtl ttl, received := true, receivedTick := now } }

structure UdpDatagram where
  srcPort : UInt16
  dstPort : UInt16
  payload : List UInt8

/-- The checks of `net_handle_udp`.  The verify buffer holds 1508 bytes; a longer datagram is
accepted unverified. -/
def udpAccept (packet : List UInt8) (srcIp dstIp : UInt32) : Option UdpDatagram :=
  let length := (readBe16 packet 4).toNat
  if packet.length < udpHeaderSize then none
  else if length < udpHeaderSize ∨ length > packet.length then none
  else
    let verify := udpChecksum srcIp dstIp (packet.take length)
    if readBe16 packet 6 ≠ 0 ∧ length ≤ udpHeaderSize + ethMtu ∧ verify ≠ 0xFFFF ∧ verify ≠ 0 then none
    else some ⟨readBe16 packet 0, readBe16 packet 2, (packet.take length).drop udpHeaderSize⟩

def netHandleUdp (world : World) (state : NetState) (packet : List UInt8) (srcIp dstIp : UInt32) :
    Option NetState :=
  match udpAccept packet srcIp dstIp with
  | none => some state
  | some datagram =>
      if datagram.srcPort = 67 ∧ datagram.dstPort = 68 then
        dhcpHandlePacket world state datagram.payload srcIp
      else
        some (dnsHandleUdpPacket world state datagram.payload srcIp datagram.srcPort datagram.dstPort)

/-! ICMP and ARP, `net/net_icmp.c` -/

/-- The original packet quoted in an ICMP error is the echo request we wait on. -/
def icmpMatchEmbeddedProbe (payload : List UInt8) (identifier sequence : UInt16)
    (expectedDstIp expectedSrcIp : UInt32) : Bool :=
  let embedded := payload.drop 8
  let version := byteAt embedded 0 >>> 4
  let ihl := (byteAt embedded 0 &&& (0x0F : UInt8)).toNat * 4
  let icmp := embedded.drop ihl
  decide (payload.length ≥ 8 + ipv4HeaderSize) &&
    version == 4 && decide (ipv4HeaderSize ≤ ihl) && decide (ihl ≤ embedded.length) &&
    byteAt embedded 9 == ipProtoIcmp && decide (ihl + 8 ≤ embedded.length) &&
    readBe32 embedded 12 == expectedSrcIp && readBe32 embedded 16 == expectedDstIp &&
    byteAt icmp 0 == 8 && byteAt icmp 1 == 0 &&
    readBe16 icmp 4 == identifier && readBe16 icmp 6 == sequence

def icmpEchoReply (request : List UInt8) : List UInt8 :=
  let sum := icmpChecksum ([0, 0, 0, 0] ++ request.drop 4)
  [0, 0] ++ be16 sum ++ request.drop 4

def icmpAnswerEcho (world : World) (state : NetState) (payload : List UInt8) (srcIp dstIp : UInt32)
    (srcMac : Mac) : NetState :=
  if !state.config.configured || state.config.ip == ipZero then state
  else if srcMac = macZero ∨ srcMac = macBroadcast then state
  else if dstIp ≠ state.config.ip then state
  else if payload.length > ethMtu - ipv4HeaderSize then state
  else
    let header := ipv4Header (UInt16.ofNat (ipv4HeaderSize + payload.length))
      state.ipIdentification 64 ipProtoIcmp state.config.ip srcIp
    let state := { state with ipIdentification := state.ipIdentification + 1 }
    let state := arpCacheUpdate world state srcIp srcMac
    (netSendEthernetFrame world state srcMac ethTypeIpv4 (header ++ icmpEchoReply payload)).2

def pingReceived (world : World) (state : NetState) (srcIp : UInt32) (icmpType : UInt8) : NetState :=
  let (now, state) := pitGetTicks world state
  { state with
    ping := { state.ping with
      received := true, receivedTick := now, replySrcIp := srcIp, replyIcmpType := icmpType } }

def netHandleIcmp (world : World) (state : NetState) (payload : List UInt8) (srcIp dstIp : UInt32)
    (srcMac : Mac) : NetState :=
  let icmpType := byteAt payload 0
  let icmpCode := byteAt payload 1
  let waits := state.ping.waiting && !state.ping.received
  if payload.length < 8 then state
  else if icmpChecksum payload ≠ 0 then state
  else if icmpType = 8 ∧ icmpCode = 0 then icmpAnswerEcho world state payload srcIp dstIp srcMac
  else if icmpType = 0 ∧ icmpCode = 0 then
    if waits && readBe16 payload 4 == state.ping.identifier &&
        readBe16 payload 6 == state.ping.sequence && srcIp == state.ping.expectedSrcIp then
      pingReceived world state srcIp 0
    else state
  else if icmpType = 11 ∧ (waits && state.ping.acceptTimeExceeded) = true then
    if icmpMatchEmbeddedProbe payload state.ping.identifier state.ping.sequence
        state.ping.expectedSrcIp state.config.ip then
      pingReceived world state srcIp 11
    else state
  else state

def netHandleArp (world : World) (state : NetState) (packet : List UInt8) : NetState :=
  let senderMac := macAt packet 8
  let senderIp := readBe32 packet 14
  let validSender := senderIp ≠ ipZero ∧ senderMac ≠ macZero ∧ senderMac ≠ macBroadcast
  if packet.length < 28 then state
  else if readBe16 packet 0 ≠ 1 ∨ readBe16 packet 2 ≠ 0x0800 ∨ byteAt packet 4 ≠ 6 ∨
      byteAt packet 5 ≠ 4 then state
  else
    let state := if validSender then arpCacheUpdate world state senderIp senderMac else state
    if readBe16 packet 6 = arpOpRequest then
      if !state.config.configured || state.config.ip == ipZero then state
      else if readBe32 packet 24 ≠ state.config.ip then state
      else if validSender then (arpSendReply world state senderMac senderIp).2
      else state
    else state

/-! TCP, `net/net_tcp.c` -/

def tcpAccept (packet : List UInt8) (srcIp dstIp : UInt32) : Option TcpSegment :=
  let headerLength := (byteAt packet 12 >>> 4).toNat * 4
  let verify := tcpChecksum srcIp dstIp packet
  if packet.length < tcpHeaderSize ∨ packet.length > 0xFFFF then none
  else if headerLength < tcpHeaderSize ∨ headerLength > packet.length then none
  else if verify ≠ 0 ∧ verify ≠ 0xFFFF then none
  else if readBe16 packet 0 = 0 ∨ readBe16 packet 2 = 0 then none
  else
    some {
      srcIp := srcIp
      srcPort := readBe16 packet 0
      dstPort := readBe16 packet 2
      sequence := readBe32 packet 4
      ackNumber := readBe32 packet 8
      flags := byteAt packet 13
      payload := packet.drop headerLength }

def tcpProbeMatches (probe : TcpProbeState) (segment : TcpSegment) : Bool :=
  probe.waiting && !probe.received && segment.srcIp == probe.expectedSrcIp &&
    segment.srcPort == probe.dstPort && segment.dstPort == probe.srcPort

/-- The SYN|ACK that answers the probe's SYN. -/
def tcpProbeAnswered (probe : TcpProbeState) (segment : TcpSegment) : Bool :=
  segment.flags &&& (tcpFlagSyn ||| tcpFlagAck) == tcpFlagSyn ||| tcpFlagAck &&
    segment.ackNumber == probe.sequence + 1

def tcpProbeReceived (world : World) (state : NetState) (isOpen : Bool) : NetState :=
  let (now, state) := pitGetTicks world state
  { state with probe := { state.probe with received := true, isOpen := isOpen, receivedTick := now }
  }

def tcpReply (world : World) (state : NetState) (src : AddressRef) (dstIp : UInt32)
    (call : TcpCall) : Option (Bool × NetState) :=
  netSendTcpIpv4 idlePoll world state src (.given dstIp) call 64 (idleRounds world)

def tcpResetCall (segment : TcpSegment) : TcpCall :=
  if hasFlag segment.flags tcpFlagAck then
    ⟨segment.dstPort, segment.srcPort, segment.ackNumber, 0, tcpFlagRst, []⟩
  else
    ⟨segment.dstPort, segment.srcPort, 0,
      segment.sequence + tcpSegmentAdvance segment.flags segment.payload.length,
      tcpFlagRst ||| tcpFlagAck, []⟩

def tcpSendResetForSegment (world : World) (state : NetState) (segment : TcpSegment)
    (dstIp : UInt32) : Option NetState :=
  if hasFlag segment.flags tcpFlagRst || dstIp == ipZero then some state
  else (tcpReply world state (.given dstIp) segment.srcIp (tcpResetCall segment)).map Prod.snd

def netConfigured (config : NetConfig) : Bool := config.configured && config.ip != ipZero

def tcpClientCall (client : TcpClient) (outgoing : TcpOutgoing) : TcpCall :=
  ⟨client.srcPort, client.dstPort, outgoing.sequence, outgoing.ackNumber, outgoing.flags,
    outgoing.payload⟩

/-- `tcp_client_handle_segment` for a matching segment.  The client asks for at most one
send and does not look at its result before; the result decides `snd_nxt`. -/
def tcpClientDeliver (world : World) (state : NetState) (segment : TcpSegment) : Option NetState :=
  let (now, state) := pitGetTicks world state
  let configured := netConfigured state.config
  let handle := fun accepted => tcpClientHandleSegment state.client ⟨configured, accepted⟩ now segment
  match (handle true).2.2 with
  | [] => some { state with client := (handle true).2.1 }
  | outgoing :: _ =>
      match tcpReply world state .configIp state.client.remoteIp (tcpClientCall state.client outgoing) with
      | none => none
      | some (sent, state) => some { state with client := (handle sent).2.1 }

def tcpDeliver (world : World) (state : NetState) (segment : TcpSegment) (dstIp : UInt32) :
    Option NetState :=
  let probed := tcpProbeMatches state.probe segment
  if probed && hasFlag segment.flags tcpFlagRst then some (tcpProbeReceived world state false)
  else if probed && tcpProbeAnswered state.probe segment then
    let state := tcpProbeReceived world state true
    let call : TcpCall := ⟨state.probe.srcPort, state.probe.dstPort, state.probe.sequence + 1,
      segment.sequence + 1, tcpFlagRst ||| tcpFlagAck, []⟩
    (tcpReply world state .configIp segment.srcIp call).map Prod.snd
  else if tcpClientMatches state.client segment.srcIp segment.srcPort segment.dstPort then
    tcpClientDeliver world state segment
  else if !netConfigured state.config || dstIp != state.config.ip then some state
  else tcpSendResetForSegment world state segment dstIp

def netHandleTcp (world : World) (state : NetState) (packet : List UInt8) (srcIp dstIp : UInt32) :
    Option NetState :=
  match tcpAccept packet srcIp dstIp with
  | none => some state
  | some segment => tcpDeliver world state segment dstIp

/-! IPv4 and Ethernet, `net/net_rx.c` -/

structure Ipv4Datagram where
  srcIp : UInt32
  dstIp : UInt32
  protocol : UInt8
  payload : List UInt8

def ipv4Accept (packet : List UInt8) : Option Ipv4Datagram :=
  let version := byteAt packet 0 >>> 4
  let ihl := (byteAt packet 0 &&& (0x0F : UInt8)).toNat * 4
  let totalLength := (readBe16 packet 2).toNat
  if packet.length < ipv4HeaderSize then none
  else if version ≠ 4 ∨ ihl < ipv4HeaderSize ∨ ihl > packet.length then none
  else if totalLength < ihl ∨ totalLength > packet.length then none
  else if ipv4Checksum (packet.take ihl) ≠ 0 then none
  else
    some ⟨readBe32 packet 12, readBe32 packet 16, byteAt packet 9, (packet.take totalLength).drop ihl⟩

def ipv4ForUs (config : NetConfig) (dstIp : UInt32) : Bool :=
  config.ip != ipZero && dstIp == config.ip || dstIp == ipBroadcast

def ipv4Dispatch (world : World) (state : NetState) (datagram : Ipv4Datagram) (srcMac : Mac) :
    Option NetState :=
  if datagram.protocol = ipProtoIcmp then
    some (netHandleIcmp world state datagram.payload datagram.srcIp datagram.dstIp srcMac)
  else if datagram.protocol = ipProtoUdp then
    netHandleUdp world state datagram.payload datagram.srcIp datagram.dstIp
  else if datagram.protocol = ipProtoTcp then
    netHandleTcp world state datagram.payload datagram.srcIp datagram.dstIp
  else some state

/-- The sender of every accepted packet with usable addresses is remembered. -/
def ipv4LearnSender (world : World) (state : NetState) (srcIp : UInt32) (srcMac : Mac) : NetState :=
  if srcMac ≠ macZero ∧ srcMac ≠ macBroadcast ∧ srcIp ≠ ipZero ∧ srcIp ≠ ipBroadcast then
    arpCacheUpdate world state srcIp srcMac
  else state

def netHandleIpv4 (world : World) (state : NetState) (packet : List UInt8) (srcMac : Mac) :
    Option NetState :=
  match ipv4Accept packet with
  | none => some state
  | some datagram =>
      let state := ipv4LearnSender world state datagram.srcIp srcMac
      if ipv4ForUs state.config datagram.dstIp then ipv4Dispatch world state datagram srcMac
      else some state

def netHandleEthernet (world : World) (state : NetState) (frame : List UInt8) : Option NetState :=
  if frame.length < ethHeaderSize then some state
  else if macAt frame 0 ≠ macBroadcast ∧ macAt frame 0 ≠ world.mac then some state
  else if readBe16 frame 12 = ethTypeIpv4 then
    netHandleIpv4 world state (frame.drop ethHeaderSize) (macAt frame 6)
  else if readBe16 frame 12 = ethTypeArp then
    some (netHandleArp world state (frame.drop ethHeaderSize))
  else some state

/-- `net_poll`: at most eight of the frames that the card has. -/
def netPoll (world : World) (state : NetState) (frames : List (List UInt8)) : Option NetState :=
  if !world.initialized then some state
  else runActions (netHandleEthernet world) state (frames.take 8)

end Szczupak
