import Szczupak.Net.ReceiveCore

/-!
The receive path with its accesses checked.  A pointer into the frame is an address with the
length that the routine was given; every load names its address in the frame, every copy the
place in the buffer it goes to, and every parsing loop counts its turns.  Waiting for an ARP
reply touches the frame and the buffers of the sender no more, and is taken from the transmit
path as it is.
-/

namespace Szczupak

/-- `none` is an access outside the frame or a buffer, or a parsing loop that has not ended. -/
abbrev Access (Result : Type) := Option Result

/-- A pointer into the frame and the length trusted from there on. -/
structure View where
  start : Nat
  length : Nat

def storeInside (capacity first count : Nat) : Access Unit :=
  if first + count ≤ capacity then some () else none

section Loads

variable (frame : List UInt8)

def loadByte (address : Nat) : Access UInt8 := frame[address]?

def loadBe16 (address : Nat) : Access UInt16 := do
  let high ← loadByte frame address
  let low ← loadByte frame (address + 1)
  return high.toUInt16 <<< 8 ||| low.toUInt16

def loadBe32 (address : Nat) : Access UInt32 := do
  let first ← loadByte frame address
  let second ← loadByte frame (address + 1)
  let third ← loadByte frame (address + 2)
  let fourth ← loadByte frame (address + 3)
  return first.toUInt32 <<< 24 ||| second.toUInt32 <<< 16 ||| third.toUInt32 <<< 8 ||| fourth.toUInt32

def loadBytes (address count : Nat) : Access (List UInt8) :=
  if address + count ≤ frame.length then some ((frame.drop address).take count) else none

def loadMac (address : Nat) : Access Mac := do
  let bytes ← loadBytes frame address 6
  return macAt bytes 0

def checksumLoop (view : View) : Nat → Nat → UInt32 → Access UInt32
  | 0, _, _ => none
  | turns + 1, i, sum =>
      if i + 1 < view.length then do
        let high ← loadByte frame (view.start + i)
        let low ← loadByte frame (view.start + (i + 1))
        checksumLoop view turns (i + 2) (sum + (high.toUInt32 <<< 8 ||| low.toUInt32))
      else if i < view.length then do
        let last ← loadByte frame (view.start + i)
        return sum + last.toUInt32 <<< 8
      else return sum

def checksumFinalizeLoop : Nat → UInt32 → Access UInt16
  | 0, _ => none
  | turns + 1, sum =>
      if sum >>> 16 ≠ 0 then checksumFinalizeLoop turns (foldCarry sum) else some (~~~sum.toUInt16)

def loadChecksum (view : View) (sum : UInt32) : Access UInt16 := do
  let total ← checksumLoop frame view (view.length + 1) 0 sum
  checksumFinalizeLoop 3 total

def dhcpOptionsLoop (view : View) : Nat → Nat → DhcpOptions → Access DhcpOptions
  | 0, _, _ => none
  | turns + 1, i, options =>
      if i < view.length then do
        let option ← loadByte frame (view.start + i)
        if option = 0 then dhcpOptionsLoop view turns (i + 1) options
        else if option = dhcpOptEnd then return options
        else if i + 1 ≥ view.length then return options
        else do
          let length ← loadByte frame (view.start + (i + 1))
          if length.toNat > view.length - (i + 2) then return options
          else do
            let value ← loadBytes frame (view.start + (i + 2)) length.toNat
            dhcpOptionsLoop view turns (i + 2 + length.toNat) (dhcpOption options option value)
      else return options

def dhcpAcceptChecked (world : World) (dhcp : DhcpClient) (view : View) :
    Access (Option (UInt8 × DhcpOptions)) :=
  if view.length < 240 then return none
  else do
    let op ← loadByte frame view.start
    let hardware ← loadByte frame (view.start + 1)
    let hardwareLength ← loadByte frame (view.start + 2)
    if op ≠ 2 ∨ hardware ≠ 1 ∨ hardwareLength ≠ 6 then return none
    else do
      let xid ← loadBe32 frame (view.start + 4)
      if xid ≠ dhcp.xid then return none
      else do
        let mac ← loadMac frame (view.start + 28)
        if mac ≠ world.mac then return none
        else do
          let cookie ← loadBytes frame (view.start + 236) 4
          if cookie ≠ dhcpMagicCookie then return none
          else do
            let options ← dhcpOptionsLoop frame ⟨view.start + 240, view.length - 240⟩
              (view.length - 240 + 1) 0 dhcpOptionsClear
            return options.msgType.map fun msgType => (msgType, options)

def dnsSkipNameLoop (view : View) : Nat → Nat → Nat → Access (Option Nat)
  | 0, _, _ => none
  | turns + 1, labels, offset =>
      if offset < view.length then do
        let length ← loadByte frame (view.start + offset)
        if length = 0 then return some (offset + 1)
        else if length &&& (0xC0 : UInt8) = 0xC0 then
          if offset + 1 ≥ view.length then return none else return some (offset + 2)
        else if length &&& (0xC0 : UInt8) ≠ 0 ∨ length > 63 then return none
        else if offset + 1 + length.toNat > view.length then return none
        else if labels + 1 > 128 then return none
        else dnsSkipNameLoop view turns (labels + 1) (offset + 1 + length.toNat)
      else return none

def dnsSkipNameChecked (view : View) (offset : Nat) : Access (Option Nat) :=
  dnsSkipNameLoop frame view (view.length + 1) 0 offset

def dnsSkipQuestionsChecked (view : View) : Nat → Nat → Access (Option Nat)
  | 0, offset => return some offset
  | count + 1, offset => do
      match ← dnsSkipNameChecked frame view offset with
      | none => return none
      | some after =>
          if after + 4 > view.length then return none
          else dnsSkipQuestionsChecked view count (after + 4)

def dnsFindAnswerChecked (view : View) : Nat → Nat → Access (Option (UInt32 × UInt32))
  | 0, _ => return none
  | count + 1, offset => do
      match ← dnsSkipNameChecked frame view offset with
      | none => return none
      | some record =>
          if record + 10 > view.length then return none
          else do
            let type ← loadBe16 frame (view.start + record)
            let classCode ← loadBe16 frame (view.start + (record + 2))
            let ttl ← loadBe32 frame (view.start + (record + 4))
            let rdlength ← loadBe16 frame (view.start + (record + 8))
            if record + 10 + rdlength.toNat > view.length then return none
            else if type = 1 ∧ classCode = 1 ∧ rdlength.toNat = 4 then do
              let ip ← loadBe32 frame (view.start + (record + 10))
              return some (ip, ttl)
            else dnsFindAnswerChecked view count (record + 10 + rdlength.toNat)

def dnsParseResponseAChecked (view : View) (expectedTxid : UInt16) :
    Access (Option (UInt32 × UInt32)) :=
  if view.length < 12 then return none
  else do
    let txid ← loadBe16 frame view.start
    let flags ← loadBe16 frame (view.start + 2)
    let qdcount ← loadBe16 frame (view.start + 4)
    let ancount ← loadBe16 frame (view.start + 6)
    if txid ≠ expectedTxid then return none
    else if flags &&& (0x8000 : UInt16) = 0 then return none
    else if flags &&& (0x000F : UInt16) ≠ 0 then return none
    else do
      match ← dnsSkipQuestionsChecked frame view qdcount.toNat 12 with
      | none => return none
      | some offset => dnsFindAnswerChecked frame view ancount.toNat offset

end Loads

def arpCacheSize : Nat := 16

def arpCacheUpdateChecked (world : World) (state : NetState) (ip : UInt32) (mac : Mac) :
    Access NetState :=
  if ip = ipZero ∨ mac = macZero ∨ mac = macBroadcast then return state
  else do
    let (now, state) := pitGetTicks world state
    match state.arpCache.findIdx? fun entry => entry.valid && entry.ip == ip with
    | some index => do
        storeInside arpCacheSize index 1
        return { state with
          arpCache := state.arpCache.modify index fun entry =>
            { entry with mac := mac, updatedAtTicks := now } }
    | none => do
        let slot := cacheSlot (state.arpCache.map fun entry => (entry.valid, entry.updatedAtTicks))
        storeInside arpCacheSize slot 1
        return { state with arpCache := state.arpCache.set slot ⟨true, ip, mac, now⟩ }

/-- `g_tx_eth_frame` has room for a header and the largest payload. -/
def netSendEthernetFrameChecked (world : World) (state : NetState) (dstMac : Mac)
    (ethertype : UInt16) (payload : List UInt8) : Access (Bool × NetState) :=
  if !world.initialized || decide (payload.length > ethMtu) then return (false, state)
  else do
    storeInside (ethHeaderSize + ethMtu) 0 ethHeaderSize
    storeInside (ethHeaderSize + ethMtu) ethHeaderSize payload.length
    let taken := world.accepts state.attempts
    let frame := ethernetFrame dstMac world.mac ethertype payload
    return (taken, { state with
      attempts := state.attempts + 1
      wire := if taken then state.wire ++ [frame] else state.wire })

def arpSendReplyChecked (world : World) (state : NetState) (targetMac : Mac) (targetIp : UInt32) :
    Access (Bool × NetState) :=
  if !world.initialized || state.config.ip == ipZero then return (false, state)
  else
    netSendEthernetFrameChecked world state targetMac ethTypeArp
      (arpPacket arpOpReply world.mac targetMac state.config.ip targetIp)

section Sends

variable (world : World) (state : NetState) (src dst : AddressRef)

/-- `g_tx_ipv4_packet` holds 1500 bytes. -/
def netSendIpv4ResolvedChecked (protocol ttl : UInt8) (payload : PayloadRef) (payloadLength : Nat)
    (dstMac : Mac) : Access (Bool × NetState) := do
  storeInside ethMtu 0 ipv4HeaderSize
  storeInside ethMtu ipv4HeaderSize payloadLength
  let totalLength := UInt16.ofNat (ipv4HeaderSize + payloadLength)
  let header := ipv4Header totalLength state.ipIdentification (if ttl = 0 then 64 else ttl) protocol
    (src.load state.config) (dst.load state.config)
  netSendEthernetFrameChecked world { state with ipIdentification := state.ipIdentification + 1 }
    dstMac ethTypeIpv4 (header ++ payload.load state payloadLength)

/-- The result is `some none` where the wait for an ARP reply has not ended. -/
def netSendIpv4PayloadChecked (protocol ttl : UInt8) (payload : PayloadRef) (payloadLength : Nat)
    (forceBroadcastEth : Bool) : Access (Option (Bool × NetState)) :=
  if payloadLength > ethMtu - ipv4HeaderSize then return some (false, state)
  else
    match netResolveDestMac idlePoll world state (dst.load state.config) forceBroadcastEth
        (idleRounds world) with
    | none => return none
    | some (none, state) => return some (false, state)
    | some (some dstMac, state) => do
        let sent ← netSendIpv4ResolvedChecked world state src dst protocol ttl payload payloadLength dstMac
        return some sent

/-- `g_tx_udp_packet` holds a header and 1500 bytes. -/
def netSendUdpIpv4Checked (srcPort dstPort : UInt16) (payload : List UInt8)
    (forceBroadcastEth : Bool) : Access (Option (Bool × NetState)) :=
  if !world.initialized then return some (false, state)
  else if payload.length > ethMtu - ipv4HeaderSize - udpHeaderSize then return some (false, state)
  else do
    storeInside (udpHeaderSize + ethMtu) 0 udpHeaderSize
    storeInside (udpHeaderSize + ethMtu) udpHeaderSize payload.length
    let packet := udpPacket (src.load state.config) (dst.load state.config) srcPort dstPort payload
    let built := { state with txUdpPacket := state.txUdpPacket.store 0 packet }
    netSendIpv4PayloadChecked world built src dst ipProtoUdp 64 .txUdpPacket
      (udpHeaderSize + payload.length) forceBroadcastEth

/-- `g_tx_tcp_packet` holds a header and 1500 bytes. -/
def netSendTcpIpv4Checked (call : TcpCall) (ttl : UInt8) : Access (Option (Bool × NetState)) :=
  if !world.initialized || call.srcPort == 0 || call.dstPort == 0 then return some (false, state)
  else if call.payload.length > ethMtu - ipv4HeaderSize - tcpHeaderSize then return some (false, state)
  else do
    storeInside (tcpHeaderSize + ethMtu) 0 tcpHeaderSize
    storeInside (tcpHeaderSize + ethMtu) tcpHeaderSize call.payload.length
    let packet := tcpPacket (src.load state.config) (dst.load state.config) call
    let built := { state with txTcpPacket := state.txTcpPacket.store 0 packet }
    netSendIpv4PayloadChecked world built src dst ipProtoTcp ttl .txTcpPacket
      (tcpHeaderSize + call.payload.length) false

end Sends

section Handlers

variable (frame : List UInt8) (world : World) (state : NetState)

/-- `dhcp_send_discover` builds its message in 320 bytes of the stack. -/
def dhcpSendDiscoverChecked : Access (Option (Bool × NetState)) := do
  storeInside 320 0 (dhcpDiscover world state.dhcp.xid).length
  netSendUdpIpv4Checked world state (.given ipZero) (.given ipBroadcast) 68 67
    (dhcpDiscover world state.dhcp.xid) true

def dhcpHandlePacketChecked (view : View) (sourceIp : UInt32) : Access (Option NetState) := do
  match ← dhcpAcceptChecked frame world state.dhcp view with
  | none => return some state
  | some (msgType, options) => do
      let yiaddr ← loadBe32 frame (view.start + 16)
      let siaddr ← loadBe32 frame (view.start + 20)
      if msgType = dhcpMsgOffer ∧ state.dhcp.state = .waitOffer then
        return some (if yiaddr = 0 then state else dhcpTakeOffer state yiaddr siaddr sourceIp options)
      else if msgType = dhcpMsgAck ∧ state.dhcp.state = .waitAck then
        let applied := dhcpApplyAck state yiaddr options
        return some { applied with dhcp := { applied.dhcp with state := .bound } }
      else if msgType = dhcpMsgNak ∧ state.dhcp.state = .waitAck then do
        let sent ← dhcpSendDiscoverChecked world
          { state with dhcp := { state.dhcp with state := .waitOffer } }
        return sent.map Prod.snd
      else return some state

def dnsHandleUdpPacketChecked (view : View) (srcIp : UInt32) (srcPort dstPort : UInt16) :
    Access NetState :=
  if !state.dns.waiting || state.dns.received then return state
  else if srcPort ≠ 53 ∨ dstPort ≠ state.dns.srcPort then return state
  else if srcIp ≠ state.dns.expectedServerIp then return state
  else do
    match ← dnsParseResponseAChecked frame view state.dns.txid with
    | none => return state
    | some (ip, ttl) =>
        let (now, state) := pitGetTicks world state
        return { state with
          dns := { state.dns with
            resolvedIp := ip, ttlSeconds := dnsNormalizeTtl ttl, received := true, receivedTick := now } }

/-- The ports and the payload of an accepted datagram.  `g_udp_verify_packet` holds a header and
1500 bytes. -/
def udpAcceptChecked (view : View) (srcIp dstIp : UInt32) : Access (Option (UInt16 × UInt16 × View)) :=
  if view.length < udpHeaderSize then return none
  else do
    let srcPort ← loadBe16 frame view.start
    let dstPort ← loadBe16 frame (view.start + 2)
    let udpLength ← loadBe16 frame (view.start + 4)
    if udpLength.toNat < udpHeaderSize ∨ udpLength.toNat > view.length then return none
    else do
      let payload : View := ⟨view.start + udpHeaderSize, udpLength.toNat - udpHeaderSize⟩
      let checksum ← loadBe16 frame (view.start + 6)
      if checksum ≠ 0 ∧ udpLength.toNat ≤ udpHeaderSize + ethMtu then do
        storeInside (udpHeaderSize + ethMtu) 0 udpLength.toNat
        let packet ← loadBytes frame view.start udpLength.toNat
        let sum ← loadChecksum packet ⟨0, udpLength.toNat⟩
          (pseudoHeaderSum srcIp dstIp ipProtoUdp udpLength.toNat)
        let verify : UInt16 := if sum = 0 then 0xFFFF else sum
        if verify ≠ 0xFFFF ∧ verify ≠ 0 then return none
        else return some (srcPort, dstPort, payload)
      else return some (srcPort, dstPort, payload)

def netHandleUdpChecked (view : View) (srcIp dstIp : UInt32) : Access (Option NetState) := do
  match ← udpAcceptChecked frame view srcIp dstIp with
  | none => return some state
  | some (srcPort, dstPort, payload) =>
      if srcPort = 67 ∧ dstPort = 68 then dhcpHandlePacketChecked frame world state payload srcIp
      else do
        let handled ← dnsHandleUdpPacketChecked frame world state payload srcIp srcPort dstPort
        return some handled

def icmpMatchEmbeddedProbeChecked (view : View) (identifier sequence : UInt16)
    (expectedDstIp expectedSrcIp : UInt32) : Access Bool :=
  if view.length < 8 + ipv4HeaderSize then return false
  else do
    let embedded : View := ⟨view.start + 8, view.length - 8⟩
    let versionIhl ← loadByte frame embedded.start
    let ihl := (versionIhl &&& (0x0F : UInt8)).toNat * 4
    if versionIhl >>> 4 ≠ 4 ∨ ihl < ipv4HeaderSize ∨ ihl > embedded.length then return false
    else do
      let protocol ← loadByte frame (embedded.start + 9)
      if protocol ≠ ipProtoIcmp then return false
      else if embedded.length < ihl + 8 then return false
      else do
        let srcIp ← loadBe32 frame (embedded.start + 12)
        let dstIp ← loadBe32 frame (embedded.start + 16)
        if srcIp ≠ expectedSrcIp ∨ dstIp ≠ expectedDstIp then return false
        else do
          let type ← loadByte frame (embedded.start + ihl)
          let code ← loadByte frame (embedded.start + (ihl + 1))
          if type ≠ 8 ∨ code ≠ 0 then return false
          else do
            let embeddedIdentifier ← loadBe16 frame (embedded.start + (ihl + 4))
            let embeddedSequence ← loadBe16 frame (embedded.start + (ihl + 6))
            return embeddedIdentifier == identifier && embeddedSequence == sequence

/-- `g_icmp_reply` holds 1480 bytes and `g_icmp_ipv4_packet` 1500. -/
def icmpAnswerEchoChecked (view : View) (srcIp dstIp : UInt32) (srcMac : Mac) : Access NetState :=
  if !state.config.configured || state.config.ip == ipZero then return state
  else if srcMac = macZero ∨ srcMac = macBroadcast then return state
  else if dstIp ≠ state.config.ip then return state
  else if view.length > ethMtu - ipv4HeaderSize then return state
  else do
    storeInside (ethMtu - ipv4HeaderSize) 0 view.length
    let request ← loadBytes frame view.start view.length
    storeInside (ethMtu - ipv4HeaderSize) 0 8
    storeInside ethMtu 0 ipv4HeaderSize
    let header := ipv4Header (UInt16.ofNat (ipv4HeaderSize + view.length)) state.ipIdentification 64
      ipProtoIcmp state.config.ip srcIp
    let state := { state with ipIdentification := state.ipIdentification + 1 }
    storeInside ethMtu ipv4HeaderSize view.length
    let state ← arpCacheUpdateChecked world state srcIp srcMac
    let sent ← netSendEthernetFrameChecked world state srcMac ethTypeIpv4
      (header ++ icmpEchoReply request)
    return sent.2

def netHandleIcmpChecked (view : View) (srcIp dstIp : UInt32) (srcMac : Mac) : Access NetState :=
  if view.length < 8 then return state
  else do
    let sum ← loadChecksum frame view 0
    if sum ≠ 0 then return state
    else do
      let icmpType ← loadByte frame view.start
      let icmpCode ← loadByte frame (view.start + 1)
      let waits := state.ping.waiting && !state.ping.received
      if icmpType = 8 ∧ icmpCode = 0 then icmpAnswerEchoChecked frame world state view srcIp dstIp srcMac
      else if icmpType = 0 ∧ icmpCode = 0 then do
        let identifier ← loadBe16 frame (view.start + 4)
        let sequence ← loadBe16 frame (view.start + 6)
        if waits && identifier == state.ping.identifier && sequence == state.ping.sequence &&
            srcIp == state.ping.expectedSrcIp then
          return pingReceived world state srcIp 0
        else return state
      else if icmpType = 11 ∧ (waits && state.ping.acceptTimeExceeded) = true then do
        let ours ← icmpMatchEmbeddedProbeChecked frame view state.ping.identifier
          state.ping.sequence state.ping.expectedSrcIp state.config.ip
        if ours then return pingReceived world state srcIp 11 else return state
      else return state

def netHandleArpChecked (view : View) : Access NetState :=
  if view.length < 28 then return state
  else do
    let hardwareType ← loadBe16 frame view.start
    let protocolType ← loadBe16 frame (view.start + 2)
    let hardwareSize ← loadByte frame (view.start + 4)
    let protocolSize ← loadByte frame (view.start + 5)
    if hardwareType ≠ 1 ∨ protocolType ≠ 0x0800 ∨ hardwareSize ≠ 6 ∨ protocolSize ≠ 4 then return state
    else do
      let opcode ← loadBe16 frame (view.start + 6)
      let senderMac ← loadMac frame (view.start + 8)
      let senderIp ← loadBe32 frame (view.start + 14)
      let validSender := senderIp ≠ ipZero ∧ senderMac ≠ macZero ∧ senderMac ≠ macBroadcast
      let state ← if validSender then arpCacheUpdateChecked world state senderIp senderMac
        else pure state
      if opcode = arpOpRequest then
        if !state.config.configured || state.config.ip == ipZero then return state
        else do
          let targetIp ← loadBe32 frame (view.start + 24)
          if targetIp ≠ state.config.ip then return state
          else if validSender then do
            let sent ← arpSendReplyChecked world state senderMac senderIp
            return sent.2
          else return state
      else return state

def tcpAcceptChecked (view : View) (srcIp dstIp : UInt32) : Access (Option TcpSegment) :=
  if view.length < tcpHeaderSize ∨ view.length > 0xFFFF then return none
  else do
    let dataOffset ← loadByte frame (view.start + 12)
    let headerLength := (dataOffset >>> 4).toNat * 4
    if headerLength < tcpHeaderSize ∨ headerLength > view.length then return none
    else do
      let verify ← loadChecksum frame view (pseudoHeaderSum srcIp dstIp ipProtoTcp view.length)
      if verify ≠ 0 ∧ verify ≠ 0xFFFF then return none
      else do
        let srcPort ← loadBe16 frame view.start
        let dstPort ← loadBe16 frame (view.start + 2)
        let flags ← loadByte frame (view.start + 13)
        let sequence ← loadBe32 frame (view.start + 4)
        let ackNumber ← loadBe32 frame (view.start + 8)
        if srcPort = 0 ∨ dstPort = 0 then return none
        else do
          let payload ← loadBytes frame (view.start + headerLength) (view.length - headerLength)
          return some { srcIp, srcPort, dstPort, sequence, ackNumber, flags, payload }

def tcpClientStoreChecked (client : TcpClient) (payload : List UInt8) : Access Unit :=
  if payload.length = 0 then return ()
  else
    let wanted := UInt32.ofNat payload.length
    let remaining :=
      if client.rxLength < client.rxCapacity then client.rxCapacity - client.rxLength else 0
    let copyLen := if wanted > remaining then remaining else wanted
    if copyLen = 0 then return ()
    else storeInside client.rxCapacity.toNat client.rxLength.toNat copyLen.toNat

def tcpClientReceiveChecked (client : TcpClient) (link : TcpLink) (segment : TcpSegment) :
    Access (Bool × TcpClient × List TcpOutgoing) := do
  if !hasFlag segment.flags tcpFlagRst && client.established && segment.sequence == client.rcvNxt then
    tcpClientStoreChecked client segment.payload
  return tcpClientReceive client link segment

def tcpClientHandleSegmentChecked (client : TcpClient) (link : TcpLink) (tick : UInt64)
    (segment : TcpSegment) : Access (Bool × TcpClient × List TcpOutgoing) :=
  if !tcpClientMatches client segment.srcIp segment.srcPort segment.dstPort then
    return (false, client, [])
  else tcpClientReceiveChecked { client with lastActivityTick := tick } link segment

def tcpReplyChecked (src : AddressRef) (dstIp : UInt32) (call : TcpCall) :
    Access (Option (Bool × NetState)) :=
  netSendTcpIpv4Checked world state src (.given dstIp) call 64

def tcpSendResetForSegmentChecked (segment : TcpSegment) (dstIp : UInt32) : Access (Option NetState) :=
  if hasFlag segment.flags tcpFlagRst || dstIp == ipZero then return some state
  else do
    let sent ← tcpReplyChecked world state (.given dstIp) segment.srcIp (tcpResetCall segment)
    return sent.map Prod.snd

def tcpClientDeliverChecked (segment : TcpSegment) : Access (Option NetState) := do
  let (now, state) := pitGetTicks world state
  let configured := netConfigured state.config
  let handle := fun accepted =>
    tcpClientHandleSegmentChecked state.client ⟨configured, accepted⟩ now segment
  let asked ← handle true
  match asked.2.2 with
  | [] => return some { state with client := asked.2.1 }
  | outgoing :: _ => do
      match ← tcpReplyChecked world state .configIp state.client.remoteIp
          (tcpClientCall state.client outgoing) with
      | none => return none
      | some (sent, state) => do
          let answered ← handle sent
          return some { state with client := answered.2.1 }

def tcpDeliverChecked (segment : TcpSegment) (dstIp : UInt32) : Access (Option NetState) := do
  let probed := tcpProbeMatches state.probe segment
  if probed && hasFlag segment.flags tcpFlagRst then return some (tcpProbeReceived world state false)
  else if probed && tcpProbeAnswered state.probe segment then do
    let state := tcpProbeReceived world state true
    let call : TcpCall := ⟨state.probe.srcPort, state.probe.dstPort, state.probe.sequence + 1,
      segment.sequence + 1, tcpFlagRst ||| tcpFlagAck, []⟩
    let sent ← tcpReplyChecked world state .configIp segment.srcIp call
    return sent.map Prod.snd
  else if tcpClientMatches state.client segment.srcIp segment.srcPort segment.dstPort then
    tcpClientDeliverChecked world state segment
  else if !netConfigured state.config || dstIp != state.config.ip then return some state
  else tcpSendResetForSegmentChecked world state segment dstIp

def netHandleTcpChecked (view : View) (srcIp dstIp : UInt32) : Access (Option NetState) := do
  match ← tcpAcceptChecked frame view srcIp dstIp with
  | none => return some state
  | some segment => tcpDeliverChecked world state segment dstIp

structure Ipv4View where
  srcIp : UInt32
  dstIp : UInt32
  protocol : UInt8
  payload : View

def ipv4AcceptChecked (view : View) : Access (Option Ipv4View) :=
  if view.length < ipv4HeaderSize then return none
  else do
    let versionIhl ← loadByte frame view.start
    let ihl := (versionIhl &&& (0x0F : UInt8)).toNat * 4
    if versionIhl >>> 4 ≠ 4 ∨ ihl < ipv4HeaderSize ∨ ihl > view.length then return none
    else do
      let totalLength ← loadBe16 frame (view.start + 2)
      if totalLength.toNat < ihl ∨ totalLength.toNat > view.length then return none
      else do
        let sum ← loadChecksum frame ⟨view.start, ihl⟩ 0
        if sum ≠ 0 then return none
        else do
          let srcIp ← loadBe32 frame (view.start + 12)
          let dstIp ← loadBe32 frame (view.start + 16)
          let protocol ← loadByte frame (view.start + 9)
          return some ⟨srcIp, dstIp, protocol, ⟨view.start + ihl, totalLength.toNat - ihl⟩⟩

def ipv4DispatchChecked (datagram : Ipv4View) (srcMac : Mac) : Access (Option NetState) :=
  if datagram.protocol = ipProtoIcmp then do
    let handled ← netHandleIcmpChecked
      frame world state datagram.payload datagram.srcIp datagram.dstIp srcMac
    return some handled
  else if datagram.protocol = ipProtoUdp then
    netHandleUdpChecked frame world state datagram.payload datagram.srcIp datagram.dstIp
  else if datagram.protocol = ipProtoTcp then
    netHandleTcpChecked frame world state datagram.payload datagram.srcIp datagram.dstIp
  else return some state

def netHandleIpv4Checked (view : View) (srcMac : Mac) : Access (Option NetState) := do
  match ← ipv4AcceptChecked frame view with
  | none => return some state
  | some datagram => do
      let learns := srcMac ≠ macZero ∧ srcMac ≠ macBroadcast ∧ datagram.srcIp ≠ ipZero ∧
        datagram.srcIp ≠ ipBroadcast
      let state ← if learns then arpCacheUpdateChecked world state datagram.srcIp srcMac
        else pure state
      if ipv4ForUs state.config datagram.dstIp then ipv4DispatchChecked frame world state datagram srcMac
      else return some state

def netHandleEthernetChecked : Access (Option NetState) :=
  if frame.length < ethHeaderSize then return some state
  else do
    let dstMac ← loadMac frame 0
    if dstMac ≠ macBroadcast ∧ dstMac ≠ world.mac then return some state
    else do
      let ethertype ← loadBe16 frame 12
      let payload : View := ⟨ethHeaderSize, frame.length - ethHeaderSize⟩
      if ethertype = ethTypeIpv4 then do
        let srcMac ← loadMac frame 6
        netHandleIpv4Checked frame world state payload srcMac
      else if ethertype = ethTypeArp then do
        let handled ← netHandleArpChecked frame world state payload
        return some handled
      else return some state

end Handlers

end Szczupak
