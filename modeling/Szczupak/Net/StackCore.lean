import Szczupak.Lib.Transition
import Szczupak.Net.PacketCore
import Szczupak.Net.TcpClientCore

/-!
The state of the network stack and its transmit path, `net/net_utils.c` and
`net/net_ip.c`.  The timer and the card are the `World`: what the n-th reading of the
timer gives and whether the card takes the n-th frame.  Statistics and the serial log are
left out.  A wait for an ARP reply is a list of rounds, each with what `net_poll` finds; a
computation is `none` when its rounds end before the wait does.
-/

namespace Szczupak

structure World where
  initialized : Bool
  mac : Mac
  frequency : UInt32
  ticks : Nat → UInt64
  accepts : Nat → Bool
  /-- Rounds granted to a wait inside a receive handler. -/
  patience : Nat

structure NetConfig where
  configured : Bool
  ip : UInt32
  netmask : UInt32
  gateway : UInt32
  dns : UInt32
  leaseTimeSeconds : UInt32

structure ArpCacheEntry where
  valid : Bool
  ip : UInt32
  mac : Mac
  updatedAtTicks : UInt64

inductive DhcpState where
  | idle
  | waitOffer
  | offerReady
  | waitAck
  | bound
deriving DecidableEq

/-- `has_offered_subnet` with `offered_subnet` and its like are options. -/
structure DhcpClient where
  state : DhcpState
  xid : UInt32
  offeredIp : UInt32
  serverIp : UInt32
  offeredSubnet : Option UInt32
  offeredRouter : Option UInt32
  offeredDns : Option UInt32
  leaseTime : Option UInt32

structure PingState where
  waiting : Bool
  received : Bool
  acceptTimeExceeded : Bool
  identifier : UInt16
  sequence : UInt16
  expectedSrcIp : UInt32
  replySrcIp : UInt32
  replyIcmpType : UInt8
  receivedTick : UInt64

structure DnsQueryState where
  waiting : Bool
  received : Bool
  txid : UInt16
  srcPort : UInt16
  expectedServerIp : UInt32
  resolvedIp : UInt32
  ttlSeconds : UInt32
  receivedTick : UInt64

structure TcpProbeState where
  waiting : Bool
  received : Bool
  isOpen : Bool
  srcPort : UInt16
  dstPort : UInt16
  expectedSrcIp : UInt32
  sequence : UInt32
  receivedTick : UInt64

/-- `txUdpPacket` and `txTcpPacket` are the static buffers that packets are built in;
`wire` is what the card has taken, oldest first. -/
structure NetState where
  config : NetConfig
  dhcp : DhcpClient
  arpCache : List ArpCacheEntry
  ping : PingState
  dns : DnsQueryState
  probe : TcpProbeState
  client : TcpClient
  ipIdentification : UInt16
  txUdpPacket : Mem
  txTcpPacket : Mem
  readings : Nat
  attempts : Nat
  wire : List (List UInt8)

/-- An address argument is a value or a pointer into `g_net_config`. -/
inductive AddressRef where
  | given (ip : UInt32)
  | configIp
  | configDns

def AddressRef.load (config : NetConfig) : AddressRef → UInt32
  | given ip => ip
  | configIp => config.ip
  | configDns => config.dns

inductive PayloadRef where
  | txUdpPacket
  | txTcpPacket
  | bytes (data : List UInt8)

def PayloadRef.load (state : NetState) (length : Nat) : PayloadRef → List UInt8
  | txUdpPacket => state.txUdpPacket.read 0 length
  | txTcpPacket => state.txTcpPacket.read 0 length
  | bytes data => data.take length

def pitGetTicks (world : World) (state : NetState) : UInt64 × NetState :=
  (world.ticks state.readings, { state with readings := state.readings + 1 })

def arpCacheTtlTicks (world : World) : UInt64 := world.frequency.toUInt64 * 120

def arpCacheExpireStale (world : World) (state : NetState) : NetState :=
  if arpCacheTtlTicks world = 0 then state
  else
    let (now, state) := pitGetTicks world state
    { state with
      arpCache := state.arpCache.map fun entry =>
        if entry.valid && decide (now - entry.updatedAtTicks > arpCacheTtlTicks world) then
          { entry with valid := false }
        else entry }

def arpCacheLookup (world : World) (state : NetState) (ip : UInt32) : Option Mac × NetState :=
  let state := arpCacheExpireStale world state
  ((state.arpCache.find? fun entry => entry.valid && entry.ip == ip).map ArpCacheEntry.mac, state)

/-- The first free slot, or else the first of the slots used longest ago; the pairs are
`valid` and `updated_at_ticks`. -/
def cacheSlot (marks : List (Bool × UInt64)) : Nat :=
  match marks.findIdx? fun mark => !mark.1 with
  | some free => free
  | none =>
      (marks.zipIdx.foldl (fun (oldest : UInt64 × Nat) mark =>
        if mark.1.2 < oldest.1 then (mark.1.2, mark.2) else oldest) (0xFFFFFFFFFFFFFFFF, 0)).2

def arpCacheUpdate (world : World) (state : NetState) (ip : UInt32) (mac : Mac) : NetState :=
  if ip = ipZero ∨ mac = macZero ∨ mac = macBroadcast then state
  else
    let (now, state) := pitGetTicks world state
    match state.arpCache.findIdx? fun entry => entry.valid && entry.ip == ip with
    | some index =>
        { state with
          arpCache := state.arpCache.modify index fun entry =>
            { entry with mac := mac, updatedAtTicks := now } }
    | none =>
        let slot := cacheSlot (state.arpCache.map fun entry => (entry.valid, entry.updatedAtTicks))
        { state with arpCache := state.arpCache.set slot ⟨true, ip, mac, now⟩ }

def netSendEthernetFrame (world : World) (state : NetState) (dstMac : Mac) (ethertype : UInt16)
    (payload : List UInt8) : Bool × NetState :=
  if !world.initialized || decide (payload.length > ethMtu) then (false, state)
  else
    let taken := world.accepts state.attempts
    let frame := ethernetFrame dstMac world.mac ethertype payload
    (taken, { state with
      attempts := state.attempts + 1
      wire := if taken then state.wire ++ [frame] else state.wire })

def arpSendRequest (world : World) (state : NetState) (targetIp : UInt32) : Bool × NetState :=
  if !world.initialized || state.config.ip == ipZero then (false, state)
  else
    netSendEthernetFrame world state macBroadcast ethTypeArp
      (arpPacket arpOpRequest world.mac macZero state.config.ip targetIp)

def arpSendReply (world : World) (state : NetState) (targetMac : Mac) (targetIp : UInt32) :
    Bool × NetState :=
  if !world.initialized || state.config.ip == ipZero then (false, state)
  else
    netSendEthernetFrame world state targetMac ethTypeArp
      (arpPacket arpOpReply world.mac targetMac state.config.ip targetIp)

def netPickNextHop (config : NetConfig) (dstIp : UInt32) : Option (UInt32 × Bool) :=
  if dstIp = ipBroadcast then some (dstIp, true)
  else if !config.configured || config.ip == ipZero then none
  else if config.netmask = ipZero ∨ ipIsSameSubnet dstIp config.ip config.netmask then
    some (dstIp, false)
  else if config.gateway ≠ ipZero then some (config.gateway, false)
  else none

section Resolve

variable {Round : Type} (poll : NetState → Round → Option NetState) (world : World)

/-- One turn of the loop without a timer: poll, look, at most 300000 times. -/
def arpSpinTurn (targetIp : UInt32) (wait : NetState × Nat) (round : Round) :
    Option ((NetState × Nat) ⊕ (Option Mac × NetState)) :=
  if wait.2 = 300000 then some (.inr (none, wait.1))
  else
    match poll wait.1 round with
    | none => none
    | some polled =>
        match arpCacheLookup world polled targetIp with
        | (some mac, looked) => some (.inr (some mac, looked))
        | (none, looked) => some (.inl (looked, wait.2 + 1))

/-- One turn of the timed loop; the number is `retry_at`. -/
def arpWaitTurn (targetIp : UInt32) (deadline retryTicks : UInt64) (wait : NetState × UInt64)
    (round : Round) : Option ((NetState × UInt64) ⊕ (Option Mac × NetState)) :=
  let (now, state) := pitGetTicks world wait.1
  if now > deadline then some (.inr (arpCacheLookup world state targetIp))
  else
    match poll state round with
    | none => none
    | some polled =>
        match arpCacheLookup world polled targetIp with
        | (some mac, looked) => some (.inr (some mac, looked))
        | (none, looked) =>
            let (now, state) := pitGetTicks world looked
            if now ≥ wait.2 then some (.inl ((arpSendRequest world state targetIp).2, now + retryTicks))
            else some (.inl (state, wait.2))

def arpTimeoutTicks (frequency timeoutMs : UInt32) : UInt64 :=
  let ticks := (timeoutMs.toUInt64 * frequency.toUInt64 + 999) / 1000
  if ticks = 0 then 1 else ticks

def arpRetryTicks (frequency : UInt32) : UInt64 :=
  let ticks := (frequency / 5).toUInt64
  if ticks = 0 then 1 else ticks

def netDefaultPingTimeoutMs : UInt32 := 1200

def arpResolve (state : NetState) (targetIp timeoutMs : UInt32) (rounds : List Round) :
    Option (Option Mac × NetState) :=
  if targetIp = ipBroadcast then some (some macBroadcast, state)
  else
    match arpCacheLookup world state targetIp with
    | (some mac, state) => some (some mac, state)
    | (none, state) =>
        let timeoutMs := if timeoutMs = 0 then 1200 else timeoutMs
        match arpSendRequest world state targetIp with
        | (false, state) => some (none, state)
        | (true, state) =>
            if world.frequency = 0 then runUntil (arpSpinTurn poll world targetIp) (state, 0) rounds
            else
              let (now, state) := pitGetTicks world state
              let retryTicks := arpRetryTicks world.frequency
              let deadline := now + arpTimeoutTicks world.frequency timeoutMs
              runUntil (arpWaitTurn poll world targetIp deadline retryTicks)
                (state, now + retryTicks) rounds

def netResolveDestMac (state : NetState) (dstIp : UInt32) (forceBroadcastEth : Bool)
    (rounds : List Round) : Option (Option Mac × NetState) :=
  if forceBroadcastEth || dstIp == ipBroadcast then some (some macBroadcast, state)
  else if state.config.configured && dstIp == state.config.ip then some (some world.mac, state)
  else
    match netPickNextHop state.config dstIp with
    | none => some (none, state)
    | some (_, true) => some (some macBroadcast, state)
    | some (nextHop, false) => arpResolve poll world state nextHop netDefaultPingTimeoutMs rounds

def netSendIpv4Resolved (state : NetState) (src dst : AddressRef) (protocol ttl : UInt8)
    (payload : PayloadRef) (payloadLength : Nat) (dstMac : Mac) : Bool × NetState :=
  let totalLength := UInt16.ofNat (ipv4HeaderSize + payloadLength)
  let header := ipv4Header totalLength state.ipIdentification (if ttl = 0 then 64 else ttl) protocol
    (src.load state.config) (dst.load state.config)
  netSendEthernetFrame world { state with ipIdentification := state.ipIdentification + 1 } dstMac
    ethTypeIpv4 (header ++ payload.load state payloadLength)

def netSendIpv4Payload (state : NetState) (src dst : AddressRef) (protocol ttl : UInt8)
    (payload : PayloadRef) (payloadLength : Nat) (forceBroadcastEth : Bool) (rounds : List Round) :
    Option (Bool × NetState) :=
  if payloadLength > ethMtu - ipv4HeaderSize then some (false, state)
  else
    match netResolveDestMac poll world state (dst.load state.config) forceBroadcastEth rounds with
    | none => none
    | some (none, state) => some (false, state)
    | some (some dstMac, state) =>
        some (netSendIpv4Resolved world state src dst protocol ttl payload payloadLength dstMac)

def netSendUdpIpv4 (state : NetState) (src dst : AddressRef) (srcPort dstPort : UInt16)
    (payload : List UInt8) (forceBroadcastEth : Bool) (rounds : List Round) :
    Option (Bool × NetState) :=
  if !world.initialized then some (false, state)
  else if payload.length > ethMtu - ipv4HeaderSize - udpHeaderSize then some (false, state)
  else
    let packet := udpPacket (src.load state.config) (dst.load state.config) srcPort dstPort payload
    let built := { state with txUdpPacket := state.txUdpPacket.store 0 packet }
    netSendIpv4Payload poll world built src dst ipProtoUdp 64 .txUdpPacket
      (udpHeaderSize + payload.length) forceBroadcastEth rounds

def netSendTcpIpv4 (state : NetState) (src dst : AddressRef) (call : TcpCall) (ttl : UInt8)
    (rounds : List Round) : Option (Bool × NetState) :=
  if !world.initialized || call.srcPort == 0 || call.dstPort == 0 then some (false, state)
  else if call.payload.length > ethMtu - ipv4HeaderSize - tcpHeaderSize then some (false, state)
  else
    let packet := tcpPacket (src.load state.config) (dst.load state.config) call
    let built := { state with txTcpPacket := state.txTcpPacket.store 0 packet }
    netSendIpv4Payload poll world built src dst ipProtoTcp ttl .txTcpPacket
      (tcpHeaderSize + call.payload.length) false rounds

end Resolve

end Szczupak
