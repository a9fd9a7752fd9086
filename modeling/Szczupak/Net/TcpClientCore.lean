import Szczupak.Lib.ByteMemory

/-!
The TCP client of `net/net_tcp.c`.  Sequence numbers are 32-bit words that wrap.  The
routines give the new client and the segments they hand to `net_send_tcp_ipv4`; whether
the network is configured and whether a send succeeds are arguments.
-/

namespace Szczupak

def tcpFlagFin : UInt8 := 0x01
def tcpFlagSyn : UInt8 := 0x02
def tcpFlagRst : UInt8 := 0x04
def tcpFlagAck : UInt8 := 0x10

structure TcpClient where
  active : Bool
  established : Bool
  finished : Bool
  reset : Bool
  truncated : Bool
  srcPort : UInt16
  dstPort : UInt16
  remoteIp : UInt32
  sndNxt : UInt32
  rcvNxt : UInt32
  rxBuffer : Mem
  rxCapacity : UInt32
  rxLength : UInt32
  lastActivityTick : UInt64

structure TcpSegment where
  srcIp : UInt32
  srcPort : UInt16
  dstPort : UInt16
  sequence : UInt32
  ackNumber : UInt32
  flags : UInt8
  payload : List UInt8

structure TcpOutgoing where
  sequence : UInt32
  ackNumber : UInt32
  flags : UInt8
  payload : List UInt8
deriving DecidableEq

/-- `configured`: there is an address to send from; `accepted`: the send succeeds. -/
structure TcpLink where
  configured : Bool
  accepted : Bool

def hasFlag (flags flag : UInt8) : Bool := flags &&& flag != 0

def tcpSegmentAdvance (flags : UInt8) (payloadLength : Nat) : UInt32 :=
  UInt32.ofNat payloadLength + (if hasFlag flags tcpFlagSyn then 1 else 0) +
    (if hasFlag flags tcpFlagFin then 1 else 0)

def tcpClientMatches (client : TcpClient) (srcIp : UInt32) (srcPort dstPort : UInt16) : Bool :=
  client.active && srcIp == client.remoteIp && srcPort == client.dstPort && dstPort == client.srcPort

def tcpClientSendSegment (client : TcpClient) (link : TcpLink) (flags : UInt8)
    (payload : List UInt8) : Bool × TcpClient × List TcpOutgoing :=
  if !client.active || !link.configured then (false, client, [])
  else
    let ackNumber := if hasFlag flags tcpFlagAck then client.rcvNxt else 0
    let sent := [⟨client.sndNxt, ackNumber, flags, payload⟩]
    if !link.accepted then (false, client, sent)
    else
      (true, { client with sndNxt := client.sndNxt + tcpSegmentAdvance flags payload.length }, sent)

/-- `(void)tcp_client_send_segment(TCP_FLAG_ACK, NULL, 0u); return true;` -/
def tcpClientAcknowledge (client : TcpClient) (link : TcpLink) : Bool × TcpClient × List TcpOutgoing :=
  let (_, client, sent) := tcpClientSendSegment client link tcpFlagAck []
  (true, client, sent)

def tcpClientStore (client : TcpClient) (payload : List UInt8) : TcpClient :=
  if payload.length = 0 then client
  else
    let wanted := UInt32.ofNat payload.length
    let remaining :=
      if client.rxLength < client.rxCapacity then client.rxCapacity - client.rxLength else 0
    let copyLen := if wanted > remaining then remaining else wanted
    { client with
      truncated := client.truncated || decide (wanted > remaining)
      rxBuffer := client.rxBuffer.store client.rxLength.toNat (payload.take copyLen.toNat)
      rxLength := client.rxLength + copyLen
      rcvNxt := client.rcvNxt + wanted }

/-- `tcp_client_handle_segment` after the connection has been matched and the tick noted. -/
def tcpClientReceive (client : TcpClient) (link : TcpLink) (segment : TcpSegment) :
    Bool × TcpClient × List TcpOutgoing :=
  if hasFlag segment.flags tcpFlagRst then (true, { client with reset := true, finished := true }, [])
  else if !client.established then
    if segment.flags &&& (tcpFlagSyn ||| tcpFlagAck) = tcpFlagSyn ||| tcpFlagAck ∧
        segment.ackNumber = client.sndNxt then
      tcpClientAcknowledge { client with established := true, rcvNxt := segment.sequence + 1 } link
    else (true, client, [])
  else if segment.sequence ≠ client.rcvNxt then
    if segment.payload.length > 0 ∨ hasFlag segment.flags (tcpFlagFin ||| tcpFlagSyn) then
      tcpClientAcknowledge client link
    else (true, client, [])
  else
    let stored := tcpClientStore client segment.payload
    let fin := hasFlag segment.flags tcpFlagFin
    let ended := if fin then { stored with rcvNxt := stored.rcvNxt + 1, finished := true } else stored
    if segment.payload.length > 0 ∨ fin then tcpClientAcknowledge ended link else (true, ended, [])

def tcpClientHandleSegment (client : TcpClient) (link : TcpLink) (tick : UInt64)
    (segment : TcpSegment) : Bool × TcpClient × List TcpOutgoing :=
  if !tcpClientMatches client segment.srcIp segment.srcPort segment.dstPort then (false, client, [])
  else tcpClientReceive { client with lastActivityTick := tick } link segment

/-- `tcp_client_abort`; the reset it may send does not concern the client any more. -/
def tcpClientAbort (client : TcpClient) : TcpClient := { client with active := false }

/-- The client as `net_http_get_ipv4` sets it up before it sends the SYN. -/
def freshTcpClient (srcPort dstPort : UInt16) (remoteIp sequence : UInt32) (rxBuffer : Mem)
    (rxCapacity : UInt32) (tick : UInt64) : TcpClient where
  active := true
  established := false
  finished := false
  reset := false
  truncated := false
  srcPort := srcPort
  dstPort := dstPort
  remoteIp := remoteIp
  sndNxt := sequence
  rcvNxt := 0
  rxBuffer := rxBuffer
  rxCapacity := rxCapacity
  rxLength := 0
  lastActivityTick := tick

end Szczupak
