import Szczupak.Lib.ByteMemory

/-!
Byte order, checksums and packet layouts of `net/net_utils.c` and `net/net_ip.c`.  An IPv4
address is one 32-bit word with the first octet on top; packets are lists of bytes.
-/

namespace Szczupak

def ethMtu : Nat := 1500
def ethHeaderSize : Nat := 14
def ipv4HeaderSize : Nat := 20
def udpHeaderSize : Nat := 8
def tcpHeaderSize : Nat := 20

def ethTypeIpv4 : UInt16 := 0x0800
def ethTypeArp : UInt16 := 0x0806

def ipProtoIcmp : UInt8 := 1
def ipProtoTcp : UInt8 := 6
def ipProtoUdp : UInt8 := 17

def arpOpRequest : UInt16 := 1
def arpOpReply : UInt16 := 2

def ipBroadcast : UInt32 := 0xFFFFFFFF
def ipZero : UInt32 := 0

abbrev Mac := Vector UInt8 6

def macBroadcast : Mac := Vector.replicate 6 0xFF
def macZero : Mac := Vector.replicate 6 0

def be16 (value : UInt16) : List UInt8 := [(value >>> 8).toUInt8, value.toUInt8]

def be32 (value : UInt32) : List UInt8 :=
  [(value >>> 24).toUInt8, (value >>> 16).toUInt8, (value >>> 8).toUInt8, value.toUInt8]

def byteAt (data : List UInt8) (offset : Nat) : UInt8 := data.getD offset 0

def readBe16 (data : List UInt8) (offset : Nat) : UInt16 :=
  (byteAt data offset).toUInt16 <<< 8 ||| (byteAt data (offset + 1)).toUInt16

def readBe32 (data : List UInt8) (offset : Nat) : UInt32 :=
  (byteAt data offset).toUInt32 <<< 24 ||| (byteAt data (offset + 1)).toUInt32 <<< 16 |||
    (byteAt data (offset + 2)).toUInt32 <<< 8 ||| (byteAt data (offset + 3)).toUInt32

def macAt (data : List UInt8) (offset : Nat) : Mac :=
  Vector.ofFn fun index => byteAt data (offset + index.val)

def ipIsSameSubnet (left right mask : UInt32) : Bool := left &&& mask == right &&& mask

def checksumAddBytes (sum : UInt32) : List UInt8 → UInt32
  | high :: low :: rest =>
      checksumAddBytes (sum + (high.toUInt32 <<< 8 ||| low.toUInt32)) rest
  | [last] => sum + last.toUInt32 <<< 8
  | [] => sum

def foldCarry (sum : UInt32) : UInt32 := (sum &&& (0xFFFF : UInt32)) + sum >>> 16

theorem foldCarry_toNat (sum : UInt32) :
    (foldCarry sum).toNat = sum.toNat % 2 ^ 16 + sum.toNat / 2 ^ 16 := by
  have bound := sum.toNat_lt
  have low : (sum &&& (0xFFFF : UInt32)).toNat = sum.toNat % 2 ^ 16 := by
    rw [UInt32.toNat_and]
    exact Nat.and_two_pow_sub_one_eq_mod sum.toNat 16
  have high : (sum >>> 16).toNat = sum.toNat / 2 ^ 16 := by
    rw [UInt32.toNat_shiftRight]
    exact Nat.shiftRight_eq_div_pow sum.toNat 16
  unfold foldCarry
  rw [UInt32.toNat_add, low, high]
  omega

theorem foldCarry_stops (sum : UInt32) :
    (foldCarry (foldCarry sum)).toNat < 2 ^ 16 ∧ (sum.toNat < 2 ^ 16 → foldCarry sum = sum) := by
  have bound := sum.toNat_lt
  constructor
  · rw [foldCarry_toNat, foldCarry_toNat]
    omega
  · intro small
    apply UInt32.toNat.inj
    rw [foldCarry_toNat]
    omega

def checksumFinalize (sum : UInt32) : UInt16 := ~~~(foldCarry (foldCarry sum)).toUInt16

def ipv4Checksum (header : List UInt8) : UInt16 := checksumFinalize (checksumAddBytes 0 header)

def icmpChecksum (packet : List UInt8) : UInt16 := checksumFinalize (checksumAddBytes 0 packet)

/-- The sum over the pseudo header; `length` is the 16-bit length of the datagram. -/
def pseudoHeaderSum (srcIp dstIp : UInt32) (protocol : UInt8) (length : Nat) : UInt32 :=
  let low : UInt32 := 0xFFFF
  (srcIp >>> 16 &&& low) + (srcIp &&& low) + (dstIp >>> 16 &&& low) + (dstIp &&& low) +
    protocol.toUInt32 + (UInt16.ofNat length).toUInt32

def udpChecksum (srcIp dstIp : UInt32) (packet : List UInt8) : UInt16 :=
  let result := checksumFinalize
    (checksumAddBytes (pseudoHeaderSum srcIp dstIp ipProtoUdp packet.length) packet)
  if result = 0 then 0xFFFF else result

def tcpChecksum (srcIp dstIp : UInt32) (packet : List UInt8) : UInt16 :=
  checksumFinalize (checksumAddBytes (pseudoHeaderSum srcIp dstIp ipProtoTcp packet.length) packet)

def ethernetFrame (dstMac srcMac : Mac) (ethertype : UInt16) (payload : List UInt8) : List UInt8 :=
  dstMac.toList ++ srcMac.toList ++ be16 ethertype ++ payload

def arpPacket (opcode : UInt16) (senderMac targetMac : Mac) (senderIp targetIp : UInt32) : List UInt8 :=
  be16 1 ++ be16 0x0800 ++ [6, 4] ++ be16 opcode ++ senderMac.toList ++ be32 senderIp ++
    targetMac.toList ++ be32 targetIp

def ipv4HeaderWith (checksum : UInt16) (totalLength identification : UInt16) (ttl protocol : UInt8)
    (srcIp dstIp : UInt32) : List UInt8 :=
  [0x45, 0] ++ be16 totalLength ++ be16 identification ++ be16 0x4000 ++ [ttl, protocol] ++
    be16 checksum ++ be32 srcIp ++ be32 dstIp

def ipv4Header (totalLength identification : UInt16) (ttl protocol : UInt8) (srcIp dstIp : UInt32) :
    List UInt8 :=
  let sum := ipv4Checksum (ipv4HeaderWith 0 totalLength identification ttl protocol srcIp dstIp)
  ipv4HeaderWith sum totalLength identification ttl protocol srcIp dstIp

def udpPacketWith (checksum : UInt16) (srcPort dstPort : UInt16) (payload : List UInt8) : List UInt8 :=
  be16 srcPort ++ be16 dstPort ++ be16 (UInt16.ofNat (udpHeaderSize + payload.length)) ++
    be16 checksum ++ payload

def udpPacketSum (srcIp dstIp : UInt32) (srcPort dstPort : UInt16) (payload : List UInt8) : UInt16 :=
  udpChecksum srcIp dstIp (udpPacketWith 0 srcPort dstPort payload)

def udpPacket (srcIp dstIp : UInt32) (srcPort dstPort : UInt16) (payload : List UInt8) : List UInt8 :=
  udpPacketWith (udpPacketSum srcIp dstIp srcPort dstPort payload) srcPort dstPort payload

structure TcpCall where
  srcPort : UInt16
  dstPort : UInt16
  sequence : UInt32
  ackNumber : UInt32
  flags : UInt8
  payload : List UInt8

def tcpPacketWith (checksum : UInt16) (call : TcpCall) : List UInt8 :=
  be16 call.srcPort ++ be16 call.dstPort ++ be32 call.sequence ++ be32 call.ackNumber ++
    [(5 : UInt8) <<< 4, call.flags] ++ be16 0xFFFF ++ be16 checksum ++ be16 0 ++ call.payload

def tcpPacketSum (srcIp dstIp : UInt32) (call : TcpCall) : UInt16 :=
  tcpChecksum srcIp dstIp (tcpPacketWith 0 call)

def tcpPacket (srcIp dstIp : UInt32) (call : TcpCall) : List UInt8 :=
  tcpPacketWith (tcpPacketSum srcIp dstIp call) call

end Szczupak
