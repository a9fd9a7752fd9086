import Szczupak.Lib.ByteMemory
import Szczupak.Lib.Transition

/-!
Receiving in `net/net_driver.c`.  The RTL8139 puts packets into the receive buffer and
`rtl8139_hw_poll_frame` takes them out.  The card's part follows its data sheet.
-/

namespace Szczupak

def rtlRxBufferSize : Nat := 8192
def rtlRcrWrap : Nat := 7

/-- `rxOffset` is the driver's, the registers and `writePosition` are the card's. -/
structure Rtl8139 where
  initialized : Bool
  rxOffset : Nat
  rcr : Nat
  capr : Nat
  writePosition : Nat
  rxBuffer : Mem

def rtl8139HwInit (rxBuffer : Mem) : Rtl8139 where
  initialized := true
  rxOffset := 0
  rcr := 0x0000000F ||| (1 <<< 7)
  capr := 0xFFF0
  writePosition := 0
  rxBuffer := rxBuffer

structure RxPacket where
  status : UInt16
  frame : List UInt8
  crc : Vector UInt8 4

/-- A packet in the buffer: status, length with CRC, frame, CRC. -/
def RxPacket.bytes (packet : RxPacket) : List UInt8 :=
  Mem.leBytes 2 packet.status.toNat ++ Mem.leBytes 2 (packet.frame.length + 4) ++ packet.frame ++
    packet.crc.toList

def RxPacket.room (packet : RxPacket) : Nat := (packet.bytes.length + 3) / 4 * 4

def RxPacket.Legal (packet : RxPacket) : Prop :=
  packet.status.toNat % 2 = 1 ∧ 60 ≤ packet.frame.length ∧ packet.frame.length ≤ 1514

instance (packet : RxPacket) : Decidable packet.Legal := inferInstanceAs (Decidable (_ ∧ _))

/-- The position that the driver has read to, as `RTL_CAPR` tells the card. -/
def Rtl8139.readPosition (nic : Rtl8139) : Nat := (nic.capr + 16) % 0x10000 % rtlRxBufferSize

def Rtl8139.rxEmpty (nic : Rtl8139) : Bool := nic.writePosition = nic.readPosition

def storeWrapped (mem : Mem) (base : Nat) (bytes : List UInt8) : Mem :=
  (mem.store base (bytes.take (rtlRxBufferSize - base))).store 0 (bytes.drop (rtlRxBufferSize - base))

/-- With the WRAP bit a packet goes on behind the ring, else at its start.  One that would reach the
read position is not received. -/
def Rtl8139.receive (nic : Rtl8139) (packet : RxPacket) : Option Rtl8139 :=
  let used := (nic.writePosition + rtlRxBufferSize - nic.readPosition) % rtlRxBufferSize
  if used + packet.room < rtlRxBufferSize then
    some { nic with
      rxBuffer :=
        if nic.rcr.testBit rtlRcrWrap then nic.rxBuffer.store nic.writePosition packet.bytes
        else storeWrapped nic.rxBuffer nic.writePosition packet.bytes
      writePosition := (nic.writePosition + packet.room) % rtlRxBufferSize }
  else none

def rtl8139RingReadU8 (rxBuffer : Mem) (offset : Nat) : UInt8 := rxBuffer (offset % rtlRxBufferSize)

def rtl8139RingReadU16 (rxBuffer : Mem) (offset : Nat) : Nat :=
  let low := (rtl8139RingReadU8 rxBuffer offset).toNat
  let high := (rtl8139RingReadU8 rxBuffer (offset + 1)).toNat
  low + 256 * high

def rtl8139RingCopy (rxBuffer : Mem) (offset length : Nat) : List UInt8 :=
  (List.range length).map fun i => rtl8139RingReadU8 rxBuffer (offset + i)

/-- The frame, when there is one.  Interrupts are masked, so that what is written to `RTL_ISR` has
no effect here. -/
def rtl8139HwPollFrame (outCapacity : Nat) (nic : Rtl8139) : Option (List UInt8) × Rtl8139 :=
  if !nic.initialized || outCapacity == 0 then (none, nic)
  else if nic.rxEmpty then (none, nic)
  else
    let offset := nic.rxOffset
    let status := rtl8139RingReadU16 nic.rxBuffer offset
    let packetLengthWithCrc := rtl8139RingReadU16 nic.rxBuffer (offset + 2)
    if status % 2 = 0 ∨ packetLengthWithCrc < 4 ∨ packetLengthWithCrc > 1792 then
      (none, { nic with rxOffset := 0, capr := 0 })
    else
      let packetLength := if packetLengthWithCrc - 4 > outCapacity then outCapacity else packetLengthWithCrc - 4
      let out := rtl8139RingCopy nic.rxBuffer (offset + 4) packetLength
      let advanced := (offset + packetLengthWithCrc + 4 + 3) / 4 * 4
      let rxOffset := advanced % rtlRxBufferSize
      (some out, { nic with rxOffset, capr := (rxOffset + 0x10000 - 16) % 0x10000 })

/-- `stored` are the frames that the card has put into the buffer, `returned` those that polls gave,
both oldest first. -/
structure RxRun where
  nic : Rtl8139
  stored : List (List UInt8)
  returned : List (List UInt8)

inductive RxEvent where
  | receive (packet : RxPacket)
  | poll

def rxStep (outCapacity : Nat) (s : RxRun) : RxEvent → Option RxRun
  | .receive packet =>
      if packet.Legal then
        (s.nic.receive packet).map fun nic => { s with nic, stored := s.stored ++ [packet.frame] }
      else none
  | .poll =>
      match rtl8139HwPollFrame outCapacity s.nic with
      | (none, nic) => some { s with nic }
      | (some frame, nic) => some { s with nic, returned := s.returned ++ [frame] }

def rxStart (rxBuffer : Mem) : RxRun := ⟨rtl8139HwInit rxBuffer, [], []⟩

end Szczupak
