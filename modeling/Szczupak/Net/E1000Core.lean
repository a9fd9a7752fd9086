import Szczupak.Lib.DescriptorRing
import Szczupak.Lib.Transition

/-!
The E1000 in `net/net_driver.c`.  Driver and card share two rings of descriptors in memory, and
either does one access at a time: the driver runs through `e1000_hw_send_frame` and
`e1000_hw_poll_frame`, the card fetches, sends, fills and writes back as its data sheet says.
-/

namespace Szczupak

def e1000RxDescCount : Nat := 32
def e1000TxDescCount : Nat := 32
def e1000RxBufSize : Nat := 2048
def e1000TxBufSize : Nat := 2048

def e1000RctlEn : Nat := 1
def e1000RctlSecrc : Nat := 26
def e1000TctlEn : Nat := 1

def e1000TxdCmdEop : Nat := 0
def e1000TxdCmdRs : Nat := 3

/-- EOP, IFCS and RS. -/
def e1000TxdCmd : UInt8 := 0x0B

def e1000StatDd (status : UInt8) : Bool := status.toNat % 2 = 1

structure E1000Layout where
  rxDesc : Nat
  txDesc : Nat
  rxBuf : Nat
  txBuf : Nat

namespace E1000Layout

def rx (l : E1000Layout) : DescriptorRing := ⟨l.rxDesc, l.rxBuf, e1000RxDescCount, e1000RxBufSize⟩

def tx (l : E1000Layout) : DescriptorRing := ⟨l.txDesc, l.txBuf, e1000TxDescCount, e1000TxBufSize⟩

/-- The arrays do not overlap, and `net_driver_phys_addr` has an address for each. -/
structure Apart (l : E1000Layout) : Prop where
  rx : l.rx.Separate
  tx : l.tx.Separate
  disjoint : ∀ address, l.rx.Inside address → ¬l.tx.Inside address
  mapped : 0 < l.rxDesc ∧ 0 < l.txDesc ∧ 0 < l.rxBuf ∧ 0 < l.txBuf
  small : l.rxDesc < 2 ^ 64 ∧ l.txDesc < 2 ^ 64 ∧ l.rxBuf + 2048 * 32 ≤ 2 ^ 64 ∧
    l.txBuf + 2048 * 32 ≤ 2 ^ 64

end E1000Layout

structure TxDescriptor where
  slot : Nat
  address : Nat
  length : Nat
  cmd : UInt8
deriving DecidableEq

/-- `tail` is `tx_tail` of the driver, the registers are the card's, and so are the descriptors it
has fetched, those it has sent and has not written back, and the part of a frame it has read.
`handed` are the frames that the driver has handed over, `sent` those on the wire, `confirmed` the
places in `handed` of those whose call returned true. -/
structure E1000Tx where
  tail : Nat
  tdbal : Nat
  tdbah : Nat
  tdlen : Nat
  tdh : Nat
  tdt : Nat
  tctl : Nat
  fetched : List TxDescriptor
  done : List TxDescriptor
  part : List UInt8
  handed : List (List UInt8)
  sent : List (List UInt8)
  confirmed : List Nat

structure RxFilled where
  slot : Nat
  length : Nat
deriving DecidableEq

/-- `head` is `rx_head` of the driver.  `filled` are the buffers that the card has filled and not
written back, `stored` the frames that it has put into buffers, `returned` those that polls gave. -/
structure E1000Rx where
  head : Nat
  rdbal : Nat
  rdbah : Nat
  rdlen : Nat
  rdh : Nat
  rdt : Nat
  rctl : Nat
  filled : List RxFilled
  stored : List (List UInt8)
  returned : List (List UInt8)

inductive E1000Phase where
  | idle
  | awaitFree (frame : List UInt8) (turn : Nat)
  | checkFree (frame : List UInt8)
  | fill (frame : List UInt8) (stores : Nat)
  | ring (frame : List UInt8)
  | awaitSent (index turn : Nat)
  | checkSent (index : Nat)
  | copy
  | release (out : List UInt8)
  | handBack (out : List UInt8)

structure E1000 where
  initialized : Bool
  phase : E1000Phase
  mem : Mem
  tx : E1000Tx
  rx : E1000Rx

/-- `RDT` is one descriptor behind `RDH`: the card gets all but one. -/
def e1000SetupRx (l : E1000Layout) (mem : Mem) : Option (Mem × E1000Rx) :=
  let mem := (mem.fill l.rxDesc (16 * e1000RxDescCount) 0).fill l.rxBuf
    (e1000RxBufSize * e1000RxDescCount) 0
  if l.rxDesc = 0 ∨ l.rxBuf = 0 then none
  else
    some ((List.range e1000RxDescCount).foldl (l.rx.setupDesc 0) mem, {
      head := 0
      rdbal := l.rxDesc % 2 ^ 32
      rdbah := l.rxDesc / 2 ^ 32
      rdlen := e1000RxDescCount * 16
      rdh := 0
      rdt := e1000RxDescCount - 1
      rctl := 0x2 ||| 0x8 ||| 0x10 ||| 0x8000 ||| 0x04000000
      filled := []
      stored := []
      returned := [] })

/-- The descriptors are marked as done, so that the first frames find them free. -/
def e1000SetupTx (l : E1000Layout) (mem : Mem) : Option (Mem × E1000Tx) :=
  let mem := (mem.fill l.txDesc (16 * e1000TxDescCount) 0).fill l.txBuf
    (e1000TxBufSize * e1000TxDescCount) 0
  if l.txDesc = 0 ∨ l.txBuf = 0 then none
  else
    some ((List.range e1000TxDescCount).foldl (l.tx.setupDesc 1) mem, {
      tail := 0
      tdbal := l.txDesc % 2 ^ 32
      tdbah := l.txDesc / 2 ^ 32
      tdlen := e1000TxDescCount * 16
      tdh := 0
      tdt := 0
      tctl := 0x2 ||| 0x8 ||| (0x10 <<< 4) ||| (0x40 <<< 12)
      fetched := []
      done := []
      part := []
      handed := []
      sent := []
      confirmed := [] })

/-- The end of `e1000_hw_init`, with a card that was reset. -/
def e1000HwInit (l : E1000Layout) (mem : Mem) : Option E1000 :=
  (e1000SetupRx l mem).bind fun (mem, rx) =>
    (e1000SetupTx l mem).map fun (mem, tx) => ⟨true, .idle, mem, tx, rx⟩

def e1000Pad (frame : List UInt8) : List UInt8 :=
  let txLength := if frame.length < 60 then 60 else frame.length
  frame ++ List.replicate (txLength - frame.length) 0

def e1000SendStores (l : E1000Layout) (index : Nat) (frame : List UInt8) : List (Nat × List UInt8) :=
  let txLength := if frame.length < 60 then 60 else frame.length
  let desc := l.tx.descAt index
  [(l.tx.bufAt index, frame),
    (l.tx.bufAt index + frame.length, List.replicate (txLength - frame.length) 0),
    (desc + 8, Mem.leBytes 2 txLength),
    (desc + 10, [0]),
    (desc + 11, [e1000TxdCmd]),
    (desc + 12, [0]),
    (desc + 13, [0]),
    (desc + 14, Mem.leBytes 2 0)]

def E1000Tx.handOver (frame : List UInt8) (tx : E1000Tx) : E1000Tx :=
  let tail := (tx.tail + 1) % e1000TxDescCount
  { tx with tail, tdt := tail, handed := tx.handed ++ [frame] }

def E1000Tx.confirm (tx : E1000Tx) : E1000Tx :=
  { tx with confirmed := tx.confirmed ++ [tx.handed.length - 1] }

def E1000Rx.handBack (out : List UInt8) (rx : E1000Rx) : E1000Rx :=
  { rx with
    rdt := rx.head
    head := (rx.head + 1) % e1000RxDescCount
    returned := if out.length > 0 then rx.returned ++ [out] else rx.returned }

/-- The next access of the driver.  A call that returns leaves it idle. -/
def e1000Drive (l : E1000Layout) (outCapacity : Nat) (s : E1000) : Option E1000 :=
  match s.phase with
  | .idle => none
  | .awaitFree frame turn =>
      if turn < 100000 then
        if e1000StatDd (s.mem (l.tx.descAt s.tx.tail + 12)) then some { s with phase := .checkFree frame }
        else some { s with phase := .awaitFree frame (turn + 1) }
      else some { s with phase := .checkFree frame }
  | .checkFree frame =>
      if e1000StatDd (s.mem (l.tx.descAt s.tx.tail + 12)) then some { s with phase := .fill frame 0 }
      else some { s with phase := .idle }
  | .fill frame stores =>
      match (e1000SendStores l s.tx.tail frame)[stores]? with
      | some (address, bytes) =>
          some { s with mem := s.mem.store address bytes, phase := .fill frame (stores + 1) }
      | none => some { s with phase := .ring frame }
  | .ring frame => some { s with tx := s.tx.handOver frame, phase := .awaitSent s.tx.tail 0 }
  | .awaitSent index turn =>
      if turn < 100000 then
        if e1000StatDd (s.mem (l.tx.descAt index + 12)) then some { s with tx := s.tx.confirm, phase := .idle }
        else some { s with phase := .awaitSent index (turn + 1) }
      else some { s with phase := .checkSent index }
  | .checkSent index =>
      if e1000StatDd (s.mem (l.tx.descAt index + 12)) then some { s with tx := s.tx.confirm, phase := .idle }
      else some { s with phase := .idle }
  | .copy =>
      let length := s.mem.readU16 (l.rx.descAt s.rx.head + 8)
      let frameLength := if length > outCapacity then outCapacity else length
      some { s with phase := .release (s.mem.read (l.rx.bufAt s.rx.head) frameLength) }
  | .release out => some { s with mem := s.mem.set (l.rx.descAt s.rx.head + 12) 0, phase := .handBack out }
  | .handBack out => some { s with rx := s.rx.handBack out, phase := .idle }

def e1000HwSendFrame (frame : List UInt8) (s : E1000) : Option E1000 :=
  match s.phase with
  | .idle =>
      if !s.initialized || frame.length == 0 || frame.length > e1000TxBufSize then some s
      else some { s with phase := .awaitFree frame 0 }
  | _ => none

def e1000HwPollFrame (l : E1000Layout) (outCapacity : Nat) (s : E1000) : Option E1000 :=
  match s.phase with
  | .idle =>
      if !s.initialized || outCapacity == 0 then some s
      else if !e1000StatDd (s.mem (l.rx.descAt s.rx.head + 12)) then some s
      else some { s with phase := .copy }
  | _ => none

/-- The ring between `TDH` and `TDT` is the card's. -/
def E1000Tx.fetch (mem : Mem) (tx : E1000Tx) : Option E1000Tx :=
  if tx.tctl.testBit e1000TctlEn ∧ tx.tdh ≠ tx.tdt then
    let desc := tx.tdbal + 2 ^ 32 * tx.tdbah + 16 * tx.tdh
    some { tx with
      fetched := tx.fetched ++ [⟨tx.tdh, mem.readU64 desc, mem.readU16 (desc + 8), mem (desc + 11)⟩]
      tdh := (tx.tdh + 1) % (tx.tdlen / 16) }
  else none

def E1000Tx.transmit (mem : Mem) (tx : E1000Tx) : Option E1000Tx :=
  match tx.fetched with
  | [] => none
  | desc :: rest =>
      let data := tx.part ++ mem.read desc.address desc.length
      if desc.cmd.toNat.testBit e1000TxdCmdEop then
        some { tx with fetched := rest, done := tx.done ++ [desc], part := [], sent := tx.sent ++ [data] }
      else some { tx with fetched := rest, done := tx.done ++ [desc], part := data }

def E1000Tx.writeBack (mem : Mem) (tx : E1000Tx) : Option (Mem × E1000Tx) :=
  match tx.done with
  | [] => none
  | desc :: rest =>
      let status := tx.tdbal + 2 ^ 32 * tx.tdbah + 16 * desc.slot + 12
      some (if desc.cmd.toNat.testBit e1000TxdCmdRs then mem.set status (mem status ||| 1) else mem,
        { tx with done := rest })

structure E1000Frame where
  frame : List UInt8
  crc : Vector UInt8 4
  least : 60 ≤ frame.length
  most : frame.length ≤ 1518

/-- A frame goes into the buffer at `RDH`; where the ring between `RDH` and `RDT` is empty it is
not received. -/
def E1000Rx.receive (packet : E1000Frame) (mem : Mem) (rx : E1000Rx) : Option (Mem × E1000Rx) :=
  if rx.rctl.testBit e1000RctlEn ∧ rx.rdh ≠ rx.rdt then
    let desc := rx.rdbal + 2 ^ 32 * rx.rdbah + 16 * rx.rdh
    let bytes := if rx.rctl.testBit e1000RctlSecrc then packet.frame else packet.frame ++ packet.crc.toList
    some (mem.store (mem.readU64 desc) bytes, { rx with
      filled := rx.filled ++ [⟨rx.rdh, bytes.length⟩]
      rdh := (rx.rdh + 1) % (rx.rdlen / 16)
      stored := rx.stored ++ [packet.frame] })
  else none

structure RxReport where
  checksum : UInt16
  status : UInt8
  errors : UInt8
  special : UInt16
  dd : e1000StatDd status = true

def E1000Rx.writeBack (report : RxReport) (mem : Mem) (rx : E1000Rx) : Option (Mem × E1000Rx) :=
  match rx.filled with
  | [] => none
  | buffer :: rest =>
      let desc := rx.rdbal + 2 ^ 32 * rx.rdbah + 16 * buffer.slot
      some (mem.store (desc + 8) (Mem.leBytes 2 buffer.length ++ Mem.leBytes 2 report.checksum.toNat ++
        [report.status, report.errors] ++ Mem.leBytes 2 report.special.toNat), { rx with filled := rest })

inductive E1000Event where
  | send (frame : List UInt8)
  | poll
  | drive
  | fetch
  | transmit
  | writeBackTx
  | receive (packet : E1000Frame)
  | writeBackRx (report : RxReport)

def e1000Step (l : E1000Layout) (outCapacity : Nat) (s : E1000) : E1000Event → Option E1000
  | .send frame => e1000HwSendFrame frame s
  | .poll => e1000HwPollFrame l outCapacity s
  | .drive => e1000Drive l outCapacity s
  | .fetch => (s.tx.fetch s.mem).map fun tx => { s with tx }
  | .transmit => (s.tx.transmit s.mem).map fun tx => { s with tx }
  | .writeBackTx => (s.tx.writeBack s.mem).map fun (mem, tx) => { s with mem, tx }
  | .receive packet => (s.rx.receive packet s.mem).map fun (mem, rx) => { s with mem, rx }
  | .writeBackRx report => (s.rx.writeBack report s.mem).map fun (mem, rx) => { s with mem, rx }

end Szczupak
