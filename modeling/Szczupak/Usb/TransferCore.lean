import Szczupak.Lib.ByteMemory

/-!
The transfers of `drivers/usb/uhci.c`: the descriptors that are queued,
and what is made of their status words.  The
controller and the device answer a queue with the status words that the driver finds and
with the data pool; a descriptor that is still active when the wait ends has its active bit set.
-/

namespace Szczupak.Usb

structure UhciTd where
  linkPtr : UInt32
  ctrlStatus : UInt32
  token : UInt32
  bufferPtr : UInt32

/-- The data pool goes by the offset from its start. -/
structure UhciHost where
  ready : Bool
  pagesPhys : UInt64
  dataPool : Mem

abbrev UhciRun : Type := List UhciTd → Mem → (Nat → UInt32) × Mem

def uhciTdPoolCount : Nat := 64
def uhciDataPoolSize : Nat := 2048

def uhciPidOut : UInt8 := 0xE1
def uhciPidIn : UInt8 := 0x69
def uhciPidSetup : UInt8 := 0x2D

def uhciLinkTerminate : UInt32 := 1

def uhciTdStatusActive : UInt32 := 0x00800000
def uhciTdStatusNak : UInt32 := 0x00080000
/-- Stalled, data buffer error, babble, CRC or time-out, and bit stuffing. -/
def uhciTdStatusErrors : UInt32 := 0x00760000
def uhciTdStatusSpd : UInt32 := 0x20000000
def uhciTdCtrlCerr : UInt32 := 0x18000000
def uhciTdCtrlLs : UInt32 := 0x04000000

def UhciHost.tdsPhys (host : UhciHost) : UInt64 := host.pagesPhys + 4128

def UhciHost.dataPhys (host : UhciHost) : UInt64 := host.pagesPhys + 5152

def uhciTdSet (link : UInt32) (pid addr ep : UInt8) (toggle : Bool) (len : UInt16) (buf : UInt32)
    (lowSpeed allowShort : Bool) : UhciTd :=
  let tokenLen : UInt32 := if len = 0 then 0x7FF else (len.toUInt32 - 1) &&& 0x7FF
  { linkPtr := link
    ctrlStatus := uhciTdCtrlCerr ||| uhciTdStatusActive |||
      (if lowSpeed then uhciTdCtrlLs else 0) ||| (if allowShort then uhciTdStatusSpd else 0)
    token := pid.toUInt32 ||| addr.toUInt32 <<< (8 : UInt32) ||| ep.toUInt32 <<< (15 : UInt32) |||
      toggle.toUInt32 <<< (19 : UInt32) ||| tokenLen <<< (21 : UInt32)
    bufferPtr := buf }

def uhciTdHasError (status : UInt32) (allowNak : Bool) : Bool :=
  if status &&& uhciTdStatusActive ≠ 0 then true
  else if status &&& uhciTdStatusErrors ≠ 0 then true
  else !allowNak && status &&& uhciTdStatusNak != 0

/-- The descriptors of the data stage; `room` is how many more fit before the one of the status
stage. -/
def dataTds (host : UhciHost) (lowSpeed : Bool) (addr maxPacket : UInt8) (dataIn : Bool) :
    Nat → UInt16 → UInt16 → Bool → Option (List UhciTd)
  | 0, remaining, _, _ => if remaining = 0 then some [] else none
  | room + 1, remaining, offset, toggle =>
      if remaining = 0 then some []
      else
        let chunk := if remaining > maxPacket.toUInt16 then maxPacket.toUInt16 else remaining
        let td := uhciTdSet uhciLinkTerminate (if dataIn then uhciPidIn else uhciPidOut) addr
          0 toggle chunk (host.dataPhys + 16 + offset.toUInt64).toUInt32 lowSpeed dataIn
        (dataTds host lowSpeed addr maxPacket dataIn room (remaining - chunk) (offset + chunk)
        (!toggle)).map (td :: ·)

def linkTds (host : UhciHost) : Nat → List UhciTd → List UhciTd
  | _, [] => []
  | _, [td] => [{ td with linkPtr := uhciLinkTerminate }]
  | i, td :: next :: rest =>
      { td with linkPtr := ((host.tdsPhys + UInt64.ofNat (i + 1) * 16) &&& ~~~0xF).toUInt32 } ::
        linkTds host (i + 1) (next :: rest)

def controlPool (host : UhciHost) (setup : List UInt8) (data : Option (List UInt8))
    (dataLen : UInt16) (dataIn : Bool) : Mem :=
  let pool := (host.dataPool.fill 0 uhciDataPoolSize 0).store 0 setup
  match data with
  | some bytes => if !dataIn ∧ dataLen > 0 then pool.store 16 (bytes.take dataLen.toNat) else pool
  | none => pool

def controlQueue (host : UhciHost) (lowSpeed : Bool) (addr : UInt8) (dataIn : Bool)
    (tds : List UhciTd) : List UhciTd :=
  linkTds host 0
    (uhciTdSet uhciLinkTerminate uhciPidSetup addr 0 false 8 host.dataPhys.toUInt32 lowSpeed false :: tds ++
      [uhciTdSet uhciLinkTerminate (if dataIn then uhciPidOut else uhciPidIn) addr 0 true 0 0 lowSpeed true])

def controlActual (status : UInt32) : UInt32 :=
  let actual := status &&& 0x7FF
  if actual ≠ 0x7FF then actual + 1 else 0

def sumActual (maxPacket dataLen : UInt32) : List UInt32 → UInt32 → UInt32
  | [], total => total
  | status :: statuses, total =>
      let actual := controlActual status
      let actual := if actual > maxPacket then maxPacket else actual
      let actual := if total + actual > dataLen then dataLen - total else actual
      let total := total + actual
      if actual < maxPacket then total else sumActual maxPacket dataLen statuses total

/-- The result, the caller's buffer and the data pool; `data` is `none` for a null pointer. -/
def uhciControlTransfer (run : UhciRun) (host : UhciHost) (lowSpeed : Bool) (addr maxPacket : UInt8)
    (setup : List UInt8)
    (data : Option (List UInt8)) (dataLen : UInt16) (dataIn : Bool) : Int × Option (List UInt8) × Mem :=
  if !host.ready ∨ maxPacket = 0 ∨ maxPacket > 64 then (-1, data, host.dataPool)
  else if dataLen.toNat + 32 > uhciDataPoolSize then (-1, data, host.dataPool)
  else
    let pool := controlPool host setup data dataLen dataIn
    match dataTds host lowSpeed addr maxPacket dataIn (uhciTdPoolCount - 2) dataLen 0 true with
    | none => (-1, data, pool)
    | some tds =>
        if tds.length + 1 ≥ uhciTdPoolCount then (-1, data, pool)
        else
          let (status, pool) := run (controlQueue host lowSpeed addr dataIn tds) pool
          let dataStatuses := (List.range tds.length).map fun i => status (i + 1)
          if status (tds.length + 1) &&& uhciTdStatusActive ≠ 0 then (-1, data, pool)
          else if uhciTdHasError (status 0) false then (-1, data, pool)
          else if dataStatuses.any fun status => uhciTdHasError status false then (-1, data, pool)
          else if uhciTdHasError (status (tds.length + 1)) false then (-1, data, pool)
          else
            match data with
            | some bytes =>
                if dataIn ∧ dataLen > 0 then
                  let total := (sumActual maxPacket.toUInt32 dataLen.toUInt32 dataStatuses 0).toNat
                  (total, some (pool.read 16 total ++ bytes.drop total), pool)
                else (dataLen.toNat, data, pool)
            | none => (dataLen.toNat, data, pool)

def interruptLength (maxPacket : UInt8) (outLen : UInt16) : UInt16 :=
  let reqLen := if outLen > maxPacket.toUInt16 then maxPacket.toUInt16 else outLen
  if reqLen > 64 then 64 else reqLen

def interruptTd (host : UhciHost) (lowSpeed : Bool) (addr ep : UInt8) (toggle : Bool)
    (reqLen : UInt16) : UhciTd :=
  uhciTdSet uhciLinkTerminate uhciPidIn addr ep toggle reqLen
    (host.dataPhys + 512).toUInt32 lowSpeed true

def interruptActual (status : UInt32) (reqLen : UInt16) : UInt32 :=
  let actual := (status + 1) &&& 0x7FF
  if actual = 0 ∨ actual > reqLen.toUInt32 then reqLen.toUInt32 else actual

/-- The result, the toggle, the caller's buffer and the data pool. -/
def uhciInterruptIn (run : UhciRun) (host : UhciHost) (lowSpeed : Bool) (addr ep maxPacket : UInt8)
    (toggle : Bool) (out : List UInt8) (outLen : UInt16) : Int × Bool × List UInt8 × Mem :=
  if !host.ready ∨ maxPacket = 0 then (-1, toggle, out, host.dataPool)
  else
    let reqLen := interruptLength maxPacket outLen
    let (status, pool) := run [interruptTd host lowSpeed addr ep toggle reqLen] (host.dataPool.fill 0 64 0)
    let status := status 0
    if status &&& uhciTdStatusActive ≠ 0 then (0, toggle, out, pool)
    else if status &&& uhciTdStatusNak ≠ 0 then (0, toggle, out, pool)
    else if uhciTdHasError status false then (-1, toggle, out, pool)
    else
      let actual := (interruptActual status reqLen).toNat
      (actual, !toggle, pool.read 512 actual ++ out.drop actual, pool)

end Szczupak.Usb
