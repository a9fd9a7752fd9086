import Szczupak.Lib.ByteMemory
import Szczupak.Lib.Recorded

/-!
`uhci_enumerate_hid_on_port` of `drivers/usb/uhci.c`: the requests to a new device and the walk over
its configuration
descriptor.  Every request and every byte that is read of the descriptor is recorded; the device
answers the n-th request with some bytes, or the request fails.
-/

namespace Szczupak.Usb

structure UsbRequest where
  addr : UInt8
  maxPacket : UInt8
  bmReqType : UInt8
  bReq : UInt8
  wValue : UInt16
  wIndex : UInt16
  wLength : UInt16

inductive EnumEvent where
  | request (request : UsbRequest)
  | read (index : Nat)

abbrev UsbEnum := Recorded EnumEvent

structure HidDevice where
  type : UInt8
  controllerIndex : UInt8
  portNumber : UInt8
  address : UInt8
  endpointIn : UInt8
  maxPacket : UInt8
  interval : UInt8
  lowSpeed : Bool
  intervalTicks : UInt64
deriving DecidableEq

def usbHidMaxDevices : Nat := 8

abbrev HidTable : Type := Fin usbHidMaxDevices → Option HidDevice

def usbDescInterface : UInt8 := 4
def usbDescEndpoint : UInt8 := 5
def usbHidClass : UInt8 := 3
def usbHidTypeKeyboard : UInt8 := 1
def usbHidTypeMouse : UInt8 := 2

def usbHidIntervalToTicks (intervalMs : UInt8) : UInt64 :=
  let ticks := (intervalMs.toUInt64 + 9) / 10
  if ticks = 0 then 1 else ticks

def hidDevice (type controllerIndex port addr epIn maxPacket interval : UInt8)
    (lowSpeed : Bool) : HidDevice :=
  let interval := if interval = 0 then 1 else interval
  { type, controllerIndex, portNumber := port, address := addr, endpointIn :=
  epIn, maxPacket, interval, lowSpeed
    intervalTicks := usbHidIntervalToTicks interval }

def usbHidRegisterDevice (table : HidTable) (device : HidDevice) : Bool × HidTable :=
  match (List.finRange usbHidMaxDevices).find? fun slot => (table slot).isNone with
  | none => (false, table)
  | some slot => (true, Function.update table slot (some device))

structure UsbPort where
  controllerIndex : UInt8
  port : UInt8
  lowSpeed : Bool
  addr : UInt8
  maxPacket0 : UInt8

/-- The variables of the walk.  `attempts` keeps, for every device that is to be registered, the
place of its endpoint. -/
structure HidWalk where
  currentIface : UInt8
  currentProto : UInt8
  currentHidIface : Bool
  registeredAny : Bool
  table : HidTable
  attempts : List (Nat × HidDevice)

section Walk

variable (port : UsbPort) (cfg : Mem)

def descriptorLength (pos : Nat) : Nat := (cfg pos).toNat
def descriptorType (pos : Nat) : UInt8 := cfg (pos + 1)

def usbDirIn (address : UInt8) : Bool := address &&& 0x80 != 0
def usbInterrupt (attributes : UInt8) : Bool := attributes &&& 0x03 == 0x03

def endpointDevice (proto : UInt8) (ep : Nat) : HidDevice :=
  let mps := cfg (ep + 4) &&& 0x7F
  let mps := if mps = 0 then 8 else mps
  let type :=
    if proto = 1 then usbHidTypeKeyboard
    else if proto = 2 then usbHidTypeMouse
    else if mps ≤ 4 then usbHidTypeMouse
    else usbHidTypeKeyboard
  hidDevice type port.controllerIndex port.port port.addr (cfg (ep + 2) &&& 0x0F) mps
  (cfg (ep + 6)) port.lowSpeed

def readByte (index : Nat) : UsbEnum Unit := Recorded.tell (.read index)

def setIdle (iface : UInt8) : UsbEnum Unit :=
  Recorded.tell (.request ⟨port.addr, port.maxPacket0, 0x21, 0x0A, 0, iface.toUInt16, 0⟩)

def visitDescriptor (pos : Nat) (walk : HidWalk) : UsbEnum HidWalk :=
  if descriptorType cfg pos = usbDescInterface ∧ 9 ≤ descriptorLength cfg pos then do
    readByte (pos + 2)
    readByte (pos + 7)
    readByte (pos + 5)
    return { walk with
      currentIface := cfg (pos + 2), currentProto := cfg (pos + 7), currentHidIface :=
        cfg (pos + 5) = usbHidClass }
  else if descriptorType cfg pos = usbDescEndpoint ∧ walk.currentHidIface ∧
    7 ≤ descriptorLength cfg pos then do
    readByte (pos + 2)
    readByte (pos + 3)
    if usbDirIn (cfg (pos + 2)) ∧ usbInterrupt (cfg (pos + 3)) then do
      readByte (pos + 4)
      readByte (pos + 5)
      let device := endpointDevice port cfg walk.currentProto pos
      if device.type = usbHidTypeKeyboard then setIdle port walk.currentIface
      readByte (pos + 6)
      let (registered, table) := usbHidRegisterDevice walk.table device
      return { walk with
        currentHidIface := false
        registeredAny := walk.registeredAny || registered
        table
        attempts := walk.attempts ++ [(pos, device)] }
    else return walk
  else return walk

/-- The loop; it is `none` when it has not ended after that many turns. -/
def walkDescriptors (totalLen : Nat) : Nat → Nat → HidWalk → UsbEnum (Option HidWalk)
  | 0, _, _ => return none
  | turns + 1, pos, walk =>
      if pos + 2 ≤ totalLen then do
        readByte pos
        readByte (pos + 1)
        if descriptorLength cfg pos < 2 ∨ pos + descriptorLength cfg pos > totalLen then return some walk
        else do
          let walk ← visitDescriptor port cfg pos walk
          walkDescriptors totalLen turns (pos + descriptorLength cfg pos) walk
      else return some walk

end Walk

section Requests

variable (answers : Nat → Option (List UInt8))

def controlRequest (number : Nat) (request : UsbRequest) : UsbEnum (Option (List UInt8)) := do
  Recorded.tell (.request request)
  return answers number

def answerBuffer (number length : Nat) : Mem :=
  Mem.store (fun _ => 0) 0 (((answers number).getD []).take length)

def declaredLength : Nat := (answerBuffer answers 3 9).readU16 2

def deviceMaxPacket : UInt8 :=
  let size := answerBuffer answers 0 8 7
  if size = 0 ∨ size > 64 then 8 else size

def walkedLength : Nat := min (declaredLength answers) 255

/-- The next free address, and where the walk ends unless the enumeration has failed before it. -/
def uhciEnumerateHidOnPort (controllerIndex port : UInt8) (lowSpeed : Bool) (nextAddress : UInt8)
    (table : HidTable) : UsbEnum (UInt8 × Option (Option HidWalk)) := do
  let head ← controlRequest answers 0 ⟨0, 8, 0x80, 6, 0x0100, 0, 8⟩
  if head.isNone then return (nextAddress, none)
  else if nextAddress = 0 ∨ nextAddress ≥ 127 then return (nextAddress, none)
  else do
    let addr := nextAddress
    let nextAddress := nextAddress + 1
    let maxPacket0 := deviceMaxPacket answers
    let addressed ← controlRequest answers 1 ⟨0, maxPacket0, 0, 5, addr.toUInt16, 0, 0⟩
    if addressed.isNone then return (nextAddress, none)
    else do
      let device ← controlRequest answers 2 ⟨addr, maxPacket0, 0x80, 6, 0x0100, 0, 18⟩
      if device.isNone then return (nextAddress, none)
      else do
        let cfgHead ← controlRequest answers 3 ⟨addr, maxPacket0, 0x80, 6, 0x0200, 0, 9⟩
        if cfgHead.isNone then return (nextAddress, none)
        else if declaredLength answers < 9 then return (nextAddress, none)
        else do
          let totalLen := walkedLength answers
          let cfgFull ← controlRequest answers 4 ⟨addr, maxPacket0, 0x80, 6, 0x0200, 0, UInt16.ofNat totalLen⟩
          if cfgFull.isNone then return (nextAddress, none)
          else do
            let cfg := answerBuffer answers 4 totalLen
            readByte 5
            let configured ← controlRequest answers 5 ⟨addr, maxPacket0, 0, 9, (cfg 5).toUInt16, 0, 0⟩
            if configured.isNone then return (nextAddress, none)
            else do
              let walk : HidWalk :=
                { currentIface := 0xFF, currentProto := 0, currentHidIface := false,
                  registeredAny := false, table
                  attempts := [] }
              let walked ← walkDescriptors ⟨controllerIndex, port, lowSpeed, addr, maxPacket0⟩ cfg
                totalLen 255 0 walk
              return (nextAddress, some walked)

end Requests

end Szczupak.Usb
