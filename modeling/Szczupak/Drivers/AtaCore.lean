import Mathlib.Data.List.Basic

/-!
Reading and writing a sector, `drivers/ata.c`,
after `ata_init`.  The drive answers every read of its status
register and of its data register; reads of the alternate status are delays whose value
nobody looks at.
-/

namespace Szczupak.Ata

structure AtaDrive where
  status : Nat → UInt8
  data : Nat → UInt16

inductive AtaEvent where
  | status (value : UInt8)
  | out (register : Nat) (value : UInt8)
  | wordIn (value : UInt16)
  | wordOut (value : UInt16)
  | delay
deriving DecidableEq

structure AtaPort where
  statusReads : Nat
  wordReads : Nat
  log : List AtaEvent

structure AtaDevice where
  present : Bool
  atapi : Bool
  lba48 : Bool
  drive : UInt8
  sectorCount : UInt64

def ataRegDriveSelect : Nat := 6
def ataRegCommand : Nat := 7

def ataCmdReadPio : UInt8 := 0x20
def ataCmdReadPioExt : UInt8 := 0x24
def ataCmdWritePio : UInt8 := 0x30
def ataCmdWritePioExt : UInt8 := 0x34
def ataCmdCacheFlush : UInt8 := 0xE7
def ataCmdCacheFlushExt : UInt8 := 0xEA

def ataBusy (status : UInt8) : Bool := status &&& (0x80 : UInt8) != 0
def ataFailed (status : UInt8) : Bool := status &&& (0x21 : UInt8) != 0
def ataWantsData (status : UInt8) : Bool := status &&& (0x08 : UInt8) != 0

def ataTimeout : Nat := 200000

namespace AtaPort

def record (port : AtaPort) (event : AtaEvent) : AtaPort := { port with log := port.log ++ [event] }

def out (port : AtaPort) (register : Nat) (value : UInt8) : AtaPort :=
  port.record (.out register value)

def ioDelay (port : AtaPort) : AtaPort := port.record .delay

def readStatus (drive : AtaDrive) (port : AtaPort) : UInt8 × AtaPort :=
  let value := drive.status port.statusReads
  (value, { port.record (.status value) with statusReads := port.statusReads + 1 })

def readWord (drive : AtaDrive) (port : AtaPort) : UInt16 × AtaPort :=
  let value := drive.data port.wordReads
  (value, { port.record (.wordIn value) with wordReads := port.wordReads + 1 })

end AtaPort

/-- A wait reads the status until the verdict on it is final. -/
def ataPoll (drive : AtaDrive) (verdict : UInt8 → Option Bool) : Nat → AtaPort → Bool × AtaPort
  | 0, port => (false, port)
  | timeout + 1, port =>
      let (status, port) := port.readStatus drive
      match verdict status with
      | some ok => (ok, port)
      | none => ataPoll drive verdict timeout port

def notBsyVerdict (status : UInt8) : Option Bool :=
  if status = 0 then some false else if !ataBusy status then some true else none

def drqVerdict (status : UInt8) : Option Bool :=
  if status = 0 then some false
  else if ataBusy status then none
  else if ataFailed status then some false
  else if ataWantsData status then some true
  else none

def ataWaitNotBsy (drive : AtaDrive) (port : AtaPort) : Bool × AtaPort :=
  ataPoll drive notBsyVerdict ataTimeout port

def ataWaitDrq (drive : AtaDrive) (port : AtaPort) : Bool × AtaPort :=
  ataPoll drive drqVerdict ataTimeout port

def ataSelectDrive (port : AtaPort) (device : AtaDevice) : AtaPort :=
  (port.out ataRegDriveSelect ((0xA0 : UInt8) ||| (device.drive &&& (1 : UInt8)) <<< 4)).ioDelay

def ataSetupCommandLba28 (port : AtaPort) (device : AtaDevice) (lba : UInt32)
    (command : UInt8) : Option AtaPort :=
  if lba > 0x0FFFFFFF then none
  else
    let top := (lba >>> 24).toUInt8 &&& (0x0F : UInt8)
    let port := (port.out ataRegDriveSelect ((0xE0 : UInt8) ||| (device.drive &&&
      (1 : UInt8)) <<< 4 ||| top)).ioDelay
    let port := (port.out 2 1).out 3 lba.toUInt8
    let port := (port.out 4 (lba >>> 8).toUInt8).out 5 (lba >>> 16).toUInt8
    some (port.out ataRegCommand command)

def ataSetupCommandLba48 (port : AtaPort) (device : AtaDevice) (lba : UInt32)
    (command : UInt8) : Option AtaPort :=
  if !device.lba48 then none
  else
    let port :=
      (port.out ataRegDriveSelect ((0x40 : UInt8) ||| (device.drive &&& (1 : UInt8)) <<< 4)).ioDelay
    let port := (((port.out 2 0).out 3 (lba >>> 24).toUInt8).out 4 0).out 5 0
    let port := (port.out 2 1).out 3 lba.toUInt8
    let port := (port.out 4 (lba >>> 8).toUInt8).out 5 (lba >>> 16).toUInt8
    some (port.out ataRegCommand command)

def ataUseExt (device : AtaDevice) (lba : UInt32) : Bool :=
  device.lba48 && decide (lba > 0x0FFFFFFF)

def ataSetupCommand (port : AtaPort) (device : AtaDevice) (lba : UInt32)
    (command commandExt : UInt8) : Option AtaPort :=
  if ataUseExt device lba then ataSetupCommandLba48 port device lba commandExt
  else ataSetupCommandLba28 port device lba command

/-- The checks of both calls; `selected` is the device at `selected_index`. -/
def ataTarget (selected : Option AtaDevice) (lba : UInt32) : Option AtaDevice :=
  match selected with
  | none => none
  | some device =>
      if !device.present || device.atapi then none
      else if device.sectorCount ≠ 0 ∧ lba.toUInt64 ≥ device.sectorCount then none
      else some device

def ataBegin (drive : AtaDrive) (port : AtaPort) (device : AtaDevice) (lba : UInt32)
    (command commandExt : UInt8) : Bool × AtaPort :=
  match ataWaitNotBsy drive (ataSelectDrive port device) with
  | (false, port) => (false, port)
  | (true, port) =>
      match ataSetupCommand port device lba command commandExt with
      | none => (false, port)
      | some port => ataWaitDrq drive port

def ataReadWords (drive : AtaDrive) : Nat → AtaPort → List UInt16 × AtaPort
  | 0, port => ([], port)
  | count + 1, port =>
      let (word, port) := port.readWord drive
      let (rest, port) := ataReadWords drive count port
      (word :: rest, port)

def ataWriteWords (port : AtaPort) (words : List UInt16) : AtaPort :=
  words.foldl (fun port word => port.record (.wordOut word)) port

/-- The words that are put into the buffer, when the call returns true. -/
def ataReadSector (drive : AtaDrive) (selected : Option AtaDevice) (port : AtaPort) (lba : UInt32) :
    Option (List UInt16) × AtaPort :=
  match ataTarget selected lba with
  | none => (none, port)
  | some device =>
      match ataBegin drive port device lba ataCmdReadPio ataCmdReadPioExt with
      | (false, port) => (none, port)
      | (true, port) =>
          let (words, port) := ataReadWords drive 256 port
          (some words, port)

def ataWriteSector (drive : AtaDrive) (selected : Option AtaDevice) (port : AtaPort) (lba : UInt32)
    (buffer : Vector UInt16 256) : Bool × AtaPort :=
  match ataTarget selected lba with
  | none => (false, port)
  | some device =>
      match ataBegin drive port device lba ataCmdWritePio ataCmdWritePioExt with
      | (false, port) => (false, port)
      | (true, port) =>
          let port := ataWriteWords port buffer.toList
          let flush := if ataUseExt device lba then ataCmdCacheFlushExt else ataCmdCacheFlush
          ataWaitNotBsy drive (port.out ataRegCommand flush)

end Szczupak.Ata
