import Szczupak.Lib.ByteMemory
import Szczupak.Lib.Numeral
import Szczupak.Lib.Recorded

/-!
The tables of `firmware/acpi.c`, once `acpi_init` has located the root.  A table is the physical
address it stands at, and every function records what it reads.
-/

namespace Szczupak

inductive AcpiRead where
  | header (table : Nat)
  | check (table length : Nat)
  | field (place length : Nat)
deriving DecidableEq

abbrev AcpiReads := Recorded AcpiRead

def sdtHeaderSize : Nat := 36
def mcfgTableSize : Nat := 44
def mcfgAllocSize : Nat := 16
def madtSize : Nat := 44
def madtEntrySize : Nat := 2
def madtLapicSize : Nat := 8
def madtIoapicSize : Nat := 12

structure AcpiRoot where
  useXsdt : Bool
  rootPhys : UInt64

structure McfgInfo where
  baseAddress : Nat
  segmentGroup : Nat
  busStart : Nat
  busEnd : Nat
deriving DecidableEq

structure IoApic where
  id : Nat
  address : Nat
  gsiBase : Nat
deriving DecidableEq

structure MadtInfo where
  lapicAddress : Nat
  flags : Nat
  cpuCount : UInt32
  ioapic : Option IoApic
deriving DecidableEq

def acpiPhysRangeOk (phys : UInt64) (size : Nat) : Bool :=
  if size = 0 then false
  else
    let last := phys + UInt64.ofNat size - 1
    if last < phys then false else last < 0x100000000

def acpiChecksum (mem : Mem) (phys size : Nat) : UInt8 := (mem.read phys size).foldl (· + ·) 0

section Tables

variable (mem : Mem)

def tableLength (table : Nat) : Nat := mem.readU32 (table + 4)

/-- The signature and the length, when the header and the whole table are sound. -/
def acpiReadTableHeader (phys : UInt64) : AcpiReads (Option (List UInt8 × Nat)) :=
  if !acpiPhysRangeOk phys sdtHeaderSize then return none
  else do
    Recorded.tell (.header phys.toNat)
    let length := tableLength mem phys.toNat
    if length < sdtHeaderSize then return none
    else if !acpiPhysRangeOk phys length then return none
    else do
      Recorded.tell (.check phys.toNat length)
      if acpiChecksum mem phys.toNat length ≠ 0 then return none
      else return some (mem.read phys.toNat 4, length)

def rootEntrySize (root : AcpiRoot) : Nat := if root.useXsdt then 8 else 4

def rootEntryPlace (root : AcpiRoot) (index : Nat) : Nat :=
  root.rootPhys.toNat + sdtHeaderSize + index * rootEntrySize root

def rootEntry (root : AcpiRoot) (index : Nat) : UInt64 :=
  UInt64.ofNat (mem.readLE (rootEntryPlace root index) (rootEntrySize root))

def acpiScanRoot (root : AcpiRoot) (signature : List UInt8) : Nat → Nat → AcpiReads (Option Nat)
  | 0, _ => return none
  | left + 1, index => do
      Recorded.tell (.field (rootEntryPlace root index) (rootEntrySize root))
      let tablePhys := rootEntry mem root index
      if tablePhys = 0 then acpiScanRoot root signature left (index + 1)
      else do
        let header ← acpiReadTableHeader mem tablePhys
        match header with
        | none => acpiScanRoot root signature left (index + 1)
        | some (found, _) =>
            if found ≠ signature then acpiScanRoot root signature left (index + 1)
            else return some tablePhys.toNat

def rootEntryCount (root : AcpiRoot) (length : Nat) : Nat :=
  (length - sdtHeaderSize) / rootEntrySize root

def acpiFindTable (available : Option AcpiRoot) (signature : List UInt8) : AcpiReads (Option Nat) :=
  match available with
  | none => return none
  | some root => do
      let header ← acpiReadTableHeader mem root.rootPhys
      match header with
      | none => return none
      | some (_, length) => acpiScanRoot mem root signature (rootEntryCount root length) 0

def mcfgAlloc (mcfg index : Nat) : Nat := mcfg + mcfgTableSize + index * mcfgAllocSize

def allocBase (alloc : Nat) : Nat := mem.readU64 alloc
def allocSegment (alloc : Nat) : Nat := mem.readU16 (alloc + 8)
def allocBusStart (alloc : Nat) : Nat := (mem (alloc + 10)).toNat
def allocBusEnd (alloc : Nat) : Nat := (mem (alloc + 11)).toNat

def acpiScanMcfg (mcfg : Nat) : Nat → Nat → Option Nat → AcpiReads (Option Nat)
  | 0, _, best => return best
  | left + 1, index, best => do
      let seg := mcfgAlloc mcfg index
      Recorded.tell (.field (seg + 10) 2)
      if allocBusEnd mem seg < allocBusStart mem seg then acpiScanMcfg mcfg left (index + 1) best
      else do
        Recorded.tell (.field (seg + 8) 2)
        if best.isNone || allocSegment mem seg == 0 then
          if allocSegment mem seg = 0 then return some seg
          else acpiScanMcfg mcfg left (index + 1) (some seg)
        else acpiScanMcfg mcfg left (index + 1) best

def acpiGetMcfgInfo (available : Option AcpiRoot) : AcpiReads (Option McfgInfo) := do
  let found ← acpiFindTable mem available (cText "MCFG")
  match found with
  | none => return none
  | some mcfg => do
      Recorded.tell (.field (mcfg + 4) 4)
      let length := tableLength mem mcfg
      if length < mcfgTableSize then return none
      else do
        let best ← acpiScanMcfg mem mcfg ((length - mcfgTableSize) / mcfgAllocSize) 0 none
        match best with
        | none => return none
        | some seg => do
            Recorded.tell (.field seg 12)
            return some ⟨allocBase mem seg, allocSegment mem seg, allocBusStart mem seg, allocBusEnd mem seg⟩

def entryType (entry : Nat) : Nat := (mem entry).toNat
def entryLength (entry : Nat) : Nat := (mem (entry + 1)).toNat

def lapicEnabled (entry : Nat) : Bool := mem.readU32 (entry + 4) % 2 == 1

def ioapicOf (entry : Nat) : IoApic :=
  ⟨(mem (entry + 2)).toNat, mem.readU32 (entry + 4), mem.readU32 (entry + 8)⟩

def madtVisit (entry : Nat) (info : MadtInfo) : AcpiReads MadtInfo :=
  if entryType mem entry = 0 ∧ madtLapicSize ≤ entryLength mem entry then do
    Recorded.tell (.field (entry + 4) 4)
    return if lapicEnabled mem entry then { info with cpuCount := info.cpuCount + 1 } else info
  else if entryType mem entry = 1 ∧ madtIoapicSize ≤ entryLength mem entry then
    match info.ioapic with
    | some _ => return info
    | none => do
        Recorded.tell (.field (entry + 2) 10)
        return { info with ioapic := some (ioapicOf mem entry) }
  else return info

/-- The loop over the entries; it is `none` when it has not ended after that many turns. -/
def acpiScanMadt (stop : Nat) : Nat → Nat → MadtInfo → AcpiReads (Option MadtInfo)
  | 0, _, _ => return none
  | turns + 1, cur, info =>
      if cur + madtEntrySize ≤ stop then do
        Recorded.tell (.field cur madtEntrySize)
        if entryLength mem cur < madtEntrySize then return some info
        else if cur + entryLength mem cur > stop then return some info
        else do
          let visited ← madtVisit mem cur info
          acpiScanMadt stop turns (cur + entryLength mem cur) visited
      else return some info

/-- The outer option is that of the loop, which gets as many turns as the table has bytes. -/
def acpiGetMadtInfo (available : Option AcpiRoot) : AcpiReads (Option (Option MadtInfo)) := do
  let found ← acpiFindTable mem available (cText "APIC")
  match found with
  | none => return some none
  | some madt => do
      Recorded.tell (.field (madt + 4) 4)
      let length := tableLength mem madt
      if length < madtSize then return some none
      else do
        Recorded.tell (.field (madt + 36) 8)
        let start : MadtInfo := ⟨mem.readU32 (madt + 36), mem.readU32 (madt + 40), 0, none⟩
        let info ← acpiScanMadt mem (madt + length) length (madt + madtSize) start
        return info.map some

end Tables

end Szczupak
