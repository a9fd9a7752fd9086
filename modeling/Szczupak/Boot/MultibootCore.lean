import Szczupak.Mm.PmmCore

/-!
`multiboot_parse` of `multiboot/multiboot2.c`, on the bytes the boot loader left in memory.
`turns` bounds every loop over the block; `none` is a loop that has not ended by then.  A tag is
the address it stands at.  No block reaches the end of the address space, so the addresses that
the loops compute do not wrap.
-/

namespace Szczupak

def tagType (mem : Mem) (tag : Nat) : Nat := mem.readU32 tag
def tagSize (mem : Mem) (tag : Nat) : Nat := mem.readU32 (tag + 4)

def tagStep (mem : Mem) (tag : Nat) : Nat := (tagSize mem tag + 7) % 2 ^ 32 / 8 * 8

def mapEntrySize (mem : Mem) (tag : Nat) : Nat := mem.readU32 (tag + 8)

def entryAddr (mem : Mem) (entry : Nat) : Nat := mem.readU64 entry
def entryLen (mem : Mem) (entry : Nat) : Nat := mem.readU64 (entry + 8)
def entryAvailable (mem : Mem) (entry : Nat) : Bool := mem.readU32 (entry + 16) == 1

def entryEnd (mem : Mem) (entry : Nat) : Nat := (entryAddr mem entry + entryLen mem entry) % 2 ^ 64

def entriesFrom (size stop : Nat) : Nat → Nat → Option (List Nat)
  | 0, _ => none
  | turns + 1, entry =>
      if entry < stop then
        match entriesFrom size stop turns (entry + size) with
        | none => none
        | some rest => some (entry :: rest)
      else some []

def mapEntries (turns : Nat) (mem : Mem) (tag : Nat) : Option (List Nat) :=
  entriesFrom (mapEntrySize mem tag) (tag + tagSize mem tag) turns (tag + 16)

def highestEnd (mem : Mem) (entries : List Nat) (highest : Nat) : Nat :=
  entries.foldl (fun highest entry =>
    if entryAvailable mem entry ∧ highest < entryEnd mem entry then entryEnd mem entry
    else highest) highest

def moduleStart (mem : Mem) (tag : Nat) : Nat := mem.readU32 (tag + 8)
def moduleEnd (mem : Mem) (tag : Nat) : Nat := mem.readU32 (tag + 12)

def maxModules : Nat := 32

/-- What the loop over the tags keeps.  `mmapTag` and `highestAddr` are its locals; the others
are the static variables that the getters read. -/
structure Multiboot where
  mmapTag : Option Nat
  highestAddr : Nat
  framebufferTag : Option Nat
  modules : List Nat
  cmdline : List UInt8
  acpiOld : List UInt8
  acpiNew : List UInt8

def Multiboot.empty : Multiboot :=
  { mmapTag := none, highestAddr := 0, framebufferTag := none, modules := [], cmdline := [],
    acpiOld := [], acpiNew := [] }

def tagPayload (mem : Mem) (tag limit : Nat) : List UInt8 :=
  mem.read (tag + 8) (min (tagSize mem tag - 8) limit)

def visitMap (turns : Nat) (mem : Mem) (boot : Multiboot) (tag : Nat) : Option Multiboot :=
  match mapEntries turns mem tag with
  | none => none
  | some entries =>
      some { boot with mmapTag := some tag, highestAddr := highestEnd mem entries boot.highestAddr }

def visitTag (mem : Mem) (boot : Multiboot) (tag : Nat) : Multiboot :=
  match tagType mem tag with
  | 8 => { boot with framebufferTag := some tag }
  | 1 => if 8 < tagSize mem tag then { boot with cmdline := tagPayload mem tag 255 } else boot
  | 3 =>
      if boot.modules.length < maxModules ∧ moduleStart mem tag < moduleEnd mem tag then
        { boot with modules := boot.modules ++ [tag] }
      else boot
  | 14 => if 8 < tagSize mem tag then { boot with acpiOld := tagPayload mem tag 20 } else boot
  | 15 => if 8 < tagSize mem tag then { boot with acpiNew := tagPayload mem tag 64 } else boot
  | _ => boot

def walkTags (turns : Nat) (mem : Mem) : Nat → Nat → Multiboot → Option Multiboot
  | 0, _, _ => none
  | more + 1, tag, boot =>
      if tagType mem tag = 0 then some boot
      else if tagType mem tag = 6 then
        match visitMap turns mem boot tag with
        | none => none
        | some boot => walkTags turns mem more (tag + tagStep mem tag) boot
      else walkTags turns mem more (tag + tagStep mem tag) (visitTag mem boot tag)

def reserveEntries (mem : Mem) (entries : List Nat) (pmm : Pmm) : Pmm :=
  entries.foldl (fun pmm entry =>
    if entryAvailable mem entry then pmm
    else pmmReserveRange pmm (UInt64.ofNat (entryAddr mem entry)) (UInt64.ofNat (entryEnd mem entry))) pmm

def reserveMap (turns : Nat) (mem : Mem) (boot : Multiboot) (pmm : Pmm) : Option Pmm :=
  match boot.mmapTag with
  | none => some pmm
  | some tag =>
      match mapEntries turns mem tag with
      | none => none
      | some entries => some (reserveEntries mem entries pmm)

def reserveModules (mem : Mem) (modules : List Nat) (pmm : Pmm) : Pmm :=
  modules.foldl (fun pmm tag =>
    pmmReserveRange pmm (UInt64.ofNat (moduleStart mem tag)) (UInt64.ofNat (moduleEnd mem tag))) pmm

/-- `multiboot_parse`; a block it refuses leaves everything as it was. -/
def multibootParse (turns : Nat) (symbols : KernelSymbols) (mem : Mem) (multibootAddr : Nat)
    (before : Multiboot) (pmm : Pmm) : Option (Bool × Multiboot × Pmm) :=
  if multibootAddr = 0 then some (false, before, pmm)
  else
    let totalSize := mem.readU32 multibootAddr
    if totalSize < 8 then some (false, before, pmm)
    else
      match walkTags turns mem turns (multibootAddr + 8) Multiboot.empty with
      | none => none
      | some boot =>
          let sized := pmmInit symbols pmm 0 (UInt64.ofNat boot.highestAddr)
          let block := pmmReserveRange sized (UInt64.ofNat multibootAddr)
            (UInt64.ofNat (multibootAddr + totalSize))
          match reserveMap turns mem boot block with
          | none => none
          | some mapped => some (true, boot, reserveModules mem boot.modules mapped)

end Szczupak
