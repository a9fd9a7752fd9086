import Szczupak.Mm.UaccessCore

/-!
The ELF loader, `loader/elf.c`.  The image lies in kernel memory `kernel` at `elfData`;
the load works on the frames of `pmm`, which do not hold the image.  Each step gives its
boolean result with the new state.
-/

namespace Szczupak

def elfMagic : Nat := 0x464C457F
def ptLoad : Nat := 1
def elfHeaderSize : Nat := 64
def elfProgramHeaderSize : Nat := 56

structure ElfHeader where
  magic : Nat
  entry : Nat
  phoff : Nat
  phentsize : Nat
  phnum : Nat

structure ElfProgramHeader where
  type : Nat
  flags : Nat
  offset : Nat
  vaddr : Nat
  filesz : Nat
  memsz : Nat

def readElfHeader (kernel : Mem) (address : Nat) : ElfHeader where
  magic := kernel.readU32 address
  entry := kernel.readU64 (address + 24)
  phoff := kernel.readU64 (address + 32)
  phentsize := kernel.readU16 (address + 54)
  phnum := kernel.readU16 (address + 56)

def readElfProgramHeader (kernel : Mem) (address : Nat) : ElfProgramHeader where
  type := kernel.readU32 address
  flags := kernel.readU32 (address + 4)
  offset := kernel.readU64 (address + 8)
  vaddr := kernel.readU64 (address + 16)
  filesz := kernel.readU64 (address + 32)
  memsz := kernel.readU64 (address + 40)

def onSuccess (first : Option (Bool × Pmm)) (next : Pmm → Option (Bool × Pmm)) :
    Option (Bool × Pmm) :=
  match first with
  | none => none
  | some (false, after) => some (false, after)
  | some (true, after) => next after

/-- How a page loop ends: its result, the bytes it stored, and the memory. -/
structure ElfFill where
  ok : Bool
  done : Nat
  ram : Mem

def chunkSize (dst len done : Nat) : Nat :=
  if 4096 - (dst + done) % 2 ^ 64 % 4096 > len - done then len - done
  else 4096 - (dst + done) % 2 ^ 64 % 4096

def copyChunk (root dst done : Nat) (byte : Nat → UInt8) (chunk : Nat) (ram : Mem) : Mem :=
  let vaddr := (dst + done) % 2 ^ 64
  let target := alignDown (vmmGetPhysical ram root (UInt64.ofNat vaddr)) + vaddr % 4096
  (List.range chunk).foldl (fun ram index => ram.set (target + index) (byte (done + index))) ram

/-- The page loop of `elf_copy_to_user` and `elf_zero_user`; `byte` gives what is stored
`done` bytes into the range.  Every turn stores at least one byte. -/
def elfFillUser (root dst len : Nat) (byte : Nat → UInt8) : Nat → Nat → Mem → ElfFill
  | 0, done, ram => ⟨true, done, ram⟩
  | fuel + 1, done, ram =>
      if done < len then
        if vmmGetPhysical ram root (UInt64.ofNat ((dst + done) % 2 ^ 64)) = 0 then
          ⟨false, done, ram⟩
        else
          elfFillUser root dst len byte fuel (done + chunkSize dst len done)
            (copyChunk root dst done byte (chunkSize dst len done) ram)
      else ⟨true, done, ram⟩

def copiedByte (kernel : Mem) (src index : Nat) : UInt8 := kernel ((src + index) % 2 ^ 64)

def elfCopyToUser (pmm : Pmm) (root dst : Nat) (kernel : Mem) (src len : Nat) :
    Option (Bool × Pmm) :=
  if src = 0 ∨ len = 0 then some (false, pmm)
  else
    let filled := elfFillUser root dst len (copiedByte kernel src) len 0 pmm.ram
    some (filled.ok, { pmm with ram := filled.ram })

def elfZeroUser (pmm : Pmm) (root dst len : Nat) : Option (Bool × Pmm) :=
  if len = 0 then some (false, pmm)
  else
    let filled := elfFillUser root dst len (fun _ => 0) len 0 pmm.ram
    some (filled.ok, { pmm with ram := filled.ram })

/-- The frame already mapped at `vaddr`, else a zeroed new one. -/
def elfFrame (pmm : Pmm) (root vaddr : Nat) : Option (Nat × Pmm) :=
  let phys := vmmGetPhysical pmm.ram root (UInt64.ofNat vaddr)
  if phys = 0 then
    match pmmAllocPage pmm with
    | none => none
    | some (frame, after) =>
        if frame = 0 then some (0, after)
        else some (frame, { after with ram := after.ram.fill frame 4096 0 })
  else some (phys, pmm)

def elfMapFlags : UInt32 := 7
def elfReadFlags : UInt32 := 5

def elfMapPage (root vaddr : Nat) (pmm : Pmm) : Option (Bool × Pmm) :=
  match elfFrame pmm root vaddr with
  | none => none
  | some (phys, after) =>
      if phys = 0 then some (false, after)
      else vmmMapUserPage after root (UInt64.ofNat vaddr) (UInt64.ofNat phys) elfMapFlags

/-- The first page loop over a segment: `count` pages from `vaddr` on. -/
def elfMapPages (root : Nat) : Nat → Nat → Pmm → Option (Bool × Pmm)
  | 0, _, pmm => some (true, pmm)
  | count + 1, vaddr, pmm =>
      onSuccess (elfMapPage root vaddr pmm) (elfMapPages root count (vaddr + 4096))

def elfTightenPages (root : Nat) : Nat → Nat → Pmm → Option (Bool × Pmm)
  | 0, _, pmm => some (true, pmm)
  | count + 1, vaddr, pmm =>
      onSuccess (vmmChangeFlags pmm root (UInt64.ofNat vaddr) elfReadFlags)
        (elfTightenPages root count (vaddr + 4096))

/-- The pages from `vstart` up to `vend`; the sum behind `vend` may wrap. -/
def elfPageCount (ph : ElfProgramHeader) : Nat :=
  (alignDown ((ph.vaddr + ph.memsz + 0xFFF) % 2 ^ 64) - alignDown ph.vaddr) / 4096

def elfMapSegment (root : Nat) (ph : ElfProgramHeader) (pmm : Pmm) : Option (Bool × Pmm) :=
  elfMapPages root (elfPageCount ph) (alignDown ph.vaddr) pmm

def elfCopySegment (root : Nat) (kernel : Mem) (elfData : Nat) (ph : ElfProgramHeader)
    (pmm : Pmm) : Option (Bool × Pmm) :=
  if ph.filesz > 0 then
    elfCopyToUser pmm root ph.vaddr kernel ((elfData + ph.offset) % 2 ^ 64) ph.filesz
  else some (true, pmm)

def elfZeroSegment (root : Nat) (ph : ElfProgramHeader) (pmm : Pmm) : Option (Bool × Pmm) :=
  if ph.memsz > ph.filesz then
    elfZeroUser pmm root ((ph.vaddr + ph.filesz) % 2 ^ 64) (ph.memsz - ph.filesz)
  else some (true, pmm)

def elfTightenSegment (root : Nat) (ph : ElfProgramHeader) (pmm : Pmm) : Option (Bool × Pmm) :=
  if !ph.flags.testBit 1 then elfTightenPages root (elfPageCount ph) (alignDown ph.vaddr) pmm
  else some (true, pmm)

def elfLoadSegment (root : Nat) (kernel : Mem) (elfData : Nat) (ph : ElfProgramHeader)
    (pmm : Pmm) : Option (Bool × Pmm) :=
  onSuccess (elfMapSegment root ph pmm) fun mapped =>
  onSuccess (elfCopySegment root kernel elfData ph mapped) fun copied =>
  onSuccess (elfZeroSegment root ph copied) fun zeroed =>
  elfTightenSegment root ph zeroed

def elfSkips (ph : ElfProgramHeader) : Bool := ph.type != ptLoad || ph.memsz == 0

def elfSizesValid (elfSize : Nat) (ph : ElfProgramHeader) : Bool :=
  ph.filesz ≤ ph.memsz && (ph.offset + ph.filesz) % 2 ^ 64 ≤ elfSize

def elfLoadSegments (root : Nat) (kernel : Mem) (elfData elfSize : Nat) :
    List ElfProgramHeader → Pmm → Option (Bool × Pmm)
  | [], pmm => some (true, pmm)
  | ph :: rest, pmm =>
      if elfSkips ph then elfLoadSegments root kernel elfData elfSize rest pmm
      else if !elfSizesValid elfSize ph then some (false, pmm)
      else
        onSuccess (elfLoadSegment root kernel elfData ph pmm)
          (elfLoadSegments root kernel elfData elfSize rest)

/-- The address of program header `index`; the product is an `int`. -/
def elfHeaderAddress (elfData : UInt64) (header : ElfHeader) (index : Nat) : Nat :=
  (elfData + UInt64.ofNat header.phoff +
    (Int32.ofNat (index * header.phentsize)).toInt64.toUInt64).toNat

def elfProgramHeaders (kernel : Mem) (elfData : UInt64) : List ElfProgramHeader :=
  let header := readElfHeader kernel elfData.toNat
  (List.range header.phnum).map fun index =>
    readElfProgramHeader kernel (elfHeaderAddress elfData header index)

/-- `dir` is the PML4 of the task; the result is the entry point, or 0. -/
def elfLoad (pmm : Pmm) (dir : Option Nat) (kernel : Mem) (elfData elfSize : UInt64) :
    Option (Nat × Pmm) :=
  match dir with
  | none => some (0, pmm)
  | some root =>
      if elfData = 0 ∨ elfSize.toNat < elfHeaderSize then some (0, pmm)
      else
        let header := readElfHeader kernel elfData.toNat
        if header.magic ≠ elfMagic then some (0, pmm)
        else
          let phEnd := (header.phoff + header.phnum * header.phentsize) % 2 ^ 64
          if header.phoff ≥ elfSize.toNat ∨ phEnd > elfSize.toNat ∨
              header.phentsize < elfProgramHeaderSize then some (0, pmm)
          else
            match elfLoadSegments root kernel elfData.toNat elfSize.toNat
                (elfProgramHeaders kernel elfData) pmm with
            | none => none
            | some (loaded, after) => some (if loaded then header.entry else 0, after)

end Szczupak
