import Szczupak.Mm.PmmCore

/-!
Four-level page tables of `mm/vmm.c`.  Tables live in physical memory (`Pmm.ram`) and
are reached through the direct map, so a table pointer is modelled by the physical
address it maps to; `PHYS_TO_VIRT` sends the physical address 2^47 to the null pointer.
A directory is the physical address of its PML4.  `none` is the fault inside
`pmm_alloc_page` on an empty pool.
-/

namespace Szczupak

def presentBit : Nat := 0
def writeBit : Nat := 1
def userBit : Nat := 2
def hugeBit : Nat := 7

def pagePresent : Nat := 1
def pageWrite : Nat := 2
def pageUser : Nat := 4

def nullTable : Nat := 2 ^ 47

def pml4Index (address : Nat) : Nat := address / 2 ^ 39 % 512
def pdpIndex (address : Nat) : Nat := address / 2 ^ 30 % 512
def pdIndex (address : Nat) : Nat := address / 2 ^ 21 % 512
def ptIndex (address : Nat) : Nat := address / 2 ^ 12 % 512

def isCanonical (address : UInt64) : Bool :=
  address.toNat ≤ 0x00007FFFFFFFFFFF || 0xFFFF800000000000 ≤ address.toNat

def entryAt (ram : Mem) (table index : Nat) : Nat := ram.readU64 (table + 8 * index)
def setEntry (ram : Mem) (table index value : Nat) : Mem := ram.writeU64 (table + 8 * index) value

/-- `if ((flags & bit) && !(parent[index] & bit)) parent[index] |= bit`. -/
def grantFlag (ram : Mem) (parent index flags bit : Nat) : Mem :=
  if flags.testBit bit && !(entryAt ram parent index).testBit bit then
    setEntry ram parent index (entryAt ram parent index ||| 2 ^ bit)
  else ram

def getOrCreateTable (pmm : Pmm) (parent index flags : Nat) : Option (Nat × Pmm) :=
  if parent = nullTable ∨ 512 ≤ index then some (nullTable, pmm)
  else if (entryAt pmm.ram parent index).testBit presentBit then
    let user := grantFlag pmm.ram parent index flags userBit
    let write := grantFlag user parent index flags writeBit
    some (alignDown (entryAt pmm.ram parent index), { pmm with ram := write })
  else
    match pmmAllocPage pmm with
    | none => none
    | some (table, after) =>
        if table = 0 then some (nullTable, after)
        else
          let tableFlags := pagePresent ||| pageWrite |||
            (if flags.testBit userBit then pageUser else 0)
          let cleared := after.ram.fill table pageSize 0
          some (table, { after with ram := setEntry cleared parent index (table ||| tableFlags) })

def smallFlags (entry : Nat) : Nat := entry &&& 0xF7F ||| pagePresent

def splitHugePage (pmm : Pmm) (pd index : Nat) : Option (Bool × Pmm) :=
  let entry := entryAt pmm.ram pd index
  if !entry.testBit hugeBit then some (true, pmm)
  else
    match pmmAllocPage pmm with
    | none => none
    | some (table, after) =>
        if table = 0 then some (false, after)
        else
          let hugePhys := entry / 2 ^ 21 * 2 ^ 21
          let filled := (List.range 512).foldl (fun ram page =>
            setEntry ram table page ((hugePhys + page * 4096) ||| smallFlags entry)) after.ram
          some (true, { after with ram := setEntry filled pd index (table ||| smallFlags entry) })

/-- One level of a mapping walk: find or make the table, fail on null, and for user
mappings set `PAGE_USER` in the parent's entry. -/
def withTable (pmm : Pmm) (parent index flags : Nat) (forceUser : Bool)
    (next : Nat → Pmm → Option (Bool × Pmm)) : Option (Bool × Pmm) :=
  match getOrCreateTable pmm parent index flags with
  | none => none
  | some (table, after) =>
      if table = nullTable then some (false, after)
      else if forceUser then
        next table { after with
          ram := setEntry after.ram parent index (entryAt after.ram parent index ||| pageUser) }
      else next table after

/-- The walk shared by `vmm_map_page` and `vmm_map_user_page`, ending in the store of
`leaf`. -/
def mapWalk (pmm : Pmm) (root address flags : Nat) (forceUser : Bool) (leaf : Nat) :
    Option (Bool × Pmm) :=
  withTable pmm root (pml4Index address) flags forceUser fun pdp pmm =>
  withTable pmm pdp (pdpIndex address) flags forceUser fun pd pmm =>
  match splitHugePage pmm pd (pdIndex address) with
  | none => none
  | some (false, after) => some (false, after)
  | some (true, pmm) =>
      withTable pmm pd (pdIndex address) flags forceUser fun pt pmm =>
      some (true, { pmm with ram := setEntry pmm.ram pt (ptIndex address) leaf })

def vmmMapPage (pmm : Pmm) (root : Nat) (virt phys : UInt64) (flags : UInt32) :
    Option (Bool × Pmm) :=
  if !isCanonical virt then some (false, pmm)
  else mapWalk pmm root (alignDown virt.toNat) flags.toNat false
    (alignDown phys.toNat &&& 0x000FFFFFFFFFF000 ||| flags.toNat &&& 0xFFF ||| pagePresent)

def vmmMapUserPage (pmm : Pmm) (root : Nat) (virt phys : UInt64) (flags : UInt32) :
    Option (Bool × Pmm) :=
  if !isCanonical virt then some (false, pmm)
  else mapWalk pmm root (alignDown virt.toNat) (flags.toNat ||| pageUser) true
    (alignDown phys.toNat ||| (flags.toNat ||| pageUser) ||| pagePresent)

def vmmGetPhysical (ram : Mem) (root : Nat) (virt : UInt64) : Nat :=
  let address := alignDown virt.toNat
  let pml4Entry := entryAt ram root (pml4Index address)
  if !pml4Entry.testBit presentBit then 0
  else
    let pdpEntry := entryAt ram (alignDown pml4Entry) (pdpIndex address)
    if !pdpEntry.testBit presentBit then 0
    else if pdpEntry.testBit hugeBit then
      pdpEntry / 2 ^ 30 * 2 ^ 30 + virt.toNat % 2 ^ 30
    else
      let pdEntry := entryAt ram (alignDown pdpEntry) (pdIndex address)
      if !pdEntry.testBit presentBit then 0
      else if pdEntry.testBit hugeBit then pdEntry / 2 ^ 21 * 2 ^ 21 + virt.toNat % 2 ^ 21
      else
        let ptEntry := entryAt ram (alignDown pdEntry) (ptIndex address)
        if !ptEntry.testBit presentBit then 0
        else alignDown ptEntry + virt.toNat % 4096

def vmmUnmapPage (ram : Mem) (root : Nat) (virt : UInt64) : Bool × Mem :=
  let address := alignDown virt.toNat
  let pml4Entry := entryAt ram root (pml4Index address)
  if !pml4Entry.testBit presentBit then (false, ram)
  else
    let pdpEntry := entryAt ram (alignDown pml4Entry) (pdpIndex address)
    if !pdpEntry.testBit presentBit then (false, ram)
    else
      let pd := alignDown pdpEntry
      let pdEntry := entryAt ram pd (pdIndex address)
      if !pdEntry.testBit presentBit then (false, ram)
      else if pdEntry.testBit hugeBit then (true, setEntry ram pd (pdIndex address) 0)
      else (true, setEntry ram (alignDown pdEntry) (ptIndex address) 0)

def vmmChangeFlags (pmm : Pmm) (root : Nat) (virt : UInt64) (flags : UInt32) :
    Option (Bool × Pmm) :=
  let address := alignDown virt.toNat
  let pml4Entry := entryAt pmm.ram root (pml4Index address)
  if !pml4Entry.testBit presentBit then some (false, pmm)
  else
    let pdpEntry := entryAt pmm.ram (alignDown pml4Entry) (pdpIndex address)
    if !pdpEntry.testBit presentBit then some (false, pmm)
    else
      let pd := alignDown pdpEntry
      if !(entryAt pmm.ram pd (pdIndex address)).testBit presentBit then some (false, pmm)
      else
        match splitHugePage pmm pd (pdIndex address) with
        | none => none
        | some (false, after) => some (false, after)
        | some (true, after) =>
            let pt := alignDown (entryAt after.ram pd (pdIndex address))
            let ptEntry := entryAt after.ram pt (ptIndex address)
            if !ptEntry.testBit presentBit then some (false, after)
            else some (true, { after with
              ram := setEntry after.ram pt (ptIndex address)
                (alignDown ptEntry ||| flags.toNat ||| pagePresent) })

/-- `pml4_virt_from_phys` gives a usable pointer: page aligned and inside the 4 GiB that
early boot maps. -/
def pml4Mapped (pml4Phys : Nat) : Bool := pml4Phys % 4096 = 0 && pml4Phys < 0x100000000

/-- The PML4 of a new directory: the kernel's entry 0 and upper half, else zero. -/
def copyKernelEntries (ram : Mem) (kernelRoot root : Nat) : Mem :=
  let zeroed := (List.range 512).foldl (fun ram index => setEntry ram root index 0) ram
  let low := setEntry zeroed root 0 (entryAt zeroed kernelRoot 0)
  (List.range 256).foldl (fun ram index =>
    setEntry ram root (256 + index) (entryAt ram kernelRoot (256 + index))) low

/-- From the point where the directory structure itself has been allocated; 0 is the
null result. -/
def vmmCreateAddressSpace (pmm : Pmm) (kernelRoot : Nat) : Option (Nat × Pmm) :=
  match pmmAllocPage pmm with
  | none => none
  | some (root, after) =>
      if root = 0 then some (0, after)
      else if !pml4Mapped root || !pml4Mapped kernelRoot then some (0, pmmFreePage after root)
      else some (root, { after with ram := copyKernelEntries after.ram kernelRoot root })

/-- The frames that `vmm_destroy_address_space` hands to `pmm_free_page` below one
level-1 table, then the table itself. -/
def freedPt (ram : Mem) (pt : Nat) : List Nat :=
  ((List.range 512).flatMap fun index =>
    let entry := entryAt ram pt index
    if entry.testBit presentBit then [alignDown entry] else []) ++ [pt]

def freedPd (ram : Mem) (pd : Nat) : List Nat :=
  ((List.range 512).flatMap fun index =>
    let entry := entryAt ram pd index
    if entry.testBit presentBit && !entry.testBit hugeBit then freedPt ram (alignDown entry)
    else []) ++ [pd]

def freedPdp (ram : Mem) (pdp : Nat) : List Nat :=
  ((List.range 512).flatMap fun index =>
    let entry := entryAt ram pdp index
    if entry.testBit presentBit && !entry.testBit hugeBit then freedPd ram (alignDown entry)
    else []) ++ [pdp]

/-- Every call of `pmm_free_page` made by `vmm_destroy_address_space`, in order; freeing
changes the allocator's bitmap only, so the tables are read as they were. -/
def freedFrames (ram : Mem) (kernelRoot root : Nat) : List Nat :=
  ((List.range 256).flatMap fun index =>
    let entry := entryAt ram root index
    if entry.testBit presentBit && entry != entryAt ram kernelRoot index then
      freedPdp ram (alignDown entry)
    else []) ++ [root]

def vmmDestroyAddressSpace (pmm : Pmm) (kernelRoot root : Nat) : Pmm :=
  if root = kernelRoot then pmm
  else if !pml4Mapped root || !pml4Mapped kernelRoot then pmm
  else (freedFrames pmm.ram kernelRoot root).foldl pmmFreePage pmm

end Szczupak
