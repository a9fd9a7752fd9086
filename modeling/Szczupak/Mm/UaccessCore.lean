import Szczupak.Mm.VmmCore

/-!
Copies between kernel buffers and user memory, `mm/uaccess.c`.  Kernel buffers are
addressed in `kernel`, user bytes live in physical memory `ram`, and `touched` records
every physical user byte in the order it is read or written, with the memory the page
was looked up in.  `dir` is the PML4 of the current user task, if there is one.
-/

namespace Szczupak

def userSpaceStart : Nat := 0x0000008000000000
def userSpaceEnd : Nat := 0x800000000000
def fastCopyThreshold : Nat := 64
def maxUserString : Nat := 16 * 1024 * 1024

def efault : Int := 14
def einval : Int := 22

structure UserAccess where
  virt : Nat
  phys : Nat
  tables : Mem

structure UserState where
  ram : Mem
  kernel : Mem
  touched : List UserAccess

def validateUserRange (addr size : Nat) : Int :=
  if addr = 0 then -efault
  else if addr < userSpaceStart then -efault
  else if addr ≥ userSpaceEnd then -efault
  else if size > userSpaceEnd then -einval
  else if addr > userSpaceEnd - size then -efault
  else 0

def entryAllows (entry : Nat) (write : Bool) : Bool :=
  entry.testBit presentBit && entry.testBit userBit && (!write || entry.testBit writeBit)

def checkPagePermissions (ram : Mem) (root virt : Nat) (write : Bool) : Bool :=
  if !pml4Mapped root then false
  else
    let pml4Entry := entryAt ram root (pml4Index virt)
    if !entryAllows pml4Entry write then false
    else
      let pdpEntry := entryAt ram (alignDown pml4Entry) (pdpIndex virt)
      if !entryAllows pdpEntry write then false
      else if pdpEntry.testBit hugeBit then true
      else
        let pdEntry := entryAt ram (alignDown pdpEntry) (pdIndex virt)
        if !entryAllows pdEntry write then false
        else if pdEntry.testBit hugeBit then true
        else entryAllows (entryAt ram (alignDown pdEntry) (ptIndex virt)) write

/-- The loop over pages shared by the copy calls.  `locate` is the permission check with
the lookup and gives the physical address of the first byte; `body` transfers the bytes
of one page.  Every turn transfers at least one byte, so `size` turns are enough. -/
def userPages (addr size : Nat) (locate : Mem → Nat → Option Nat)
    (body : Nat → Nat → Nat → UserState → UserState) : Nat → Nat → UserState → Int × UserState
  | 0, _, state => (0, state)
  | fuel + 1, done, state =>
      if done < size then
        match locate state.ram (addr + done) with
        | none => (-efault, state)
        | some base =>
            let pageOffset := (addr + done) % pageSize
            let chunk := if pageSize - pageOffset > size - done then size - done
              else pageSize - pageOffset
            userPages addr size locate body fuel (done + chunk) (body base done chunk state)
      else (0, state)

def locateFromUser (root : Nat) (ram : Mem) (vaddr : Nat) : Option Nat :=
  if !checkPagePermissions ram root vaddr false then none
  else
    let phys := vmmGetPhysical ram root (UInt64.ofNat vaddr)
    if phys = 0 then none else some (alignDown phys + vaddr % pageSize)

def readByte (tables : Mem) (dst addr done base : Nat) (state : UserState) (index : Nat) :
    UserState :=
  { state with
    kernel := state.kernel.set (dst + (done + index)) (state.ram (base + index))
    touched := state.touched ++ [⟨addr + (done + index), base + index, tables⟩] }

def copyFromUser (start : UserState) (dir : Option Nat) (dst src size : UInt64) : Int × UserState :=
  if dst = 0 ∨ src = 0 ∨ size = 0 then (-einval, start)
  else
    let ret := validateUserRange src.toNat size.toNat
    if ret ≠ 0 then (ret, start)
    else
      match dir with
      | none => (-efault, start)
      | some root =>
          userPages src.toNat size.toNat (locateFromUser root)
            (fun base done chunk state => (List.range chunk).foldl
              (readByte state.ram dst.toNat src.toNat done base) state)
            size.toNat 0 start

/-- `copy_to_user` looks the page up before it checks it. -/
def locateToUser (root : Nat) (ram : Mem) (vaddr : Nat) : Option Nat :=
  let phys := vmmGetPhysical ram root (UInt64.ofNat vaddr)
  if phys = 0 then none
  else if !checkPagePermissions ram root vaddr true then none
  else some (alignDown phys + vaddr % pageSize)

def writeByte (tables : Mem) (src addr done base : Nat) (state : UserState) (index : Nat) :
    UserState :=
  { state with
    ram := state.ram.set (base + index) (state.kernel (src + (done + index)))
    touched := state.touched ++ [⟨addr + (done + index), base + index, tables⟩] }

def copyToUser (start : UserState) (dir : Option Nat) (dst src size : UInt64) : Int × UserState :=
  if dst = 0 ∨ src = 0 ∨ size = 0 then (-einval, start)
  else
    let ret := validateUserRange dst.toNat size.toNat
    if ret ≠ 0 then (ret, start)
    else
      match dir with
      | none => (-efault, start)
      | some root =>
          userPages dst.toNat size.toNat (locateToUser root)
            (fun base done chunk state => (List.range chunk).foldl
              (writeByte state.ram src.toNat dst.toNat done base) state)
            size.toNat 0 start

/-- `clear_user` checks and looks up the start of the page. -/
def locateClear (root : Nat) (ram : Mem) (vaddr : Nat) : Option Nat :=
  if !checkPagePermissions ram root (alignDown vaddr) true then none
  else
    let phys := vmmGetPhysical ram root (UInt64.ofNat (alignDown vaddr))
    if phys = 0 then none else some (alignDown phys + vaddr % pageSize)

def clearByte (tables : Mem) (addr done base : Nat) (state : UserState) (index : Nat) :
    UserState :=
  { state with
    ram := state.ram.set (base + index) 0
    touched := state.touched ++ [⟨addr + (done + index), base + index, tables⟩] }

def clearQword (tables : Mem) (addr done base : Nat) (state : UserState) (index : Nat) :
    UserState :=
  { state with
    ram := state.ram.writeU64 (base + 8 * index) 0
    touched := state.touched ++ (List.range 8).map fun byte =>
      ⟨addr + (done + (8 * index + byte)), base + (8 * index + byte), tables⟩ }

/-- One page of `clear_user`: quadwords first when the page part is long and aligned, then
the bytes that are left. -/
def clearChunk (addr base done chunk : Nat) (state : UserState) : UserState :=
  let fast := if chunk ≥ fastCopyThreshold ∧ base % 8 = 0 then chunk / 8 * 8 else 0
  let quick := (List.range (fast / 8)).foldl (clearQword state.ram addr done base) state
  (List.range (chunk - fast)).foldl
    (clearByte state.ram addr (done + fast) (base + fast)) quick

def clearUser (start : UserState) (dir : Option Nat) (dst size : UInt64) : Int × UserState :=
  if dst = 0 ∨ size = 0 then (-einval, start)
  else
    let ret := validateUserRange dst.toNat size.toNat
    if ret ≠ 0 then (ret, start)
    else
      match dir with
      | none => (-efault, start)
      | some root =>
          userPages dst.toNat size.toNat (locateClear root) (clearChunk dst.toNat) size.toNat 0 start

/-- The loop of the verify calls over whole pages, `endPage` included. -/
def verifyPages (ram : Mem) (root endPage : Nat) (write : Bool) : Nat → Nat → Int
  | 0, _ => 0
  | turns + 1, page =>
      if page ≤ endPage then
        if !checkPagePermissions ram root page write then -efault
        else verifyPages ram root endPage write turns (page + pageSize)
      else 0

def verifyUser (write : Bool) (ram : Mem) (dir : Option Nat) (ptr size : UInt64) : Int :=
  if ptr = 0 ∨ size = 0 then -einval
  else
    let ret := validateUserRange ptr.toNat size.toNat
    if ret ≠ 0 then ret
    else
      match dir with
      | none => -efault
      | some root =>
          let startPage := alignDown ptr.toNat
          let endPage := alignDown (ptr.toNat + size.toNat - 1)
          verifyPages ram root endPage write ((endPage - startPage) / pageSize + 1) startPage

def verifyUserRead : Mem → Option Nat → UInt64 → UInt64 → Int := verifyUser false
def verifyUserWrite : Mem → Option Nat → UInt64 → UInt64 → Int := verifyUser true

def strnlenPage (ram : Mem) (maxLen : Nat) : Nat → Nat → Nat → Bool × Nat
  | 0, _, len => (false, len)
  | room + 1, pagePtr, len =>
      if len < maxLen then
        if ram pagePtr = 0 then (true, len) else strnlenPage ram maxLen room (pagePtr + 1) (len + 1)
      else (false, len)

/-- The loop of `strnlen_user` over pages.  Every turn counts at least one byte, so `maxLen` turns
are enough. -/
def strnlenPages (ram : Mem) (root strAddr maxLen : Nat) : Nat → Nat → Int
  | 0, _ => maxLen
  | turns + 1, len =>
      if len < maxLen then
        let pageAddr := alignDown (strAddr + len)
        let pageOffset := (strAddr + len) % pageSize
        if strAddr + len ≥ userSpaceEnd then -efault
        else if !checkPagePermissions ram root pageAddr false then -efault
        else
          let phys := vmmGetPhysical ram root (UInt64.ofNat pageAddr)
          if phys = 0 then -efault
          else
            match strnlenPage ram maxLen (pageSize - pageOffset) (alignDown phys + pageOffset) len with
            | (true, len) => len
            | (false, len) => strnlenPages ram root strAddr maxLen turns len
      else maxLen

def strnlenUser (ram : Mem) (dir : Option Nat) (userStr maxLen : UInt64) : Int :=
  if userStr = 0 then -efault
  else
    let maxLen := if maxLen.toNat > maxUserString then maxUserString else maxLen.toNat
    let ret := validateUserRange userStr.toNat 1
    if ret ≠ 0 then ret
    else
      match dir with
      | none => -efault
      | some root => strnlenPages ram root userStr.toNat maxLen maxLen 0

/-- `touched` records the bytes that are copied, not those that are only measured. -/
def strncpyFromUser (start : UserState) (dir : Option Nat) (kernelDst userSrc maxLen : UInt64) :
    Int × UserState :=
  if kernelDst = 0 ∨ userSrc = 0 ∨ maxLen = 0 then (-einval, start)
  else
    let len := strnlenUser start.ram dir userSrc (maxLen - 1)
    if len < 0 then (len, start)
    else
      let copied := copyFromUser start dir kernelDst userSrc (UInt64.ofNat len.toNat)
      if copied.1 ≠ 0 then copied
      else (len, { copied.2 with kernel := copied.2.kernel.set (kernelDst.toNat + len.toNat) 0 })

end Szczupak
