import Szczupak.Lib.ByteMemory
import Szczupak.Lib.Transition

/-!
The physical page allocator of `mm/pmm.c`: a bitmap with one bit for each managed
page, a used-page counter and a rotating search hint.  `ram` is the physical
memory the allocator zeroes through the direct map.
-/

namespace Szczupak

def pageSize : Nat := 4096
def maxMemoryPages : Nat := 1024 * 1024 * 1024 / 4096

def alignDown (value : Nat) : Nat := value / pageSize * pageSize

/-- `ALIGN_UP(x, PAGE_SIZE)` on a 64-bit value: the addition wraps. -/
def alignUp (value : Nat) : Nat := alignDown ((value + (pageSize - 1)) % 2 ^ 64)

structure Pmm where
  bitmap : Nat → BitVec 64
  totalPages : Nat
  usedPages : Nat
  start : Nat
  stop : Nat
  lastAllocHint : Nat
  ram : Mem

/-- Link-time addresses that `pmm_init` keeps out of the pool. -/
structure KernelSymbols where
  kernelEnd : UInt64
  p4Table : UInt64
  p3Table : UInt64
  p2Table : UInt64
  pmmBitmap : UInt64

def bitMask (bit : Nat) : BitVec 64 := 1#64 <<< (bit % 64)

def setWord (bitmap : Nat → BitVec 64) (index : Nat) (word : BitVec 64) : Nat → BitVec 64 :=
  fun other => if other = index then word else bitmap other

def bitmapSetBit (pmm : Pmm) (bit : Nat) : Pmm :=
  if bit ≥ pmm.totalPages then pmm
  else { pmm with
    bitmap := setWord pmm.bitmap (bit / 64) (pmm.bitmap (bit / 64) ||| bitMask bit) }

def bitmapClearBit (pmm : Pmm) (bit : Nat) : Pmm :=
  if bit ≥ pmm.totalPages then pmm
  else { pmm with
    bitmap := setWord pmm.bitmap (bit / 64) (pmm.bitmap (bit / 64) &&& ~~~bitMask bit) }

def bitmapTestBit (pmm : Pmm) (bit : Nat) : Bool :=
  if bit ≥ pmm.totalPages then true
  else (pmm.bitmap (bit / 64) &&& bitMask bit) != 0#64

def bitmapRangeIsClear (pmm : Pmm) (startPage count : Nat) : Bool :=
  if count = 0 then false
  else if startPage ≥ pmm.totalPages then false
  else if startPage + count > pmm.totalPages then false
  else (List.range count).all fun index => !bitmapTestBit pmm (startPage + index)

def markAddressUsed (pmm : Pmm) (address : Nat) : Pmm :=
  if address < pmm.start ∨ address ≥ pmm.stop then pmm
  else
    let page := (address - pmm.start) / pageSize
    if bitmapTestBit pmm page then pmm
    else { bitmapSetBit pmm page with usedPages := pmm.usedPages + 1 }

def pmmMarkUsed (pmm : Pmm) (start stop : Nat) : Pmm :=
  if start ≥ stop then pmm
  else
    let pageStart := alignDown start
    let pageEnd := alignUp stop
    (List.range ((pageEnd - pageStart) / pageSize)).foldl
      (fun state index => markAddressUsed state (pageStart + index * pageSize)) pmm

def pmmReserveRange (pmm : Pmm) (start stop : UInt64) : Pmm :=
  if start ≥ stop then pmm else pmmMarkUsed pmm start.toNat stop.toNat

/-- `pmm_mark_used(symbol, symbol + length)` for a static object of the kernel image. -/
def pmmMarkTable (pmm : Pmm) (symbol : UInt64) (length : Nat) : Pmm :=
  pmmMarkUsed pmm symbol.toNat ((symbol.toNat + length) % 2 ^ 64)

def pmmBoot (ram : Mem) : Pmm :=
  { bitmap := fun _ => 0, totalPages := 0, usedPages := 0, start := 0, stop := 0,
    lastAllocHint := 0, ram }

def pmmClamp (pmm : Pmm) : Pmm :=
  if pmm.totalPages > maxMemoryPages then
    { pmm with
      totalPages := maxMemoryPages
      stop := (pmm.start + maxMemoryPages * pageSize) % 2 ^ 64 }
  else pmm

def pmmClearBitmap (pmm : Pmm) : Pmm :=
  let entries := (pmm.totalPages + 63) / 64
  { pmm with
    bitmap := fun index => if index < entries then 0 else pmm.bitmap index
    usedPages := 0 }

/-- The low 2 MiB, the kernel image, the boot page tables and the bitmap itself. -/
def pmmReserveKernel (symbols : KernelSymbols) (pmm : Pmm) : Pmm :=
  let low := if pmm.start < 2 * 1024 * 1024 then pmmMarkUsed pmm pmm.start (2 * 1024 * 1024)
    else pmm
  let kernel := pmmMarkUsed low 0x100000 (alignUp symbols.kernelEnd.toNat)
  let p4 := pmmMarkTable kernel symbols.p4Table pageSize
  let p3 := pmmMarkTable p4 symbols.p3Table pageSize
  let p2 := pmmMarkTable p3 symbols.p2Table pageSize
  pmmMarkTable p2 symbols.pmmBitmap ((maxMemoryPages + 63) / 64 * 8)

def pmmInit (symbols : KernelSymbols) (pmm : Pmm) (memStart memEnd : UInt64) : Pmm :=
  if memStart ≥ memEnd then pmm
  else
    let total := (memEnd.toNat - memStart.toNat) / pageSize
    let sized := { pmm with start := memStart.toNat, stop := memEnd.toNat, totalPages := total }
    if total = 0 then sized
    else pmmReserveKernel symbols (pmmClearBitmap (pmmClamp sized))

/-- First page of the rotating search at which `count` clear pages start. -/
def findClearRange (pmm : Pmm) (count : Nat) : Option Nat :=
  let hint := pmm.lastAllocHint % pmm.totalPages
  ((List.range pmm.totalPages).map fun index => (hint + index) % pmm.totalPages).find?
    fun page => decide (page + count ≤ pmm.totalPages) && bitmapRangeIsClear pmm page count

def bitmapSetRange (pmm : Pmm) (page count : Nat) : Pmm :=
  (List.range count).foldl (fun state index => bitmapSetBit state (page + index)) pmm

def bitmapClearRange (pmm : Pmm) (page count : Nat) : Pmm :=
  (List.range count).foldl (fun state index => bitmapClearBit state (page + index)) pmm

/-- `pmm_alloc_pages`: the address handed out, 0 when there is no room.  `none` is
the division fault of `last_alloc_hint % pmm_total_pages` on an empty pool. -/
def pmmAllocPages (pmm : Pmm) (count : UInt32) : Option (Nat × Pmm) :=
  if count = 0 then some (0, pmm)
  else if pmm.totalPages = 0 then none
  else
    match findClearRange pmm count.toNat with
    | none => some (0, pmm)
    | some page =>
        let marked := bitmapSetRange pmm page count.toNat
        let result := pmm.start + page * pageSize
        some (result, { marked with
          usedPages := pmm.usedPages + count.toNat
          lastAllocHint := page + count.toNat
          ram := pmm.ram.fill result (count.toNat * pageSize) 0 })

def pmmAllocPage (pmm : Pmm) : Option (Nat × Pmm) := pmmAllocPages pmm 1

def pmmFreePages (pmm : Pmm) (address : Nat) (count : UInt32) : Pmm :=
  if count = 0 then pmm
  else if address < pmm.start ∨ address ≥ pmm.stop then pmm
  else if address % pageSize ≠ 0 then pmm
  else
    let page := (address - pmm.start) / pageSize
    if page + count.toNat > pmm.totalPages then pmm
    else if (List.range count.toNat).any fun index => !bitmapTestBit pmm (page + index) then pmm
    else
      let cleared := bitmapClearRange pmm page count.toNat
      { cleared with
        -- the counter is unsigned: a decrement below zero would wrap
        usedPages := (pmm.usedPages + 2 ^ 64 - count.toNat) % 2 ^ 64
        lastAllocHint := if page < pmm.lastAllocHint then page else pmm.lastAllocHint }

def pmmFreePage (pmm : Pmm) (address : Nat) : Pmm := pmmFreePages pmm address 1

end Szczupak
