import Szczupak.Lib.ByteMemory
import Szczupak.Lib.Transition

/-!
The kernel heap of `mm/heap.c`.  Block headers live in the heap storage itself, as
40 bytes of little-endian fields in front of each payload; a null pointer is 0.
`storage` is the address of the static array `heap_storage`.  Calls run one after
another, so `heap_lock_acquire` always gets the lock.
-/

namespace Szczupak

def heapMagic : Nat := 0xABCD1234
def heapMinSize : Nat := 16
def heapBytes : Nat := 256 * 4096
def heapMaxSteps : Nat := 65536

/-- `sizeof(heap_block_t)` with its padding: magic at 0, size at 8, free at 16, next
at 24, prev at 32. -/
def headerSize : Nat := 40

def blockMagic (mem : Mem) (block : Nat) : Nat := mem.readU32 block
def blockSize (mem : Mem) (block : Nat) : Nat := mem.readU64 (block + 8)
def blockFree (mem : Mem) (block : Nat) : Bool := mem (block + 16) != 0
def blockNext (mem : Mem) (block : Nat) : Nat := mem.readU64 (block + 24)
def blockPrev (mem : Mem) (block : Nat) : Nat := mem.readU64 (block + 32)

def setMagic (mem : Mem) (block value : Nat) : Mem := mem.writeU32 block value
def setSize (mem : Mem) (block value : Nat) : Mem := mem.writeU64 (block + 8) value
def setFree (mem : Mem) (block : Nat) (value : Bool) : Mem :=
  mem.set (block + 16) (if value then 1 else 0)
def setNext (mem : Mem) (block value : Nat) : Mem := mem.writeU64 (block + 24) value
def setPrev (mem : Mem) (block value : Nat) : Mem := mem.writeU64 (block + 32) value

def heapBlockPtrValid (storage block : Nat) : Bool :=
  block ≠ 0 && storage ≤ block && (block + headerSize) % 2 ^ 64 ≤ storage + heapBytes

def heapMergeNext (storage : Nat) (mem : Mem) (block : Nat) : Mem :=
  if !heapBlockPtrValid storage block then mem
  else
    let next := blockNext mem block
    if !heapBlockPtrValid storage next then mem
    else if blockMagic mem next ≠ heapMagic || !blockFree mem next then mem
    else
      let blockEnd := (block + headerSize + blockSize mem block) % 2 ^ 64
      if blockEnd ≠ next then mem
      else
        let after := blockNext mem next
        let grown := setSize mem block (blockSize mem block + (headerSize + blockSize mem next))
        let linked := setNext grown block after
        if heapBlockPtrValid storage after then setPrev linked after block else linked

def heapInit (storage : Nat) (mem : Mem) : Mem :=
  let magic := setMagic mem storage heapMagic
  let sized := setSize magic storage (heapBytes - headerSize)
  let free := setFree sized storage true
  let next := setNext free storage 0
  setPrev next storage 0

/-- Cut the tail of `current` off as a new free block behind `size` payload bytes. -/
def splitBlock (mem : Mem) (current size : Nat) : Mem :=
  let newBlock := current + headerSize + size
  let magic := setMagic mem newBlock heapMagic
  let sized := setSize magic newBlock (blockSize magic current - size - headerSize)
  let free := setFree sized newBlock true
  let next := setNext free newBlock (blockNext free current)
  let prev := setPrev next newBlock current
  let back := if blockNext prev current ≠ 0 then setPrev prev (blockNext prev current) newBlock
    else prev
  setSize (setNext back current newBlock) current size

/-- The search loop of `kmalloc`; `fuel` is what is left of `HEAP_MAX_STEPS`. -/
def kmallocFrom (storage size : Nat) : Nat → Mem → Nat → Nat × Mem
  | 0, mem, _ => (0, mem)
  | fuel + 1, mem, current =>
      if current = 0 then (0, mem)
      else if !heapBlockPtrValid storage current then (0, mem)
      else if blockMagic mem current ≠ heapMagic then (0, mem)
      else
        let merged := if blockFree mem current then heapMergeNext storage mem current else mem
        if blockFree merged current && size ≤ blockSize merged current then
          let taken := if blockSize merged current > (size + headerSize + heapMinSize) % 2 ^ 64 then
              splitBlock merged current size
            else merged
          (current + headerSize, setFree taken current false)
        else if blockNext merged current ≠ 0 &&
            !heapBlockPtrValid storage (blockNext merged current) then (0, merged)
        else kmallocFrom storage size fuel merged (blockNext merged current)

def roundRequest (size : Nat) : Nat :=
  let atLeast := if size < heapMinSize then heapMinSize else size
  (atLeast + 7) % 2 ^ 64 / 8 * 8

def kmalloc (storage : Nat) (mem : Mem) (size : UInt64) : Nat × Mem :=
  if size = 0 then (0, mem)
  else kmallocFrom storage (roundRequest size.toNat) heapMaxSteps mem storage

def kfree (storage : Nat) (mem : Mem) (ptr : Nat) : Mem :=
  if ptr = 0 then mem
  else
    let block := (ptr + 2 ^ 64 - headerSize) % 2 ^ 64
    if !heapBlockPtrValid storage block then mem
    else if blockMagic mem block ≠ heapMagic then mem
    else if blockFree mem block then mem
    else
      let freed := setFree mem block true
      let merged := heapMergeNext storage freed block
      let prev := blockPrev merged block
      if heapBlockPtrValid storage prev && blockMagic merged prev = heapMagic &&
          blockFree merged prev then
        heapMergeNext storage merged prev
      else merged

def kcalloc (storage : Nat) (mem : Mem) (num size : UInt64) : Nat × Mem :=
  if num = 0 || size = 0 then (0, mem)
  else
    let total := num * size
    if total / num ≠ size then (0, mem)
    else
      let (ptr, after) := kmalloc storage mem total
      if ptr = 0 then (0, after) else (ptr, after.fill ptr total.toNat 0)

/-- The byte loop of `krealloc`; the old block's size is read again on every turn. -/
def reallocCopy (block target source limit : Nat) : Nat → Mem → Nat → Mem
  | 0, mem, _ => mem
  | fuel + 1, mem, index =>
      if index < blockSize mem block && index < limit then
        reallocCopy block target source limit fuel
          (mem.set (target + index) (mem (source + index))) (index + 1)
      else mem

def krealloc (storage : Nat) (mem : Mem) (ptr : Nat) (size : UInt64) : Nat × Mem :=
  if ptr = 0 then kmalloc storage mem size
  else if size = 0 then (0, kfree storage mem ptr)
  else
    let block := (ptr + 2 ^ 64 - headerSize) % 2 ^ 64
    if blockMagic mem block ≠ heapMagic then (0, mem)
    else if blockSize mem block ≥ size.toNat then (ptr, mem)
    else
      let (newPtr, after) := kmalloc storage mem size
      if newPtr = 0 then (0, after)
      else
        let copied := reallocCopy block newPtr ptr size.toNat size.toNat after 0
        (newPtr, kfree storage copied ptr)

end Szczupak
