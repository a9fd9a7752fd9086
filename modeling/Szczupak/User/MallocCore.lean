/-!
The allocator of `userland/lib/stdlib.c`: a pointer that only grows.  Memory takes every write.
-/

namespace Szczupak.User

structure UserHeap where
  heapEnd : UInt64
  mem : UInt64 → UInt8

def heapStart : UInt64 := 0x10000000
def heapSize : UInt64 := 0x100000

def malloc (size : UInt64) (heap : UserHeap) : UInt64 × UserHeap :=
  if size = 0 then (0, heap)
  else
    let size := (size + 7) &&& ~~~7
    if heap.heapEnd + size > heapStart + heapSize then (0, heap)
    else (heap.heapEnd, { heap with heapEnd := heap.heapEnd + size })

def calloc (nmemb size : UInt64) (heap : UserHeap) : UInt64 × UserHeap :=
  if nmemb = 0 ∨ size = 0 then (0, heap)
  else if nmemb > 0xFFFFFFFFFFFFFFFF / size then (0, heap)
  else
    let total := nmemb * size
    let (ptr, heap) := malloc total heap
    if ptr ≠ 0 then
      (ptr, { heap with mem := fun address => if address - ptr < total then 0 else heap.mem address })
    else (ptr, heap)

inductive AllocCall where
  | malloc (size : UInt64)
  | calloc (nmemb size : UInt64)
deriving DecidableEq

def AllocCall.requested : AllocCall → Nat
  | .malloc size => size.toNat
  | .calloc nmemb size => nmemb.toNat * size.toNat

def AllocCall.run : AllocCall → UserHeap → UInt64 × UserHeap
  | .malloc size => Szczupak.User.malloc size
  | .calloc nmemb size => Szczupak.User.calloc nmemb size

structure Block where
  address : UInt64
  size : Nat
deriving DecidableEq

structure AllocRun where
  heap : UserHeap
  blocks : List Block

def allocStart (mem : UInt64 → UInt8) : AllocRun := ⟨⟨heapStart, mem⟩, []⟩

def allocStep (run : AllocRun) (call : AllocCall) : Option AllocRun :=
  let (ptr, heap) := call.run run.heap
  some ⟨heap, if ptr = 0 then run.blocks else ⟨ptr, call.requested⟩ :: run.blocks⟩

end Szczupak.User
