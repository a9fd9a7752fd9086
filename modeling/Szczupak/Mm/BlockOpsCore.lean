import Szczupak.Lib.ByteMemory

/-!
`memset`, `memcpy` and `memmove` of `kernel/string.c`.  No range goes beyond the last address,
so addresses are numbers that do not wrap.
-/

namespace Szczupak.KernelString

structure FillState where
  p : Nat
  n : Nat
  mem : Mem

def FillState.putByte (st : FillState) (val : UInt8) : FillState :=
  ⟨st.p + 1, st.n - 1, st.mem.set st.p val⟩

def FillState.putWord (st : FillState) (val64 : UInt64) : FillState :=
  ⟨st.p + 8, st.n - 8, st.mem.writeU64 st.p val64.toNat⟩

def memsetHead (val : UInt8) (st : FillState) : FillState :=
  if st.p % 8 ≠ 0 ∧ st.n ≠ 0 then memsetHead val (st.putByte val) else st
termination_by st.n
decreasing_by
  dsimp only [FillState.putByte]
  omega

def memsetWords (val64 : UInt64) (st : FillState) : FillState :=
  if 8 ≤ st.n then memsetWords val64 (st.putWord val64) else st
termination_by st.n
decreasing_by
  dsimp only [FillState.putWord]
  omega

def memsetTail (val : UInt8) (st : FillState) : FillState :=
  if st.n ≠ 0 then memsetTail val (st.putByte val) else st
termination_by st.n
decreasing_by
  dsimp only [FillState.putByte]
  omega

def repeatByte (val : UInt8) : UInt64 :=
  let val64 := val.toUInt64
  let val64 := val64 ||| val64 <<< 8
  let val64 := val64 ||| val64 <<< 16
  val64 ||| val64 <<< 32

def memset (s : Nat) (c : Int32) (n : Nat) (mem : Mem) : Nat × Mem :=
  let val := c.toUInt32.toUInt8
  let st := memsetHead val ⟨s, n, mem⟩
  let st := if 8 ≤ st.n then memsetWords (repeatByte val) st else st
  (s, (memsetTail val st).mem)

structure CopyState where
  d : Nat
  s : Nat
  n : Nat
  mem : Mem

def CopyState.copyByte (st : CopyState) : CopyState :=
  ⟨st.d + 1, st.s + 1, st.n - 1, st.mem.set st.d (st.mem st.s)⟩

def CopyState.copyWord (st : CopyState) : CopyState :=
  ⟨st.d + 8, st.s + 8, st.n - 8, st.mem.writeU64 st.d (st.mem.readU64 st.s)⟩

/-- The eight assignments one after the other. -/
def CopyState.copyBlock (st : CopyState) : CopyState :=
  st.copyWord.copyWord.copyWord.copyWord.copyWord.copyWord.copyWord.copyWord

def memcpyHead (st : CopyState) : CopyState :=
  if st.d % 8 ≠ 0 ∧ st.s % 8 ≠ 0 ∧ st.n ≠ 0 then memcpyHead st.copyByte else st
termination_by st.n
decreasing_by
  dsimp only [CopyState.copyByte]
  omega

def memcpyBlocks (st : CopyState) : CopyState :=
  if 64 ≤ st.n then memcpyBlocks st.copyBlock else st
termination_by st.n
decreasing_by
  dsimp only [CopyState.copyBlock, CopyState.copyWord]
  omega

def memcpyWords (st : CopyState) : CopyState :=
  if 8 ≤ st.n then memcpyWords st.copyWord else st
termination_by st.n
decreasing_by
  dsimp only [CopyState.copyWord]
  omega

def memcpyTail (st : CopyState) : CopyState :=
  if st.n ≠ 0 then memcpyTail st.copyByte else st
termination_by st.n
decreasing_by
  dsimp only [CopyState.copyByte]
  omega

def memcpy (dest src n : Nat) (mem : Mem) : Nat × Mem :=
  let st := memcpyHead ⟨dest, src, n, mem⟩
  let st := if 8 ≤ st.n ∧ ¬(st.d % 8 ≠ 0 ∨ st.s % 8 ≠ 0) then memcpyWords (memcpyBlocks st) else st
  (dest, (memcpyTail st).mem)

def memmoveDown : Nat → Nat → Nat → Mem → Mem
  | 0, _, _, mem => mem
  | n + 1, d, s, mem => memmoveDown n (d - 1) (s - 1) (mem.set (d - 1) (mem (s - 1)))

def memmove (dest src n : Nat) (mem : Mem) : Nat × Mem :=
  if dest < src then memcpy dest src n mem
  else if dest > src then (dest, memmoveDown n (dest + n) (src + n) mem)
  else (dest, mem)

end Szczupak.KernelString
