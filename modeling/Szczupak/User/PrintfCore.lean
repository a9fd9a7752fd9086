import Szczupak.Lib.Recorded
import Szczupak.User.StdlibCore

/-!
`printf` of `userland/lib/stdio.c`.  The offsets of the format that are read are recorded; a run
that has not ended after some turns is `none`.
-/

namespace Szczupak.User

/-- A text in memory: its bytes from some address on, and the place of the first NUL. -/
structure CString where
  byte : Nat → UInt8
  length : Nat
  ended : byte length = 0
  plain : ∀ index < length, byte index ≠ 0

def CString.text (string : CString) : List UInt8 := (List.range string.length).map string.byte

/-- The arguments by the number of the `va_arg` that takes them, and the strings by their addresses.
-/
structure PrintfArgs where
  slot : Nat → UInt64
  string : UInt64 → CString

structure PrintState where
  buffer : List UInt8
  taken : Nat

structure PrintfOutcome where
  written : List (List UInt8)
  returned : Int
deriving DecidableEq

def printfLimit : Nat := 1023

def putByte (buffer : List UInt8) (c : UInt8) : List UInt8 :=
  if buffer.length < printfLimit then buffer ++ [c] else buffer

def putBytes (buffer text : List UInt8) : List UInt8 := text.foldl putByte buffer

/-- The loop of `%s`, which stays where it is while the buffer is full. -/
def copyString : Nat → List UInt8 → List UInt8 → Option (List UInt8)
  | _, [], buffer => some buffer
  | 0, _ :: _, _ => none
  | turns + 1, c :: s, buffer =>
      if buffer.length < printfLimit then copyString turns s (buffer ++ [c])
        else copyString turns (c :: s) buffer

def hexDigit (upper : Bool) (digit : Nat) : UInt8 :=
  if digit < 10 then UInt8.ofNat (48 + digit)
    else UInt8.ofNat ((if upper then 65 else 97) + (digit - 10))

def hexText (upper : Bool) (val : UInt64) : List UInt8 :=
  if val = 0 then [48] else (tmpDigits (hexDigit upper) 16 val).reverse

def signedArg (isLong : Bool) (slot : UInt64) : Int64 :=
  if isLong then slot.toInt64 else slot.toUInt32.toInt32.toInt64

def unsignedArg (isLong : Bool) (slot : UInt64) : UInt64 := if isLong then slot
    else slot.toUInt32.toUInt64

/-- `(null)` stands for every address outside user space. -/
def stringArg (args : PrintfArgs) (slot : UInt64) : List UInt8 :=
  if slot < 0x400000 ∨ slot ≥ 0x800000000000 then cText "(null)" else (args.string slot).text

/-- One conversion by its last character; any other character prints nothing. -/
def convert (args : PrintfArgs) (turns : Nat) (isLong : Bool) (c : UInt8)
    (st : PrintState) : Option PrintState :=
  let slot := args.slot st.taken
  if c = 100 then
    some ⟨putBytes st.buffer (bufferText (itoa (signedArg isLong slot)).2), st.taken + 1⟩
  else if c = 117 then
    some ⟨putBytes st.buffer (bufferText (uitoa (unsignedArg isLong slot)).2), st.taken + 1⟩
  else if c = 120 ∨ c = 88 then
    some ⟨putBytes st.buffer (hexText (c = 88) (unsignedArg isLong slot)), st.taken + 1⟩
  else if c = 99 then some ⟨putByte st.buffer slot.toUInt8, st.taken + 1⟩
  else if c = 115 then (copyString turns (stringArg args slot) st.buffer).map fun buffer =>
    ⟨buffer, st.taken + 1⟩
  else if c = 37 then some { st with buffer := putByte st.buffer 37 }
  else some st

def printfLoop (fmt : Nat → UInt8) (args : PrintfArgs) : Nat → Nat → PrintState →
    Recorded Nat (Option PrintState)
  | 0, _, _ => return none
  | turns + 1, p, st => do
      Recorded.tell p
      if fmt p = 0 then return some st
      else if fmt p = 37 then do
        Recorded.tell (p + 1)
        let isLong := fmt (p + 1) == 108
        let p := if isLong then p + 2 else p + 1
        Recorded.tell p
        match convert args turns isLong (fmt p) st with
        | none => return none
        | some st => printfLoop fmt args turns (p + 1) st
      else printfLoop fmt args turns (p + 1) { st with buffer := putByte st.buffer (fmt p) }

def printf (fmt : Nat → UInt8) (args : PrintfArgs) (turns : Nat) :
    Recorded Nat (Option PrintfOutcome) := do
  let st ← printfLoop fmt args turns 0 ⟨[], 0⟩
  return st.map fun st =>
    { written := if st.buffer.length > 0 then [st.buffer] else [], returned := st.buffer.length }

end Szczupak.User
