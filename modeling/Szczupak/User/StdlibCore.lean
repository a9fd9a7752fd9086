import Szczupak.Lib.Numeral

/-!
Numbers and texts of `userland/lib/stdlib.c`.  A buffer is the bytes that are written to it,
with the final NUL.  A text
that is read is the bytes from its start on; behind the last of them a NUL is read.
-/

namespace Szczupak.User

def bufferText (buffer : List UInt8) : List UInt8 := buffer.takeWhile (· != 0)

def skipSpaces (s : List UInt8) : List UInt8 := s.dropWhile (· == 32)

/-- The digits at the front, added up by words that wrap. -/
def atoiDigits (s : List UInt8) : Int64 :=
  (s.takeWhile isDigit).foldl (fun result c => result * 10 + Int64.ofNat (digitOf c)) 0

def atoi (s : List UInt8) : Int64 :=
  match skipSpaces s with
  | 45 :: s => atoiDigits s * -1
  | 43 :: s => atoiDigits s * 1
  | s => atoiDigits s * 1

def atoul (s : List UInt8) : UInt64 :=
  ((skipSpaces s).takeWhile isDigit).foldl (fun result c => result * 10 + UInt64.ofNat (digitOf c)) 0

def tmpDigits (digit : Nat → UInt8) (base : Nat) (val : UInt64) : List UInt8 :=
  (lowDigits digit base 64 val.toNat).1

def itoa (val : Int64) : Nat × List UInt8 :=
  if val = 0 then (1, [48, 0])
  else
    let uval := if val < 0 then -val.toUInt64 else val.toUInt64
    let text := (if val < 0 then [45] else []) ++ (tmpDigits decimalDigit 10 uval).reverse
    (text.length, text ++ [0])

def uitoa (val : UInt64) : Nat × List UInt8 :=
  if val = 0 then (1, [48, 0])
  else
    let text := (tmpDigits decimalDigit 10 val).reverse
    (text.length, text ++ [0])

end Szczupak.User
