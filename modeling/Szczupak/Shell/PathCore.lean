import Szczupak.Fs.VfsCore

/-!
`normalize_path` of the shell, `userland/programs/shell.c`, and `shell_normalize_path` of the
desktop, `userland/programs/desktop/shell.c`.  They differ in the sizes of their buffers.  The
output is the list of its first `out_len` bytes; a return of -1 gives none.
-/

namespace Szczupak

def shellMaxPath : Nat := 256

def shellPathMax : Nat := 128

def combinePath (size : Nat) (cwd input : List UInt8) : Option (List UInt8) :=
  if input.head? = some 47 then
    if input.length ≥ size then none else some input
  else
    let needSlash := if cwd.length > 0 ∧ cwd.getLast? ≠ some 47 then 1 else 0
    if cwd.length + needSlash + input.length ≥ size then none
    else some (cwd ++ List.replicate needSlash 47 ++ input)

/-- `p` goes back, not below 1, while the byte in front of it passes. -/
def scanBack (out : List UInt8) (test : UInt8 → Bool) : Nat → Nat
  | 0 => 0
  | 1 => 1
  | p + 2 => if test (out.getD (p + 1) 0) then scanBack out test (p + 1) else p + 2

def popSegment (out : List UInt8) : List UInt8 :=
  if out.length > 1 then
    let p := scanBack out (· == 47) out.length
    let p := scanBack out (· != 47) p
    out.take (if p > 1 then p - 1 else 1)
  else out

def appendSegment (outSize : Nat) (out segment : List UInt8) : Option (List UInt8) :=
  if out.length + segment.length ≥ outSize then none else some (out ++ segment)

def pushSegment (segmentSize outSize : Nat) (out segment : List UInt8) : Option (List UInt8) :=
  if segment.length ≥ segmentSize then none
  else if segment = [46] then some out
  else if segment = [46, 46] then some (popSegment out)
  else if out.length > 1 then
    if out.length + 1 ≥ outSize then none else appendSegment outSize (out ++ [47]) segment
  else appendSegment outSize out segment

def normalizeWith (combinedSize segmentSize : Nat) (cwd input : List UInt8) (outSize : Nat) :
    Option (List UInt8) :=
  if outSize < 2 then none
  else
    match combinePath combinedSize cwd input with
    | none => none
    | some combined => (pathTokens combined).foldlM (pushSegment segmentSize outSize) [47]

def normalizePath : List UInt8 → List UInt8 → Nat → Option (List UInt8) :=
  normalizeWith shellMaxPath shellMaxPath

def shellNormalizePath : List UInt8 → List UInt8 → Nat → Option (List UInt8) :=
  normalizeWith (shellPathMax * 2) shellPathMax

end Szczupak
