import Szczupak.Mm.VmmCore

/-!
`task_build_user_args` of `task/task.c`: the command line is cut into arguments in a buffer on the
kernel stack, which
are copied to the user stack below a gap.  `buffer` holds the bytes up to the NUL; offsets into
it stand for the
pointers.  A call that fails leaves nothing of use, its caller gives the address space back.
-/

namespace Szczupak

def userStackSize : Nat := 32 * 4096
def userStackTop : Nat := 0x8002000000
def userArgMax : Nat := 32
def userCmdlineMax : Nat := 512
def userArgRegionGap : Nat := 4096

structure ArgString where
  bytes : List UInt8
  noNul : 0 ∉ bytes

def taskIsSpace (c : UInt8) : Bool := c = 32 || c = 9 || c = 10 || c = 13

/-- The loop of `task_write_user`; each turn copies a byte at least. -/
def taskWriteLoop (root : Nat) : Nat → Nat → List UInt8 → Mem → Option Mem
  | 0, _, _, ram => some ram
  | turns + 1, cur, bytes, ram =>
      if bytes = [] then some ram
      else
        let phys := vmmGetPhysical ram root (UInt64.ofNat cur)
        if phys = 0 then none
        else
          let pageOff := cur % 4096
          let chunk := min (4096 - pageOff) bytes.length
          taskWriteLoop root turns (cur + chunk) (bytes.drop chunk)
          (ram.store (alignDown phys + pageOff) (bytes.take chunk))

def taskWriteUser (root userAddr : Nat) (bytes : List UInt8) (ram : Mem) : Option Mem :=
  if bytes = [] then none else taskWriteLoop root bytes.length userAddr bytes ram

def taskWriteUserU64 (root userAddr value : Nat) (ram : Mem) : Option Mem :=
  taskWriteUser root userAddr (Mem.leBytes 8 value) ram

def stringAt (buffer : List UInt8) (offset : Nat) : List UInt8 :=
  (buffer.drop offset).takeWhile (· ≠ 0)

/-- `cmd_buf` after a copy of at most 511 bytes. -/
def cmdBuffer (source : List UInt8) : List UInt8 := source.take (userCmdlineMax - 1) ++ [0]

def skipWhile (test : UInt8 → Bool) (buffer : List UInt8) : Nat → Nat → Nat
  | 0, p => p
  | turns + 1, p => if test (buffer.getD p 0) then skipWhile test buffer turns (p + 1) else p

def inToken (c : UInt8) : Bool := c ≠ 0 && !taskIsSpace c

/-- The loop that cuts the buffer, with the arguments found so far. -/
def tokenLoop : Nat → Nat → List Nat → List UInt8 → List Nat × List UInt8
  | 0, _, args, buffer => (args, buffer)
  | turns + 1, p, args, buffer =>
      if buffer.getD p 0 ≠ 0 ∧ args.length < userArgMax then
        let start := skipWhile taskIsSpace buffer buffer.length p
        if buffer.getD start 0 = 0 then (args, buffer)
        else
          let stop := skipWhile inToken buffer buffer.length start
          if buffer.getD stop 0 ≠ 0 then tokenLoop turns (stop + 1) (args ++ [start]) (buffer.set stop 0)
          else tokenLoop turns stop (args ++ [start]) buffer
      else (args, buffer)

def commandArgs (fallbackName cmdline : List UInt8) : List Nat × List UInt8 :=
  let source := if cmdline = [] then fallbackName else cmdline
  let cut := tokenLoop (cmdBuffer source).length 0 [] (cmdBuffer source)
  if cut.1 = [] then ([0], cmdBuffer fallbackName) else cut

def writeStrings (root stackBottom : Nat) (buffer : List UInt8) :
    List Nat → Nat → List Nat → Mem → Option (Nat × List Nat × Mem)
  | [], sp, ptrs, ram => some (sp, ptrs, ram)
  | arg :: rest, sp, ptrs, ram =>
      let bytes := stringAt buffer arg ++ [0]
      if sp < stackBottom + bytes.length then none
      else
        match taskWriteUser root (sp - bytes.length) bytes ram with
        | none => none
        | some ram => writeStrings root stackBottom buffer rest (sp - bytes.length)
          ((sp - bytes.length) :: ptrs) ram

def writePointers (root : Nat) : Nat → List Nat → Mem → Option Mem
  | _, [], ram => some ram
  | addr, ptr :: rest, ram =>
      match taskWriteUserU64 root addr ptr ram with
      | none => none
      | some ram => writePointers root (addr + 8) rest ram

structure UserArgs where
  rsp : Nat
  argc : Nat
  argv : Nat

def writeTable (root tableBase : Nat) (ptrs : List Nat) (ram : Mem) : Option (UserArgs × Mem) :=
  match taskWriteUserU64 root tableBase ptrs.length ram with
  | none => none
  | some ram =>
      match writePointers root (tableBase + 8) ptrs ram with
      | none => none
      | some ram =>
          match taskWriteUserU64 root (tableBase + 8 * (ptrs.length + 1)) 0 ram with
          | none => none
          | some ram => some (⟨tableBase, ptrs.length, tableBase + 8⟩, ram)

/-- A null `cmdline` is the empty one. -/
def taskBuildUserArgs (root : Nat) (fallbackName cmdline : List UInt8)
    (stackTop : Nat) (ram : Mem) : Option (UserArgs × Mem) :=
  let (args, buffer) := commandArgs fallbackName cmdline
  let stackBottom := stackTop - userStackSize
  let sp := (stackTop - userArgRegionGap) / 16 * 16
  if sp ≤ stackBottom then none
  else
    match writeStrings root stackBottom buffer args.reverse sp [] ram with
    | none => none
    | some (sp, ptrs, ram) =>
        let sp := sp / 8 * 8
        let tableSize := (ptrs.length + 2) * 8
        let odd := (sp - tableSize) % 16 ≠ 0
        if odd ∧ sp < stackBottom + 8 then none
        else
          let sp := if odd then sp - 8 else sp
          if sp < stackBottom + tableSize then none else writeTable root (sp - tableSize) ptrs ram

end Szczupak
