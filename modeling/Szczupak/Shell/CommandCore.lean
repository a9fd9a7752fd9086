import Szczupak.Lib.Numeral
import Szczupak.Lib.RecentRing
import Szczupak.Lib.Transition
import Szczupak.Shell.PathCore
import Szczupak.Task.ExecCore
import Szczupak.Task.UserArgsCore

/-!
The command line of `userland/programs/shell.c`: a line is cut with `strtok`, and what is no
built-in command is run, under up to four paths.  What the system calls answer comes with the line.
-/

namespace Szczupak

def maxCmdLen : Nat := 512
def maxArgs : Nat := 32
def maxHistory : Nat := 16

/-- `strtok` from where it left off at `p`; the buffer ends with a NUL. -/
def strtok (delims buffer : List UInt8) (p : Nat) : Option Nat × List UInt8 × Nat :=
  let start := skipWhile (fun c => c ≠ 0 && delims.contains c) buffer buffer.length p
  if buffer.getD start 0 = 0 then (none, buffer, start)
  else
    let stop := skipWhile (fun c => c ≠ 0 && !delims.contains c) buffer buffer.length start
    if buffer.getD stop 0 ≠ 0 then (some start, buffer.set stop 0, stop + 1) else (some start, buffer, stop)

def lineDelims : List UInt8 := [32, 9, 10, 13]

/-- The loop of `parse_line` with the last token found. -/
def parseLoop : Nat → Option Nat → List Nat → List UInt8 → Nat → List Nat × List UInt8
  | 0, _, argv, buffer, _ => (argv, buffer)
  | _ + 1, none, argv, buffer, _ => (argv, buffer)
  | turns + 1, some token, argv, buffer, p =>
      if argv.length < maxArgs - 1 then
        let (next, buffer, p) := strtok lineDelims buffer p
        parseLoop turns next (argv ++ [token]) buffer p
      else (argv, buffer)

/-- `argv` as offsets into the line, and the line as it is cut. -/
def parseLine (line : List UInt8) : List Nat × List UInt8 :=
  let (token, buffer, p) := strtok lineDelims (line ++ [0]) 0
  parseLoop (line.length + 1) token [] buffer p

def upperAscii (c : UInt8) : UInt8 := if 97 ≤ c ∧ c ≤ 122 then c - 32 else c

def toUpperPath (path : List UInt8) : List UInt8 := (path.map upperAscii).take (shellMaxPath - 1)

def buildAbsPath (cwd cmd : List UInt8) : Option (List UInt8) :=
  if cmd.length = 0 then none else normalizePath cwd cmd shellMaxPath

def basenameHasDot (path : List UInt8) : Bool := (path.reverse.takeWhile (· ≠ 47)).contains 46

def appendElfExt (path : List UInt8) (outSize : Nat) : Option (List UInt8) :=
  if path.length + 4 ≥ outSize then none else some (path ++ cText ".ELF")

def appendArg (outSize : Nat) (out arg : List UInt8) : Option (List UInt8) :=
  if arg = [] then some out
  else if out.length + 1 + arg.length ≥ outSize then none
  else some (out ++ 32 :: arg)

def buildExecCmdline (execPath : List UInt8) (args : List (List UInt8))
    (outSize : Nat) : Option (List UInt8) :=
  if execPath.length = 0 ∨ execPath.length ≥ outSize then none
  else args.foldlM (appendArg outSize) execPath

def execPaths (absPath : List UInt8) : List (List UInt8) :=
  let upper (path : List UInt8) := if toUpperPath path ≠ path then [toUpperPath path] else []
  let elf :=
    if basenameHasDot absPath then []
    else
      match appendElfExt absPath shellMaxPath with
      | none => []
      | some absElf => absElf :: upper absElf
  absPath :: upper absPath ++ elf

/-- The command lines that are given to `sys_exec` until one of them runs. -/
def tryExecPaths (exec : List UInt8 → Bool) (args : List (List UInt8)) : List (List UInt8) →
    List (List UInt8)
  | [] => []
  | path :: rest =>
      match buildExecCmdline path args maxCmdLen with
      | none => []
      | some cmdline => if exec cmdline then [cmdline] else cmdline :: tryExecPaths exec args rest

def tryExecCommand (exec : List UInt8 → Bool) (cwd cmd : List UInt8)
    (args : List (List UInt8)) : List (List UInt8) :=
  match buildAbsPath cwd cmd with
  | none => []
  | some absPath => tryExecPaths exec args (execPaths absPath)

structure Shell where
  running : Bool
  cwd : List UInt8
  prevCwd : List UInt8
  history : RecentRing (List UInt8)

def shellStart (history : RecentRing (List UInt8)) : Shell := ⟨true, [47], [47], history.clear⟩

def historyAdd (history : RecentRing (List UInt8)) (line : List UInt8) : RecentRing (List UInt8) :=
  if line = [] then history
  else
    let last := (history.next + maxHistory - 1) % maxHistory
    if history.count > 0 ∧ history.data last = line then history
    else history.push maxHistory (line.take (maxCmdLen - 1))

def cmdHistory (history : RecentRing (List UInt8)) : List (List UInt8) :=
  let start := if history.count < maxHistory then 0 else history.next
  history.cellsFrom maxHistory start history.count

def cdTarget (s : Shell) : List (List UInt8) → List UInt8
  | [] => [47]
  | arg :: _ => if arg = cText "-" then s.prevCwd else arg

def cmdCd (listdir : List UInt8 → Bool) (s : Shell) (args : List (List UInt8)) : Shell :=
  if args.length > 1 then s
  else
    match normalizePath s.cwd (cdTarget s args) shellMaxPath with
    | none => s
    | some normalized =>
        if !listdir normalized then s
        else { s with cwd := normalized, prevCwd := if s.cwd ≠ normalized then s.cwd else s.prevCwd }

def printingCommands : List (List UInt8) :=
  ["help", "echo", "history", "dir", "ls", "pwd", "clear", "sysinfo"].map cText

/-- A line as `sys_read` gives it, and what the calls of `sys_exec` and `sys_listdir` answer. -/
structure ShellInput where
  line : ArgString
  short : line.bytes.length < maxCmdLen
  exec : List UInt8 → Bool
  listdir : List UInt8 → Bool

/-- The shell after a command, and the command lines that it gave to `sys_exec`. -/
def executeCommand (input : ShellInput) (s : Shell) (line : List UInt8) : Shell × List (List UInt8) :=
  let (argv, buffer) := parseLine line
  match argv with
  | [] => (s, [])
  | first :: _ =>
      if first ≥ maxCmdLen then (s, [])
      else
        match argv.map (stringAt buffer) with
        | [] => (s, [])
        | cmd :: args =>
            if cmd ∈ printingCommands then (s, [])
            else if cmd = cText "cd" then (cmdCd input.listdir s args, [])
            else if cmd = cText "run" then
              match args with
              | [] => (s, [])
              | program :: args => (s, tryExecCommand input.exec s.cwd program args)
            else if cmd = cText "exit" ∨ cmd = cText "quit" then ({ s with running := false }, [])
            else (s, tryExecCommand input.exec s.cwd cmd args)

def readLine (line : List UInt8) : List UInt8 := if line.getLast? = some 10 then line.dropLast else line

/-- One turn of the loop of `main`; nothing has been read where the line is empty. -/
def shellTurn (s : Shell) (input : ShellInput) : Shell × List (List UInt8) :=
  if input.line.bytes = [] then (s, [])
  else
    let line := readLine input.line.bytes
    executeCommand input { s with history := historyAdd s.history line } line

def shellStep (s : Shell) (input : ShellInput) : Option Shell :=
  if s.running then some (shellTurn s input).1 else none

end Szczupak
