import Szczupak.Desktop.ScrollbackCore
import Szczupak.Desktop.WindowCore
import Szczupak.Shell.CommandCore

/-!
The shell window, `userland/programs/desktop/shell.c`: its input,
its commands and its view.  What the system calls of a command answer comes with the command.
-/

namespace Szczupak

def shellInputMax : Nat := 96
def shellViewMax : Nat := 14
def shellArgMax : Nat := 16
def shellHistoryMax : Nat := 24
def shellExecCmdMax : Nat := 512

structure WindowShell extends DesktopShell where
  cwd : List UInt8
  prevCwd : List UInt8
  extPid : Int32
  extPty : Int32
  extRunning : Bool
  input : List UInt8
  history : RecentRing (List UInt8)

inductive ShellAction where
  | none
  | hideWindow
  | forceFullRepaint
deriving DecidableEq

structure Sysinfo where
  uptime : UInt64
  totalMemory : UInt64
  freeMemory : UInt64
  nrProcesses : UInt32

/-- What the system calls of a command answer; `none` and `false` stand for a failure.  `drained`
are the reads from the terminal of a program that has been started. -/
structure ShellAnswers where
  sysinfo : Option Sysinfo
  listdir : List UInt8 → Option (List UInt8)
  touch : List UInt8 → Bool
  mkdir : List UInt8 → Bool
  delete : List UInt8 → Bool
  ptyOpen : Int32
  ptySpawn : List UInt8 → Int32 → Int32
  ptyWrite : Int32 → List UInt8 → Bool
  drained : List (List UInt8)

/-- `shell_buf_append_str` and `panel_buf_append_str`, and with the text of one character or a
number the others. -/
def bufAppendStr (cap : Nat) (buffer text : List UInt8) : List UInt8 :=
  (buffer ++ text).take (cap - 1)

def bufLine (pieces : List (List UInt8)) : List UInt8 := pieces.foldl (bufAppendStr shellLineMax) []

def WindowShell.pushText (shell : WindowShell) (text : List UInt8) : WindowShell :=
  { shell with toDesktopShell := shellPushText shell.toDesktopShell text }

def promptPieces (shell : WindowShell) : List (List UInt8) :=
  if shell.extRunning then [cText "(pty)$ "] else [cText "[", shell.cwd, cText "]$ "]

def shellBuildPrompt (shell : WindowShell) : List UInt8 :=
  bufLine (promptPieces shell ++ [shell.input, cText "_"])

def shellRefreshView (shell : WindowShell) : List (List UInt8) :=
  let historySlots := shellViewMax - 1
  let take := if shell.scrollCount > historySlots then historySlots else shell.scrollCount
  let skip := shell.scrollCount - take
  let oldest := if shell.scrollCount < shellScrollback then 0 else shell.scrollHead.val
  (List.range take).map (fun i =>
    shell.scrollback.get ⟨(oldest + (skip + i)) % shellScrollback, Nat.mod_lt _ shellScrollback_pos⟩) ++
    [shellBuildPrompt shell]

def shellSyncWindow (shell : WindowShell) (window : DesktopWindow) : DesktopWindow :=
  { window with lines := (shellRefreshView shell).map some }

def shellDelims : List UInt8 := [32, 9]

def shellParseLoop : Nat → Option Nat → List Nat → List UInt8 → Nat → List Nat × List UInt8
  | 0, _, argv, buffer, _ => (argv, buffer)
  | _ + 1, none, argv, buffer, _ => (argv, buffer)
  | turns + 1, some token, argv, buffer, p =>
      if argv.length < shellArgMax then
        let (next, buffer, p) := strtok shellDelims buffer p
        shellParseLoop turns next (argv ++ [token]) buffer p
      else (argv, buffer)

def shellParseArgs (line : List UInt8) : List (List UInt8) :=
  let (token, buffer, p) := strtok shellDelims (line ++ [0]) 0
  let (argv, buffer) := shellParseLoop (line.length + 1) token [] buffer p
  argv.map (stringAt buffer)

def shellToUpperPath (path : List UInt8) : List UInt8 :=
  (path.map upperAscii).take (shellPathMax - 1)

def shellExecPaths (absPath : List UInt8) : List (List UInt8) :=
  let upper (path : List UInt8) := if shellToUpperPath path ≠ path then [shellToUpperPath path] else []
  let elf :=
    if basenameHasDot absPath then []
    else
      match appendElfExt absPath shellPathMax with
      | none => []
      | some absElf => absElf :: upper absElf
  absPath :: upper absPath ++ elf

def shellSpawnPathWithArgsPty (answers : ShellAnswers) (ptyId : Int32) (args : List (List UInt8))
    (execPath : List UInt8) : Int32 :=
  match buildExecCmdline execPath args shellExecCmdMax with
  | none => -1
  | some execCmdline => answers.ptySpawn execCmdline ptyId

def shellTrySpawnCommandPty (answers : ShellAnswers) (ptyId : Int32) (shell : WindowShell)
    (cmd : List UInt8) (args : List (List UInt8)) : Option Int32 :=
  if cmd = [] then none
  else
    match shellNormalizePath shell.cwd cmd shellPathMax with
    | none => none
    | some absPath =>
        ((shellExecPaths absPath).map (shellSpawnPathWithArgsPty answers ptyId args)).find? fun pid => pid ≥ 0

def shellDrainPtyOutput (shell : WindowShell) (texts : List (List UInt8)) : Bool × WindowShell :=
  let texts := texts.filter (· ≠ [])
  (!texts.isEmpty, texts.foldl (fun shell text => shell.pushText (text.map drainedChar)) shell)

/-- Positive when the program runs, 0 when there is none. -/
def shellStartExternalCommand (answers : ShellAnswers) (shell : WindowShell) (cmd : List UInt8)
    (args : List (List UInt8)) : Int × WindowShell :=
  if cmd = [] then (0, shell)
  else if shell.extRunning then (-1, shell.pushText (cText "run: process already running"))
  else if answers.ptyOpen < 0 then (-1, shell.pushText (cText "run: PTY unavailable"))
  else
    match shellTrySpawnCommandPty answers answers.ptyOpen shell cmd args with
    | none => (0, shell)
    | some pid =>
        let shell := { shell with extRunning := true, extPid := pid, extPty := answers.ptyOpen }
        (1, (shellDrainPtyOutput shell answers.drained).2)

def shellClearExternalState (shell : WindowShell) : WindowShell :=
  { shell with extRunning := false, extPid := -1, extPty := -1 }

def shellPushExitCode (shell : WindowShell) (exitCode : Int32) : WindowShell :=
  if exitCode = 0 then shell
  else
    shell.pushText (bufLine (cText "exit code=" ::
      (if exitCode < 0 then [cText "-"] else []) ++ [decimal exitCode.toInt.natAbs]))

structure PumpAnswers where
  drained : List (List UInt8)
  closed : Bool
  exitCode : Option Int32

def shellPumpExternal (answers : PumpAnswers) (shell : WindowShell) : Bool × WindowShell :=
  if !shell.extRunning then (false, shell)
  else
    let (changed, shell) := shellDrainPtyOutput shell answers.drained
    if !answers.closed then (changed, shell)
    else
      match answers.exitCode with
      | none => (true, shellClearExternalState (shell.pushText (cText "run: wait failed")))
      | some exitCode => (true, shellClearExternalState (shellPushExitCode shell exitCode))

def shellParseDigit (v : Nat) (c : UInt8) : Option Nat :=
  if c < 48 ∨ c > 57 then none
  else
    let d := c.toNat - 48
    if v > (0xFFFFFFFF - d) / 10 then none else some (v * 10 + d)

def shellParsePositiveU32 (s : List UInt8) : Option Nat :=
  if s = [] then none else (s.foldlM shellParseDigit 0).filter (· ≠ 0)

def shellHistoryStart (history : RecentRing (List UInt8)) : Nat :=
  if history.count < shellHistoryMax then 0 else history.next

def shellHistoryGetLast (history : RecentRing (List UInt8)) : Option (List UInt8) :=
  if history.count = 0 then none
    else some (history.data ((history.next + shellHistoryMax - 1) % shellHistoryMax))

def shellHistoryGetByNumber (history : RecentRing (List UInt8)) (number : Nat) : Option (List UInt8) :=
  if number = 0 ∨ number > history.count then none
  else some (history.data ((shellHistoryStart history + (number - 1)) % shellHistoryMax))

def shellHistoryAdd (history : RecentRing (List UInt8)) (cmd : List UInt8) : RecentRing (List UInt8) :=
  if cmd = [] ∨ shellHistoryGetLast history = some cmd then history
  else history.push shellHistoryMax (shellCopyCstr shellInputMax cmd)

def shellHistoryExpand (history : RecentRing (List UInt8)) : List UInt8 → Option (List UInt8)
  | 33 :: rest =>
      let resolved :=
        match rest with
        | 33 :: more => if more ≠ [] then none else shellHistoryGetLast history
        | number => (shellParsePositiveU32 number).bind (shellHistoryGetByNumber history)
      (resolved.filter (· ≠ [])).map (shellCopyCstr shellInputMax)
  | _ => none

def shellHistoryEntries (history : RecentRing (List UInt8)) : List (Nat × List UInt8) :=
  (List.range history.count).map fun i =>
    (i + 1, history.data ((shellHistoryStart history + i) % shellHistoryMax))

def shellHistoryDump (shell : WindowShell) : WindowShell :=
  if shell.history.count = 0 then shell.pushText (cText "(no history)")
  else
    (shellHistoryEntries shell.history).foldl
      (fun shell (number, entry) => shell.pushText (bufLine [decimal number, cText "  ", entry])) shell

def shellCdTarget (shell : WindowShell) : List (List UInt8) → List UInt8
  | [] => [47]
  | arg :: _ => if arg = cText "-" then shell.prevCwd else arg

def shellCd (answers : ShellAnswers) (shell : WindowShell) (args : List (List UInt8)) : WindowShell :=
  match shellNormalizePath shell.cwd (shellCdTarget shell args) shellPathMax with
  | none => shell.pushText (cText "cd: path too long")
  | some normalized =>
      if (answers.listdir normalized).isNone then shell.pushText (cText "cd: no such directory")
      else if shell.cwd ≠ normalized then { shell with prevCwd := shell.cwd, cwd := normalized }
      else shell

def shellLs (answers : ShellAnswers) (shell : WindowShell) : WindowShell :=
  match answers.listdir shell.cwd with
  | none => shell.pushText (cText "ls: failed")
  | some out => shell.pushText (if out = [] then cText "(empty)" else out)

def shellPathCommand (name : String) (call : List UInt8 → Bool) (shell : WindowShell) :
    List (List UInt8) → WindowShell
  | [] => shell.pushText (cText ("Usage: " ++ name ++ " <path>"))
  | arg :: _ =>
      match shellNormalizePath shell.cwd arg shellPathMax with
      | none => shell.pushText (cText (name ++ ": path too long"))
      | some path => shell.pushText (cText (if call path then name ++ ": ok" else name ++ ": failed"))

def shellSysinfo (answers : ShellAnswers) (shell : WindowShell) : WindowShell :=
  match answers.sysinfo with
  | none => shell.pushText (cText "sysinfo: failed")
  | some info =>
      let shell := shell.pushText (bufLine [cText "uptime=", decimal info.uptime.toNat, cText " s"])
      let shell := shell.pushText (bufLine [cText "mem total=", decimal info.totalMemory.toNat, cText " free=",
        decimal info.freeMemory.toNat])
      shell.pushText (bufLine [cText "tasks=", decimal info.nrProcesses.toNat])

def shellRun (answers : ShellAnswers) (shell : WindowShell) (missing : String) (cmd : List UInt8)
    (args : List (List UInt8)) : WindowShell × ShellAction :=
  let (execRc, shell) := shellStartExternalCommand answers shell cmd args
  if execRc = 0 then (shell.pushText (cText missing), .none)
  else (shell, if execRc < 0 then .none else .forceFullRepaint)

def shellExecuteCommand (answers : ShellAnswers) (shell : WindowShell)
    (cmdline : List UInt8) : WindowShell × ShellAction :=
  match shellParseArgs cmdline with
  | [] => (shell, .none)
  | cmd :: args =>
      if cmd = cText "help" then
        let shell := shell.pushText
          (cText "Built-ins: help clear pwd cd ls dir echo touch mkdir rm run history sysinfo exit quit")
        let shell := shell.pushText (cText "History shortcuts: !!  !N")
        (shell.pushText
          (cText "External: type ELF name/path or: run <program> [args] (output in this window)"), .none)
      else if cmd = cText "clear" then
        ({ shell with scrollCount := 0, scrollHead := ⟨0, shellScrollback_pos⟩ }, .none)
      else if cmd = cText "pwd" then (shell.pushText shell.cwd, .none)
      else if cmd = cText "echo" then (shell.pushText (bufLine (args.intersperse [32])), .none)
      else if cmd = cText "history" then (shellHistoryDump shell, .none)
      else if cmd = cText "sysinfo" then (shellSysinfo answers shell, .none)
      else if cmd = cText "cd" then (shellCd answers shell args, .none)
      else if cmd = cText "ls" ∨ cmd = cText "dir" then (shellLs answers shell, .none)
      else if cmd = cText "touch" then (shellPathCommand "touch" answers.touch shell args, .none)
      else if cmd = cText "mkdir" then (shellPathCommand "mkdir" answers.mkdir shell args, .none)
      else if cmd = cText "rm" then (shellPathCommand "rm" answers.delete shell args, .none)
      else if cmd = cText "run" then
        match args with
        | [] => (shell.pushText (cText "Usage: run <program> [args...]"), .none)
        | program :: args => shellRun answers shell "run: command not found" program args
      else if cmd = cText "desktop" then (shell.pushText (cText "desktop: already running"), .none)
      else if cmd = cText "exit" ∨ cmd = cText "quit" then
        (shell.pushText (cText "Shell window hidden."), .hideWindow)
      else shellRun answers shell "Unknown command" cmd args

def kShellBootLines : List (List UInt8) := ["SzczupakOS Shell (window mode)", "Type: help"].map cText

def shellInit : WindowShell where
  toDesktopShell := kShellBootLines.foldl shellPushScrollbackLine
    ⟨Vector.replicate shellScrollback [], ⟨0, shellScrollback_pos⟩, 0⟩
  cwd := [47]
  prevCwd := [47]
  extPid := -1
  extPty := -1
  extRunning := false
  input := []
  history := ⟨fun _ => [], 0, 0⟩

def shellPushPromptCommand (shell : WindowShell) (cmd : List UInt8) : WindowShell :=
  { shell with toDesktopShell := shellPushScrollbackLine shell.toDesktopShell (bufLine
    (promptPieces shell ++ [cmd])) }

def shellRunLine (answers : ShellAnswers) (shell : WindowShell) (line : List UInt8) :
    WindowShell × ShellAction :=
  if line = [] then (shell, .none)
  else
    let rawCmd := shellCopyCstr shellInputMax line
    let shell := shellPushPromptCommand shell rawCmd
    let runs (shell : WindowShell) (cmd : List UInt8) :=
      shellExecuteCommand answers { shell with history := shellHistoryAdd shell.history cmd } cmd
    if rawCmd.head? = some 33 then
      match shellHistoryExpand shell.history rawCmd with
      | none => (shell.pushText (cText "history: event not found"), .none)
      | some cmd => runs (shell.pushText cmd) cmd
    else runs shell rawCmd

def shellSubmitInput (answers : ShellAnswers) (shell : WindowShell) : WindowShell × ShellAction :=
  if shell.extRunning then
    let sent := answers.ptyWrite shell.extPty (shell.input.take shellInputMax ++ [10])
    let shell := if !sent then shell.pushText (cText "pty write failed") else shell
    ({ shell with input := [] }, .none)
  else if shell.input = [] then (shell, .none)
  else shellRunLine answers { shell with input := [] } shell.input

def shellHandleBackspace (shell : WindowShell) : WindowShell :=
  { shell with input := shell.input.dropLast }

def shellHandleChar (shell : WindowShell) (c : UInt8) : WindowShell :=
  if c < 32 ∨ c > 126 then shell
  else if shell.input.length + 1 ≥ shellInputMax then shell
  else { shell with input := shell.input ++ [c] }

end Szczupak
