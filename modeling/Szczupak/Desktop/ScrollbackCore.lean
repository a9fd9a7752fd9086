import Szczupak.Lib.LineCutting
import Szczupak.Tty.ShellPump

/-!
The scrollback of a shell window, `shell_push_text` and `shell_drain_pty_output` of
`userland/programs/desktop/shell.c`.
The window and its program make the steps of `ShellPump`; a read pushes its text for itself.  What
the window writes of its own is left out.
-/

namespace Szczupak

def shellLineMax : Nat := 96

def shellScrollback : Nat := 64

theorem shellScrollback_pos : 0 < shellScrollback := by decide

structure DesktopShell where
  scrollback : Vector (List UInt8) shellScrollback
  scrollHead : Fin shellScrollback
  scrollCount : Nat

def shellCopyCstr (cap : Nat) (src : List UInt8) : List UInt8 :=
  (src.takeWhile (· ≠ 0)).take (cap - 1)

def shellPushScrollbackLine (shell : DesktopShell) (line : List UInt8) : DesktopShell where
  scrollback := shell.scrollback.set shell.scrollHead (shellCopyCstr shellLineMax line)
  scrollHead := ⟨(shell.scrollHead + 1) % shellScrollback, Nat.mod_lt _ shellScrollback_pos⟩
  scrollCount := if shell.scrollCount < shellScrollback then shell.scrollCount + 1
    else shell.scrollCount

/-- The locals of `shell_push_text`; `line` is what is in the buffer before `pos`. -/
structure PushText where
  shell : DesktopShell
  line : List UInt8
  wroteLine : Bool

def PushText.endLine (s : PushText) : PushText where
  shell := shellPushScrollbackLine s.shell s.line
  line := []
  wroteLine := true

def pushChar (s : PushText) (c : UInt8) : PushText :=
  if c = 13 then s
  else if c = 10 then s.endLine
  else
    let c := if c = 9 then 32 else c
    if c < 32 ∨ c > 126 then s
    else
      let s := if s.line.length + 1 ≥ shellLineMax then s.endLine else s
      { s with line := s.line ++ [c] }

def shellPushText (shell : DesktopShell) (text : List UInt8) : DesktopShell :=
  let s := (text.takeWhile (· ≠ 0)).foldl pushChar ⟨shell, [], false⟩
  if s.line.length > 0 ∨ s.wroteLine = false then shellPushScrollbackLine s.shell s.line else s.shell

def drainedChar (c : UInt8) : UInt8 :=
  let c := if c = 0 then 32 else c
  if c = 12 then 10 else c

structure ScrollSession where
  pump : PumpState
  shell : DesktopShell
  reads : List (List UInt8)

def hostText (id : Int) (s : PumpState) : List UInt8 :=
  match s.stage with
  | .reading _ avail => (ptyHostRead s.ptys id (min avail 256)).1
  | _ => []

def scrollRead (text : List UInt8) (s : ScrollSession) : ScrollSession :=
  if text.length = 0 then s
  else { s with shell := shellPushText s.shell (text.map drainedChar), reads := s.reads ++ [text] }

def scrollStep (task : PtyTask) (s : ScrollSession) (move : PumpMove) : Option ScrollSession :=
  (pumpStep task s.pump move).map fun pump =>
    { scrollRead (if move = .host then hostText task.ptyId s.pump else []) s with pump := pump }

end Szczupak
