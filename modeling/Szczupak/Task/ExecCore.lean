import Szczupak.Fs.FileCallsCore
import Szczupak.Task.LifecycleCore
import Szczupak.Tty.PtyCore

/-!
`sys_exec` and `spawn_task_from_cmdline` of `task/syscall.c`, over the tasks and the terminals.
What the file system, the heap and the loader answer comes with the call.
-/

namespace Szczupak

def execCmdlineMax : Nat := 512

def isSpace (c : UInt8) : Bool := c == 32 || c == 9 || c == 10 || c == 13

def commandPath (cmdline : List UInt8) : Option (List UInt8) :=
  let path := (cmdline.dropWhile isSpace).takeWhile fun c => !isSpace c
  if path.length ≥ execPathMax then none
  else if path.head? ≠ some 47 then none
  else some path

/-- `file`: the path opens as a file of an admissible size and its bytes are read.  `block`: where
the task goes, 0 when there is no room.  `built`: its stack, its address space, its image and its
arguments are in place. -/
structure SpawnAnswers where
  file : List UInt8 → Bool
  block : Nat
  built : Bool

structure ExecState where
  tasks : Lifecycle
  ptys : Ptys
  ptyId : Nat → Int

namespace ExecState

def pid (s : ExecState) (address : Nat) : UInt32 := UInt32.ofNat (s.tasks.task address).pid

def attachedSlot (s : ExecState) (address : Nat) : Option (Fin ptyMaxCount) :=
  (ptySlotValid s.ptys (s.ptyId address)).filter fun slot => (s.ptys slot).slavePid == s.pid address

/-- The new task, or none for `NULL`; nothing at all when the heap hands out a block in use. -/
def spawnTaskFromCmdline (s : ExecState) (actor : Nat) (answers : SpawnAnswers)
    (cmdline : List UInt8) (ptyId : Int) : Option (Option Nat × ExecState) :=
  match commandPath cmdline with
  | none => some (none, s)
  | some path =>
      if !answers.file path ∨ answers.block = 0 then some (none, s)
      else
        match s.tasks.taskAllocate actor answers.block false with
        | none => none
        | some tasks =>
            let s := { s with tasks, ptyId := Function.update s.ptyId answers.block (-1) }
            if !answers.built then some (none, { s with tasks := tasks.createFails actor answers.block })
            else if ptyId < 0 then
              some (some answers.block, { s with tasks := tasks.taskListInsert actor answers.block true })
            else
              let (result, ptys) :=
                if (ptySlotValid s.ptys ptyId).isNone then (-1, s.ptys)
                else ptyAttachSlave s.ptys ptyId (s.pid answers.block)
              if result ≠ 0 then
                some (none, { s with ptys, tasks := tasks.taskListInsert actor answers.block false })
              else
                some (some answers.block, { ptys, tasks := tasks.taskListInsert actor answers.block true
                                            ptyId := Function.update s.ptyId answers.block ptyId })

/-- `sys_exec` up to its wait; `fromUser` is the string at the address, where it can be read.  The
result none is the return of -1, a child is waited for. -/
def sysExec (s : ExecState) (actor : Nat) (answers : SpawnAnswers)
    (fromUser : Option (List UInt8)) : Option (Option Nat × ExecState) :=
  match fromUser with
  | none => some (none, s)
  | some cmdline =>
      if cmdline.length = 0 ∨ cmdline.length ≥ execCmdlineMax then some (none, s)
      else s.spawnTaskFromCmdline actor answers cmdline (s.ptyId actor)

def step (s : ExecState) (move : Move) : Option ExecState :=
  match s.tasks.step move with
  | none => none
  | some tasks =>
      match move.action with
      | .exitFinish =>
          some { tasks, ptys := ptyDetachSlave s.ptys (s.pid move.actor)
                 ptyId := Function.update s.ptyId move.actor (-1) }
      | .allocate block _ => some { s with tasks, ptyId := Function.update s.ptyId block (-1) }
      | _ => some { s with tasks }

/-- `sys_exec` creates `child`, and `after` has its new task; while the caller waits the tasks make
`moves`; then the child has exited and the wait of the caller, still the same task, stops at it. -/
structure ExecReturns (s : ExecState) (actor : Nat) (answers : SpawnAnswers)
    (fromUser : Option (List UInt8)) (moves : List Move) (child : Nat)
    (after final : ExecState) : Prop where
  called : s.sysExec actor answers fromUser = some (some child, after)
  waits : ∀ move ∈ moves, move.actor = actor → move.action = .waitTurn (after.tasks.task child).pid
  returns : ∃ before, runActions step after moves = some before ∧ before.tasks.stage actor =
    .ready ∧ (before.tasks.task actor).serial = (after.tasks.task actor).serial ∧
    (before.tasks.task child).serial = (after.tasks.task child).serial ∧
    before.tasks.exitedChild actor (after.tasks.task child).pid = some child ∧
    before.step ⟨actor, .waitTurn (after.tasks.task child).pid⟩ = some final

def withoutPty (s : ExecState) (actor : Nat) : ExecState :=
  { s with ptys := ptyDetachSlave s.ptys (s.pid actor), ptyId := Function.update s.ptyId actor (-1) }

def ExecAlone (s : ExecState) (actor : Nat) (answers : SpawnAnswers)
    (fromUser : Option (List UInt8)) (moves : List Move) : Prop :=
  ∃ child after final, (s.withoutPty actor).ExecReturns actor answers fromUser moves child after final

/-- With the terminal of `slot` it does the same, the child has the terminal and the caller gets it
back. -/
def ExecInherits (s : ExecState) (actor : Nat) (slot : Fin ptyMaxCount) (answers : SpawnAnswers)
    (fromUser : Option (List UInt8)) (moves : List Move) : Prop :=
  ∃ child after final, s.ExecReturns actor answers fromUser moves child after final ∧
    after.attachedSlot child = some slot ∧ final.attachedSlot actor = some slot

end ExecState

end Szczupak
