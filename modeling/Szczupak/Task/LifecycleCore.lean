import Szczupak.Task.SchedulerCore
import Szczupak.Lib.Transition

/-!
The life of a task, `task/task.c`, as steps of several tasks that interleave.  Every section
under `task_list_lock` is one step, and so is the code between two of them.  A task is the
contents of the block at its address and `list` holds the addresses from `task_list_head` on;
a freed block may be handed out again.  The task that moves is `current_task`.

`serial` counts creations: it tells two tasks that lived at one address apart.  The logs
record what the routines did; no routine reads them.
-/

namespace Szczupak

structure TaskBlock where
  serial : Nat
  pid : Nat
  parentPid : Nat
  state : TaskState
  exitCode : Int
  reapBlocked : Bool
deriving DecidableEq, Inhabited

inductive Stage where
  | ready
  | creating (block : Nat)
  | exiting (code : Int)
  | reaping
  | selected (victim : Nat)
  | removed (victim : Nat)
deriving DecidableEq, Inhabited

structure Creation where
  child : Nat
  creator : Nat
deriving DecidableEq

structure ExitCall where
  serial : Nat
  pid : Nat
  code : Int
deriving DecidableEq

/-- A task as it was when `task_list_remove` took it off the list. -/
structure Removal where
  serial : Nat
  state : TaskState
  reapBlocked : Bool
  isCurrent : Bool
deriving DecidableEq

structure Delivery where
  waiter : Nat
  asked : Int
  child : Nat
  pid : Nat
  code : Int
deriving DecidableEq

structure Lifecycle where
  task : Nat → TaskBlock
  list : List Nat
  live : List Nat
  stage : Nat → Stage
  nextPid : Nat
  nextSerial : Nat
  creations : List Creation
  exits : List ExitCall
  removals : List Removal
  destroyed : List Nat
  deliveries : List Delivery

namespace Lifecycle

def modify (s : Lifecycle) (address : Nat) (change : TaskBlock → TaskBlock) : Lifecycle :=
  { s with task := Function.update s.task address (change (s.task address)) }

def advance (s : Lifecycle) (actor : Nat) (stage : Stage) : Lifecycle :=
  { s with stage := Function.update s.stage actor stage }

def booted (idle : Nat) : Lifecycle where
  task _ := {
    serial := 0, pid := 0, parentPid := 0, state := .running, exitCode := 0, reapBlocked := false }
  list := [idle]
  live := [idle]
  stage _ := .ready
  nextPid := 1
  nextSerial := 1
  creations := []
  exits := []
  removals := []
  destroyed := []
  deliveries := []

/-- `task_create` (`kernel`) and `task_create_user` up to the point where the fields are set.
Only `task_create` looks for the end of the pids. -/
def taskAllocate (s : Lifecycle) (actor block : Nat) (kernel : Bool) : Option Lifecycle :=
  if kernel ∧ s.nextPid ≥ 0xFFFFFFFF then some s
  else if block = 0 ∨ block ∈ s.live then none
  else
    let parentPid := (s.task actor).pid
    let task : TaskBlock := {
      serial := s.nextSerial, pid := s.nextPid, parentPid, state := .ready, exitCode := 0
      reapBlocked := !kernel && parentPid != 0 }
    some { s with
      task := Function.update s.task block task
      live := block :: s.live
      stage := Function.update (Function.update s.stage block .ready) actor (.creating block)
      nextPid := (s.nextPid + 1) % 2 ^ 32
      nextSerial := s.nextSerial + 1
      creations := ⟨s.nextSerial, (s.task actor).serial⟩ :: s.creations }

def createFails (s : Lifecycle) (actor block : Nat) : Lifecycle :=
  { s.advance actor .ready with live := s.live.erase block }

/-- `task_list_insert`.  Where a terminal was asked for and could not be attached,
`spawn_task_from_cmdline` stops the new task in the same step: it runs in a system call with
`kernel_preempt_ok` false, which `schedule_from_irq` does not preempt. -/
def taskListInsert (s : Lifecycle) (actor block : Nat) (attached : Bool) : Lifecycle :=
  let listed := { s with list := block :: s.list }
  if attached then listed.advance actor .ready
  else
    (listed.modify block fun old =>
      { old with state := .terminated, reapBlocked := false, parentPid := 0 }).advance actor .reaping

def exitDetach (s : Lifecycle) (actor : Nat) (code : Int) : Lifecycle :=
  let pid := (s.task actor).pid
  { s.advance actor (.exiting code) with
    task := fun it =>
      if it ∈ s.list ∧ (s.task it).parentPid = pid then
        { s.task it with parentPid := 0, reapBlocked := false }
      else s.task it
    exits := ⟨(s.task actor).serial, pid, code⟩ :: s.exits }

/-- The rest of `task_exit`.  The task does not move again. -/
def exitFinish (s : Lifecycle) (actor : Nat) (code : Int) : Lifecycle :=
  s.modify actor fun old =>
    { old with exitCode := code, reapBlocked := old.parentPid != 0, state := .terminated }

def exitedChild (s : Lifecycle) (actor : Nat) (childPid : Int) : Option Nat :=
  s.list.find? fun it =>
    (s.task it).parentPid == (s.task actor).pid &&
      (childPid == -1 || ((s.task it).pid : Int) == childPid) && (s.task it).state == .terminated

def deliver (s : Lifecycle) (actor child : Nat) (childPid : Int) : Lifecycle :=
  { (s.modify child fun old => { old with reapBlocked := false }).advance actor .reaping with
    deliveries := {
      waiter := (s.task actor).serial, asked := childPid, child := (s.task child).serial
      pid := (s.task child).pid, code := (s.task child).exitCode } :: s.deliveries }

/-- One turn of `task_wait_pid`.  A turn that finds no exited child changes nothing, whether
it returns -1 or goes round again. -/
def waitTurn (s : Lifecycle) (actor : Nat) (childPid : Int) : Lifecycle :=
  if (s.task actor).pid = 0 ∨ childPid = 0 ∨ childPid < -1 then s
  else
    match s.exitedChild actor childPid with
    | none => s
    | some child => s.deliver actor child childPid

def reapable (s : Lifecycle) (actor it : Nat) : Bool :=
  it != actor && (s.task it).state == .terminated && !(s.task it).reapBlocked

def reapSelect (s : Lifecycle) (actor : Nat) : Lifecycle :=
  match s.list.find? (s.reapable actor) with
  | none => s.advance actor .ready
  | some victim => s.advance actor (.selected victim)

def taskListRemove (s : Lifecycle) (actor victim : Nat) : Lifecycle :=
  if victim ∈ s.list then
    let removal : Removal := {
      serial := (s.task victim).serial, state := (s.task victim).state
      reapBlocked := (s.task victim).reapBlocked, isCurrent := victim == actor }
    { s.advance actor (.removed victim) with
      list := s.list.erase victim
      removals := removal :: s.removals }
  else s.advance actor .reaping

def taskDestroy (s : Lifecycle) (actor victim : Nat) : Lifecycle :=
  { s.advance actor .reaping with
    live := s.live.erase victim
    destroyed := (s.task victim).serial :: s.destroyed }

end Lifecycle

inductive TaskAction where
  | allocate (block : Nat) (kernel : Bool)
  | createFails
  | insert (attached : Bool)
  | exitDetach (code : Int)
  | exitFinish
  | waitTurn (childPid : Int)
  | reapStart
  | reapSelect
  | reapRemove
  | reapDestroy
deriving DecidableEq

structure Move where
  actor : Nat
  action : TaskAction
deriving DecidableEq

namespace Lifecycle

/-- A task on the list that has not exited can be given the processor. -/
def Acts (s : Lifecycle) (actor : Nat) : Prop :=
  actor ∈ s.list ∧ (s.task actor).state ≠ .terminated

instance (s : Lifecycle) (actor : Nat) : Decidable (s.Acts actor) :=
  inferInstanceAs (Decidable (_ ∧ _))

def step (s : Lifecycle) (move : Move) : Option Lifecycle :=
  if s.Acts move.actor then
    match move.action, s.stage move.actor with
    | .allocate block kernel, .ready => s.taskAllocate move.actor block kernel
    | .createFails, .creating block => some (s.createFails move.actor block)
    | .insert attached, .creating block => some (s.taskListInsert move.actor block attached)
    | .exitDetach code, .ready => some (s.exitDetach move.actor code)
    | .exitFinish, .exiting code => some (s.exitFinish move.actor code)
    | .waitTurn childPid, .ready => some (s.waitTurn move.actor childPid)
    | .reapStart, .ready => some (s.advance move.actor .reaping)
    | .reapSelect, .reaping => some (s.reapSelect move.actor)
    | .reapRemove, .selected victim => some (s.taskListRemove move.actor victim)
    | .reapDestroy, .removed victim => some (s.taskDestroy move.actor victim)
    | _, _ => none
  else none

end Lifecycle

end Szczupak
