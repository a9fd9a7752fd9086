import Szczupak.Lib.LinkedList

/-!
Tasks and the scheduler, `task/task.c` and `task/scheduler.c`.  A task is the contents of
the heap block at its address; `live` lists the blocks that `kmalloc` has handed out for
tasks.  Address 0 is null.  `none` is a halted machine or a list walk that does not end.
Memory, address spaces, terminals and the stack contents enter as arguments of the calls.
-/

namespace Szczupak

inductive TaskState where
  | ready | running | blocked | sleeping | waiting | zombie | terminated
deriving DecidableEq, Inhabited

structure Task where
  pid : Nat
  parentPid : Nat
  name : List UInt8
  state : TaskState
  kernelRsp : Nat
  cr3 : Nat
  kernelStack : Nat
  next : Nat
  allNext : Nat
  priority : Nat
  isKernel : Bool
  exitCode : Int
  kernelPreemptOk : Bool
  reapBlocked : Bool
deriving DecidableEq, Inhabited

structure Sched where
  task : Nat → Task
  live : List Nat
  readyQueue : Nat
  readyQueueTail : Nat
  enabled : Bool
  current : Nat
  taskListHead : Nat
  nextPid : Nat

def kernelStackSize : Nat := 16384

def idleName : List UInt8 := [105, 100, 108, 101]

def taskName (name : List UInt8) : List UInt8 := (name.takeWhile (· != 0)).take 63

def Sched.modify (s : Sched) (address : Nat) (change : Task → Task) : Sched :=
  { s with task := Function.update s.task address (change (s.task address)) }

def Sched.fuel (s : Sched) : Nat := s.live.length + 1

def Sched.next (s : Sched) (address : Nat) : Nat := (s.task address).next
def Sched.allNext (s : Sched) (address : Nat) : Nat := (s.task address).allNext

def schedulerInit (s : Sched) : Sched :=
  { s with readyQueue := 0, readyQueueTail := 0, enabled := false }

def schedulerAddTask (s : Sched) (task : Nat) : Option Sched :=
  if task = 0 then some s
  else if (s.task task).kernelStack = 0 then some s
  else if (s.task task).state = .running then some s
  else
    let s := s.modify task fun old => { old with next := 0, state := .ready }
    if s.readyQueue = 0 then some { s with readyQueue := task, readyQueueTail := task }
    else
      let later (cur : Nat) : Bool := (s.task task).priority < (s.task cur).priority
      match seek s.next later s.fuel 0 s.readyQueue with
      | none => none
      | some (prev, cur) =>
          if prev = 0 then
            some { s.modify task (fun old => { old with next := s.readyQueue }) with readyQueue := task }
          else
            let linked := (s.modify task fun old => { old with next := cur }).modify prev
              fun old => { old with next := task }
            some (if cur = 0 then { linked with readyQueueTail := task } else linked)

def schedulerRemoveTask (s : Sched) (task : Nat) : Option Sched :=
  if task = 0 ∨ s.readyQueue = 0 then some s
  else
    match seek s.next (· = task) s.fuel 0 s.readyQueue with
    | none => none
    | some (prev, cur) =>
        if cur = 0 then some s
        else
          let unlinked :=
            if prev = 0 then { s with readyQueue := (s.task cur).next }
            else s.modify prev fun old => { old with next := (s.task cur).next }
          some (if s.readyQueueTail = cur then { unlinked with readyQueueTail := prev } else unlinked)

def pickNext (s : Sched) : Sched :=
  let next := s.readyQueue
  let rest := (s.task next).next
  { s.modify next fun old => { old with next := 0, state := .running } with
    readyQueue := rest
    readyQueueTail := if rest = 0 then 0 else s.readyQueueTail }

/-- `if (prev->state == TASK_RUNNING) { prev->state = TASK_READY; scheduler_add_task(prev); }` -/
def requeue (s : Sched) (prev : Nat) : Option Sched :=
  if (s.task prev).state = .running then
    schedulerAddTask (s.modify prev fun old => { old with state := .ready }) prev
  else some s

/-- The scheduler would give the processor from a user task to an idle task. -/
def refusesIdle (s : Sched) (prev next : Nat) : Bool :=
  !(s.task prev).isKernel && (s.task prev).state != .terminated && (s.task next).name == idleName

/-- `savedRsp` is what `switch_task` stores for the task that is left; `kernelMapped` says
that the PML4 of the next task maps the kernel. -/
def schedule (s : Sched) (savedRsp : Nat) (kernelMapped : Bool) : Option Sched :=
  if !s.enabled ∨ s.readyQueue = 0 then some s
  else if s.current = 0 then some s
  else
    let prev := s.current
    let next := s.readyQueue
    let s := pickNext s
    if refusesIdle s prev next then schedulerAddTask s next
    else if next = prev then schedulerAddTask s next
    else
      let s := { s with current := next }
      let s := if (s.task next).name = idleName then
          s.modify next fun old => { old with kernelRsp := old.kernelStack + kernelStackSize }
        else s
      let task := s.task next
      if task.isKernel ∧ (task.kernelRsp < task.kernelStack ∨
          task.kernelRsp > task.kernelStack + kernelStackSize) then none
      else if !task.isKernel ∧ task.cr3 ≠ 0 ∧ !kernelMapped then none
      else
        (requeue s prev).map fun s => s.modify prev fun old => { old with kernelRsp := savedRsp }

/-- The tests before `schedule_from_irq` takes a task; `cs` is `irq_rsp[18]`. -/
def irqPreempts (s : Sched) (irqRsp cs : Nat) : Bool :=
  let prev := s.task s.current
  s.enabled && s.readyQueue != 0 && irqRsp != 0 && s.current != 0 &&
    !(cs % 4 != 3 && prev.pid != 0 && prev.state != .terminated && !prev.kernelPreemptOk)

/-- The result is the stack pointer to resume on, 0 for the interrupted task. -/
def scheduleFromIrq (s : Sched) (irqRsp cs : Nat) : Option (Nat × Sched) :=
  if !irqPreempts s irqRsp cs then some (0, s)
  else
    let prev := s.current
    let next := s.readyQueue
    let s := pickNext s
    if next = prev then (schedulerAddTask s next).map fun s => (0, s)
    else if refusesIdle s prev next then (schedulerAddTask s next).map fun s => (0, s)
    else
      let s := s.modify prev fun old => { old with kernelRsp := irqRsp }
      (requeue { s with current := next } prev).map fun s => ((s.task next).kernelRsp, s)

def taskListInsert (s : Sched) (task : Nat) : Sched :=
  { s.modify task (fun old => { old with allNext := s.taskListHead }) with taskListHead := task }

def taskListRemove (s : Sched) (task : Nat) : Option (Bool × Sched) :=
  match seek s.allNext (· = task) s.fuel 0 s.taskListHead with
  | none => none
  | some (prev, it) =>
      if it = 0 then some (false, s)
      else
        let unlinked :=
          if prev = 0 then { s with taskListHead := (s.task it).allNext }
          else s.modify prev fun old => { old with allNext := (s.task it).allNext }
        some (true, unlinked.modify it fun old => { old with allNext := 0 })

def allocTask (s : Sched) (block : Nat) (task : Task) : Sched :=
  { s with task := Function.update s.task block task, live := block :: s.live }

def taskInit (s : Sched) (block stack rsp : Nat) : Option Sched :=
  if block = 0 ∨ stack = 0 then none
  else
    let idle : Task := {
      pid := 0, parentPid := 0, name := idleName, state := .running, kernelRsp := rsp, cr3 := 0
      kernelStack := stack, next := 0, allNext := 0, priority := 255, isKernel := true
      exitCode := 0, kernelPreemptOk := false, reapBlocked := false }
    some (taskListInsert { allocTask s block idle with current := block } block)

/-- `kmalloc` does not return a block in use. -/
def taskCreate (s : Sched) (name : List UInt8) (block stack rsp : Nat) : Option Sched :=
  if s.nextPid ≥ 0xFFFFFFFF then some s
  else if block = 0 then some s
  else if block ∈ s.live then none
  else
    let pid := s.nextPid
    let s := { s with nextPid := (pid + 1) % 2 ^ 32 }
    if stack = 0 then some s
    else
      let task : Task := {
        pid, parentPid := if s.current = 0 then 0 else (s.task s.current).pid
        name := taskName name, state := .ready, kernelRsp := rsp, cr3 := 0, kernelStack := stack
        next := 0, allNext := 0, priority := 5, isKernel := true, exitCode := 0
        kernelPreemptOk := false, reapBlocked := false }
      schedulerAddTask (taskListInsert (allocTask s block task) block) block

/-- `loaded` says that the address space, the image, the stack and the arguments were set
up. -/
def taskCreateUser (s : Sched) (name : List UInt8) (block stack rsp cr3 : Nat) (loaded : Bool) :
    Option Sched :=
  if block = 0 then some s
  else if block ∈ s.live then none
  else
    let pid := s.nextPid
    let s := { s with nextPid := (pid + 1) % 2 ^ 32 }
    if stack = 0 ∨ !loaded then some s
    else
      let parentPid := if s.current = 0 then 0 else (s.task s.current).pid
      let task : Task := {
        pid, parentPid, name := taskName name, state := .ready, kernelRsp := rsp, cr3
        kernelStack := stack, next := 0, allNext := 0, priority := 10, isKernel := false
        exitCode := 0, kernelPreemptOk := false, reapBlocked := parentPid != 0 }
      schedulerAddTask (taskListInsert (allocTask s block task) block) block

def detachChildren (parentPid : Nat) : Nat → Nat → Sched → Option Sched
  | 0, _, _ => none
  | fuel + 1, it, s =>
      if it = 0 then some s
      else
        let detached := if (s.task it).parentPid = parentPid then
            s.modify it fun old => { old with parentPid := 0, reapBlocked := false }
          else s
        detachChildren parentPid fuel (s.task it).allNext detached

/-- `task_exit` up to the loop that waits for interrupts. -/
def taskExit (s : Sched) (code : Int) : Option Sched :=
  if s.current = 0 then some s
  else
    match detachChildren (s.task s.current).pid s.fuel s.taskListHead s with
    | none => none
    | some detached =>
        schedulerRemoveTask (detached.modify s.current fun old =>
          { old with exitCode := code, reapBlocked := old.parentPid != 0, state := .terminated })
          s.current

def reapable (s : Sched) (it : Nat) : Bool :=
  it != s.current && (s.task it).state == .terminated && !(s.task it).reapBlocked

/-- `task_reap_terminated`; every turn but the last frees a task. -/
def reapLoop : Nat → Sched → Option Sched
  | 0, _ => none
  | turns + 1, s =>
      match seek s.allNext (reapable s) s.fuel 0 s.taskListHead with
      | none => none
      | some (_, victim) =>
          if victim = 0 then some s
          else
            match taskListRemove s victim with
            | none => none
            | some (false, s) => reapLoop turns s
            | some (true, s) => reapLoop turns { s with live := s.live.erase victim }

def taskReapTerminated (s : Sched) : Option Sched := reapLoop s.fuel s

def abortSpawn (s : Sched) (task : Nat) : Option Sched :=
  let stopped := s.modify task fun old =>
    { old with state := .terminated, reapBlocked := false, parentPid := 0 }
  (schedulerRemoveTask stopped task).bind taskReapTerminated

/-- The turn of `task_wait_pid` that finds the child exited; `any` is a `child_pid` of -1. -/
def waitPidTurn (s : Sched) (childPid : Nat) (any : Bool) : Option Sched :=
  let parent := (s.task s.current).pid
  let exited (it : Nat) : Bool :=
    (s.task it).parentPid == parent && (any || (s.task it).pid == childPid) &&
      (s.task it).state == .terminated
  if s.current = 0 ∨ parent = 0 then some s
  else
    match seek s.allNext exited s.fuel 0 s.taskListHead with
    | none => none
    | some (_, child) =>
        if child = 0 then some s
        else taskReapTerminated (s.modify child fun old => { old with reapBlocked := false })

end Szczupak
