import Szczupak.Task.Scheduler

/-!
What lies on the stack of a task that is not running, `arch/x86_64/switch.S`,
`arch/x86_64/interrupt.S` and the frames that the creation routines build.  `saved` holds the
words in memory from the saved `context.kernel_rsp` upwards.  `resumes` records each switch
with the words that its resume path found.
-/

namespace Szczupak

inductive StackWord where
  | register | vector | errorCode | rip | cs | rflags | rsp | ss | returnAddress | other
deriving DecidableEq

/-- How the words at the saved stack pointer came there. -/
inductive Origin where
  | created | createdUser | switchedOut | interrupted
deriving DecidableEq, Inhabited

inductive ResumePath where
  | switchTask | irqReturn
deriving DecidableEq

structure Resume where
  path : ResumePath
  words : List StackWord
deriving DecidableEq

structure Contexts where
  sched : Sched
  saved : Nat → List StackWord
  origin : Nat → Origin
  resumes : List Resume

/-- `task_create` and `task_init`: the fifteen registers, vector 32 and error code 0, and the
entry point, code segment and flags. -/
def createdWords : List StackWord :=
  List.replicate 15 .register ++ [.vector, .errorCode, .rip, .cs, .rflags]

/-- What the processor, the stub and `irq_common` push, in memory order; `task_create_user`
builds the same. -/
def interruptWords : List StackWord := createdWords ++ [.rsp, .ss]

/-- What the path pops: `irq_common` fifteen registers, two words that it skips and the five
of `iretq`; `switch_task` the return address. -/
def Resume.Fits (resume : Resume) : Prop :=
  match resume.path with
  | .switchTask => resume.words.head? = some .returnAddress
  | .irqReturn => resume.words.take 22 = interruptWords

instance (resume : Resume) : Decidable resume.Fits := by
  unfold Resume.Fits
  split <;> infer_instance

namespace Contexts

def creates (before after : Sched) (block : Nat) : Bool := block ∈ after.live && block ∉ before.live

def build (c : Contexts) (after : Sched) (block : Nat) (words : List StackWord) (origin : Origin) :
    Contexts :=
  if creates c.sched after block then
    { c with
      sched := after
      saved := Function.update c.saved block words
      origin := Function.update c.origin block origin }
  else { c with sched := after }

def leave (c : Contexts) (after : Sched) (words : List StackWord) (origin : Origin) : Contexts :=
  { c with
    sched := after
    saved := Function.update c.saved c.sched.current words
    origin := Function.update c.origin c.sched.current origin }

/-- `schedule` up to the `ret` of `switch_task`.  `below` is what the stack held before the
call.  The stack pointer of an idle task is put at the end of its stack, where nothing lies. -/
def schedule (c : Contexts) (savedRsp : Nat) (kernelMapped : Bool) (below : List StackWord) :
    Option Contexts :=
  match Szczupak.schedule c.sched savedRsp kernelMapped with
  | none => none
  | some after =>
      if after.current = c.sched.current then some { c with sched := after }
      else
        let words := if (c.sched.task after.current).name = idleName then [] else c.saved after.current
        some { c.leave after (.returnAddress :: below) .switchedOut with
          resumes := ⟨.switchTask, words⟩ :: c.resumes }

/-- A timer interrupt up to the `iretq`: `irq_common` moves to the stack that
`schedule_from_irq` returns, when that is not 0. -/
def irq (c : Contexts) (irqRsp cs : Nat) (below : List StackWord) : Option Contexts :=
  match scheduleFromIrq c.sched irqRsp cs with
  | none => none
  | some (rsp, after) =>
      if after.current = c.sched.current then some { c with sched := after }
      else
        let left := c.leave after (interruptWords ++ below) .interrupted
        some (if rsp = 0 then left
          else { left with resumes := ⟨.irqReturn, c.saved after.current⟩ :: c.resumes })

def step (c : Contexts) (event : SchedEvent × List StackWord) : Option Contexts :=
  match event.1 with
  | .create name block stack rsp =>
      (taskCreate c.sched name block stack rsp).map fun after =>
        c.build after block createdWords .created
  | .spawn name block stack rsp cr3 loaded attached =>
      (spawn c.sched name block stack rsp cr3 loaded attached).map fun after =>
        c.build after block interruptWords .createdUser
  | .schedule savedRsp kernelMapped => c.schedule savedRsp kernelMapped event.2
  | .irq irqRsp cs => c.irq irqRsp cs event.2
  | other => (schedStep c.sched other).map fun after => { c with sched := after }

def started (start : Sched) : Contexts where
  sched := start
  saved _ := createdWords
  origin _ := .created
  resumes := []

end Contexts

end Szczupak
