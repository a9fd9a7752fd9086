import Szczupak.Task.ContextCore

/-!
Which routine may resume a task.  Creation and the timer interrupt leave an interrupt frame,
`schedule` leaves a return address, and the frame of `task_create` has three of the five words
that `iretq` pops; so the two routines cannot resume each other's tasks.
-/

namespace Szczupak

variable {s after : Sched}

theorem schedulerAddTask_same {task : Nat}
    (added : schedulerAddTask s task = some after) : SameTasks s after := by
  rw [schedulerAddTask] at added
  split at added
  next => exact Option.some.inj added ▸ SameTasks.refl s
  next =>
    split at added
    next => exact Option.some.inj added ▸ SameTasks.refl s
    next =>
      split at added
      next => exact Option.some.inj added ▸ SameTasks.refl s
      next =>
        dsimp only at added
        generalize markedEq : (s.modify task fun old =>
          { old with next := 0, state := TaskState.ready }) = marked at added
        have marks : SameTasks s marked := by
          rw [← markedEq]
          exact SameTasks.modify rfl
        split at added
        next =>
          cases added
          exact ⟨marks.tasks, marks.live, marks.current, marks.taskListHead⟩
        next =>
          split at added
          next => cases added
          next prev cur _ =>
            have linked : ∀ address next, SameTasks s (marked.modify address fun old => { old with next }) :=
              fun address next => marks.trans (SameTasks.modify rfl)
            split at added
            next =>
              cases added
              have placed := linked task marked.readyQueue
              exact ⟨placed.tasks, placed.live, placed.current, placed.taskListHead⟩
            next =>
              have placed : SameTasks s ((marked.modify task fun old =>
                  { old with next := cur }).modify prev fun old => { old with next := task }) :=
                (linked task cur).trans (SameTasks.modify rfl)
              cases added
              split
              · exact ⟨placed.tasks, placed.live, placed.current, placed.taskListHead⟩
              · exact placed

theorem requeue_same {prev : Nat} (queued : requeue s prev = some after) :
    SameTasks s after := by
  rw [requeue] at queued
  split at queued
  next => exact (SameTasks.modify rfl).trans (schedulerAddTask_same queued)
  next => exact Option.some.inj queued ▸ SameTasks.refl s

/-- `schedule` gives the processor to the head of the ready queue. -/
def ScheduleSwitches (s : Sched) : Prop :=
  s.enabled = true ∧ s.readyQueue ≠ 0 ∧ s.current ≠ 0 ∧ s.readyQueue ≠ s.current ∧
    refusesIdle s s.current s.readyQueue = false

instance (s : Sched) : Decidable (ScheduleSwitches s) := inferInstanceAs (Decidable (_ ∧ _))

def IrqSwitches (s : Sched) (irqRsp cs : Nat) : Prop :=
  irqPreempts s irqRsp cs = true ∧ s.readyQueue ≠ s.current ∧
    refusesIdle s s.current s.readyQueue = false

instance (s : Sched) (irqRsp cs : Nat) : Decidable (IrqSwitches s irqRsp cs) :=
  inferInstanceAs (Decidable (_ ∧ _))

theorem schedule_switches {savedRsp : Nat} {kernelMapped : Bool}
    (scheduled : schedule s savedRsp kernelMapped = some after) :
    (¬ ScheduleSwitches s ∧ after.current = s.current) ∨
      (ScheduleSwitches s ∧ after.current = s.readyQueue) := by
  rw [schedule] at scheduled
  split at scheduled
  next stays =>
    cases scheduled
    refine Or.inl ⟨fun switches => ?_, rfl⟩
    rcases stays with disabled | empty
    · rw [switches.1] at disabled
      exact absurd disabled (by simp)
    · exact switches.2.1 empty
  next ready =>
    rw [not_or] at ready
    split at scheduled
    next null =>
      cases scheduled
      exact Or.inl ⟨fun switches => switches.2.2.1 null, rfl⟩
    next running =>
      dsimp only at scheduled
      split at scheduled
      next refused =>
        refine Or.inl ⟨fun switches => ?_, (schedulerAddTask_same scheduled).current⟩
        rw [refusesIdle_pickNext (Ne.symm switches.2.2.2.1), switches.2.2.2.2] at refused
        cases refused
      next accepted =>
        split at scheduled
        next same =>
          exact Or.inl ⟨fun switches => switches.2.2.2.1 same, (schedulerAddTask_same scheduled).current⟩
        next different =>
          have switches : ScheduleSwitches s := by
            refine ⟨by simpa using ready.1, ready.2, running, different, ?_⟩
            rw [← refusesIdle_pickNext (Ne.symm different)]
            simpa using accepted
          refine Or.inr ⟨switches, ?_⟩
          generalize stackedEq : (if (({ pickNext s with current := s.readyQueue } : Sched).task
              s.readyQueue).name = idleName
            then ({ pickNext s with current := s.readyQueue } : Sched).modify s.readyQueue fun old =>
              { old with kernelRsp := old.kernelStack + kernelStackSize }
            else { pickNext s with current := s.readyQueue }) = stacked at scheduled
          have stackedCurrent : stacked.current = s.readyQueue := by
            rw [← stackedEq]
            split <;> rfl
          split at scheduled
          next => cases scheduled
          next =>
            split at scheduled
            next => cases scheduled
            next =>
              obtain ⟨queued, requeued, rfl⟩ := Option.map_eq_some_iff.mp scheduled
              exact (requeue_same requeued).current.trans stackedCurrent

theorem scheduleFromIrq_switches {irqRsp cs rsp : Nat}
    (scheduled : scheduleFromIrq s irqRsp cs = some (rsp, after)) :
    (¬ IrqSwitches s irqRsp cs ∧ after.current = s.current) ∨
      (IrqSwitches s irqRsp cs ∧ after.current = s.readyQueue ∧
        rsp = (s.task s.readyQueue).kernelRsp) := by
  rw [scheduleFromIrq] at scheduled
  split at scheduled
  next stays =>
    cases scheduled
    refine Or.inl ⟨fun switches => ?_, rfl⟩
    rw [switches.1] at stays
    cases stays
  next preempts =>
    dsimp only at scheduled
    split at scheduled
    next same =>
      obtain ⟨queued, added, equal⟩ := Option.map_eq_some_iff.mp scheduled
      cases equal
      exact Or.inl ⟨fun switches => switches.2.1 same, (schedulerAddTask_same added).current⟩
    next different =>
      split at scheduled
      next refused =>
        obtain ⟨queued, added, equal⟩ := Option.map_eq_some_iff.mp scheduled
        cases equal
        refine Or.inl ⟨fun switches => ?_, (schedulerAddTask_same added).current⟩
        rw [refusesIdle_pickNext (Ne.symm different), switches.2.2] at refused
        cases refused
      next accepted =>
        obtain ⟨queued, requeued, equal⟩ := Option.map_eq_some_iff.mp scheduled
        cases equal
        have same := requeue_same requeued
        refine Or.inr ⟨⟨by simpa using preempts, different, ?_⟩, same.current, ?_⟩
        · rw [← refusesIdle_pickNext (Ne.symm different)]
          simpa using accepted
        · rw [same.tasks s.readyQueue]
          change (Function.update (pickNext s).task s.current _ s.readyQueue).kernelRsp = _
          rw [Function.update_of_ne different, pickNext_same]

def Laid : Origin → List StackWord → Prop
  | .created, words => words = createdWords
  | .createdUser, words => words = interruptWords
  | .switchedOut, words => ∃ below, words = .returnAddress :: below
  | .interrupted, words => ∃ below, words = interruptWords ++ below

theorem Laid.fitsSwitch {origin : Origin} {words : List StackWord} (laid : Laid origin words) :
    (Resume.mk .switchTask words).Fits ↔ origin = .switchedOut := by
  change words.head? = some .returnAddress ↔ origin = .switchedOut
  cases origin with
  | created =>
      have same : words = createdWords := laid
      simp [same, createdWords]
  | createdUser =>
      have same : words = interruptWords := laid
      simp [same, interruptWords, createdWords]
  | switchedOut =>
      obtain ⟨below, rfl⟩ := laid
      simp
  | interrupted =>
      obtain ⟨below, rfl⟩ := laid
      simp [interruptWords, createdWords]

theorem Laid.fitsIrq {origin : Origin} {words : List StackWord} (laid : Laid origin words) :
    (Resume.mk .irqReturn words).Fits ↔ origin = .interrupted ∨ origin = .createdUser := by
  change words.take 22 = interruptWords ↔ _
  cases origin with
  | created =>
      have same : words = createdWords := laid
      rw [same]
      decide
  | createdUser =>
      have same : words = interruptWords := laid
      rw [same]
      decide
  | switchedOut =>
      obtain ⟨below, rfl⟩ := laid
      simp [interruptWords, createdWords]
  | interrupted =>
      obtain ⟨below, rfl⟩ := laid
      simp [interruptWords, createdWords]

namespace Contexts

/-- Every task that is not running has the words of its origin; nothing is said about the
stack of the one that runs. -/
def Kept (c : Contexts) : Prop := ∀ address, Laid (c.origin address) (c.saved address)

def AllFit (c : Contexts) : Prop := ∀ resume ∈ c.resumes, resume.Fits

/-- The switch, if there is one, is to a task that the same mechanism can resume: `schedule`
to a task that `schedule` left and that is not an idle task, the timer interrupt to a task that
was interrupted or that `task_create_user` made. -/
def SameMechanism (c : Contexts) (event : SchedEvent × List StackWord) : Prop :=
  match event.1 with
  | .schedule _ _ => ScheduleSwitches c.sched →
      c.origin c.sched.readyQueue = .switchedOut ∧ (c.sched.task c.sched.readyQueue).name ≠ idleName
  | .irq irqRsp cs => IrqSwitches c.sched irqRsp cs → (c.sched.task c.sched.readyQueue).kernelRsp ≠ 0 →
      c.origin c.sched.readyQueue = .interrupted ∨ c.origin c.sched.readyQueue = .createdUser
  | _ => True

instance (c : Contexts) (event : SchedEvent × List StackWord) : Decidable (c.SameMechanism event) := by
  unfold SameMechanism
  split <;> infer_instance

section Steps

variable {c after : Contexts} {sched : Sched} {words : List StackWord} {origin : Origin}

theorem Kept.update (kept : Kept c) (laid : Laid origin words) (address : Nat) :
    ∀ other, Laid (Function.update c.origin address origin other)
      (Function.update c.saved address words other) := by
  intro other
  by_cases same : other = address
  · rw [same, Function.update_self, Function.update_self]
    exact laid
  · rw [Function.update_of_ne same, Function.update_of_ne same]
    exact kept other

theorem Kept.build {block : Nat} (kept : Kept c) (laid : Laid origin words) :
    Kept (c.build sched block words origin) := by
  rw [Contexts.build]
  split
  · exact kept.update laid block
  · exact kept

theorem Kept.leave (kept : Kept c) (laid : Laid origin words) : Kept (c.leave sched words origin) :=
  kept.update laid c.sched.current

theorem build_resumes {block : Nat} : (c.build sched block words origin).resumes = c.resumes := by
  rw [Contexts.build]
  split <;> rfl

theorem allFit_quiet {guard : Prop} (same : after.resumes = c.resumes) (holds : guard) :
    AllFit after ↔ AllFit c ∧ guard := by
  rw [AllFit, same]
  exact ⟨fun fit => ⟨fit, holds⟩, fun both => both.1⟩

theorem allFit_resumes {guard : Prop} {resume : Resume} (grown : after.resumes = resume :: c.resumes)
    (exact : resume.Fits ↔ guard) : AllFit after ↔ AllFit c ∧ guard := by
  rw [AllFit, grown, List.forall_mem_cons, exact]
  exact and_comm

theorem schedule_exact {savedRsp : Nat} {kernelMapped : Bool} {below : List StackWord}
    (kept : Kept c) (taken : c.schedule savedRsp kernelMapped below = some after) :
    Kept after ∧
    (AllFit after ↔ AllFit c ∧ c.SameMechanism (.schedule savedRsp kernelMapped, below)) := by
  rw [Contexts.schedule] at taken
  split at taken
  next => cases taken
  next moved scheduled =>
    rcases schedule_switches scheduled with ⟨stays, current⟩ | ⟨switches, current⟩
    · rw [if_pos current] at taken
      cases taken
      exact ⟨kept, allFit_quiet rfl fun switches => absurd switches stays⟩
    · have different : moved.current ≠ c.sched.current := current ▸ switches.2.2.2.1
      rw [if_neg different] at taken
      cases taken
      have left : Kept (c.leave moved (.returnAddress :: below) .switchedOut) :=
        kept.leave ⟨below, rfl⟩
      refine ⟨left, allFit_resumes rfl ?_⟩
      rw [current]
      split
      next idle =>
        constructor
        · intro fits
          cases fits
        · intro mechanism
          exact absurd idle (mechanism switches).2
      next awake =>
        rw [(kept c.sched.readyQueue).fitsSwitch]
        exact ⟨fun left _ => ⟨left, awake⟩, fun mechanism => (mechanism switches).1⟩

theorem irq_exact {irqRsp cs : Nat} {below : List StackWord} (kept : Kept c)
    (taken : c.irq irqRsp cs below = some after) :
    Kept after ∧ (AllFit after ↔ AllFit c ∧ c.SameMechanism (.irq irqRsp cs, below)) := by
  rw [Contexts.irq] at taken
  split at taken
  next => cases taken
  next rsp moved scheduled =>
    rcases scheduleFromIrq_switches scheduled with ⟨stays, current⟩ | ⟨switches, current, returned⟩
    · rw [if_pos current] at taken
      cases taken
      exact ⟨kept, allFit_quiet rfl fun switches => absurd switches stays⟩
    · have different : moved.current ≠ c.sched.current := current ▸ switches.2.1
      rw [if_neg different] at taken
      have left : Kept (c.leave moved (interruptWords ++ below) .interrupted) := kept.leave ⟨below, rfl⟩
      dsimp only at taken
      split at taken
      next null =>
        cases taken
        exact ⟨left, allFit_quiet rfl fun _ nonNull => absurd (returned ▸ null) nonNull⟩
      next nonNull =>
        cases taken
        refine ⟨left, allFit_resumes rfl ?_⟩
        rw [current, (kept c.sched.readyQueue).fitsIrq]
        exact ⟨fun fits _ _ => fits, fun mechanism => mechanism switches (returned ▸ nonNull)⟩

theorem step_exact {event : SchedEvent × List StackWord} (kept : Kept c)
    (taken : c.step event = some after) :
    Kept after ∧ (AllFit after ↔ AllFit c ∧ c.SameMechanism event) := by
  obtain ⟨event, below⟩ := event
  cases event with
  | create name block stack rsp =>
      obtain ⟨made, _, rfl⟩ := Option.map_eq_some_iff.mp taken
      exact ⟨kept.build rfl, allFit_quiet build_resumes trivial⟩
  | spawn name block stack rsp cr3 loaded attached =>
      obtain ⟨made, _, rfl⟩ := Option.map_eq_some_iff.mp taken
      exact ⟨kept.build rfl, allFit_quiet build_resumes trivial⟩
  | schedule savedRsp kernelMapped => exact schedule_exact kept taken
  | irq irqRsp cs => exact irq_exact kept taken
  | enable on =>
      cases taken
      exact ⟨kept, allFit_quiet rfl trivial⟩
  | exit | reap | waitPid | preemptOk =>
      obtain ⟨made, _, rfl⟩ := Option.map_eq_some_iff.mp taken
      exact ⟨kept, allFit_quiet rfl trivial⟩

end Steps

theorem resumes_fit_iff_same_mechanism {start : Sched} {events : List (SchedEvent × List StackWord)}
    {final : Contexts} (reached : runActions step (started start) events = some final) :
    AllFit final ↔ RunMeets step SameMechanism (started start) events := by
  have initial : Kept (started start) := fun _ => rfl
  have exact := runActions_exact (fun _ _ _ kept taken => (step_exact kept taken).1)
    (fun _ _ _ kept taken => (step_exact kept taken).2) initial reached
  rw [exact]
  exact and_iff_right (fun _ none => by cases none)

def shellResumed : List (SchedEvent × List StackWord) := bootEvents.map fun event => (event, [.other])

theorem shellResumed_fits : ∃ start final,
    taskInit blankSched 0x1000 0x8000 0xBF60 = some start ∧
    runActions step (started (schedulerInit start)) shellResumed = some final ∧
    final.resumes = [⟨.irqReturn, interruptWords⟩] ∧ AllFit final := by
  have runs : ((taskInit blankSched 0x1000 0x8000 0xBF60).bind fun start =>
      (runActions step (started (schedulerInit start)) shellResumed).map Contexts.resumes) =
      some [⟨.irqReturn, interruptWords⟩] := by
    decide +kernel
  obtain ⟨start, booted, rest⟩ := Option.bind_eq_some_iff.mp runs
  obtain ⟨final, reached, resumes⟩ := Option.map_eq_some_iff.mp rest
  have meets : ∀ start, taskInit blankSched 0x1000 0x8000 0xBF60 = some start →
      RunMeets step SameMechanism (started (schedulerInit start)) shellResumed := by
    intro start booted
    obtain rfl := Option.some.inj booted
    decide +kernel
  exact ⟨start, final, booted, reached, resumes,
    (resumes_fit_iff_same_mechanism reached).mpr (meets start booted)⟩

/-- The same shell, resumed by `schedule`. -/
def shellYieldedTo : List (SchedEvent × List StackWord) :=
  bootEvents.take 2 |>.map (fun event => (event, [])) |>.append [(.schedule 0xBF60 true, [])]

/-- `switch_task` returns to the word of a register. -/
theorem schedule_pops_interrupt_frame : ¬ ∀ (start : Sched) (block stack rsp : Nat)
    (events : List (SchedEvent × List StackWord)) (final : Contexts),
    taskInit blankSched block stack rsp = some start →
    runActions step (started (schedulerInit start)) events = some final → AllFit final := by
  intro fits
  have runs : ((taskInit blankSched 0x1000 0x8000 0xBF60).bind fun start =>
      (runActions step (started (schedulerInit start)) shellYieldedTo).map Contexts.resumes) =
      some [⟨.switchTask, interruptWords⟩] := by
    decide +kernel
  obtain ⟨start, booted, rest⟩ := Option.bind_eq_some_iff.mp runs
  obtain ⟨final, reached, resumes⟩ := Option.map_eq_some_iff.mp rest
  have popped := fits start _ _ _ _ final booted reached ⟨.switchTask, interruptWords⟩
    (by rw [resumes]; exact List.mem_cons_self)
  exact absurd popped (by decide)

end Contexts

end Szczupak
