import Szczupak.Task.ExecCore
import Szczupak.Task.Pids
import Szczupak.Task.Waiting

/-!
`sys_exec` from a task on a terminal.  The terminal has one slave, and the caller is it: the child
is refused, unless the pids have come round and it has the pid of its caller; then its exit takes
the terminal away from both.
-/

namespace Szczupak

namespace ExecState

section Exec

variable {s after : ExecState} {actor child : Nat} {slot : Fin ptyMaxCount} {answers : SpawnAnswers}
  {fromUser : Option (List UInt8)} {move : Move} {tasks next : Lifecycle}

theorem attachedSlot_some (attached : s.attachedSlot actor = some slot) :
    ptySlotValid s.ptys (s.ptyId actor) = some slot ∧ (s.ptys slot).slavePid = s.pid actor := by
  obtain ⟨valid, same⟩ := Option.filter_eq_some_iff.mp attached
  exact ⟨valid, by simpa using same⟩

theorem ptySlotValid_used {ptys : Ptys} {id : Int} (valid : ptySlotValid ptys id = some slot) :
    (ptys slot).used = true ∧ 0 ≤ id := by
  obtain ⟨named, used⟩ := Option.filter_eq_some_iff.mp valid
  rw [ptySlot] at named
  split at named
  next bounds => exact ⟨used, bounds.1⟩
  next => cases named

theorem ptyAttachSlave_occupied {ptys changed : Ptys} {id : Int} {pid : UInt32}
    (valid : ptySlotValid ptys id = some slot) (occupied : (ptys slot).slavePid ≠ 0)
    (given : ptyAttachSlave ptys id pid = (0, changed)) : pid = (ptys slot).slavePid ∧
    changed = ptys := by
  rw [ptyAttachSlave] at given
  split at given
  next => cases given
  next =>
    rw [valid] at given
    dsimp only at given
    split at given
    next => cases given
    next free =>
      have same : (ptys slot).slavePid = pid := by
        by_contra differs
        exact free ⟨occupied, differs⟩
      refine ⟨same.symm, ?_⟩
      have changedIs := congrArg Prod.snd given
      dsimp only at changedIs
      rw [← changedIs, ← same]
      exact Function.update_eq_self slot ptys

structure Spawned (s after : ExecState) (actor child : Nat) : Prop where
  pid : after.pid child = s.pid actor
  ptys : after.ptys = s.ptys
  tasks : ∃ tasks, s.tasks.taskAllocate actor child false = some tasks ∧ child ≠ 0 ∧
    after.tasks = tasks.taskListInsert actor child true

theorem sysExec_attached (attached : s.attachedSlot actor = some slot) (named : s.pid actor ≠ 0)
    (called : s.sysExec actor answers fromUser = some (some child, after)) :
    Spawned s after actor child := by
  obtain ⟨valid, slave⟩ := attachedSlot_some attached
  obtain ⟨_, isId⟩ := ptySlotValid_used valid
  unfold sysExec at called
  split at called
  next => cases called
  next cmdline _ =>
    split at called
    next => cases called
    next =>
      rw [spawnTaskFromCmdline] at called
      split at called
      next => cases called
      next path _ =>
        split at called
        next => cases called
        next usable =>
          split at called
          next => cases called
          next tasks allocated =>
            have positive : ¬s.ptyId actor < 0 := Int.not_lt.mpr isId
            simp only [positive, if_false, valid, Option.isNone_some, Bool.false_eq_true] at called
            split at called
            next => cases called
            next =>
              split at called
              next => cases called
              next given =>
                have result : ptyAttachSlave s.ptys (s.ptyId actor) _ =
                    (0, (ptyAttachSlave s.ptys (s.ptyId actor) _).2) := Prod.ext (not_not.mp given) rfl
                obtain ⟨samePid, samePtys⟩ := ptyAttachSlave_occupied valid (slave ▸ named) result
                cases called
                exact ⟨samePid.trans slave, samePtys, tasks, allocated, fun null => usable (Or.inr null), rfl⟩

theorem taskAllocate_user {tasks made : Lifecycle}
    (allocated : tasks.taskAllocate actor child false = some made) :
    Lifecycle.Allocated tasks made actor child false := by
  rcases Lifecycle.taskAllocate_cases allocated with same | allocates
  · subst same
    rw [Lifecycle.taskAllocate, if_neg (by simp)] at allocated
    split at allocated
    next => cases allocated
    next =>
      have drawn := congrArg Lifecycle.nextSerial (Option.some.inj allocated)
      simp at drawn
  · exact allocates

theorem insertStopped_task {tasks : Lifecycle} {block it : Nat} :
    (tasks.taskListInsert actor block false).task it = tasks.task it ∨
      ((tasks.taskListInsert actor block false).task it).parentPid = 0 := by
  by_cases isBlock : it = block
  · subst isBlock
    exact Or.inr (by simp [Lifecycle.taskListInsert, Lifecycle.modify, Lifecycle.advance])
  · exact Or.inl (by simp [Lifecycle.taskListInsert, Lifecycle.modify, Lifecycle.advance, isBlock])

theorem waitTurn_task {tasks : Lifecycle} {childPid : Int} (it : Nat) :
    (tasks.waitTurn actor childPid).task it = tasks.task it ∨
      (tasks.waitTurn actor childPid).task it = { tasks.task it with reapBlocked := false } := by
  rw [Lifecycle.waitTurn]
  split
  next => exact Or.inl rfl
  next =>
    split
    next => exact Or.inl rfl
    next delivered _ =>
      by_cases isChild : it = delivered
      · subst isChild
        exact Or.inr (by simp [Lifecycle.deliver, Lifecycle.modify, Lifecycle.advance])
      · exact Or.inl (by simp [Lifecycle.deliver, Lifecycle.modify, Lifecycle.advance, isChild])

theorem exited_before (taken : tasks.step move = some next) {it : Nat}
    (exited : (next.task it).state = .terminated) (parent : (next.task it).parentPid ≠ 0) :
    (next.task it).serial = (tasks.task it).serial ∧
      ((move.actor = it ∧ move.action = .exitFinish) ∨
        ((tasks.task it).state = .terminated ∧ (tasks.task it).parentPid ≠ 0)) := by
  obtain ⟨_, takes⟩ := Lifecycle.step_takes taken
  obtain ⟨actor, action⟩ := move
  dsimp only at takes ⊢
  have same : next.task it = tasks.task it →
      (next.task it).serial = (tasks.task it).serial ∧
        ((actor = it ∧ action = .exitFinish) ∨
          ((tasks.task it).state = .terminated ∧ (tasks.task it).parentPid ≠ 0)) := by
    intro kept
    rw [kept] at exited parent ⊢
    exact ⟨rfl, Or.inr ⟨exited, parent⟩⟩
  cases takes with
  | @allocate block kernel _ ready allocated =>
      rcases Lifecycle.taskAllocate_cases allocated with rfl | made
      · exact same rfl
      · by_cases isBlock : it = block
        · subst isBlock
          rw [made.taskSame] at exited
          cases exited
        · exact same (made.taskOther isBlock)
  | createFails creates => exact same rfl
  | @insert block attached creates =>
      cases attached with
      | true => exact same rfl
      | false =>
          rcases @insertStopped_task actor tasks block it with kept | orphaned
          · exact same kept
          · exact absurd orphaned parent
  | @exitDetach code ready =>
      rcases @Lifecycle.exitDetach_cases tasks actor code it with ⟨kept, _⟩ | ⟨detached, _⟩
      · exact same kept
      · rw [detached] at parent
        exact absurd rfl parent
  | exitFinish exits =>
      by_cases isActor : it = actor
      · subst isActor
        exact ⟨by simp [Lifecycle.exitFinish], Or.inl ⟨rfl, rfl⟩⟩
      · exact same (Lifecycle.modify_other isActor)
  | @waitTurn childPid ready =>
      rcases @waitTurn_task actor tasks childPid it with kept | released
      · exact same kept
      · rw [released] at exited parent ⊢
        exact ⟨rfl, Or.inr ⟨exited, parent⟩⟩
  | reapStart ready => exact same rfl
  | reapSelect reaps =>
      refine same ?_
      rw [Lifecycle.reapSelect]
      split
      next => rfl
      next => rfl
  | reapRemove selects =>
      refine same ?_
      rw [Lifecycle.taskListRemove]
      split
      next => rfl
      next => rfl
  | reapDestroy removed => exact same rfl

def Numbers (address serial pid : Nat) (tasks : Lifecycle) : Prop :=
  serial < tasks.nextSerial ∧ ((tasks.task address).serial = serial → (tasks.task address).pid = pid)

theorem step_nextSerial (taken : tasks.step move = some next) :
    tasks.nextSerial ≤ next.nextSerial := by
  obtain ⟨_, takes⟩ := Lifecycle.step_takes taken
  obtain ⟨actor, action⟩ := move
  dsimp only at takes
  cases takes with
  | allocate ready allocated =>
      rcases Lifecycle.taskAllocate_cases allocated with rfl | made
      · exact Nat.le_refl _
      · exact made.nextSerial ▸ Nat.le_succ _
  | @insert block attached creates => cases attached <;> exact Nat.le_refl _
  | @waitTurn childPid ready =>
      rw [Lifecycle.waitTurn]
      split
      next => exact Nat.le_refl _
      next => split <;> exact Nat.le_refl _
  | reapSelect reaps =>
      rw [Lifecycle.reapSelect]
      split <;> exact Nat.le_refl _
  | reapRemove selects =>
      rw [Lifecycle.taskListRemove]
      split <;> exact Nat.le_refl _
  | _ => exact Nat.le_refl _

theorem Numbers.step {address serial pid : Nat}
    (inv : Numbers address serial pid tasks) (taken : tasks.step move = some next) :
    Numbers address serial pid next := by
  refine ⟨Nat.lt_of_lt_of_le inv.1 (step_nextSerial taken), fun same => ?_⟩
  rcases Lifecycle.step_names taken with keeps | ⟨block, _, _, made⟩
  · rw [(keeps.2.2 address).1]
    exact inv.2 ((keeps.2.2 address).2.symm.trans same)
  · by_cases isBlock : address = block
    · subst isBlock
      rw [made.taskSame] at same
      exact absurd same (Nat.ne_of_gt inv.1)
    · rw [made.taskOther isBlock] at same ⊢
      exact inv.2 same

theorem serials_step (given : ∀ it, (tasks.task it).serial < tasks.nextSerial)
    (taken : tasks.step move = some next) (it : Nat) : (next.task it).serial < next.nextSerial := by
  rcases Lifecycle.step_names taken with keeps | ⟨block, _, _, made⟩
  · rw [(keeps.2.2 it).2]
    exact Nat.lt_of_lt_of_le (given it) (step_nextSerial taken)
  · rw [made.nextSerial]
    by_cases isBlock : it = block
    · subst isBlock
      rw [made.taskSame]
      exact Nat.lt_succ_self _
    · rw [made.taskOther isBlock]
      exact Nat.lt_succ_of_lt (given it)

theorem booted_serials {idle : Nat} {past : List Move} {tasks : Lifecycle}
    (reached : runActions Lifecycle.step (Lifecycle.booted idle) past = some tasks) :
    ∀ it, (tasks.task it).serial < tasks.nextSerial :=
  runActions_invariant (fun _ _ _ given taken => serials_step given taken)
    (fun _ => Nat.zero_lt_one) reached

def HoldsSlot (s : ExecState) (slot : Fin ptyMaxCount) (pid : UInt32) : Prop :=
  (s.ptys slot).used = true ∧ (s.ptys slot).slavePid = pid

theorem detached_holds {ptys : Ptys} {gone pid : UInt32} (named : pid ≠ 0)
    (holds : (ptyDetachSlave ptys gone slot).used = true ∧ (ptyDetachSlave ptys gone slot).slavePid = pid) :
    ((ptys slot).used = true ∧ (ptys slot).slavePid = pid) ∧ gone ≠ pid := by
  rw [ptyDetachSlave] at holds
  split at holds
  next isZero => exact ⟨holds, fun same => named (same ▸ isZero)⟩
  next =>
    dsimp only at holds
    split at holds
    next => exact absurd holds.2.symm named
    next kept =>
      refine ⟨holds, ?_⟩
      rintro rfl
      exact kept (by simp [holds])

theorem step_tasks {next : ExecState} (taken : s.step move = some next) :
    s.tasks.step move = some next.tasks := by
  rw [step] at taken
  split at taken
  next => cases taken
  next tasks moved =>
    split at taken
    next => cases taken; exact moved
    next => cases taken; exact moved
    next => cases taken; exact moved

theorem step_holds {next : ExecState} {pid : UInt32} (named : pid ≠ 0)
    (taken : s.step move = some next) (holds : next.HoldsSlot slot pid) :
    s.HoldsSlot slot pid ∧ (move.action = .exitFinish → s.pid move.actor ≠ pid) := by
  rw [step] at taken
  split at taken
  next => cases taken
  next tasks moved =>
    split at taken
    next =>
      cases taken
      obtain ⟨held, others⟩ := detached_holds named holds
      exact ⟨held, fun _ => others⟩
    next allocates =>
      cases taken
      refine ⟨holds, fun isFinish => ?_⟩
      rw [allocates] at isFinish
      cases isFinish
    next notFinish _ =>
      cases taken
      exact ⟨holds, fun isFinish => absurd isFinish notFinish⟩

/-- The exit of the child, unless it was made an orphan, took the slot from its pid. -/
def TookSlot (child serial pid : Nat) (slot : Fin ptyMaxCount) (s : ExecState) : Prop :=
  (s.tasks.task child).serial = serial → (s.tasks.task child).state = .terminated →
    (s.tasks.task child).parentPid ≠ 0 → ¬s.HoldsSlot slot (UInt32.ofNat pid)

theorem TookSlot.step {next : ExecState} {serial pid : Nat} (named : UInt32.ofNat pid ≠ 0)
    (numbers : Numbers child serial pid s.tasks) (took : TookSlot child serial pid slot s)
    (taken : s.step move = some next) : TookSlot child serial pid slot next := by
  intro same exited parent holds
  obtain ⟨held, others⟩ := step_holds named taken holds
  obtain ⟨serialKept, ends | ⟨before, parentBefore⟩⟩ := exited_before (step_tasks taken) exited parent
  · obtain ⟨isChild, isFinish⟩ := ends
    refine others isFinish ?_
    rw [isChild, ExecState.pid, numbers.2 (serialKept.symm.trans same)]
  · exact took (serialKept.symm.trans same) before parentBefore held

/-- What holds of the child and of the caller while the wait of the call goes on that began in
`first`. -/
structure Awaits (first : ExecState) (actor child : Nat) (slot : Fin ptyMaxCount)
    (s : ExecState) : Prop where
  numbers : Numbers child (first.tasks.task child).serial (first.tasks.task child).pid s.tasks
  caller : Numbers actor (first.tasks.task actor).serial (first.tasks.task actor).pid s.tasks
  took : TookSlot child (first.tasks.task child).serial (first.tasks.task child).pid slot s

theorem Awaits.step {first next : ExecState} (named : first.pid child ≠ 0)
    (inv : Awaits first actor child slot s) (taken : s.step move = some next) :
    Awaits first actor child slot next where
  numbers := inv.numbers.step (step_tasks taken)
  caller := inv.caller.step (step_tasks taken)
  took := inv.took.step named inv.numbers taken

theorem Spawned.started (spawned : Spawned s after actor child)
    (given : ∀ it, (s.tasks.task it).serial < s.tasks.nextSerial) (alive : actor ∈ s.tasks.live) :
    (after.tasks.task child).state = .ready ∧ after.tasks.task actor = s.tasks.task actor ∧
      ∀ it, (after.tasks.task it).serial < after.tasks.nextSerial := by
  obtain ⟨tasks, allocated, _, inserted⟩ := spawned.tasks
  have made := taskAllocate_user allocated
  have different : actor ≠ child := by
    rintro rfl
    exact made.unused alive
  rw [inserted]
  change (tasks.task child).state = .ready ∧ tasks.task actor = s.tasks.task actor ∧
    ∀ it, (tasks.task it).serial < tasks.nextSerial
  refine ⟨?_, made.taskOther different, fun it => ?_⟩
  · rw [made.taskSame]
    rfl
  · rw [made.nextSerial]
    by_cases isChild : it = child
    · subst isChild
      rw [made.taskSame]
      exact Nat.lt_succ_self _
    · rw [made.taskOther isChild]
      exact Nat.lt_succ_of_lt (given it)

theorem exec_on_terminal {idle : Nat} {past moves : List Move}
    (reached : runActions Lifecycle.step (Lifecycle.booted idle) past = some s.tasks)
    (alive : actor ∈ s.tasks.live) (attached : s.attachedSlot actor = some slot)
    (named : s.pid actor ≠ 0) : ¬s.ExecInherits actor slot answers fromUser moves := by
  rintro ⟨child, after, final, run, _, regained⟩
  have spawned := sysExec_attached attached named run.called
  obtain ⟨isReady, callerKept, given⟩ := spawned.started (booted_serials reached) alive
  obtain ⟨before, ran, _, sameCaller, sameChild, exited, waited⟩ := run.returns
  have initial : Awaits after actor child slot after := by
    refine ⟨⟨given child, fun _ => rfl⟩, ⟨given actor, fun _ => rfl⟩, fun _ isExited => ?_⟩
    rw [isReady] at isExited
    cases isExited
  have inv : Awaits after actor child slot before :=
    runActions_invariant (fun _ _ _ inv taken => inv.step (spawned.pid ▸ named) taken) initial ran
  have callerPid : (before.tasks.task actor).pid = (s.tasks.task actor).pid :=
    (inv.caller.2 sameCaller).trans (congrArg TaskBlock.pid callerKept)
  have finalPid : final.pid actor = s.pid actor := by
    rcases Lifecycle.step_names (step_tasks waited) with keeps | ⟨_, _, isAllocate, _⟩
    · rw [pid, (keeps.2.2 actor).1, callerPid, pid]
    · cases isAllocate
  obtain ⟨valid, isSlave⟩ := attachedSlot_some regained
  have holds : before.HoldsSlot slot (s.pid actor) :=
    (step_holds named waited ⟨(ptySlotValid_used valid).1, isSlave.trans finalPid⟩).1
  obtain ⟨_, parent, _, isExited⟩ := Lifecycle.exitedChild_spec exited
  have childHolds : before.HoldsSlot slot (after.pid child) := spawned.pid ▸ holds
  refine inv.took sameChild isExited ?_ childHolds
  rw [parent, callerPid]
  intro isZero
  exact named (by rw [pid, isZero]; rfl)

end Exec

def shellStarted : List Move := [⟨16, .allocate 32 false⟩, ⟨16, .insert true⟩]

def firstSlot : Fin ptyMaxCount := ⟨0, ptyMaxCount_pos⟩

def shellOnTerminal : ExecState where
  tasks := (runActions Lifecycle.step (Lifecycle.booted 16) shellStarted).getD (Lifecycle.booted 16)
  ptys := (ptyAttachSlave (ptyOpen ptyInit).2 0 1).2
  ptyId := Function.update (fun _ => -1) 32 0

def programFits : SpawnAnswers := { file := fun _ => true, block := 48, built := true }

def childExits : List Move := [⟨48, .exitDetach 7⟩, ⟨48, .exitFinish⟩]

theorem shellOnTerminal_reached :
    runActions Lifecycle.step (Lifecycle.booted 16) shellStarted = some shellOnTerminal.tasks := rfl

theorem shellOnTerminal_attached : 32 ∈ shellOnTerminal.tasks.live ∧
    shellOnTerminal.attachedSlot 32 = some firstSlot ∧ shellOnTerminal.pid 32 ≠ 0 := by
  decide +kernel

theorem shellAlone_returns : shellOnTerminal.ExecAlone 32 programFits (some [47, 97]) childExits := by
  refine ⟨48, _, _, rfl, ?_, _, rfl, rfl, rfl, rfl, rfl, rfl⟩
  intro move member isShell
  simp only [childExits, List.mem_cons, List.not_mem_nil, or_false] at member
  rcases member with rfl | rfl
  · exact absurd isShell (by decide)
  · exact absurd isShell (by decide)

theorem exec_on_terminal_shell :
    ¬shellOnTerminal.ExecInherits 32 firstSlot programFits (some [47, 97]) childExits :=
  exec_on_terminal shellOnTerminal_reached shellOnTerminal_attached.1 shellOnTerminal_attached.2.1
    shellOnTerminal_attached.2.2

/-- The shell on the terminal gets -1 where the shell without one gets the pid. -/
theorem shellOnTerminal_refused : shellOnTerminal.attachedSlot 32 = some firstSlot ∧
    shellOnTerminal.ExecAlone 32 programFits (some [47, 97]) childExits ∧
    ¬shellOnTerminal.ExecInherits 32 firstSlot programFits (some [47, 97]) childExits := by
  refine ⟨shellOnTerminal_attached.2.1, shellAlone_returns, ?_⟩
  rintro ⟨child, after, _, run, _⟩
  have refused : (shellOnTerminal.sysExec 32 programFits (some [47, 97])).map Prod.fst = some none := by
    decide +kernel
  rw [run.called] at refused
  cases refused

end ExecState

end Szczupak
