import Szczupak.Task.Lifecycle

/-!
The pids.  `next_pid` has 32 bits and both creation routines draw from it; `task_create` stops
before it wraps, `task_create_user` does not look.
-/

namespace Szczupak

namespace Lifecycle

def UniquePids (s : Lifecycle) : Prop :=
  (s.list.map fun it => (s.task it).pid).Nodup ∧
    ∀ it ∈ s.list, (s.task it).pid = 0 → (s.task it).serial = 0

/-- The counter has come round neither to 0 nor to the pid of a task whose block is in use. -/
def DrawsNew (s : Lifecycle) (move : Move) : Prop :=
  match move.action with
  | .allocate _ kernel => (kernel = true ∧ s.nextPid ≥ 0xFFFFFFFF) ∨
      (s.nextPid ≠ 0 ∧ ∀ it ∈ s.live, (s.task it).pid ≠ s.nextPid)
  | _ => True

instance (s : Lifecycle) (move : Move) : Decidable (s.DrawsNew move) :=
  match move with
  | ⟨_, .allocate _ _⟩ => inferInstanceAs (Decidable (_ ∨ _))
  | ⟨_, .createFails⟩ | ⟨_, .insert _⟩ | ⟨_, .exitDetach _⟩ | ⟨_, .exitFinish⟩ | ⟨_, .waitTurn _⟩
  | ⟨_, .reapStart⟩ | ⟨_, .reapSelect⟩ | ⟨_, .reapRemove⟩ | ⟨_, .reapDestroy⟩ => .isTrue trivial

structure Numbered (s : Lifecycle) : Prop where
  blocks : Blocks s
  onePid : ∀ it ∈ s.live, ∀ other ∈ s.live, (s.task it).pid = (s.task other).pid → it = other
  idle : ∀ it ∈ s.live, (s.task it).pid = 0 → (s.task it).serial = 0

theorem booted_numbered (idle : Nat) : Numbered (booted idle) where
  blocks := booted_blocks idle
  onePid _ member _ otherMember _ :=
    (List.mem_singleton.mp member).trans (List.mem_singleton.mp otherMember).symm
  idle _ _ _ := rfl

variable {s : Lifecycle}

theorem Numbered.unique (inv : Numbered s) : UniquePids s := by
  refine ⟨?_, fun it member => inv.idle it (inv.blocks.listed it member)⟩
  refine List.Nodup.map_on ?_ inv.blocks.listNodup
  intro it member other otherMember same
  exact inv.onePid it (inv.blocks.listed it member) other (inv.blocks.listed other otherMember) same

section PidSteps

variable {s after : Lifecycle} {actor block : Nat}

def KeepsNames (s after : Lifecycle) : Prop :=
  after.nextPid = s.nextPid ∧ (∀ it ∈ after.live, it ∈ s.live) ∧
    ∀ it, (after.task it).pid = (s.task it).pid ∧ (after.task it).serial = (s.task it).serial

theorem KeepsNames.refl (s : Lifecycle) : KeepsNames s s :=
  ⟨rfl, fun _ member => member, fun _ => ⟨rfl, rfl⟩⟩

theorem KeepsNames.modify {change : TaskBlock → TaskBlock} {address : Nat}
    (pid : ∀ task, (change task).pid = task.pid)
    (serial : ∀ task, (change task).serial = task.serial) : KeepsNames s (s.modify address change) := by
  refine ⟨rfl, fun _ member => member, fun it => ?_⟩
  by_cases same : it = address
  · rw [same, modify_same]
    exact ⟨pid _, serial _⟩
  · rw [modify_other same]
    exact ⟨rfl, rfl⟩

theorem taskListInsert_names (attached : Bool) :
    KeepsNames s (s.taskListInsert actor block attached) := by
  cases attached with
  | true => exact ⟨rfl, fun _ member => member, fun _ => ⟨rfl, rfl⟩⟩
  | false =>
      have stopped := @KeepsNames.modify { s with list := block :: s.list }
        (fun old => { old with state := .terminated, reapBlocked := false, parentPid := 0 })
        block (fun _ => rfl) (fun _ => rfl)
      exact stopped

theorem exitDetach_names (code : Int) : KeepsNames s (s.exitDetach actor code) := by
  refine ⟨rfl, fun _ member => member, fun it => ?_⟩
  change (ite _ _ _ : TaskBlock).pid = _ ∧ (ite _ _ _ : TaskBlock).serial = _
  split
  · exact ⟨rfl, rfl⟩
  · exact ⟨rfl, rfl⟩

theorem waitTurn_names (childPid : Int) : KeepsNames s (s.waitTurn actor childPid) := by
  rw [waitTurn]
  split
  · exact KeepsNames.refl s
  split
  next => exact KeepsNames.refl s
  next child _ =>
    exact @KeepsNames.modify s (fun old => { old with reapBlocked := false }) child
      (fun _ => rfl) (fun _ => rfl)

theorem step_names {move : Move} (taken : s.step move = some after) :
    KeepsNames s after ∨ ∃ block kernel, move.action = .allocate block kernel ∧
      Allocated s after move.actor block kernel := by
  obtain ⟨_, takes⟩ := step_takes taken
  obtain ⟨actor, action⟩ := move
  dsimp only at takes ⊢
  cases takes with
  | @allocate block kernel _ ready allocated =>
      rcases taskAllocate_cases allocated with rfl | made
      · exact Or.inl (KeepsNames.refl _)
      · exact Or.inr ⟨block, kernel, rfl, made⟩
  | createFails creates =>
      exact Or.inl ⟨rfl, fun _ member => List.mem_of_mem_erase member, fun _ => ⟨rfl, rfl⟩⟩
  | @insert block attached creates => exact Or.inl (taskListInsert_names attached)
  | @exitDetach code ready => exact Or.inl (exitDetach_names code)
  | exitFinish exits => exact Or.inl (KeepsNames.modify (fun _ => rfl) (fun _ => rfl))
  | @waitTurn childPid ready => exact Or.inl (waitTurn_names childPid)
  | reapStart ready => exact Or.inl (KeepsNames.refl s)
  | reapSelect reaps =>
      rw [reapSelect]
      split
      · exact Or.inl (KeepsNames.refl s)
      · exact Or.inl (KeepsNames.refl s)
  | reapRemove selects =>
      rw [taskListRemove]
      split
      · exact Or.inl (KeepsNames.refl s)
      · exact Or.inl (KeepsNames.refl s)
  | reapDestroy removed =>
      exact Or.inl ⟨rfl, fun _ member => List.mem_of_mem_erase member, fun _ => ⟨rfl, rfl⟩⟩

theorem Numbered.step {move : Move} (inv : Numbered s) (drawsNew : s.DrawsNew move)
    (taken : s.step move = some after) : Numbered after := by
  have blocks := inv.blocks.step taken
  rcases step_names taken with ⟨_, fromLive, names⟩ | ⟨block, kernel, isAllocate, made⟩
  · refine { blocks, onePid := ?_, idle := ?_ }
    · intro it member other otherMember same
      rw [(names it).1, (names other).1] at same
      exact inv.onePid it (fromLive it member) other (fromLive other otherMember) same
    · intro it member isZero
      rw [(names it).1] at isZero
      rw [(names it).2]
      exact inv.idle it (fromLive it member) isZero
  · rw [DrawsNew, isAllocate] at drawsNew
    obtain ⟨nonzero, unused⟩ : s.nextPid ≠ 0 ∧ ∀ it ∈ s.live, (s.task it).pid ≠ s.nextPid := by
      rcases drawsNew with ⟨isKernel, ended⟩ | new
      · have bounded := made.bounded isKernel
        omega
      · exact new
    have old : ∀ it ∈ s.live, after.task it = s.task it := by
      intro it member
      refine made.taskOther ?_
      rintro rfl
      exact made.unused member
    have drawn : (after.task block).pid = s.nextPid := by rw [made.taskSame]; rfl
    refine { blocks, onePid := ?_, idle := ?_ }
    · intro it member other otherMember same
      rw [made.live, List.mem_cons] at member otherMember
      rcases member with rfl | member
      · rcases otherMember with rfl | otherMember
        · rfl
        · rw [drawn, old other otherMember] at same
          exact absurd same.symm (unused other otherMember)
      · rcases otherMember with rfl | otherMember
        · rw [drawn, old it member] at same
          exact absurd same (unused it member)
        · rw [old it member, old other otherMember] at same
          exact inv.onePid it member other otherMember same
    · intro it member isZero
      rw [made.live, List.mem_cons] at member
      rcases member with rfl | member
      · exact absurd (drawn.symm.trans isZero) nonzero
      · rw [old it member] at isZero ⊢
        exact inv.idle it member isZero

end PidSteps

section ShortRuns

variable {s after : Lifecycle} {move : Move} {count : Nat}

structure Unwrapped (s : Lifecycle) (count : Nat) : Prop where
  positive : 0 < s.nextPid
  bound : s.nextPid ≤ count + 1
  below : ∀ it ∈ s.live, (s.task it).pid < s.nextPid

theorem Unwrapped.drawsNew (inv : Unwrapped s count) : s.DrawsNew move := by
  rw [DrawsNew]
  split
  next => exact Or.inr ⟨Nat.ne_of_gt inv.positive, fun it member => Nat.ne_of_lt (inv.below it member)⟩
  next => trivial

theorem Unwrapped.next (inv : Unwrapped s count) (short : count + 2 < 2 ^ 32)
    (taken : s.step move = some after) : Unwrapped after (count + 1) := by
  obtain ⟨positive, bound, below⟩ := inv
  rcases step_names taken with ⟨counter, fromLive, names⟩ | ⟨block, kernel, _, made⟩
  · refine { positive := counter ▸ positive, bound := by omega, below := ?_ }
    intro it member
    rw [(names it).1, counter]
    exact below it (fromLive it member)
  · have counter : after.nextPid = s.nextPid + 1 := by
      rw [made.nextPid]
      exact Nat.mod_eq_of_lt (by omega)
    refine { positive := by omega, bound := by omega, below := ?_ }
    intro it member
    rw [made.live, List.mem_cons] at member
    rcases member with rfl | member
    · rw [made.taskSame, counter]
      exact Nat.lt_succ_self s.nextPid
    · have notBlock : it ≠ block := fun isBlock => made.unused (isBlock ▸ member)
      have earlier := below it member
      rw [made.taskOther notBlock]
      omega

theorem Unwrapped.run {moves : List Move} (inv : Unwrapped s count)
    (short : count + moves.length < 2 ^ 32 - 1) : RunMeets step DrawsNew s moves := by
  induction moves generalizing s count with
  | nil => trivial
  | cons move rest ih =>
      rw [List.length_cons] at short
      refine ⟨inv.drawsNew, fun next taken => ?_⟩
      exact ih (inv.next (by omega) taken) (by omega)

theorem shortRuns_draw_new {idle : Nat} {moves : List Move} (short : moves.length < 2 ^ 32 - 1) :
    RunMeets step DrawsNew (booted idle) moves := by
  have initial : Unwrapped (booted idle) 0 :=
    { positive := Nat.zero_lt_one, bound := Nat.le_refl 1, below := fun _ _ => Nat.zero_lt_one }
  exact initial.run (by omega)

end ShortRuns

theorem pids_stay_unique {idle : Nat} {moves : List Move} {final : Lifecycle}
    (drawsNew : RunMeets step DrawsNew (booted idle) moves)
    (reached : runActions step (booted idle) moves = some final) : UniquePids final := by
  have inv : Numbered final := runActions_guarded (fun _ _ _ inv guard taken =>
    inv.step guard taken) (booted_numbered idle) drawsNew reached
  exact inv.unique

theorem childrenReapedOnce_pids : ∃ final,
    runActions step (booted 16) childrenReapedOnce = some final ∧
    (final.list.map fun it => (final.task it).pid) = [5, 2, 1, 0] ∧ UniquePids final := by
  have runs : (runActions step (booted 16) childrenReapedOnce).map
      (fun s => s.list.map fun it => (s.task it).pid) = some [5, 2, 1, 0] := by
    decide +kernel
  obtain ⟨final, reached, pids⟩ := Option.map_eq_some_iff.mp runs
  exact ⟨final, reached, pids,
    pids_stay_unique (shortRuns_draw_new (by decide)) reached⟩

def failedCreations : Nat → List Move
  | 0 => []
  | count + 1 => ⟨16, .allocate 32 false⟩ :: ⟨16, .createFails⟩ :: failedCreations count

structure Alone (s : Lifecycle) : Prop where
  list : s.list = [16]
  live : s.live = [16]
  stage : s.stage 16 = .ready
  running : (s.task 16).state = .running

theorem Alone.acts (alone : Alone s) : s.Acts 16 := by
  rw [Acts, alone.list, alone.running]
  exact ⟨List.mem_singleton_self 16, TaskState.noConfusion⟩

theorem Alone.allocates (alone : Alone s) : ∃ middle,
    s.step ⟨16, .allocate 32 false⟩ = some middle ∧ Allocated s middle 16 32 false := by
  have usable : ¬ (32 = 0 ∨ 32 ∈ s.live) := by
    rw [alone.live]
    decide
  rw [step, if_pos alone.acts]
  simp only [alone.stage]
  rw [taskAllocate, if_neg (fun ended => Bool.false_ne_true ended.1), if_neg usable]
  rw [not_or] at usable
  refine ⟨_, rfl, ?_⟩
  exact ⟨usable.2, (fun isKernel => by cases isKernel), rfl, rfl, rfl, rfl, rfl, rfl, rfl, rfl,
    rfl, rfl, rfl⟩

theorem Alone.allocated {s middle : Lifecycle} (alone : Alone s)
    (made : Allocated s middle 16 32 false) : middle.Acts 16 := by
  refine ⟨by rw [made.list]; exact alone.acts.1, ?_⟩
  rw [made.taskOther (by decide)]
  exact alone.acts.2

theorem Alone.failedCreation (alone : Alone s) (moves : List Move) : ∃ after,
    runActions step s (⟨16, .allocate 32 false⟩ :: ⟨16, .createFails⟩ :: moves) =
      runActions step after moves ∧
    Alone after ∧ after.nextPid = (s.nextPid + 1) % 2 ^ 32 ∧ after.nextSerial = s.nextSerial + 1 := by
  obtain ⟨middle, allocates, made⟩ := alone.allocates
  have fails : middle.step ⟨16, .createFails⟩ = some (middle.createFails 16 32) := by
    rw [step, if_pos (alone.allocated made)]
    simp only [made.stageActor]
  refine ⟨middle.createFails 16 32, ?_, ?_, made.nextPid, made.nextSerial⟩
  · rw [runActions, allocates]
    dsimp only
    rw [runActions, fails]
  · constructor
    case list => exact made.list.trans alone.list
    case live =>
      change middle.live.erase 32 = [16]
      rw [made.live, alone.live, List.erase_cons_head]
    case stage => exact @advance_same middle 16 .ready
    case running =>
      change (middle.task 16).state = .running
      rw [made.taskOther (by decide)]
      exact alone.running

theorem failedCreations_run (alone : Alone s) (bound : s.nextPid < 2 ^ 32)
    (count : Nat) (moves : List Move) : ∃ after,
    runActions step s (failedCreations count ++ moves) = runActions step after moves ∧
    Alone after ∧ after.nextPid = (s.nextPid + count) % 2 ^ 32 ∧
    after.nextSerial = s.nextSerial + count := by
  induction count generalizing s with
  | zero => exact ⟨s, rfl, alone, (Nat.mod_eq_of_lt bound).symm, rfl⟩
  | succ count ih =>
      obtain ⟨next, runs, nextAlone, counter, serial⟩ := alone.failedCreation (failedCreations count ++ moves)
      have nextBound : next.nextPid < 2 ^ 32 := by
        rw [counter]
        exact Nat.mod_lt _ (Nat.two_pow_pos 32)
      obtain ⟨after, later, afterAlone, afterCounter, afterSerial⟩ := ih nextAlone nextBound
      refine ⟨after, runs.trans later, afterAlone, ?_, by omega⟩
      rw [afterCounter, counter, Nat.mod_add_mod]
      congr 1
      omega

/-- The counter passes all its values; the next program gets the pid of the idle task. -/
theorem wrapped_counter_repeats_pid : ¬ ∀ (idle : Nat) (moves : List Move) (final : Lifecycle),
    runActions step (booted idle) moves = some final → UniquePids final := by
  intro unique
  have booting : Alone (booted 16) := ⟨rfl, rfl, rfl, rfl⟩
  obtain ⟨last, runs, alone, counter, serial⟩ := failedCreations_run booting (by decide)
    (2 ^ 32 - 1) [⟨16, .allocate 32 false⟩, ⟨16, .insert true⟩]
  have wrapped : last.nextPid = 0 := counter.trans rfl
  obtain ⟨middle, allocates, made⟩ := alone.allocates
  have inserts : middle.step ⟨16, .insert true⟩ = some (middle.taskListInsert 16 32 true) := by
    rw [step, if_pos (alone.allocated made)]
    simp only [made.stageActor]
  have reached : runActions step last [⟨16, .allocate 32 false⟩, ⟨16, .insert true⟩] =
      some (middle.taskListInsert 16 32 true) := by
    rw [runActions, allocates]
    dsimp only
    rw [runActions, inserts]
    rfl
  have isIdle := (unique 16 _ _ (runs.trans reached)).2 32 List.mem_cons_self
  have created : (middle.taskListInsert 16 32 true).task 32 = last.created 16 false := made.taskSame
  rw [created] at isIdle
  have noSerial : last.nextSerial = 0 := isIdle wrapped
  rw [serial] at noSerial
  exact absurd noSerial (Nat.ne_of_gt (Nat.add_pos_left Nat.zero_lt_one _))

end Lifecycle

end Szczupak
