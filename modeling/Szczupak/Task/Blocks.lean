import Szczupak.Task.LifecycleCore

/-!
The blocks of the tasks.  `Blocks` is the invariant of the task list and of the blocks that a
task holds between two steps; it holds of every run.
-/

namespace Szczupak

def Stage.holds : Stage → Option Nat
  | .creating block => some block
  | .removed victim => some victim
  | _ => none

namespace Lifecycle

structure Blocks (s : Lifecycle) : Prop where
  listNodup : s.list.Nodup
  liveNodup : s.live.Nodup
  listed : ∀ it ∈ s.list, it ∈ s.live
  held : ∀ actor block, s.Acts actor → (s.stage actor).holds = some block →
    block ∈ s.live ∧ block ∉ s.list
  oneHolder : ∀ actor other block, s.Acts actor → s.Acts other →
    (s.stage actor).holds = some block → (s.stage other).holds = some block → actor = other
  creating : ∀ actor block, s.Acts actor → s.stage actor = .creating block →
    s.stage block = .ready

section Frame

variable {s after : Lifecycle}

@[simp] theorem advance_same {actor : Nat} {stage : Stage} :
    (s.advance actor stage).stage actor = stage :=
  Function.update_self _ _ _

theorem advance_other {actor other : Nat} {stage : Stage} (different : other ≠ actor) :
    (s.advance actor stage).stage other = s.stage other :=
  Function.update_of_ne different _ _

variable {change : TaskBlock → TaskBlock}

@[simp] theorem modify_same {address : Nat} :
    (s.modify address change).task address = change (s.task address) :=
  Function.update_self _ _ _

theorem modify_other {address other : Nat}
    (different : other ≠ address) : (s.modify address change).task other = s.task other :=
  Function.update_of_ne different _ _

theorem Blocks.frame (inv : Blocks s) (list : after.list = s.list) (live : after.live = s.live)
    (exited : ∀ it, (after.task it).state ≠ .terminated → (s.task it).state ≠ .terminated)
    (unlisted : ∀ it, it ∉ s.list → after.stage it = s.stage it)
    (stage : ∀ actor, after.Acts actor → after.stage actor = s.stage actor ∨
      (after.stage actor).holds = none) : Blocks after := by
  have acted : ∀ actor, after.Acts actor → s.Acts actor := by
    intro actor acts
    exact ⟨list ▸ acts.1, exited actor acts.2⟩
  have kept : ∀ actor block, after.Acts actor → (after.stage actor).holds = some block →
      (s.stage actor).holds = some block ∧ after.stage actor = s.stage actor := by
    intro actor block acts holds
    rcases stage actor acts with same | free
    · exact ⟨same ▸ holds, same⟩
    · rw [free] at holds
      cases holds
  refine {
    listNodup := list ▸ inv.listNodup
    liveNodup := live ▸ inv.liveNodup
    listed := by rw [list, live]; exact inv.listed
    held := ?_, oneHolder := ?_, creating := ?_ }
  · intro actor block acts holds
    rw [list, live]
    exact inv.held actor block (acted actor acts) (kept actor block acts holds).1
  · intro actor other block acts otherActs holds otherHolds
    exact inv.oneHolder actor other block (acted actor acts) (acted other otherActs)
      (kept actor block acts holds).1 (kept other block otherActs otherHolds).1
  · intro actor block acts creates
    have holds : (after.stage actor).holds = some block := by rw [creates]; rfl
    obtain ⟨before, same⟩ := kept actor block acts holds
    rw [unlisted block (inv.held actor block (acted actor acts) before).2]
    exact inv.creating actor block (acted actor acts) (same ▸ creates)

end Frame

inductive Takes (s : Lifecycle) (actor : Nat) : TaskAction → Lifecycle → Prop
  | allocate {block : Nat} {kernel : Bool} {after : Lifecycle} (ready : s.stage actor = .ready)
      (allocated : s.taskAllocate actor block kernel = some after) :
      Takes s actor (.allocate block kernel) after
  | createFails {block : Nat} (creates : s.stage actor = .creating block) :
      Takes s actor .createFails (s.createFails actor block)
  | insert {block : Nat} {attached : Bool} (creates : s.stage actor = .creating block) :
      Takes s actor (.insert attached) (s.taskListInsert actor block attached)
  | exitDetach {code : Int} (ready : s.stage actor = .ready) :
      Takes s actor (.exitDetach code) (s.exitDetach actor code)
  | exitFinish {code : Int} (exits : s.stage actor = .exiting code) :
      Takes s actor .exitFinish (s.exitFinish actor code)
  | waitTurn {childPid : Int} (ready : s.stage actor = .ready) :
      Takes s actor (.waitTurn childPid) (s.waitTurn actor childPid)
  | reapStart (ready : s.stage actor = .ready) :
      Takes s actor .reapStart (s.advance actor .reaping)
  | reapSelect (reaps : s.stage actor = .reaping) : Takes s actor .reapSelect (s.reapSelect actor)
  | reapRemove {victim : Nat} (selects : s.stage actor = .selected victim) :
      Takes s actor .reapRemove (s.taskListRemove actor victim)
  | reapDestroy {victim : Nat} (removed : s.stage actor = .removed victim) :
      Takes s actor .reapDestroy (s.taskDestroy actor victim)

theorem step_takes {s after : Lifecycle} {move : Move} (taken : s.step move = some after) :
    s.Acts move.actor ∧ Takes s move.actor move.action after := by
  obtain ⟨actor, action⟩ := move
  rw [step] at taken
  split at taken
  next acts =>
    refine ⟨acts, ?_⟩
    dsimp only at taken ⊢
    split at taken
    next ready => exact .allocate ready taken
    next creates => cases taken; exact .createFails creates
    next creates => cases taken; exact .insert creates
    next ready => cases taken; exact .exitDetach ready
    next exits => cases taken; exact .exitFinish exits
    next ready => cases taken; exact .waitTurn ready
    next ready => cases taken; exact .reapStart ready
    next reaps => cases taken; exact .reapSelect reaps
    next selects => cases taken; exact .reapRemove selects
    next removed => cases taken; exact .reapDestroy removed
    next => cases taken
  next => cases taken

section BlockSteps

variable {s after : Lifecycle} {actor block victim : Nat} {it : Nat} {other : Nat}

theorem Blocks.frameAdvance {stage : Stage} (inv : Blocks s) (acts : s.Acts actor)
    (free : stage.holds = none) : Blocks (s.advance actor stage) := by
  refine inv.frame rfl rfl (fun _ => id) ?_ ?_
  · intro it unlisted
    refine advance_other ?_
    rintro rfl
    exact unlisted acts.1
  · intro other _
    by_cases same : other = actor
    · subst same
      rw [advance_same]
      exact Or.inr free
    · exact Or.inl (advance_other same)

def created (s : Lifecycle) (actor : Nat) (kernel : Bool) : TaskBlock := {
  serial := s.nextSerial, pid := s.nextPid, parentPid := (s.task actor).pid, state := .ready
  exitCode := 0, reapBlocked := !kernel && (s.task actor).pid != 0 }

structure Allocated (s after : Lifecycle) (actor block : Nat) (kernel : Bool) : Prop where
  unused : block ∉ s.live
  bounded : kernel = true → s.nextPid + 1 < 2 ^ 32
  task : after.task = Function.update s.task block (s.created actor kernel)
  list : after.list = s.list
  live : after.live = block :: s.live
  stage : after.stage = Function.update (Function.update s.stage block .ready) actor (.creating block)
  nextPid : after.nextPid = (s.nextPid + 1) % 2 ^ 32
  nextSerial : after.nextSerial = s.nextSerial + 1
  creations : after.creations = ⟨s.nextSerial, (s.task actor).serial⟩ :: s.creations
  exits : after.exits = s.exits
  removals : after.removals = s.removals
  destroyed : after.destroyed = s.destroyed
  deliveries : after.deliveries = s.deliveries

theorem taskAllocate_cases {kernel : Bool}
    (allocated : s.taskAllocate actor block kernel = some after) :
    after = s ∨ Allocated s after actor block kernel := by
  rw [taskAllocate] at allocated
  split at allocated
  next => exact Or.inl (Option.some.inj allocated).symm
  next small =>
    split at allocated
    next => cases allocated
    next usable =>
      rw [not_or] at usable
      cases allocated
      refine Or.inr ⟨usable.2, ?_, rfl, rfl, rfl, rfl, rfl, rfl, rfl, rfl, rfl, rfl, rfl⟩
      intro isKernel
      simp only [isKernel, true_and, not_le] at small
      omega

section Allocated

variable {kernel : Bool}

section

variable (made : Allocated s after actor block kernel)
include made

theorem Allocated.taskOther (different : it ≠ block) : after.task it = s.task it := by
  rw [made.task, Function.update_of_ne different]

theorem Allocated.taskSame :
    after.task block = s.created actor kernel := by
  rw [made.task, Function.update_self]

theorem Allocated.stageActor :
    after.stage actor = .creating block := by
  rw [made.stage, Function.update_self]

theorem Allocated.stageOther
    (notActor : it ≠ actor) (notBlock : it ≠ block) : after.stage it = s.stage it := by
  rw [made.stage, Function.update_of_ne notActor, Function.update_of_ne notBlock]

theorem Allocated.unlisted (inv : Blocks s) (member : it ∈ s.list) : it ≠ block := by
  rintro rfl
  exact made.unused (inv.listed it member)

theorem Allocated.acts (inv : Blocks s) :
    after.Acts other ↔ s.Acts other := by
  rw [Acts, Acts, made.list]
  refine and_congr_right fun member => ?_
  rw [made.taskOther (made.unlisted inv member)]

end

theorem Blocks.allocate (inv : Blocks s) (acts : s.Acts actor)
    (made : Allocated s after actor block kernel) : Blocks after := by
  have notActor : actor ≠ block := made.unlisted inv acts.1
  have stageOther : ∀ other, s.Acts other → other ≠ actor → after.stage other = s.stage other :=
    fun other otherActs different => made.stageOther different (made.unlisted inv otherActs.1)
  have heldOther : ∀ other held, s.Acts other → other ≠ actor →
      (after.stage other).holds = some held → held ∈ s.live ∧ held ∉ s.list := by
    intro other held otherActs different holds
    rw [stageOther other otherActs different] at holds
    exact inv.held other held otherActs holds
  have heldActor : ∀ held, (after.stage actor).holds = some held → held = block := by
    intro held holds
    rw [made.stageActor] at holds
    exact (Option.some.inj holds).symm
  constructor
  case listNodup => exact made.list ▸ inv.listNodup
  case liveNodup =>
    rw [made.live]
    exact List.nodup_cons.mpr ⟨made.unused, inv.liveNodup⟩
  case listed =>
    intro it member
    rw [made.list] at member
    rw [made.live]
    exact List.mem_cons_of_mem _ (inv.listed it member)
  case held =>
    intro other held otherActs holds
    rw [made.acts inv] at otherActs
    rw [made.list, made.live]
    by_cases same : other = actor
    · subst same
      rw [heldActor held holds]
      exact ⟨List.mem_cons_self, fun member => made.unused (inv.listed block member)⟩
    · obtain ⟨inLive, offList⟩ := heldOther other held otherActs same holds
      exact ⟨List.mem_cons_of_mem _ inLive, offList⟩
  case oneHolder =>
    intro first second held firstActs secondActs firstHolds secondHolds
    rw [made.acts inv] at firstActs secondActs
    by_cases isFirst : first = actor
    · by_cases isSecond : second = actor
      · rw [isFirst, isSecond]
      · have inLive := (heldOther second held secondActs isSecond secondHolds).1
        rw [heldActor held (isFirst ▸ firstHolds)] at inLive
        exact absurd inLive made.unused
    · by_cases isSecond : second = actor
      · have inLive := (heldOther first held firstActs isFirst firstHolds).1
        rw [heldActor held (isSecond ▸ secondHolds)] at inLive
        exact absurd inLive made.unused
      · rw [stageOther first firstActs isFirst] at firstHolds
        rw [stageOther second secondActs isSecond] at secondHolds
        exact inv.oneHolder first second held firstActs secondActs firstHolds secondHolds
  case creating =>
    intro other held otherActs creates
    rw [made.acts inv] at otherActs
    by_cases same : other = actor
    · subst same
      have isBlock : held = block := heldActor held (by rw [creates]; rfl)
      rw [isBlock, made.stage, Function.update_of_ne notActor.symm, Function.update_self]
    · rw [stageOther other otherActs same] at creates
      obtain ⟨inLive, offList⟩ := inv.held other held otherActs (by rw [creates]; rfl)
      have notBlock : held ≠ block := fun isBlock => made.unused (isBlock ▸ inLive)
      have notRunning : held ≠ actor := fun isActor => offList (isActor ▸ acts.1)
      rw [made.stageOther notRunning notBlock]
      exact inv.creating other held otherActs creates

end Allocated

/-- The end of a routine: the actor gives up the block it holds. -/
structure Released (s after : Lifecycle) (actor block : Nat) : Prop where
  list : after.list = s.list
  live : after.live = s.live.erase block
  task : after.task = s.task
  stageActor : after.stage actor = .ready ∨ after.stage actor = .reaping
  stageOther : ∀ it, it ≠ actor → after.stage it = s.stage it

structure Inserted (s after : Lifecycle) (actor block : Nat) : Prop where
  list : after.list = block :: s.list
  live : after.live = s.live
  others : ∀ it, it ≠ block → after.task it = s.task it
  serial : (after.task block).serial = (s.task block).serial
  pid : (after.task block).pid = (s.task block).pid
  blockTask : after.task block = s.task block ∨ (after.task block).parentPid = 0 ∧
    (after.task block).reapBlocked = false ∧ (after.task block).state = .terminated
  stageActor : after.stage actor = .ready ∨ after.stage actor = .reaping
  stageOther : ∀ it, it ≠ actor → after.stage it = s.stage it
  nextPid : after.nextPid = s.nextPid
  nextSerial : after.nextSerial = s.nextSerial
  creations : after.creations = s.creations
  exits : after.exits = s.exits
  removals : after.removals = s.removals
  destroyed : after.destroyed = s.destroyed
  deliveries : after.deliveries = s.deliveries

structure Removed (s after : Lifecycle) (actor victim : Nat) : Prop where
  member : victim ∈ s.list
  list : after.list = s.list.erase victim
  live : after.live = s.live
  task : after.task = s.task
  stageActor : after.stage actor = .removed victim
  stageOther : ∀ it, it ≠ actor → after.stage it = s.stage it
  nextSerial : after.nextSerial = s.nextSerial
  removals : after.removals = ⟨(s.task victim).serial, (s.task victim).state,
    (s.task victim).reapBlocked, victim == actor⟩ :: s.removals
  destroyed : after.destroyed = s.destroyed

theorem holds_creating (creates : s.stage actor = .creating block) :
    (s.stage actor).holds = some block := by
  rw [creates]
  rfl

theorem holds_removed (removed : s.stage actor = .removed victim) :
    (s.stage actor).holds = some victim := by
  rw [removed]
  rfl

theorem createFails_released : Released s (s.createFails actor block) actor block :=
  ⟨rfl, rfl, rfl, Or.inl advance_same, fun _ different => advance_other different⟩

theorem taskDestroy_released : Released s (s.taskDestroy actor victim) actor victim :=
  ⟨rfl, rfl, rfl, Or.inr advance_same, fun _ different => advance_other different⟩

theorem taskListInsert_inserted (attached : Bool) :
    Inserted s (s.taskListInsert actor block attached) actor block := by
  have stageActor : ∀ stage, Function.update s.stage actor stage actor = stage :=
    fun _ => Function.update_self _ _ _
  have stageOther : ∀ stage it, it ≠ actor → Function.update s.stage actor stage it = s.stage it :=
    fun _ _ different => Function.update_of_ne different _ _
  cases attached with
  | true =>
      exact ⟨rfl, rfl, fun _ _ => rfl, rfl, rfl, Or.inl rfl, Or.inl (stageActor _), stageOther _,
        rfl, rfl, rfl, rfl, rfl, rfl, rfl⟩
  | false =>
      generalize stopped : ({ s.task block with
        state := .terminated, reapBlocked := false, parentPid := 0 } : TaskBlock) = fields
      have task : (s.taskListInsert actor block false).task = Function.update s.task block fields := by
        rw [← stopped]
        rfl
      constructor
      case others =>
        intro it different
        rw [task, Function.update_of_ne different]
      case serial => rw [task, Function.update_self, ← stopped]
      case pid => rw [task, Function.update_self, ← stopped]
      case blockTask =>
        rw [task, Function.update_self, ← stopped]
        exact Or.inr ⟨rfl, rfl, rfl⟩
      case stageActor => exact Or.inr (stageActor _)
      case stageOther => exact stageOther _
      all_goals rfl

theorem taskListRemove_removed (member : victim ∈ s.list) :
    Removed s (s.taskListRemove actor victim) actor victim := by
  rw [taskListRemove, if_pos member]
  exact ⟨member, rfl, rfl, rfl, advance_same, fun _ different => advance_other different, rfl, rfl, rfl⟩

theorem Released.acts (made : Released s after actor block) :
    after.Acts other ↔ s.Acts other := by
  rw [Acts, Acts, made.list, made.task]

/-- Between two routines a task holds nothing and has selected nobody. -/
theorem busy_other {stage : Stage}
    (idle : after.stage actor = .ready ∨ after.stage actor = .reaping)
    (isStage : after.stage it = stage)
    (unready : stage ≠ .ready) (unreaping : stage ≠ .reaping) : it ≠ actor := by
  rintro rfl
  rcases idle with ready | reaping
  · exact unready (isStage.symm.trans ready)
  · exact unreaping (isStage.symm.trans reaping)

theorem Stage.busy {stage : Stage} {held : Nat} (holds : stage.holds = some held) :
    stage ≠ .ready ∧ stage ≠ .reaping := by
  constructor
  · rintro rfl
    cases holds
  · rintro rfl
    cases holds

theorem Removed.onList (made : Removed s after actor victim) (inv : Blocks s) :
    it ∈ after.list ↔ it ≠ victim ∧ it ∈ s.list := by
  rw [made.list, inv.listNodup.mem_erase_iff]

theorem Removed.acts (made : Removed s after actor victim) (inv : Blocks s)
    (otherActs : after.Acts other) : s.Acts other := by
  refine ⟨((made.onList inv).mp otherActs.1).2, ?_⟩
  have running := otherActs.2
  rwa [made.task] at running

theorem Removed.heldActor (made : Removed s after actor victim) {held : Nat}
    (holds : (after.stage actor).holds = some held) : held = victim := by
  rw [made.stageActor] at holds
  exact (Option.some.inj holds).symm

section

variable (inv : Blocks s)
include inv

section

variable (acts : s.Acts actor)
include acts

/-- A task in the middle of a routine was on the list before, and it is not the actor. -/
theorem Inserted.earlier (creates : s.stage actor = .creating block)
    (made : Inserted s after actor block) (otherActs : after.Acts other)
    (unready : after.stage other ≠ .ready) (unreaping : after.stage other ≠ .reaping) :
    s.Acts other ∧ other ≠ actor ∧ after.stage other = s.stage other := by
  have offList := (inv.held actor block acts (holds_creating creates)).2
  have different := busy_other made.stageActor rfl unready unreaping
  have notBlock : other ≠ block := by
    rintro rfl
    rw [made.stageOther other different] at unready
    exact unready (inv.creating actor other acts creates)
  rw [Acts, made.list, made.others other notBlock, List.mem_cons, or_iff_right notBlock] at otherActs
  exact ⟨otherActs, different, made.stageOther other different⟩

theorem Blocks.release (holds : (s.stage actor).holds = some block)
    (made : Released s after actor block) : Blocks after := by
  obtain ⟨_, offList⟩ := inv.held actor block acts holds
  have earlier : ∀ other held, (after.stage other).holds = some held →
      other ≠ actor ∧ after.stage other = s.stage other := by
    intro other held otherHolds
    have different := busy_other made.stageActor rfl (Stage.busy otherHolds).1 (Stage.busy otherHolds).2
    exact ⟨different, made.stageOther other different⟩
  have remains : ∀ it, it ∈ after.live ↔ it ≠ block ∧ it ∈ s.live := by
    intro it
    rw [made.live, inv.liveNodup.mem_erase_iff]
  constructor
  case listNodup => exact made.list ▸ inv.listNodup
  case liveNodup => exact made.live ▸ inv.liveNodup.erase block
  case listed =>
    intro it member
    rw [made.list] at member
    refine (remains it).mpr ⟨?_, inv.listed it member⟩
    rintro rfl
    exact offList member
  case held =>
    intro other held otherActs otherHolds
    obtain ⟨different, kept⟩ := earlier other held otherHolds
    rw [kept] at otherHolds
    rw [made.acts] at otherActs
    obtain ⟨heldLive, heldOff⟩ := inv.held other held otherActs otherHolds
    rw [made.list]
    refine ⟨(remains held).mpr ⟨?_, heldLive⟩, heldOff⟩
    rintro rfl
    exact different (inv.oneHolder other actor held otherActs acts otherHolds holds)
  case oneHolder =>
    intro first second held firstActs secondActs firstHolds secondHolds
    rw [(earlier first held firstHolds).2] at firstHolds
    rw [(earlier second held secondHolds).2] at secondHolds
    exact inv.oneHolder first second held (made.acts.mp firstActs) (made.acts.mp secondActs)
      firstHolds secondHolds
  case creating =>
    intro other held otherActs creates
    rw [made.acts] at otherActs
    rw [(earlier other held (holds_creating creates)).2] at creates
    have offHeld := (inv.held other held otherActs (holds_creating creates)).2
    rw [made.stageOther held (fun isActor => offHeld (isActor ▸ acts.1))]
    exact inv.creating other held otherActs creates

theorem Blocks.insert (creates : s.stage actor = .creating block)
    (made : Inserted s after actor block) : Blocks after := by
  have holds := holds_creating creates
  obtain ⟨inLive, offList⟩ := inv.held actor block acts holds
  have earlier : ∀ other held, after.Acts other → (after.stage other).holds = some held →
      s.Acts other ∧ other ≠ actor ∧ after.stage other = s.stage other := by
    intro other held otherActs otherHolds
    obtain ⟨unready, unreaping⟩ := Stage.busy otherHolds
    exact made.earlier inv acts creates otherActs unready unreaping
  constructor
  case listNodup =>
    rw [made.list]
    exact List.nodup_cons.mpr ⟨offList, inv.listNodup⟩
  case liveNodup => exact made.live ▸ inv.liveNodup
  case listed =>
    intro it member
    rw [made.live]
    rw [made.list, List.mem_cons] at member
    rcases member with rfl | member
    · exact inLive
    · exact inv.listed it member
  case held =>
    intro other held otherActs otherHolds
    obtain ⟨actsBefore, different, kept⟩ := earlier other held otherActs otherHolds
    rw [kept] at otherHolds
    obtain ⟨heldLive, heldOff⟩ := inv.held other held actsBefore otherHolds
    rw [made.live, made.list, List.mem_cons, not_or]
    refine ⟨heldLive, ?_, heldOff⟩
    rintro rfl
    exact different (inv.oneHolder other actor held actsBefore acts otherHolds holds)
  case oneHolder =>
    intro first second held firstActs secondActs firstHolds secondHolds
    obtain ⟨firstBefore, _, firstKept⟩ := earlier first held firstActs firstHolds
    obtain ⟨secondBefore, _, secondKept⟩ := earlier second held secondActs secondHolds
    exact inv.oneHolder first second held firstBefore secondBefore (firstKept ▸ firstHolds)
      (secondKept ▸ secondHolds)
  case creating =>
    intro other held otherActs otherCreates
    obtain ⟨actsBefore, _, kept⟩ := earlier other held otherActs (holds_creating otherCreates)
    rw [kept] at otherCreates
    have offHeld := (inv.held other held actsBefore (holds_creating otherCreates)).2
    rw [made.stageOther held (fun isActor => offHeld (isActor ▸ acts.1))]
    exact inv.creating other held actsBefore otherCreates

theorem Blocks.remove (made : Removed s after actor victim) : Blocks after := by
  have heldBefore : ∀ other held, after.Acts other → other ≠ actor →
      (after.stage other).holds = some held → held ∈ s.live ∧ held ∉ s.list := by
    intro other held otherActs different holds
    exact inv.held other held (made.acts inv otherActs) (made.stageOther other different ▸ holds)
  constructor
  case listNodup => exact made.list ▸ inv.listNodup.erase victim
  case liveNodup => exact made.live ▸ inv.liveNodup
  case listed =>
    intro it listed
    rw [made.live]
    exact inv.listed it ((made.onList inv).mp listed).2
  case held =>
    intro other held otherActs holds
    rw [made.live, made.onList inv]
    by_cases isActor : other = actor
    · subst isActor
      rw [made.heldActor holds]
      exact ⟨inv.listed victim made.member, fun listed => listed.1 rfl⟩
    · obtain ⟨heldLive, heldOff⟩ := heldBefore other held otherActs isActor holds
      exact ⟨heldLive, fun listed => heldOff listed.2⟩
  case oneHolder =>
    intro first second held firstActs secondActs firstHolds secondHolds
    by_cases isFirst : first = actor
    · by_cases isSecond : second = actor
      · rw [isFirst, isSecond]
      · have heldOff := (heldBefore second held secondActs isSecond secondHolds).2
        have isVictim : held = victim := made.heldActor (isFirst ▸ firstHolds)
        exact absurd made.member (isVictim ▸ heldOff)
    · by_cases isSecond : second = actor
      · have heldOff := (heldBefore first held firstActs isFirst firstHolds).2
        have isVictim : held = victim := made.heldActor (isSecond ▸ secondHolds)
        exact absurd made.member (isVictim ▸ heldOff)
      · rw [made.stageOther first isFirst] at firstHolds
        rw [made.stageOther second isSecond] at secondHolds
        exact inv.oneHolder first second held (made.acts inv firstActs) (made.acts inv secondActs)
          firstHolds secondHolds
  case creating =>
    intro other held otherActs creates
    have different : other ≠ actor := by
      rintro rfl
      cases made.stageActor.symm.trans creates
    have offHeld := (heldBefore other held otherActs different (holds_creating creates)).2
    rw [made.stageOther held (fun isActor => offHeld (isActor ▸ acts.1))]
    exact inv.creating other held (made.acts inv otherActs) (made.stageOther other different ▸ creates)

theorem Blocks.taskListRemove : Blocks (s.taskListRemove actor victim) := by
  by_cases member : victim ∈ s.list
  · exact inv.remove acts (taskListRemove_removed member)
  · rw [Lifecycle.taskListRemove, if_neg member]
    exact inv.frameAdvance acts rfl

theorem Blocks.exitDetach {code : Int} :
    Blocks (s.exitDetach actor code) := by
  refine inv.frame rfl rfl ?_ ?_ ?_
  · intro it
    change (ite _ _ _ : TaskBlock).state ≠ _ → _
    split
    · exact id
    · exact id
  · intro it unlisted
    exact advance_other (fun isActor => unlisted (isActor ▸ acts.1))
  · intro other _
    by_cases same : other = actor
    · subst same
      have own : (s.exitDetach other code).stage other = .exiting code := advance_same
      rw [own]
      exact Or.inr rfl
    · exact Or.inl (advance_other same)

end

theorem Blocks.modify {address : Nat} (exited : (change (s.task address)).state ≠ .terminated →
      (s.task address).state ≠ .terminated) : Blocks (s.modify address change) := by
  refine inv.frame rfl rfl ?_ (fun _ _ => rfl) (fun _ _ => Or.inl rfl)
  intro it
  by_cases same : it = address
  · subst same
    rw [modify_same]
    exact exited
  · rw [modify_other same]
    exact id

theorem Blocks.waitTurn {childPid : Int} (acts : s.Acts actor) :
    Blocks (s.waitTurn actor childPid) := by
  rw [Lifecycle.waitTurn]
  split
  · exact inv
  split
  next => exact inv
  next child found =>
    have released : Blocks (s.modify child fun old => { old with reapBlocked := false }) :=
      inv.modify id
    have actsAfter : (s.modify child fun old => { old with reapBlocked := false }).Acts actor := by
      refine ⟨acts.1, ?_⟩
      by_cases same : actor = child
      · rw [same, modify_same]
        exact same ▸ acts.2
      · rw [modify_other same]
        exact acts.2
    have advanced := @Blocks.frameAdvance _ actor .reaping released actsAfter rfl
    exact advanced.frame rfl rfl (fun _ => id) (fun _ _ => rfl) (fun _ _ => Or.inl rfl)

theorem Blocks.reapSelect (acts : s.Acts actor) : Blocks (s.reapSelect actor) := by
  rw [Lifecycle.reapSelect]
  split
  next => exact inv.frameAdvance acts rfl
  next => exact inv.frameAdvance acts rfl

theorem Blocks.step {move : Move} (taken : s.step move = some after) :
    Blocks after := by
  obtain ⟨acts, takes⟩ := step_takes taken
  obtain ⟨actor, action⟩ := move
  dsimp only at acts takes
  cases takes with
  | allocate ready allocated =>
      rcases taskAllocate_cases allocated with rfl | made
      · exact inv
      · exact inv.allocate acts made
  | createFails creates => exact inv.release acts (holds_creating creates) createFails_released
  | insert creates => exact inv.insert acts creates (taskListInsert_inserted _)
  | exitDetach ready => exact inv.exitDetach acts
  | exitFinish exits => exact inv.modify (fun running => absurd rfl running)
  | waitTurn ready => exact inv.waitTurn acts
  | reapStart ready => exact inv.frameAdvance acts rfl
  | reapSelect reaps => exact inv.reapSelect acts
  | reapRemove selects => exact inv.taskListRemove acts
  | reapDestroy removed => exact inv.release acts (holds_removed removed) taskDestroy_released

end

theorem booted_blocks (idle : Nat) : Blocks (booted idle) where
  listNodup := List.nodup_singleton idle
  liveNodup := List.nodup_singleton idle
  listed _ member := member
  held _ _ _ holds := nomatch holds
  oneHolder _ _ _ _ _ holds := nomatch holds
  creating _ _ _ creates := nomatch creates

end BlockSteps

end Lifecycle

end Szczupak
