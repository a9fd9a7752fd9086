import Szczupak.Task.Blocks

/-!
What the reaper may take.  `Reaps` adds to `Blocks` what the reaper has selected and removed.
It needs that no task is created at an address which some task has selected and not yet looked
for on the list.
-/

namespace Szczupak

namespace Lifecycle

structure Reaps (s : Lifecycle) : Prop extends Blocks s where
  selected : ∀ actor victim, s.Acts actor → s.stage actor = .selected victim →
    s.reapable actor victim = true
  logged : ∀ actor victim, s.Acts actor → s.stage actor = .removed victim →
    (s.task victim).serial ∈ s.removals.map Removal.serial
  oneSerial : ∀ it ∈ s.live, ∀ other ∈ s.live,
    (s.task it).serial = (s.task other).serial → it = other
  fresh : ∀ it ∈ s.live, (s.task it).serial < s.nextSerial ∧ (s.task it).serial ∉ s.destroyed
  old : ∀ serial ∈ s.destroyed, serial < s.nextSerial ∧ serial ∈ s.removals.map Removal.serial
  once : s.destroyed.Nodup
  removals : ∀ removal ∈ s.removals,
    removal.state = .terminated ∧ removal.reapBlocked = false ∧ removal.isCurrent = false

/-- A task that may be reaped stays so; a task that has exited does not come back. -/
structure Milder (old new : TaskBlock) : Prop where
  serial : new.serial = old.serial
  exited : new.state ≠ .terminated → old.state ≠ .terminated
  reapable : old.state = .terminated → old.reapBlocked = false →
    new.state = .terminated ∧ new.reapBlocked = false

theorem Milder.refl (task : TaskBlock) : Milder task task :=
  ⟨rfl, id, fun exited free => ⟨exited, free⟩⟩

section Frame

variable {s after : Lifecycle}

theorem reapable_iff {actor it : Nat} : s.reapable actor it = true ↔
    it ≠ actor ∧ (s.task it).state = .terminated ∧ (s.task it).reapBlocked = false := by
  simp [reapable, and_assoc]

theorem reapable_mono {actor it : Nat} (milder : Milder (s.task it) (after.task it))
    (holds : s.reapable actor it = true) : after.reapable actor it = true := by
  rw [reapable_iff] at holds ⊢
  exact ⟨holds.1, milder.reapable holds.2.1 holds.2.2⟩

theorem Reaps.frame (inv : Reaps s) (list : after.list = s.list) (live : after.live = s.live)
    (nextSerial : after.nextSerial = s.nextSerial) (removals : after.removals = s.removals)
    (destroyed : after.destroyed = s.destroyed)
    (tasks : ∀ it, Milder (s.task it) (after.task it))
    (unlisted : ∀ it, it ∉ s.list → after.stage it = s.stage it)
    (stage : ∀ actor, after.Acts actor → after.stage actor = s.stage actor ∨
      ((after.stage actor).holds = none ∧
        ∀ victim, after.stage actor = .selected victim → s.reapable actor victim = true)) :
    Reaps after := by
  have acted : ∀ actor, after.Acts actor → s.Acts actor := by
    intro actor acts
    exact ⟨list ▸ acts.1, (tasks actor).exited acts.2⟩
  have kept : ∀ actor block, after.Acts actor → (after.stage actor).holds = some block →
      (s.stage actor).holds = some block ∧ after.stage actor = s.stage actor := by
    intro actor block acts holds
    rcases stage actor acts with same | ⟨free, _⟩
    · exact ⟨same ▸ holds, same⟩
    · rw [free] at holds
      cases holds
  have blocks : Blocks after := inv.toBlocks.frame list live (fun it => (tasks it).exited) unlisted
    (fun actor acts => (stage actor acts).imp_right And.left)
  refine { blocks with
    selected := ?_, logged := ?_, oneSerial := ?_, fresh := ?_
    old := by rw [destroyed, nextSerial, removals]; exact inv.old
    once := destroyed ▸ inv.once
    removals := removals ▸ inv.removals }
  · intro actor victim acts selects
    rcases stage actor acts with same | ⟨_, chosen⟩
    · exact reapable_mono (tasks victim)
        (inv.selected actor victim (acted actor acts) (same ▸ selects))
    · exact reapable_mono (tasks victim) (chosen victim selects)
  · intro actor victim acts removed
    have holds : (after.stage actor).holds = some victim := by rw [removed]; rfl
    rw [(tasks victim).serial, removals]
    exact inv.logged actor victim (acted actor acts) ((kept actor victim acts holds).2 ▸ removed)
  · intro it member other otherMember same
    rw [live] at member otherMember
    rw [(tasks it).serial, (tasks other).serial] at same
    exact inv.oneSerial it member other otherMember same
  · intro it member
    rw [(tasks it).serial, nextSerial, destroyed]
    exact inv.fresh it (live ▸ member)

theorem milder_modify {address : Nat} {change : TaskBlock → TaskBlock}
    (milder : Milder (s.task address) (change (s.task address))) (it : Nat) :
    Milder (s.task it) ((s.modify address change).task it) := by
  by_cases same : it = address
  · subst same
    rw [modify_same]
    exact milder
  · rw [modify_other same]
    exact Milder.refl _

end Frame

def Unselected (s : Lifecycle) (move : Move) : Prop :=
  match move.action with
  | .allocate block _ => ∀ other ∈ s.list, s.stage other ≠ .selected block
  | _ => True

instance (s : Lifecycle) (move : Move) : Decidable (s.Unselected move) :=
  match move with
  | ⟨_, .allocate _ _⟩ => inferInstanceAs (Decidable (∀ _ ∈ s.list, _))
  | ⟨_, .createFails⟩ | ⟨_, .insert _⟩ | ⟨_, .exitDetach _⟩ | ⟨_, .exitFinish⟩ | ⟨_, .waitTurn _⟩
  | ⟨_, .reapStart⟩ | ⟨_, .reapSelect⟩ | ⟨_, .reapRemove⟩ | ⟨_, .reapDestroy⟩ => .isTrue trivial

section Steps

variable {s after : Lifecycle} {actor block victim : Nat}

theorem Reaps.frameAdvance {stage : Stage} (inv : Reaps s) (acts : s.Acts actor)
    (free : stage.holds = none)
    (chosen : ∀ victim, stage = .selected victim → s.reapable actor victim = true) :
    Reaps (s.advance actor stage) := by
  refine inv.frame rfl rfl rfl rfl rfl (fun _ => Milder.refl _) ?_ ?_
  · intro it unlisted
    refine advance_other ?_
    rintro rfl
    exact unlisted acts.1
  · intro other _
    by_cases same : other = actor
    · subst same
      rw [advance_same]
      exact Or.inr ⟨free, chosen⟩
    · exact Or.inl (advance_other same)

section Allocated

variable {kernel : Bool}

theorem Reaps.allocate (inv : Reaps s) (acts : s.Acts actor)
    (unselected : ∀ other ∈ s.list, s.stage other ≠ .selected block)
    (made : Allocated s after actor block kernel) : Reaps after := by
  have stageOther : ∀ other, s.Acts other → other ≠ actor → after.stage other = s.stage other :=
    fun other otherActs different => made.stageOther different (made.unlisted inv.toBlocks otherActs.1)
  have blocks := inv.toBlocks.allocate acts made
  refine { blocks with
    selected := ?selected, logged := ?logged, oneSerial := ?oneSerial, fresh := ?fresh, old := ?old
    once := ?once, removals := ?removals }
  case selected =>
    intro other victim otherActs selects
    rw [made.acts inv.toBlocks] at otherActs
    have different : other ≠ actor := by
      rintro rfl
      rw [made.stageActor] at selects
      cases selects
    rw [stageOther other otherActs different] at selects
    have notBlock : victim ≠ block := by
      rintro rfl
      exact unselected other otherActs.1 selects
    have kept := inv.selected other victim otherActs selects
    rw [reapable_iff] at kept ⊢
    rw [made.taskOther notBlock]
    exact kept
  case logged =>
    intro other victim otherActs removed
    rw [made.acts inv.toBlocks] at otherActs
    have different : other ≠ actor := by
      rintro rfl
      rw [made.stageActor] at removed
      cases removed
    rw [stageOther other otherActs different] at removed
    have inLive := (inv.held other victim otherActs (by rw [removed]; rfl)).1
    have notBlock : victim ≠ block := fun isBlock => made.unused (isBlock ▸ inLive)
    rw [made.taskOther notBlock, made.removals]
    exact inv.logged other victim otherActs removed
  case oneSerial =>
    have new : ∀ it ∈ s.live, (after.task it).serial ≠ (after.task block).serial := by
      intro it member same
      have notBlock : it ≠ block := fun isBlock => made.unused (isBlock ▸ member)
      rw [made.taskOther notBlock, made.taskSame] at same
      exact absurd same (Nat.ne_of_lt (inv.fresh it member).1)
    intro it member other otherMember same
    rw [made.live, List.mem_cons] at member otherMember
    rcases member with rfl | member
    · rcases otherMember with rfl | otherMember
      · rfl
      · exact absurd same.symm (new other otherMember)
    · rcases otherMember with rfl | otherMember
      · exact absurd same (new it member)
      · have notBlock : it ≠ block := fun isBlock => made.unused (isBlock ▸ member)
        have otherNotBlock : other ≠ block := fun isBlock => made.unused (isBlock ▸ otherMember)
        rw [made.taskOther notBlock, made.taskOther otherNotBlock] at same
        exact inv.oneSerial it member other otherMember same
  case fresh =>
    intro it member
    rw [made.nextSerial, made.destroyed]
    rw [made.live, List.mem_cons] at member
    rcases member with rfl | member
    · rw [made.taskSame]
      exact ⟨Nat.lt_succ_self _, fun gone => absurd (inv.old _ gone).1 (Nat.lt_irrefl _)⟩
    · have notBlock : it ≠ block := fun isBlock => made.unused (isBlock ▸ member)
      rw [made.taskOther notBlock]
      obtain ⟨below, alive⟩ := inv.fresh it member
      exact ⟨Nat.lt_succ_of_lt below, alive⟩
  case old =>
    intro serial gone
    rw [made.destroyed] at gone
    rw [made.nextSerial, made.removals]
    exact ⟨Nat.lt_succ_of_lt (inv.old serial gone).1, (inv.old serial gone).2⟩
  case once => exact made.destroyed ▸ inv.once
  case removals => exact made.removals ▸ inv.removals

end Allocated

theorem Reaps.release (inv : Reaps s) (acts : s.Acts actor)
    (holds : (s.stage actor).holds = some block) (made : Released s after actor block)
    (nextSerial : after.nextSerial = s.nextSerial) (removals : after.removals = s.removals)
    (destroyed : after.destroyed = s.destroyed ∨
      after.destroyed = (s.task block).serial :: s.destroyed ∧
        (s.task block).serial ∈ s.removals.map Removal.serial) :
    Reaps after := by
  obtain ⟨inLive, _⟩ := inv.held actor block acts holds
  have remains : ∀ it, it ∈ after.live ↔ it ≠ block ∧ it ∈ s.live := by
    intro it
    rw [made.live, inv.liveNodup.mem_erase_iff]
  refine { inv.toBlocks.release acts holds made with
    selected := ?selected, logged := ?logged, oneSerial := ?oneSerial, fresh := ?fresh, old := ?old
    once := ?once, removals := ?removals }
  case selected =>
    intro other victim otherActs selects
    rw [made.stageOther other (busy_other made.stageActor selects nofun nofun)] at selects
    rw [reapable_iff, made.task, ← reapable_iff]
    exact inv.selected other victim (made.acts.mp otherActs) selects
  case logged =>
    intro other victim otherActs removed
    rw [made.stageOther other (busy_other made.stageActor removed nofun nofun)] at removed
    rw [made.task, removals]
    exact inv.logged other victim (made.acts.mp otherActs) removed
  case oneSerial =>
    intro it member other otherMember equal
    rw [made.task] at equal
    exact inv.oneSerial it ((remains it).mp member).2 other ((remains other).mp otherMember).2 equal
  case fresh =>
    intro it member
    obtain ⟨notBlock, wasLive⟩ := (remains it).mp member
    obtain ⟨below, alive⟩ := inv.fresh it wasLive
    rw [made.task, nextSerial]
    refine ⟨below, ?_⟩
    rcases destroyed with kept | ⟨grown, _⟩
    · rwa [kept]
    · rw [grown, List.mem_cons, not_or]
      refine ⟨fun equal => notBlock (inv.oneSerial it wasLive block inLive equal), alive⟩
  case old =>
    intro serial gone
    rw [nextSerial, removals]
    rcases destroyed with kept | ⟨grown, recorded⟩
    · exact inv.old serial (kept ▸ gone)
    · rw [grown, List.mem_cons] at gone
      rcases gone with rfl | earlier
      · exact ⟨(inv.fresh block inLive).1, recorded⟩
      · exact inv.old serial earlier
  case once =>
    rcases destroyed with kept | ⟨grown, _⟩
    · exact kept ▸ inv.once
    · rw [grown]
      exact List.nodup_cons.mpr ⟨(inv.fresh block inLive).2, inv.once⟩
  case removals => exact removals ▸ inv.removals

theorem Inserted.milder (made : Inserted s after actor block) (it : Nat) :
    Milder (s.task it) (after.task it) := by
  by_cases isBlock : it = block
  · subst isBlock
    rcases made.blockTask with kept | ⟨_, free, exited⟩
    · exact kept ▸ Milder.refl _
    · exact ⟨made.serial, fun running => absurd exited running, fun _ _ => ⟨exited, free⟩⟩
  · exact made.others it isBlock ▸ Milder.refl _

theorem Reaps.insert (inv : Reaps s) (acts : s.Acts actor) (creates :
    s.stage actor = .creating block) (made : Inserted s after actor block) : Reaps after := by
  have serials : ∀ it, (after.task it).serial = (s.task it).serial := fun it => (made.milder it).serial
  refine { inv.toBlocks.insert acts creates made with
    selected := ?selected, logged := ?logged, oneSerial := ?oneSerial, fresh := ?fresh, old := ?old
    once := ?once, removals := ?removals }
  case selected =>
    intro other victim otherActs selects
    obtain ⟨actsBefore, _, kept⟩ := made.earlier inv.toBlocks acts creates otherActs
      (by rw [selects]; nofun) (by rw [selects]; nofun)
    exact reapable_mono (made.milder victim) (inv.selected other victim actsBefore (kept ▸ selects))
  case logged =>
    intro other victim otherActs removed
    obtain ⟨actsBefore, _, kept⟩ := made.earlier inv.toBlocks acts creates otherActs
      (by rw [removed]; nofun) (by rw [removed]; nofun)
    rw [serials, made.removals]
    exact inv.logged other victim actsBefore (kept ▸ removed)
  case oneSerial =>
    intro it member other otherMember same
    rw [made.live] at member otherMember
    rw [serials, serials] at same
    exact inv.oneSerial it member other otherMember same
  case fresh =>
    intro it member
    rw [serials, made.nextSerial, made.destroyed]
    exact inv.fresh it (made.live ▸ member)
  case old => rw [made.destroyed, made.nextSerial, made.removals]; exact inv.old
  case once => exact made.destroyed ▸ inv.once
  case removals => exact made.removals ▸ inv.removals

theorem Reaps.remove (inv : Reaps s) (acts : s.Acts actor) (selects :
    s.stage actor = .selected victim) (made : Removed s after actor victim) : Reaps after := by
  have chosen := reapable_iff.mp (inv.selected actor victim acts selects)
  refine { inv.toBlocks.remove acts made with
    selected := ?selected, logged := ?logged, oneSerial := ?oneSerial, fresh := ?fresh, old := ?old
    once := ?once, removals := ?removals }
  case selected =>
    intro other chosenVictim otherActs otherSelects
    have different : other ≠ actor := by
      rintro rfl
      cases made.stageActor.symm.trans otherSelects
    rw [reapable_iff, made.task, ← reapable_iff]
    exact inv.selected other chosenVictim (made.acts inv.toBlocks otherActs)
      (made.stageOther other different ▸ otherSelects)
  case logged =>
    intro other held otherActs removed
    rw [made.task, made.removals, List.map_cons, List.mem_cons]
    by_cases isActor : other = actor
    · subst isActor
      rw [made.heldActor (holds_removed removed)]
      exact Or.inl rfl
    · exact Or.inr (inv.logged other held (made.acts inv.toBlocks otherActs)
        (made.stageOther other isActor ▸ removed))
  case oneSerial => rw [made.live, made.task]; exact inv.oneSerial
  case fresh => rw [made.live, made.task, made.nextSerial, made.destroyed]; exact inv.fresh
  case old =>
    intro serial gone
    rw [made.destroyed] at gone
    rw [made.nextSerial, made.removals, List.map_cons]
    exact ⟨(inv.old serial gone).1, List.mem_cons_of_mem _ (inv.old serial gone).2⟩
  case once => exact made.destroyed ▸ inv.once
  case removals =>
    intro removal logged
    rw [made.removals, List.mem_cons] at logged
    rcases logged with rfl | earlier
    · exact ⟨chosen.2.1, chosen.2.2, beq_eq_false_iff_ne.mpr chosen.1⟩
    · exact inv.removals removal earlier

theorem Reaps.taskListRemove (inv : Reaps s) (acts : s.Acts actor)
    (selects : s.stage actor = .selected victim) : Reaps (s.taskListRemove actor victim) := by
  by_cases member : victim ∈ s.list
  · exact inv.remove acts selects (taskListRemove_removed member)
  · rw [Lifecycle.taskListRemove, if_neg member]
    exact inv.frameAdvance acts rfl (by simp)

theorem Reaps.exitDetach {code : Int} (inv : Reaps s) (acts : s.Acts actor) :
    Reaps (s.exitDetach actor code) := by
  refine inv.frame rfl rfl rfl rfl rfl ?_ ?_ ?_
  · intro it
    change Milder (s.task it) (if _ then _ else _)
    split
    · exact ⟨rfl, id, fun exited _ => ⟨exited, rfl⟩⟩
    · exact Milder.refl _
  · intro it unlisted
    exact advance_other (fun isActor => unlisted (isActor ▸ acts.1))
  · intro other _
    by_cases same : other = actor
    · subst same
      have own : (s.exitDetach other code).stage other = .exiting code := advance_same
      rw [own]
      exact Or.inr ⟨rfl, fun _ selects => by cases selects⟩
    · exact Or.inl (advance_other same)

theorem Reaps.exitFinish {code : Int} (inv : Reaps s) (acts : s.Acts actor) :
    Reaps (s.exitFinish actor code) := by
  refine inv.frame rfl rfl rfl rfl rfl ?_ (fun _ _ => rfl) (fun _ _ => Or.inl rfl)
  exact milder_modify ⟨rfl, fun running => absurd rfl running, fun exited _ => absurd exited acts.2⟩

theorem exitedChild_spec {childPid : Int} {child : Nat}
    (found : s.exitedChild actor childPid = some child) :
    child ∈ s.list ∧ (s.task child).parentPid = (s.task actor).pid ∧
      (childPid = -1 ∨ ((s.task child).pid : Int) = childPid) ∧
      (s.task child).state = .terminated := by
  have matched := List.find?_some found
  simp only [Bool.and_eq_true, beq_iff_eq, Bool.or_eq_true] at matched
  exact ⟨List.mem_of_find?_eq_some found, matched.1.1, matched.1.2, matched.2⟩

theorem Reaps.waitTurn {childPid : Int} (inv : Reaps s) (acts : s.Acts actor) :
    Reaps (s.waitTurn actor childPid) := by
  rw [Lifecycle.waitTurn]
  split
  · exact inv
  split
  next => exact inv
  next child found =>
    refine inv.frame rfl rfl rfl rfl rfl ?_ ?_ ?_
    · intro it
      exact @milder_modify s child (fun old => { old with reapBlocked := false })
        ⟨rfl, id, fun exited _ => ⟨exited, rfl⟩⟩ it
    · intro it unlisted
      exact advance_other (fun isActor => unlisted (isActor ▸ acts.1))
    · intro other _
      by_cases same : other = actor
      · subst same
        refine Or.inr ⟨?_, fun victim selects => ?_⟩
        · exact congrArg Stage.holds advance_same
        · cases advance_same.symm.trans selects
      · exact Or.inl (advance_other same)

theorem Reaps.reapSelect (inv : Reaps s) (acts : s.Acts actor) : Reaps (s.reapSelect actor) := by
  rw [Lifecycle.reapSelect]
  split
  next => exact inv.frameAdvance acts rfl (by simp)
  next victim found =>
    refine inv.frameAdvance acts rfl ?_
    rintro other same
    cases same
    exact List.find?_some found

theorem Reaps.step {move : Move} (inv : Reaps s) (unselected : s.Unselected move)
    (taken : s.step move = some after) : Reaps after := by
  obtain ⟨acts, takes⟩ := step_takes taken
  obtain ⟨actor, action⟩ := move
  dsimp only at acts takes
  cases takes with
  | allocate ready allocated =>
      rcases taskAllocate_cases allocated with rfl | made
      · exact inv
      · exact inv.allocate acts unselected made
  | createFails creates =>
      exact inv.release acts (holds_creating creates) createFails_released rfl rfl (Or.inl rfl)
  | insert creates => exact inv.insert acts creates (taskListInsert_inserted _)
  | exitDetach ready => exact inv.exitDetach acts
  | exitFinish exits => exact inv.exitFinish acts
  | waitTurn ready => exact inv.waitTurn acts
  | reapStart ready => exact inv.frameAdvance acts rfl nofun
  | reapSelect reaps => exact inv.reapSelect acts
  | reapRemove selects => exact inv.taskListRemove acts selects
  | reapDestroy removed =>
      exact inv.release acts (holds_removed removed) taskDestroy_released rfl rfl
        (Or.inr ⟨rfl, inv.logged _ _ acts removed⟩)

theorem booted_reaps (idle : Nat) : Reaps (booted idle) where
  toBlocks := booted_blocks idle
  selected _ _ _ selects := nomatch selects
  logged _ _ _ removed := nomatch removed
  oneSerial _ member _ otherMember _ :=
    (List.mem_singleton.mp member).trans (List.mem_singleton.mp otherMember).symm
  fresh _ _ := ⟨Nat.zero_lt_one, List.not_mem_nil⟩
  old _ gone := nomatch gone
  once := List.nodup_nil
  removals _ logged := nomatch logged

end Steps

/-- What the reaper may do: each task that leaves the list has exited, is not kept for its
parent and is not the one running, and every destroyed task is one of these, destroyed once. -/
def ReapsSafely (s : Lifecycle) : Prop :=
  (∀ removal ∈ s.removals,
    removal.state = .terminated ∧ removal.reapBlocked = false ∧ removal.isCurrent = false) ∧
  (∀ serial ∈ s.destroyed, serial ∈ s.removals.map Removal.serial) ∧
  s.destroyed.Nodup

theorem reaper_takes_exited_tasks_once {idle : Nat} {moves : List Move} {final : Lifecycle}
    (unselected : RunMeets step Unselected (booted idle) moves)
    (reached : runActions step (booted idle) moves = some final) : ReapsSafely final := by
  have inv : Reaps final := runActions_guarded (fun _ _ _ inv guard taken => inv.step guard taken)
    (booted_reaps idle) unselected reached
  exact ⟨inv.removals, fun serial gone => (inv.old serial gone).2, inv.once⟩

/-- The shell at 32 creates the tasks at 48 and 80, the task at 48 creates one at 64.  The last
two exit.  The task at 48 waits for its child and selects it; before it goes on, the shell
waits for the task at 80 and reaps both. -/
def childrenWaited : List Move := [
  ⟨16, .allocate 32 false⟩, ⟨16, .insert true⟩, ⟨32, .allocate 48 false⟩, ⟨32, .insert true⟩,
  ⟨48, .allocate 64 false⟩, ⟨48, .insert true⟩, ⟨32, .allocate 80 false⟩, ⟨32, .insert true⟩,
  ⟨64, .exitDetach 7⟩, ⟨64, .exitFinish⟩, ⟨80, .exitDetach 9⟩, ⟨80, .exitFinish⟩,
  ⟨48, .waitTurn (-1)⟩, ⟨48, .reapSelect⟩,
  ⟨32, .waitTurn (-1)⟩, ⟨32, .reapSelect⟩, ⟨32, .reapRemove⟩, ⟨32, .reapDestroy⟩,
  ⟨32, .reapSelect⟩, ⟨32, .reapRemove⟩, ⟨32, .reapDestroy⟩, ⟨32, .reapSelect⟩]

def childrenReapedOnce : List Move := childrenWaited ++ [
  ⟨48, .reapRemove⟩, ⟨48, .reapSelect⟩, ⟨32, .allocate 64 false⟩, ⟨32, .insert true⟩]

theorem childrenReapedOnce_safe : ∃ final,
    runActions step (booted 16) childrenReapedOnce = some final ∧ final.destroyed = [3, 4] ∧
    ReapsSafely final := by
  have runs : (runActions step (booted 16) childrenReapedOnce).map Lifecycle.destroyed =
      some [3, 4] := by
    decide +kernel
  obtain ⟨final, reached, destroyed⟩ := Option.map_eq_some_iff.mp runs
  exact ⟨final, reached, destroyed, reaper_takes_exited_tasks_once (by decide +kernel) reached⟩

def addressReused : List Move := childrenWaited ++ [
  ⟨32, .allocate 64 false⟩, ⟨32, .insert true⟩, ⟨48, .reapRemove⟩, ⟨48, .reapDestroy⟩]

/-- The new task is destroyed while it is ready to run. -/
theorem reused_address_is_reaped : ¬ ∀ (idle : Nat) (moves : List Move) (final : Lifecycle),
    runActions step (booted idle) moves = some final → ReapsSafely final := by
  intro safe
  have runs : (runActions step (booted 16) addressReused).map
      (fun s => s.removals.map Removal.state) = some [.ready, .terminated, .terminated] := by
    decide +kernel
  obtain ⟨final, reached, states⟩ := Option.map_eq_some_iff.mp runs
  have member : TaskState.ready ∈ final.removals.map Removal.state := states ▸ List.mem_cons_self
  obtain ⟨removal, logged, isReady⟩ := List.mem_map.mp member
  have exited := ((safe 16 addressReused final reached).1 removal logged).1
  rw [isReady] at exited
  cases exited

end Lifecycle

end Szczupak
