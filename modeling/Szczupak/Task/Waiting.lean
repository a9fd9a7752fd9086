import Szczupak.Task.Pids

/-!
What a wait may deliver.  `Waits` adds the ties between parents and children to `Reaps`; it
also needs that no pid is handed out twice.
-/

namespace Szczupak

namespace Lifecycle

def inReap : Stage → Bool
  | .reaping | .selected _ | .removed _ => true
  | _ => false

/-- Pids come from a counter that passed them, so one that has not come back to 0 is new. -/
structure Counted (s : Lifecycle) : Prop where
  bound : s.nextPid < 2 ^ 32
  below : s.nextPid ≠ 0 → ∀ it ∈ s.live, (s.task it).pid < s.nextPid

structure Logs (s : Lifecycle) : Prop where
  logsOld : (∀ creation ∈ s.creations, creation.child < s.nextSerial) ∧
    (∀ exit ∈ s.exits, exit.serial < s.nextSerial) ∧
    ∀ delivery ∈ s.deliveries, delivery.child < s.nextSerial
  createdOnce : (s.creations.map Creation.child).Nodup
  exitedOnce : (s.exits.map ExitCall.serial).Nodup
  deliveredOnce : (s.deliveries.map Delivery.child).Nodup
  deliveries : ∀ delivery ∈ s.deliveries,
    (delivery.asked = -1 ∨ delivery.asked = delivery.pid) ∧
    ⟨delivery.child, delivery.pid, delivery.code⟩ ∈ s.exits ∧
    ⟨delivery.child, delivery.waiter⟩ ∈ s.creations

structure Newborn (s : Lifecycle) (actor block : Nat) : Prop where
  parent : (s.task block).parentPid = (s.task actor).pid
  made : ⟨(s.task block).serial, (s.task actor).serial⟩ ∈ s.creations
  blocked : (s.task block).reapBlocked = true → (s.task block).parentPid ≠ 0
  runs : (s.task block).state ≠ .terminated
  undelivered : (s.task block).serial ∉ s.deliveries.map Delivery.child

structure Waits (s : Lifecycle) : Prop extends Logs s where
  parents : ∀ it ∈ s.list, (s.task it).parentPid ≠ 0 → ∃ parent, s.Acts parent ∧
    (s.task parent).pid = (s.task it).parentPid ∧
    ⟨(s.task it).serial, (s.task parent).serial⟩ ∈ s.creations ∧
    ∀ code, s.stage parent ≠ .exiting code
  blocked : ∀ it ∈ s.list, (s.task it).reapBlocked = true → (s.task it).parentPid ≠ 0
  newborn : ∀ actor block, s.Acts actor → s.stage actor = .creating block → s.Newborn actor block
  exiting : ∀ actor code, s.Acts actor → s.stage actor = .exiting code →
    ⟨(s.task actor).serial, (s.task actor).pid, code⟩ ∈ s.exits
  exited : ∀ it ∈ s.list, (s.task it).state = .terminated → (s.task it).parentPid ≠ 0 →
    ⟨(s.task it).serial, (s.task it).pid, (s.task it).exitCode⟩ ∈ s.exits
  exitOpen : ∀ it ∈ s.live, (s.task it).serial ∈ s.exits.map ExitCall.serial →
    (s.task it).state = .terminated ∨ ∃ code, s.stage it = .exiting code
  delivered : ∀ it ∈ s.list, (s.task it).serial ∈ s.deliveries.map Delivery.child →
    (s.task it).state = .terminated ∧ (s.task it).reapBlocked = false ∧
    ∃ parent, s.Acts parent ∧ (s.task parent).pid = (s.task it).parentPid ∧
      inReap (s.stage parent) = true

section WaitSteps

variable {s after : Lifecycle} {actor block victim : Nat} {code : Int}

theorem Logs.same (logs : Logs s) (nextSerial : after.nextSerial = s.nextSerial)
    (creations : after.creations = s.creations) (exits : after.exits = s.exits)
    (deliveries : after.deliveries = s.deliveries) : Logs after := by
  obtain ⟨old, createdOnce, exitedOnce, deliveredOnce, delivers⟩ := logs
  rw [← creations, ← exits, ← deliveries] at old delivers
  exact ⟨nextSerial ▸ old, creations ▸ createdOnce, exits ▸ exitedOnce,
    deliveries ▸ deliveredOnce, delivers⟩

theorem Newborn.kept (new : s.Newborn actor block) (kept : after.task block = s.task block)
    (serial : (after.task actor).serial = (s.task actor).serial)
    (pid : (after.task actor).pid = (s.task actor).pid) (creations : after.creations = s.creations)
    (undelivered : (s.task block).serial ∉ after.deliveries.map Delivery.child) :
    after.Newborn actor block := by
  constructor
  case parent => rw [kept, pid]; exact new.parent
  case made => rw [kept, serial, creations]; exact new.made
  case blocked => rw [kept]; exact new.blocked
  case runs => rw [kept]; exact new.runs
  case undelivered => rw [kept]; exact undelivered

theorem Counted.fresh (counted : Counted s) {it : Nat} (unwrapped : s.nextPid ≠ 0)
    (member : it ∈ s.live) : (s.task it).pid ≠ s.nextPid :=
  Nat.ne_of_lt (counted.below unwrapped it member)

theorem Waits.quiet {stage : Stage} (inv : Waits s) (list : ∀ it, it ∈ after.list → it ∈ s.list)
    (listKept : ∀ it, s.Acts it → it ∈ after.list)
    (live : ∀ it, it ∈ after.live → it ∈ s.live) (task : after.task = s.task)
    (stages : after.stage = Function.update s.stage actor stage)
    (notExiting : ∀ code, stage ≠ .exiting code) (notCreating : ∀ block, stage ≠ .creating block)
    (wasOpen : ∀ code, s.stage actor ≠ .exiting code)
    (stays : inReap stage = true ∨ ∀ it ∈ s.list, (s.task it).serial ∈
      s.deliveries.map Delivery.child → (s.task actor).pid ≠ (s.task it).parentPid)
    (nextSerial : after.nextSerial = s.nextSerial)
    (creations : after.creations = s.creations) (exits : after.exits = s.exits)
    (deliveries : after.deliveries = s.deliveries) : Waits after := by
  have actsIff : ∀ other, after.Acts other ↔ s.Acts other := by
    intro other
    refine ⟨fun otherActs => ⟨list other otherActs.1, ?_⟩, fun otherActs => ⟨listKept other otherActs, ?_⟩⟩
    · have running := otherActs.2
      rwa [task] at running
    · rw [task]
      exact otherActs.2
  have same : ∀ other, other ≠ actor → after.stage other = s.stage other := by
    intro other different
    rw [stages, Function.update_of_ne different]
  have own : after.stage actor = stage := by
    rw [stages, Function.update_self]
  have createsBefore : ∀ other held, after.stage other = .creating held →
    s.stage other = .creating held := by
    intro other held creates
    rw [← same other ?_]
    · exact creates
    · rintro rfl
      exact notCreating held (own.symm.trans creates)
  refine { inv.toLogs.same nextSerial creations exits deliveries with
    parents := ?parents, blocked := ?blocked, newborn := ?newborn, exiting := ?exiting, exited := ?exited
    exitOpen := ?exitOpen, delivered := ?delivered }
  case parents =>
    intro it member nonzero
    rw [task] at nonzero ⊢
    obtain ⟨parent, parentActs, pid, made, open'⟩ := inv.parents it (list it member) nonzero
    rw [creations]
    refine ⟨parent, (actsIff parent).mpr parentActs, pid, made, fun code => ?_⟩
    by_cases isActor : parent = actor
    · rw [isActor, own]
      exact notExiting code
    · rw [same parent isActor]
      exact open' code
  case blocked =>
    intro it member
    rw [task]
    exact inv.blocked it (list it member)
  case newborn =>
    intro other held otherActs creates
    have new := inv.newborn other held ((actsIff other).mp otherActs) (createsBefore other held creates)
    exact new.kept (by rw [task]) (by rw [task]) (by rw [task]) creations (deliveries ▸ new.undelivered)
  case exiting =>
    intro other code otherActs exiting
    have different : other ≠ actor := by
      rintro rfl
      exact notExiting code (own.symm.trans exiting)
    rw [same other different] at exiting
    rw [task, exits]
    exact inv.exiting other code ((actsIff other).mp otherActs) exiting
  case exited =>
    intro it member
    rw [task, exits]
    exact inv.exited it (list it member)
  case exitOpen =>
    intro it member logged
    rw [task, exits] at logged
    rw [task]
    rcases inv.exitOpen it (live it member) logged with gone | ⟨code, exiting⟩
    · exact Or.inl gone
    · have different : it ≠ actor := by
        rintro rfl
        exact wasOpen code exiting
      exact Or.inr ⟨code, (same it different).trans exiting⟩
  case delivered =>
    intro it member logged
    rw [task, deliveries] at logged
    obtain ⟨gone, free, parent, parentActs, pid, reaping⟩ := inv.delivered it (list it member) logged
    rw [task]
    refine ⟨gone, free, parent, (actsIff parent).mpr parentActs, pid, ?_⟩
    by_cases isActor : parent = actor
    · subst isActor
      rw [own]
      rcases stays with still | none
      · exact still
      · exact absurd pid (none it (list it member) logged)
    · rw [same parent isActor]
      exact reaping

theorem Waits.allocate {kernel : Bool} (inv : Waits s) (reaps : Reaps s) (acts : s.Acts actor)
    (ready : s.stage actor = .ready)
    (made : Allocated s after actor block kernel) : Waits after := by
  have actsIff : ∀ other, after.Acts other ↔ s.Acts other := fun other => made.acts reaps.toBlocks
  have taskListed : ∀ it, it ∈ s.list → after.task it = s.task it :=
    fun it member => made.taskOther (made.unlisted reaps.toBlocks member)
  have taskLive : ∀ it, it ∈ s.live → after.task it = s.task it :=
    fun it member => made.taskOther (fun isBlock => made.unused (isBlock ▸ member))
  have stageOther : ∀ other, other ∈ s.list → other ≠ actor → after.stage other = s.stage other :=
    fun other member different => made.stageOther different (made.unlisted reaps.toBlocks member)
  have newSerial : (after.task block).serial = s.nextSerial := by rw [made.taskSame]; rfl
  have createsCases : ∀ other held, s.Acts other → after.stage other = .creating held →
      (other = actor ∧ held = block) ∨ (s.stage other = .creating held ∧ held ∈ s.live) := by
    intro other held otherActs creates
    by_cases isActor : other = actor
    · subst isActor
      rw [made.stageActor] at creates
      cases creates
      exact Or.inl ⟨rfl, rfl⟩
    · rw [stageOther other otherActs.1 isActor] at creates
      exact Or.inr ⟨creates, (reaps.held other held otherActs (holds_creating creates)).1⟩
  obtain ⟨createdOld, exitsOld, deliveriesOld⟩ := inv.logsOld
  constructor
  case parents =>
    intro it member nonzero
    rw [made.list] at member
    rw [taskListed it member] at nonzero ⊢
    obtain ⟨parent, parentActs, pid, child, notExiting⟩ := inv.parents it member nonzero
    refine ⟨parent, (actsIff parent).mpr parentActs, ?_, ?_, fun code => ?_⟩
    · rw [taskListed parent parentActs.1]
      exact pid
    · rw [taskListed parent parentActs.1, made.creations]
      exact List.mem_cons_of_mem _ child
    · by_cases isActor : parent = actor
      · rw [isActor, made.stageActor]
        nofun
      · rw [stageOther parent parentActs.1 isActor]
        exact notExiting code
  case blocked =>
    intro it member
    rw [made.list] at member
    rw [taskListed it member]
    exact inv.blocked it member
  case newborn =>
    intro other held otherActs creates
    rw [actsIff] at otherActs
    rcases createsCases other held otherActs creates with ⟨rfl, rfl⟩ | ⟨before, member⟩
    · constructor
      case parent => rw [made.taskSame, taskListed other otherActs.1]; rfl
      case made =>
        rw [newSerial, taskListed other otherActs.1, made.creations]
        exact List.mem_cons_self
      case blocked =>
        rw [made.taskSame]
        intro isBlocked
        simp only [created, Bool.and_eq_true, bne_iff_ne] at isBlocked
        exact isBlocked.2
      case runs => rw [made.taskSame]; nofun
      case undelivered =>
        rw [newSerial, made.deliveries]
        intro logged
        obtain ⟨delivery, earlier, same⟩ := List.mem_map.mp logged
        exact absurd same (Nat.ne_of_lt (deliveriesOld delivery earlier))
    · obtain ⟨parent, child, blocked, runs, undelivered⟩ := inv.newborn other held otherActs before
      have kept := taskLive held member
      rw [← taskListed other otherActs.1, ← kept] at parent child
      rw [← kept] at blocked runs
      refine ⟨parent, made.creations ▸ List.mem_cons_of_mem _ child, blocked, runs, ?_⟩
      rw [kept, made.deliveries]
      exact undelivered
  case exiting =>
    intro other code otherActs exiting
    rw [actsIff] at otherActs
    have different : other ≠ actor := by
      rintro rfl
      rw [made.stageActor] at exiting
      cases exiting
    rw [stageOther other otherActs.1 different] at exiting
    rw [taskListed other otherActs.1, made.exits]
    exact inv.exiting other code otherActs exiting
  case exited =>
    intro it member
    rw [made.list] at member
    rw [taskListed it member, made.exits]
    exact inv.exited it member
  case exitOpen =>
    intro it member logged
    rw [made.live, List.mem_cons] at member
    rw [made.exits] at logged
    rcases member with rfl | member
    · rw [newSerial] at logged
      obtain ⟨exit, earlier, same⟩ := List.mem_map.mp logged
      exact absurd same (Nat.ne_of_lt (exitsOld exit earlier))
    · rw [taskLive it member] at logged ⊢
      rcases inv.exitOpen it member logged with gone | ⟨code, exiting⟩
      · exact Or.inl gone
      · have different : it ≠ actor := by
          rintro rfl
          rw [ready] at exiting
          cases exiting
        have notBlock : it ≠ block := fun isBlock => made.unused (isBlock ▸ member)
        exact Or.inr ⟨code, (made.stageOther different notBlock).trans exiting⟩
  case delivered =>
    intro it member logged
    rw [made.list] at member
    rw [taskListed it member, made.deliveries] at logged
    rw [taskListed it member]
    obtain ⟨gone, free, parent, parentActs, pid, reaping⟩ := inv.delivered it member logged
    have different : parent ≠ actor := by
      rintro rfl
      rw [ready] at reaping
      cases reaping
    refine ⟨gone, free, parent, (actsIff parent).mpr parentActs, ?_, ?_⟩
    · rw [taskListed parent parentActs.1]
      exact pid
    · rw [stageOther parent parentActs.1 different]
      exact reaping
  case toLogs =>
    constructor
    case logsOld =>
      rw [made.creations, made.exits, made.deliveries, made.nextSerial]
      refine ⟨fun creation member => ?_, fun exit member => Nat.lt_succ_of_lt (exitsOld exit member),
        fun delivery member => Nat.lt_succ_of_lt (deliveriesOld delivery member)⟩
      rcases List.mem_cons.mp member with rfl | earlier
      · exact Nat.lt_succ_self _
      · exact Nat.lt_succ_of_lt (createdOld creation earlier)
    case createdOnce =>
      rw [made.creations, List.map_cons]
      refine List.nodup_cons.mpr ⟨fun logged => ?_, inv.createdOnce⟩
      obtain ⟨creation, earlier, same⟩ := List.mem_map.mp logged
      exact absurd same (Nat.ne_of_lt (createdOld creation earlier))
    case exitedOnce => exact made.exits ▸ inv.exitedOnce
    case deliveredOnce => exact made.deliveries ▸ inv.deliveredOnce
    case deliveries =>
      intro delivery member
      rw [made.deliveries] at member
      obtain ⟨asked, exit, child⟩ := inv.deliveries delivery member
      rw [made.exits, made.creations]
      exact ⟨asked, exit, List.mem_cons_of_mem _ child⟩

theorem Waits.insert (inv : Waits s) (reaps : Reaps s) (acts : s.Acts actor)
    (creates : s.stage actor = .creating block) (made : Inserted s after actor block) :
    Waits after := by
  obtain ⟨inLive, offList⟩ := reaps.held actor block acts (holds_creating creates)
  have new := inv.newborn actor block acts creates
  have notBlock : ∀ it, it ∈ s.list → it ≠ block := by
    rintro it member rfl
    exact offList member
  have listed : ∀ it, it ∈ s.list → after.task it = s.task it :=
    fun it member => made.others it (notBlock it member)
  have actsAfter : ∀ other, s.Acts other → after.Acts other := by
    intro other otherActs
    refine ⟨made.list ▸ List.mem_cons_of_mem _ otherActs.1, ?_⟩
    rw [listed other otherActs.1]
    exact otherActs.2
  have serials : ∀ it, (after.task it).serial = (s.task it).serial := by
    intro it
    by_cases isBlock : it = block
    · rw [isBlock]
      exact made.serial
    · rw [made.others it isBlock]
  have pids : ∀ it, (after.task it).pid = (s.task it).pid := by
    intro it
    by_cases isBlock : it = block
    · rw [isBlock]
      exact made.pid
    · rw [made.others it isBlock]
  have notExiting : ∀ code, after.stage actor ≠ .exiting code := by
    intro code exiting
    rcases made.stageActor with isReady | reaping
    · cases isReady.symm.trans exiting
    · cases reaping.symm.trans exiting
  have createsBefore : ∀ other held, after.Acts other → after.stage other = .creating held →
      s.Acts other ∧ s.stage other = .creating held ∧ after.task held = s.task held := by
    intro other held otherActs otherCreates
    obtain ⟨actsBefore, different, kept⟩ := made.earlier reaps.toBlocks acts creates otherActs
      (by rw [otherCreates]; nofun) (by rw [otherCreates]; nofun)
    rw [kept] at otherCreates
    refine ⟨actsBefore, otherCreates, made.others held ?_⟩
    rintro rfl
    exact different (reaps.oneHolder other actor held actsBefore acts (holds_creating otherCreates)
      (holds_creating creates))
  refine { inv.toLogs.same made.nextSerial made.creations made.exits made.deliveries with
    parents := ?parents, blocked := ?blocked, newborn := ?newborn, exiting := ?exiting, exited := ?exited
    exitOpen := ?exitOpen, delivered := ?delivered }
  case parents =>
    intro it member nonzero
    rw [made.list, List.mem_cons] at member
    rw [made.creations]
    rcases member with rfl | member
    · rcases made.blockTask with kept | ⟨orphan, _⟩
      · refine ⟨actor, actsAfter actor acts, ?_, ?_, notExiting⟩
        · rw [listed actor acts.1, kept, new.parent]
        · rw [serials, serials]
          exact new.made
      · exact absurd orphan nonzero
    · rw [listed it member] at nonzero ⊢
      obtain ⟨parent, parentActs, pid, child, open'⟩ := inv.parents it member nonzero
      refine ⟨parent, actsAfter parent parentActs, (pids parent).trans pid, ?_, ?_⟩
      · rw [serials]
        exact child
      · by_cases isActor : parent = actor
        · rw [isActor]
          exact notExiting
        · rw [made.stageOther parent isActor]
          exact open'
  case blocked =>
    intro it member isBlocked
    rw [made.list, List.mem_cons] at member
    rcases member with rfl | member
    · rcases made.blockTask with kept | ⟨_, free, _⟩
      · rw [kept] at isBlocked ⊢
        exact new.blocked isBlocked
      · rw [free] at isBlocked
        cases isBlocked
    · rw [listed it member] at isBlocked ⊢
      exact inv.blocked it member isBlocked
  case newborn =>
    intro other held otherActs otherCreates
    obtain ⟨actsBefore, before, kept⟩ := createsBefore other held otherActs otherCreates
    have earlier := inv.newborn other held actsBefore before
    exact earlier.kept kept (serials other) (pids other) made.creations
      (made.deliveries ▸ earlier.undelivered)
  case exiting =>
    intro other code otherActs exiting
    obtain ⟨actsBefore, _, kept⟩ := made.earlier reaps.toBlocks acts creates otherActs
      (by rw [exiting]; nofun) (by rw [exiting]; nofun)
    rw [listed other actsBefore.1, made.exits]
    exact inv.exiting other code actsBefore (kept ▸ exiting)
  case exited =>
    intro it member gone nonzero
    rw [made.list, List.mem_cons] at member
    rw [made.exits]
    rcases member with rfl | member
    · rcases made.blockTask with kept | ⟨orphan, _⟩
      · rw [kept] at gone
        exact absurd gone new.runs
      · exact absurd orphan nonzero
    · rw [listed it member] at gone nonzero ⊢
      exact inv.exited it member gone nonzero
  case exitOpen =>
    intro it member logged
    rw [made.live] at member
    rw [serials, made.exits] at logged
    rcases inv.exitOpen it member logged with gone | ⟨code, exiting⟩
    · by_cases isBlock : it = block
      · exact absurd (isBlock ▸ gone) new.runs
      · rw [made.others it isBlock]
        exact Or.inl gone
    · have different : it ≠ actor := by
        rintro rfl
        cases creates.symm.trans exiting
      exact Or.inr ⟨code, (made.stageOther it different).trans exiting⟩
  case delivered =>
    intro it member logged
    rw [made.list, List.mem_cons] at member
    rw [serials, made.deliveries] at logged
    rcases member with rfl | member
    · exact absurd logged new.undelivered
    · obtain ⟨gone, free, parent, parentActs, pid, reaping⟩ := inv.delivered it member logged
      have different : parent ≠ actor := by
        rintro rfl
        rw [creates] at reaping
        cases reaping
      rw [listed it member]
      refine ⟨gone, free, parent, actsAfter parent parentActs, (pids parent).trans pid, ?_⟩
      rw [made.stageOther parent different]
      exact reaping

theorem exitDetach_cases (it : Nat) :
    ((s.exitDetach actor code).task it = s.task it ∧
      ¬ (it ∈ s.list ∧ (s.task it).parentPid = (s.task actor).pid)) ∨
    ((s.exitDetach actor code).task it = { s.task it with parentPid := 0, reapBlocked := false } ∧
      it ∈ s.list ∧ (s.task it).parentPid = (s.task actor).pid) := by
  by_cases child : it ∈ s.list ∧ (s.task it).parentPid = (s.task actor).pid
  · exact Or.inr ⟨if_pos child, child⟩
  · exact Or.inl ⟨if_neg child, child⟩

theorem exitDetach_keeps (it : Nat) :
    ((s.exitDetach actor code).task it).serial = (s.task it).serial ∧
    ((s.exitDetach actor code).task it).pid = (s.task it).pid ∧
    ((s.exitDetach actor code).task it).state = (s.task it).state := by
  rcases @exitDetach_cases s actor code it with ⟨kept, _⟩ | ⟨detached, _⟩
  · rw [kept]
    exact ⟨rfl, rfl, rfl⟩
  · rw [detached]
    exact ⟨rfl, rfl, rfl⟩

theorem exitDetach_attached {it : Nat} (member : it ∈ s.list)
    (nonzero : ((s.exitDetach actor code).task it).parentPid ≠ 0) :
    (s.exitDetach actor code).task it = s.task it ∧ (s.task it).parentPid ≠ (s.task actor).pid := by
  rcases @exitDetach_cases s actor code it with ⟨kept, others⟩ | ⟨detached, _⟩
  · exact ⟨kept, fun same => others ⟨member, same⟩⟩
  · rw [detached] at nonzero
    exact absurd rfl nonzero

theorem Waits.exitDetach (inv : Waits s) (reaps : Reaps s) (numbered : Numbered s)
    (acts : s.Acts actor) (ready : s.stage actor = .ready) : Waits (s.exitDetach actor code) := by
  have keeps := @exitDetach_keeps s actor code
  have cases' := @exitDetach_cases s actor code
  have attached := @exitDetach_attached s actor code
  have own : (s.exitDetach actor code).stage actor = .exiting code := advance_same
  have same : ∀ other, other ≠ actor → (s.exitDetach actor code).stage other = s.stage other :=
    fun other different => advance_other different
  have actsIff : ∀ other, (s.exitDetach actor code).Acts other ↔ s.Acts other := by
    intro other
    rw [Acts, (keeps other).2.2]
    rfl
  have createsBefore : ∀ other held, s.Acts other →
      (s.exitDetach actor code).stage other = .creating held →
      s.stage other = .creating held ∧ (s.exitDetach actor code).task held = s.task held := by
    intro other held otherActs creates
    have different : other ≠ actor := by
      rintro rfl
      cases own.symm.trans creates
    rw [same other different] at creates
    refine ⟨creates, ?_⟩
    rcases cases' held with ⟨kept, _⟩ | ⟨_, member, _⟩
    · exact kept
    · exact absurd member (reaps.held other held otherActs (holds_creating creates)).2
  obtain ⟨createdOld, exitsOld, deliveriesOld⟩ := inv.logsOld
  constructor
  case parents =>
    intro it member nonzero
    obtain ⟨kept, otherParent⟩ := attached member nonzero
    rw [kept] at nonzero ⊢
    obtain ⟨parent, parentActs, pid, child, notExiting⟩ := inv.parents it member nonzero
    have different : parent ≠ actor := by
      rintro rfl
      exact otherParent pid.symm
    refine ⟨parent, (actsIff parent).mpr parentActs, (keeps parent).2.1.trans pid, ?_, ?_⟩
    · rw [(keeps parent).1]
      exact child
    · rw [same parent different]
      exact notExiting
  case blocked =>
    intro it member isBlocked
    rcases cases' it with ⟨kept, _⟩ | ⟨detached, _⟩
    · rw [kept] at isBlocked ⊢
      exact inv.blocked it member isBlocked
    · rw [detached] at isBlocked
      cases isBlocked
  case newborn =>
    intro other held otherActs creates
    rw [actsIff] at otherActs
    obtain ⟨before, kept⟩ := createsBefore other held otherActs creates
    have new := inv.newborn other held otherActs before
    exact new.kept kept (keeps other).1 (keeps other).2.1 rfl new.undelivered
  case exiting =>
    intro other passed otherActs exiting
    rw [actsIff] at otherActs
    rw [(keeps other).1, (keeps other).2.1]
    by_cases isActor : other = actor
    · subst isActor
      cases own.symm.trans exiting
      exact List.mem_cons_self
    · rw [same other isActor] at exiting
      exact List.mem_cons_of_mem _ (inv.exiting other passed otherActs exiting)
  case exited =>
    intro it member gone nonzero
    obtain ⟨kept, _⟩ := attached member nonzero
    rw [kept] at gone nonzero ⊢
    exact List.mem_cons_of_mem _ (inv.exited it member gone nonzero)
  case exitOpen =>
    intro it member logged
    rw [(keeps it).2.2]
    rw [(keeps it).1] at logged
    by_cases isActor : it = actor
    · rw [isActor]
      exact Or.inr ⟨code, own⟩
    · rcases List.mem_cons.mp logged with isNew | earlier
      · exact absurd (reaps.oneSerial it member actor (reaps.listed actor acts.1) isNew) isActor
      · rw [same it isActor]
        exact inv.exitOpen it member earlier
  case delivered =>
    intro it member logged
    rw [(keeps it).1] at logged
    obtain ⟨gone, free, parent, parentActs, pid, reaping⟩ := inv.delivered it member logged
    -- The parent is still reaping, so it is not the task that exits.
    have different : parent ≠ actor := by
      rintro rfl
      rw [ready] at reaping
      cases reaping
    have kept : (s.exitDetach actor code).task it = s.task it := by
      rcases cases' it with ⟨kept, _⟩ | ⟨_, _, child⟩
      · exact kept
      · exact absurd (numbered.onePid parent (reaps.listed parent parentActs.1) actor
          (reaps.listed actor acts.1) (pid.trans child)) different
    rw [kept]
    refine ⟨gone, free, parent, (actsIff parent).mpr parentActs, (keeps parent).2.1.trans pid, ?_⟩
    rw [same parent different]
    exact reaping
  case toLogs =>
    constructor
    case logsOld =>
      refine ⟨createdOld, fun exit member => ?_, deliveriesOld⟩
      rcases List.mem_cons.mp member with rfl | earlier
      · exact (reaps.fresh actor (reaps.listed actor acts.1)).1
      · exact exitsOld exit earlier
    case createdOnce => exact inv.createdOnce
    case exitedOnce =>
      refine List.nodup_cons.mpr ⟨fun logged => ?_, inv.exitedOnce⟩
      rcases inv.exitOpen actor (reaps.listed actor acts.1) logged with gone | ⟨passed, exiting⟩
      · exact acts.2 gone
      · cases ready.symm.trans exiting
    case deliveredOnce => exact inv.deliveredOnce
    case deliveries =>
      intro delivery member
      obtain ⟨asked, exit, child⟩ := inv.deliveries delivery member
      exact ⟨asked, List.mem_cons_of_mem _ exit, child⟩

theorem Waits.exitFinish (inv : Waits s) (reaps : Reaps s) (acts : s.Acts actor)
    (exits : s.stage actor = .exiting code) : Waits (s.exitFinish actor code) := by
  have own : (s.exitFinish actor code).task actor = { s.task actor with
      exitCode := code, reapBlocked := (s.task actor).parentPid != 0, state := .terminated } :=
    Function.update_self _ _ _
  have others : ∀ it, it ≠ actor → (s.exitFinish actor code).task it = s.task it :=
    fun it different => Function.update_of_ne different _ _
  have keeps : ∀ it, ((s.exitFinish actor code).task it).serial = (s.task it).serial ∧
      ((s.exitFinish actor code).task it).pid = (s.task it).pid ∧
      ((s.exitFinish actor code).task it).parentPid = (s.task it).parentPid := by
    intro it
    by_cases isActor : it = actor
    · rw [isActor, own]
      exact ⟨rfl, rfl, rfl⟩
    · rw [others it isActor]
      exact ⟨rfl, rfl, rfl⟩
  have stages : (s.exitFinish actor code).stage = s.stage := rfl
  have actsBefore : ∀ other, (s.exitFinish actor code).Acts other → s.Acts other ∧ other ≠ actor := by
    intro other otherActs
    have different : other ≠ actor := by
      rintro rfl
      have running := otherActs.2
      rw [own] at running
      exact running rfl
    have running := otherActs.2
    rw [others other different] at running
    exact ⟨⟨otherActs.1, running⟩, different⟩
  have actsAfter : ∀ other, s.Acts other → other ≠ actor → (s.exitFinish actor code).Acts other := by
    intro other otherActs different
    refine ⟨otherActs.1, ?_⟩
    rw [others other different]
    exact otherActs.2
  have heldKept : ∀ other held, s.Acts other → s.stage other = .creating held →
      (s.exitFinish actor code).task held = s.task held := by
    intro other held otherActs creates
    refine others held ?_
    rintro rfl
    exact (reaps.held other held otherActs (holds_creating creates)).2 acts.1
  refine { inv.toLogs.same rfl rfl rfl rfl with
    parents := ?parents, blocked := ?blocked, newborn := ?newborn, exiting := ?exiting, exited := ?exited
    exitOpen := ?exitOpen, delivered := ?delivered }
  case parents =>
    intro it member nonzero
    rw [(keeps it).2.2] at nonzero
    obtain ⟨parent, parentActs, pid, child, notExiting⟩ := inv.parents it member nonzero
    have different : parent ≠ actor := by
      rintro rfl
      exact notExiting code exits
    refine ⟨parent, actsAfter parent parentActs different, ?_, ?_, notExiting⟩
    · rw [(keeps parent).2.1, (keeps it).2.2]
      exact pid
    · rw [(keeps it).1, (keeps parent).1]
      exact child
  case blocked =>
    intro it member isBlocked
    by_cases isActor : it = actor
    · rw [isActor, own] at isBlocked ⊢
      exact bne_iff_ne.mp isBlocked
    · rw [others it isActor] at isBlocked ⊢
      exact inv.blocked it member isBlocked
  case newborn =>
    intro other held otherActs creates
    obtain ⟨before, _⟩ := actsBefore other otherActs
    have new := inv.newborn other held before creates
    exact new.kept (heldKept other held before creates) (keeps other).1 (keeps other).2.1 rfl new.undelivered
  case exiting =>
    intro other passed otherActs exiting
    rw [(keeps other).1, (keeps other).2.1]
    exact inv.exiting other passed (actsBefore other otherActs).1 exiting
  case exited =>
    intro it member gone nonzero
    by_cases isActor : it = actor
    · rw [isActor, own]
      exact inv.exiting actor code acts exits
    · rw [others it isActor] at gone nonzero ⊢
      exact inv.exited it member gone nonzero
  case exitOpen =>
    intro it member logged
    rw [(keeps it).1] at logged
    by_cases isActor : it = actor
    · rw [isActor, own]
      exact Or.inl rfl
    · rw [others it isActor]
      exact inv.exitOpen it member logged
  case delivered =>
    intro it member logged
    rw [(keeps it).1] at logged
    obtain ⟨gone, free, parent, parentActs, pid, reaping⟩ := inv.delivered it member logged
    have notActor : it ≠ actor := fun isActor => acts.2 (isActor ▸ gone)
    have different : parent ≠ actor := by
      rintro rfl
      rw [exits] at reaping
      cases reaping
    rw [others it notActor]
    exact ⟨gone, free, parent, actsAfter parent parentActs different,
      (keeps parent).2.1.trans pid, reaping⟩

theorem Waits.deliver {childPid : Int} {child : Nat} (inv : Waits s) (reaps : Reaps s)
    (numbered : Numbered s) (acts : s.Acts actor) (ready : s.stage actor = .ready)
    (pidNonzero : (s.task actor).pid ≠ 0)
    (found : s.exitedChild actor childPid = some child) : Waits (s.deliver actor child childPid) := by
  obtain ⟨childListed, parentPid, asked, exited⟩ := exitedChild_spec found
  have childNonzero : (s.task child).parentPid ≠ 0 := parentPid ▸ pidNonzero
  have isParent : ∀ parent, s.Acts parent → (s.task parent).pid = (s.task child).parentPid →
      parent = actor := by
    intro parent parentActs pid
    exact numbered.onePid parent (reaps.listed parent parentActs.1) actor
      (reaps.listed actor acts.1) (pid.trans parentPid)
  have task : ∀ it, (s.deliver actor child childPid).task it =
      { s.task it with reapBlocked := if it = child then false else (s.task it).reapBlocked } := by
    intro it
    by_cases isChild : it = child
    · rw [isChild, if_pos rfl]
      exact Function.update_self _ _ _
    · rw [if_neg isChild]
      exact Function.update_of_ne isChild _ _
  have own : (s.deliver actor child childPid).stage actor = .reaping := advance_same
  have same : ∀ other, other ≠ actor → (s.deliver actor child childPid).stage other = s.stage other :=
    fun other different => advance_other different
  have actsIff : ∀ other, (s.deliver actor child childPid).Acts other ↔ s.Acts other := by
    intro other
    rw [Acts, task]
    rfl
  have heldKept : ∀ other held, s.Acts other →
      (s.deliver actor child childPid).stage other = .creating held →
      s.stage other = .creating held ∧ (s.deliver actor child childPid).task held = s.task held := by
    intro other held otherActs creates
    have different : other ≠ actor := by
      rintro rfl
      cases own.symm.trans creates
    rw [same other different] at creates
    refine ⟨creates, Function.update_of_ne ?_ _ _⟩
    rintro rfl
    exact (reaps.held other held otherActs (holds_creating creates)).2 childListed
  have undelivered : (s.task child).serial ∉ s.deliveries.map Delivery.child := by
    intro logged
    obtain ⟨_, _, parent, parentActs, pid, reaping⟩ := inv.delivered child childListed logged
    rw [isParent parent parentActs pid, ready] at reaping
    cases reaping
  obtain ⟨createdOld, exitsOld, deliveriesOld⟩ := inv.logsOld
  constructor
  case parents =>
    intro it member nonzero
    rw [task] at nonzero ⊢
    obtain ⟨parent, parentActs, pid, made, notExiting⟩ := inv.parents it member nonzero
    refine ⟨parent, (actsIff parent).mpr parentActs, ?_, ?_, fun code => ?_⟩
    · rw [task]
      exact pid
    · rw [task]
      exact made
    · by_cases isActor : parent = actor
      · rw [isActor, own]
        simp
      · rw [same parent isActor]
        exact notExiting code
  case blocked =>
    intro it member isBlocked
    rw [task] at isBlocked ⊢
    by_cases isChild : it = child
    · rw [isChild]
      exact childNonzero
    · rw [if_neg isChild] at isBlocked
      exact inv.blocked it member isBlocked
  case newborn =>
    intro other held otherActs creates
    rw [actsIff] at otherActs
    obtain ⟨before, kept⟩ := heldKept other held otherActs creates
    have new := inv.newborn other held otherActs before
    refine new.kept kept (by rw [task]) (by rw [task]) rfl fun logged => ?_
    rcases List.mem_cons.mp logged with isChild | earlier
    · obtain ⟨heldLive, heldOff⟩ := reaps.held other held otherActs (holds_creating before)
      have equal := reaps.oneSerial held heldLive child (reaps.listed child childListed) isChild
      exact heldOff (equal ▸ childListed)
    · exact new.undelivered earlier
  case exiting =>
    intro other code otherActs exiting
    rw [actsIff] at otherActs
    have different : other ≠ actor := by
      rintro rfl
      cases own.symm.trans exiting
    rw [same other different] at exiting
    rw [task]
    exact inv.exiting other code otherActs exiting
  case exited =>
    intro it member gone nonzero
    rw [task] at gone nonzero ⊢
    exact inv.exited it member gone nonzero
  case exitOpen =>
    intro it member logged
    rw [task] at logged ⊢
    rcases inv.exitOpen it member logged with gone | ⟨code, exiting⟩
    · exact Or.inl gone
    · have different : it ≠ actor := by
        rintro rfl
        cases ready.symm.trans exiting
      exact Or.inr ⟨code, (same it different).trans exiting⟩
  case delivered =>
    intro it member logged
    rw [task] at logged ⊢
    rcases List.mem_cons.mp logged with isChild | earlier
    · have equal : it = child := reaps.oneSerial it (reaps.listed it member) child
        (reaps.listed child childListed) isChild
      subst equal
      refine ⟨exited, if_pos rfl, actor, (actsIff actor).mpr acts, ?_, ?_⟩
      · rw [task]
        exact parentPid.symm
      · rw [own]
        rfl
    · obtain ⟨gone, free, parent, parentActs, pid, reaping⟩ := inv.delivered it member earlier
      have different : parent ≠ actor := by
        rintro rfl
        rw [ready] at reaping
        cases reaping
      refine ⟨gone, ?_, parent, (actsIff parent).mpr parentActs, ?_, ?_⟩
      · dsimp only
        rw [free, ite_self]
      · rw [task]
        exact pid
      · rw [same parent different]
        exact reaping
  case toLogs =>
    constructor
    case logsOld =>
      refine ⟨createdOld, exitsOld, fun delivery member => ?_⟩
      rcases List.mem_cons.mp member with rfl | earlier
      · exact (reaps.fresh child (reaps.listed child childListed)).1
      · exact deliveriesOld delivery earlier
    case createdOnce => exact inv.createdOnce
    case exitedOnce => exact inv.exitedOnce
    case deliveredOnce => exact List.nodup_cons.mpr ⟨undelivered, inv.deliveredOnce⟩
    case deliveries =>
      intro delivery member
      rcases List.mem_cons.mp member with rfl | earlier
      · refine ⟨asked.imp_right Eq.symm, inv.exited child childListed exited childNonzero, ?_⟩
        obtain ⟨parent, parentActs, pid, made, _⟩ := inv.parents child childListed childNonzero
        rw [isParent parent parentActs pid] at made
        exact made
      · exact inv.deliveries delivery earlier

theorem Waits.waitTurn {childPid : Int} (inv : Waits s) (reaps : Reaps s) (numbered : Numbered s)
    (acts : s.Acts actor) (ready : s.stage actor = .ready) : Waits (s.waitTurn actor childPid) := by
  rw [Lifecycle.waitTurn]
  split
  next => exact inv
  next valid =>
    split
    next => exact inv
    next child found =>
      rw [not_or] at valid
      exact inv.deliver reaps numbered acts ready valid.1 found

theorem Waits.reapSelect (inv : Waits s) (reaping : s.stage actor = .reaping)
    (acts : s.Acts actor) : Waits (s.reapSelect actor) := by
  have wasOpen : ∀ code, s.stage actor ≠ .exiting code := by
    intro code exiting
    cases reaping.symm.trans exiting
  rw [Lifecycle.reapSelect]
  split
  next none =>
    -- A delivered child would have been found.
    refine @Waits.quiet s _ actor .ready inv (fun _ => id) (fun _ acts => acts.1) (fun _ => id) rfl
      rfl (by simp) (by simp) wasOpen (Or.inr ?_)
      rfl rfl rfl rfl
    intro it member logged _
    obtain ⟨gone, free, _⟩ := inv.delivered it member logged
    have notActor : it ≠ actor := fun isActor => acts.2 (isActor ▸ gone)
    have missed := List.find?_eq_none.mp none it member
    exact missed (reapable_iff.mpr ⟨notActor, gone, free⟩)
  next victim found =>
    exact @Waits.quiet s _ actor (.selected victim) inv (fun _ => id) (fun _ acts => acts.1)
      (fun _ => id) rfl rfl (by simp) (by simp) wasOpen
      (Or.inl rfl) rfl rfl rfl rfl

theorem Waits.remove (inv : Waits s) (reaps : Reaps s) (acts : s.Acts actor)
    (selects : s.stage actor = .selected victim) : Waits (s.taskListRemove actor victim) := by
  have wasOpen : ∀ code, s.stage actor ≠ .exiting code := by
    intro code exiting
    cases selects.symm.trans exiting
  have chosen := reapable_iff.mp (reaps.selected actor victim acts selects)
  rw [taskListRemove]
  split
  next member =>
    refine @Waits.quiet s _ actor (.removed victim) inv (fun _ => List.mem_of_mem_erase) ?_
      (fun _ => id) rfl rfl (by simp) (by simp) wasOpen
      (Or.inl rfl) rfl rfl rfl rfl
    intro it itActs
    refine (reaps.listNodup.mem_erase_iff).mpr ⟨?_, itActs.1⟩
    rintro rfl
    exact itActs.2 chosen.2.1
  next =>
    exact @Waits.quiet s _ actor .reaping inv (fun _ => id) (fun _ acts => acts.1)
      (fun _ => id) rfl rfl (by simp) (by simp) wasOpen
      (Or.inl rfl) rfl rfl rfl rfl

end WaitSteps

/-- The conditions on a creation: nobody has selected its address, and the counter of pids has
not come back to 0. -/
def Fresh (s : Lifecycle) (move : Move) : Prop :=
  match move.action with
  | .allocate block _ => (∀ other ∈ s.list, s.stage other ≠ .selected block) ∧ s.nextPid ≠ 0
  | _ => True

instance (s : Lifecycle) (move : Move) : Decidable (s.Fresh move) :=
  match move with
  | ⟨_, .allocate _ _⟩ => inferInstanceAs (Decidable (_ ∧ _))
  | ⟨_, .createFails⟩ | ⟨_, .insert _⟩ | ⟨_, .exitDetach _⟩ | ⟨_, .exitFinish⟩ | ⟨_, .waitTurn _⟩
  | ⟨_, .reapStart⟩ | ⟨_, .reapSelect⟩ | ⟨_, .reapRemove⟩ | ⟨_, .reapDestroy⟩ => .isTrue trivial

theorem Fresh.unselected {s : Lifecycle} {move : Move} (fresh : s.Fresh move) : s.Unselected move := by
  obtain ⟨actor, action⟩ := move
  cases action with
  | allocate block kernel => exact fresh.1
  | _ => trivial

theorem Counted.drawsNew {s : Lifecycle} {move : Move} (counted : Counted s)
    (fresh : s.Fresh move) : s.DrawsNew move := by
  obtain ⟨actor, action⟩ := move
  cases action with
  | allocate block kernel => exact Or.inr ⟨fresh.2, fun it => counted.fresh fresh.2⟩
  | _ => trivial

theorem Counted.step {s after : Lifecycle} {move : Move} (counted : Counted s)
    (fresh : s.Fresh move) (taken : s.step move = some after) : Counted after := by
  rcases step_names taken with ⟨counter, fromLive, names⟩ | ⟨block, kernel, isAllocate, made⟩
  · refine ⟨counter ▸ counted.bound, fun nonzero it member => ?_⟩
    rw [(names it).1, counter]
    exact counted.below (counter ▸ nonzero) it (fromLive it member)
  · rw [Fresh, isAllocate] at fresh
    refine ⟨made.nextPid ▸ Nat.mod_lt _ (Nat.two_pow_pos 32), fun nonzero it member => ?_⟩
    have bound := counted.bound
    have next : after.nextPid = s.nextPid + 1 := by
      rw [made.nextPid] at nonzero ⊢
      omega
    rw [made.live, List.mem_cons] at member
    rcases member with rfl | member
    · rw [made.taskSame, next]
      exact Nat.lt_succ_self s.nextPid
    · rw [made.taskOther (fun isBlock => made.unused (isBlock ▸ member)), next]
      exact Nat.lt_succ_of_lt (counted.below fresh.2 it member)

theorem Waits.step {s after : Lifecycle} {move : Move} (inv : Waits s) (reaps : Reaps s)
    (numbered : Numbered s) (taken : s.step move = some after) : Waits after := by
  obtain ⟨acts, takes⟩ := step_takes taken
  obtain ⟨actor, action⟩ := move
  dsimp only at acts takes
  cases takes with
  | allocate ready allocated =>
      rcases taskAllocate_cases allocated with rfl | made
      · exact inv
      · exact inv.allocate reaps acts ready made
  | createFails creates =>
      have undelivered : ∀ it ∈ s.list, (s.task it).serial ∈ s.deliveries.map Delivery.child →
          (s.task actor).pid ≠ (s.task it).parentPid := by
        intro it member logged child
        obtain ⟨_, _, parent, parentActs, pid, reaping⟩ := inv.delivered it member logged
        have isActor : parent = actor := numbered.onePid parent (reaps.listed parent parentActs.1)
          actor (reaps.listed actor acts.1) (pid.trans child.symm)
        rw [isActor, creates] at reaping
        cases reaping
      exact @Waits.quiet s _ actor .ready inv (fun _ => id) (fun _ acts => acts.1)
        (fun _ => List.mem_of_mem_erase) rfl rfl nofun
        nofun (fun _ exiting => by cases creates.symm.trans exiting)
        (Or.inr undelivered) rfl rfl rfl rfl
  | insert creates => exact inv.insert reaps acts creates (taskListInsert_inserted _)
  | exitDetach ready => exact inv.exitDetach reaps numbered acts ready
  | exitFinish exits => exact inv.exitFinish reaps acts exits
  | waitTurn ready => exact inv.waitTurn reaps numbered acts ready
  | reapStart ready =>
      exact @Waits.quiet s _ actor .reaping inv (fun _ => id) (fun _ acts => acts.1)
        (fun _ => id) rfl rfl nofun nofun
        (fun _ exiting => by cases ready.symm.trans exiting) (Or.inl rfl) rfl rfl rfl rfl
  | reapSelect reaping => exact inv.reapSelect reaping acts
  | reapRemove selects => exact inv.remove reaps acts selects
  | reapDestroy removed =>
      exact @Waits.quiet s _ actor .reaping inv (fun _ => id) (fun _ acts => acts.1)
        (fun _ => List.mem_of_mem_erase) rfl rfl nofun
        nofun (fun _ exiting => by cases removed.symm.trans exiting)
        (Or.inl rfl) rfl rfl rfl rfl

theorem booted_waits (idle : Nat) : Waits (booted idle) where
  parents _ _ nonzero := absurd rfl nonzero
  blocked _ _ isBlocked := nomatch isBlocked
  newborn _ _ _ creates := nomatch creates
  exiting _ _ _ exits := nomatch exits
  exited _ _ gone := nomatch gone
  exitOpen _ _ logged := nomatch logged
  delivered _ _ logged := nomatch logged
  logsOld := ⟨nofun, nofun, nofun⟩
  createdOnce := List.nodup_nil
  exitedOnce := List.nodup_nil
  deliveredOnce := List.nodup_nil
  deliveries _ logged := nomatch logged

theorem booted_counted (idle : Nat) : Counted (booted idle) where
  bound := show 1 < 2 ^ 32 by decide
  below _ _ _ := Nat.zero_lt_one

structure Sound (s : Lifecycle) : Prop where
  reaps : Reaps s
  numbered : Numbered s
  counted : Counted s
  waits : Waits s

/-- A task kept for its parent has one, which has not exited.  What a wait returns is the one
exit code of the one child that it delivers, to the one task that created it, once. -/
def WaitsProperly (s : Lifecycle) : Prop :=
  (∀ it ∈ s.list, (s.task it).reapBlocked = true →
    ∃ parent ∈ s.list, (s.task parent).state ≠ .terminated ∧
      (s.task parent).pid = (s.task it).parentPid) ∧
  (∀ delivery ∈ s.deliveries,
    (delivery.asked = -1 ∨ delivery.asked = delivery.pid) ∧
    ⟨delivery.child, delivery.pid, delivery.code⟩ ∈ s.exits ∧
    ⟨delivery.child, delivery.waiter⟩ ∈ s.creations) ∧
  (s.creations.map Creation.child).Nodup ∧ (s.exits.map ExitCall.serial).Nodup ∧
  (s.deliveries.map Delivery.child).Nodup

theorem waits_deliver_exit_codes {idle : Nat} {moves : List Move} {final : Lifecycle}
    (fresh : RunMeets step Fresh (booted idle) moves)
    (reached : runActions step (booted idle) moves = some final) : WaitsProperly final := by
  have kept : ∀ s move after, Sound s → Fresh s move → s.step move = some after → Sound after := by
    rintro s move after ⟨reaps, numbered, counted, waits⟩ guard taken
    exact ⟨reaps.step guard.unselected taken, numbered.step (counted.drawsNew guard) taken,
      counted.step guard taken, waits.step reaps numbered taken⟩
  obtain ⟨_, _, _, inv⟩ := runActions_guarded kept
    ⟨booted_reaps idle, booted_numbered idle, booted_counted idle, booted_waits idle⟩ fresh reached
  refine ⟨?_, inv.deliveries, inv.createdOnce, inv.exitedOnce, inv.deliveredOnce⟩
  intro it member isBlocked
  obtain ⟨parent, parentActs, pid, _⟩ := inv.parents it member (inv.blocked it member isBlocked)
  exact ⟨parent, parentActs.1, parentActs.2, pid⟩

/-- Codes 9 and 7 arrive at the shell and at the task at 48. -/
theorem childrenReapedOnce_waits : ∃ final,
    runActions step (booted 16) childrenReapedOnce = some final ∧
    final.deliveries = [⟨1, -1, 4, 4, 9⟩, ⟨2, -1, 3, 3, 7⟩] ∧ WaitsProperly final := by
  have runs : (runActions step (booted 16) childrenReapedOnce).map Lifecycle.deliveries =
      some [⟨1, -1, 4, 4, 9⟩, ⟨2, -1, 3, 3, 7⟩] := by
    decide +kernel
  obtain ⟨final, reached, deliveries⟩ := Option.map_eq_some_iff.mp runs
  exact ⟨final, reached, deliveries, waits_deliver_exit_codes (by decide +kernel) reached⟩

def parentReaped : List Move := childrenWaited ++ [
  ⟨32, .allocate 64 false⟩, ⟨32, .insert true⟩, ⟨64, .allocate 96 false⟩, ⟨64, .insert true⟩,
  ⟨48, .reapRemove⟩, ⟨48, .reapDestroy⟩]

/-- The task at 96 is kept for a parent that is no longer there. -/
theorem reaped_parent_leaves_child_blocked : ¬ ∀ (idle : Nat) (moves : List Move) (final : Lifecycle),
    runActions step (booted idle) moves = some final → WaitsProperly final := by
  intro proper
  have runs : (runActions step (booted 16) parentReaped).map (fun s =>
      (s.list, s.list.map fun it => (s.task it).pid, (s.task 96).reapBlocked, (s.task 96).parentPid)) =
      some ([96, 48, 32, 16], [6, 2, 1, 0], true, 5) := by
    decide +kernel
  obtain ⟨final, reached, facts⟩ := Option.map_eq_some_iff.mp runs
  simp only [Prod.mk.injEq] at facts
  obtain ⟨list, pids, isBlocked, parentPid⟩ := facts
  obtain ⟨parent, member, _, pid⟩ := (proper 16 parentReaped final reached).1 96
    (by rw [list]; exact List.mem_cons_self) isBlocked
  have pidMember : (final.task parent).pid ∈ final.list.map fun it => (final.task it).pid :=
    List.mem_map.mpr ⟨parent, member, rfl⟩
  rw [pids, pid, parentPid] at pidMember
  simp at pidMember

end Lifecycle

end Szczupak
