import Szczupak.Tty.Pty

/-!
A shell window and the program that it runs on a pseudo terminal, `shell_start_external_command`
and `shell_pump_external` in `userland/programs/desktop/shell.c`.  Every system call of the two
is one step, and their steps interleave in any order.  The state also records what the terminal
took from the program and what the window got of it.
-/

namespace Szczupak

/-- Where the window stands.  The drain that follows the start of the program ends without a
try to close; `avail` is what is left of the last `sys_pty_out_avail`. -/
inductive PumpStage where
  | idle
  | asking (pumps : Bool)
  | reading (pumps : Bool) (avail : Nat)
  | closing
  | waiting
  | done
deriving DecidableEq

def PumpStage.closed (stage : PumpStage) : Bool := stage == .waiting || stage == .done

/-- `late` is what the terminal took since the window last asked. -/
structure PumpState where
  ptys : Ptys
  exited : Bool
  stage : PumpStage
  accepted : List UInt8
  drained : List UInt8
  late : List UInt8

inductive PumpMove where
  | write (bytes : List UInt8)
  | exit
  | host
deriving DecidableEq

def pumpStart (before : Ptys) (task : PtyTask) : PumpState where
  ptys := (ptyAttachSlave (ptyOpen before).2 task.ptyId task.pid).2
  exited := false
  stage := .asking false
  accepted := []
  drained := []
  late := []

def hostTurn (id : Int) (s : PumpState) : PumpState :=
  match s.stage with
  | .idle => { s with stage := .asking true }
  | .asking pumps =>
      let avail := ptyHostOutAvailable s.ptys id
      if avail = 0 then { s with stage := if pumps then .closing else .idle, late := [] }
      else { s with stage := .reading pumps avail, late := [] }
  | .reading pumps avail =>
      let (bytes, ptys) := ptyHostRead s.ptys id (min avail 256)
      let read := { s with ptys := ptys, drained := s.drained ++ bytes }
      if bytes.length = 0 ∨ avail ≤ bytes.length then { read with stage := .asking pumps }
      else { read with stage := .reading pumps (avail - bytes.length) }
  | .closing =>
      let (result, ptys) := ptyClose s.ptys id
      { s with ptys := ptys, stage := if result < 0 then .idle else .waiting }
  | .waiting => { s with stage := .done }
  | .done => s

/-- The program writes until `task_exit` detaches it. -/
def pumpStep (task : PtyTask) (s : PumpState) : PumpMove → Option PumpState
  | .write bytes =>
      if s.exited then none
      else
        let (taken, ptys) := ptySlaveWrite s.ptys task bytes
        some { s with
          ptys := ptys, accepted := s.accepted ++ bytes.take taken, late := s.late ++ bytes.take taken }
  | .exit => if s.exited then none
    else some { s with ptys := ptyDetachSlave s.ptys task.pid, exited := true }
  | .host => some (hostTurn task.ptyId s)

def Delivered (s : PumpState) : Prop := s.stage.closed = true → s.drained = s.accepted

/-- The window does not close the terminal of a program that wrote and exited after the window
last asked for output. -/
def NothingLate (s : PumpState) (move : PumpMove) : Prop :=
  move = .host → s.stage = .closing → s.exited = true → s.late = []

instance (s : PumpState) (move : PumpMove) : Decidable (NothingLate s move) :=
  inferInstanceAs (Decidable (_ → _ → _ → _))

/-- The session while the terminal is open: what was taken is what was read and then what the
ring holds. -/
structure Pumping (task : PtyTask) (s : PumpState) (slot : Fin ptyMaxCount) : Prop where
  named : ptySlot task.ptyId = some slot
  used : (s.ptys slot).used = true
  slave : (s.ptys slot).slavePid = if s.exited then 0 else task.pid
  ring : (s.ptys slot).slaveToHost.WellFormed ptyBufSize
  bytes : s.accepted = s.drained ++ (s.ptys slot).slaveToHost.contents ptyBufSize
  late : s.stage = .closing → (s.ptys slot).slaveToHost.contents ptyBufSize = s.late

def PumpSound (task : PtyTask) (s : PumpState) : Prop :=
  if s.stage.closed then s.exited = true ∧ s.drained = s.accepted else ∃ slot, Pumping task s slot

section Session

variable {task : PtyTask} {s : PumpState} {slot : Fin ptyMaxCount}

theorem Pumping.valid (pumping : Pumping task s slot) : ptySlotValid s.ptys task.ptyId = some slot := by
  rw [ptySlotValid, pumping.named, Option.filter_eq_some_iff]
  exact ⟨rfl, pumping.used⟩

theorem Pumping.pid (pumping : Pumping task s slot) : task.pid ≠ 0 := by
  refine task.named ?_
  have named := pumping.named
  rw [ptySlot] at named
  split at named
  next bound => exact bound.1
  next => cases named

theorem Pumping.attached (pumping : Pumping task s slot) (runs : s.exited = false) :
    ptyTaskAttached s.ptys task = some slot := by
  rw [ptyTaskAttached, pumping.valid, Option.filter_eq_some_iff, pumping.slave, runs]
  exact ⟨rfl, beq_self_eq_true _⟩

theorem Ring.contents_nil {ring : Ring UInt8} : ring.contents ptyBufSize = [] ↔ ring.count = 0 := by
  rw [Ring.contents, List.map_eq_nil_iff, List.range_eq_nil]

section

variable (pumping : Pumping task s slot)
include pumping

theorem Pumping.write (runs : s.exited = false) (bytes : List UInt8) :
    Pumping task { s with
      ptys := (ptySlaveWrite s.ptys task bytes).2
      accepted := s.accepted ++ bytes.take (ptySlaveWrite s.ptys task bytes).1
      late := s.late ++ bytes.take (ptySlaveWrite s.ptys task bytes).1 } slot := by
  obtain ⟨ring, appended⟩ := Ring.pushAll_spec bytes pumping.ring
  rw [ptySlaveWrite, pumping.attached runs]
  refine ⟨pumping.named, ?_, ?_, ?_, ?_, fun closing => ?_⟩
  · dsimp only
    rw [Function.update_self]
    exact pumping.used
  · dsimp only
    rw [Function.update_self]
    exact pumping.slave
  · dsimp only
    rw [Function.update_self]
    exact ring
  · dsimp only
    rw [Function.update_self, appended, pumping.bytes, List.append_assoc]
  · dsimp only
    rw [Function.update_self, appended, pumping.late closing]

theorem Pumping.exit (runs : s.exited = false) :
    Pumping task { s with ptys := ptyDetachSlave s.ptys task.pid, exited := true } slot := by
  have ours : ((s.ptys slot).used && (s.ptys slot).slavePid == task.pid) = true := by
    rw [pumping.used, pumping.slave, runs, Bool.true_and]
    exact beq_self_eq_true _
  have detached : ptyDetachSlave s.ptys task.pid slot = { s.ptys slot with slavePid := 0 } := by
    rw [ptyDetachSlave, if_neg pumping.pid]
    exact if_pos ours
  refine ⟨pumping.named, ?_, (congrArg Pty.slavePid detached).trans (if_pos rfl).symm, ?_, ?_,
    fun closing => ?_⟩
  · dsimp only
    rw [detached]
    exact pumping.used
  · dsimp only
    rw [detached]
    exact pumping.ring
  · dsimp only
    rw [detached]
    exact pumping.bytes
  · dsimp only
    rw [detached]
    exact pumping.late closing

theorem Pumping.move {stage : PumpStage} {late : List UInt8}
    (other : stage ≠ .closing) : Pumping task { s with stage := stage, late := late } slot :=
  ⟨pumping.named, pumping.used, pumping.slave, pumping.ring, pumping.bytes,
    fun closing => absurd closing other⟩

theorem Pumping.ask {pumps : Bool} (asking : s.stage = .asking pumps) :
    Pumping task (hostTurn task.ptyId s) slot := by
  rw [hostTurn, asking]
  dsimp only
  rw [ptyHostOutAvailable, pumping.valid]
  dsimp only
  split
  next none =>
    refine ⟨pumping.named, pumping.used, pumping.slave, pumping.ring, pumping.bytes, fun _ => ?_⟩
    exact Ring.contents_nil.mpr none
  next => exact pumping.move PumpStage.noConfusion

theorem Pumping.read {pumps : Bool} {avail : Nat}
    (reading : s.stage = .reading pumps avail) : Pumping task (hostTurn task.ptyId s) slot := by
  obtain ⟨ring, front⟩ := Ring.popUpTo_spec (min avail 256) pumping.ring
  have read : Pumping task { s with
      ptys := (ptyHostRead s.ptys task.ptyId (min avail 256)).2
      drained := s.drained ++ (ptyHostRead s.ptys task.ptyId (min avail 256)).1 } slot := by
    rw [ptyHostRead, pumping.valid]
    refine ⟨pumping.named, ?_, ?_, ?_, ?_, fun closing => ?_⟩
    · dsimp only
      rw [Function.update_self]
      exact pumping.used
    · dsimp only
      rw [Function.update_self]
      exact pumping.slave
    · dsimp only
      rw [Function.update_self]
      exact ring
    · dsimp only
      rw [Function.update_self, List.append_assoc, ← front]
      exact pumping.bytes
    · exact absurd (reading.symm.trans closing) PumpStage.noConfusion
  rw [hostTurn, reading]
  dsimp only
  split
  next => exact read.move PumpStage.noConfusion
  next => exact read.move PumpStage.noConfusion

theorem Pumping.refused (closing : s.stage = .closing) (runs : s.exited = false) :
    hostTurn task.ptyId s = { s with stage := .idle } := by
  have attached : (s.ptys slot).slavePid ≠ 0 := by
    rw [pumping.slave, runs]
    exact pumping.pid
  rw [hostTurn, closing]
  dsimp only
  rw [ptyClose_attached pumping.named attached]
  rfl

theorem Pumping.closes (closing : s.stage = .closing) (gone : s.exited = true) :
    (hostTurn task.ptyId s).stage = .waiting ∧ (hostTurn task.ptyId s).exited = true ∧
      (hostTurn task.ptyId s).drained = s.drained ∧ (hostTurn task.ptyId s).accepted = s.accepted := by
  have detached : (s.ptys slot).slavePid = 0 := by
    rw [pumping.slave, gone]
    rfl
  have closed : ptyClose s.ptys task.ptyId =
    (0, Function.update s.ptys slot ((s.ptys slot).reset false)) := by
    rw [ptyClose, pumping.valid]
    exact if_neg (not_not.mpr detached)
  rw [hostTurn, closing]
  dsimp only
  rw [closed]
  exact ⟨rfl, gone, rfl, rfl⟩

theorem PumpSound.open (open' : s.stage.closed = false) : PumpSound task s := by
  rw [PumpSound, open']
  exact ⟨slot, pumping⟩

end

theorem PumpSound.delivered (sound : PumpSound task s) : Delivered s := by
  intro closed
  rw [PumpSound, if_pos closed] at sound
  exact sound.2

theorem Pumping.host (pumping : Pumping task s slot) (open' : s.stage.closed = false)
    (inTime : NothingLate s .host) : PumpSound task (hostTurn task.ptyId s) := by
  cases stage : s.stage with
  | idle =>
      rw [hostTurn, stage]
      exact .open (pumping.move PumpStage.noConfusion) rfl
  | asking pumps =>
      refine .open (pumping.ask stage) ?_
      rw [hostTurn, stage]
      dsimp only
      split
      next => cases pumps <;> rfl
      next => rfl
  | reading pumps avail =>
      refine .open (pumping.read stage) ?_
      rw [hostTurn, stage]
      dsimp only
      split
      next => rfl
      next => rfl
  | closing =>
      cases exited : s.exited with
      | false =>
          rw [pumping.refused stage exited]
          exact .open (pumping.move PumpStage.noConfusion) rfl
      | true =>
          obtain ⟨waits, gone, drained, accepted⟩ := pumping.closes stage exited
          rw [PumpSound, waits, drained, accepted, pumping.bytes, pumping.late stage,
            inTime rfl stage exited, List.append_nil]
          exact ⟨gone, rfl⟩
  | waiting =>
      rw [stage] at open'
      cases open'
  | done =>
      rw [stage] at open'
      cases open'

theorem PumpSound.step {move : PumpMove} {after : PumpState} (sound : PumpSound task s) (inTime :
    NothingLate s move) (stepped : pumpStep task s move = some after) : PumpSound task after := by
  cases closed : s.stage.closed with
  | true =>
      rw [PumpSound, closed] at sound
      obtain ⟨gone, drained⟩ := sound
      cases move with
      | write bytes =>
          rw [pumpStep, if_pos gone] at stepped
          cases stepped
      | exit =>
          rw [pumpStep, if_pos gone] at stepped
          cases stepped
      | host =>
          cases stepped
          cases stage : s.stage with
          | waiting =>
              rw [hostTurn, stage]
              exact ⟨gone, drained⟩
          | done =>
              rw [hostTurn, stage]
              dsimp only
              rw [PumpSound, closed]
              exact ⟨gone, drained⟩
          | _ =>
              rw [stage] at closed
              cases closed
  | false =>
      rw [PumpSound, closed] at sound
      obtain ⟨slot, pumping⟩ := sound
      cases move with
      | write bytes =>
          rw [pumpStep] at stepped
          split at stepped
          next => cases stepped
          next runs =>
            cases stepped
            exact .open (pumping.write (Bool.eq_false_of_not_eq_true runs) bytes) closed
      | exit =>
          rw [pumpStep] at stepped
          split at stepped
          next => cases stepped
          next runs =>
            cases stepped
            exact .open (pumping.exit (Bool.eq_false_of_not_eq_true runs)) closed
      | host =>
          cases stepped
          exact pumping.host closed inTime

theorem PumpSound.loses {move : PumpMove} {after : PumpState} (sound : PumpSound task s) (tooLate :
    ¬NothingLate s move) (stepped : pumpStep task s move = some after) : ¬Delivered after := by
  simp only [NothingLate, Classical.not_imp] at tooLate
  obtain ⟨isHost, closing, gone, some⟩ := tooLate
  subst isHost
  cases stepped
  rw [PumpSound, closing] at sound
  obtain ⟨slot, pumping⟩ := sound
  obtain ⟨waits, _, drained, accepted⟩ := pumping.closes closing gone
  intro delivered
  have all := delivered (congrArg PumpStage.closed waits)
  rw [drained, accepted, pumping.bytes, pumping.late closing] at all
  exact some (List.self_eq_append_right.mp all)

end Session

theorem ptyOpen_reset {before : Ptys} (done : (ptyOpen before).1 ≠ -1) :
    ∃ slot, ptySlot (ptyOpen before).1 = some slot ∧ (ptyOpen before).2 slot =
    (before slot).reset true := by
  rw [ptyOpen] at done ⊢
  split
  next slot free => exact ⟨slot, ptySlot_val slot, Function.update_self _ _ _⟩
  next full =>
    rw [full] at done
    exact absurd rfl done

theorem pumpStart_sound {before : Ptys} {task : PtyTask} (opened : (ptyOpen before).1 = task.ptyId)
    (valid : 0 ≤ task.ptyId) : PumpSound task (pumpStart before task) := by
  obtain ⟨slot, named, fresh⟩ := @ptyOpen_reset before (by omega)
  rw [opened] at named
  have attaches : ptyAttachSlave (ptyOpen before).2 task.ptyId task.pid =
      (0, Function.update (ptyOpen before).2 slot
      { (before slot).reset true with slavePid := task.pid }) := by
    have isValid : ptySlotValid (ptyOpen before).2 task.ptyId = some slot := by
      rw [ptySlotValid, named, Option.filter_eq_some_iff, fresh]
      exact ⟨rfl, rfl⟩
    rw [ptyAttachSlave, if_neg (task.named valid), isValid]
    dsimp only
    rw [fresh]
    exact if_neg fun taken => taken.1 rfl
  refine @PumpSound.open task _ slot ?_ rfl
  rw [pumpStart, attaches]
  refine ⟨named, ?_, ?_, ?_, ?_, fun closing => by cases closing⟩
  · dsimp only
    rw [Function.update_self]
    rfl
  · dsimp only
    rw [Function.update_self]
    rfl
  · dsimp only
    rw [Function.update_self]
    exact Ring.reset_wellFormed (by decide) _
  · dsimp only
    rw [Function.update_self]
    rfl

/-- Whatever terminals were open before: in a session of a program and a window all that the
terminal took has reached the window in every state behind the close, exactly when no close
follows on a write and the exit that both came after the window last asked. -/
theorem pump_delivers {before : Ptys} {task : PtyTask} (opened : (ptyOpen before).1 = task.ptyId)
    (valid : 0 ≤ task.ptyId) {moves : List PumpMove} {s : PumpState}
    (reached : runActions (pumpStep task) (pumpStart before task) moves = some s) :
    (∀ begun rest middle, moves = begun ++ rest →
      runActions (pumpStep task) (pumpStart before task) begun = some middle → Delivered middle) ↔
    RunMeets (pumpStep task) NothingLate (pumpStart before task) moves :=
  runActions_exact_kept (fun _ sound => sound.delivered) (fun _ _ _ sound inTime stepped =>
    sound.step inTime stepped)
    (fun _ _ _ sound tooLate stepped => sound.loses tooLate stepped)
    (pumpStart_sound opened valid) reached

def pumpedTask : PtyTask := ⟨5, 0, by decide⟩

def patientSession : List PumpMove :=
  [.host, .write [104, 105], .host, .exit, .host, .host, .host, .host, .host]

theorem patientSession_delivers :
    (runActions (pumpStep pumpedTask) (pumpStart ptyInit pumpedTask) patientSession).isSome = true ∧
    ∀ begun rest middle, patientSession = begun ++ rest →
      runActions (pumpStep pumpedTask) (pumpStart ptyInit pumpedTask) begun = some middle →
      Delivered middle := by
  have runs : (runActions (pumpStep pumpedTask)
    (pumpStart ptyInit pumpedTask) patientSession).isSome = true := by decide
  obtain ⟨s, reached⟩ := Option.isSome_iff_exists.mp runs
  exact ⟨runs, (pump_delivers (by decide) (by decide) reached).mpr (by decide)⟩

theorem lateByte_lost : ¬ ∀ (before : Ptys) (task : PtyTask) (moves : List PumpMove) (s : PumpState),
    (ptyOpen before).1 = task.ptyId → 0 ≤ task.ptyId →
    runActions (pumpStep task) (pumpStart before task) moves = some s → Delivered s := by
  intro every
  have runs : (runActions (pumpStep pumpedTask) (pumpStart ptyInit pumpedTask)
      [.host, .host, .host, .write [104], .exit, .host]).map
        (fun s => (s.stage.closed, s.drained, s.accepted)) = some (true, [], [104]) := by decide
  obtain ⟨s, reached, shape⟩ := Option.map_eq_some_iff.mp runs
  have delivered := every ptyInit pumpedTask _ s (by decide) (by decide) reached
  rw [Prod.mk.injEq, Prod.mk.injEq] at shape
  obtain ⟨closed, drained, accepted⟩ := shape
  have same := delivered closed
  rw [drained, accepted] at same
  cases same

end Szczupak
