import Szczupak.Lib.Transition
import Szczupak.Tty.PtyCore

/-!
The two channels of a pseudo terminal are FIFO queues.  Beside the terminals a run keeps,
for the session in each slot, the bytes its writers were told were taken and the bytes its
readers got; opening a slot starts a new session.
-/

namespace Szczupak

structure PtyLog where
  hostWrote : List UInt8
  slaveGot : List UInt8
  slaveWrote : List UInt8
  hostGot : List UInt8

structure PtyRun where
  ptys : Ptys
  log : Fin ptyMaxCount → PtyLog

inductive PtyCall where
  | open
  | close (id : Int)
  | attachSlave (id : Int) (pid : UInt32)
  | detachSlave (pid : UInt32)
  | hostRead (id : Int) (length : Nat)
  | hostWrite (id : Int) (bytes : List UInt8)
  | slaveRead (task : PtyTask) (length : Nat)
  | slaveWrite (task : PtyTask) (bytes : List UInt8)

def emptyLog : PtyLog := ⟨[], [], [], []⟩

def PtyRun.note (run : PtyRun) (ptys : Ptys) (id : Int) (change : PtyLog → PtyLog) : PtyRun :=
  { ptys := ptys
    log := fun slot => if ptySlot id = some slot then change (run.log slot) else run.log slot }

def ptyStep (run : PtyRun) : PtyCall → Option PtyRun
  | .open =>
      let (id, ptys) := ptyOpen run.ptys
      some (run.note ptys id fun _ => emptyLog)
  | .close id => some { run with ptys := (ptyClose run.ptys id).2 }
  | .attachSlave id pid => some { run with ptys := (ptyAttachSlave run.ptys id pid).2 }
  | .detachSlave pid => some { run with ptys := ptyDetachSlave run.ptys pid }
  | .hostRead id length =>
      let (bytes, ptys) := ptyHostRead run.ptys id length
      some (run.note ptys id fun log => { log with hostGot := log.hostGot ++ bytes })
  | .hostWrite id bytes =>
      let (taken, ptys) := ptyHostWrite run.ptys id bytes
      some (run.note ptys id fun log => { log with hostWrote := log.hostWrote ++ bytes.take taken })
  | .slaveRead task length =>
      let (bytes, ptys) := ptySlaveRead run.ptys task length
      some (run.note ptys task.ptyId fun log => { log with slaveGot := log.slaveGot ++ bytes })
  | .slaveWrite task bytes =>
      let (taken, ptys) := ptySlaveWrite run.ptys task bytes
      some (run.note ptys task.ptyId fun log => { log with slaveWrote := log.slaveWrote ++ bytes.take taken })

def ptyBoot : PtyRun := ⟨ptyInit, fun _ => emptyLog⟩

/-- What was written in a direction is what was read and then what the ring holds. -/
structure PtyFifo (pty : Pty) (log : PtyLog) : Prop where
  hostRing : pty.hostToSlave.WellFormed ptyBufSize
  slaveRing : pty.slaveToHost.WellFormed ptyBufSize
  hostBytes : pty.used = true → log.hostWrote = log.slaveGot ++ pty.hostToSlave.contents ptyBufSize
  slaveBytes : pty.used = true → log.slaveWrote = log.hostGot ++ pty.slaveToHost.contents ptyBufSize

def PtysFifo (run : PtyRun) : Prop := ∀ slot, PtyFifo (run.ptys slot) (run.log slot)

section Calls

variable {run : PtyRun} {ptys : Ptys} {slot : Fin ptyMaxCount} {id : Int} {pty : Pty} {log : PtyLog}

theorem ptySlotValid_slot (found : ptySlotValid ptys id = some slot) :
    ptySlot id = some slot ∧ (ptys slot).used = true := by
  unfold ptySlotValid at found
  rw [Option.filter_eq_some_iff] at found
  exact found

theorem ptyTaskAttached_slot {task : PtyTask} (found : ptyTaskAttached ptys task = some slot) :
    ptySlot task.ptyId = some slot ∧ (ptys slot).used = true := by
  unfold ptyTaskAttached at found
  rw [Option.filter_eq_some_iff] at found
  exact ptySlotValid_slot found.1

theorem ptySlot_val (slot : Fin ptyMaxCount) : ptySlot slot.val = some slot := by
  have bound := slot.isLt
  unfold ptySlot
  rw [dif_pos ⟨by omega, by omega⟩]
  simp

theorem PtysFifo.note (holds : PtysFifo run) (named : ptySlot id = some slot)
    {change : PtyLog → PtyLog} (fifo : PtyFifo pty (change (run.log slot))) :
    PtysFifo (run.note (Function.update run.ptys slot pty) id change) := by
  intro other
  by_cases same : other = slot
  · subst same
    simpa [PtyRun.note, named] using fifo
  · have differs : ptySlot id ≠ some other := by
      rw [named]
      exact fun equal => same (Option.some.inj equal).symm
    simpa [PtyRun.note, differs, same] using holds other

theorem PtysFifo.idle (holds : PtysFifo run) {change : PtyLog → PtyLog}
    (nothing : ∀ log, change log = log) : PtysFifo (run.note run.ptys id change) := by
  intro other
  simpa [PtyRun.note, nothing] using holds other

theorem ptyReset_fifo (pty : Pty) (used : Bool) : PtyFifo (pty.reset used) emptyLog :=
  ⟨Ring.reset_wellFormed (by decide) _, Ring.reset_wellFormed (by decide) _, fun _ => rfl, fun _ => rfl⟩

section

variable (holds : PtysFifo run)
include holds

theorem PtysFifo.change (fifo : PtyFifo pty (run.log slot)) :
    PtysFifo { run with ptys := Function.update run.ptys slot pty } := by
  intro other
  by_cases same : other = slot
  · subst same
    simpa using fifo
  · simpa [same] using holds other

theorem PtysFifo.open :
    PtysFifo (run.note (ptyOpen run.ptys).2 (ptyOpen run.ptys).1 fun _ => emptyLog) := by
  unfold ptyOpen
  split
  · rename_i slot free
    exact holds.note (ptySlot_val slot) (ptyReset_fifo _ true)
  · intro other
    have none : ptySlot (-1) = none := rfl
    simpa [PtyRun.note, none] using holds other

theorem PtysFifo.close (id : Int) :
    PtysFifo { run with ptys := (ptyClose run.ptys id).2 } := by
  unfold ptyClose
  split
  · exact holds
  · rename_i slot _
    split
    · exact holds
    · have empty := ptyReset_fifo (run.ptys slot) false
      exact holds.change ⟨empty.hostRing, empty.slaveRing, (fun used => by cases used),
        fun used => by cases used⟩

theorem PtysFifo.attachSlave (id : Int) (pid : UInt32) :
    PtysFifo { run with ptys := (ptyAttachSlave run.ptys id pid).2 } := by
  unfold ptyAttachSlave
  split
  · exact holds
  · split
    · exact holds
    · rename_i slot _
      split
      · exact holds
      · have fifo := holds slot
        exact holds.change ⟨fifo.hostRing, fifo.slaveRing, fifo.hostBytes, fifo.slaveBytes⟩

theorem PtysFifo.detachSlave (pid : UInt32) :
    PtysFifo { run with ptys := ptyDetachSlave run.ptys pid } := by
  intro other
  have fifo := holds other
  unfold ptyDetachSlave
  split
  · exact fifo
  · dsimp only
    split
    · exact ⟨fifo.hostRing, fifo.slaveRing, fifo.hostBytes, fifo.slaveBytes⟩
    · exact fifo

end

theorem PtyFifo.slaveReads (fifo : PtyFifo pty log) (length : Nat) :
    PtyFifo { pty with hostToSlave := (Ring.popUpTo ptyBufSize length pty.hostToSlave).2 }
      { log with slaveGot := log.slaveGot ++ (Ring.popUpTo ptyBufSize length pty.hostToSlave).1 } := by
  obtain ⟨wellFormed, front⟩ := Ring.popUpTo_spec length fifo.hostRing
  refine ⟨wellFormed, fifo.slaveRing, fun used => ?_, fifo.slaveBytes⟩
  rw [List.append_assoc, ← front]
  exact fifo.hostBytes used

theorem PtyFifo.hostReads (fifo : PtyFifo pty log) (length : Nat) :
    PtyFifo { pty with slaveToHost := (Ring.popUpTo ptyBufSize length pty.slaveToHost).2 }
      { log with hostGot := log.hostGot ++ (Ring.popUpTo ptyBufSize length pty.slaveToHost).1 } := by
  obtain ⟨wellFormed, front⟩ := Ring.popUpTo_spec length fifo.slaveRing
  refine ⟨fifo.hostRing, wellFormed, fifo.hostBytes, fun used => ?_⟩
  rw [List.append_assoc, ← front]
  exact fifo.slaveBytes used

theorem PtyFifo.hostWrites (fifo : PtyFifo pty log) (bytes : List UInt8) :
    PtyFifo { pty with hostToSlave := (pty.hostToSlave.pushAll ptyBufSize bytes).2 }
      { log with
        hostWrote := log.hostWrote ++ bytes.take (pty.hostToSlave.pushAll ptyBufSize bytes).1 } := by
  obtain ⟨wellFormed, appended⟩ := Ring.pushAll_spec bytes fifo.hostRing
  refine ⟨wellFormed, fifo.slaveRing, fun used => ?_, fifo.slaveBytes⟩
  rw [appended, ← List.append_assoc, ← fifo.hostBytes used]

theorem PtyFifo.slaveWrites (fifo : PtyFifo pty log) (bytes : List UInt8) :
    PtyFifo { pty with slaveToHost := (pty.slaveToHost.pushAll ptyBufSize bytes).2 }
      { log with
        slaveWrote := log.slaveWrote ++ bytes.take (pty.slaveToHost.pushAll ptyBufSize bytes).1 } := by
  obtain ⟨wellFormed, appended⟩ := Ring.pushAll_spec bytes fifo.slaveRing
  refine ⟨fifo.hostRing, wellFormed, fifo.hostBytes, fun used => ?_⟩
  rw [appended, ← List.append_assoc, ← fifo.slaveBytes used]

theorem ptyStep_fifo {call : PtyCall} {after : PtyRun} (holds : PtysFifo run)
    (stepped : ptyStep run call = some after) : PtysFifo after := by
  cases call with
  | «open» =>
      cases stepped
      exact holds.open
  | close id =>
      cases stepped
      exact holds.close id
  | attachSlave id pid =>
      cases stepped
      exact holds.attachSlave id pid
  | detachSlave pid =>
      cases stepped
      exact holds.detachSlave pid
  | hostRead id length =>
      cases stepped
      split
      · exact holds.idle fun log => by simp
      · rename_i slot found
        exact holds.note (ptySlotValid_slot found).1 ((holds slot).hostReads length)
  | hostWrite id bytes =>
      cases stepped
      split
      · exact holds.idle fun log => by simp
      · rename_i slot found
        exact holds.note (ptySlotValid_slot found).1 ((holds slot).hostWrites bytes)
  | slaveRead task length =>
      cases stepped
      split
      · exact holds.idle fun log => by simp
      · rename_i slot found
        exact holds.note (ptyTaskAttached_slot found).1 ((holds slot).slaveReads length)
  | slaveWrite task bytes =>
      cases stepped
      split
      · exact holds.idle fun log => by simp
      · rename_i slot found
        exact holds.note (ptyTaskAttached_slot found).1 ((holds slot).slaveWrites bytes)

end Calls

section Sessions

variable {ptys : Ptys}

theorem ptyOpen_fresh {id : Int} {after : Ptys} (opened : ptyOpen ptys = (id, after)) (done : id ≠ -1) :
    ∃ slot, ptySlot id = some slot ∧ (ptys slot).used = false ∧ (after slot).used = true ∧
      (after slot).slavePid = 0 ∧ (after slot).hostToSlave.count = 0 ∧
      (after slot).slaveToHost.count = 0 := by
  unfold ptyOpen at opened
  split at opened
  · rename_i slot free
    cases opened
    have unused := List.find?_some free
    simp only [Bool.not_eq_true'] at unused
    refine ⟨slot, ptySlot_val slot, unused, ?_⟩
    simp [Pty.reset, Ring.reset]
  · cases opened
    exact absurd rfl done

theorem ptyClose_attached {id : Int} {slot : Fin ptyMaxCount} (named : ptySlot id = some slot)
    (attached : (ptys slot).slavePid ≠ 0) : ptyClose ptys id = (-1, ptys) := by
  unfold ptyClose
  split
  · rfl
  · rename_i other found
    have same := (ptySlotValid_slot found).1
    rw [named] at same
    cases same
    rw [if_pos attached]

def PtyAttached (ptys : Ptys) (task : PtyTask) : Prop :=
  ∃ slot, ptySlot task.ptyId = some slot ∧ (ptys slot).used = true ∧ (ptys slot).slavePid ≠ 0 ∧
    (ptys slot).slavePid = task.pid

theorem ptyTaskAttached_stranger {task : PtyTask} (stranger : ¬PtyAttached ptys task) :
    ptyTaskAttached ptys task = none := by
  cases found : ptyTaskAttached ptys task with
  | none => rfl
  | some slot =>
      obtain ⟨named, used⟩ := ptyTaskAttached_slot found
      unfold ptyTaskAttached at found
      rw [Option.filter_eq_some_iff] at found
      have ours : (ptys slot).slavePid = task.pid := by simpa using found.2
      have valid : 0 ≤ task.ptyId := by
        unfold ptySlot at named
        split at named
        · rename_i bound
          exact bound.1
        · cases named
      refine absurd ⟨slot, named, used, ?_, ours⟩ stranger
      rw [ours]
      exact task.named valid

theorem ptySlave_stranger {task : PtyTask} (stranger : ¬PtyAttached ptys task) (length : Nat)
    (bytes : List UInt8) :
    ptySlaveRead ptys task length = ([], ptys) ∧ ptySlaveWrite ptys task bytes = (0, ptys) := by
  unfold ptySlaveRead ptySlaveWrite
  rw [ptyTaskAttached_stranger stranger]
  exact ⟨rfl, rfl⟩

end Sessions

theorem PtysFifo.reached {calls : List PtyCall} {run : PtyRun}
    (reached : runActions ptyStep ptyBoot calls = some run) : PtysFifo run := by
  have initial : PtysFifo ptyBoot := by
    intro slot
    have empty : Ring.WellFormed ptyBufSize (⟨fun _ => 0, 0, 0, 0⟩ : Ring UInt8) :=
      ⟨by decide, by decide, rfl⟩
    exact ⟨empty, empty, (fun used => by cases used), fun used => by cases used⟩
  exact runActions_invariant (fun _ _ _ holds stepped => ptyStep_fifo holds stepped) initial reached

/-- In every state that calls in any order lead to. -/
theorem pty_channels_fifo {calls : List PtyCall} {run : PtyRun}
    (reached : runActions ptyStep ptyBoot calls = some run) :
    (∀ slot, (run.ptys slot).used = true →
      (run.log slot).slaveGot <+: (run.log slot).hostWrote ∧
      (run.log slot).hostGot <+: (run.log slot).slaveWrote) ∧
    (∀ slot, (run.ptys slot).hostToSlave.WellFormed ptyBufSize ∧
      (run.ptys slot).slaveToHost.WellFormed ptyBufSize) ∧
    (∀ id after, ptyOpen run.ptys = (id, after) → id ≠ -1 →
      ∃ slot, ptySlot id = some slot ∧ (run.ptys slot).used = false ∧ (after slot).used = true ∧
        (after slot).slavePid = 0 ∧ (after slot).hostToSlave.count = 0 ∧
        (after slot).slaveToHost.count = 0) ∧
    (∀ id slot, ptySlot id = some slot → (run.ptys slot).slavePid ≠ 0 →
      ptyClose run.ptys id = (-1, run.ptys)) ∧
    (∀ task length bytes, ¬PtyAttached run.ptys task →
      ptySlaveRead run.ptys task length = ([], run.ptys) ∧
      ptySlaveWrite run.ptys task bytes = (0, run.ptys)) := by
  have holds := PtysFifo.reached reached
  refine ⟨fun slot used => ⟨?_, ?_⟩, fun slot => ⟨(holds slot).hostRing, (holds slot).slaveRing⟩,
    fun id after opened done => ptyOpen_fresh opened done,
    fun id slot named attached => ptyClose_attached named attached,
    fun task length bytes stranger => ptySlave_stranger stranger length bytes⟩
  · exact ⟨_, ((holds slot).hostBytes used).symm⟩
  · exact ⟨_, ((holds slot).slaveBytes used).symm⟩

def firstPty : Fin ptyMaxCount := ⟨0, ptyMaxCount_pos⟩

def sharedSession : List PtyCall :=
  [.open, .attachSlave 0 7, .hostWrite 0 [1, 2, 3], .slaveRead ⟨7, 0, by decide⟩ 2,
    .slaveRead ⟨9, 0, by decide⟩ 2]

theorem sharedSession_fifo :
    ∃ run, runActions ptyStep ptyBoot sharedSession = some run ∧
      (run.log firstPty).slaveGot = [1, 2] ∧
      (run.log firstPty).slaveGot <+: (run.log firstPty).hostWrote ∧
      ptyClose run.ptys 0 = (-1, run.ptys) := by
  refine ⟨_, rfl, by decide, ?_⟩
  have fifo := @pty_channels_fifo sharedSession _ rfl
  exact ⟨(fifo.1 firstPty (by decide)).1, fifo.2.2.2.1 0 firstPty rfl (by decide)⟩

end Szczupak
