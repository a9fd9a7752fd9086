import Szczupak.Mm.Verify
import Szczupak.Tty.Pty
import Szczupak.Tty.TerminalCore

/-!
What `sys_write`, `sys_pty_read` and `sys_mouse_poll` return against what they moved.
-/

namespace Szczupak

def Wrote (task : Option PtyTask) (bytes : List UInt8) (before after : TtyState) (count : Nat) : Prop :=
  match currentPty task before.ptys with
  | some (_, slot) =>
      (after.ptys slot).slaveToHost.contents ptyBufSize =
        (before.ptys slot).slaveToHost.contents ptyBufSize ++ bytes.take count ∧
      (∀ other ≠ slot, after.ptys other = before.ptys other) ∧ after.console = before.console
  | none => after.ptys = before.ptys ∧ after.console.serial = before.console.serial ++ bytes.take count

/-- The value is the number of bytes that were written, or says that none was. -/
def Truthful (task : Option PtyTask) (bytes : List UInt8) (before : TtyState)
    (result : UInt64 × TtyState) : Prop :=
  result.1 = -1 ∧ Wrote task bytes before result.2 0 ∨
    result.1.toNat ≤ bytes.length ∧ Wrote task bytes before result.2 result.1.toNat

section Write

variable {task : Option PtyTask} {before : TtyState} {bytes : List UInt8}

theorem Screen.draw_serial (screen : Screen) (console : Console) (c : UInt8) :
    (screen.draw console c).serial = console.serial := by
  simp only [draw, nextLine]
  repeat' split
  all_goals rfl

theorem Screen.puts_serial (screen : Screen) (bytes : List UInt8) (console : Console) :
    (bytes.foldl screen.put console).serial = console.serial ++ bytes := by
  induction bytes generalizing console with
  | nil => simp
  | cons c rest ih =>
      have one : (screen.put console c).serial = console.serial ++ [c] := by
        rw [put]
        split
        · simp only [draw_serial]
        · rfl
      rw [List.foldl_cons, ih, one, List.append_assoc]
      rfl

variable {slot : Fin ptyMaxCount}

theorem currentPty_task {current : PtyTask} {ptys : Ptys}
    (attached : currentPty task ptys = some (current, slot)) :
    ptyTaskAttached ptys current = some slot := by
  cases task with
  | none => cases attached
  | some task =>
      simp only [currentPty, Option.bind_some, Option.map_eq_some_iff, Prod.mk.injEq] at attached
      obtain ⟨found, valid, rfl, rfl⟩ := attached
      exact valid

theorem terminalWrite_user (screen : Screen) (task : Option PtyTask) (bytes : List UInt8)
    (state : TtyState) : (terminalWrite screen task bytes state).user = state.user := by
  rw [terminalWrite]
  split <;> rfl

theorem wrote_nothing {user : UserState} : Wrote task bytes before { before with user := user } 0 := by
  rw [Wrote]
  split
  · simp
  · simp

theorem terminalWrite_console {screen : Screen} {user : UserState}
    (free : currentPty task before.ptys = none) :
    Wrote task bytes before (terminalWrite screen task bytes { before with user := user })
    bytes.length := by
  rw [Wrote, terminalWrite]
  simp only [free, List.take_length]
  exact ⟨trivial, Screen.puts_serial screen bytes before.console⟩

theorem terminalWrite_pty {screen : Screen} {user : UserState} {current : PtyTask}
    (attached : currentPty task before.ptys = some (current, slot))
    (sound : (before.ptys slot).slaveToHost.WellFormed ptyBufSize) :
    Wrote task bytes before (terminalWrite screen task bytes { before with user := user })
      bytes.length ↔ bytes.length ≤ ptyBufSize - (before.ptys slot).slaveToHost.count := by
  have valid := currentPty_task attached
  have contents := (Ring.pushAll_spec bytes sound).2
  have taken := (@Ring.pushAll_taken _ ptyBufSize bytes (before.ptys slot).slaveToHost).1
  rw [Wrote, terminalWrite]
  simp only [attached, ptySlaveWrite, valid, Function.update_self, contents, List.take_length,
    List.append_cancel_left_eq, taken]
  constructor
  · rintro ⟨all, _⟩
    have lengths := congrArg List.length all
    rw [List.length_take] at lengths
    omega
  · intro room
    refine ⟨List.take_of_length_le (by omega), fun other different => ?_, trivial⟩
    rw [Function.update_of_ne different]

end Write

def WriteOverruns (task : Option PtyTask) (dir : Option Nat) (buffer : UInt64) (state : TtyState)
    (strAddr size : UInt64) : Prop :=
  strAddr ≠ 0 ∧ size ≠ 0 ∧ size ≤ 4096 ∧ (copyFromUser state.user dir buffer strAddr size).1 = 0 ∧
    ∃ current slot, currentPty task state.ptys = some (current, slot) ∧
      ptyBufSize - (state.ptys slot).slaveToHost.count < size.toNat

theorem sysWrite_exact {state : TtyState}
    (sound : ∀ slot, (state.ptys slot).slaveToHost.WellFormed ptyBufSize)
    (screen : Screen) (task : Option PtyTask) (dir : Option Nat) (buffer strAddr size : UInt64) :
    Truthful task (writeBytes dir buffer state strAddr size) state
        (sysWrite dir buffer state screen task strAddr size) ↔
      ¬WriteOverruns task dir buffer state strAddr size := by
  rw [sysWrite, WriteOverruns]
  by_cases empty : strAddr = 0 ∨ size = 0
  · rw [if_pos empty]
    apply iff_of_true
    · exact Or.inr ⟨Nat.zero_le _, wrote_nothing⟩
    · rintro ⟨some, positive, _⟩
      exact empty.elim some positive
  rw [if_neg empty]
  by_cases large : size > 4096
  · rw [if_pos large]
    apply iff_of_true
    · exact Or.inl ⟨rfl, wrote_nothing⟩
    · rintro ⟨_, _, small, _⟩
      exact absurd large (by simpa using small)
  rw [if_neg large]
  by_cases failed : (copyFromUser state.user dir buffer strAddr size).1 ≠ 0
  · simp only [if_pos failed]
    apply iff_of_true
    · exact Or.inl ⟨rfl, wrote_nothing⟩
    · rintro ⟨_, _, _, copied, _⟩
      exact failed copied
  simp only [if_neg failed]
  rw [not_or] at empty
  have small : size ≤ 4096 := by simpa using large
  have length : (writeBytes dir buffer state strAddr size).length = size.toNat := by
    simp [writeBytes, Mem.read]
  have notError : size ≠ -1 := by
    rintro rfl
    exact absurd small (by decide)
  have whole : Truthful task (writeBytes dir buffer state strAddr size) state
      (size, terminalWrite screen task (writeBytes dir buffer state strAddr size)
        { state with user := (copyFromUser state.user dir buffer strAddr size).2 }) ↔
      Wrote task (writeBytes dir buffer state strAddr size) state
        (terminalWrite screen task (writeBytes dir buffer state strAddr size)
          { state with user := (copyFromUser state.user dir buffer strAddr size).2 })
        (writeBytes dir buffer state strAddr size).length := by
    simp [Truthful, notError, length]
  refine whole.trans ?_
  cases attached : currentPty task state.ptys with
  | none =>
      apply iff_of_true (terminalWrite_console attached)
      rintro ⟨_, _, _, _, _, _, impossible, _⟩
      cases impossible
  | some found =>
      obtain ⟨current, slot⟩ := found
      rw [terminalWrite_pty attached (sound slot), length]
      constructor
      · rintro room ⟨_, _, _, _, _, _, same, overrun⟩
        cases same
        omega
      · intro covered
        by_contra overrun
        exact covered ⟨empty.1, empty.2, small, Decidable.of_not_not failed, current, slot, rfl,
          Nat.lt_of_not_le overrun⟩

/-- In every state of the terminals that calls lead to, the value of `sys_write` tells how much was
written unless the bytes overrun the ring. -/
theorem sys_write_truthful {calls : List PtyCall} {run : PtyRun}
    (reached : runActions ptyStep ptyBoot calls = some run) {state : TtyState}
    (ptys : state.ptys = run.ptys)
    (screen : Screen) (task : Option PtyTask) (dir : Option Nat) (buffer strAddr size : UInt64) :
    Truthful task (writeBytes dir buffer state strAddr size) state
        (sysWrite dir buffer state screen task strAddr size) ↔
      ¬WriteOverruns task dir buffer state strAddr size := by
  apply sysWrite_exact
  rw [ptys]
  exact fun slot => (PtysFifo.reached reached slot).slaveRing

theorem loudTask_named : 0 ≤ (0 : Int) → (7 : UInt32) ≠ 0 := by decide

def loudTask : PtyTask := ⟨7, 0, loudTask_named⟩

def loudSession (bytes : List UInt8) : List PtyCall :=
  [.open, .attachSlave 0 7, .slaveWrite loudTask bytes]

theorem loudSession_full {bytes : List UInt8} (whole : bytes.length = ptyBufSize) :
    ∃ run, runActions ptyStep ptyBoot (loudSession bytes) = some run ∧
      currentPty (some loudTask) run.ptys = some (loudTask, firstPty) ∧
      (run.ptys firstPty).slaveToHost.count = ptyBufSize := by
  obtain ⟨opened, reached, attached, owned, empty⟩ : ∃ opened,
      runActions ptyStep ptyBoot [.open, .attachSlave 0 7] = some opened ∧
        ptyTaskAttached opened.ptys loudTask = some firstPty ∧ (opened.ptys firstPty).slavePid =
        loudTask.pid ∧ (opened.ptys firstPty).slaveToHost.count = 0 :=
    ⟨_, rfl, by decide, rfl, rfl⟩
  obtain ⟨taken, count⟩ := @Ring.pushAll_taken _ ptyBufSize bytes (opened.ptys firstPty).slaveToHost
  obtain ⟨run, stepped, ptys⟩ : ∃ run, ptyStep opened (.slaveWrite loudTask bytes) = some run ∧
      run.ptys = (ptySlaveWrite opened.ptys loudTask bytes).2 := ⟨_, rfl, rfl⟩
  rw [ptySlaveWrite, attached] at ptys
  refine ⟨run, ?_, ?_, ?_⟩
  · obtain ⟨first, one, rest⟩ := runActions_cons reached
    obtain ⟨second, two, done⟩ := runActions_cons rest
    cases done
    simp only [loudSession, runActions, one, two, stepped]
  · have named : ptySlot loudTask.ptyId = some firstPty := rfl
    have used : (run.ptys firstPty).used = true := by simpa [ptys] using (ptyTaskAttached_slot attached).2
    have slave : (run.ptys firstPty).slavePid = loudTask.pid := by simpa [ptys] using owned
    simp [currentPty, ptyTaskAttached, ptySlotValid, named, used, slave]
  · rw [ptys]
    simp only [Function.update_self, count, taken, empty, whole]
    rfl

theorem mouseQueueSize_pos : 0 < mouseQueueSize := by decide

def ttyState (ptys : Ptys) : TtyState where
  ptys := ptys
  console := ⟨0, 0, [], []⟩
  mouse := ⟨fun _ => ⟨0, 0, 0, 0, 0, 0, 0⟩, ⟨0, mouseQueueSize_pos⟩, ⟨0, mouseQueueSize_pos⟩, 0⟩
  user := ⟨selfMapped, fun _ => 0, []⟩

def noScreen : Screen := ⟨false, 0, 0, 0, 0⟩

theorem loudSession_truthful : ∃ run, runActions ptyStep ptyBoot (loudSession [97, 98]) = some run ∧
    (copyFromUser (ttyState run.ptys).user (some 0x1000) 0x9000 0x80001FF008 3).1 = 0 ∧
    Truthful (some loudTask) (writeBytes (some 0x1000) 0x9000 (ttyState run.ptys) 0x80001FF008 3)
    (ttyState run.ptys)
      (sysWrite (some 0x1000) 0x9000 (ttyState run.ptys) noScreen (some loudTask) 0x80001FF008 3) := by
  obtain ⟨run, reached, attached, queued⟩ : ∃ run,
    runActions ptyStep ptyBoot (loudSession [97, 98]) = some run ∧
      currentPty (some loudTask) run.ptys = some (loudTask, firstPty) ∧
      (run.ptys firstPty).slaveToHost.count = 2 := ⟨_, rfl, rfl, rfl⟩
  have copied : (copyFromUser ⟨selfMapped, fun _ => 0, []⟩ (some 0x1000) 0x9000 0x80001FF008 3).1 =
    0 := by decide +kernel
  refine ⟨run, reached, copied, (sys_write_truthful reached rfl noScreen _ _ _ _ _).mpr ?_⟩
  rintro ⟨_, _, _, _, current, slot, same, overrun⟩
  rw [ttyState, attached] at same
  cases same
  rw [ttyState, queued] at overrun
  exact absurd overrun (by decide)

theorem loudSession_untold : ∃ calls run, runActions ptyStep ptyBoot calls = some run ∧
    (sysWrite (some 0x1000) 0x9000 (ttyState run.ptys) noScreen (some loudTask) 0x80001FF008 1).1 = 1 ∧
    ¬Truthful (some loudTask) (writeBytes (some 0x1000) 0x9000 (ttyState run.ptys) 0x80001FF008 1)
    (ttyState run.ptys)
      (sysWrite (some 0x1000) 0x9000 (ttyState run.ptys) noScreen (some loudTask) 0x80001FF008 1) := by
  obtain ⟨run, reached, attached, full⟩ :=
    @loudSession_full (List.replicate ptyBufSize 97) List.length_replicate
  have copied : (copyFromUser ⟨selfMapped, fun _ => 0, []⟩ (some 0x1000) 0x9000 0x80001FF008 1).1 =
    0 := by decide +kernel
  refine ⟨_, run, reached, ?_, ?_⟩
  · simp [sysWrite, ttyState, copied]
  · rw [@sysWrite_exact (ttyState run.ptys) fun slot => (PtysFifo.reached reached slot).slaveRing, not_not]
    refine ⟨by decide, by decide, by decide, copied, loudTask, firstPty, attached, ?_⟩
    rw [ttyState, full]
    decide

def MouseQueue.count (mouse : MouseQueue) : Nat :=
  (mouse.head.val + mouseQueueSize - mouse.tail.val) % mouseQueueSize

def MouseQueue.events (mouse : MouseQueue) : List MouseEvent :=
  (List.range mouse.count).map fun offset =>
    mouse.queue ⟨(mouse.tail.val + offset) % mouseQueueSize, Nat.mod_lt _ (by decide)⟩

/-- The queue with the events that have arrived; `usb_poll` runs only for an address. -/
def mouseArrived (mouse : MouseQueue) (arrivals : List MouseEvent) (eventAddr : UInt64) : MouseQueue :=
  if eventAddr = 0 then mouse else arrivals.foldl mouseQueuePush mouse

section Read

variable (dir : Option Nat) (buffer : UInt64) (state : TtyState)

/-- Bytes are queued for the host, and `copy_to_user` refuses the buffer they are to go to. -/
def PtyReadRefused (ptyId bufAddr size : UInt64) : Prop :=
  bufAddr ≠ 0 ∧ size ≠ 0 ∧ ∃ slot, ptySlotValid state.ptys (ptyArgument ptyId) = some slot ∧
    (state.ptys slot).slaveToHost.count ≠ 0 ∧
    (giveUser dir buffer state.user bufAddr
      (ptyHostRead state.ptys (ptyArgument ptyId) (min size.toNat 4096)).1).1 ≠ 0

def MousePollRefused (arrivals : List MouseEvent) (eventAddr : UInt64) : Prop :=
  eventAddr ≠ 0 ∧ (mouseArrived state.mouse arrivals eventAddr).count ≠ 0 ∧
    (giveUser dir buffer state.user eventAddr (mouseEventBytes
      ((mouseArrived state.mouse arrivals eventAddr).queue
      (mouseArrived state.mouse arrivals eventAddr).tail))).1 ≠ 0

end Read

section Keeps

variable {dir : Option Nat} {buffer : UInt64} {state : TtyState}

theorem ptyHostRead_count {ptys : Ptys} {id : Int} (valid : ptySlotValid ptys id = some slot)
    (limit : Nat) :
    (ptyHostRead ptys id limit).1.length = min limit (ptys slot).slaveToHost.count ∧
      ((ptyHostRead ptys id limit).2 slot).slaveToHost.count =
        (ptys slot).slaveToHost.count - min limit (ptys slot).slaveToHost.count := by
  rw [ptyHostRead, valid]
  simp [Ring.popUpTo_count]

theorem sysPtyRead_keeps {ptyId bufAddr size : UInt64} :
    ((sysPtyRead dir buffer state ptyId bufAddr size).1 = -1 →
        (sysPtyRead dir buffer state ptyId bufAddr size).2.ptys = state.ptys) ↔
      ¬PtyReadRefused dir buffer state ptyId bufAddr size := by
  rw [sysPtyRead, PtyReadRefused]
  by_cases empty : bufAddr = 0 ∨ size = 0
  · rw [if_pos empty]
    apply iff_of_true
    · exact fun _ => rfl
    · rintro ⟨some, positive, _⟩
      exact empty.elim some positive
  rw [if_neg empty]
  rw [not_or] at empty
  cases valid : ptySlotValid state.ptys (ptyArgument ptyId) with
  | none =>
      apply iff_of_true
      · exact fun _ => rfl
      · rintro ⟨_, _, slot, impossible, _⟩
        cases impossible
  | some slot =>
      have positive : size.toNat ≠ 0 := fun zero => empty.2 (UInt64.toNat_inj.mp zero)
      obtain ⟨length, left⟩ := ptyHostRead_count valid (min size.toNat 4096)
      simp only [Option.isNone_some, Bool.false_eq_true, if_false]
      by_cases nothing : (ptyHostRead state.ptys (ptyArgument ptyId) (min size.toNat 4096)).1 = []
      · rw [if_pos nothing]
        rw [nothing, List.length_nil] at length
        apply iff_of_true
        · intro impossible
          exact absurd (show (0 : UInt64) = -1 from impossible) (by decide)
        · rintro ⟨_, _, other, same, queued, _⟩
          cases same
          omega
      · rw [if_neg nothing]
        have some : (ptyHostRead state.ptys (ptyArgument ptyId) (min size.toNat 4096)).1.length ≠ 0 := by
          simpa using nothing
        by_cases refused : (giveUser dir buffer state.user bufAddr
            (ptyHostRead state.ptys (ptyArgument ptyId) (min size.toNat 4096)).1).1 ≠ 0
        · simp only [if_pos refused]
          apply iff_of_false
          · intro keeps
            have same := congrArg (fun ptys => (ptys slot).slaveToHost.count) (keeps trivial)
            simp only [left] at same
            omega
          · exact not_not.mpr ⟨empty.1, empty.2, slot, rfl, by omega, refused⟩
        · simp only [if_neg refused]
          apply iff_of_true
          · intro impossible
            have value := congrArg UInt64.toNat impossible
            rw [UInt64.toNat_ofNat_of_lt' (by rw [length, UInt64.size]; omega)] at value
            have limit : UInt64.toNat (-1) = 18446744073709551615 := rfl
            omega
          · rintro ⟨_, _, _, _, _, other⟩
            exact refused other

theorem mousePollEvent_count {mouse : MouseQueue} :
    (mouse.count = 0 ∧ mousePollEvent mouse = none) ∨
      ∃ rest, mousePollEvent mouse = some (mouse.queue mouse.tail, rest) ∧ mouse.count = rest.count + 1 := by
  have headBound := mouse.head.isLt
  have tailBound := mouse.tail.isLt
  rw [mousePollEvent]
  by_cases same : mouse.head = mouse.tail
  · rw [if_pos same]
    refine Or.inl ⟨?_, rfl⟩
    rw [MouseQueue.count, same]
    simp [mouseQueueSize]
  · rw [if_neg same]
    refine Or.inr ⟨_, rfl, ?_⟩
    rw [← Fin.val_inj] at same
    simp only [MouseQueue.count, nextCell, mouseQueueSize] at headBound tailBound ⊢
    omega

theorem sysMousePoll_keeps {arrivals : List MouseEvent} {eventAddr : UInt64} :
    ((sysMousePoll dir buffer state arrivals eventAddr).1 = -1 →
        (sysMousePoll dir buffer state arrivals eventAddr).2.mouse.events =
          (mouseArrived state.mouse arrivals eventAddr).events) ↔
      ¬MousePollRefused dir buffer state arrivals eventAddr := by
  rw [sysMousePoll, MousePollRefused, mouseArrived]
  by_cases noAddr : eventAddr = 0
  · rw [if_pos noAddr, if_pos noAddr]
    apply iff_of_true
    · exact fun _ => rfl
    · rintro ⟨some, _⟩
      exact some noAddr
  rw [if_neg noAddr, if_neg noAddr]
  generalize arrivals.foldl mouseQueuePush state.mouse = mouse
  rcases @mousePollEvent_count mouse with ⟨empty, polled⟩ | ⟨rest, polled, counted⟩
  · simp only [polled]
    apply iff_of_true
    · intro impossible
      exact absurd impossible (by decide)
    · rintro ⟨_, queued, _⟩
      exact queued empty
  · simp only [polled]
    by_cases refused :
      (giveUser dir buffer state.user eventAddr (mouseEventBytes (mouse.queue mouse.tail))).1 ≠ 0
    · simp only [if_pos refused]
      apply iff_of_false
      · intro keeps
        have lengths := congrArg List.length (keeps trivial)
        simp only [MouseQueue.events, List.length_map, List.length_range] at lengths
        omega
      · exact not_not.mpr ⟨noAddr, by omega, refused⟩
    · simp only [if_neg refused]
      apply iff_of_true
      · intro impossible
        exact absurd impossible (by decide)
      · rintro ⟨_, _, other⟩
        exact refused other

end Keeps

/-- A read that fails leaves what it would have read, unless the copy to the caller is what fails.
-/
theorem failed_reads_keep (dir : Option Nat) (buffer : UInt64) (state : TtyState) :
    (∀ ptyId bufAddr size, ((sysPtyRead dir buffer state ptyId bufAddr size).1 = -1 →
        (sysPtyRead dir buffer state ptyId bufAddr size).2.ptys = state.ptys) ↔
      ¬PtyReadRefused dir buffer state ptyId bufAddr size) ∧
    (∀ arrivals eventAddr, ((sysMousePoll dir buffer state arrivals eventAddr).1 = -1 →
        (sysMousePoll dir buffer state arrivals eventAddr).2.mouse.events =
          (mouseArrived state.mouse arrivals eventAddr).events) ↔
      ¬MousePollRefused dir buffer state arrivals eventAddr) :=
  ⟨fun _ _ _ => sysPtyRead_keeps, fun _ _ => sysMousePoll_keeps⟩

theorem lowAddress_loses : ∃ run, runActions ptyStep ptyBoot (loudSession [97]) = some run ∧
    (sysPtyRead (some 0x1000) 0x9000 (ttyState run.ptys) 0 8 1).1 = -1 ∧
    (sysPtyRead (some 0x1000) 0x9000 (ttyState run.ptys) 0 8 1).2.ptys ≠ (ttyState run.ptys).ptys := by
  refine ⟨_, rfl, by decide +kernel, fun same => ?_⟩
  have count := congrArg (fun ptys => (ptys firstPty).slaveToHost.count) same
  exact absurd count (by decide +kernel)

end Szczupak
