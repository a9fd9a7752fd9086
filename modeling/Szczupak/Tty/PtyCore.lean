import Szczupak.Lib.RingBuffer

/-!
The pseudo terminals of `pty.c`.  Every routine runs with interrupts off, so a call is one
step; a read gives the bytes it put in the caller's buffer, a write how many it took.
-/

namespace Szczupak

def ptyMaxCount : Nat := 8
def ptyBufSize : Nat := 4096

theorem ptyMaxCount_pos : 0 < ptyMaxCount := by decide

structure Pty where
  used : Bool
  slavePid : UInt32
  hostToSlave : Ring UInt8
  slaveToHost : Ring UInt8

abbrev Ptys := Fin ptyMaxCount → Pty

/-- What a slave call reads of its task.  A terminal is given to a task only after
`pty_attach_slave` took its pid, which refuses pid 0. -/
structure PtyTask where
  pid : UInt32
  ptyId : Int
  named : 0 ≤ ptyId → pid ≠ 0

def ptyInit : Ptys := fun _ => ⟨false, 0, ⟨fun _ => 0, 0, 0, 0⟩, ⟨fun _ => 0, 0, 0, 0⟩⟩

def ptySlot (id : Int) : Option (Fin ptyMaxCount) :=
  if bound : 0 ≤ id ∧ id < ptyMaxCount then some ⟨id.toNat, by omega⟩ else none

def ptySlotValid (ptys : Ptys) (id : Int) : Option (Fin ptyMaxCount) :=
  (ptySlot id).filter fun slot => (ptys slot).used

def Pty.reset (pty : Pty) (used : Bool) : Pty :=
  { used := used, slavePid := 0, hostToSlave := pty.hostToSlave.reset,
    slaveToHost := pty.slaveToHost.reset }

def ptyOpen (ptys : Ptys) : Int × Ptys :=
  match (List.finRange ptyMaxCount).find? fun slot => !(ptys slot).used with
  | some slot => (slot.val, Function.update ptys slot ((ptys slot).reset true))
  | none => (-1, ptys)

def ptyClose (ptys : Ptys) (id : Int) : Int × Ptys :=
  match ptySlotValid ptys id with
  | none => (-1, ptys)
  | some slot =>
      if (ptys slot).slavePid ≠ 0 then (-1, ptys)
      else (0, Function.update ptys slot ((ptys slot).reset false))

def ptyAttachSlave (ptys : Ptys) (id : Int) (pid : UInt32) : Int × Ptys :=
  if pid = 0 then (-1, ptys)
  else
    match ptySlotValid ptys id with
    | none => (-1, ptys)
    | some slot =>
        if (ptys slot).slavePid ≠ 0 ∧ (ptys slot).slavePid ≠ pid then (-1, ptys)
        else (0, Function.update ptys slot { ptys slot with slavePid := pid })

def ptyDetachSlave (ptys : Ptys) (pid : UInt32) : Ptys :=
  if pid = 0 then ptys
  else fun slot =>
    let pty := ptys slot
    if pty.used && pty.slavePid == pid then { pty with slavePid := 0 } else pty

def ptyTaskAttached (ptys : Ptys) (task : PtyTask) : Option (Fin ptyMaxCount) :=
  (ptySlotValid ptys task.ptyId).filter fun slot => (ptys slot).slavePid == task.pid

def ptySlaveRead (ptys : Ptys) (task : PtyTask) (length : Nat) : List UInt8 × Ptys :=
  match ptyTaskAttached ptys task with
  | none => ([], ptys)
  | some slot =>
      let (bytes, ring) := Ring.popUpTo ptyBufSize length (ptys slot).hostToSlave
      (bytes, Function.update ptys slot { ptys slot with hostToSlave := ring })

def ptySlaveWrite (ptys : Ptys) (task : PtyTask) (bytes : List UInt8) : Nat × Ptys :=
  match ptyTaskAttached ptys task with
  | none => (0, ptys)
  | some slot =>
      let (taken, ring) := (ptys slot).slaveToHost.pushAll ptyBufSize bytes
      (taken, Function.update ptys slot { ptys slot with slaveToHost := ring })

def ptyHostRead (ptys : Ptys) (id : Int) (length : Nat) : List UInt8 × Ptys :=
  match ptySlotValid ptys id with
  | none => ([], ptys)
  | some slot =>
      let (bytes, ring) := Ring.popUpTo ptyBufSize length (ptys slot).slaveToHost
      (bytes, Function.update ptys slot { ptys slot with slaveToHost := ring })

def ptyHostWrite (ptys : Ptys) (id : Int) (bytes : List UInt8) : Nat × Ptys :=
  match ptySlotValid ptys id with
  | none => (0, ptys)
  | some slot =>
      let (taken, ring) := (ptys slot).hostToSlave.pushAll ptyBufSize bytes
      (taken, Function.update ptys slot { ptys slot with hostToSlave := ring })

def ptyHostOutAvailable (ptys : Ptys) (id : Int) : Nat :=
  match ptySlotValid ptys id with
  | none => 0
  | some slot => (ptys slot).slaveToHost.count

end Szczupak
