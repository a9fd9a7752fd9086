import Szczupak.Drivers.AtaCore

/-!
What a true result of `ata_read_sector` and `ata_write_sector` says about the drive.  A read
rests on a status
that asks for the data without an error; a write ends with a wait that looks for BSY alone.
-/

namespace Szczupak.Ata

def AtaPort.poll (drive : AtaDrive) (port : AtaPort) (count : Nat) : AtaPort :=
  { port with
    statusReads := port.statusReads + count
    log := port.log ++ (List.range count).map fun turn => .status (drive.status (port.statusReads + turn)) }

structure Settles (drive : AtaDrive) (verdict : UInt8 → Option Bool) (start waits : Nat) : Prop where
  turns : waits < ataTimeout
  again : ∀ turn < waits, verdict (drive.status (start + turn)) = none
  done : verdict (drive.status (start + waits)) = some true

section Waits

variable {drive : AtaDrive} {verdict : UInt8 → Option Bool} {port : AtaPort}

theorem AtaPort.poll_succ (drive : AtaDrive) (port : AtaPort) (count : Nat) :
    (port.readStatus drive).2.poll drive count = port.poll drive (count + 1) := by
  simp only [AtaPort.poll, AtaPort.readStatus, AtaPort.record, AtaPort.mk.injEq, true_and]
  refine ⟨by omega, ?_⟩
  rw [List.range_succ_eq_map, List.map_cons, List.map_map, Nat.add_zero, List.append_assoc,
    List.singleton_append]
  congr 2
  apply List.map_congr_left
  intro turn _
  simp only [Function.comp_apply, Nat.succ_eq_add_one]
  congr 2
  omega

theorem ataPoll_true {timeout : Nat} (ok : (ataPoll drive verdict timeout port).1 = true) :
    ∃ waits < timeout, (∀ turn < waits, verdict (drive.status (port.statusReads + turn)) = none) ∧
      verdict (drive.status (port.statusReads + waits)) = some true ∧
      ataPoll drive verdict timeout port = (true, port.poll drive (waits + 1)) := by
  induction timeout generalizing port with
  | zero => cases ok
  | succ timeout ih =>
      rw [ataPoll] at ok ⊢
      dsimp only at ok ⊢
      have next : (port.readStatus drive).2.statusReads = port.statusReads + 1 := rfl
      split at ok
      next final said =>
        change final = true at ok
        subst ok
        refine ⟨0, Nat.succ_pos _, fun _ impossible => absurd impossible (Nat.not_lt_zero _), said, rfl⟩
      next said =>
        obtain ⟨waits, turns, again, done, result⟩ := ih ok
        rw [next] at again done
        refine ⟨waits + 1, by omega, ?_, ?_, ?_⟩
        · intro turn early
          cases turn with
          | zero => exact said
          | succ turn =>
              rw [show port.statusReads + (turn + 1) = port.statusReads + 1 + turn by omega]
              exact again turn (by omega)
        · rw [show port.statusReads + (waits + 1) = port.statusReads + 1 + waits by omega]
          exact done
        · rw [result, AtaPort.poll_succ]

theorem ataPoll_settles {timeout waits : Nat} (turns : waits < timeout)
    (again : ∀ turn < waits, verdict (drive.status (port.statusReads + turn)) = none)
    (done : verdict (drive.status (port.statusReads + waits)) = some true) :
    ataPoll drive verdict timeout port = (true, port.poll drive (waits + 1)) := by
  induction timeout generalizing port waits with
  | zero => omega
  | succ timeout ih =>
      rw [ataPoll]
      dsimp only
      have next : (port.readStatus drive).2.statusReads = port.statusReads + 1 := rfl
      have value : (port.readStatus drive).1 = drive.status port.statusReads := rfl
      cases waits with
      | zero =>
          rw [Nat.add_zero] at done
          rw [value, done]
          rfl
      | succ waits =>
          have first := again 0 (Nat.succ_pos _)
          rw [Nat.add_zero] at first
          rw [value, first]
          dsimp only
          rw [@ih _ waits (by omega), AtaPort.poll_succ]
          · intro turn early
            rw [next, show port.statusReads + 1 + turn = port.statusReads + (turn + 1) by omega]
            exact again (turn + 1) (by omega)
          · rw [next, show port.statusReads + 1 + waits = port.statusReads + (waits + 1) by omega]
            exact done

theorem ataPoll_exact {waits : Nat} (settles : Settles drive verdict port.statusReads waits) :
    ataPoll drive verdict ataTimeout port = (true, port.poll drive (waits + 1)) :=
  ataPoll_settles settles.turns settles.again settles.done

theorem ataPoll_cases (drive : AtaDrive) (verdict : UInt8 → Option Bool) (port : AtaPort) :
    (∃ waits, Settles drive verdict port.statusReads waits ∧
      ataPoll drive verdict ataTimeout port = (true, port.poll drive (waits + 1))) ∨
    (ataPoll drive verdict ataTimeout port).1 = false ∧ ∀ waits,
    ¬Settles drive verdict port.statusReads waits := by
  cases result : (ataPoll drive verdict ataTimeout port).1 with
  | true =>
      obtain ⟨waits, turns, again, done, same⟩ := ataPoll_true result
      exact Or.inl ⟨waits, ⟨turns, again, done⟩, same⟩
  | false =>
      refine Or.inr ⟨rfl, fun waits settles => ?_⟩
      rw [ataPoll_exact settles] at result
      cases result

theorem Settles.idle {start waits : Nat} (settles : Settles drive notBsyVerdict start waits) :
    ataBusy (drive.status (start + waits)) = false := by
  have done := settles.done
  unfold notBsyVerdict at done
  split at done
  · cases done
  · split at done
    · next idle => simpa using idle
    · cases done

theorem Settles.busy {start waits : Nat} (settles : Settles drive notBsyVerdict start waits)
    {turn : Nat} (early : turn < waits) : ataBusy (drive.status (start + turn)) = true := by
  have again := settles.again turn early
  unfold notBsyVerdict at again
  split at again
  · cases again
  · split at again
    · cases again
    · next busy => simpa using busy

theorem Settles.ready {start waits : Nat} (settles : Settles drive drqVerdict start waits) :
    ataBusy (drive.status (start + waits)) = false ∧ ataFailed (drive.status (start + waits)) =
      false ∧ ataWantsData (drive.status (start + waits)) = true := by
  have done := settles.done
  unfold drqVerdict at done
  split at done
  · cases done
  · split at done
    · cases done
    · next idle =>
      split at done
      · cases done
      · next sound =>
        split at done
        · next wants => exact ⟨by simpa using idle, by simpa using sound, wants⟩
        · cases done

end Waits

def Addressable (device : AtaDevice) (lba : UInt32) : Prop := device.lba48 = true ∨ lba ≤ 0x0FFFFFFF

/-- The statuses that let a call get to its data: idle after `ready` others, then asking for data
after `drq`. -/
structure Begins (drive : AtaDrive) (device : AtaDevice) (lba : UInt32)
    (start ready drq : Nat) : Prop where
  addressable : Addressable device lba
  idle : Settles drive notBsyVerdict start ready
  data : Settles drive drqVerdict (start + (ready + 1)) drq

def Commanded (port after : AtaPort) : Prop :=
  after.statusReads = port.statusReads ∧ ∃ events, after.log = port.log ++ events

section Commands

variable {drive : AtaDrive} {port after : AtaPort} {device : AtaDevice} {lba : UInt32}
    {command commandExt : UInt8}

theorem Commanded.refl (port : AtaPort) : Commanded port port := ⟨rfl, [], (List.append_nil _).symm⟩

theorem Commanded.record (commanded : Commanded port after) (event : AtaEvent) :
    Commanded port (after.record event) := by
  obtain ⟨reads, events, log⟩ := commanded
  exact ⟨reads, events ++ [event], by rw [AtaPort.record, log, List.append_assoc]⟩

theorem Commanded.out (commanded : Commanded port after) (register : Nat) (value : UInt8) :
    Commanded port (after.out register value) := commanded.record _

theorem Commanded.ioDelay (commanded : Commanded port after) : Commanded port after.ioDelay :=
  commanded.record _

theorem ataSelectDrive_commanded (port : AtaPort) (device : AtaDevice) :
    Commanded port (ataSelectDrive port device) :=
  ((Commanded.refl port).out _ _).ioDelay

theorem ataSetupCommand_some (addressable : Addressable device lba) :
    ∃ after, ataSetupCommand port device lba command commandExt = some after ∧
    Commanded port after := by
  unfold ataSetupCommand
  split
  next ext =>
    have wide : device.lba48 = true := (Bool.and_eq_true_iff.mp ext).1
    refine ⟨_, if_neg (by simp [wide]), ?_⟩
    refine Commanded.out
      (Commanded.out (Commanded.out (Commanded.out (Commanded.out ?_ _ _) _ _) _ _) _ _) _ _
    exact (((((((Commanded.refl port).out _ _).ioDelay).out _ _).out _ _).out _ _).out _ _)
  next short =>
    have small : ¬lba > 0x0FFFFFFF := by
      rcases addressable with wide | below
      · simpa [ataUseExt, wide] using short
      · exact UInt32.not_lt.mpr below
    refine ⟨_, if_neg small, ?_⟩
    exact (((((((Commanded.refl port).out _ _).ioDelay).out _ _).out _ _).out _ _).out _ _).out _ _

theorem ataSetupCommand_addressable
    (sent : ataSetupCommand port device lba command commandExt = some after) :
    Addressable device lba := by
  unfold ataSetupCommand at sent
  split at sent
  next ext => exact Or.inl (Bool.and_eq_true_iff.mp ext).1
  next =>
    unfold ataSetupCommandLba28 at sent
    split at sent
    · cases sent
    · next small => exact Or.inr (UInt32.not_lt.mp small)

theorem AtaPort.poll_log (drive : AtaDrive) (port : AtaPort) (waits : Nat) :
    (port.poll drive (waits + 1)).log = port.log ++
      ((List.range waits).map fun turn => .status (drive.status (port.statusReads + turn))) ++
        [.status (drive.status (port.statusReads + waits))] := by
  rw [AtaPort.poll, List.range_succ, List.map_append, List.map_singleton, ← List.append_assoc]

theorem ataBegin_exact {ready drq : Nat} (begins : Begins drive device lba port.statusReads ready drq) :
    ∃ after front, ataBegin drive port device lba command commandExt = (true, after) ∧
      after.statusReads = port.statusReads + (ready + 1) + (drq + 1) ∧
      after.log = port.log ++ front ++ [.status (drive.status (port.statusReads + (ready + 1) + drq))] := by
  obtain ⟨selectReads, selectEvents, selectLog⟩ := ataSelectDrive_commanded port device
  have idle := begins.idle
  rw [← selectReads] at idle
  have waited := ataPoll_exact idle
  obtain ⟨sent, setup, sentReads, sentEvents, sentLog⟩ := @ataSetupCommand_some
    ((ataSelectDrive port device).poll drive (ready + 1)) device lba command commandExt
    begins.addressable
  have reads : sent.statusReads = port.statusReads + (ready + 1) := by
    rw [sentReads, AtaPort.poll, selectReads]
  have data := begins.data
  rw [← reads] at data
  have asked := ataPoll_exact data
  refine ⟨sent.poll drive (drq + 1), selectEvents ++ (((List.range (ready + 1)).map fun turn =>
    .status (drive.status (port.statusReads + turn))) ++ sentEvents ++
      (List.range drq).map fun turn =>
      .status (drive.status (port.statusReads + (ready + 1) + turn))), ?_, ?_, ?_⟩
  · unfold ataBegin ataWaitNotBsy ataWaitDrq
    rw [waited]
    dsimp only
    rw [setup]
    exact asked
  · rw [AtaPort.poll, reads]
  · rw [AtaPort.poll_log, sentLog, AtaPort.poll, selectLog, reads, selectReads]
    simp only [List.append_assoc]

theorem ataBegin_true (ok : (ataBegin drive port device lba command commandExt).1 = true) :
    ∃ ready drq, Begins drive device lba port.statusReads ready drq := by
  obtain ⟨selectReads, _⟩ := ataSelectDrive_commanded port device
  unfold ataBegin at ok
  split at ok
  · cases ok
  · next idlePort waited =>
    unfold ataWaitNotBsy at waited
    rcases ataPoll_cases drive notBsyVerdict (ataSelectDrive port device)
      with ⟨ready, idle, result⟩ | ⟨failed, _⟩
    · rw [result] at waited
      cases waited
      rw [selectReads] at idle
      split at ok
      · cases ok
      · next sent setup =>
        obtain ⟨same, setupAgain, sentReads, _⟩ := @ataSetupCommand_some
          ((ataSelectDrive port device).poll drive (ready + 1)) device lba command commandExt
            (ataSetupCommand_addressable setup)
        rw [setup, Option.some.injEq] at setupAgain
        subst setupAgain
        rcases ataPoll_cases drive drqVerdict sent with ⟨drq, data, _⟩ | ⟨failed, _⟩
        · refine ⟨ready, drq, ataSetupCommand_addressable setup, idle, ?_⟩
          rw [sentReads, AtaPort.poll, selectReads] at data
          exact data
        · rw [ataWaitDrq, failed] at ok
          cases ok
    · rw [waited] at failed
      cases failed

theorem ataReadWords_log (drive : AtaDrive) (count : Nat) (port : AtaPort) :
    (ataReadWords drive count port).1.length = count ∧
      (ataReadWords drive count port).2.log = port.log ++ (ataReadWords drive count port).1.map .wordIn := by
  induction count generalizing port with
  | zero => exact ⟨rfl, (List.append_nil _).symm⟩
  | succ count ih =>
      obtain ⟨length, log⟩ := ih (port.readWord drive).2
      refine ⟨?_, ?_⟩
      · simp only [ataReadWords, List.length_cons, length]
      · simp only [ataReadWords, List.map_cons]
        rw [log]
        simp only [AtaPort.readWord, AtaPort.record, List.append_assoc, List.singleton_append]

theorem ataWriteWords_log (words : List UInt16) (port : AtaPort) :
    (ataWriteWords port words).statusReads = port.statusReads ∧
      (ataWriteWords port words).log = port.log ++ words.map .wordOut := by
  unfold ataWriteWords
  induction words generalizing port with
  | nil => exact ⟨rfl, (List.append_nil _).symm⟩
  | cons word words ih =>
      obtain ⟨reads, log⟩ := ih (port.record (.wordOut word))
      refine ⟨reads, ?_⟩
      rw [List.foldl_cons, log, AtaPort.record, List.map_cons, List.append_assoc, List.singleton_append]

end Commands

def DataReady (status : UInt8) : Prop :=
  ataBusy status = false ∧ ataFailed status = false ∧ ataWantsData status = true

/-- The words come right behind a status that asked for them. -/
def ReadBacked (before after : AtaPort) (words : List UInt16) : Prop :=
  words.length = 256 ∧ ∃ front drq, DataReady drq ∧
    after.log = before.log ++ front ++ [.status drq] ++ words.map .wordIn

/-- The words follow a status that asked for them, and the flush a status without BSY and without an
error. -/
def WriteBacked (before after : AtaPort) (words : List UInt16) : Prop :=
  ∃ (front : List AtaEvent) (drq flush : UInt8) (waits : List UInt8) (final : UInt8),
    DataReady drq ∧ (∀ status ∈ waits, ataBusy status = true) ∧
    ataBusy final = false ∧ ataFailed final = false ∧
    after.log = before.log ++ front ++ [.status drq] ++ words.map .wordOut ++
      [.out ataRegCommand flush] ++ waits.map .status ++ [.status final]

/-- The drive takes the data, and the first status without BSY after the flush has ERR or DF. -/
def FlushFails (drive : AtaDrive) (selected : Option AtaDevice) (lba : UInt32) (start : Nat) : Prop :=
  ∃ device ready drq waits, ataTarget selected lba = some device ∧
    Begins drive device lba start ready drq ∧
    Settles drive notBsyVerdict (start + (ready + 1) + (drq + 1)) waits ∧
    ataFailed (drive.status (start + (ready + 1) + (drq + 1) + waits)) = true

section Sectors

variable {drive : AtaDrive} {selected : Option AtaDevice} {port : AtaPort} {lba : UInt32}
  {device : AtaDevice} {buffer : Vector UInt16 256}

theorem ataReadSector_backed {words : List UInt16} {after : AtaPort}
    (read : ataReadSector drive selected port lba = (some words, after)) :
    ReadBacked port after words := by
  unfold ataReadSector at read
  split at read
  · cases read
  · next device _ =>
    split at read
    · cases read
    · next begun started =>
      obtain ⟨ready, drq, begins⟩ := ataBegin_true (congrArg Prod.fst started)
      obtain ⟨same, front, result, reads, log⟩ :=
        @ataBegin_exact drive port device lba ataCmdReadPio ataCmdReadPioExt ready drq begins
      rw [started, Prod.mk.injEq] at result
      obtain ⟨_, rfl⟩ := result
      obtain ⟨length, wordsLog⟩ := ataReadWords_log drive 256 begun
      simp only [Prod.mk.injEq, Option.some.injEq] at read
      obtain ⟨rfl, rfl⟩ := read
      exact ⟨length, front, _, begins.data.ready, by rw [wordsLog, log]⟩

theorem ataWriteSector_waits {ready drq waits : Nat} (target : ataTarget selected lba = some device)
    (begins : Begins drive device lba port.statusReads ready drq)
    (flushed : Settles drive notBsyVerdict (port.statusReads + (ready + 1) + (drq + 1)) waits) :
    (ataWriteSector drive selected port lba buffer).1 = true ∧ ∃ front flush,
      (ataWriteSector drive selected port lba buffer).2.log = port.log ++ front ++
        [.status (drive.status (port.statusReads + (ready + 1) + drq))] ++
        buffer.toList.map .wordOut ++ [.out ataRegCommand flush] ++
        ((List.range waits).map fun turn =>
          .status (drive.status (port.statusReads + (ready + 1) + (drq + 1) + turn))) ++
        [.status (drive.status (port.statusReads + (ready + 1) + (drq + 1) + waits))] := by
  obtain ⟨begun, front, started, reads, log⟩ := @ataBegin_exact drive port device lba ataCmdWritePio
    ataCmdWritePioExt ready drq begins
  obtain ⟨writeReads, writeLog⟩ := ataWriteWords_log buffer.toList begun
  generalize flushEq : (if ataUseExt device lba then ataCmdCacheFlushExt else ataCmdCacheFlush) = flush
  have sent : ((ataWriteWords begun buffer.toList).out ataRegCommand flush).statusReads =
      port.statusReads + (ready + 1) + (drq + 1) := by
    rw [AtaPort.out, AtaPort.record, writeReads, reads]
  have final := ataPoll_exact (show Settles drive notBsyVerdict
    ((ataWriteWords begun buffer.toList).out ataRegCommand flush).statusReads waits by rwa [sent])
  have whole : ataWriteSector drive selected port lba buffer =
      (true, ((ataWriteWords begun buffer.toList).out ataRegCommand flush).poll drive (waits + 1)) := by
    unfold ataWriteSector
    rw [target]
    dsimp only
    rw [started]
    dsimp only
    rw [flushEq]
    exact final
  rw [whole]
  refine ⟨rfl, front, flush, ?_⟩
  rw [AtaPort.poll_log, sent, AtaPort.out, AtaPort.record, writeLog, log]

theorem ataWriteSector_true (ok : (ataWriteSector drive selected port lba buffer).1 = true) :
    ∃ device ready drq waits, ataTarget selected lba = some device ∧
      Begins drive device lba port.statusReads ready drq ∧
      Settles drive notBsyVerdict (port.statusReads + (ready + 1) + (drq + 1)) waits := by
  unfold ataWriteSector at ok
  split at ok
  · cases ok
  · next device target =>
    split at ok
    · cases ok
    · next begun started =>
      obtain ⟨ready, drq, begins⟩ := ataBegin_true (congrArg Prod.fst started)
      obtain ⟨same, _, result, reads, _⟩ := @ataBegin_exact drive port device lba ataCmdWritePio
        ataCmdWritePioExt ready drq begins
      rw [started, Prod.mk.injEq] at result
      obtain ⟨_, rfl⟩ := result
      dsimp only at ok
      rcases ataPoll_cases drive notBsyVerdict ((ataWriteWords begun buffer.toList).out ataRegCommand
        (if ataUseExt device lba then ataCmdCacheFlushExt else ataCmdCacheFlush))
        with ⟨waits, flushed, _⟩ | ⟨failed, _⟩
      · refine ⟨device, ready, drq, waits, target, begins, ?_⟩
        rw [AtaPort.out, AtaPort.record, (ataWriteWords_log buffer.toList begun).1, reads] at flushed
        exact flushed
      · rw [ataWaitNotBsy, failed] at ok
        cases ok

theorem ataWriteSector_exact : ((ataWriteSector drive selected port lba buffer).1 = true →
      WriteBacked port (ataWriteSector drive selected port lba buffer).2 buffer.toList) ↔
    ¬FlushFails drive selected lba port.statusReads := by
  constructor
  · rintro reported ⟨device, ready, drq, waits, target, begins, flushed, failed⟩
    obtain ⟨ok, front, flush, log⟩ := @ataWriteSector_waits drive selected port lba device buffer
      ready drq waits target begins flushed
    obtain ⟨_, _, _, _, final, _, _, _, sound, backed⟩ := reported ok
    have last := congrArg List.getLast? (log.symm.trans backed)
    simp only [List.getLast?_append, List.getLast?_singleton, Option.some_or, Option.some.injEq,
      AtaEvent.status.injEq] at last
    rw [last, sound] at failed
    cases failed
  · intro sound ok
    obtain ⟨device, ready, drq, waits, target, begins, flushed⟩ := ataWriteSector_true ok
    obtain ⟨_, front, flush, log⟩ := @ataWriteSector_waits drive selected port lba device buffer
      ready drq waits target begins flushed
    refine ⟨front, _, flush, (List.range waits).map fun turn =>
      drive.status (port.statusReads + (ready + 1) + (drq + 1) + turn), _, begins.data.ready, ?_,
        flushed.idle, ?_, ?_⟩
    · intro status member
      obtain ⟨turn, early, rfl⟩ := List.mem_map.mp member
      exact flushed.busy (List.mem_range.mp early)
    · by_contra failed
      exact sound ⟨device, ready, drq, waits, target, begins, flushed, by simpa using failed⟩
    · rw [log, List.map_map]
      rfl

end Sectors

/-- A true result of a read rests on a sound status; a true result of a write does unless the flush
fails. -/
theorem ata_results_backed (drive : AtaDrive) (selected : Option AtaDevice) (port : AtaPort)
    (lba : UInt32) (buffer : Vector UInt16 256) :
    (∀ words after, ataReadSector drive selected port lba = (some words, after) →
    ReadBacked port after words) ∧ (((ataWriteSector drive selected port lba buffer).1 = true →
        WriteBacked port (ataWriteSector drive selected port lba buffer).2 buffer.toList) ↔
      ¬FlushFails drive selected lba port.statusReads) :=
  ⟨fun _ _ read => ataReadSector_backed read, ataWriteSector_exact⟩

def failingDrive : AtaDrive where
  status := fun n => if n = 0 then 0x50 else if n = 1 then 0x58 else 0x71
  data := fun _ => 0

def smallDisk : AtaDevice := ⟨true, false, false, 0, 1000⟩

theorem failingDrive_unreported :
    (ataWriteSector failingDrive (some smallDisk) ⟨0, 0, []⟩ 5 (Vector.replicate 256 7)).1 = true ∧
    ¬WriteBacked ⟨0, 0, []⟩ (ataWriteSector failingDrive (some smallDisk) ⟨0, 0, []⟩ 5
      (Vector.replicate 256 7)).2 (Vector.replicate 256 7).toList := by
  have ok : (ataWriteSector failingDrive (some smallDisk) ⟨0, 0, []⟩ 5 (Vector.replicate 256 7)).1 =
    true := by
    decide +kernel
  have last : (ataWriteSector failingDrive (some smallDisk) ⟨0, 0, []⟩ 5
      (Vector.replicate 256 7)).2.log.getLast? = some (.status 0x71) := by
    decide +kernel
  refine ⟨ok, ?_⟩
  rintro ⟨_, _, _, _, final, _, _, _, sound, log⟩
  rw [log, List.getLast?_append, List.getLast?_singleton, Option.some_or, Option.some.injEq,
    AtaEvent.status.injEq] at last
  rw [last] at sound
  exact absurd sound (by decide)

end Szczupak.Ata
