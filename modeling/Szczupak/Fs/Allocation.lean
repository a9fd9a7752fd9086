import Szczupak.Fs.Clusters

/-!
`fat16_allocate_cluster` on a disk whose calls fail as they like.  The loops over the copies of
the table and over the sectors of a cluster stop at the first call that fails; the scan takes
the first entry that is 0 or cannot be read.
-/

namespace Szczupak

structure SectorWrite where
  lba : Nat
  sector : Mem

def SectorWrite.apply (bytes : Mem) (write : SectorWrite) : Mem := fun address =>
  if write.lba * 512 ≤ address ∧ address < write.lba * 512 + 512 then
    write.sector (address - write.lba * 512)
  else bytes address

def replay (bytes : Mem) (writes : List SectorWrite) : Mem := writes.foldl SectorWrite.apply bytes

def copyWrites (v : Volume) (cluster value : Nat) : Nat → Nat → Disk → List SectorWrite
  | 0, _, _ => []
  | remaining + 1, copy, d =>
      let lba := v.fatStart + cluster * 2 / 512 + copy * v.sectorsPerFat
      match ataReadSector d lba with
      | (none, _) => []
      | (some sector, d) =>
          let stored := sector.writeU16 (cluster * 2 % 512) value
          match ataWriteSector d lba stored with
          | (false, _) => []
          | (true, d) => ⟨lba, stored⟩ :: copyWrites v cluster value remaining (copy + 1) d

def zeroWrites (first : Nat) : Nat → Nat → Disk → List SectorWrite
  | 0, _, _ => []
  | remaining + 1, s, d =>
      match ataWriteSector d (first + s) fun _ => 0 with
      | (false, _) => []
      | (true, d) => ⟨first + s, fun _ => 0⟩ :: zeroWrites first remaining (s + 1) d

def takeWrites (v : Volume) (d : Disk) (cluster : Nat) : List SectorWrite :=
  let d := { d with allocated := cluster :: d.allocated }
  copyWrites v cluster 0xFFFF v.numFats 0 d ++
    match fat16WriteFatEntry v d cluster 0xFFFF with
    | (false, _) => []
    | (true, d) => zeroWrites (v.clusterSector cluster) v.sectorsPerCluster 0 d

def allocateWritesFrom (v : Volume) : Nat → Nat → Disk → List SectorWrite
  | 0, _, _ => []
  | remaining + 1, i, d =>
      match fat16ReadFatEntry v d i with
      | (entry, d) =>
          if entry = 0 then takeWrites v d i else allocateWritesFrom v remaining (i + 1) d

def allocateWrites (v : Volume) (d : Disk) : List SectorWrite :=
  allocateWritesFrom v (0xFFF0 - 2) 2 d

def takeCluster (v : Volume) (d : Disk) (cluster : Nat) : Nat × Disk :=
  match fat16WriteFatEntry v { d with allocated := cluster :: d.allocated } cluster 0xFFFF with
  | (false, d) => (0, d)
  | (true, d) =>
      match zeroSectors (v.clusterSector cluster) v.sectorsPerCluster 0 d with
      | (false, d) => (0, d)
      | (true, d) => (cluster, d)

section Replay

variable {v : Volume} {d after : Disk} {cluster value lba : Nat} {bytes : Mem}

@[simp] theorem replay_nil : replay bytes [] = bytes := rfl

@[simp] theorem replay_cons {write : SectorWrite} {writes : List SectorWrite} :
    replay bytes (write :: writes) = replay (write.apply bytes) writes := rfl

theorem replay_append {writes later : List SectorWrite} :
    replay bytes (writes ++ later) = replay (replay bytes writes) later := by
  simp [replay, List.foldl_append]

theorem ataReadSector_fault (fault : d.faults d.calls = true) :
    ataReadSector d lba = (none, d.called) := by
  simp [ataReadSector, fault]

theorem ataReadSector_clear (clear : d.faults d.calls = false) :
    ataReadSector d lba = (some (d.sector lba), d.called) := by
  simp only [ataReadSector, clear]
  rfl

theorem ataWriteSector_fault {sector : Mem} (fault : d.faults d.calls = true) :
    ataWriteSector d lba sector = (false, d.called) := by
  simp [ataWriteSector, fault]

theorem ataWriteSector_clear {sector : Mem} (clear : d.faults d.calls = false) :
    ataWriteSector d lba sector =
      (true, { d.called with bytes := SectorWrite.apply d.bytes ⟨lba, sector⟩ }) := by
  simp only [ataWriteSector, clear]
  rfl

theorem copyWrites_replay {remaining copy : Nat} :
    (writeFatCopies v cluster value remaining copy d).2.bytes =
      replay d.bytes (copyWrites v cluster value remaining copy d) := by
  induction remaining generalizing copy d with
  | zero => simp [writeFatCopies, copyWrites]
  | succ remaining ih =>
      simp only [writeFatCopies, copyWrites]
      cases reads : d.faults d.calls with
      | true => simp [ataReadSector_fault reads, Disk.called]
      | false =>
          simp only [ataReadSector_clear reads]
          cases writes : d.called.faults d.called.calls with
          | true =>
              simp only [ataWriteSector_fault writes]
              rfl
          | false =>
              simp only [ataWriteSector_clear writes, ih, replay_cons]
              rfl

theorem zeroWrites_replay {first remaining s : Nat} :
    (zeroSectors first remaining s d).2.bytes = replay d.bytes (zeroWrites first remaining s d) := by
  induction remaining generalizing s d with
  | zero => simp [zeroSectors, zeroWrites]
  | succ remaining ih =>
      simp only [zeroSectors, zeroWrites]
      cases writes : d.faults d.calls with
      | true => simp [ataWriteSector_fault writes, Disk.called]
      | false => simp only [ataWriteSector_clear writes, ih, replay_cons]

theorem takeWrites_replay (two : 2 ≤ cluster) :
    (takeCluster v d cluster).2.bytes = replay d.bytes (takeWrites v d cluster) := by
  have small : ¬cluster < 2 := by omega
  have marks := @copyWrites_replay v { d with allocated := cluster :: d.allocated } cluster 0xFFFF
    v.numFats 0
  simp only [takeCluster, takeWrites, fat16WriteFatEntry, if_neg small, replay_append]
  rw [← marks]
  generalize writeFatCopies v cluster 0xFFFF v.numFats 0
    { d with allocated := cluster :: d.allocated } = marked
  obtain ⟨done, middle⟩ := marked
  cases done with
  | false => rfl
  | true =>
      simp only
      rw [← zeroWrites_replay]
      cases zeroSectors (v.clusterSector cluster) v.sectorsPerCluster 0 middle with
      | mk done last => cases done <;> rfl

variable {remaining i : Nat}

theorem allocateFrom_succ :
    allocateFrom v (remaining + 1) i d =
      if (fat16ReadFatEntry v d i).1 = 0 then takeCluster v (fat16ReadFatEntry v d i).2 i
      else allocateFrom v remaining (i + 1) (fat16ReadFatEntry v d i).2 := rfl

theorem allocateWritesFrom_succ :
    allocateWritesFrom v (remaining + 1) i d =
      if (fat16ReadFatEntry v d i).1 = 0 then takeWrites v (fat16ReadFatEntry v d i).2 i
      else allocateWritesFrom v remaining (i + 1) (fat16ReadFatEntry v d i).2 := rfl

theorem allocateWritesFrom_replay (two : 2 ≤ i) :
    (allocateFrom v remaining i d).2.bytes = replay d.bytes (allocateWritesFrom v remaining i d) := by
  induction remaining generalizing i d with
  | zero => simp [allocateFrom, allocateWritesFrom]
  | succ remaining ih =>
      have quiet : (fat16ReadFatEntry v d i).2.bytes = d.bytes := (@fat16ReadFatEntry_changes v d i ∅).none
      by_cases free : (fat16ReadFatEntry v d i).1 = 0
      · simp only [allocateFrom_succ, allocateWritesFrom_succ, if_pos free, takeWrites_replay two, quiet]
      · have next : 2 ≤ i + 1 := by omega
        simp only [allocateFrom_succ, allocateWritesFrom_succ, if_neg free, ih next, quiet]

/-- The list holds all that is written: the disk afterwards is the old one with these sectors put
onto it. -/
theorem allocateWrites_replay :
    (fat16AllocateCluster v d).2.bytes = replay d.bytes (allocateWrites v d) :=
  allocateWritesFrom_replay (Nat.le_refl 2)

end Replay

def turnsDone (faults : Nat → Bool) (width : Nat) : Nat → Nat → Nat
  | 0, _ => 0
  | remaining + 1, call =>
      if ∃ k < width, faults (call + k) = true then 0
      else turnsDone faults width remaining (call + width) + 1

section Turns

variable {faults : Nat → Bool} {width remaining call turn : Nat}

theorem turnsDone_le : turnsDone faults width remaining call ≤ remaining := by
  induction remaining generalizing call with
  | zero => exact Nat.le_refl _
  | succ remaining ih =>
      simp only [turnsDone]
      split
      · exact Nat.zero_le _
      · exact Nat.succ_le_succ ih

theorem lt_turnsDone : turn < turnsDone faults width remaining call ↔
    turn < remaining ∧ ∀ k < width * (turn + 1), faults (call + k) = false := by
  induction remaining generalizing call turn with
  | zero => simp [turnsDone]
  | succ remaining ih =>
      by_cases fails : ∃ k < width, faults (call + k) = true
      · obtain ⟨k, inside, fault⟩ := fails
        simp only [turnsDone, if_pos (⟨k, inside, fault⟩ : ∃ k < width, faults (call + k) = true)]
        constructor
        · intro none
          omega
        · rintro ⟨_, clear⟩
          have early := clear k (inside.trans_le (Nat.le_mul_of_pos_right _ (Nat.succ_pos turn)))
          rw [fault] at early
          cases early
      · simp only [turnsDone, if_neg fails]
        have first : ∀ k < width, faults (call + k) = false := by
          intro k inside
          by_contra fault
          exact fails ⟨k, inside, by simpa using fault⟩
        cases turn with
        | zero =>
            simp only [Nat.zero_add, Nat.mul_one]
            exact ⟨fun _ => ⟨Nat.succ_pos _, first⟩, fun _ => Nat.succ_pos _⟩
        | succ turn =>
            rw [Nat.succ_lt_succ_iff, ih, Nat.succ_lt_succ_iff]
            refine and_congr_right fun _ => ?_
            have more : width * (turn + 1 + 1) = width + width * (turn + 1) := by ring
            constructor
            · intro later k inside
              by_cases early : k < width
              · exact first k early
              · have back : call + width + (k - width) = call + k := by omega
                rw [← back]
                exact later (k - width) (by omega)
            · intro all k inside
              rw [Nat.add_assoc]
              exact all (width + k) (by omega)

theorem turnsDone_fault (fails : ∃ k < width, faults (call + k) = true) :
    turnsDone faults width (remaining + 1) call = 0 := if_pos fails

theorem turnsDone_clear (clear : ¬∃ k < width, faults (call + k) = true) :
    turnsDone faults width (remaining + 1) call = turnsDone faults width remaining (call + width) + 1 :=
  if_neg clear

end Turns

structure StopsAtFault (d : Disk) (width remaining : Nat) (stored : Nat → Mem) (run : Bool × Disk) :
    Prop where
  done : run.1 = true ↔ turnsDone d.faults width remaining d.calls = remaining
  bytes : run.2.bytes = stored (turnsDone d.faults width remaining d.calls)
  faults : run.2.faults = d.faults
  allocated : run.2.allocated = d.allocated
  calls : run.1 = true → run.2.calls = d.calls + width * remaining

section Loops

variable {v : Volume} {d middle after : Disk} {cluster value width remaining : Nat}
  {stored later : Nat → Mem} {run : Bool × Disk}

theorem StopsAtFault.fault (fails : ∃ k < width, d.faults (d.calls + k) = true)
    (start : stored 0 = d.bytes) (bytes : after.bytes = d.bytes) (faults : after.faults = d.faults)
    (allocated : after.allocated = d.allocated) :
    StopsAtFault d width (remaining + 1) stored (false, after) := by
  have none : turnsDone d.faults width (remaining + 1) d.calls = 0 := turnsDone_fault fails
  constructor
  · simp [none]
  · simp [none, start, bytes]
  · exact faults
  · exact allocated
  · simp

theorem StopsAtFault.turn (clear : ¬∃ k < width, d.faults (d.calls + k) = true)
    (next : StopsAtFault middle width remaining later run) (faults : middle.faults = d.faults)
    (allocated : middle.allocated = d.allocated) (calls : middle.calls = d.calls + width)
    (same : ∀ turns, later turns = stored (turns + 1)) :
    StopsAtFault d width (remaining + 1) stored run := by
  have more : turnsDone d.faults width (remaining + 1) d.calls =
      turnsDone middle.faults width remaining middle.calls + 1 := by
    rw [turnsDone_clear clear, faults, calls]
  constructor
  · rw [next.done, more, Nat.succ_inj]
  · rw [next.bytes, more, same]
  · exact next.faults.trans faults
  · exact next.allocated.trans allocated
  · intro finished
    rw [next.calls finished, calls]
    ring

theorem two_clear (reads : d.faults d.calls = false) (writes :
    d.called.faults d.called.calls = false) : ¬∃ k < 2, d.faults (d.calls + k) = true := by
  rintro ⟨k, inside, fault⟩
  have which : k = 0 ∨ k = 1 := by omega
  rcases which with rfl | rfl
  · simp [reads] at fault
  · exact Bool.false_ne_true (writes.symm.trans fault)

theorem one_clear (writes : d.faults d.calls = false) : ¬∃ k < 1, d.faults (d.calls + k) = true := by
  rintro ⟨k, inside, fault⟩
  have which : k = 0 := by omega
  simp [which, writes] at fault

theorem writeFatCopies_stops {copy : Nat} :
    StopsAtFault d 2 remaining (fun done => fatStored v cluster value done copy d.bytes)
      (writeFatCopies v cluster value remaining copy d) := by
  induction remaining generalizing copy d with
  | zero => constructor <;> simp [writeFatCopies, turnsDone, fatStored]
  | succ remaining ih =>
      simp only [writeFatCopies]
      cases reads : d.faults d.calls with
      | true =>
          simp only [ataReadSector_fault reads]
          exact StopsAtFault.fault ⟨0, by omega, reads⟩ rfl rfl rfl rfl
      | false =>
          simp only [ataReadSector_clear reads]
          cases writes : d.called.faults d.called.calls with
          | true =>
              simp only [ataWriteSector_fault writes]
              exact StopsAtFault.fault ⟨1, by omega, writes⟩ rfl rfl rfl rfl
          | false =>
              simp only [ataWriteSector_clear writes]
              refine StopsAtFault.turn (two_clear reads writes) (ih) rfl rfl rfl fun turns => ?_
              have stored : d.overwrite (v.fatStart + cluster * 2 / 512 + copy * v.sectorsPerFat)
                  ((d.sector (v.fatStart + cluster * 2 / 512 + copy * v.sectorsPerFat)).writeU16
                    (cluster * 2 % 512) value) = d.bytes.writeU16 (fatWord v copy cluster) value := by
                rw [← fatWord_sector]
                exact @overwrite_writeLE d _ _ 2 value (by omega)
              simp only [fatStored, ← stored]
              rfl

theorem zeroSectors_stops {first s : Nat} :
    StopsAtFault d 1 remaining (fun done => d.bytes.fill ((first + s) * 512) (done * 512) 0)
      (zeroSectors first remaining s d) := by
  have nothing (base : Nat) (bytes : Mem) : bytes.fill base (0 * 512) 0 = bytes := by
    funext address
    exact Mem.fill_outside _ 0 (by omega)
  induction remaining generalizing s d with
  | zero =>
      constructor
      · simp [zeroSectors, turnsDone]
      · exact (nothing _ _).symm
      · rfl
      · rfl
      · simp [zeroSectors]
  | succ remaining ih =>
      simp only [zeroSectors]
      cases writes : d.faults d.calls with
      | true =>
          simp only [ataWriteSector_fault writes]
          exact StopsAtFault.fault ⟨0, by omega, writes⟩ (nothing _ _) rfl rfl rfl
      | false =>
          simp only [ataWriteSector_clear writes]
          refine StopsAtFault.turn (one_clear writes) ih rfl rfl rfl fun turns => ?_
          have next : (first + (s + 1)) * 512 = (first + s) * 512 + 512 := by ring
          have length : (turns + 1) * 512 = 512 + turns * 512 := by ring
          rw [next, length, ← Mem.fill_append]
          rfl

theorem range_turns {f : Nat → Nat} {turns : Nat} :
    f 0 :: (List.range turns).map (fun turn => f (turn + 1)) = (List.range (turns + 1)).map f := by
  simp [List.range_succ_eq_map, Function.comp_def]

theorem copyWrites_lbas {copy : Nat} :
    (copyWrites v cluster value remaining copy d).map (·.lba) =
      (List.range (turnsDone d.faults 2 remaining d.calls)).map fun turn =>
        v.fatStart + cluster * 2 / 512 + (copy + turn) * v.sectorsPerFat := by
  induction remaining generalizing copy d with
  | zero => simp [copyWrites, turnsDone]
  | succ remaining ih =>
      simp only [copyWrites]
      cases reads : d.faults d.calls with
      | true =>
          have fails : ∃ k < 2, d.faults (d.calls + k) = true := ⟨0, by omega, reads⟩
          simp only [ataReadSector_fault reads, turnsDone_fault fails]
          rfl
      | false =>
          simp only [ataReadSector_clear reads]
          cases writes : d.called.faults d.called.calls with
          | true =>
              have fails : ∃ k < 2, d.faults (d.calls + k) = true := ⟨1, by omega, writes⟩
              simp only [ataWriteSector_fault writes, turnsDone_fault fails]
              rfl
          | false =>
              simp only [ataWriteSector_clear writes, List.map_cons, ih,
                turnsDone_clear (two_clear reads writes), ← range_turns]
              simp only [Disk.called, Nat.add_zero, Nat.add_assoc, Nat.add_comm 1]

theorem zeroWrites_lbas {first s : Nat} :
    (zeroWrites first remaining s d).map (·.lba) =
      (List.range (turnsDone d.faults 1 remaining d.calls)).map fun turn => first + (s + turn) := by
  induction remaining generalizing s d with
  | zero => simp [zeroWrites, turnsDone]
  | succ remaining ih =>
      simp only [zeroWrites]
      cases writes : d.faults d.calls with
      | true =>
          have fails : ∃ k < 1, d.faults (d.calls + k) = true := ⟨0, by omega, writes⟩
          simp only [ataWriteSector_fault writes, turnsDone_fault fails]
          rfl
      | false =>
          simp only [ataWriteSector_clear writes, List.map_cons, ih,
            turnsDone_clear (one_clear writes), ← range_turns]
          simp only [Disk.called, Nat.add_zero, Nat.add_assoc, Nat.add_comm 1]

end Loops

def marksDone (v : Volume) (d : Disk) : Nat := turnsDone d.faults 2 v.numFats d.calls

def clearsDone (v : Volume) (d : Disk) : Nat :=
  if marksDone v d = v.numFats then
    turnsDone d.faults 1 v.sectorsPerCluster (d.calls + 2 * v.numFats)
  else 0

structure AttemptsCluster (v : Volume) (d : Disk) (cluster : Nat) (run : Nat × Disk) : Prop where
  result : run.1 = if clearsDone v d = v.sectorsPerCluster then cluster else 0
  bytes : run.2.bytes = (fatStored v cluster 0xFFFF (marksDone v d) 0 d.bytes).fill
    (clusterBase v cluster) (clearsDone v d * 512) 0
  faults : run.2.faults = d.faults
  allocated : run.2.allocated = cluster :: d.allocated
  calls : clearsDone v d = v.sectorsPerCluster →
    run.2.calls = d.calls + 2 * v.numFats + v.sectorsPerCluster

section Take

variable {v : Volume} {d : Disk} {cluster s : Nat}

theorem marksDone_pos :
    0 < marksDone v d ↔ d.faults d.calls = false ∧ d.faults (d.calls + 1) = false := by
  rw [marksDone, lt_turnsDone]
  constructor
  · rintro ⟨_, clear⟩
    exact ⟨clear 0 (by omega), clear 1 (by omega)⟩
  · rintro ⟨reads, writes⟩
    refine ⟨v.fatsPos, fun k inside => ?_⟩
    have which : k = 0 ∨ k = 1 := by omega
    rcases which with rfl | rfl
    · exact reads
    · exact writes

theorem turnsDone_full {faults : Nat → Bool} {width remaining call : Nat} :
    turnsDone faults width remaining call = remaining ↔
      ∀ k < width * remaining, faults (call + k) = false := by
  cases remaining with
  | zero => simp [turnsDone]
  | succ remaining =>
      have most := @turnsDone_le faults width (remaining + 1) call
      have last := @lt_turnsDone faults width (remaining + 1) call remaining
      constructor
      · intro full
        exact (last.mp (by omega)).2
      · intro clear
        have reached := last.mpr ⟨Nat.lt_succ_self _, clear⟩
        omega

theorem lt_clearsDone : s < clearsDone v d ↔
    s < v.sectorsPerCluster ∧ ∀ k ≤ 2 * v.numFats + s, d.faults (d.calls + k) = false := by
  rw [clearsDone]
  split
  next marked =>
    have marks := turnsDone_full.mp marked
    rw [lt_turnsDone]
    refine and_congr_right fun _ => ⟨fun clear k inside => ?_, fun clear k inside => ?_⟩
    · by_cases early : k < 2 * v.numFats
      · exact marks k early
      · have back : d.calls + 2 * v.numFats + (k - 2 * v.numFats) = d.calls + k := by omega
        rw [← back]
        exact clear _ (by omega)
    · rw [Nat.add_assoc]
      exact clear _ (by omega)
  next unmarked =>
    constructor
    · intro none
      omega
    · rintro ⟨_, clear⟩
      exact absurd (turnsDone_full.mpr fun k inside => clear k (by omega)) unmarked

theorem fill_none {bytes : Mem} {base : Nat} : bytes.fill base (0 * 512) 0 = bytes := by
  funext address
  exact Mem.fill_outside _ 0 (by omega)

theorem takeCluster_attempts (two : 2 ≤ cluster) :
    AttemptsCluster v d cluster (takeCluster v d cluster) := by
  have small : ¬cluster < 2 := by omega
  have positive := v.clusterPos
  have marks := @writeFatCopies_stops v { d with allocated := cluster :: d.allocated } cluster 0xFFFF
    v.numFats 0
  simp only [takeCluster, fat16WriteFatEntry, if_neg small]
  generalize writeFatCopies v cluster 0xFFFF v.numFats 0 { d with allocated := cluster :: d.allocated } =
    marked at marks ⊢
  obtain ⟨done, middle⟩ := marked
  obtain ⟨full, bytes, faults, allocated, calls⟩ := marks
  dsimp only at full bytes faults allocated calls
  cases done with
  | false =>
      have partly : marksDone v d ≠ v.numFats := fun equal => Bool.false_ne_true (full.mpr equal)
      have none : clearsDone v d = 0 := if_neg partly
      constructor
      · simp only [none, if_neg (show ¬0 = v.sectorsPerCluster by omega)]
      · simp only [none, fill_none]
        exact bytes
      · exact faults
      · exact allocated
      · omega
  | true =>
      have all : marksDone v d = v.numFats := full.mp rfl
      have clears := @zeroSectors_stops middle v.sectorsPerCluster (v.clusterSector cluster) 0
      have turns : clearsDone v d = turnsDone middle.faults 1 v.sectorsPerCluster middle.calls := by
        rw [clearsDone, if_pos all, faults, calls rfl]
      simp only
      generalize zeroSectors (v.clusterSector cluster) v.sectorsPerCluster 0 middle = cleared at clears ⊢
      obtain ⟨whole, last⟩ := cleared
      obtain ⟨finished, lastBytes, lastFaults, lastAllocated, lastCalls⟩ := clears
      dsimp only at finished lastBytes lastFaults lastAllocated lastCalls
      rw [← turns] at finished lastBytes
      have after : last.bytes = (fatStored v cluster 0xFFFF (marksDone v d) 0 d.bytes).fill
          (clusterBase v cluster) (clearsDone v d * 512) 0 := by
        rw [lastBytes, bytes, Nat.add_zero]
        rfl
      cases whole with
      | false =>
          have partly : clearsDone v d ≠ v.sectorsPerCluster := fun equal =>
            Bool.false_ne_true (finished.mpr equal)
          constructor
          · simp only [if_neg partly]
          · exact after
          · exact lastFaults.trans faults
          · exact lastAllocated.trans allocated
          · exact fun equal => absurd equal partly
      | true =>
          have whole : clearsDone v d = v.sectorsPerCluster := finished.mp rfl
          constructor
          · simp only [if_pos whole]
          · exact after
          · exact lastFaults.trans faults
          · exact lastAllocated.trans allocated
          · intro _
            dsimp only
            rw [lastCalls rfl, calls rfl, Nat.one_mul]

theorem takeWrites_lbas (two : 2 ≤ cluster) :
    (takeWrites v d cluster).map (·.lba) =
      ((List.range (marksDone v d)).map fun copy =>
        v.fatStart + cluster * 2 / 512 + copy * v.sectorsPerFat) ++
      (List.range (clearsDone v d)).map fun s => v.clusterSector cluster + s := by
  have small : ¬cluster < 2 := by omega
  have marks := @writeFatCopies_stops v { d with allocated := cluster :: d.allocated } cluster 0xFFFF
    v.numFats 0
  simp only [takeWrites, fat16WriteFatEntry, if_neg small, List.map_append,
    copyWrites_lbas, Nat.zero_add]
  generalize writeFatCopies v cluster 0xFFFF v.numFats 0 { d with allocated := cluster :: d.allocated } =
    marked at marks ⊢
  obtain ⟨done, middle⟩ := marked
  obtain ⟨full, _, faults, _, calls⟩ := marks
  dsimp only at full faults calls
  refine congrArg₂ _ rfl ?_
  cases done with
  | false =>
      have partly : marksDone v d ≠ v.numFats := fun equal => Bool.false_ne_true (full.mpr equal)
      have none : clearsDone v d = 0 := if_neg partly
      simp [none]
  | true =>
      have all : marksDone v d = v.numFats := full.mp rfl
      simp only [zeroWrites_lbas, Nat.zero_add, clearsDone, if_pos all, faults, calls rfl]

end Take

/-- The scan takes an entry that is 0 for one that it may have, and one that it cannot read. -/
def LooksFree (v : Volume) (d : Disk) (cluster : Nat) : Prop :=
  d.faults (d.calls + (cluster - 2)) = true ∨ fatEntry v d.bytes cluster = 0

instance (v : Volume) (d : Disk) (cluster : Nat) : Decidable (LooksFree v d cluster) :=
  inferInstanceAs (Decidable (_ ∨ _))

structure FirstCandidate (v : Volume) (d : Disk) (cluster : Nat) : Prop where
  two : 2 ≤ cluster
  small : cluster < 0xFFF0
  looks : LooksFree v d cluster
  earlier : ∀ other, 2 ≤ other → other < cluster → ¬LooksFree v d other

def Disk.later (d : Disk) (calls : Nat) : Disk := { d with calls := d.calls + calls }

section Scan

variable {v : Volume} {d : Disk} {cluster : Nat}

theorem fat16ReadFatEntry_later (two : 2 ≤ cluster) :
    fat16ReadFatEntry v (d.later (cluster - 2)) cluster =
      (if d.faults (d.calls + (cluster - 2)) = true then 0 else fatEntry v d.bytes cluster,
        d.later (cluster + 1 - 2)) := by
  have small : ¬cluster < 2 := by omega
  have next : d.calls + (cluster - 2) + 1 = d.calls + (cluster + 1 - 2) := by omega
  have after : (d.later (cluster - 2)).called = d.later (cluster + 1 - 2) := by
    simp only [Disk.later, Disk.called, next]
  rw [fat16ReadFatEntry, if_neg small]
  cases fault : d.faults (d.calls + (cluster - 2)) with
  | true =>
      have fails : (d.later (cluster - 2)).faults (d.later (cluster - 2)).calls = true := fault
      simp only [ataReadSector_fault fails, after, if_true]
  | false =>
      have clear : (d.later (cluster - 2)).faults (d.later (cluster - 2)).calls = false := fault
      simp only [ataReadSector_clear clear, after, fatEntry_sector]
      rfl

theorem scan_looks (two : 2 ≤ cluster) :
    (fat16ReadFatEntry v (d.later (cluster - 2)) cluster).1 = 0 ↔ LooksFree v d cluster := by
  rw [fat16ReadFatEntry_later two, LooksFree]
  split
  next fault => simp [fault]
  next clear => simp [clear]

theorem allocateFrom_candidate (first : FirstCandidate v d cluster) (two : 2 ≤ i)
    (before : i ≤ cluster) (range : i + remaining = 0xFFF0) :
    allocateFrom v remaining i (d.later (i - 2)) = takeCluster v (d.later (cluster - 1)) cluster ∧
      allocateWritesFrom v remaining i (d.later (i - 2)) =
        takeWrites v (d.later (cluster - 1)) cluster := by
  have small := first.small
  induction remaining generalizing i with
  | zero => omega
  | succ remaining ih =>
      have looks := @scan_looks v d i two
      rw [allocateFrom_succ, allocateWritesFrom_succ]
      by_cases here : i = cluster
      · subst here
        have shift : i + 1 - 2 = i - 1 := by omega
        have free := looks.mpr first.looks
        rw [if_pos free, if_pos free, fat16ReadFatEntry_later two, shift]
        exact ⟨rfl, rfl⟩
      · have passed := first.earlier i two (by omega) ∘ looks.mp
        rw [if_neg passed, if_neg passed, fat16ReadFatEntry_later two]
        exact ih (by omega) (by omega) (by omega)

theorem allocateFrom_exhausted (none : ∀ other, 2 ≤ other → other < 0xFFF0 → ¬LooksFree v d other)
    (two : 2 ≤ i) (range : i + remaining = 0xFFF0) :
    allocateFrom v remaining i (d.later (i - 2)) = (0, d.later (0xFFF0 - 2)) ∧
      allocateWritesFrom v remaining i (d.later (i - 2)) = [] := by
  induction remaining generalizing i with
  | zero =>
      have last : i = 0xFFF0 := by omega
      simp only [allocateFrom, allocateWritesFrom, last, and_self]
  | succ remaining ih =>
      have looks := @scan_looks v d i two
      have passed := none i two (by omega) ∘ looks.mp
      rw [allocateFrom_succ, allocateWritesFrom_succ, if_neg passed, if_neg passed,
        fat16ReadFatEntry_later two]
      exact ih (by omega) (by omega)

theorem candidate_or_exhausted (v : Volume) (d : Disk) :
    (∃ cluster, FirstCandidate v d cluster) ∨
      ∀ other, 2 ≤ other → other < 0xFFF0 → ¬LooksFree v d other := by
  by_cases some : ∃ other, 2 ≤ other ∧ other < 0xFFF0 ∧ LooksFree v d other
  · obtain ⟨two, small, looks⟩ := Nat.find_spec some
    refine Or.inl ⟨Nat.find some, two, small, looks, fun other otherTwo before itLooks => ?_⟩
    exact Nat.find_min some before ⟨otherTwo, before.trans small, itLooks⟩
  · refine Or.inr fun other two small looks => ?_
    exact some ⟨other, two, small, looks⟩

theorem allocate_candidate (first : FirstCandidate v d cluster) :
    fat16AllocateCluster v d = takeCluster v (d.later (cluster - 1)) cluster ∧
      allocateWrites v d = takeWrites v (d.later (cluster - 1)) cluster :=
  allocateFrom_candidate first (Nat.le_refl 2) first.two (by norm_num)

theorem allocate_exhausted (none : ∀ other, 2 ≤ other → other < 0xFFF0 → ¬LooksFree v d other) :
    fat16AllocateCluster v d = (0, d.later (0xFFF0 - 2)) ∧ allocateWrites v d = [] :=
  allocateFrom_exhausted none (Nat.le_refl 2) (by norm_num)

end Scan

end Szczupak
