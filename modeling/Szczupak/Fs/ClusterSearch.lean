import Szczupak.Fs.Allocation

/-!
Where `fat16_allocate_cluster` writes.  The scan ends at a constant and takes an entry that
cannot be read for a free one, so the cluster it comes to may have no entry in the table, or be
in use, or have no sectors on the volume.
-/

namespace Szczupak

/-- The size of the volume in its boot sector; `fat16_mount` reads neither field. -/
def volumeSectors (bytes : Mem) (startLba : Nat) : Nat :=
  if bytes.readU16 (startLba * 512 + 19) = 0 then bytes.readU32 (startLba * 512 + 32)
  else bytes.readU16 (startLba * 512 + 19)

def FreeCluster (v : Volume) (bytes : Mem) (cluster : Nat) : Prop :=
  2 ≤ cluster ∧ cluster < v.fatEntries ∧ fatEntry v bytes cluster = 0

def OwnSector (v : Volume) (total cluster lba : Nat) : Prop :=
  (∃ copy < v.numFats, lba = v.fatStart + cluster * 2 / 512 + copy * v.sectorsPerFat) ∨
    ∃ s < v.sectorsPerCluster, lba = v.clusterSector cluster + s ∧ lba < v.startLba + total

structure StaysOnVolume (v : Volume) (total : Nat) (d : Disk) : Prop where
  returned : (fat16AllocateCluster v d).1 ≠ 0 → FreeCluster v d.bytes (fat16AllocateCluster v d).1
  written : ∀ lba ∈ (allocateWrites v d).map (·.lba), ∃ cluster,
    (fat16AllocateCluster v d).2.allocated = cluster :: d.allocated ∧
      FreeCluster v d.bytes cluster ∧ OwnSector v total cluster lba
  exhausted : (¬∃ cluster, FreeCluster v d.bytes cluster) →
    (fat16AllocateCluster v d).1 = 0 ∧ allocateWrites v d = []

def firstMark (d : Disk) (cluster : Nat) : Nat := d.calls + (cluster - 1)

/-- The first mark fails, or the cluster is a free one and a call fails before a sector behind the
end of the volume is written. -/
def MayTake (v : Volume) (total : Nat) (d : Disk) (cluster : Nat) : Prop :=
  d.faults (firstMark d cluster) = true ∨ d.faults (firstMark d cluster + 1) = true ∨
    FreeCluster v d.bytes cluster ∧ ∀ s < v.sectorsPerCluster,
      v.clusterSector cluster + s < v.startLba + total ∨
        ∃ k ≤ 2 * v.numFats + s, d.faults (firstMark d cluster + k) = true

section Search

variable {v : Volume} {d : Disk} {cluster total : Nat}

theorem fatSector_lt_clusterSector {copy s : Nat} (inside : cluster < v.fatEntries)
    (valid : copy < v.numFats) :
    v.fatStart + cluster * 2 / 512 + copy * v.sectorsPerFat < v.clusterSector cluster + s := by
  have table := (@fatSector_inside v cluster inside copy valid).2
  have behind := @dataStart_le_clusterSector v cluster
  have root : v.rootStart ≤ v.dataStart := Nat.le_add_right _ _
  omega

theorem marks_none (stops : ¬0 < marksDone v d) : clearsDone v d = 0 := by
  have positive := v.fatsPos
  exact if_neg (by omega)

structure RunsInto (v : Volume) (d : Disk) (cluster marks clears : Nat) : Prop where
  result : (fat16AllocateCluster v d).1 = if clears = v.sectorsPerCluster then cluster else 0
  lbas : (allocateWrites v d).map (·.lba) =
    ((List.range marks).map fun copy => v.fatStart + cluster * 2 / 512 + copy * v.sectorsPerFat) ++
      (List.range clears).map fun s => v.clusterSector cluster + s
  allocated : (fat16AllocateCluster v d).2.allocated = cluster :: d.allocated

theorem runs_into (first : FirstCandidate v d cluster) :
    RunsInto v d cluster (marksDone v (d.later (cluster - 1)))
    (clearsDone v (d.later (cluster - 1))) := by
  obtain ⟨run, writes⟩ := allocate_candidate first
  have attempts := @takeCluster_attempts v (d.later (cluster - 1)) cluster first.two
  constructor
  · rw [run]
    exact attempts.result
  · rw [writes]
    exact takeWrites_lbas first.two
  · rw [run]
    exact attempts.allocated

theorem stays_of_none (none : ∀ other, 2 ≤ other → other < 0xFFF0 → ¬LooksFree v d other) :
    StaysOnVolume v total d := by
  obtain ⟨run, writes⟩ := allocate_exhausted none
  constructor
  · simp [run]
  · simp [writes]
  · simp [run, writes]

theorem stays_of_may (first : FirstCandidate v d cluster) (may : MayTake v total d cluster) :
    StaysOnVolume v total d := by
  have runs := runs_into first
  have positive := v.clusterPos
  have marks := @marksDone_pos v (d.later (cluster - 1))
  have most := @turnsDone_le d.faults 2 v.numFats (d.calls + (cluster - 1))
  by_cases begun : 0 < marksDone v (d.later (cluster - 1))
  · obtain ⟨reads, writes⟩ := marks.mp begun
    have own : FreeCluster v d.bytes cluster ∧ ∀ s < v.sectorsPerCluster,
        v.clusterSector cluster + s < v.startLba + total ∨
          ∃ k ≤ 2 * v.numFats + s, d.faults (firstMark d cluster + k) = true := by
      rcases may with readFails | writeFails | own
      · exact absurd (reads.symm.trans readFails) Bool.false_ne_true
      · exact absurd (writes.symm.trans writeFails) Bool.false_ne_true
      · exact own
    obtain ⟨free, inside⟩ := own
    constructor
    · intro some
      rw [runs.result] at some ⊢
      split at some
      next whole => rwa [if_pos whole]
      next => exact absurd rfl some
    · intro lba member
      refine ⟨cluster, runs.allocated, free, ?_⟩
      simp only [runs.lbas, List.mem_append, List.mem_map, List.mem_range] at member
      rcases member with ⟨copy, valid, rfl⟩ | ⟨s, cleared, rfl⟩
      · exact Or.inl ⟨copy, valid.trans_le most, rfl⟩
      · obtain ⟨valid, clear⟩ := lt_clearsDone.mp cleared
        refine Or.inr ⟨s, valid, rfl, (inside s valid).resolve_right ?_⟩
        rintro ⟨k, early, fault⟩
        exact absurd ((clear k early).symm.trans fault) Bool.false_ne_true
    · exact fun none => absurd ⟨cluster, free⟩ none
  · have none : marksDone v (d.later (cluster - 1)) = 0 := by omega
    have clears := marks_none begun
    have zero : (fat16AllocateCluster v d).1 = 0 := by
      rw [runs.result, clears, if_neg (by omega)]
    have nothing : allocateWrites v d = [] := by
      apply List.map_eq_nil_iff.mp
      rw [runs.lbas, none, clears]
      rfl
    constructor
    · exact fun some => absurd zero some
    · simp [nothing]
    · exact fun _ => ⟨zero, nothing⟩

theorem may_of_stays (first : FirstCandidate v d cluster) (stays : StaysOnVolume v total d) :
    MayTake v total d cluster := by
  have runs := runs_into first
  have marks := @marksDone_pos v (d.later (cluster - 1))
  have own : ∀ lba ∈ (allocateWrites v d).map (·.lba),
      FreeCluster v d.bytes cluster ∧ OwnSector v total cluster lba := by
    intro lba member
    obtain ⟨taken, logged, free, itsOwn⟩ := stays.written lba member
    have same : cluster = taken := by
      have heads := runs.allocated.symm.trans logged
      simp only [List.cons.injEq, and_true] at heads
      exact heads
    exact same ▸ ⟨free, itsOwn⟩
  simp only [runs.lbas, List.mem_append, List.mem_map, List.mem_range] at own
  by_cases begun : 0 < marksDone v (d.later (cluster - 1))
  · have free := (own _ (Or.inl ⟨0, begun, rfl⟩)).1
    refine Or.inr (Or.inr ⟨free, fun s valid => ?_⟩)
    by_cases fails : ∃ k ≤ 2 * v.numFats + s, d.faults (firstMark d cluster + k) = true
    · exact Or.inr fails
    · have cleared : s < clearsDone v (d.later (cluster - 1)) := by
        refine lt_clearsDone.mpr ⟨valid, fun k early => ?_⟩
        by_contra fault
        exact fails ⟨k, early, Bool.not_eq_false _ ▸ fault⟩
      rcases (own _ (Or.inr ⟨s, cleared, rfl⟩)).2 with ⟨copy, known, same⟩ | ⟨_, _, _, inside⟩
      · have before := @fatSector_lt_clusterSector v cluster copy s free.2.1 known
        omega
      · exact Or.inl inside
  · have fails : ¬(d.faults (firstMark d cluster) = false ∧ d.faults (firstMark d cluster + 1) = false) :=
      fun clear => begun (marks.mpr clear)
    cases reads : d.faults (firstMark d cluster) with
    | true => exact Or.inl reads
    | false =>
        refine Or.inr (Or.inl ?_)
        by_contra writes
        exact fails ⟨reads, by simpa using writes⟩

/-- `fat16_allocate_cluster` keeps to a free cluster on the volume when the first entry that is 0,
or cannot be read, is that of one, or the ATA layer stops it in time. -/
theorem allocate_stays_iff {boot : Mem} :
    StaysOnVolume v (volumeSectors boot v.startLba) d ↔
      ∀ cluster, FirstCandidate v d cluster → MayTake v (volumeSectors boot v.startLba) d cluster := by
  constructor
  · exact fun stays cluster first => may_of_stays first stays
  · intro may
    rcases candidate_or_exhausted v d with ⟨cluster, first⟩ | none
    · exact stays_of_may first (may cluster first)
    · exact stays_of_none none

end Search

def fullDisk : Disk where
  bytes := fun address =>
    if 512 ≤ address ∧ address < 1024 then 0xFF
    else match address with
      | 12 => 2
      | 13 | 14 | 16 | 19 | 20 | 22 => 1
      | 17 => 16
      | _ => 0
  faults := fun _ => false
  calls := 0
  allocated := []

def fullVolume : Volume := ⟨0, 1, 1, 1, 16, 1, by decide, by decide, by decide, by decide⟩

theorem fullDisk_table {address : Nat} (lower : 512 ≤ address) (upper : address < 1024) :
    fullDisk.bytes address = 0xFF := if_pos ⟨lower, upper⟩

theorem fullVolume_candidate : FirstCandidate fullVolume fullDisk 256 := by
  constructor
  · omega
  · omega
  · exact Or.inr (by decide)
  · intro other two before looks
    rcases looks with fault | free
    · cases fault
    · have start : fullVolume.fatStart = 1 := rfl
      have low := @fullDisk_table (1 * 512 + other * 2) (by omega) (by omega)
      simp only [fatEntry, start, Mem.readU16, Mem.readLE, low] at free
      simp at free

theorem full_volume_overwritten :
    fat16Mount fullDisk 0 = (some fullVolume, fullDisk.called) ∧
      volumeSectors fullDisk.bytes 0 = 257 ∧
      ¬StaysOnVolume fullVolume (volumeSectors fullDisk.bytes 0) fullDisk := by
  refine ⟨by rfl, by decide, fun stays => ?_⟩
  have may := may_of_stays fullVolume_candidate stays
  rcases may with fault | fault | ⟨free, _⟩
  · cases fault
  · cases fault
  · exact absurd free.2.1 (by decide)

end Szczupak
