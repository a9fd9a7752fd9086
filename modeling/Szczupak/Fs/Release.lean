import Szczupak.Fs.Clusters
import Szczupak.Lib.ErasingWalk

/-!
`fat16_release_cluster_chain` on any table.  It walks along the entries and erases them,
so it ends on a cycle too.
-/

namespace Szczupak

/-- The numbers that the release takes for clusters. -/
def Followed (cluster : Nat) : Prop := 2 ≤ cluster ∧ cluster < 0xFFF8

instance : DecidablePred Followed := fun _ => inferInstanceAs (Decidable (_ ∧ _))

/-- What is reached from a cluster until an end mark, a value below 2, or a cluster that has been
reached before. -/
def ReachedFrom (v : Volume) (bytes : Mem) (start cluster : Nat) : Prop :=
  Orbit Followed (fatEntry v bytes) start cluster

def cleared (v : Volume) (bytes : Mem) (clusters : List Nat) : Mem :=
  clusters.foldl (fun bytes cluster => fatStored v cluster 0 v.numFats 0 bytes) bytes

section Cleared

variable {v : Volume} {bytes : Mem} {cluster address : Nat} {clusters : List Nat}

theorem writeU16_zero (bytes : Mem) (base : Nat) : bytes.writeU16 base 0 = bytes.fill base 2 0 := by
  rw [Mem.writeU16, Mem.writeLE_eq_store]
  funext other
  by_cases inside : base ≤ other ∧ other < base + 2
  · rw [Mem.fill_inside _ _ inside.1 inside.2, Mem.store, if_pos (by rw [Mem.leBytes_length]; exact inside)]
    have zeros : Mem.leBytes 2 0 = [0, 0] := rfl
    rw [zeros]
    have either : other - base = 0 ∨ other - base = 1 := by omega
    rcases either with first | second
    · rw [first]
      rfl
    · rw [second]
      rfl
  · rw [Mem.fill_outside _ _ (by omega), Mem.store_outside _ (by rw [Mem.leBytes_length]; omega)]

theorem fatStored_stays {remaining copy : Nat} (zero : bytes address = 0) :
    fatStored v cluster 0 remaining copy bytes address = 0 := by
  induction remaining generalizing copy bytes with
  | zero => exact zero
  | succ remaining ih =>
      rw [fatStored, ih]
      rw [writeU16_zero, Mem.fill]
      split
      · rfl
      · exact zero

theorem fatStored_clears {remaining copy place : Nat} (from' : copy ≤ place)
    (to' : place < copy + remaining)
    (inside : fatWord v place cluster ≤ address ∧ address < fatWord v place cluster + 2) :
    fatStored v cluster 0 remaining copy bytes address = 0 := by
  induction remaining generalizing copy bytes with
  | zero => omega
  | succ remaining ih =>
      rw [fatStored]
      by_cases here : place = copy
      · subst here
        refine fatStored_stays ?_
        rw [writeU16_zero, Mem.fill_inside _ _ inside.1 inside.2]
      · exact ih (by omega) (by omega)

theorem cleared_stays (zero : bytes address = 0) : cleared v bytes clusters address = 0 := by
  induction clusters generalizing bytes with
  | nil => exact zero
  | cons first clusters ih => exact ih (fatStored_stays zero)

theorem cleared_zero (member : cluster ∈ clusters) (inside : address ∈ fatWords v cluster) :
    cleared v bytes clusters address = 0 := by
  obtain ⟨copy, valid, place⟩ := inside
  induction clusters generalizing bytes with
  | nil => cases member
  | cons first clusters ih =>
      rcases List.mem_cons.mp member with rfl | later
      · have zero : fatStored v cluster 0 v.numFats 0 bytes address = 0 :=
          fatStored_clears (Nat.zero_le copy) (by omega) place
        exact @cleared_stays v _ address clusters zero
      · exact ih later

theorem cleared_outside (outside : ∀ cluster ∈ clusters, address ∉ fatWords v cluster) :
    cleared v bytes clusters address = bytes address := by
  induction clusters generalizing bytes with
  | nil => rfl
  | cons first clusters ih =>
      rw [List.forall_mem_cons] at outside
      exact (ih outside.2).trans (fatStored_outside (by omega) outside.1)

theorem cleared_entry (known : cluster < v.fatEntries) :
    fatEntry v (cleared v bytes clusters) cluster = if cluster ∈ clusters then 0
    else fatEntry v bytes cluster := by
  induction clusters generalizing bytes with
  | nil => rfl
  | cons first clusters ih =>
      have rest := @ih (fatStored v first 0 v.numFats 0 bytes)
      rw [cleared, List.foldl_cons, ← cleared, rest]
      by_cases here : cluster = first
      · subst here
        rw [fatStored_same known, if_pos List.mem_cons_self]
        exact ite_self 0
      · rw [fatStored_other known here]
        exact if_congr (by rw [List.mem_cons, or_iff_right here]) rfl rfl

end Cleared

section Release

variable {v : Volume} {d : Disk} {cluster guard : Nat} {next : Nat → Nat}

theorem releaseFrom_walk (covers : 0xFFF8 ≤ v.fatEntries) (reliable : Reliable d)
    (agree : ∀ cluster, Followed cluster → fatEntry v d.bytes cluster = next cluster) :
    ∃ after, releaseFrom v guard cluster d = ((eraseWalk Followed 0 guard cluster next).1, after) ∧
      Becomes d after (cleared v d.bytes (eraseWalk Followed 0 guard cluster next).2) := by
  induction guard generalizing cluster next d with
  | zero => exact ⟨d, rfl, rfl, rfl, rfl⟩
  | succ guard ih =>
      rw [releaseFrom, eraseWalk]
      by_cases followed : Followed cluster
      · have range := followed
        rw [Followed] at range
        have known : cluster < v.fatEntries := by omega
        obtain ⟨after, done, becomes⟩ :=
          @fat16WriteFatEntry_reliable d.called v cluster 0 (called_reliable reliable) range.1
        rw [if_neg (by omega), if_pos followed, fat16ReadFatEntry_reliable reliable range.1]
        dsimp only
        rw [done, agree cluster followed]
        dsimp only
        split
        next loop => exact ⟨after, rfl, becomes.bytes, becomes.faults, becomes.allocated⟩
        next goesOn =>
          have still : ∀ other, Followed other →
              fatEntry v after.bytes other = Function.update next cluster 0 other := by
            intro other alive
            rw [becomes.bytes]
            by_cases same : other = cluster
            · rw [same, fatStored_same known, Function.update_self]
            · have range := alive
              rw [Followed] at range
              rw [fatStored_other (show other < v.fatEntries by omega) same, Function.update_of_ne same]
              exact agree other alive
          obtain ⟨final, released, ends⟩ := @ih after (next cluster)
            (Function.update next cluster 0) (becomes.reliable (called_reliable reliable)) still
          refine ⟨final, released, ?_, ends.faults.trans becomes.faults, ends.allocated.trans becomes.allocated⟩
          rw [ends.bytes, becomes.bytes]
          rfl
      · have stops : cluster < 2 ∨ 0xFFF8 ≤ cluster := by
          rw [Followed] at followed
          omega
        rw [if_pos stops, if_neg followed]
        exact ⟨d, rfl, rfl, rfl, rfl⟩

/-- The release succeeds, sets the entries of what it reaches to 0 in every copy of the table, and
changes no other byte of the disk. -/
theorem fat16ReleaseClusterChain_exact (covers : 0xFFF8 ≤ v.fatEntries) (reliable : Reliable d)
    (startCluster : Nat) : ∃ after, fat16ReleaseClusterChain v d startCluster = (true, after) ∧
      (∀ cluster, ReachedFrom v d.bytes startCluster cluster →
        fatEntry v after.bytes cluster = 0 ∧ ∀ address ∈ fatWords v cluster, after.bytes address = 0) ∧
      (∀ cluster < v.fatEntries, ¬ReachedFrom v d.bytes startCluster cluster →
        fatEntry v after.bytes cluster = fatEntry v d.bytes cluster) ∧
      ∀ address, (∀ cluster, ReachedFrom v d.bytes startCluster cluster →
        address ∉ fatWords v cluster) → after.bytes address = d.bytes address := by
  have finite : ∀ cluster, Followed cluster → cluster ∈ Finset.range 0xFFF8 := fun cluster followed =>
    Finset.mem_range.mpr followed.2
  obtain ⟨ends, passed⟩ := @eraseWalk_orbit _ _ Followed _ 0 (by decide) _ finite 0x10000
    (by rw [Finset.card_range]; decide) startCluster (fatEntry v d.bytes)
  obtain ⟨after, released, becomes⟩ :=
    @releaseFrom_walk v d startCluster 0x10000 (fatEntry v d.bytes) covers reliable fun _ _ => rfl
  rw [ends] at released
  generalize eraseWalk Followed 0 0x10000 startCluster (fatEntry v d.bytes) = walk at becomes passed
  have same : after.bytes = cleared v d.bytes walk.2 := becomes.bytes
  have loop : fat16ReleaseClusterChain v d startCluster = releaseFrom v 0x10000 startCluster d := by
    rw [fat16ReleaseClusterChain]
    split
    next none =>
      change _ = releaseFrom v (0xFFFF + 1) startCluster d
      rw [releaseFrom, if_pos (.inl none)]
    next => rfl
  refine ⟨after, loop.trans released, fun cluster reached => ⟨?_, fun address inside => ?_⟩,
    fun cluster known away => ?_, fun address apart => ?_⟩
  · have range := reached.alive
    rw [Followed] at range
    rw [same, cleared_entry (by omega), if_pos ((passed cluster).mpr reached)]
  · rw [same, cleared_zero ((passed cluster).mpr reached) inside]
  · rw [same, cleared_entry known, if_neg (mt (passed cluster).mp away)]
  · rw [same, cleared_outside fun cluster member => apart cluster ((passed cluster).mp member)]

end Release

theorem wideVolume_rootPos : 0 < 16 := by decide

def wideVolume : Volume where
  startLba := 0
  reservedSectors := 1
  sectorsPerCluster := 1
  numFats := 2
  rootEntries := 16
  sectorsPerFat := 256
  clusterPos := Nat.zero_lt_one
  fatsPos := by decide
  rootPos := wideVolume_rootPos
  fatPos := by decide

/-- The clusters 2 and 3 lead to each other. -/
def cyclicDisk : Disk where
  bytes := Mem.store (fun _ => 0) 516 [3, 0, 2, 0]
  faults := fun _ => false
  calls := 0
  allocated := []

theorem cyclicDisk_released : ∃ after, fat16ReleaseClusterChain wideVolume cyclicDisk 2 =
    (true, after) ∧
    fatEntry wideVolume after.bytes 2 = 0 ∧ fatEntry wideVolume after.bytes 3 = 0 := by
  obtain ⟨after, released, cleared, _⟩ :=
    @fat16ReleaseClusterChain_exact wideVolume cyclicDisk (by decide) (fun _ => rfl) 2
  have first : Followed 2 := by decide
  have second : ReachedFrom wideVolume cyclicDisk.bytes 2 3 := by
    have link : fatEntry wideVolume cyclicDisk.bytes 2 = 3 := by decide
    refine .later first ?_
    rw [link]
    exact .here (by decide)
  exact ⟨after, released, (cleared 2 (.here first)).1, (cleared 3 second).1⟩

end Szczupak
