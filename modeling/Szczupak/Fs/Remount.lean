import Szczupak.Lib.Transition
import Szczupak.Fs.Calls
import Szczupak.Fs.ReadWrite

/-!
What a mounted volume shows, and what a fresh mount of its disk shows.  The driver keeps the
name, the size and the first cluster of a file in its node as well as in the root directory;
`StaysOnDisk` says when a call that succeeds leaves both with the same.
-/

namespace Szczupak

/-- Reliable disks with the same bytes; other calls have been made. -/
structure SameBytes (d e : Disk) : Prop where
  bytes : e.bytes = d.bytes
  left : Reliable d
  right : Reliable e

section SameBytes

variable {v : Volume} {d e : Disk} {cluster intra total : Nat} {copied : List UInt8}

section

variable (same : SameBytes d e)
include same

theorem SameBytes.called : SameBytes d.called e.called :=
  ⟨same.bytes, same.left, same.right⟩

theorem SameBytes.sector (lba : Nat) : e.sector lba = d.sector lba := by
  funext index
  exact congrFun same.bytes _

theorem fat16ReadFatEntry_sameBytes :
    ∃ next after other, fat16ReadFatEntry v d cluster = (next, after) ∧
      fat16ReadFatEntry v e cluster = (next, other) ∧ SameBytes after other := by
  by_cases small : cluster < 2
  · exact ⟨0, d, e, if_pos small, if_pos small, same⟩
  · refine ⟨fatEntry v d.bytes cluster, d.called, e.called,
      fat16ReadFatEntry_reliable same.left (by omega), ?_, same.called⟩
    rw [fat16ReadFatEntry_reliable same.right (by omega), same.bytes]

theorem readSectors_sameBytes {first remaining s : Nat} :
    ∃ result after other, readSectors first intra total remaining s copied d = (result, after) ∧
      readSectors first intra total remaining s copied e = (result, other) ∧ SameBytes after other := by
  induction remaining generalizing s copied d e with
  | zero => exact ⟨some copied, d, e, rfl, rfl, same⟩
  | succ remaining ih =>
      simp only [readSectors, ataReadSector_reliable same.left, ataReadSector_reliable same.right,
        same.sector]
      split
      next => exact ⟨some copied, d, e, rfl, rfl, same⟩
      next =>
        split
        next => exact ih same.called
        next => exact ih same.called

theorem readClusters_sameBytes {turns : Nat} :
    (readClusters v total turns cluster intra copied e).1 =
      (readClusters v total turns cluster intra copied d).1 := by
  induction turns generalizing cluster intra copied d e with
  | zero => rfl
  | succ turns ih =>
      obtain ⟨result, after, other, here, there, still⟩ :=
        @readSectors_sameBytes d e intra total copied same (v.clusterSector cluster) v.sectorsPerCluster 0
      rw [readClusters, readClusters, here, there]
      split
      next =>
        cases result with
        | none => rfl
        | some longer =>
            obtain ⟨next, later, last, hereNext, thereNext, sameNext⟩ :=
              @fat16ReadFatEntry_sameBytes v _ _ cluster still
            dsimp only
            rw [hereNext, thereNext]
            exact ih sameNext
      next => rfl

theorem skipToCluster_sameBytes {skip : Nat} :
    ∃ reached after other, skipToCluster v skip cluster d = (reached, after) ∧
      skipToCluster v skip cluster e = (reached, other) ∧ SameBytes after other := by
  induction skip generalizing cluster d e with
  | zero => exact ⟨cluster, d, e, rfl, rfl, same⟩
  | succ skip ih =>
      obtain ⟨next, after, other, here, there, still⟩ := @fat16ReadFatEntry_sameBytes v d e cluster same
      rw [skipToCluster, skipToCluster, here, there]
      split
      next => exact ih still
      next => exact ⟨cluster, d, e, rfl, rfl, same⟩

theorem fat16Read_sameBytes {node : Fat16Node} {offset size : Nat} :
    (fat16Read v e node offset size).1 = (fat16Read v d node offset size).1 := by
  obtain ⟨reached, after, other, here, there, still⟩ :=
    @skipToCluster_sameBytes v d e node.cluster same (offset / v.clusterSize)
  rw [fat16Read, fat16Read, here, there]
  dsimp only
  split
  next => rfl
  next =>
    split
    next => rfl
    next =>
      split
      next => rfl
      next =>
        split
        next => rfl
        next =>
          split
          next => rfl
          next =>
            have same := @readClusters_sameBytes v after other reached (offset % v.clusterSize)
              (min size (node.size - offset)) [] still (min size (node.size - offset))
            generalize readClusters v (min size (node.size - offset)) (min size
              (node.size - offset)) reached (offset % v.clusterSize) [] after = left at same ⊢
            generalize readClusters v (min size (node.size - offset)) (min size
              (node.size - offset)) reached (offset % v.clusterSize) [] other = right at same ⊢
            obtain ⟨leftResult, leftDisk⟩ := left
            obtain ⟨rightResult, rightDisk⟩ := right
            cases same
            cases leftResult with
            | none => rfl
            | some bytes =>
                dsimp only
                split <;> rfl

end

end SameBytes

section Mount

variable {v : Volume} {d after : Disk}

theorem fat16Mount_reliable (reliable : Reliable d) (startLba : Nat) :
    (fat16Mount d startLba).2 = d.called := by
  rw [fat16Mount, ataReadSector_reliable reliable]
  dsimp only
  split <;> rfl

theorem fat16Mount_same (reliable : Reliable d)
    (changes : Changes (tableArea v ∪ dataArea v ∪ rootArea v) d after) :
    (fat16Mount after v.startLba).1 = (fat16Mount d v.startLba).1 := by
  have root : v.startLba * 512 + 512 ≤ v.rootStart * 512 := by
    have tables : 1 * 1 ≤ v.numFats * v.sectorsPerFat := Nat.mul_le_mul v.fatsPos v.fatPos
    rw [Volume.rootStart, Volume.fatStart]
    omega
  have data : v.rootStart * 512 ≤ v.dataStart * 512 := Nat.mul_le_mul_right _ (Nat.le_add_right _ _)
  have boot : ∀ index < 512, after.sector v.startLba index = d.sector v.startLba index := by
    intro index bound
    refine changes.bytes _ fun member => ?_
    rcases member with (⟨reserved, table, _⟩ | inData) | ⟨inRoot, _⟩
    · rw [Volume.fatStart, Nat.add_mul] at table
      omega
    · have inData : v.dataStart * 512 ≤ v.startLba * 512 + index := inData
      omega
    · omega
  have number : ∀ first width, first + width ≤ 512 →
      (after.sector v.startLba).readLE first width = (d.sector v.startLba).readLE first width :=
    fun first width fits => Mem.readLE_congr fun index bound => boot _ (by omega)
  have word : ∀ first, first + 2 ≤ 512 →
      (after.sector v.startLba).readU16 first = (d.sector v.startLba).readU16 first :=
    fun first => number first 2
  rw [fat16Mount, fat16Mount, ataReadSector_reliable reliable,
    ataReadSector_reliable (changes.reliable reliable)]
  dsimp only
  rw [word 11 (by decide), word 14 (by decide), word 17 (by decide), word 22 (by decide),
    number 13 1 (by decide), number 16 1 (by decide)]
  by_cases wide : (d.sector v.startLba).readU16 11 = 512
  · rw [if_pos wide, if_pos wide]
  · rw [if_neg wide, if_neg wide]

end Mount

structure Fat16State where
  disk : Disk
  nodes : List Fat16Node

/-- A node is named by its place among the children of the root. -/
inductive Fat16Op where
  | createFile (name : List UInt8)
  | createDir (name : List UInt8)
  | write (index : Nat) (data : List UInt8) (offset : Nat)
  | delete (index : Nat)

def fat16Step (v : Volume) (s : Fat16State) : Fat16Op → Option Fat16State
  | .createFile name =>
      match fat16CreateFile v s.disk name true with
      | (none, _) => none
      | (some node, disk) => some ⟨disk, node :: s.nodes⟩
  | .createDir name =>
      match fat16CreateDir v s.disk name true with
      | (none, _) => none
      | (some node, disk) => some ⟨disk, node :: s.nodes⟩
  | .write index data offset =>
      match s.nodes[index]? with
      | none => none
      | some node =>
          match fat16Write v s.disk node data offset with
          | (none, _) => none
          | (some node, disk) => some ⟨disk, s.nodes.set index node⟩
  | .delete index =>
      match s.nodes[index]? with
      | none => none
      | some node =>
          match fat16Delete v s.disk node.name with
          | (false, _) => none
          | (true, disk) => some ⟨disk, s.nodes.eraseIdx index⟩

structure FileView where
  name : List UInt8
  isDirectory : Bool
  size : Nat
  read : Nat → Nat → Option (List UInt8)

def fileView (v : Volume) (d : Disk) (node : Fat16Node) : FileView :=
  ⟨node.name, node.isDirectory, node.size, fun offset count => (fat16Read v d node offset count).1⟩

def Remounts (v : Volume) (s : Fat16State) : Prop :=
  ∃ mounted fresh after, fat16Mount s.disk v.startLba = (some v, mounted) ∧
    fat16Create v mounted = (fresh, after) ∧
    (fresh.map (fileView v after)).Perm (s.nodes.map (fileView v s.disk))

/-- The root directory learns of what the call changes: a new name comes back from its eleven
bytes, a write stays inside the file, a delete finds the entry of its own node; and every table
entry that is written lies in the table. -/
def StaysOnDisk (v : Volume) (s : Fat16State) : Fat16Op → Prop
  | .createFile name =>
      TidyEnd v s.disk.bytes ∧ KeptName (fat16NameTo83 name) (createdFileName (fat16NameTo83 name))
  | .createDir name =>
      TidyEnd v s.disk.bytes ∧ KeptName (fat16NameTo83 name) (createdDirName (fat16NameTo83 name)) ∧
        FatHasRoom v s.disk.bytes ∧ 0 < v.reservedSectors
  | .write index data offset =>
      data = [] ∨ ∀ node ∈ s.nodes[index]?, offset + data.length ≤ node.size ∧ 2 ≤ node.cluster ∧
        reachesInFat v s.disk.bytes ((offset + data.length - 1) / v.clusterSize) node.cluster = true
  | .delete index => ∀ node ∈ s.nodes[index]?, DeletesOwn v s.disk.bytes node

instance (v : Volume) (s : Fat16State) : ∀ op, Decidable (StaysOnDisk v s op)
  | .createFile _ => inferInstanceAs (Decidable (_ ∧ _))
  | .createDir _ => inferInstanceAs (Decidable (_ ∧ _ ∧ _ ∧ _))
  | .write index _ _ => inferInstanceAs (Decidable (_ ∨ ∀ node ∈ s.nodes[index]?, _ ∧ _ ∧ _))
  | .delete index => inferInstanceAs (Decidable (∀ node ∈ s.nodes[index]?, _))

structure Mirrored (v : Volume) (s : Fat16State) : Prop where
  reliable : Reliable s.disk
  boot : (fat16Mount s.disk v.startLba).1 = some v
  nodes : (mountedNodes v s.disk.bytes).Perm s.nodes

section Runs

variable {v : Volume} {s next : Fat16State}

theorem Mirrored.remounts (mirrored : Mirrored v s) : Remounts v s := by
  obtain ⟨after, created, changes⟩ := @fat16Create_reliable v s.disk.called mirrored.reliable
  refine ⟨s.disk.called, mountedNodes v s.disk.bytes, after,
    Prod.ext mirrored.boot (fat16Mount_reliable mirrored.reliable _), created, ?_⟩
  have same : fileView v after = fileView v s.disk := by
    funext node
    simp only [fileView, FileView.mk.injEq, true_and]
    funext offset count
    have same : SameBytes s.disk after :=
      ⟨changes.none, mirrored.reliable, changes.reliable (called_reliable mirrored.reliable)⟩
    exact fat16Read_sameBytes same
  rw [same]
  exact mirrored.nodes.map _

theorem Mirrored.changed (mirrored : Mirrored v s) {disk : Disk} {nodes : List Fat16Node}
    (changes : Changes (tableArea v ∪ dataArea v ∪ rootArea v) s.disk disk)
    (kept : (mountedNodes v disk.bytes).Perm nodes) : Mirrored v ⟨disk, nodes⟩ :=
  ⟨changes.reliable mirrored.reliable,
    (fat16Mount_same mirrored.reliable changes).trans mirrored.boot, kept⟩

theorem Mirrored.step (mirrored : Mirrored v s) {op : Fat16Op} (stays : StaysOnDisk v s op)
    (stepped : fat16Step v s op = some next) : Mirrored v next := by
  cases op with
  | createFile name =>
      rw [fat16Step] at stepped
      split at stepped
      next => cases stepped
      next node disk made =>
        cases stepped
        obtain ⟨changes, nodes⟩ := fat16CreateFile_nodes stays.1 stays.2 made
        exact mirrored.changed (changes.mono Set.subset_union_right) (nodes.trans (mirrored.nodes.cons _))
  | createDir name =>
      rw [fat16Step] at stepped
      split at stepped
      next => cases stepped
      next node disk made =>
        cases stepped
        obtain ⟨tidy, kept, room, reserved⟩ := stays
        obtain ⟨changes, nodes⟩ := fat16CreateDir_nodes mirrored.reliable tidy kept room reserved made
        exact mirrored.changed changes (nodes.trans (mirrored.nodes.cons _))
  | write index data offset =>
      rw [fat16Step] at stepped
      split at stepped
      next => cases stepped
      next node here =>
        split at stepped
        next => cases stepped
        next grown disk wrote =>
          cases stepped
          obtain ⟨changes, same⟩ : Changes (tableArea v ∪ dataArea v) s.disk disk ∧ grown = node := by
            rcases stays with empty | inside
            · replace wrote := fat16Write_some wrote
              rw [empty, fat16WriteNode] at wrote
              split at wrote
              next => cases wrote
              next =>
                cases wrote
                exact ⟨Changes.refl _, rfl⟩
            · obtain ⟨fits, two, reaches⟩ := inside node here
              exact fat16Write_quiet mirrored.reliable two fits reaches wrote
          have quiet := mountedNodes_quiet changes
            (Set.union_subset_union_left (dataArea v) tableArea_subset)
          obtain ⟨bound, isNode⟩ := List.getElem?_eq_some_iff.mp here
          have kept : s.nodes.set index grown = s.nodes := by
            rw [same, ← isNode, List.set_getElem_self]
          rw [kept]
          exact mirrored.changed (changes.mono Set.subset_union_left) (quiet ▸ mirrored.nodes)
  | delete index =>
      rw [fat16Step] at stepped
      split at stepped
      next => cases stepped
      next node here =>
        split at stepped
        next => cases stepped
        next disk deleted =>
          cases stepped
          obtain ⟨changes, nodes⟩ := fat16Delete_nodes (stays node here) deleted
          obtain ⟨bound, isNode⟩ := List.getElem?_eq_some_iff.mp here
          have taken := List.getElem_cons_eraseIdx_perm bound
          rw [isNode] at taken
          have left := (nodes.symm.trans mirrored.nodes).trans taken.symm
          refine mirrored.changed (changes.mono ?_) left.cons_inv
          exact Set.union_subset_union_left _ Set.subset_union_left

end Runs

/-- Calls that succeed on a volume mounted from a reliable disk, in any order. -/
theorem fat16_runs_remount {v : Volume} {start first second : Disk} {nodes : List Fat16Node}
    {final : Fat16State} {ops : List Fat16Op} (reliable : Reliable start)
    (mounted : fat16Mount start v.startLba = (some v, first))
    (created : fat16Create v first = (nodes, second))
    (stays : RunMeets (fat16Step v) (StaysOnDisk v) ⟨second, nodes⟩ ops)
    (reached : runActions (fat16Step v) ⟨second, nodes⟩ ops = some final) : Remounts v final := by
  have isFirst : first = start.called := by
    rw [← fat16Mount_reliable reliable v.startLba, mounted]
  obtain ⟨after, again, changes⟩ := @fat16Create_reliable v first (isFirst ▸ reliable)
  rw [created] at again
  obtain ⟨rfl, rfl⟩ := Prod.mk.inj again
  have initial : Mirrored v ⟨second, mountedNodes v first.bytes⟩ := by
    have same : Changes ∅ start second := (isFirst ▸ called_changes).trans changes
    refine ⟨same.reliable reliable, ?_, ?_⟩
    · rw [fat16Mount_same reliable (same.mono (Set.empty_subset _)), mounted]
    · rw [changes.none]
  exact (runActions_guarded (fun _ _ _ mirrored stays stepped =>
    Mirrored.step mirrored stays stepped) initial stays reached).remounts

def savedDisk : Disk :=
  let named := threeByteDisk.bytes.store 1024 (65 :: List.replicate 10 32 ++ [0x20])
  { threeByteDisk with bytes := named.store 1050 [2, 0, 3, 0, 0, 0] }

/-- "LONGNAME.TXT" and "D" are created, a byte of "A" is written and "LONGNAME.TXT" deleted. -/
def tidyCalls : List Fat16Op :=
  [.createFile [76, 79, 78, 71, 78, 65, 77, 69, 46, 84, 88, 84], .createDir [68],
    .write 2 [7] 1, .delete 1]

theorem tidyCalls_remount : ∃ nodes second final, (fat16Create smallVolume savedDisk.called) =
    (nodes, second) ∧ runActions (fat16Step smallVolume) ⟨second, nodes⟩ tidyCalls = some final ∧
    final.nodes.length = 2 ∧ Remounts smallVolume final := by
  have mounts : fat16Mount savedDisk smallVolume.startLba = (some smallVolume, savedDisk.called) := rfl
  rcases created : fat16Create smallVolume savedDisk.called with ⟨nodes, second⟩
  have runs : (runActions (fat16Step smallVolume) ⟨(fat16Create smallVolume savedDisk.called).2,
      (fat16Create smallVolume savedDisk.called).1⟩ tidyCalls).map
      (fun final => final.nodes.length) = some 2 := by
    decide +kernel
  have stays : RunMeets (fat16Step smallVolume) (StaysOnDisk smallVolume)
      ⟨(fat16Create smallVolume savedDisk.called).2, (fat16Create smallVolume savedDisk.called).1⟩
      tidyCalls := by
    decide +kernel
  rw [created] at runs stays
  obtain ⟨final, reached, two⟩ := Option.map_eq_some_iff.mp runs
  exact ⟨nodes, second, final, rfl, reached, two,
    fat16_runs_remount (fun _ => rfl) mounts created stays reached⟩

def growingCalls : List Fat16Op := [.createFile [65], .write 0 [7] 0]

theorem growingCalls_lose_size : ¬ ∀ (v : Volume) (start first second : Disk) (nodes : List Fat16Node)
    (final : Fat16State) (ops : List Fat16Op), Reliable start →
    fat16Mount start v.startLba = (some v, first) → fat16Create v first = (nodes, second) →
    runActions (fat16Step v) ⟨second, nodes⟩ ops = some final → Remounts v final := by
  intro remounts
  have mounts : fat16Mount formattedDisk smallVolume.startLba =
    (some smallVolume, formattedDisk.called) :=
    rfl
  have runs : (runActions (fat16Step smallVolume) ⟨(fat16Create smallVolume formattedDisk.called).2,
      (fat16Create smallVolume formattedDisk.called).1⟩ growingCalls).map (fun final =>
        (final.nodes.map Fat16Node.size,
          (fat16Create smallVolume (fat16Mount final.disk 0).2).1.map Fat16Node.size)) = some ([1], [0]) := by
    decide +kernel
  obtain ⟨final, reached, sizes⟩ := Option.map_eq_some_iff.mp runs
  obtain ⟨mounted, fresh, after, isMounted, created, same⟩ := remounts smallVolume formattedDisk
    formattedDisk.called _ _ final growingCalls (fun _ => rfl) mounts rfl reached
  obtain ⟨memory, disk⟩ := Prod.mk.inj sizes
  have isFresh : fresh.map Fat16Node.size = [0] := by
    rw [← disk]
    have again : fat16Mount final.disk 0 = (some smallVolume, mounted) := isMounted
    rw [again, created]
  have perm := same.map FileView.size
  rw [List.map_map, List.map_map] at perm
  have perm : (fresh.map Fat16Node.size).Perm (final.nodes.map Fat16Node.size) := perm
  rw [isFresh, memory] at perm
  exact absurd (List.perm_singleton.mp perm) (by decide)

end Szczupak
