import Szczupak.Fs.MountedHolders

/-!
Whether clusters are lost over whole runs.  `fat16_write` records the first cluster of a new file
in its node alone, and `fat16_delete` gives up the chain that the entry names: a file that was
written after its creation takes its clusters with it.
-/

namespace Szczupak

namespace VolumeTree

section Runs

variable {v : Volume} {s after : VolumeTree} {ok : Bool}

theorem Tracked.failing (tracked : s.Tracked v) (faults : List Nat) :
    ({ s with vfs := s.vfs.failing faults } : VolumeTree).Tracked v :=
  ⟨tracked.mirrors, tracked.accounted.chained, tracked.accounted.owner⟩

theorem call_tracked (sound : Sound v s) (tracked : s.Tracked v) {call : VolumeCall}
    (whole : s.CallWhole v call) (called : s.call v call = some (ok, after)) : after.Tracked v := by
  cases call with
  | createFile parent name block =>
      rw [VolumeTree.call] at called
      split at called
      next known =>
        have made := @createFile_tracked v s parent block name sound tracked known whole
        rw [Option.some.inj called] at made
        exact made
      next => cases called
  | createDir parent name block =>
      rw [VolumeTree.call] at called
      split at called
      next known =>
        have made := createDir_tracked sound tracked known whole
        rw [Option.some.inj called] at made
        exact made
      next => cases called
  | write node offset bytes =>
      rw [VolumeTree.call] at called
      split at called
      next known =>
        have isAfter : keep v (s.vfs.fat16WriteAt v node offset bytes).2 s.own = after :=
          congrArg Prod.snd (Option.some.inj called)
        rw [← isAfter]
        exact write_tracked sound tracked known whole
      next => cases called
  | delete node =>
      rw [VolumeTree.call] at called
      split at called
      next held =>
        have isAfter : keep v (s.vfs.fat16DeleteNode v node).2 s.own = after :=
          congrArg Prod.snd (Option.some.inj called)
        rw [← isAfter]
        rcases held with listed | top
        · exact delete_tracked sound tracked listed whole
        · rw [Vfs.fat16DeleteNode_root top]
          exact tracked.unchanged sound rfl (fun _ => ⟨rfl, rfl⟩) rfl
      next => cases called

theorem step_tracked {request : VolumeRequest} (both : Sound v s ∧ s.Tracked v)
    (whole : s.KeepsTrack v request)
    (taken : s.step v request = some after) : Sound v after ∧ after.Tracked v := by
  refine ⟨step_sound both.1 taken, ?_⟩
  obtain ⟨⟨ok, result⟩, called, rfl⟩ := Option.map_eq_some_iff.mp taken
  exact call_tracked (both.1.failing request.faults) (both.2.failing request.faults) whole called

/-- From a volume that is accounted for on, in a run whose calls all take and give up clusters
whole, with any requests failing in them: every cluster in use belongs to one live file
or directory. -/
theorem clusters_accounted {disk : Disk} {fs root : Nat} {blocks : List Nat}
    {requests : List VolumeRequest}
    (reliable : Reliable disk) (start : (unmounted disk).Accounted v)
    (meets : RunMeets (step v) (KeepsTrack v) (mount v disk fs root blocks) requests)
    (reached : runActions (step v) (mount v disk fs root blocks) requests = some s) : s.Accounted v :=
  (runActions_guarded (fun _ _ _ both whole taken => step_tracked both whole taken)
    ⟨mount_sound, mount_tracked reliable start⟩ meets reached).2.accounted

end Runs

section Clear

variable {v : Volume} {d : Disk} {s : VolumeTree} {cluster guard parent node block : Nat}
    {name : List UInt8}

theorem takesWhole_of_reliable (reliable : Reliable d) (room : FatHasRoom v d.bytes) :
    TakesWhole v d := by
  intro cluster first
  have clear : ∀ {width remaining call : Nat}, turnsDone d.faults width remaining call = remaining :=
    turnsDone_full.mpr fun k _ => reliable _
  have clears : clearsDone v (d.later (cluster - 1)) = v.sectorsPerCluster := (if_pos clear).trans clear
  have small := (fat16AllocateCluster_changes room).2
  rw [(runs_into first).result, if_pos clears] at small
  have two := first.two
  refine Or.inr ⟨⟨two, by omega, first.looks.resolve_left fun fault => ?_⟩, clears⟩
  exact Bool.false_ne_true ((reliable _).symm.trans fault)

theorem checksWhole_of_reliable (reliable : Reliable d) : ChecksWhole v guard cluster d := by
  induction guard generalizing cluster d with
  | zero => trivial
  | succ guard ih =>
      intro _ _ middle checked
      have faults := (clusterEmpty_cases.2 middle checked).2.1
      have still : Reliable middle := fun index => faults ▸ reliable index
      exact ⟨Or.inl (still _), ih still⟩

theorem releasesWhole_of_reliable (reliable : Reliable d) : ReleasesWhole v guard cluster d := by
  induction guard generalizing cluster d with
  | zero => trivial
  | succ guard ih =>
      rw [ReleasesWhole]
      split
      next => exact reliable _
      next inside =>
        have written : EntryWritten v d.called.faults d.called.calls := fun k _ => reliable _
        obtain ⟨cleared, done, clears, _⟩ := @fat16WriteFatEntry_written v d.called cluster 0
          (Nat.le_of_not_lt (not_or.mp inside).1) written
        rw [done]
        exact ⟨Or.inl (reliable _), written, ih fun index => clears.faults ▸ reliable index⟩

theorem createDirWhole_of_reliable (reliable : Reliable s.vfs.disk) (room : FatHasRoom v s.bytes)
    (heap : s.vfs.kmalloc block ≠ 0) (shows : ∀ index < v.rootSlots, ShowsNothing v s.bytes index) :
    s.CreateDirWhole v parent name block := by
  intro _ found after scanned
  have changes := @scanRoot_changes (fat16NameTo83 name) v s.vfs.disk v.rootSectors 0
  rw [scanned] at changes
  have still : Reliable after := changes.reliable reliable
  refine ⟨takesWhole_of_reliable still (changes.none ▸ room), fun cluster _ _ => ?_⟩
  rw [if_neg (by rw [still]; exact Bool.false_ne_true)]
  exact ⟨shows _ (scanRoot_found (Nat.zero_add _) scanned).1.index, Or.inl heap⟩

theorem deleteWhole_of_reliable (reliable : Reliable s.vfs.disk) (own : ∀ found after,
    findRoot v (fat16NameTo83 (s.vfs.node node).name) v.rootSectors 0 s.vfs.disk =
      (some found, after) → s.FindsChain v node found.index) : s.DeleteWhole v node := by
  intro _ _ found after scanned
  have still : Reliable after := (findRoot_found (Nat.zero_add _) scanned).1.same.reliable reliable
  refine ⟨checksWhole_of_reliable still, fun looked look => Or.inr ⟨?_, own found after scanned⟩⟩
  have changes := @foundEmpty_changes v found after
  rw [look] at changes
  exact releasesWhole_of_reliable (changes.reliable still)

end Clear

section Empty

variable {v : Volume} {s : VolumeTree} {disk : Disk}

theorem inner_tops {bytes : Mem} {tops : Set Nat} {address : Nat}
    (inner : Inner v bytes tops address) : ∃ cluster ∈ tops, 2 ≤ cluster := by
  induction inner with
  | @top cluster _ isTop entry => exact ⟨cluster, isTop, entryIn_two entry⟩
  | under _ _ _ ih => exact ih

theorem first_small (nodes : ∀ node ∈ s.vfs.nodes, (s.vfs.fat16Node node).cluster < 2)
    (slots : ∀ slot < v.rootSlots, entryLive (rootMem v s.bytes) slot = false) {holder : Holder}
    (holds : s.Holds v holder) : s.first v holder < 2 := by
  have dead : ∀ slot, ¬LiveAt v s.bytes slot := fun slot live =>
    Bool.false_ne_true ((slots slot live.1).symm.trans live.2.1)
  cases holder with
  | node node => exact nodes node holds
  | slot slot => exact absurd holds.1 (dead slot)
  | inner address =>
      obtain ⟨cluster, isTop, two⟩ := inner_tops holds
      rcases isTop with ⟨node, known, _, isFirst⟩ | ⟨slot, live, _⟩
      · exact absurd (nodes node known) (Nat.not_lt.mpr (isFirst ▸ two))
      · exact absurd live (dead slot)

theorem formatted_accounted
    (slots : ∀ slot < v.rootSlots, entryLive (rootMem v disk.bytes) slot = false)
    (table : ∀ cluster < v.fatEntries, fatEntry v disk.bytes cluster = 0) :
    (unmounted disk).Accounted v :=
  ⟨fun _ holds => ⟨[], first_small (fun _ known => absurd known List.not_mem_nil) slots holds,
    trivial⟩, fun cluster used => absurd (table cluster used.2.1) used.2.2⟩

theorem formattedDisk_accounted : (unmounted formattedDisk).Accounted smallVolume := by
  refine formatted_accounted (by decide) fun cluster _ => Mem.readLE_zero fun offset _ => ?_
  have behind : ∀ address, 512 ≤ address → formattedDisk.bytes address = 0 := by
    intro address large
    dsimp only [formattedDisk]
    split <;> first | rfl | omega
  refine behind _ ?_
  have start : smallVolume.fatStart = 1 := rfl
  omega

end Empty

theorem deletedDir_accounted : ∃ s, runActions (step smallVolume)
    (mount smallVolume formattedDisk 1 2 [])
    [⟨.createDir 2 [68] 3, []⟩, ⟨.delete 3, []⟩] = some s ∧ s.Accounted smallVolume := by
  have clear : ∀ s : Vfs, Reliable (s.failing []).disk := fun _ index =>
    decide_eq_false (@List.not_mem_nil Nat index)
  have meets : RunMeets (step smallVolume) (KeepsTrack smallVolume)
      (mount smallVolume formattedDisk 1 2 []) [⟨.createDir 2 [68] 3, []⟩, ⟨.delete 3, []⟩] := by
    refine ⟨?_, fun next taken => ⟨?_, fun _ _ => trivial⟩⟩
    · have none : ∀ slot < smallVolume.rootSlots,
          entryLive (rootMem smallVolume (mount smallVolume formattedDisk 1 2 []).bytes) slot =
          false := by decide
      refine createDirWhole_of_reliable (clear _) (by decide) (by decide) fun index _ _ slot bound _ live => ?_
      exact absurd ((none slot bound).symm.trans live) Bool.false_ne_true
    · have makes : ((mount smallVolume formattedDisk 1 2 []).step smallVolume ⟨.createDir 2 [68] 3, []⟩).map
          (fun s => decide (s.own 3 = some 0 ∧ entryCluster (rootMem smallVolume s.bytes) 0 =
            (s.vfs.fat16Node 3).cluster ∧
            ∀ slot < smallVolume.rootSlots, slot ≠ 0 → entryLive (rootMem smallVolume s.bytes) slot = false)) =
          some true := by decide
      rw [taken] at makes
      obtain ⟨owns, cluster, others⟩ := of_decide_eq_true (Option.some.inj makes)
      refine deleteWhole_of_reliable (clear _) fun found after scanned => Or.inl ?_
      obtain ⟨foundIn, live, _⟩ := findRoot_found (Nat.zero_add _) scanned
      have isFirst : found.index = 0 := by
        by_contra different
        exact Bool.false_ne_true ((others found.index foundIn.index different).symm.trans live)
      rw [isFirst]
      exact ⟨owns, cluster⟩
  have runs : (runActions (step smallVolume) (mount smallVolume formattedDisk 1 2 [])
      [⟨.createDir 2 [68] 3, []⟩, ⟨.delete 3, []⟩]).isSome = true := by decide
  obtain ⟨s, reached⟩ := Option.isSome_iff_exists.mp runs
  exact ⟨s, reached, clusters_accounted (fun _ => rfl) formattedDisk_accounted meets reached⟩

/-- The file "A" is made, written and deleted; the entry never named its cluster, and nobody has it
now. -/
theorem writtenFile_leaks : ¬ ∀ (v : Volume) (disk : Disk) (fs root : Nat) (blocks : List Nat)
    (requests : List VolumeRequest) (s : VolumeTree), Reliable disk → (unmounted disk).Accounted v →
      runActions (step v) (mount v disk fs root blocks) requests = some s →
        ∀ cluster ∈ inUse v s.bytes, ∃! holder, cluster ∈ s.share v holder := by
  intro accounted
  have runs : (runActions (step smallVolume) (mount smallVolume formattedDisk 1 2 [])
      [⟨.createFile 2 [65] 3, []⟩, ⟨.write 3 0 [7], []⟩, ⟨.delete 3, []⟩]).map
      (fun s => decide (s.vfs.nodes = [2] ∧
        (s.vfs.fat16Node 2).cluster = 0 ∧ fatEntry smallVolume s.bytes 2 = 0xFFFF ∧
        ∀ slot < smallVolume.rootSlots, entryLive (rootMem smallVolume s.bytes) slot = false)) =
        some true := by decide
  obtain ⟨s, reached, holds⟩ := Option.map_eq_some_iff.mp runs
  obtain ⟨nodes, root, mark, none⟩ := of_decide_eq_true holds
  have used : 2 ∈ inUse smallVolume s.bytes := ⟨by decide, by decide, by rw [mark]; decide⟩
  obtain ⟨holder, shares, _⟩ := accounted smallVolume formattedDisk 1 2 [] _ s
    (fun _ => rfl) formattedDisk_accounted reached 2 used
  have small : s.Holds smallVolume holder → s.first smallVolume holder < 2 :=
    first_small (fun node known => by
    rw [nodes, List.mem_singleton] at known
    rw [known, root]
    decide) none
  exact absurd (share_small small ▸ shares) (Set.notMem_empty _)

end VolumeTree

end Szczupak
