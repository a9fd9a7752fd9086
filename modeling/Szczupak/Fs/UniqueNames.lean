import Szczupak.Fs.RootDirectory

/-!
Names in the root directory.  The create routines stop at the first free slot, so an entry of
the same name behind it goes unnoticed.
-/

namespace Szczupak

def DistinctNames (v : Volume) (bytes : Mem) : Prop :=
  ∀ later < v.rootSlots, ∀ earlier < later,
    entryLive (rootMem v bytes) earlier = true → entryLive (rootMem v bytes) later = true →
    entryName (rootMem v bytes) earlier ≠ entryName (rootMem v bytes) later

def SeesName (v : Volume) (bytes : Mem) (name83 : List UInt8) : Prop :=
  ∀ later < v.rootSlots, ∀ earlier < later,
    entryFree (rootMem v bytes) earlier = true → entryLive (rootMem v bytes) later = true →
    entryName (rootMem v bytes) later ≠ name83

/-- The entries of that name have their chains inside the table. -/
def ReleasesInFat (v : Volume) (bytes : Mem) (name83 : List UInt8) : Prop :=
  ∀ slot < v.rootSlots, entryLive (rootMem v bytes) slot = true →
    entryName (rootMem v bytes) slot = name83 →
    chainInFat v bytes 0x10000 (entryCluster (rootMem v bytes) slot) = true

instance (v : Volume) (bytes : Mem) : Decidable (DistinctNames v bytes) :=
  inferInstanceAs (Decidable (∀ later < v.rootSlots, ∀ earlier < later, _ → _ → _ ≠ _))

instance (v : Volume) (bytes : Mem) (name83 : List UInt8) : Decidable (SeesName v bytes name83) :=
  inferInstanceAs (Decidable (∀ later < v.rootSlots, ∀ earlier < later, _ → _ → _ ≠ _))

instance (v : Volume) (bytes : Mem) (name83 : List UInt8) : Decidable (ReleasesInFat v bytes name83) :=
  inferInstanceAs (Decidable (∀ slot < v.rootSlots, _ → _ = _ → _ = _))

inductive RootOp where
  | createFile (name : List UInt8) (room : Bool)
  | createDir (name : List UInt8) (room : Bool)
  | delete (name : List UInt8)

def rootStep (v : Volume) (d : Disk) : RootOp → Option Disk
  | .createFile name room => some (fat16CreateFile v d name room).2
  | .createDir name room => some (fat16CreateDir v d name room).2
  | .delete name => some (fat16Delete v d name).2

/-- The scan sees an entry of the name, and the table entries that are written lie in the
table. -/
def KeepsNames (v : Volume) (d : Disk) : RootOp → Prop
  | .createFile name _ => SeesName v d.bytes (fat16NameTo83 name)
  | .createDir name _ => SeesName v d.bytes (fat16NameTo83 name) ∧ FatHasRoom v d.bytes
  | .delete name => ReleasesInFat v d.bytes (fat16NameTo83 name)

instance (v : Volume) (d : Disk) : ∀ op, Decidable (KeepsNames v d op)
  | .createFile name _ => inferInstanceAs (Decidable (SeesName v d.bytes (fat16NameTo83 name)))
  | .createDir name _ =>
      inferInstanceAs (Decidable (SeesName v d.bytes (fat16NameTo83 name) ∧ FatHasRoom v d.bytes))
  | .delete name => inferInstanceAs (Decidable (ReleasesInFat v d.bytes (fat16NameTo83 name)))

section Steps

variable {v : Volume} {d after : Disk} {name83 : List UInt8}

section

variable (distinct : DistinctNames v d.bytes)
include distinct

theorem DistinctNames.same
    (entries : ∀ slot < v.rootSlots, SameEntry (rootMem v d.bytes) (rootMem v after.bytes) slot) :
    DistinctNames v after.bytes := by
  intro later bound earlier before earlierLive laterLive
  have early := entries earlier (before.trans bound)
  have late := entries later bound
  rw [early.live] at earlierLive
  rw [late.live] at laterLive
  rw [early.name, late.name]
  exact distinct later bound earlier before earlierLive laterLive

theorem DistinctNames.quiet {area : Set Nat}
    (changes : Changes area d after) (apart : area ⊆ fatArea v ∪ dataArea v) :
    DistinctNames v after.bytes :=
  distinct.same fun _ bound => changes.sameEntry apart bound

theorem DistinctNames.put {attr : UInt8} {index cluster : Nat}
    (put : EntryPut v (rootMem v d.bytes) (rootMem v after.bytes) index name83 attr cluster)
    (unused : ∀ slot < v.rootSlots, slot ≠ index → entryLive (rootMem v d.bytes) slot = true →
      entryName (rootMem v d.bytes) slot ≠ name83) : DistinctNames v after.bytes := by
  intro later bound earlier before earlierLive laterLive
  by_cases isLater : later = index
  · have different : earlier ≠ index := by omega
    have same := put.others earlier (before.trans bound) different
    rw [same.live] at earlierLive
    rw [same.name, isLater, put.name]
    exact unused earlier (before.trans bound) different earlierLive
  · have late := put.others later bound isLater
    rw [late.live] at laterLive
    by_cases isEarlier : earlier = index
    · rw [isEarlier, put.name, late.name]
      exact (unused later bound isLater laterLive).symm
    · have early := put.others earlier (before.trans bound) isEarlier
      rw [early.live] at earlierLive
      rw [early.name, late.name]
      exact distinct later bound earlier before earlierLive laterLive

theorem DistinctNames.gone {index : Nat}
    (gone : EntryGone v (rootMem v d.bytes) (rootMem v after.bytes) index) :
    DistinctNames v after.bytes := by
  have dead : entryLive (rootMem v after.bytes) index = false := by
    simp [entryLive, entryFree, gone.first]
  have alive : ∀ slot < v.rootSlots, entryLive (rootMem v after.bytes) slot = true → slot ≠ index := by
    rintro slot _ live rfl
    rw [dead] at live
    cases live
  intro later bound earlier before earlierLive laterLive
  have early := gone.others earlier (before.trans bound)
    (alive earlier (before.trans bound) earlierLive)
  have late := gone.others later bound (alive later bound laterLive)
  rw [early.live] at earlierLive
  rw [late.live] at laterLive
  rw [early.name, late.name]
  exact distinct later bound earlier before earlierLive laterLive

end

/-- The scan for a free slot finds that nobody has the name, as far as it goes; behind the slot
the condition says so. -/
theorem scanRoot_unused {found : FoundSlot} (sees : SeesName v d.bytes name83)
    (scanned : scanRoot v name83 v.rootSectors 0 d = (some found, after)) :
    FoundIn v d after found ∧ ∀ slot < v.rootSlots, slot ≠ found.index →
      entryLive (rootMem v d.bytes) slot = true → entryName (rootMem v d.bytes) slot ≠ name83 := by
  obtain ⟨foundIn, free, before⟩ := scanRoot_found (Nat.zero_add _) scanned
  refine ⟨foundIn, fun slot bound different live same => ?_⟩
  rcases Nat.lt_or_gt_of_ne different with earlier | later
  · exact (before slot (by omega) earlier).2 ⟨live, same⟩
  · exact sees slot bound found.index later free live same

section

variable (distinct : DistinctNames v d.bytes)
include distinct

theorem DistinctNames.createFile {name : List UInt8} {room : Bool}
    (sees : SeesName v d.bytes (fat16NameTo83 name)) :
    DistinctNames v (fat16CreateFile v d name room).2.bytes := by
  rw [fat16CreateFile]
  have changes := @scanRoot_changes (fat16NameTo83 name) v d v.rootSectors 0
  have nothing : ∅ ⊆ fatArea v ∪ dataArea v := Set.empty_subset _
  split
  next scanned =>
    rw [scanned] at changes
    exact distinct.quiet changes nothing
  next found middle scanned =>
    rw [scanned] at changes
    obtain ⟨foundIn, unused⟩ := scanRoot_unused sees scanned
    have bytes : middle.bytes = d.bytes := changes.none
    split
    next after failed =>
      have kept : DistinctNames v middle.bytes := distinct.quiet changes nothing
      rwa [ataWriteSector_false failed]
    next after put =>
      obtain ⟨_, placed⟩ := entryPut_of_write (fat16NameTo83_length name) foundIn.slot
        (fun index _ => by rw [foundIn.sector, bytes]) put
      rw [bytes] at placed
      have kept : DistinctNames v after.bytes := distinct.put placed unused
      split <;> exact kept

theorem DistinctNames.createDir {name : List UInt8} {room : Bool}
    (sees : SeesName v d.bytes (fat16NameTo83 name)) (hasRoom : FatHasRoom v d.bytes) :
    DistinctNames v (fat16CreateDir v d name room).2.bytes := by
  rw [fat16CreateDir]
  have changes := @scanRoot_changes (fat16NameTo83 name) v d v.rootSectors 0
  have nothing : ∅ ⊆ fatArea v ∪ dataArea v := Set.empty_subset _
  have both : fatArea v ∪ dataArea v ⊆ fatArea v ∪ dataArea v := fun _ member => member
  have table : fatArea v ⊆ fatArea v ∪ dataArea v := Set.subset_union_left
  split
  next scanned =>
    rw [scanned] at changes
    exact distinct.quiet changes nothing
  next found middle scanned =>
    rw [scanned] at changes
    obtain ⟨foundIn, unused⟩ := scanRoot_unused sees scanned
    have bytes : middle.bytes = d.bytes := changes.none
    have allocates := @fat16AllocateCluster_changes v middle (bytes ▸ hasRoom)
    have afterAllocation : DistinctNames v (fat16AllocateCluster v middle).2.bytes :=
      (distinct.quiet changes nothing).quiet allocates.1 both
    split
    next taken => rwa [taken] at afterAllocation
    next cluster allocated notZero taken =>
      rw [taken] at allocates afterAllocation
      obtain ⟨allocates, small⟩ := allocates
      dsimp only at small
      have inside : cluster < v.fatEntries := by
        have positive : cluster ≠ 0 := fun zero => notZero zero
        omega
      have entries : ∀ slot < v.rootSlots,
          SameEntry (rootMem v d.bytes) (rootMem v allocated.bytes) slot := by
        intro slot bound
        have same := allocates.sameEntry both bound
        rwa [bytes] at same
      have sector := foundIn.sector_later allocates both bytes
      have freed : ∀ after : Disk, DistinctNames v after.bytes →
          DistinctNames v (fat16WriteFatEntry v after cluster 0).2.bytes :=
        fun after kept => kept.quiet (fat16WriteFatEntry_changes inside) table
      split
      next after failed =>
        rw [ataWriteSector_false failed]
        exact freed _ afterAllocation
      next after put =>
        obtain ⟨_, placed⟩ := entryPut_of_write (fat16NameTo83_length name) foundIn.slot sector put
        have kept : DistinctNames v after.bytes := by
          refine afterAllocation.put placed fun slot bound different live => ?_
          have same := entries slot bound
          rw [same.live] at live
          rw [same.name]
          exact unused slot bound different live
        split
        · exact kept
        · exact freed after kept

theorem DistinctNames.delete {name : List UInt8}
    (releases : ReleasesInFat v d.bytes (fat16NameTo83 name)) :
    DistinctNames v (fat16Delete v d name).2.bytes := by
  rw [fat16Delete]
  have changes := @findRoot_changes (fat16NameTo83 name) v d v.rootSectors 0
  have nothing : ∅ ⊆ fatArea v ∪ dataArea v := Set.empty_subset _
  have table : fatArea v ⊆ fatArea v ∪ dataArea v := Set.subset_union_left
  split
  next scanned =>
    rw [scanned] at changes
    exact distinct.quiet changes nothing
  next found middle scanned =>
    rw [scanned] at changes
    obtain ⟨foundIn, live, isName, _⟩ := findRoot_found (Nat.zero_add _) scanned
    have bytes : middle.bytes = d.bytes := changes.none
    have chain := releases found.index foundIn.index live isName
    have isCluster : entryCluster found.sector found.slot =
      entryCluster (rootMem v d.bytes) found.index := by
      rw [foundIn.sector]
      exact entry_sectorOf.2.2.2.1
    dsimp only
    rw [isCluster]
    generalize entryCluster (rootMem v d.bytes) found.index = start at chain
    generalize (entryAttr found.sector found.slot).toNat / 16 % 2 = directoryBit
    have looks : Changes ∅ middle
        (if directoryBit = 1 then fat16DirectoryClusterEmpty v middle start else (true, middle)).2 := by
      split
      · exact fat16DirectoryClusterEmpty_changes
      · exact Changes.refl middle
    have releaseChanges : ∀ looked : Disk, looked.bytes = d.bytes → Changes (fatArea v) looked
        (if 2 ≤ start then fat16ReleaseClusterChain v looked start else (true, looked)).2 := by
      intro looked same
      split
      · exact fat16ReleaseClusterChain_changes (same ▸ chain)
      · exact Changes.refl looked
    split
    next looked failed =>
      rw [failed] at looks
      exact (distinct.quiet changes nothing).quiet looks nothing
    next looked empty =>
      rw [empty] at looks
      have lookedBytes : looked.bytes = d.bytes := looks.none.trans bytes
      have release := releaseChanges looked lookedBytes
      have kept : DistinctNames v looked.bytes := (distinct.quiet changes nothing).quiet looks nothing
      split
      next released failed =>
        rw [failed] at release
        exact kept.quiet release table
      next released done =>
        rw [done] at release
        have keptReleased : DistinctNames v released.bytes := kept.quiet release table
        have sector := foundIn.sector_later release table lookedBytes
        cases put : ataWriteSector released (v.rootStart + found.sectorIndex)
            (deletedEntry found.sector found.slot) with
        | mk written after =>
            cases written with
            | true => exact keptReleased.gone (entryGone_of_write foundIn.slot sector put).2
            | false =>
                rw [ataWriteSector_false put]
                exact keptReleased

theorem KeepsNames.step {op : RootOp} (keeps : KeepsNames v d op)
    (taken : rootStep v d op = some after) : DistinctNames v after.bytes := by
  cases op with
  | createFile name room =>
      cases taken
      exact distinct.createFile keeps
  | createDir name room =>
      cases taken
      exact distinct.createDir keeps.1 keeps.2
  | delete name =>
      cases taken
      exact distinct.delete keeps

end

end Steps

theorem root_names_stay_distinct {v : Volume} {start final : Disk} {ops : List RootOp}
    (distinct : DistinctNames v start.bytes) (keeps : RunMeets (rootStep v) (KeepsNames v) start ops)
    (reached : runActions (rootStep v) start ops = some final) : DistinctNames v final.bytes := by
  have preserved : ∀ state op next, DistinctNames v state.bytes → KeepsNames v state op →
      rootStep v state op = some next → DistinctNames v next.bytes :=
    fun _ _ _ names keep taken => keep.step names taken
  exact @runActions_guarded _ _ _ _ (fun state => DistinctNames v state.bytes) preserved _ _ _
    distinct keeps reached

def recreateFirst : List RootOp :=
  [.createFile [65] true, .createFile [66] true, .delete [65], .createFile [65] true]

theorem recreateFirst_distinct : ∃ final,
    runActions (rootStep smallVolume) formattedDisk recreateFirst = some final ∧
    DistinctNames smallVolume final.bytes := by
  have runs : (runActions (rootStep smallVolume) formattedDisk recreateFirst).isSome = true := by
    decide +kernel
  obtain ⟨final, reached⟩ := Option.isSome_iff_exists.mp runs
  exact ⟨final, reached, root_names_stay_distinct (by decide +kernel) (by decide +kernel) reached⟩

def recreateSecond : List RootOp :=
  [.createFile [65] true, .createFile [66] true, .delete [65], .createFile [66] true]

/-- The free slot of "A" comes before the entry of "B". -/
theorem recreateSecond_duplicates : ¬ ∀ (v : Volume) (start final : Disk) (ops : List RootOp),
    DistinctNames v start.bytes → runActions (rootStep v) start ops = some final →
    DistinctNames v final.bytes := by
  intro keeps
  have runs : (runActions (rootStep smallVolume) formattedDisk recreateSecond).map
      (fun final => decide (DistinctNames smallVolume final.bytes)) = some false := by
    decide +kernel
  obtain ⟨final, reached, duplicate⟩ := Option.map_eq_some_iff.mp runs
  exact of_decide_eq_false duplicate (keeps _ _ _ _ (by decide +kernel) reached)

end Szczupak
