import Mathlib.Data.Finset.Card
import Mathlib.Data.List.TakeWhile
import Szczupak.Fs.FileData
import Szczupak.Fs.Mounted

/-!
What the calls of the driver leave on a reliable disk when they succeed.  The create routines
put one entry into the root directory, a delete gives one up, and a write leaves the directory
as it is; the table is written only where it does not begin at the boot sector.
-/

namespace Szczupak

def tableArea (v : Volume) : Set Nat := { address | 0 < v.reservedSectors ∧ address ∈ fatArea v }

def freeClusters (v : Volume) (bytes : Mem) : Finset Nat :=
  (Finset.range v.fatEntries).filter fun cluster => 2 ≤ cluster ∧ fatEntry v bytes cluster = 0

def RoomBehind (v : Volume) (bytes : Mem) (cluster count : Nat) : Prop :=
  0 < v.reservedSectors ∧
    (0xFFF0 ≤ v.fatEntries ∨ count ≤ ((freeClusters v bytes).erase cluster).card)

instance (v : Volume) (bytes : Mem) (cluster count : Nat) :
    Decidable (RoomBehind v bytes cluster count) :=
  inferInstanceAs (Decidable (_ ∧ _))

def reachesInFat (v : Volume) (bytes : Mem) : Nat → Nat → Bool
  | 0, _ => true
  | steps + 1, cluster =>
      decide (cluster < v.fatEntries) &&
        if fatEntry v bytes cluster < 2 ∨ 0xFFF8 ≤ fatEntry v bytes cluster then
          decide (RoomBehind v bytes cluster (steps + 1))
        else reachesInFat v bytes steps (fatEntry v bytes cluster)

section Table

variable {v : Volume} {d after : Disk} {bytes : Mem} {cluster current fresh : Nat}

theorem tableArea_subset : tableArea v ⊆ fatArea v := fun _ member => member.2

theorem Changes.table {area : Set Nat} (changes : Changes (fatArea v ∪ area) d after)
    (reserved : 0 < v.reservedSectors) : Changes (tableArea v ∪ area) d after :=
  changes.mono fun _ member => member.imp (fun inTable => ⟨reserved, inTable⟩) id

theorem hasFreeFrom_of {remaining i : Nat} (lower : i ≤ cluster) (upper : cluster < i + remaining)
    (free : fatEntry v bytes cluster = 0) : hasFreeFrom v bytes remaining i = true := by
  induction remaining generalizing i with
  | zero => omega
  | succ remaining ih =>
      rw [hasFreeFrom, Bool.or_eq_true, beq_iff_eq]
      rcases Nat.eq_or_lt_of_le lower with rfl | later
      · exact Or.inl free
      · exact Or.inr (ih later (by omega))

theorem mem_freeClusters : cluster ∈ freeClusters v bytes ↔
    cluster < v.fatEntries ∧ 2 ≤ cluster ∧ fatEntry v bytes cluster = 0 := by
  rw [freeClusters, Finset.mem_filter, Finset.mem_range]

theorem freeClusters_congr {other : Mem}
    (same : ∀ cluster < v.fatEntries, fatEntry v other cluster = fatEntry v bytes cluster) :
    freeClusters v other = freeClusters v bytes := by
  ext cluster
  rw [mem_freeClusters, mem_freeClusters]
  exact and_congr_right fun inTable => by rw [same cluster inTable]

theorem RoomBehind.fatHasRoom {count : Nat} (room : RoomBehind v bytes cluster (count + 1)) :
    FatHasRoom v bytes := by
  refine room.2.imp_right fun enough => ?_
  obtain ⟨other, member⟩ := Finset.card_pos.mp (Nat.lt_of_lt_of_le (Nat.succ_pos count) enough)
  obtain ⟨inTable, two, free⟩ := mem_freeClusters.mp (Finset.mem_of_mem_erase member)
  exact hasFreeFrom_of two (by omega) free

theorem reachesInFat_congr {other : Mem}
    (same : ∀ cluster < v.fatEntries, fatEntry v other cluster = fatEntry v bytes cluster)
    {steps : Nat} : reachesInFat v other steps cluster = reachesInFat v bytes steps cluster := by
  have free := freeClusters_congr same
  induction steps generalizing cluster with
  | zero => rfl
  | succ steps ih =>
      rw [reachesInFat, reachesInFat]
      by_cases inTable : cluster < v.fatEntries
      · have room : RoomBehind v other cluster (steps + 1) ↔ RoomBehind v bytes cluster (steps + 1) := by
          rw [RoomBehind, RoomBehind, free]
        rw [same cluster inTable, ih, decide_eq_decide.mpr room]
      · rw [decide_eq_false inTable, Bool.false_and, Bool.false_and]

theorem reachesInFat_loop (inTable : cluster < v.fatEntries) (two : 2 ≤ cluster)
    (small : cluster < 0xFFF8) (loops : fatEntry v bytes cluster = cluster) {steps : Nat} :
    reachesInFat v bytes steps cluster = true := by
  induction steps with
  | zero => rfl
  | succ steps ih =>
      rw [reachesInFat, loops, if_neg (by omega), decide_eq_true inTable, ih]
      rfl

theorem reachesInFat_taken {steps : Nat} (inTable : fresh < v.fatEntries) (two : 2 ≤ fresh)
    (small : fresh < 0xFFF0) (room : RoomBehind v d.bytes current (steps + 1))
    (entries : ∀ cluster < v.fatEntries, fatEntry v after.bytes cluster =
      if cluster = current then fresh else if cluster = fresh then 0xFFFF
      else fatEntry v d.bytes cluster) : reachesInFat v after.bytes steps fresh = true := by
  have here := entries fresh inTable
  by_cases itself : fresh = current
  · rw [if_pos itself] at here
    exact reachesInFat_loop inTable two (by omega) here
  · rw [if_neg itself, if_pos rfl] at here
    cases steps with
    | zero => rfl
    | succ steps =>
        have still : RoomBehind v after.bytes fresh (steps + 1) := by
          refine ⟨room.1, room.2.imp_right fun enough => ?_⟩
          have others : (freeClusters v d.bytes).erase current ⊆
              insert fresh ((freeClusters v after.bytes).erase fresh) := by
            intro other member
            obtain ⟨notCurrent, free⟩ := Finset.mem_erase.mp member
            obtain ⟨otherInTable, otherTwo, zero⟩ := mem_freeClusters.mp free
            rw [Finset.mem_insert, Finset.mem_erase, mem_freeClusters]
            by_cases isFresh : other = fresh
            · exact Or.inl isFresh
            · have kept := entries other otherInTable
              rw [if_neg notCurrent, if_neg isFresh, zero] at kept
              exact Or.inr ⟨isFresh, otherInTable, otherTwo, kept⟩
          have fewer := (Finset.card_le_card others).trans (Finset.card_insert_le _ _)
          omega
        rw [reachesInFat, here, if_pos (Or.inr (by decide)), decide_eq_true inTable,
          decide_eq_true still]
        rfl

end Table

section Write

variable {v : Volume} {d after : Disk} {current intra steps : Nat} {data : List UInt8}

theorem nextOrAllocate_reaches (reliable : Reliable d) (two : 2 ≤ current)
    (reaches : reachesInFat v d.bytes (steps + 1) current = true) {next : Nat}
    (stepped : nextOrAllocate v d current = (some next, after)) :
    Changes (tableArea v ∪ dataArea v) d after ∧ Reliable after ∧ 2 ≤ next ∧
      reachesInFat v after.bytes steps next = true := by
  rw [reachesInFat, Bool.and_eq_true, decide_eq_true_eq] at reaches
  obtain ⟨inTable, reaches⟩ := reaches
  rw [nextOrAllocate, fat16ReadFatEntry_reliable reliable two] at stepped
  dsimp only at stepped
  split at stepped
  next ends =>
    rw [if_pos ends, decide_eq_true_eq] at reaches
    have hasRoom := reaches.fatHasRoom
    have allocates := @fat16AllocateCluster_changes v d.called hasRoom
    split at stepped
    next => cases stepped
    next fresh middle some took =>
      have takes := fat16AllocateCluster_reliable (called_reliable reliable) took some
      rw [took] at allocates
      obtain ⟨allocates, bound⟩ := allocates
      have freshInTable := takes.inTable bound
      have freshSmall := takes.small
      obtain ⟨linked, done, writes⟩ :=
        @fat16WriteFatEntry_reliable middle v current fresh (allocates.reliable reliable) two
      have links := @fat16WriteFatEntry_changes v middle current fresh inTable
      rw [done] at stepped links
      cases stepped
      have changes : Changes (fatArea v ∪ dataArea v) d after :=
        (called_changes.trans allocates).trans (links.mono Set.subset_union_left)
      refine ⟨changes.table reaches.1, changes.reliable reliable, takes.two,
        reachesInFat_taken freshInTable takes.two takes.small reaches fun cluster known => ?_⟩
      rw [writes.bytes]
      by_cases isCurrent : cluster = current
      · rw [isCurrent, fatStored_same inTable, if_pos rfl, Nat.mod_eq_of_lt (by omega)]
      · rw [fatStored_other known isCurrent, if_neg isCurrent, takes.entry freshInTable known]
        rfl
  next link =>
    rw [if_neg link] at reaches
    cases stepped
    exact ⟨called_changes, called_reliable reliable, by omega, reaches⟩

theorem skipOrAllocate_reaches (reliable : Reliable d) (two : 2 ≤ current) {skip next : Nat}
    (reaches : reachesInFat v d.bytes (skip + steps) current = true)
    (skipped : skipOrAllocate v skip current d = (some next, after)) :
    Changes (tableArea v ∪ dataArea v) d after ∧ Reliable after ∧ 2 ≤ next ∧
      reachesInFat v after.bytes steps next = true := by
  induction skip generalizing current d with
  | zero =>
      cases skipped
      rw [Nat.zero_add] at reaches
      exact ⟨Changes.refl _, reliable, two, reaches⟩
  | succ skip ih =>
      rw [Nat.succ_add] at reaches
      rw [skipOrAllocate] at skipped
      split at skipped
      next => cases skipped
      next reached middle stepped =>
        obtain ⟨first, middleReliable, nextTwo, rest⟩ := nextOrAllocate_reaches reliable two reaches stepped
        obtain ⟨second, afterReliable, afterTwo, final⟩ := ih middleReliable nextTwo rest skipped
        exact ⟨first.trans second, afterReliable, afterTwo, final⟩

theorem writeClusters_reaches (reliable : Reliable d) (two : 2 ≤ current) {turns written : Nat}
    (within : intra < v.clusterSize) (more : written < data.length)
    (isSteps : steps = (intra + (data.length - written) - 1) / v.clusterSize)
    (reaches : reachesInFat v d.bytes steps current = true)
    (wrote : writeClusters v data turns current intra written d = (some (), after)) :
    Changes (tableArea v ∪ dataArea v) d after := by
  induction turns generalizing current intra written d steps with
  | zero => cases wrote
  | succ turns ih =>
      obtain ⟨middle, done, stored⟩ := @writeSectors_reliable d data intra reliable
        (v.clusterSector current) v.sectorsPerCluster 0 written _ _ rfl rfl
      rw [writeClusters, done] at wrote
      dsimp only at wrote
      have position : max intra (0 * 512) = intra := by omega
      have room : (0 + v.sectorsPerCluster) * 512 = v.clusterSize := by rw [Nat.zero_add, Volume.clusterSize]
      rw [position, room] at stored wrote
      have behind : v.dataStart * 512 ≤ v.clusterSector current * 512 + intra :=
        (Nat.mul_le_mul_right _ dataStart_le_clusterSector).trans (Nat.le_add_right _ _)
      generalize isCount : min (v.clusterSize - intra) (data.length - written) = count at stored wrote
      have stores : Changes (tableArea v ∪ dataArea v) d middle := by
        refine ⟨fun address outside => ?_, stored.faults⟩
        rw [stored.bytes]
        refine Mem.store_outside _ (Or.inl (Nat.lt_of_lt_of_le (Nat.lt_of_not_le fun inside => ?_) behind))
        exact outside (Or.inr inside)
      split at wrote
      next =>
        cases wrote
        exact stores
      next rest =>
        split at wrote
        next => cases wrote
        next reached later stepped =>
          have full : count = v.clusterSize - intra := by omega
          have left : intra + (data.length - written) - 1 =
              v.clusterSize + (0 + (data.length - (written + count)) - 1) := by omega
          rw [left, Nat.add_div_left _ (clusterSize_pos v)] at isSteps
          have same : ∀ cluster < v.fatEntries, fatEntry v middle.bytes cluster =
            fatEntry v d.bytes cluster := by
            intro cluster known
            rw [stored.bytes]
            exact fatEntry_store known behind
          rw [isSteps, ← reachesInFat_congr same] at reaches
          obtain ⟨links, laterReliable, nextTwo, further⟩ :=
            nextOrAllocate_reaches (stored.reliable reliable) two reaches stepped
          exact (stores.trans links).trans
            (ih laterReliable nextTwo (clusterSize_pos v) (by omega) rfl further wrote)

theorem fat16Write_quiet (reliable : Reliable d) {node grown : Fat16Node} {offset : Nat}
    (two : 2 ≤ node.cluster) (inside : offset + data.length ≤ node.size)
    (reaches : reachesInFat v d.bytes ((offset + data.length - 1) / v.clusterSize) node.cluster =
    true) (wrote : fat16Write v d node data offset = (some grown, after)) :
    Changes (tableArea v ∪ dataArea v) d after ∧ grown = node := by
  replace wrote := fat16Write_some wrote
  rw [fat16WriteNode] at wrote
  split at wrote
  next => cases wrote
  next =>
    split at wrote
    next =>
      cases wrote
      exact ⟨Changes.refl d, rfl⟩
    next some =>
      split at wrote
      next => cases wrote
      next =>
        rw [firstCluster, if_neg (by omega)] at wrote
        dsimp only at wrote
        split at wrote
        next => cases wrote
        next current middle skipped =>
          split at wrote
          next => cases wrote
          next written =>
            cases wrote
            have total : offset + data.length - 1 = offset % v.clusterSize + (data.length - 0) - 1 +
                v.clusterSize * (offset / v.clusterSize) := by
              have split := Nat.mod_add_div offset v.clusterSize
              omega
            rw [total, Nat.add_mul_div_left _ _ (clusterSize_pos v), Nat.add_comm] at reaches
            obtain ⟨skips, middleReliable, currentTwo, rest⟩ :=
              skipOrAllocate_reaches reliable two reaches skipped
            have writes := writeClusters_reaches middleReliable currentTwo
              (Nat.mod_lt _ (clusterSize_pos v)) (Nat.pos_of_ne_zero some) rfl rest written
            refine ⟨skips.trans writes, ?_⟩
            rw [max_eq_left inside]

end Write

section Directory

variable {v : Volume} {d middle after : Disk} {name83 : List UInt8} {found : FoundSlot}

theorem sectorArea_subset_rootArea {row : Nat} (inside : row < v.rootSectors) :
    sectorArea (v.rootStart + row) ⊆ rootArea v := by
  rintro address ⟨above, below⟩
  have start : v.rootStart * 512 ≤ (v.rootStart + row) * 512 :=
    Nat.mul_le_mul_right _ (Nat.le_add_right _ _)
  have stop : (v.rootStart + row + 1) * 512 ≤ v.dataStart * 512 := by
    refine Nat.mul_le_mul_right _ ?_
    rw [Volume.dataStart]
    omega
  rw [Nat.succ_mul] at stop
  exact ⟨start.trans above, below.trans_le stop⟩

theorem upper_nonzero {char : UInt8} (nonzero : char ≠ 0) : upper char ≠ 0 := by
  rw [upper]
  split
  next lower =>
    intro zero
    have isCase : char = 32 := by
      rw [← UInt8.sub_add_cancel char 32, zero]
      rfl
    rw [isCase] at lower
    exact absurd lower (by decide)
  next => exact nonzero

theorem fat16NameTo83_first {filename : List UInt8} : (fat16NameTo83 filename).getD 0 0 ≠ 0 := by
  have nonzero : ∀ char ∈ cString filename, char ≠ 0 := by
    intro char member
    have passes := List.mem_takeWhile_imp member
    rwa [bne_iff_ne] at passes
  rw [fat16NameTo83]
  generalize cString filename = rest at nonzero
  cases rest with
  | nil => decide
  | cons first rest =>
      by_cases dot : first = 46
      · rw [dot]
        show (32 : UInt8) ≠ 0
        decide
      · have heads : ((first :: rest).takeWhile (· != 46)).take 8 =
            first :: (rest.takeWhile (· != 46)).take 7 := by
          rw [@List.takeWhile_cons_of_pos _ (· != 46) _ _ (bne_iff_ne.mpr dot), List.take_succ_cons]
        rw [heads, List.map_cons, padded, List.cons_append, List.cons_append, List.getD_cons_zero]
        exact upper_nonzero (nonzero first List.mem_cons_self)

theorem scanned_entryPut {attr : UInt8} {cluster : Nat} {written : Disk}
    (scanned : scanRoot v name83 v.rootSectors 0 d = (some found, middle))
    (between : Changes (fatArea v ∪ dataArea v) middle written)
    (put : ataWriteSector written (v.rootStart + found.sectorIndex)
      (newEntry found.sector found.slot name83 attr cluster) = (true, after))
    (eleven : name83.length = 11) :
    Changes (slotArea v found.index) written after ∧
      EntryPut v (rootMem v d.bytes) (rootMem v after.bytes) found.index name83 attr cluster := by
  obtain ⟨foundIn, _⟩ := scanRoot_found (Nat.zero_add _) scanned
  have bytes : middle.bytes = d.bytes := foundIn.same.none
  have sector := foundIn.sector_later between (fun _ member => member) bytes
  obtain ⟨changes, placed⟩ := entryPut_of_write eleven foundIn.slot sector put
  refine ⟨changes, fun slot bound different => ?_, placed.first, placed.name, placed.attr,
    placed.cluster, placed.size⟩
  have earlier := between.sameEntry (fun _ member => member) bound
  rw [bytes] at earlier
  exact earlier.trans (placed.others slot bound different)

theorem scanned_put {attr : UInt8} {cluster : Nat} {written : Disk}
    (scanned : scanRoot v name83 v.rootSectors 0 d = (some found, middle))
    (between : Changes (fatArea v ∪ dataArea v) middle written)
    (put : ataWriteSector written (v.rootStart + found.sectorIndex)
      (newEntry found.sector found.slot name83 attr cluster) = (true, after))
    (eleven : name83.length = 11) (tidy : TidyEnd v d.bytes)
    (visible : name83.getD 0 0 ≠ 0 ∧ name83.getD 0 0 ≠ 0xE5) (ordinary : attr ≠ 0x0F)
    (small : cluster < 65536) :
    Changes (rootArea v) written after ∧ (mountedNodes v after.bytes).Perm
      (⟨mountedName name83, attr.toNat / 16 % 2 = 1, 0, cluster⟩ :: mountedNodes v d.bytes) := by
  obtain ⟨foundIn, free, before⟩ := scanRoot_found (Nat.zero_add _) scanned
  obtain ⟨_, fromStart⟩ := scanned_entryPut scanned between put eleven
  have changes := (@ataWriteSector_changes written (v.rootStart + found.sectorIndex)
    (newEntry found.sector found.slot name83 attr cluster)).mono
    (sectorArea_subset_rootArea foundIn.sectorIndex)
  rw [put] at changes
  exact ⟨changes, fromStart.nodes foundIn.index free
    (fun earlier upper => (before earlier (Nat.zero_le _) upper).1) tidy visible ordinary small⟩

def KeptName (name83 created : List UInt8) : Prop :=
  created = mountedName name83 ∧ name83.getD 0 0 ≠ 0xE5

instance (name83 created : List UInt8) : Decidable (KeptName name83 created) :=
  inferInstanceAs (Decidable (_ ∧ _))

theorem fat16CreateFile_nodes {name : List UInt8} {node : Fat16Node} (tidy : TidyEnd v d.bytes)
    (kept : KeptName (fat16NameTo83 name) (createdFileName (fat16NameTo83 name)))
    (made : fat16CreateFile v d name true = (some node, after)) :
    Changes (rootArea v) d after ∧
    (mountedNodes v after.bytes).Perm (node :: mountedNodes v d.bytes) := by
  rw [fat16CreateFile] at made
  split at made
  next => cases made
  next found middle scanned =>
    split at made
    next => cases made
    next written put =>
      cases made
      obtain ⟨changes, nodes⟩ := scanned_put scanned (Changes.refl middle) put
        (fat16NameTo83_length name) tidy ⟨fat16NameTo83_first, kept.2⟩ (by decide) (by decide)
      obtain ⟨foundIn, _⟩ := scanRoot_found (Nat.zero_add _) scanned
      rw [kept.1]
      exact ⟨(foundIn.same.mono (Set.empty_subset _)).trans changes, nodes⟩

theorem fat16CreateDir_nodes {name : List UInt8} {node : Fat16Node} (reliable : Reliable d)
    (tidy : TidyEnd v d.bytes)
    (kept : KeptName (fat16NameTo83 name) (createdDirName (fat16NameTo83 name)))
    (room : FatHasRoom v d.bytes) (reserved : 0 < v.reservedSectors)
    (made : fat16CreateDir v d name true = (some node, after)) :
    Changes (tableArea v ∪ dataArea v ∪ rootArea v) d after ∧
      (mountedNodes v after.bytes).Perm (node :: mountedNodes v d.bytes) := by
  rw [fat16CreateDir] at made
  split at made
  next => cases made
  next found middle scanned =>
    obtain ⟨foundIn, _⟩ := scanRoot_found (Nat.zero_add _) scanned
    have bytes : middle.bytes = d.bytes := foundIn.same.none
    have allocates := @fat16AllocateCluster_changes v middle (bytes ▸ room)
    split at made
    next => cases made
    next cluster allocated notZero taken =>
      rw [taken] at allocates
      obtain ⟨allocates, small⟩ := allocates
      split at made
      next => cases made
      next written put =>
        cases made
        have takes := fat16AllocateCluster_reliable (foundIn.same.reliable reliable) taken notZero
        have clusterSmall := takes.small
        obtain ⟨changes, nodes⟩ := scanned_put scanned allocates put (fat16NameTo83_length name)
          tidy ⟨fat16NameTo83_first, kept.2⟩ (by decide) (by omega)
        rw [kept.1]
        refine ⟨?_, nodes⟩
        exact ((foundIn.same.mono (Set.empty_subset _)).trans
          ((allocates.table reserved).mono Set.subset_union_left)).trans
          (changes.mono Set.subset_union_right)

/-- The entry that `fat16_delete` finds under a name. -/
def FirstNamed (root : Mem) (name83 : List UInt8) (slot : Nat) : Prop :=
  entryLive root slot = true ∧ entryName root slot = name83 ∧ ∀ earlier < slot,
    root (earlier * 32) ≠ 0 ∧ ¬(entryLive root earlier = true ∧ entryName root earlier = name83)

instance (root : Mem) (name83 : List UInt8) (slot : Nat) : Decidable (FirstNamed root name83 slot) :=
  inferInstanceAs (Decidable (_ ∧ _ ∧ ∀ earlier < slot, _))

theorem FirstNamed.unique {root : Mem} {first second : Nat} (left : FirstNamed root name83 first)
    (right : FirstNamed root name83 second) : first = second := by
  rcases Nat.lt_trichotomy first second with before | same | behind
  · exact absurd ⟨left.1, left.2.1⟩ (right.2.2 first before).2
  · exact same
  · exact absurd ⟨right.1, right.2.1⟩ (left.2.2 second behind).2

/-- The entry found under the name of the node is the node's, and its chain lies in the
table. -/
def DeletesOwn (v : Volume) (bytes : Mem) (node : Fat16Node) : Prop :=
  ∀ slot < v.rootSlots, FirstNamed (rootMem v bytes) (fat16NameTo83 node.name) slot →
    entryNode (rootMem v bytes) slot = node ∧
      (node.cluster < 2 ∨ 0 < v.reservedSectors ∧ chainInFat v bytes 0x10000 node.cluster = true)

instance (v : Volume) (bytes : Mem) (node : Fat16Node) : Decidable (DeletesOwn v bytes node) :=
  inferInstanceAs (Decidable (∀ slot < v.rootSlots, _ → _ = _ ∧ (_ ∨ _ ∧ _ = true)))

structure DeleteSteps (v : Volume) (d : Disk) (name83 : List UInt8) (found : FoundSlot)
    (looked released after : Disk) : Prop where
  foundIn : FoundIn v d looked found
  first : FirstNamed (rootMem v d.bytes) name83 found.index
  releases : (if 2 ≤ entryCluster (rootMem v d.bytes) found.index then
    fat16ReleaseClusterChain v looked (entryCluster (rootMem v d.bytes) found.index)
      else (true, looked)) = (true, released)
  writes : ataWriteSector released (v.rootStart + found.sectorIndex)
    (deletedEntry found.sector found.slot) = (true, after)

theorem fat16Delete_steps {name : List UInt8} (deleted : fat16Delete v d name = (true, after)) :
    ∃ found looked released, DeleteSteps v d (fat16NameTo83 name) found looked released after := by
  rw [fat16Delete] at deleted
  split at deleted
  next => cases deleted
  next found middle scanned =>
    obtain ⟨foundIn, live, isName, before⟩ := findRoot_found (Nat.zero_add _) scanned
    have isCluster : entryCluster found.sector found.slot =
      entryCluster (rootMem v d.bytes) found.index := by
      rw [foundIn.sector, entry_sectorOf.2.2.2.1]
      rfl
    dsimp only at deleted
    rw [isCluster] at deleted
    generalize (entryAttr found.sector found.slot).toNat / 16 % 2 = directoryBit at deleted
    have looks : Changes ∅ middle (if directoryBit = 1 then
        fat16DirectoryClusterEmpty v middle (entryCluster (rootMem v d.bytes) found.index)
          else (true, middle)).2 := by
      split
      · exact fat16DirectoryClusterEmpty_changes
      · exact Changes.refl middle
    split at deleted
    next => cases deleted
    next looked empty =>
      rw [empty] at looks
      split at deleted
      next => cases deleted
      next released done =>
        exact ⟨found, looked, released,
          ⟨foundIn.sectorIndex, foundIn.slot, foundIn.sector, foundIn.same.trans looks⟩,
          ⟨live, isName, fun earlier upper => before earlier (Nat.zero_le _) upper⟩, done, deleted⟩

theorem DeleteSteps.gone {looked released : Disk}
    (steps : DeleteSteps v d name83 found looked released after)
    {area : Set Nat} (release : Changes area looked released) (apart : area ⊆ fatArea v ∪ dataArea v) :
    Changes area d released ∧ Changes (slotArea v found.index) released after ∧
      EntryGone v (rootMem v d.bytes) (rootMem v after.bytes) found.index := by
  have lookedBytes := steps.foundIn.same.none
  have sector := steps.foundIn.sector_later release apart lookedBytes
  obtain ⟨changes, gone⟩ := entryGone_of_write steps.foundIn.slot sector steps.writes
  refine ⟨(steps.foundIn.same.mono (Set.empty_subset _)).trans release, changes,
    fun slot bound different => ?_, gone.first⟩
  have earlier := release.sameEntry apart bound
  rw [lookedBytes] at earlier
  exact earlier.trans (gone.others slot bound different)

theorem fat16Delete_nodes {node : Fat16Node} (own : DeletesOwn v d.bytes node)
    (deleted : fat16Delete v d node.name = (true, after)) :
    Changes (tableArea v ∪ rootArea v) d after ∧
      (mountedNodes v d.bytes).Perm (node :: mountedNodes v after.bytes) := by
  obtain ⟨found, looked, released, steps⟩ := fat16Delete_steps deleted
  have bytes := steps.foundIn.same.none
  obtain ⟨isNode, chain⟩ := own found.index steps.foundIn.index steps.first
  have isCluster : entryCluster (rootMem v d.bytes) found.index = node.cluster :=
    congrArg Fat16Node.cluster isNode
  have release : Changes (tableArea v) looked released := by
    have done := steps.releases
    rw [isCluster] at done
    split at done
    next two =>
      obtain ⟨reserved, inTable⟩ := chain.resolve_left (Nat.not_lt.mpr two)
      have changes := fat16ReleaseClusterChain_changes (bytes ▸ inTable)
      rw [done] at changes
      exact changes.mono fun _ member => ⟨reserved, member⟩
    next =>
      cases done
      exact Changes.refl looked
  obtain ⟨changes, _, gone⟩ := steps.gone release (tableArea_subset.trans Set.subset_union_left)
  have writes := (@ataWriteSector_changes released (v.rootStart + found.sectorIndex)
    (deletedEntry found.sector found.slot)).mono (sectorArea_subset_rootArea steps.foundIn.sectorIndex)
  rw [steps.writes] at writes
  have nodes := gone.nodes steps.foundIn.index steps.first.1 fun earlier upper =>
    (steps.first.2.2 earlier upper).1
  rw [isNode] at nodes
  exact ⟨(changes.mono Set.subset_union_left).trans (writes.mono Set.subset_union_right), nodes⟩

end Directory

end Szczupak
