import Szczupak.Lib.Transition
import Szczupak.Fs.Fat16Disk

/-!
The root directory as a table of slots.  The scans of the driver go over it sector by sector;
their results are stated for the slots of the whole table.
-/

namespace Szczupak

def rootMem (v : Volume) (bytes : Mem) : Mem := fun index => bytes (v.rootStart * 512 + index)

def Volume.rootSlots (v : Volume) : Nat := v.rootSectors * 16

def sectorOf (root : Mem) (sectorIndex : Nat) : Mem := fun index => root (sectorIndex * 512 + index)

structure SameEntry (root other : Mem) (slot : Nat) : Prop where
  first : other (slot * 32) = root (slot * 32)
  name : entryName other slot = entryName root slot
  attr : entryAttr other slot = entryAttr root slot
  cluster : entryCluster other slot = entryCluster root slot
  size : entrySize other slot = entrySize root slot

section Entries

variable {root other : Mem} {slot : Nat}

theorem SameEntry.of_bytes
    (same : ∀ index, slot * 32 ≤ index → index < slot * 32 + 32 → other index = root index) :
    SameEntry root other slot := by
  constructor
  · exact same _ (Nat.le_refl _) (by omega)
  · exact Mem.read_congr fun index _ => same _ (by omega) (by omega)
  · exact same _ (by omega) (by omega)
  · exact Mem.readLE_congr fun index _ => same _ (by omega) (by omega)
  · exact Mem.readLE_congr fun index _ => same _ (by omega) (by omega)

theorem SameEntry.trans {last : Mem} (first : SameEntry root other slot)
    (second : SameEntry other last slot) : SameEntry root last slot :=
  ⟨second.first.trans first.first, second.name.trans first.name, second.attr.trans first.attr,
    second.cluster.trans first.cluster, second.size.trans first.size⟩

theorem SameEntry.free (same : SameEntry root other slot) :
    entryFree other slot = entryFree root slot := by
  rw [entryFree, entryFree, same.first]

theorem SameEntry.live (same : SameEntry root other slot) :
    entryLive other slot = entryLive root slot := by
  rw [entryLive, entryLive, same.free, same.attr]

theorem entry_sectorOf {sectorIndex : Nat} :
    sectorOf root sectorIndex (slot * 32) = root ((sectorIndex * 16 + slot) * 32) ∧
    entryName (sectorOf root sectorIndex) slot = entryName root (sectorIndex * 16 + slot) ∧
    entryAttr (sectorOf root sectorIndex) slot = entryAttr root (sectorIndex * 16 + slot) ∧
    entryCluster (sectorOf root sectorIndex) slot = entryCluster root (sectorIndex * 16 + slot) ∧
    entrySize (sectorOf root sectorIndex) slot = entrySize root (sectorIndex * 16 + slot) := by
  have address : ∀ offset, sectorIndex * 512 + (slot * 32 + offset) =
    (sectorIndex * 16 + slot) * 32 + offset := by
    intro offset
    omega
  refine ⟨?_, ?_, ?_, ?_, ?_⟩
  · exact congrArg root (address 0)
  · rw [entryName, entryName, Mem.read, Mem.read]
    refine List.map_congr_left fun index _ => ?_
    rw [sectorOf, address]
  · exact congrArg root (address 11)
  · rw [entryCluster, entryCluster, ← address 26]
    exact root.readLE_window (sectorIndex * 512) (slot * 32 + 26) 2
  · rw [entrySize, entrySize, ← address 28]
    exact root.readLE_window (sectorIndex * 512) (slot * 32 + 28) 4

theorem entryFree_sectorOf {sectorIndex : Nat} :
    entryFree (sectorOf root sectorIndex) slot = entryFree root (sectorIndex * 16 + slot) := by
  rw [entryFree, entryFree, entry_sectorOf.1]

theorem entryLive_sectorOf {sectorIndex : Nat} :
    entryLive (sectorOf root sectorIndex) slot = entryLive root (sectorIndex * 16 + slot) := by
  rw [entryLive, entryLive, entryFree_sectorOf, entry_sectorOf.2.2.1]

theorem entryLive_not_free (live : entryLive root slot = true) : entryFree root slot = false := by
  rw [entryLive, Bool.and_eq_true, Bool.not_eq_true'] at live
  exact live.1

end Entries

section NewEntry

variable {sector : Mem} {slot cluster : Nat} {name83 : List UInt8} {attr : UInt8}

theorem newEntry_outside {index : Nat} (eleven : name83.length = 11)
    (outside : index < slot * 32 ∨ slot * 32 + 32 ≤ index) :
    newEntry sector slot name83 attr cluster index = sector index := by
  rw [newEntry, Mem.writeU16, Mem.writeLE_outside _ (by omega), Mem.set_other _ _ (by omega),
    Mem.store_outside _ (by omega), Mem.fill_outside _ _ (by omega)]

theorem newEntry_name (eleven : name83.length = 11) :
    entryName (newEntry sector slot name83 attr cluster) slot = name83 := by
  have stored := Mem.read_store_same (sector.fill (slot * 32) 32 0) (slot * 32) name83
  rw [eleven] at stored
  rw [entryName]
  refine Eq.trans (Mem.read_congr fun index bound => ?_) stored
  rw [newEntry, Mem.writeU16, Mem.writeLE_outside _ (by omega), Mem.set_other _ _ (by omega)]

theorem newEntry_attr : entryAttr (newEntry sector slot name83 attr cluster) slot = attr := by
  rw [entryAttr, newEntry, Mem.writeU16, Mem.writeLE_outside _ (by omega), Mem.set_same]

theorem newEntry_cluster (small : cluster < 65536) :
    entryCluster (newEntry sector slot name83 attr cluster) slot = cluster := by
  rw [entryCluster, newEntry, Mem.readU16, Mem.writeU16, Mem.readLE_writeLE_same]
  exact Nat.mod_eq_of_lt small

theorem newEntry_size (eleven : name83.length = 11) :
    entrySize (newEntry sector slot name83 attr cluster) slot = 0 := by
  refine Mem.readLE_zero fun offset bound => ?_
  rw [newEntry, Mem.writeU16, Mem.writeLE_outside _ (by omega), Mem.set_other _ _ (by omega),
    Mem.store_outside _ (by omega), Mem.fill_inside _ _ (by omega) (by omega)]

theorem deletedEntry_outside {index : Nat} (outside : index < slot * 32 ∨ slot * 32 + 32 ≤ index) :
    deletedEntry sector slot index = sector index := by
  rw [deletedEntry, Mem.writeU32, Mem.writeLE_outside _ (by omega), Mem.writeU16,
    Mem.writeLE_outside _ (by omega), Mem.writeU16, Mem.writeLE_outside _ (by omega),
    Mem.set_other _ _ (by omega), Mem.set_other _ _ (by omega)]

theorem deletedEntry_first : deletedEntry sector slot (slot * 32) = 0xE5 := by
  rw [deletedEntry, Mem.writeU32, Mem.writeLE_outside _ (by omega), Mem.writeU16,
    Mem.writeLE_outside _ (by omega), Mem.writeU16, Mem.writeLE_outside _ (by omega),
    Mem.set_other _ _ (by omega), Mem.set_same]

theorem padded_length {width : Nat} {bytes : List UInt8} (short : bytes.length ≤ width) :
    (padded width bytes).length = width := by
  rw [padded, List.length_append, List.length_replicate]
  omega

theorem fat16NameTo83_length (filename : List UInt8) : (fat16NameTo83 filename).length = 11 := by
  rw [fat16NameTo83, List.length_append, padded_length, padded_length]
  · rw [List.length_map]
    split
    · rw [List.length_take]
      omega
    · exact Nat.zero_le _
  · rw [List.length_map, List.length_take]
    omega

end NewEntry

section Scans

variable {sector : Mem} {name83 : List UInt8} {v : Volume} {d after : Disk}
  {remaining sectorIndex : Nat}

theorem scanSlots_free {remaining start slot : Nat}
    (scanned : scanSlots sector name83 remaining start = .free slot) :
    start ≤ slot ∧ slot < start + remaining ∧ entryFree sector slot = true ∧
      ∀ earlier, start ≤ earlier → earlier < slot → entryFree sector earlier = false ∧
        ¬(entryLive sector earlier = true ∧ entryName sector earlier = name83) := by
  induction remaining generalizing start with
  | zero => cases scanned
  | succ remaining ih =>
      rw [scanSlots] at scanned
      split at scanned
      next => cases scanned
      next other =>
        split at scanned
        next free =>
          cases scanned
          exact ⟨Nat.le_refl _, by omega, free, fun earlier lower upper => by omega⟩
        next taken =>
          obtain ⟨lower, upper, free, before⟩ := ih scanned
          refine ⟨by omega, by omega, free, fun earlier first last => ?_⟩
          rcases Nat.eq_or_lt_of_le first with rfl | later
          · exact ⟨by simpa using taken, other⟩
          · exact before earlier later last

theorem scanSlots_full {remaining start : Nat}
    (scanned : scanSlots sector name83 remaining start = .full) :
    ∀ slot, start ≤ slot → slot < start + remaining → entryFree sector slot = false ∧
      ¬(entryLive sector slot = true ∧ entryName sector slot = name83) := by
  induction remaining generalizing start with
  | zero =>
      intro slot lower upper
      omega
  | succ remaining ih =>
      rw [scanSlots] at scanned
      split at scanned
      next => cases scanned
      next other =>
        split at scanned
        next => cases scanned
        next taken =>
          intro slot lower upper
          rcases Nat.eq_or_lt_of_le lower with rfl | later
          · exact ⟨by simpa using taken, other⟩
          · exact ih scanned slot later (by omega)

def FoundSlot.index (found : FoundSlot) : Nat := found.sectorIndex * 16 + found.slot

theorem sector_rootMem (v : Volume) (d : Disk) (sectorIndex : Nat) :
    d.sector (v.rootStart + sectorIndex) = sectorOf (rootMem v d.bytes) sectorIndex := by
  funext index
  have address : (v.rootStart + sectorIndex) * 512 + index =
      v.rootStart * 512 + (sectorIndex * 512 + index) := by
    rw [Nat.add_mul, Nat.add_assoc]
  rw [Disk.sector, sectorOf, rootMem, address]

structure FoundIn (v : Volume) (d after : Disk) (found : FoundSlot) : Prop where
  sectorIndex : found.sectorIndex < v.rootSectors
  slot : found.slot < 16
  sector : found.sector = sectorOf (rootMem v d.bytes) found.sectorIndex
  same : Changes ∅ d after

theorem FoundIn.index {found : FoundSlot} (foundIn : FoundIn v d after found) :
    found.index < v.rootSlots := by
  have sectorIndex := foundIn.sectorIndex
  have slot := foundIn.slot
  rw [FoundSlot.index, Volume.rootSlots]
  omega

theorem scanRoot_changes :
    Changes ∅ d (scanRoot v name83 remaining sectorIndex d).2 := by
  induction remaining generalizing sectorIndex d with
  | zero => exact Changes.refl d
  | succ remaining ih =>
      rw [scanRoot]
      have reads := @ataReadSector_changes d ∅ (v.rootStart + sectorIndex)
      split
      next failed => rwa [failed] at reads
      next got =>
        rw [got] at reads
        split
        · exact reads
        · exact reads
        · exact reads.trans ih

theorem scanRoot_found {found : FoundSlot} (range : sectorIndex + remaining = v.rootSectors)
    (scanned : scanRoot v name83 remaining sectorIndex d = (some found, after)) :
    FoundIn v d after found ∧ entryFree (rootMem v d.bytes) found.index = true ∧
      ∀ slot, sectorIndex * 16 ≤ slot → slot < found.index →
        entryFree (rootMem v d.bytes) slot = false ∧
        ¬(entryLive (rootMem v d.bytes) slot = true ∧ entryName (rootMem v d.bytes) slot = name83) := by
  induction remaining generalizing sectorIndex d with
  | zero => cases scanned
  | succ remaining ih =>
      have changes := @ataReadSector_changes d ∅ (v.rootStart + sectorIndex)
      rw [scanRoot] at scanned
      split at scanned
      next => cases scanned
      next sector middle got =>
        rw [got] at changes
        have bytes : middle.bytes = d.bytes := changes.none
        obtain ⟨isSector, _⟩ := ataReadSector_some got
        rw [sector_rootMem] at isSector
        split at scanned
        next => cases scanned
        next slot free =>
          cases scanned
          obtain ⟨_, small, isFree, before⟩ := scanSlots_free free
          rw [isSector] at isFree before
          rw [entryFree_sectorOf] at isFree
          refine ⟨⟨show sectorIndex < v.rootSectors by omega, show slot < 16 by
            omega, isSector, changes⟩, isFree, fun earlier lower upper => ?_⟩
          have upper : earlier < sectorIndex * 16 + slot := upper
          have within := before (earlier - sectorIndex * 16) (Nat.zero_le _) (by omega)
          rw [entryFree_sectorOf, entryLive_sectorOf, entry_sectorOf.2.1,
            Nat.add_sub_cancel' lower] at within
          exact within
        next full =>
          have none := scanSlots_full full
          rw [isSector] at none
          obtain ⟨foundIn, free, before⟩ := ih (by omega) scanned
          rw [bytes] at free before
          refine ⟨⟨foundIn.sectorIndex, foundIn.slot, bytes ▸ foundIn.sector,
            changes.trans foundIn.same⟩, free, fun earlier lower upper => ?_⟩
          by_cases inside : earlier < (sectorIndex + 1) * 16
          · have within := none (earlier - sectorIndex * 16) (Nat.zero_le _) (by omega)
            rw [entryFree_sectorOf, entryLive_sectorOf, entry_sectorOf.2.1,
              Nat.add_sub_cancel' lower] at within
            exact within
          · exact before earlier (by omega) upper

theorem findSlots_found {remaining start slot : Nat}
    (scanned : findSlots sector name83 remaining start = .found slot) :
    start ≤ slot ∧ slot < start + remaining ∧ entryLive sector slot = true ∧
      entryName sector slot = name83 ∧ ∀ earlier, start ≤ earlier → earlier < slot →
        sector (earlier * 32) ≠ 0 ∧
        ¬(entryLive sector earlier = true ∧ entryName sector earlier = name83) := by
  induction remaining generalizing start with
  | zero => cases scanned
  | succ remaining ih =>
      rw [findSlots] at scanned
      split at scanned
      next => cases scanned
      next notEnd =>
        split at scanned
        next dead =>
          obtain ⟨lower, upper, live, name, before⟩ := ih scanned
          refine ⟨by omega, by omega, live, name, fun earlier first last => ?_⟩
          rcases Nat.eq_or_lt_of_le first with rfl | later
          · refine ⟨notEnd, fun both => ?_⟩
            rcases dead with deleted | longName
            · simp [entryLive, entryFree, deleted] at both
            · simp [entryLive, longName] at both
          · exact before earlier later last
        next alive =>
          rw [not_or] at alive
          split at scanned
          next same =>
            cases scanned
            refine ⟨Nat.le_refl _, by omega, ?_, same, fun earlier lower upper => by omega⟩
            simp [entryLive, entryFree, notEnd, alive]
          next different =>
            obtain ⟨lower, upper, live, name, before⟩ := ih scanned
            refine ⟨by omega, by omega, live, name, fun earlier first last => ?_⟩
            rcases Nat.eq_or_lt_of_le first with rfl | later
            · exact ⟨notEnd, fun both => different both.2⟩
            · exact before earlier later last

theorem findSlots_full {remaining start : Nat}
    (scanned : findSlots sector name83 remaining start = .full) :
    ∀ slot, start ≤ slot → slot < start + remaining → sector (slot * 32) ≠ 0 ∧
      ¬(entryLive sector slot = true ∧ entryName sector slot = name83) := by
  induction remaining generalizing start with
  | zero =>
      intro slot lower upper
      omega
  | succ remaining ih =>
      rw [findSlots] at scanned
      intro slot lower upper
      split at scanned
      next => cases scanned
      next notEnd =>
        split at scanned
        next dead =>
          rcases Nat.eq_or_lt_of_le lower with rfl | later
          · refine ⟨notEnd, fun both => ?_⟩
            rcases dead with deleted | longName
            · simp [entryLive, entryFree, deleted] at both
            · simp [entryLive, longName] at both
          · exact ih scanned slot later (by omega)
        next alive =>
          split at scanned
          next => cases scanned
          next different =>
            rcases Nat.eq_or_lt_of_le lower with rfl | later
            · exact ⟨notEnd, fun both => different both.2⟩
            · exact ih scanned slot later (by omega)

theorem findRoot_changes :
    Changes ∅ d (findRoot v name83 remaining sectorIndex d).2 := by
  induction remaining generalizing sectorIndex d with
  | zero => exact Changes.refl d
  | succ remaining ih =>
      rw [findRoot]
      have reads := @ataReadSector_changes d ∅ (v.rootStart + sectorIndex)
      split
      next failed => rwa [failed] at reads
      next got =>
        rw [got] at reads
        split
        · exact reads
        · exact reads
        · exact reads.trans ih

theorem findRoot_found {found : FoundSlot} (range : sectorIndex + remaining = v.rootSectors)
    (scanned : findRoot v name83 remaining sectorIndex d = (some found, after)) :
    FoundIn v d after found ∧ entryLive (rootMem v d.bytes) found.index = true ∧
      entryName (rootMem v d.bytes) found.index = name83 ∧
      ∀ slot, sectorIndex * 16 ≤ slot → slot < found.index →
        rootMem v d.bytes (slot * 32) ≠ 0 ∧
        ¬(entryLive (rootMem v d.bytes) slot = true ∧ entryName (rootMem v d.bytes) slot = name83) := by
  induction remaining generalizing sectorIndex d with
  | zero => cases scanned
  | succ remaining ih =>
      have changes := @ataReadSector_changes d ∅ (v.rootStart + sectorIndex)
      rw [findRoot] at scanned
      split at scanned
      next => cases scanned
      next sector middle got =>
        rw [got] at changes
        have bytes : middle.bytes = d.bytes := changes.none
        obtain ⟨isSector, _⟩ := ataReadSector_some got
        rw [sector_rootMem] at isSector
        split at scanned
        next slot hit =>
          cases scanned
          obtain ⟨_, small, live, name, before⟩ := findSlots_found hit
          rw [isSector] at live name before
          rw [entryLive_sectorOf] at live
          rw [entry_sectorOf.2.1] at name
          refine ⟨⟨show sectorIndex < v.rootSectors by omega, show slot < 16 by
            omega, isSector, changes⟩, live, name, fun earlier lower upper => ?_⟩
          have upper : earlier < sectorIndex * 16 + slot := upper
          have within := before (earlier - sectorIndex * 16) (Nat.zero_le _) (by omega)
          rw [entry_sectorOf.1, entryLive_sectorOf, entry_sectorOf.2.1,
            Nat.add_sub_cancel' lower] at within
          exact within
        next => cases scanned
        next full =>
          have none := findSlots_full full
          rw [isSector] at none
          obtain ⟨foundIn, live, name, before⟩ := ih (by omega) scanned
          rw [bytes] at live name before
          refine ⟨⟨foundIn.sectorIndex, foundIn.slot, bytes ▸ foundIn.sector,
            changes.trans foundIn.same⟩, live, name, fun earlier lower upper => ?_⟩
          by_cases inside : earlier < (sectorIndex + 1) * 16
          · have within := none (earlier - sectorIndex * 16) (Nat.zero_le _) (by omega)
            rw [entry_sectorOf.1, entryLive_sectorOf, entry_sectorOf.2.1,
              Nat.add_sub_cancel' lower] at within
            exact within
          · exact before earlier (by omega) upper

end Scans

section Writes

variable {v : Volume} {d after : Disk}

theorem Changes.rootMem {area : Set Nat} (changes : Changes area d after)
    (apart : area ⊆ fatArea v ∪ dataArea v) {index : Nat} (bound : index < v.rootSectors * 512) :
    rootMem v after.bytes index = Szczupak.rootMem v d.bytes index := by
  refine changes.bytes _ fun member => ?_
  have last : v.dataStart * 512 = v.rootStart * 512 + v.rootSectors * 512 :=
    Nat.add_mul v.rootStart v.rootSectors 512
  rcases apart member with ⟨_, below⟩ | behind
  · exact absurd below (Nat.not_lt.mpr (Nat.le_add_right _ _))
  · have behind : v.dataStart * 512 ≤ v.rootStart * 512 + index := behind
    rw [last] at behind
    exact absurd bound (Nat.not_lt.mpr (Nat.le_of_add_le_add_left behind))

theorem FoundIn.sector_later {looked middle written : Disk} {found : FoundSlot} {area : Set Nat}
    (foundIn : FoundIn v d looked found) (between : Changes area middle written)
    (apart : area ⊆ fatArea v ∪ dataArea v) (bytes : middle.bytes = d.bytes) :
    ∀ index < 512, found.sector index = sectorOf (rootMem v written.bytes) found.sectorIndex index := by
  intro index bound
  have row := foundIn.sectorIndex
  have inRoot : found.sectorIndex * 512 + index < v.rootSectors * 512 := by omega
  rw [foundIn.sector, sectorOf, sectorOf, between.rootMem apart inRoot, bytes]

theorem Changes.sameEntry {area : Set Nat} (changes : Changes area d after)
    (apart : area ⊆ fatArea v ∪ dataArea v) {slot : Nat} (bound : slot < v.rootSlots) :
    SameEntry (Szczupak.rootMem v d.bytes) (Szczupak.rootMem v after.bytes) slot := by
  rw [Volume.rootSlots] at bound
  exact SameEntry.of_bytes fun index _ upper => changes.rootMem apart (by omega)

def slotArea (v : Volume) (slot : Nat) : Set Nat :=
  { address | v.rootStart * 512 + slot * 32 ≤ address ∧ address < v.rootStart * 512 + (slot * 32 + 32) }

theorem overwrite_slot {sector : Mem} {sectorIndex slot : Nat}
    (outside : ∀ index < 512, index < slot * 32 ∨ slot * 32 + 32 ≤ index →
      sector index = sectorOf (rootMem v d.bytes) sectorIndex index) (small : slot < 16) :
    (∀ address, address ∉ slotArea v (sectorIndex * 16 + slot) →
      d.overwrite (v.rootStart + sectorIndex) sector address = d.bytes address) ∧
    SameEntry (sectorOf (rootMem v (d.overwrite (v.rootStart + sectorIndex) sector)) sectorIndex)
      sector slot := by
  have base : (v.rootStart + sectorIndex) * 512 = v.rootStart * 512 + sectorIndex * 512 :=
    Nat.add_mul v.rootStart sectorIndex 512
  constructor
  · intro address apart
    simp only [Disk.overwrite, base]
    split
    next inside =>
      have back : v.rootStart * 512 +
          (sectorIndex * 512 + (address - (v.rootStart * 512 + sectorIndex * 512))) = address := by
        rw [← Nat.add_assoc]
        exact Nat.add_sub_cancel' inside.1
      have notHere : address - (v.rootStart * 512 + sectorIndex * 512) < slot * 32 ∨
          slot * 32 + 32 ≤ address - (v.rootStart * 512 + sectorIndex * 512) := by
        by_contra here
        exact apart ⟨by omega, by omega⟩
      rw [outside _ (by omega) notHere, sectorOf, rootMem, back]
    next => rfl
  · refine SameEntry.of_bytes fun index lower upper => ?_
    have inside : v.rootStart * 512 + sectorIndex * 512 ≤ v.rootStart * 512 + (sectorIndex * 512 + index) ∧
        v.rootStart * 512 + (sectorIndex * 512 + index) < v.rootStart * 512 + sectorIndex * 512 + 512 := by
      rw [← Nat.add_assoc]
      exact ⟨Nat.le_add_right _ _, Nat.add_lt_add_left (by omega) _⟩
    have shifted : v.rootStart * 512 + (sectorIndex * 512 + index) -
        (v.rootStart * 512 + sectorIndex * 512) = index := by omega
    simp only [sectorOf, rootMem, Disk.overwrite, base]
    rw [if_pos inside, shifted]

theorem Changes.otherEntry {slot other : Nat} (changes : Changes (slotArea v slot) d after)
    (different : other ≠ slot) :
    SameEntry (Szczupak.rootMem v d.bytes) (Szczupak.rootMem v after.bytes) other := by
  refine SameEntry.of_bytes fun index lower upper => changes.bytes _ fun inside => ?_
  have above : v.rootStart * 512 + slot * 32 ≤ v.rootStart * 512 + index := inside.1
  have below : v.rootStart * 512 + index < v.rootStart * 512 + (slot * 32 + 32) := inside.2
  clear changes inside
  rcases Nat.lt_or_gt_of_ne different with before | behind
  · omega
  · omega

theorem slot_changes {sector : Mem} {sectorIndex slot : Nat}
    (outside : ∀ index < 512, index < slot * 32 ∨ slot * 32 + 32 ≤ index →
      sector index = sectorOf (rootMem v d.bytes) sectorIndex index) (small : slot < 16)
    (put : ataWriteSector d (v.rootStart + sectorIndex) sector = (true, after)) :
    Changes (slotArea v (sectorIndex * 16 + slot)) d after := by
  rw [ataWriteSector_true put]
  exact ⟨(overwrite_slot outside small).1, rfl⟩

structure EntryPut (v : Volume) (root other : Mem) (index : Nat) (name83 : List UInt8)
    (attr : UInt8) (cluster : Nat) : Prop where
  others : ∀ slot < v.rootSlots, slot ≠ index → SameEntry root other slot
  first : other (index * 32) = name83.getD 0 0
  name : entryName other index = name83
  attr : entryAttr other index = attr
  cluster : cluster < 65536 → entryCluster other index = cluster
  size : entrySize other index = 0

theorem entryName_first {root : Mem} {slot : Nat} :
    (entryName root slot).getD 0 0 = root (slot * 32) := by
  simp [entryName, Mem.read]

theorem entryPut_of_write {found : FoundSlot} {name83 : List UInt8} {attr : UInt8} {cluster : Nat}
    (eleven : name83.length = 11) (small : found.slot < 16)
    (sector : ∀ index < 512, found.sector index = sectorOf (rootMem v d.bytes) found.sectorIndex index)
    (put : ataWriteSector d (v.rootStart + found.sectorIndex)
      (newEntry found.sector found.slot name83 attr cluster) = (true, after)) :
    Changes (slotArea v found.index) d after ∧
      EntryPut v (rootMem v d.bytes) (rootMem v after.bytes) found.index name83 attr cluster := by
  have outside : ∀ index < 512, index < found.slot * 32 ∨ found.slot * 32 + 32 ≤ index →
      newEntry found.sector found.slot name83 attr cluster index =
        sectorOf (rootMem v d.bytes) found.sectorIndex index :=
    fun index short outside => (newEntry_outside eleven outside).trans (sector index short)
  have changes := slot_changes outside small put
  obtain ⟨_, here⟩ := overwrite_slot outside small
  have others : ∀ slot < v.rootSlots, slot ≠ found.index →
    SameEntry (rootMem v d.bytes) (rootMem v after.bytes) slot :=
    fun slot _ different => changes.otherEntry different
  refine ⟨changes, ?_⟩
  rw [ataWriteSector_true put] at others ⊢
  obtain ⟨first, name, attr', cluster', size⟩ := @entry_sectorOf
    (rootMem v (d.overwrite (v.rootStart + found.sectorIndex)
      (newEntry found.sector found.slot name83 attr cluster))) found.slot found.sectorIndex
  have nameHere := name.symm.trans (here.name.symm.trans (newEntry_name eleven))
  constructor
  · exact others
  · exact (@entryName_first _ _).symm.trans (congrArg (fun bytes => bytes.getD 0 0) nameHere)
  · exact nameHere
  · exact attr'.symm.trans (here.attr.symm.trans newEntry_attr)
  · exact fun bound => cluster'.symm.trans (here.cluster.symm.trans (newEntry_cluster bound))
  · exact size.symm.trans (here.size.symm.trans (newEntry_size eleven))

structure EntryGone (v : Volume) (root other : Mem) (index : Nat) : Prop where
  others : ∀ slot < v.rootSlots, slot ≠ index → SameEntry root other slot
  first : other (index * 32) = 0xE5

theorem entryGone_of_write {found : FoundSlot} (small : found.slot < 16)
    (sector : ∀ index < 512, found.sector index = sectorOf (rootMem v d.bytes) found.sectorIndex index)
    (put : ataWriteSector d (v.rootStart + found.sectorIndex)
      (deletedEntry found.sector found.slot) = (true, after)) :
    Changes (slotArea v found.index) d after ∧
      EntryGone v (rootMem v d.bytes) (rootMem v after.bytes) found.index := by
  have outside : ∀ index < 512, index < found.slot * 32 ∨ found.slot * 32 + 32 ≤ index →
      deletedEntry found.sector found.slot index = sectorOf (rootMem v d.bytes) found.sectorIndex index :=
    fun index short outside => (deletedEntry_outside outside).trans (sector index short)
  have changes := slot_changes outside small put
  obtain ⟨_, here⟩ := overwrite_slot outside small
  refine ⟨changes, fun slot _ different => changes.otherEntry different, ?_⟩
  rw [ataWriteSector_true put]
  obtain ⟨first, _⟩ := @entry_sectorOf (rootMem v (d.overwrite (v.rootStart + found.sectorIndex)
    (deletedEntry found.sector found.slot))) found.slot found.sectorIndex
  exact first.symm.trans (here.first.symm.trans deletedEntry_first)

end Writes

theorem smallVolume_rootPos : 0 < 16 := by decide

/-- One sector each for the table and the root directory behind a boot sector, and clusters of
one sector. -/
def smallVolume : Volume where
  startLba := 0
  reservedSectors := 1
  sectorsPerCluster := 1
  numFats := 1
  rootEntries := 16
  sectorsPerFat := 1
  clusterPos := Nat.zero_lt_one
  fatsPos := Nat.zero_lt_one
  rootPos := smallVolume_rootPos
  fatPos := Nat.zero_lt_one

def formattedDisk : Disk where
  bytes
    | 12 => 2
    | 13 | 14 | 16 | 22 => 1
    | 17 => 16
    | _ => 0
  faults _ := false
  calls := 0
  allocated := []

end Szczupak
