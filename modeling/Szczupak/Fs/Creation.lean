import Szczupak.Fs.Allocation
import Szczupak.Fs.RootDirectory
import Szczupak.Fs.VfsCore

/-!
What a creation that returns null leaves behind, whatever calls of the ATA layer have failed on
the way.  The entry is written before the heap is asked for the node, and only the table is
put back.
-/

namespace Szczupak

def SameTables (v : Volume) (bytes after : Mem) : Prop :=
  ∀ address, v.fatStart * 512 ≤ address → address < v.dataStart * 512 → after address = bytes address

structure Unchanged (v : Volume) (s after : Vfs) : Prop where
  tables : SameTables v s.disk.bytes after.disk.bytes
  tree : after = { s with disk := after.disk }

def InWords (v : Volume) (cluster copies address : Nat) : Prop :=
  ∃ copy < copies, fatWord v copy cluster ≤ address ∧ address < fatWord v copy cluster + 2

instance (v : Volume) (cluster copies address : Nat) : Decidable (InWords v cluster copies address) :=
  inferInstanceAs (Decidable (∃ copy < copies, _ ∧ _))

/-- The entry already holds these bytes in the first copies, as far as they lie in front of the
data. -/
def WordsHold (v : Volume) (bytes : Mem) (cluster copies : Nat) (value : UInt8) : Prop :=
  ∀ address < v.dataStart * 512, InWords v cluster copies address → bytes address = value

def BothBytes (value : Nat) (byte : UInt8) : Prop :=
  UInt8.ofNat (value % 256) = byte ∧ UInt8.ofNat (value / 256 % 256) = byte

theorem mark_bytes : BothBytes 0xFFFF 0xFF := ⟨rfl, rfl⟩

theorem free_bytes : BothBytes 0 0 := ⟨rfl, rfl⟩

section Words

variable {v : Volume} {bytes after : Mem} {cluster copies copy value address : Nat} {byte : UInt8}

theorem writeU16_twice (both : BothBytes value byte) :
    bytes.writeU16 address value = bytes.fill address 2 byte := by
  funext other
  simp only [Mem.writeU16, Mem.writeLE, Mem.set, Mem.fill, both.1, both.2]
  by_cases second : other = address + 1
  · simp [second]
  · by_cases first : other = address
    · simp [first]
    · have outside : ¬(address ≤ other ∧ other < address + 2) := by omega
      simp [second, first, outside]

theorem fatStored_apart (both : BothBytes value byte)
    (apart : ∀ k < copies, ¬(fatWord v (copy + k) cluster ≤ address ∧
      address < fatWord v (copy + k) cluster + 2)) :
    fatStored v cluster value copies copy bytes address = bytes address := by
  induction copies generalizing copy bytes with
  | zero => rfl
  | succ copies ih =>
      have here : ¬(fatWord v copy cluster ≤ address ∧ address < fatWord v copy cluster + 2) :=
        apart 0 (Nat.succ_pos copies)
      have outside : address < fatWord v copy cluster ∨ fatWord v copy cluster + 2 ≤ address := by omega
      have rest : ∀ k < copies, ¬(fatWord v (copy + 1 + k) cluster ≤ address ∧
          address < fatWord v (copy + 1 + k) cluster + 2) := by
        intro k inside
        have next : copy + 1 + k = copy + (k + 1) := by omega
        rw [next]
        exact apart (k + 1) (by omega)
      rw [fatStored, ih rest, writeU16_twice both, Mem.fill_outside _ _ outside]

theorem fatStored_inside (both : BothBytes value byte)
    (inside : ∃ k < copies, fatWord v (copy + k) cluster ≤ address ∧
      address < fatWord v (copy + k) cluster + 2) :
    fatStored v cluster value copies copy bytes address = byte := by
  induction copies generalizing copy bytes with
  | zero =>
      obtain ⟨k, none, _⟩ := inside
      omega
  | succ copies ih =>
      rw [fatStored]
      by_cases later : ∃ k < copies, fatWord v (copy + 1 + k) cluster ≤ address ∧
          address < fatWord v (copy + 1 + k) cluster + 2
      · exact ih later
      · have here : fatWord v copy cluster ≤ address ∧ address < fatWord v copy cluster + 2 := by
          obtain ⟨k, bound, word⟩ := inside
          cases k with
          | zero => exact word
          | succ k =>
              have next : copy + (k + 1) = copy + 1 + k := by omega
              rw [next] at word
              exact absurd ⟨k, by omega, word⟩ later
        rw [fatStored_apart both fun k bound word => later ⟨k, bound, word⟩,
          writeU16_twice both, Mem.fill_inside _ _ here.1 here.2]

theorem fatWord_behind (inside : InWords v cluster copies address) : v.fatStart * 512 ≤ address := by
  obtain ⟨copy, _, lower, _⟩ := inside
  have start : v.fatStart * 512 ≤ (v.fatStart + copy * v.sectorsPerFat) * 512 :=
    Nat.mul_le_mul_right _ (Nat.le_add_right _ _)
  rw [fatWord] at lower
  exact start.trans (Nat.le_of_add_right_le lower)

theorem sameTables_words
    (inside : ∀ address < v.dataStart * 512, InWords v cluster copies address → after address = byte)
    (outside : ∀ address < v.dataStart * 512, ¬InWords v cluster copies address →
      after address = bytes address) :
    SameTables v bytes after ↔ WordsHold v bytes cluster copies byte := by
  constructor
  · intro same address front word
    rw [← same address (fatWord_behind word) front, inside address front word]
  · intro holds address _ front
    by_cases word : InWords v cluster copies address
    · rw [inside address front word, holds address front word]
    · exact outside address front word

end Words

section Take

variable {v : Volume} {d after : Disk} {cluster : Nat} {run : Nat × Disk}

theorem fill_front {bytes : Mem} {address length : Nat} (front : address < v.dataStart * 512) :
    bytes.fill (clusterBase v cluster) length 0 address = bytes address := by
  have behind : v.dataStart * 512 ≤ clusterBase v cluster := by
    rw [clusterBase_eq]
    exact Nat.le_add_right _ _
  exact Mem.fill_outside _ _ (Or.inl (front.trans_le behind))

section

variable (attempts : AttemptsCluster v d cluster run)
include attempts

theorem AttemptsCluster.inside {address : Nat}
    (front : address < v.dataStart * 512) (word : InWords v cluster (marksDone v d) address) :
    run.2.bytes address = 0xFF := by
  rw [attempts.bytes, fill_front front]
  refine fatStored_inside mark_bytes ?_
  simpa [InWords] using word

theorem AttemptsCluster.outside {address : Nat}
    (front : address < v.dataStart * 512) (apart : ¬InWords v cluster (marksDone v d) address) :
    run.2.bytes address = d.bytes address := by
  rw [attempts.bytes, fill_front front]
  refine fatStored_apart mark_bytes fun k bound word => apart ⟨k, bound, ?_⟩
  simpa only [Nat.zero_add] using word

theorem AttemptsCluster.sameTables :
    SameTables v d.bytes run.2.bytes ↔ WordsHold v d.bytes cluster (marksDone v d) 0xFF :=
  sameTables_words (fun _ front word => attempts.inside front word)
    fun _ front apart => attempts.outside front apart

end

theorem marksDone_full (whole : clearsDone v d = v.sectorsPerCluster) : marksDone v d = v.numFats := by
  have positive := v.clusterPos
  by_contra partly
  have none : clearsDone v d = 0 := if_neg partly
  omega

theorem fat16WriteFatEntry_frees (two : 2 ≤ cluster)
    (clear : ∀ k < 2 * v.numFats, d.faults (d.calls + k) = false) (address : Nat) :
    (InWords v cluster v.numFats address → (fat16WriteFatEntry v d cluster 0).2.bytes address = 0) ∧
      (¬InWords v cluster v.numFats address →
        (fat16WriteFatEntry v d cluster 0).2.bytes address = d.bytes address) := by
  have small : ¬cluster < 2 := by omega
  have stops := @writeFatCopies_stops v d cluster 0 v.numFats 0
  have all : turnsDone d.faults 2 v.numFats d.calls = v.numFats := turnsDone_full.mpr clear
  have bytes := stops.bytes
  rw [all] at bytes
  rw [fat16WriteFatEntry, if_neg small, bytes]
  constructor
  · intro word
    refine fatStored_inside free_bytes ?_
    simpa [InWords] using word
  · intro apart
    refine fatStored_apart free_bytes fun k bound word => apart ⟨k, bound, ?_⟩
    simpa only [Nat.zero_add] using word

end Take

def SlotHolds (v : Volume) (found : FoundSlot) (name83 : List UInt8) (attr : UInt8) (cluster : Nat)
    (apart : Nat → Prop) : Prop :=
  ∀ index < 512, apart ((v.rootStart + found.sectorIndex) * 512 + index) →
    newEntry found.sector found.slot name83 attr cluster index = found.sector index

def putDirectory (v : Volume) (d : Disk) (found : FoundSlot) (name83 : List UInt8) (cluster : Nat)
    (room : Bool) : Option Fat16Node × Disk :=
  match ataWriteSector d (v.rootStart + found.sectorIndex)
      (newEntry found.sector found.slot name83 0x10 cluster) with
  | (false, d) => (none, (fat16WriteFatEntry v d cluster 0).2)
  | (true, d) =>
      if room then (some ⟨createdDirName name83, true, 0, cluster⟩, d)
      else (none, (fat16WriteFatEntry v d cluster 0).2)

section Put

variable {v : Volume} {d start after : Disk} {found : FoundSlot} {name name83 : List UInt8}
  {attr : UInt8} {cluster : Nat} {room : Bool}

theorem fat16CreateDir_scanned (scanned : scanRoot v (fat16NameTo83 name) v.rootSectors 0 d =
    (some found, after)) :
    fat16CreateDir v d name room =
      if (fat16AllocateCluster v after).1 = 0 then (none, (fat16AllocateCluster v after).2)
      else putDirectory v (fat16AllocateCluster v after).2 found (fat16NameTo83 name)
        (fat16AllocateCluster v after).1 room := by
  simp only [fat16CreateDir, scanned]
  cases fat16AllocateCluster v after with
  | mk taken disk => cases taken <;> rfl

theorem fat16CreateDir_unscanned (scanned : scanRoot v (fat16NameTo83 name) v.rootSectors 0 d =
    (none, after)) : fat16CreateDir v d name room = (none, after) := by
  simp only [fat16CreateDir, scanned]

theorem root_address (foundIn : FoundIn v start after found) {index : Nat} (inside : index < 512) :
    v.fatStart * 512 ≤ (v.rootStart + found.sectorIndex) * 512 + index ∧
      (v.rootStart + found.sectorIndex) * 512 + index < v.dataStart * 512 := by
  have below := foundIn.sectorIndex
  have lower : v.fatStart ≤ v.rootStart + found.sectorIndex := by
    rw [Volume.rootStart]
    omega
  have upper : v.rootStart + found.sectorIndex + 1 ≤ v.dataStart := by
    rw [Volume.dataStart]
    omega
  generalize v.rootStart + found.sectorIndex = lba at lower upper
  have upperBytes := Nat.mul_le_mul_right 512 upper
  rw [Nat.succ_mul] at upperBytes
  constructor
  · exact (Nat.mul_le_mul_right 512 lower).trans (Nat.le_add_right _ _)
  · exact (Nat.add_lt_add_left inside _).trans_le upperBytes

theorem found_sector (foundIn : FoundIn v start after found) {index : Nat} :
    found.sector index = start.bytes ((v.rootStart + found.sectorIndex) * 512 + index) := by
  rw [foundIn.sector, sectorOf, rootMem, Nat.add_mul, Nat.add_assoc]

theorem sameTables_entry (foundIn : FoundIn v start d found) {final : Mem} {word : Nat → Prop}
    (freed : ∀ address < v.dataStart * 512, word address → final address = 0)
    (entry : ∀ index < 512, ¬word ((v.rootStart + found.sectorIndex) * 512 + index) →
      final ((v.rootStart + found.sectorIndex) * 512 + index) =
        newEntry found.sector found.slot name83 attr cluster index)
    (outside : ∀ address < v.dataStart * 512, ¬word address →
      ¬((v.rootStart + found.sectorIndex) * 512 ≤ address ∧
        address < (v.rootStart + found.sectorIndex) * 512 + 512) → final address = start.bytes address)
    (behind : ∀ address, word address → v.fatStart * 512 ≤ address) :
    SameTables v start.bytes final ↔
      (∀ address < v.dataStart * 512, word address → start.bytes address = 0) ∧
        SlotHolds v found name83 attr cluster fun address => ¬word address := by
  constructor
  · intro same
    constructor
    · intro address front isWord
      rw [← same address (behind address isWord) front, freed address front isWord]
    · intro index inside apart
      obtain ⟨lower, upper⟩ := root_address foundIn inside
      rw [← entry index inside apart, same _ lower upper, found_sector foundIn]
  · rintro ⟨zeros, holds⟩ address lower front
    by_cases isWord : word address
    · rw [freed address front isWord, zeros address front isWord]
    · by_cases here : (v.rootStart + found.sectorIndex) * 512 ≤ address ∧
          address < (v.rootStart + found.sectorIndex) * 512 + 512
      · obtain ⟨index, rfl⟩ := Nat.exists_eq_add_of_le here.1
        have inside : index < 512 := by omega
        rw [entry index inside isWord, holds index inside isWord, found_sector foundIn]
      · exact outside address front isWord here

theorem apply_inside {bytes : Mem} {lba : Nat} {sector : Mem} {index : Nat} (inside : index < 512) :
    SectorWrite.apply bytes ⟨lba, sector⟩ (lba * 512 + index) = sector index := by
  have here : lba * 512 ≤ lba * 512 + index ∧ lba * 512 + index < lba * 512 + 512 := by omega
  simp only [SectorWrite.apply, if_pos here, Nat.add_sub_cancel_left]

theorem apply_outside {bytes : Mem} {lba : Nat} {sector : Mem} {address : Nat}
    (outside : ¬(lba * 512 ≤ address ∧ address < lba * 512 + 512)) :
    SectorWrite.apply bytes ⟨lba, sector⟩ address = bytes address := if_neg outside

theorem sameTables_sector (foundIn : FoundIn v start d found) :
    SameTables v start.bytes (SectorWrite.apply start.bytes
        ⟨v.rootStart + found.sectorIndex, newEntry found.sector found.slot name83 attr cluster⟩) ↔
      SlotHolds v found name83 attr cluster fun _ => True := by
  have entry := @sameTables_entry v d start found name83 attr cluster foundIn
    (SectorWrite.apply start.bytes
      ⟨v.rootStart + found.sectorIndex, newEntry found.sector found.slot name83 attr cluster⟩)
    (fun _ => False) (fun _ _ none => none.elim) (fun _ inside _ => apply_inside inside)
    (fun _ _ _ outside => apply_outside outside) (fun _ none => none.elim)
  simpa [SlotHolds] using entry

end Put

def FileAtomic (v : Volume) (s : Vfs) (parent : Nat) (name : List UInt8) (block : Nat) : Prop :=
  s.fat16Root parent = true → ∀ found after,
    scanRoot v (fat16NameTo83 name) v.rootSectors 0 s.disk = (some found, after) →
      after.faults after.calls = true ∨ s.kmalloc block ≠ 0 ∨
        SlotHolds v found (fat16NameTo83 name) 0x20 0 fun _ => True

section File

variable {v : Volume} {s : Vfs} {parent block : Nat} {name : List UInt8}

theorem unchanged_disk {disk : Disk} (same : SameTables v s.disk.bytes disk.bytes) :
    Unchanged v s { s with disk } := ⟨same, rfl⟩

theorem sameTables_of_changes {v : Volume} {d after : Disk} (changes : Changes ∅ d after) :
    SameTables v d.bytes after.bytes := fun address _ _ => congrFun changes.none address

theorem link_atomic {made : Option Fat16Node × Disk} :
    ((s.fat16Link parent block made).1 = none → Unchanged v s (s.fat16Link parent block made).2) ↔
      (made.1 = none → SameTables v s.disk.bytes made.2.bytes) := by
  obtain ⟨node, disk⟩ := made
  cases node with
  | none => exact ⟨fun unchanged _ => (unchanged rfl).tables,
    fun tables _ => unchanged_disk (tables rfl)⟩
  | some node => simp [Vfs.fat16Link]

theorem fat16CreateFileNode_atomic :
    ((s.fat16CreateFileNode v parent name block).1 = none →
      Unchanged v s (s.fat16CreateFileNode v parent name block).2) ↔
      FileAtomic v s parent name block := by
  rw [Vfs.fat16CreateFileNode]
  cases root : s.fat16Root parent with
  | false => exact ⟨fun _ isRoot => absurd (root.symm.trans isRoot) Bool.false_ne_true,
      fun _ _ => ⟨fun _ _ _ => rfl, rfl⟩⟩
  | true =>
      simp only [if_true, link_atomic, fat16CreateFile]
      cases scanned : scanRoot v (fat16NameTo83 name) v.rootSectors 0 s.disk with
      | mk scan after =>
          have same := @scanRoot_changes (fat16NameTo83 name) v s.disk v.rootSectors 0
          rw [scanned] at same
          cases scan with
          | none =>
              constructor
              · rintro _ _ found other again
                rw [scanned] at again
                cases again
              · exact fun _ _ => sameTables_of_changes same
          | some found =>
              obtain ⟨foundIn, _⟩ := scanRoot_found (Nat.zero_add _) scanned
              have only : FileAtomic v s parent name block ↔
                  (after.faults after.calls = true ∨ s.kmalloc block ≠ 0 ∨
                    SlotHolds v found (fat16NameTo83 name) 0x20 0 fun _ => True) := by
                constructor
                · exact fun atomic => atomic root found after scanned
                · intro holds _ other disk again
                  rw [scanned] at again
                  cases again
                  exact holds
              rw [only]
              have bytes : after.bytes = s.disk.bytes := same.none
              cases fails : after.faults after.calls with
              | true =>
                  simp only [ataWriteSector_fault fails, true_or, iff_true]
                  exact fun _ => sameTables_of_changes (same.trans called_changes)
              | false =>
                  simp only [ataWriteSector_clear fails, Bool.false_eq_true, false_or]
                  by_cases room : s.kmalloc block = 0
                  · simp only [room, bne_self_eq_false, Bool.false_eq_true, if_false, ne_eq,
                      not_true_eq_false, false_or, true_implies, bytes]
                    exact sameTables_sector foundIn
                  · have has : (s.kmalloc block != 0) = true := by simpa using room
                    simp [has, room]

end File

def entryCall (v : Volume) (d : Disk) (cluster : Nat) : Nat :=
  d.calls + (cluster - 1) + 2 * v.numFats + v.sectorsPerCluster

/-- Where the entry cannot be written, or there is no room for the node, the calls that give the
cluster up again do not fail. -/
def UndoSucceeds (v : Volume) (s : Vfs) (parent : Nat) (name : List UInt8) (block : Nat) : Prop :=
  s.fat16Root parent = true → ∀ found after cluster,
    scanRoot v (fat16NameTo83 name) v.rootSectors 0 s.disk = (some found, after) →
      FirstCandidate v after cluster →
      clearsDone v (after.later (cluster - 1)) = v.sectorsPerCluster →
      after.faults (entryCall v after cluster) = true ∨ s.kmalloc block = 0 →
        ∀ k < 2 * v.numFats, after.faults (entryCall v after cluster + 1 + k) = false

/-- What is left is what was there, by how far the creation has come. -/
def LeavesDirectory (v : Volume) (d : Disk) (found : FoundSlot) (name83 : List UInt8)
    (cluster : Nat) (room : Prop) : Prop :=
  if clearsDone v (d.later (cluster - 1)) ≠ v.sectorsPerCluster then
    WordsHold v d.bytes cluster (marksDone v (d.later (cluster - 1))) 0xFF
  else if d.faults (entryCall v d cluster) = true then WordsHold v d.bytes cluster v.numFats 0
  else room ∨ WordsHold v d.bytes cluster v.numFats 0 ∧
    SlotHolds v found name83 0x10 cluster fun address => ¬InWords v cluster v.numFats address

def DirectoryAtomic (v : Volume) (s : Vfs) (parent : Nat) (name : List UInt8) (block : Nat) : Prop :=
  s.fat16Root parent = true → ∀ found after cluster,
    scanRoot v (fat16NameTo83 name) v.rootSectors 0 s.disk = (some found, after) →
      FirstCandidate v after cluster →
        LeavesDirectory v after found (fat16NameTo83 name) cluster (s.kmalloc block ≠ 0)

section Directory

variable {v : Volume} {d start : Disk} {s : Vfs} {found : FoundSlot} {parent block cluster : Nat}
  {name name83 : List UInt8} {room : Bool}

theorem putDirectory_atomic (foundIn : FoundIn v start d found) (first : FirstCandidate v d cluster)
    (whole : clearsDone v (d.later (cluster - 1)) = v.sectorsPerCluster)
    (undo : d.faults (entryCall v d cluster) = true ∨ room = false →
      ∀ k < 2 * v.numFats, d.faults (entryCall v d cluster + 1 + k) = false) {run : Nat × Disk}
    (attempts : AttemptsCluster v (d.later (cluster - 1)) cluster run) :
    ((putDirectory v run.2 found name83 cluster room).1 = none →
      SameTables v start.bytes (putDirectory v run.2 found name83 cluster room).2.bytes) ↔
      LeavesDirectory v d found name83 cluster (room = true) := by
  have calls : run.2.calls = entryCall v d cluster := attempts.calls whole
  have faults : run.2.faults = d.faults := attempts.faults
  have bytes : d.bytes = start.bytes := foundIn.same.none
  have marks := marksDone_full whole
  have outside {address : Nat} (front : address < v.dataStart * 512)
      (apart : ¬InWords v cluster v.numFats address) : run.2.bytes address = start.bytes address := by
    rw [← bytes]
    exact attempts.outside front (marks.symm ▸ apart)
  simp only [LeavesDirectory, whole, ne_eq, not_true_eq_false, if_false]
  have undone (disk : Disk) (stops : d.faults (entryCall v d cluster) = true ∨ room = false)
      (itsFaults : disk.faults = d.faults) (itsCalls : disk.calls = entryCall v d cluster + 1)
      (address : Nat) :=
    @fat16WriteFatEntry_frees v disk cluster first.two
      (fun k inside => by rw [itsFaults, itsCalls]; exact undo stops k inside) address
  cases fails : d.faults (entryCall v d cluster) with
  | true =>
      have stops : run.2.faults run.2.calls = true := by rw [calls, faults, fails]
      have frees := undone run.2.called (Or.inl fails) faults (congrArg (· + 1) calls)
      simp only [putDirectory, ataWriteSector_fault stops, if_true, true_implies]
      rw [bytes]
      refine sameTables_words (fun address _ word => (frees address).1 word) fun address front apart => ?_
      rw [(frees address).2 apart]
      exact outside front apart
  | false =>
      have goes : run.2.faults run.2.calls = false := by rw [calls, faults, fails]
      simp only [putDirectory, ataWriteSector_clear goes, Bool.false_eq_true, if_false]
      cases room with
      | true => simp
      | false =>
          simp only [Bool.false_eq_true, if_false, false_or, true_implies]
          have frees := undone { run.2.called with
            bytes := SectorWrite.apply run.2.bytes ⟨v.rootStart + found.sectorIndex,
              newEntry found.sector found.slot name83 0x10 cluster⟩ } (Or.inr rfl) faults
              (congrArg (· + 1) calls)
          have entry := @sameTables_entry v d start found name83 0x10 cluster foundIn _
            (InWords v cluster v.numFats) (fun address _ word => (frees address).1 word)
            (fun index inside apart => ((frees _).2 apart).trans (apply_inside inside))
            (fun address front apart away => ((frees address).2 apart).trans
              ((apply_outside away).trans (outside front apart)))
            (fun address word => fatWord_behind word)
          rw [bytes]
          exact entry

theorem FirstCandidate.unique {other : Nat} (first : FirstCandidate v d cluster)
    (again : FirstCandidate v d other) : other = cluster := by
  rcases Nat.lt_trichotomy other cluster with before | same | behind
  · exact absurd again.looks (first.earlier other again.two before)
  · exact same
  · exact absurd first.looks (again.earlier cluster first.two behind)

theorem fat16CreateDir_atomic (undo : ∀ cluster, FirstCandidate v d cluster →
      clearsDone v (d.later (cluster - 1)) = v.sectorsPerCluster →
      d.faults (entryCall v d cluster) = true ∨ room = false →
        ∀ k < 2 * v.numFats, d.faults (entryCall v d cluster + 1 + k) = false)
    (scanned : scanRoot v (fat16NameTo83 name) v.rootSectors 0 start = (some found, d)) :
    ((fat16CreateDir v start name room).1 = none →
      SameTables v start.bytes (fat16CreateDir v start name room).2.bytes) ↔
      ∀ cluster, FirstCandidate v d cluster →
        LeavesDirectory v d found (fat16NameTo83 name) cluster (room = true) := by
  obtain ⟨foundIn, _⟩ := scanRoot_found (Nat.zero_add _) scanned
  have bytes : d.bytes = start.bytes := foundIn.same.none
  rw [fat16CreateDir_scanned scanned]
  rcases candidate_or_exhausted v d with ⟨cluster, first⟩ | none
  · have two := first.two
    have attempts := @takeCluster_attempts v (d.later (cluster - 1)) cluster two
    have only : (∀ other, FirstCandidate v d other →
        LeavesDirectory v d found (fat16NameTo83 name) other (room = true)) ↔
          LeavesDirectory v d found (fat16NameTo83 name) cluster (room = true) := by
      constructor
      · exact fun all => all cluster first
      · intro leaves other again
        rw [first.unique again]
        exact leaves
    rw [only, (allocate_candidate first).1]
    generalize takeCluster v (d.later (cluster - 1)) cluster = run at attempts
    have result := attempts.result
    by_cases whole : clearsDone v (d.later (cluster - 1)) = v.sectorsPerCluster
    · rw [if_pos whole] at result
      have some : ¬run.1 = 0 := by omega
      rw [if_neg some, result]
      exact putDirectory_atomic foundIn first whole (undo cluster first whole) attempts
    · rw [if_neg whole] at result
      rw [if_pos result]
      simp only [LeavesDirectory, ne_eq, whole, not_false_eq_true, if_true, true_implies, bytes]
      have tables := attempts.sameTables
      rw [show (d.later (cluster - 1)).bytes = start.bytes from bytes] at tables
      exact tables
  · simp only [(allocate_exhausted none).1, if_true, true_implies]
    constructor
    · intro _ cluster first
      exact absurd first.looks (none cluster first.two first.small)
    · exact fun _ => sameTables_of_changes (foundIn.same.trans ⟨fun _ _ => rfl, rfl⟩)

theorem fat16CreateDirNode_atomic (undo : UndoSucceeds v s parent name block) :
    ((s.fat16CreateDirNode v parent name block).1 = none →
      Unchanged v s (s.fat16CreateDirNode v parent name block).2) ↔
      DirectoryAtomic v s parent name block := by
  rw [Vfs.fat16CreateDirNode]
  cases root : s.fat16Root parent with
  | false => exact ⟨fun _ isRoot => absurd (root.symm.trans isRoot) Bool.false_ne_true,
      fun _ _ => ⟨fun _ _ _ => rfl, rfl⟩⟩
  | true =>
      simp only [if_true, link_atomic]
      cases scanned : scanRoot v (fat16NameTo83 name) v.rootSectors 0 s.disk with
      | mk scan after =>
          cases scan with
          | none =>
              have same := @scanRoot_changes (fat16NameTo83 name) v s.disk v.rootSectors 0
              rw [scanned] at same
              rw [fat16CreateDir_unscanned scanned]
              constructor
              · rintro _ _ found other cluster again
                rw [scanned] at again
                cases again
              · exact fun _ _ => sameTables_of_changes same
          | some found =>
              rw [fat16CreateDir_atomic (fun cluster first whole stops =>
                undo root found after cluster scanned first whole (by simpa using stops)) scanned]
              simp only [bne_iff_ne]
              constructor
              · intro leaves _ other disk cluster again
                rw [scanned] at again
                cases again
                exact leaves cluster
              · exact fun atomic cluster => atomic root found after cluster scanned

end Directory

/-- Exactly when a creation that returns null leaves the table, the root directory and the tree as
they were. -/
theorem creation_atomic_iff {v : Volume} {s : Vfs} {parent block : Nat} {name : List UInt8}
    (undo : UndoSucceeds v s parent name block) :
    (((s.fat16CreateFileNode v parent name block).1 = none →
        Unchanged v s (s.fat16CreateFileNode v parent name block).2) ↔
      FileAtomic v s parent name block) ∧
    (((s.fat16CreateDirNode v parent name block).1 = none →
        Unchanged v s (s.fat16CreateDirNode v parent name block).2) ↔
      DirectoryAtomic v s parent name block) :=
  ⟨fat16CreateFileNode_atomic, fat16CreateDirNode_atomic undo⟩

theorem undo_reliable {v : Volume} {s : Vfs} {parent block : Nat} {name : List UInt8}
    (reliable : Reliable s.disk) : UndoSucceeds v s parent name block := by
  intro _ found after cluster scanned _ _ _ k _
  have same := @scanRoot_changes (fat16NameTo83 name) v s.disk v.rootSectors 0
  rw [scanned] at same
  exact same.reliable reliable _

def emptyVolume : Vfs :=
  { Vfs.init formattedDisk with
    node := Function.update (Vfs.init formattedDisk).node 1
      ⟨[47], true, 0, 0, 2, 0, 0, 0⟩
    filesystem := fun _ => ⟨.fat16, 1⟩
    root := 1
    nodes := [1]
    filesystems := [2] }

/-- The requests that write the entries of a file and of a directory fail. -/
def jammedVolume : Vfs :=
  { emptyVolume with disk := { formattedDisk with faults := fun call => call == 1 || call == 5 } }

theorem jammedVolume_scan {found : FoundSlot} {after : Disk}
    (scanned : scanRoot smallVolume (fat16NameTo83 [65]) smallVolume.rootSectors 0
      jammedVolume.disk = (some found, after)) : after = jammedVolume.disk.later 1 := by
  have runs : (scanRoot smallVolume (fat16NameTo83 [65]) smallVolume.rootSectors 0
      jammedVolume.disk).2 = jammedVolume.disk.later 1 := rfl
  rw [scanned] at runs
  exact runs

theorem jammedVolume_first {cluster : Nat}
    (first : FirstCandidate smallVolume (jammedVolume.disk.later 1) cluster) : cluster = 2 := by
  have free : LooksFree smallVolume (jammedVolume.disk.later 1) 2 := by decide
  by_contra other
  exact first.earlier 2 (Nat.le_refl 2) (by have := first.two; omega) free

theorem jammedVolume_atomic :
    FileAtomic smallVolume jammedVolume 1 [65] 0x1000 ∧
    DirectoryAtomic smallVolume jammedVolume 1 [65] 0x1000 := by
  constructor
  · intro _ found after scanned
    rw [jammedVolume_scan scanned]
    exact Or.inl rfl
  · intro _ found after cluster scanned first
    rw [jammedVolume_scan scanned] at first ⊢
    obtain rfl := jammedVolume_first first
    rw [LeavesDirectory, if_neg (by decide), if_pos (by decide)]
    rintro address _ ⟨copy, below, lower, upper⟩
    obtain rfl : copy = 0 := Nat.lt_one_iff.mp below
    have place : fatWord smallVolume 0 2 = 516 := rfl
    rw [place] at lower upper
    obtain rfl | rfl : address = 516 ∨ address = 517 := by omega
    · rfl
    · rfl

theorem creation_atomic_write_fails :
    ((jammedVolume.fat16CreateFileNode smallVolume 1 [65] 0x1000).1 = none ∧
      Unchanged smallVolume jammedVolume (jammedVolume.fat16CreateFileNode smallVolume 1 [65] 0x1000).2) ∧
    (jammedVolume.fat16CreateDirNode smallVolume 1 [65] 0x1000).1 = none ∧
      Unchanged smallVolume jammedVolume (jammedVolume.fat16CreateDirNode smallVolume 1 [65] 0x1000).2 := by
  have file : (jammedVolume.fat16CreateFileNode smallVolume 1 [65] 0x1000).1 = none := by decide
  have directory : (jammedVolume.fat16CreateDirNode smallVolume 1 [65] 0x1000).1 = none := by decide
  have undo : UndoSucceeds smallVolume jammedVolume 1 [65] 0x1000 := by
    intro _ found after cluster scanned first _ _ k _
    rw [jammedVolume_scan scanned] at first ⊢
    obtain rfl := jammedVolume_first first
    have call : entryCall smallVolume (jammedVolume.disk.later 1) 2 = 5 := rfl
    rw [call]
    simp only [jammedVolume, Disk.later, Bool.or_eq_false_iff, beq_eq_false_iff_ne]
    omega
  obtain ⟨fileIff, directoryIff⟩ := creation_atomic_iff undo
  exact ⟨⟨file, fileIff.mpr jammedVolume_atomic.1 file⟩, directory,
    directoryIff.mpr jammedVolume_atomic.2 directory⟩

/-- The directory stays in the root directory, with the number of a cluster that is free. -/
theorem directory_without_node :
    (emptyVolume.fat16CreateDirNode smallVolume 1 [65] 0).1 = none ∧
      UndoSucceeds smallVolume emptyVolume 1 [65] 0 ∧
      ¬Unchanged smallVolume emptyVolume (emptyVolume.fat16CreateDirNode smallVolume 1 [65] 0).2 := by
  refine ⟨by decide, undo_reliable fun _ => rfl, fun unchanged => ?_⟩
  have first := unchanged.tables 1024 (by decide) (by decide)
  have byte : (emptyVolume.fat16CreateDirNode smallVolume 1 [65] 0).2.disk.bytes 1024 = 65 := by decide
  rw [byte] at first
  exact absurd first (by decide)

end Szczupak
