import Mathlib.Data.Set.Basic
import Szczupak.Fs.Fat16Core

/-!
What the routines of the FAT16 driver change on the disk.  `Changes` bounds the bytes that a
routine may touch, whatever the ATA layer does; on a reliable disk the sector routines have
the exact effect of a store.
-/

namespace Szczupak

structure Changes (area : Set Nat) (d after : Disk) : Prop where
  bytes : ∀ address, address ∉ area → after.bytes address = d.bytes address
  faults : after.faults = d.faults

def Reliable (d : Disk) : Prop := ∀ call, d.faults call = false

section Changes

variable {d middle after : Disk} {area larger : Set Nat} {lba : Nat}

theorem Changes.refl (d : Disk) : Changes area d d := ⟨fun _ _ => rfl, rfl⟩

theorem Changes.trans (first : Changes area d middle) (second : Changes area middle after) :
    Changes area d after := by
  refine ⟨fun address outside => ?_, second.faults.trans first.faults⟩
  rw [second.bytes address outside, first.bytes address outside]

theorem Changes.mono (changes : Changes area d after) (inside : area ⊆ larger) :
    Changes larger d after :=
  ⟨fun address outside => changes.bytes address fun member => outside (inside member), changes.faults⟩

theorem Changes.none (changes : Changes ∅ d after) : after.bytes = d.bytes := by
  funext address
  exact changes.bytes address (Set.notMem_empty address)

theorem Changes.reliable (changes : Changes area d after) (reliable : Reliable d) : Reliable after := by
  intro call
  rw [changes.faults]
  exact reliable call

def sectorArea (lba : Nat) : Set Nat :=
  { address | lba * 512 ≤ address ∧ address < lba * 512 + 512 }

def Disk.sector (d : Disk) (lba : Nat) : Mem := fun index => d.bytes (lba * 512 + index)

theorem called_changes : Changes area d d.called := ⟨fun _ _ => rfl, rfl⟩

theorem ataReadSector_changes : Changes area d (ataReadSector d lba).2 := by
  rw [ataReadSector]
  split <;> exact called_changes

theorem ataReadSector_some {sector : Mem} (got : ataReadSector d lba = (some sector, after)) :
    sector = d.sector lba ∧ after = d.called := by
  rw [ataReadSector] at got
  split at got
  · cases got
  · cases got
    exact ⟨rfl, rfl⟩

theorem ataReadSector_reliable (reliable : Reliable d) :
    ataReadSector d lba = (some (d.sector lba), d.called) := by
  rw [ataReadSector, reliable, if_neg Bool.false_ne_true]
  rfl

theorem ataWriteSector_changes {sector : Mem} :
    Changes (sectorArea lba) d (ataWriteSector d lba sector).2 := by
  rw [ataWriteSector]
  split
  · exact called_changes
  · exact ⟨fun address outside => if_neg outside, rfl⟩

theorem ataWriteSector_true {sector : Mem} (put : ataWriteSector d lba sector = (true, after)) :
    after = { d.called with bytes := d.overwrite lba sector } := by
  rw [ataWriteSector] at put
  split at put
  · cases put
  · cases put
    rfl

theorem ataWriteSector_false {sector : Mem} (failed : ataWriteSector d lba sector = (false, after)) :
    after = d.called := by
  rw [ataWriteSector] at failed
  split at failed
  · cases failed
    rfl
  · cases failed

theorem ataWriteSector_reliable {sector : Mem} (reliable : Reliable d) :
    ataWriteSector d lba sector = (true, { d.called with bytes := d.overwrite lba sector }) := by
  rw [ataWriteSector, reliable, if_neg Bool.false_ne_true]

theorem overwrite_store {offset : Nat} {data : List UInt8} (fits : offset + data.length ≤ 512) :
    d.overwrite lba ((d.sector lba).store offset data) = d.bytes.store (lba * 512 + offset) data := by
  funext address
  simp only [Disk.overwrite, Mem.store, Disk.sector]
  generalize lba * 512 = base
  by_cases inSector : base ≤ address ∧ address < base + 512
  · have back : base + (address - base) = address := by omega
    have shifted : address - base - offset = address - (base + offset) := by omega
    rw [if_pos inSector, back, shifted]
    by_cases inData : base + offset ≤ address ∧ address < base + offset + data.length
    · have inBuffer : offset ≤ address - base ∧ address - base < offset + data.length := by omega
      rw [if_pos inBuffer, if_pos inData]
    · have offBuffer : ¬(offset ≤ address - base ∧ address - base < offset + data.length) := by omega
      rw [if_neg offBuffer, if_neg inData]
  · have offData : ¬(base + offset ≤ address ∧ address < base + offset + data.length) := by omega
    rw [if_neg inSector, if_neg offData]

theorem overwrite_writeLE {offset width value : Nat} (fits : offset + width ≤ 512) :
    d.overwrite lba ((d.sector lba).writeLE offset width value) =
      d.bytes.writeLE (lba * 512 + offset) width value := by
  funext address
  have window : (d.sector lba).writeLE offset width value = fun index =>
      d.bytes.writeLE (lba * 512 + offset) width value (lba * 512 + index) :=
    d.bytes.writeLE_window (lba * 512) offset width value
  rw [Disk.overwrite, window]
  split
  next inSector =>
    dsimp only
    rw [Nat.add_sub_cancel' inSector.1]
  next outside =>
    rw [Mem.writeLE_outside]
    generalize lba * 512 = base at outside ⊢
    omega

end Changes

section Table

variable {v : Volume} {d after : Disk} {cluster value : Nat}

def fatEntry (v : Volume) (bytes : Mem) (cluster : Nat) : Nat :=
  bytes.readU16 (v.fatStart * 512 + cluster * 2)

def Volume.fatEntries (v : Volume) : Nat := v.sectorsPerFat * 256

def fatArea (v : Volume) : Set Nat :=
  { address | v.fatStart * 512 ≤ address ∧ address < v.rootStart * 512 }

def rootArea (v : Volume) : Set Nat :=
  { address | v.rootStart * 512 ≤ address ∧ address < v.dataStart * 512 }

def dataArea (v : Volume) : Set Nat := { address | v.dataStart * 512 ≤ address }

def fatWord (v : Volume) (copy cluster : Nat) : Nat :=
  (v.fatStart + copy * v.sectorsPerFat) * 512 + cluster * 2

theorem fatWord_sector (copy : Nat) :
    (v.fatStart + cluster * 2 / 512 + copy * v.sectorsPerFat) * 512 + cluster * 2 % 512 =
      fatWord v copy cluster := by
  have split := Nat.div_add_mod' (cluster * 2) 512
  rw [fatWord, Nat.add_right_comm, Nat.add_mul _ (cluster * 2 / 512), Nat.add_assoc, split]

theorem fatWord_copies {other copy : Nat} (inside : other < v.fatEntries) (later : 0 < copy) :
    fatWord v 0 other + 2 ≤ fatWord v copy cluster := by
  have sectors : v.sectorsPerFat ≤ copy * v.sectorsPerFat := Nat.le_mul_of_pos_left _ later
  rw [Volume.fatEntries] at inside
  rw [fatWord, fatWord]
  omega

theorem fatEntry_eq : fatEntry v d.bytes cluster = d.bytes.readU16 (fatWord v 0 cluster) := by
  rw [fatEntry, fatWord, Nat.zero_mul, Nat.add_zero]

theorem fatSector_inside (inside : cluster < v.fatEntries) {copy : Nat} (valid : copy < v.numFats) :
    v.fatStart ≤ v.fatStart + cluster * 2 / 512 + copy * v.sectorsPerFat ∧
      v.fatStart + cluster * 2 / 512 + copy * v.sectorsPerFat < v.rootStart := by
  have copies : (copy + 1) * v.sectorsPerFat ≤ v.numFats * v.sectorsPerFat :=
    Nat.mul_le_mul_right _ valid
  have sector : cluster * 2 / 512 < v.sectorsPerFat := by
    rw [Volume.fatEntries] at inside
    omega
  rw [Volume.rootStart]
  rw [Nat.succ_mul] at copies
  omega

theorem sectorArea_subset_fatArea {lba : Nat} (lower : v.fatStart ≤ lba)
    (upper : lba < v.rootStart) : sectorArea lba ⊆ fatArea v := by
  rintro address ⟨above, below⟩
  have start : v.fatStart * 512 ≤ lba * 512 := Nat.mul_le_mul_right _ lower
  have stop : (lba + 1) * 512 ≤ v.rootStart * 512 := Nat.mul_le_mul_right _ upper
  rw [Nat.succ_mul] at stop
  exact ⟨start.trans above, below.trans_le stop⟩

theorem fatEntry_sector : (d.sector (v.fatStart + cluster * 2 / 512)).readU16 (cluster * 2 % 512) =
    fatEntry v d.bytes cluster := by
  have address : (v.fatStart + cluster * 2 / 512) * 512 + cluster * 2 % 512 =
      v.fatStart * 512 + cluster * 2 := by
    rw [Nat.add_mul, Nat.add_assoc, Nat.div_add_mod']
  rw [fatEntry, ← address]
  exact d.bytes.readLE_window _ _ 2

theorem fat16ReadFatEntry_changes {area : Set Nat} :
    Changes area d (fat16ReadFatEntry v d cluster).2 := by
  rw [fat16ReadFatEntry]
  split
  · exact Changes.refl d
  · have changes := @ataReadSector_changes d area (v.fatStart + cluster * 2 / 512)
    split
    next failed => rwa [failed] at changes
    next got => rwa [got] at changes

theorem writeFatCopies_changes (inside : cluster < v.fatEntries) {remaining copy : Nat}
    (copies : copy + remaining ≤ v.numFats) :
    Changes (fatArea v) d (writeFatCopies v cluster value remaining copy d).2 := by
  induction remaining generalizing copy d with
  | zero => exact Changes.refl d
  | succ remaining ih =>
      obtain ⟨lower, upper⟩ := fatSector_inside (v := v) inside (show copy < v.numFats by omega)
      rw [writeFatCopies]
      generalize v.fatStart + cluster * 2 / 512 + copy * v.sectorsPerFat = lba at lower upper ⊢
      have reads := @ataReadSector_changes d (fatArea v) lba
      split
      next failed => rwa [failed] at reads
      next sector next got =>
        rw [got] at reads
        have writes := (@ataWriteSector_changes next lba
          (sector.writeU16 (cluster * 2 % 512) value)).mono (sectorArea_subset_fatArea lower upper)
        split
        next failed =>
          rw [failed] at writes
          exact reads.trans writes
        next put =>
          rw [put] at writes
          exact (reads.trans writes).trans (ih (by omega))

theorem fat16WriteFatEntry_changes (inside : cluster < v.fatEntries) :
    Changes (fatArea v) d (fat16WriteFatEntry v d cluster value).2 := by
  rw [fat16WriteFatEntry]
  split
  · exact Changes.refl d
  · exact writeFatCopies_changes inside (by omega)

theorem zeroSectors_changes {first remaining s : Nat} (behind : v.dataStart ≤ first) :
    Changes (dataArea v) d (zeroSectors first remaining s d).2 := by
  induction remaining generalizing s d with
  | zero => exact Changes.refl d
  | succ remaining ih =>
      rw [zeroSectors]
      have inside : sectorArea (first + s) ⊆ dataArea v := by
        rintro address ⟨above, _⟩
        have start : v.dataStart * 512 ≤ (first + s) * 512 :=
          Nat.mul_le_mul_right _ (behind.trans (Nat.le_add_right _ _))
        exact start.trans above
      have writes := (@ataWriteSector_changes d (first + s) (fun _ => 0)).mono inside
      split
      next failed => rwa [failed] at writes
      next put =>
        rw [put] at writes
        exact writes.trans ih

theorem dataStart_le_clusterSector : v.dataStart ≤ v.clusterSector cluster := Nat.le_add_right _ _

theorem fat16ReadFatEntry_cases (two : 2 ≤ cluster) :
    (fat16ReadFatEntry v d cluster).1 = 0 ∨
      (fat16ReadFatEntry v d cluster).1 = fatEntry v d.bytes cluster := by
  rw [fat16ReadFatEntry, if_neg (by omega)]
  split
  · exact Or.inl rfl
  next sector next got =>
    obtain ⟨rfl, _⟩ := ataReadSector_some got
    exact Or.inr fatEntry_sector

def hasFreeFrom (v : Volume) (bytes : Mem) : Nat → Nat → Bool
  | 0, _ => false
  | remaining + 1, i => fatEntry v bytes i == 0 || hasFreeFrom v bytes remaining (i + 1)

/-- A cluster is free, or the table covers all that `fat16_allocate_cluster` looks at. -/
def FatHasRoom (v : Volume) (bytes : Mem) : Prop :=
  0xFFF0 ≤ v.fatEntries ∨ hasFreeFrom v bytes (v.fatEntries - 2) 2 = true

instance (v : Volume) (bytes : Mem) : Decidable (FatHasRoom v bytes) :=
  inferInstanceAs (Decidable (_ ∨ _))

theorem allocateFrom_changes {remaining i : Nat} (two : 2 ≤ i) (range : i + remaining = 0xFFF0)
    (room : 0xFFF0 ≤ v.fatEntries ∨ hasFreeFrom v d.bytes (v.fatEntries - i) i = true) :
    Changes (fatArea v ∪ dataArea v) d (allocateFrom v remaining i d).2 ∧
      (allocateFrom v remaining i d).1 < max 1 v.fatEntries := by
  induction remaining generalizing i d with
  | zero => exact ⟨Changes.refl d, by rw [allocateFrom]; omega⟩
  | succ remaining ih =>
      have insideTable : i < v.fatEntries := by
        rcases room with covers | free
        · omega
        · by_contra outside
          have none : v.fatEntries - i = 0 := by omega
          rw [none] at free
          cases free
      rw [allocateFrom]
      have reads := @fat16ReadFatEntry_changes v d i ∅
      have entryCases := @fat16ReadFatEntry_cases v d i two
      generalize fat16ReadFatEntry v d i = read at reads entryCases
      obtain ⟨entry, after⟩ := read
      have bytes : after.bytes = d.bytes := reads.none
      have quiet : Changes (fatArea v ∪ dataArea v) d after := reads.mono (Set.empty_subset _)
      dsimp only
      split
      next free =>
        have logged : Changes (fatArea v ∪ dataArea v) after
            { after with allocated := i :: after.allocated } := ⟨fun _ _ => rfl, rfl⟩
        have marks := (@fat16WriteFatEntry_changes v { after with allocated := i :: after.allocated }
          i 0xFFFF insideTable).mono (Set.subset_union_left (t := dataArea v))
        split
        next failed =>
          rw [failed] at marks
          exact ⟨(quiet.trans logged).trans marks, by omega⟩
        next marked put =>
          rw [put] at marks
          have zeros := (@zeroSectors_changes v marked (v.clusterSector i) v.sectorsPerCluster 0
            dataStart_le_clusterSector).mono (Set.subset_union_right (s := fatArea v))
          split
          next failed =>
            rw [failed] at zeros
            exact ⟨((quiet.trans logged).trans marks).trans zeros, by omega⟩
          next cleared =>
            rw [cleared] at zeros
            exact ⟨((quiet.trans logged).trans marks).trans zeros, by omega⟩
      next taken =>
        have nextRoom : 0xFFF0 ≤ v.fatEntries ∨
            hasFreeFrom v after.bytes (v.fatEntries - (i + 1)) (i + 1) = true := by
          refine room.imp_right fun free => ?_
          have more : v.fatEntries - i = (v.fatEntries - (i + 1)) + 1 := by omega
          rw [more, hasFreeFrom, Bool.or_eq_true, beq_iff_eq] at free
          rw [bytes]
          rcases entryCases with zero | real
          · exact absurd zero taken
          · exact free.resolve_left (real ▸ taken)
        obtain ⟨later, small⟩ := @ih after (i + 1) (by omega) (by omega) nextRoom
        exact ⟨quiet.trans later, small⟩

theorem fat16AllocateCluster_changes (room : FatHasRoom v d.bytes) :
    Changes (fatArea v ∪ dataArea v) d (fat16AllocateCluster v d).2 ∧
      (fat16AllocateCluster v d).1 < max 1 v.fatEntries :=
  allocateFrom_changes (Nat.le_refl 2) (by norm_num) room

theorem writeFatCopies_entry {other : Nat} (known : other < v.fatEntries) {remaining copy : Nat} :
    fatEntry v (writeFatCopies v cluster value remaining copy d).2.bytes other =
      fatEntry v d.bytes other ∨ other = cluster ∧
        fatEntry v (writeFatCopies v cluster value remaining copy d).2.bytes other = value % 65536 := by
  induction remaining generalizing copy d with
  | zero => exact Or.inl rfl
  | succ remaining ih =>
      rw [writeFatCopies]
      have word := @fatWord_sector v cluster copy
      generalize v.fatStart + cluster * 2 / 512 + copy * v.sectorsPerFat = lba at word
      split
      next middle failed =>
        have bytes := (@ataReadSector_changes d ∅ lba).none
        rw [failed] at bytes
        dsimp only at bytes ⊢
        exact Or.inl (by rw [bytes])
      next sector middle got =>
        obtain ⟨rfl, rfl⟩ := ataReadSector_some got
        split
        next after failed =>
          rw [ataWriteSector_false failed]
          exact Or.inl rfl
        next after put =>
          have stored : after.bytes = d.bytes.writeU16 (fatWord v copy cluster) value := by
            rw [ataWriteSector_true put, ← word]
            exact @overwrite_writeLE d lba _ 2 value (by omega)
          have here : fatEntry v after.bytes other = fatEntry v d.bytes other ∨
              other = cluster ∧ fatEntry v after.bytes other = value % 65536 := by
            rw [fatEntry_eq, fatEntry_eq, stored]
            by_cases first : copy = 0
            · subst first
              by_cases same : other = cluster
              · rw [same]
                exact Or.inr ⟨rfl, Mem.readLE_writeLE_same _ _ 2 _⟩
              · refine Or.inl (Mem.readLE_writeLE_disjoint _ ?_)
                rw [fatWord, fatWord]
                omega
            · have apart := @fatWord_copies v cluster other copy known (Nat.pos_of_ne_zero first)
              exact Or.inl (Mem.readLE_writeLE_disjoint _ (Or.inl apart))
          rcases @ih after (copy + 1) with kept | ⟨isCluster, written⟩
          · rw [kept]
            exact here
          · exact Or.inr ⟨isCluster, written⟩

theorem fat16WriteFatEntry_entry {other : Nat} (known : other < v.fatEntries) :
    fatEntry v (fat16WriteFatEntry v d cluster value).2.bytes other = fatEntry v d.bytes other ∨
      other = cluster ∧
        fatEntry v (fat16WriteFatEntry v d cluster value).2.bytes other = value % 65536 := by
  rw [fat16WriteFatEntry]
  split
  · exact Or.inl rfl
  · exact writeFatCopies_entry known

/-- The clusters on the chain lie inside the table, as far as `fat16_release_cluster_chain`
follows it. -/
def chainInFat (v : Volume) (bytes : Mem) : Nat → Nat → Bool
  | 0, _ => true
  | guard + 1, cluster =>
      if cluster < 2 ∨ 0xFFF8 ≤ cluster then true
      else decide (cluster < v.fatEntries) && chainInFat v bytes guard (fatEntry v bytes cluster)

theorem releaseFrom_changes {start : Mem} {guard : Nat} (kept : ∀ other, other < v.fatEntries →
      fatEntry v d.bytes other = fatEntry v start other ∨ fatEntry v d.bytes other = 0)
    (chain : chainInFat v start guard cluster = true) :
    Changes (fatArea v) d (releaseFrom v guard cluster d).2 := by
  induction guard generalizing cluster d with
  | zero => exact Changes.refl d
  | succ guard ih =>
      rw [releaseFrom]
      split
      next => exact Changes.refl d
      next range =>
        rw [chainInFat, if_neg range, Bool.and_eq_true, decide_eq_true_eq] at chain
        obtain ⟨inside, rest⟩ := chain
        have reads := @fat16ReadFatEntry_changes v d cluster ∅
        have entryCases := @fat16ReadFatEntry_cases v d cluster (by omega)
        generalize fat16ReadFatEntry v d cluster = read at reads entryCases
        obtain ⟨next, after⟩ := read
        have bytes : after.bytes = d.bytes := reads.none
        dsimp only at entryCases ⊢
        have clears := @fat16WriteFatEntry_changes v after cluster 0 inside
        have entries := fun other => @fat16WriteFatEntry_entry v after cluster 0 other
        have quiet : Changes (fatArea v) d after := reads.mono (Set.empty_subset _)
        split
        next failed =>
          rw [failed] at clears
          exact quiet.trans clears
        next cleared put =>
          rw [put] at clears entries
          dsimp only at clears entries
          split
          · exact quiet.trans clears
          · have still : ∀ other, other < v.fatEntries →
                fatEntry v cleared.bytes other = fatEntry v start other ∨
                  fatEntry v cleared.bytes other = 0 := by
              intro other known
              rcases entries other known with same | ⟨_, zero⟩
              · rw [same, bytes]
                exact kept other known
              · exact Or.inr zero
            have nextChain : chainInFat v start guard next = true := by
              have ended : chainInFat v start guard 0 = true := by
                cases guard with
                | zero => rfl
                | succ guard => rw [chainInFat, if_pos (Or.inl (by omega))]
              rcases entryCases with zero | real
              · exact zero ▸ ended
              · rcases kept cluster inside with original | zero
                · rw [real, original]
                  exact rest
                · rw [real, zero]
                  exact ended
            exact (quiet.trans clears).trans (ih still nextChain)

theorem fat16ReleaseClusterChain_changes (chain : chainInFat v d.bytes 0x10000 cluster = true) :
    Changes (fatArea v) d (fat16ReleaseClusterChain v d cluster).2 := by
  rw [fat16ReleaseClusterChain]
  split
  · exact Changes.refl d
  · exact releaseFrom_changes (fun _ _ => Or.inl rfl) chain

theorem clusterEmpty_changes {first remaining s : Nat} :
    Changes ∅ d (clusterEmpty first remaining s d).2 := by
  induction remaining generalizing s d with
  | zero => exact Changes.refl d
  | succ remaining ih =>
      rw [clusterEmpty]
      have reads := @ataReadSector_changes d ∅ (first + s)
      split
      next failed => rwa [failed] at reads
      next got =>
        rw [got] at reads
        split
        next => exact reads
        next => exact reads.trans ih

theorem directoryEmptyFrom_changes {guard : Nat} :
    Changes ∅ d (directoryEmptyFrom v guard cluster d).2 := by
  induction guard generalizing cluster d with
  | zero => exact Changes.refl d
  | succ guard ih =>
      rw [directoryEmptyFrom]
      split
      next => exact Changes.refl d
      next =>
        have empties := @clusterEmpty_changes d (v.clusterSector cluster) v.sectorsPerCluster 0
        split
        next known => rwa [known] at empties
        next middle open' =>
          rw [open'] at empties
          have reads := @fat16ReadFatEntry_changes v middle cluster ∅
          generalize fat16ReadFatEntry v middle cluster = read at reads
          obtain ⟨next, after⟩ := read
          dsimp only
          split
          · exact empties.trans reads
          · exact (empties.trans reads).trans ih

theorem fat16DirectoryClusterEmpty_changes :
    Changes ∅ d (fat16DirectoryClusterEmpty v d cluster).2 := by
  rw [fat16DirectoryClusterEmpty]
  split
  · exact Changes.refl d
  · exact directoryEmptyFrom_changes

end Table

end Szczupak
