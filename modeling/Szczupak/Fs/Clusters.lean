import Mathlib.Data.List.Nodup
import Szczupak.Fs.Fat16Disk

/-!
Cluster chains on a reliable disk.  `Chain` follows the table to an end mark; a position of a
file is an address in one of its clusters.  Writing a table entry and taking a free cluster
have exact effects, and every other byte of the disk keeps its value.
-/

namespace Szczupak

structure Becomes (d after : Disk) (bytes : Mem) : Prop where
  bytes : after.bytes = bytes
  faults : after.faults = d.faults
  allocated : after.allocated = d.allocated

section Becomes

variable {d middle after : Disk} {bytes : Mem} {v : Volume} {cluster value lba : Nat}

theorem Becomes.reliable (becomes : Becomes d after bytes) (reliable : Reliable d) :
    Reliable after := by
  intro call
  rw [becomes.faults]
  exact reliable call

theorem called_reliable (reliable : Reliable d) : Reliable d.called := reliable

theorem fat16ReadFatEntry_reliable (reliable : Reliable d) (two : 2 ≤ cluster) :
    fat16ReadFatEntry v d cluster = (fatEntry v d.bytes cluster, d.called) := by
  rw [fat16ReadFatEntry, if_neg (by omega), ataReadSector_reliable reliable]
  dsimp only
  rw [fatEntry_sector]

def fatWords (v : Volume) (cluster : Nat) : Set Nat :=
  { address | ∃ copy < v.numFats, fatWord v copy cluster ≤ address ∧
    address < fatWord v copy cluster + 2 }

def fatStored (v : Volume) (cluster value : Nat) : Nat → Nat → Mem → Mem
  | 0, _, bytes => bytes
  | remaining + 1, copy, bytes =>
      fatStored v cluster value remaining (copy + 1) (bytes.writeU16 (fatWord v copy cluster) value)

theorem writeFatCopies_reliable (reliable : Reliable d) {remaining copy : Nat} :
    ∃ after, writeFatCopies v cluster value remaining copy d = (true, after) ∧
      Becomes d after (fatStored v cluster value remaining copy d.bytes) := by
  induction remaining generalizing copy d with
  | zero => exact ⟨d, rfl, rfl, rfl, rfl⟩
  | succ remaining ih =>
      have word := @fatWord_sector v cluster copy
      rw [writeFatCopies]
      generalize v.fatStart + cluster * 2 / 512 + copy * v.sectorsPerFat = lba at word
      rw [ataReadSector_reliable reliable]
      dsimp only
      rw [ataWriteSector_reliable (called_reliable reliable)]
      dsimp only
      have stored : d.called.overwrite lba ((d.sector lba).writeU16 (cluster * 2 % 512) value) =
          d.bytes.writeU16 (fatWord v copy cluster) value := by
        rw [← word]
        exact @overwrite_writeLE d lba _ 2 value (by omega)
      obtain ⟨after, done, becomes⟩ := @ih { d.called.called with
        bytes := d.called.overwrite lba ((d.sector lba).writeU16 (cluster * 2 % 512) value) }
        reliable (copy + 1)
      refine ⟨after, done, ?_, becomes.faults, becomes.allocated⟩
      rw [becomes.bytes, stored, fatStored]

theorem fat16WriteFatEntry_reliable (reliable : Reliable d) (two : 2 ≤ cluster) :
    ∃ after, fat16WriteFatEntry v d cluster value = (true, after) ∧
      Becomes d after (fatStored v cluster value v.numFats 0 d.bytes) := by
  rw [fat16WriteFatEntry, if_neg (by omega)]
  exact writeFatCopies_reliable reliable

theorem fatStored_outside {remaining copy address : Nat} (copies : copy + remaining ≤ v.numFats)
    (outside : address ∉ fatWords v cluster) :
    fatStored v cluster value remaining copy bytes address = bytes address := by
  induction remaining generalizing copy bytes with
  | zero => rfl
  | succ remaining ih =>
      have apart : address < fatWord v copy cluster ∨ fatWord v copy cluster + 2 ≤ address := by
        by_contra inside
        exact outside ⟨copy, by omega, by omega⟩
      rw [fatStored, ih (by omega), Mem.writeU16, Mem.writeLE_outside _ apart]

theorem fatStored_other {remaining copy other : Nat} (known : other < v.fatEntries)
    (different : other ≠ cluster) :
    fatEntry v (fatStored v cluster value remaining copy bytes) other = fatEntry v bytes other := by
  induction remaining generalizing copy bytes with
  | zero => rfl
  | succ remaining ih =>
      rw [fatStored, ih, fatEntry, fatEntry]
      refine Mem.readLE_writeLE_disjoint _ ?_
      by_cases first : copy = 0
      · rw [first, fatWord, Nat.zero_mul, Nat.add_zero]
        omega
      · have apart := @fatWord_copies v cluster other copy known (Nat.pos_of_ne_zero first)
        rw [fatWord, Nat.zero_mul, Nat.add_zero] at apart
        exact Or.inl apart

theorem fatStored_later {remaining copy : Nat} (known : cluster < v.fatEntries) (later : 0 < copy) :
    fatEntry v (fatStored v cluster value remaining copy bytes) cluster = fatEntry v bytes cluster := by
  induction remaining generalizing copy bytes with
  | zero => rfl
  | succ remaining ih =>
      have apart := @fatWord_copies v cluster cluster copy known later
      rw [fatWord, Nat.zero_mul, Nat.add_zero] at apart
      rw [fatStored, ih (Nat.succ_pos copy), fatEntry, fatEntry]
      exact Mem.readLE_writeLE_disjoint _ (Or.inl apart)

theorem fatStored_same (known : cluster < v.fatEntries) :
    fatEntry v (fatStored v cluster value v.numFats 0 bytes) cluster = value % 65536 := by
  have positive := v.fatsPos
  obtain ⟨copies, some⟩ := Nat.exists_eq_succ_of_ne_zero (Nat.ne_of_gt positive)
  rw [some, fatStored, fatStored_later known (Nat.succ_pos 0), fatEntry, fatWord, Nat.zero_mul,
    Nat.add_zero]
  exact Mem.readLE_writeLE_same _ _ 2 _

def clusterBase (v : Volume) (cluster : Nat) : Nat := v.clusterSector cluster * 512

def clusterArea (v : Volume) (cluster : Nat) : Set Nat :=
  { address | clusterBase v cluster ≤ address ∧ address < clusterBase v cluster + v.clusterSize }

theorem clusterBase_eq : clusterBase v cluster = v.dataStart * 512 + (cluster - 2) * v.clusterSize := by
  rw [clusterBase, Volume.clusterSector, Volume.clusterSize, Nat.add_mul, Nat.mul_assoc]

theorem clusterSize_pos (v : Volume) : 0 < v.clusterSize := Nat.mul_pos v.clusterPos (by decide)

theorem clusterArea_disjoint {other : Nat} (two : 2 ≤ cluster) (otherTwo : 2 ≤ other)
    (different : cluster ≠ other) {address : Nat} (inside : address ∈ clusterArea v cluster) :
    address ∉ clusterArea v other := by
  rintro ⟨otherLower, otherUpper⟩
  obtain ⟨lower, upper⟩ := inside
  rw [clusterBase_eq] at lower upper otherLower otherUpper
  rcases Nat.lt_or_gt_of_ne different with before | behind
  · have step : (cluster - 2 + 1) * v.clusterSize ≤ (other - 2) * v.clusterSize :=
      Nat.mul_le_mul_right _ (by omega)
    rw [Nat.succ_mul] at step
    omega
  · have step : (other - 2 + 1) * v.clusterSize ≤ (cluster - 2) * v.clusterSize :=
      Nat.mul_le_mul_right _ (by omega)
    rw [Nat.succ_mul] at step
    omega

theorem clusterArea_data {address : Nat} (inside : address ∈ clusterArea v cluster) :
    v.dataStart * 512 ≤ address := by
  have lower := inside.1
  rw [clusterBase_eq] at lower
  exact Nat.le_of_add_right_le lower

theorem fatWords_table {address : Nat} (known : cluster < v.fatEntries)
    (inside : address ∈ fatWords v cluster) :
    v.fatStart * 512 ≤ address ∧ address < v.rootStart * 512 := by
  obtain ⟨copy, valid, lower, upper⟩ := inside
  have copies : (copy + 1) * v.sectorsPerFat ≤ v.numFats * v.sectorsPerFat :=
    Nat.mul_le_mul_right _ valid
  rw [Nat.succ_mul] at copies
  rw [Volume.fatEntries] at known
  rw [fatWord] at lower upper
  rw [Volume.rootStart]
  omega

theorem zeroSectors_reliable (reliable : Reliable d) {first remaining s : Nat} :
    ∃ after, zeroSectors first remaining s d = (true, after) ∧
      Becomes d after (d.bytes.fill ((first + s) * 512) (remaining * 512) 0) := by
  induction remaining generalizing s d with
  | zero =>
      refine ⟨d, rfl, ?_, rfl, rfl⟩
      funext address
      exact (Mem.fill_outside _ 0 (by omega)).symm
  | succ remaining ih =>
      rw [zeroSectors, ataWriteSector_reliable reliable]
      obtain ⟨after, done, becomes⟩ := @ih
        { d.called with bytes := d.overwrite (first + s) fun _ => 0 } reliable (s + 1)
      refine ⟨after, done, ?_, becomes.faults, becomes.allocated⟩
      have next : (first + (s + 1)) * 512 = (first + s) * 512 + 512 := Nat.succ_mul (first + s) 512
      have length : (remaining + 1) * 512 = 512 + remaining * 512 := by ring
      have cleared : d.overwrite (first + s) (fun _ => 0) = d.bytes.fill ((first + s) * 512) 512 0 := rfl
      rw [becomes.bytes, next, length]
      dsimp only
      rw [cleared, Mem.fill_append]

structure TakesCluster (v : Volume) (d after : Disk) (fresh : Nat) : Prop where
  two : 2 ≤ fresh
  small : fresh < 0xFFF0
  free : fatEntry v d.bytes fresh = 0
  bytes : after.bytes =
    (fatStored v fresh 0xFFFF v.numFats 0 d.bytes).fill (clusterBase v fresh) v.clusterSize 0
  faults : after.faults = d.faults
  allocated : after.allocated = fresh :: d.allocated

theorem allocateFrom_reliable (reliable : Reliable d) {remaining i : Nat} (two : 2 ≤ i)
    (range : i + remaining = 0xFFF0) {fresh : Nat} (took : allocateFrom v remaining i d =
    (fresh, after)) (some : fresh ≠ 0) : TakesCluster v d after fresh := by
  induction remaining generalizing i d with
  | zero =>
      cases took
      exact absurd rfl some
  | succ remaining ih =>
      rw [allocateFrom, fat16ReadFatEntry_reliable reliable two] at took
      dsimp only at took
      split at took
      next free =>
        obtain ⟨marked, done, marks⟩ := @fat16WriteFatEntry_reliable
          { d.called with allocated := i :: d.called.allocated } v i 0xFFFF reliable two
        obtain ⟨cleared, zeroed, clears⟩ := @zeroSectors_reliable marked (marks.reliable reliable)
          (v.clusterSector i) v.sectorsPerCluster 0
        rw [done] at took
        dsimp only at took
        rw [zeroed] at took
        cases took
        refine ⟨two, by omega, free, ?_, clears.faults.trans marks.faults,
          clears.allocated.trans marks.allocated⟩
        rw [clears.bytes, marks.bytes]
        rfl
      next taken =>
        have later := ih (called_reliable reliable) (by omega) (by omega) took
        exact ⟨later.two, later.small, later.free, later.bytes, later.faults, later.allocated⟩

theorem fat16AllocateCluster_reliable (reliable : Reliable d) {fresh : Nat}
    (took : fat16AllocateCluster v d = (fresh, after)) (some : fresh ≠ 0) :
    TakesCluster v d after fresh :=
  allocateFrom_reliable reliable (Nat.le_refl 2) (by norm_num) took some

end Becomes

def ValidCluster (v : Volume) (cluster : Nat) : Prop :=
  2 ≤ cluster ∧ cluster < 0xFFF8 ∧ cluster < v.fatEntries

def NamesNext (v : Volume) (bytes : Mem) (cluster : Nat) : List Nat → Prop
  | [] => 0xFFF8 ≤ fatEntry v bytes cluster
  | next :: _ => fatEntry v bytes cluster = next

def Chain (v : Volume) (bytes : Mem) : List Nat → Prop
  | [] => True
  | cluster :: rest => ValidCluster v cluster ∧ NamesNext v bytes cluster rest ∧ Chain v bytes rest

section Chain

variable {v : Volume} {bytes other : Mem} {chain : List Nat} {cluster : Nat}

theorem Chain.valid (linked : Chain v bytes chain) (member : cluster ∈ chain) :
    ValidCluster v cluster := by
  induction chain with
  | nil => cases member
  | cons first rest ih =>
      rcases List.mem_cons.mp member with rfl | later
      · exact linked.1
      · exact ih linked.2.2 later

theorem Chain.nonzero (linked : Chain v bytes chain) (member : cluster ∈ chain) :
    fatEntry v bytes cluster ≠ 0 := by
  induction chain with
  | nil => cases member
  | cons first rest ih =>
      rcases List.mem_cons.mp member with rfl | later
      · cases rest with
        | nil =>
            have mark : 0xFFF8 ≤ fatEntry v bytes cluster := linked.2.1
            omega
        | cons next more =>
            have named : fatEntry v bytes cluster = next := linked.2.1
            have two := linked.2.2.1.1
            omega
      · exact ih linked.2.2 later

theorem Chain.congr (linked : Chain v bytes chain)
    (same : ∀ cluster ∈ chain, fatEntry v other cluster = fatEntry v bytes cluster) :
    Chain v other chain := by
  induction chain with
  | nil => trivial
  | cons first rest ih =>
      obtain ⟨valid, links, later⟩ := linked
      have here := same first List.mem_cons_self
      refine ⟨valid, ?_, ih later fun cluster member => same cluster (List.mem_cons_of_mem _ member)⟩
      cases rest with
      | nil =>
          change 0xFFF8 ≤ _
          rw [here]
          exact links
      | cons next more => exact here.trans links

theorem Chain.unique {rest again : List Nat} (linked : Chain v bytes (cluster :: rest))
    (relinked : Chain v bytes (cluster :: again)) : rest = again := by
  induction rest generalizing cluster again with
  | nil =>
      cases again with
      | nil => rfl
      | cons next more =>
          have mark : 0xFFF8 ≤ fatEntry v bytes cluster := linked.2.1
          have named : fatEntry v bytes cluster = next := relinked.2.1
          have small := relinked.2.2.1.2.1
          omega
  | cons next more ih =>
      have named : fatEntry v bytes cluster = next := linked.2.1
      cases again with
      | nil =>
          have mark : 0xFFF8 ≤ fatEntry v bytes cluster := relinked.2.1
          have small := linked.2.2.1.2.1
          omega
      | cons second others =>
          have renamed : fatEntry v bytes cluster = second := relinked.2.1
          have same : next = second := named.symm.trans renamed
          subst same
          rw [ih linked.2.2 relinked.2.2]

theorem Chain.suffix {front back : List Nat} (linked : Chain v bytes (front ++ back)) :
    Chain v bytes back := by
  induction front with
  | nil => exact linked
  | cons first rest ih => exact ih linked.2.2

theorem Chain.nodup (linked : Chain v bytes chain) : chain.Nodup := by
  induction chain with
  | nil => exact List.nodup_nil
  | cons first rest ih =>
      refine List.nodup_cons.mpr ⟨fun member => ?_, ih linked.2.2⟩
      obtain ⟨front, back, split⟩ := List.append_of_mem member
      have again : Chain v bytes (first :: back) := Chain.suffix (split ▸ linked.2.2)
      have same := congrArg List.length (linked.unique again)
      rw [split, List.length_append, List.length_cons] at same
      omega

theorem Chain.next {index : Nat} (linked : Chain v bytes chain) (here : chain[index]? = some cluster) :
    (index + 1 < chain.length ∧ chain[index + 1]? = some (fatEntry v bytes cluster)) ∨
      (index + 1 = chain.length ∧ 0xFFF8 ≤ fatEntry v bytes cluster) := by
  induction chain generalizing index with
  | nil => simp at here
  | cons first rest ih =>
      cases index with
      | zero =>
          simp only [List.getElem?_cons_zero, Option.some.injEq] at here
          subst here
          cases rest with
          | nil => exact Or.inr ⟨rfl, linked.2.1⟩
          | cons next more =>
              have named : fatEntry v bytes first = next := linked.2.1
              exact Or.inl ⟨by simp, by simp [named]⟩
      | succ index =>
          rw [List.getElem?_cons_succ] at here
          rcases ih linked.2.2 here with ⟨inside, next⟩ | ⟨last, mark⟩
          · exact Or.inl ⟨by simpa using inside, by simpa using next⟩
          · exact Or.inr ⟨by simpa using last, mark⟩

theorem Chain.snoc {last fresh : Nat} (linked : Chain v bytes (chain ++ [last]))
    (valid : ValidCluster v fresh) (link : fatEntry v other last = fresh)
    (mark : 0xFFF8 ≤ fatEntry v other fresh)
    (same : ∀ cluster ∈ chain, fatEntry v other cluster = fatEntry v bytes cluster) :
    Chain v other (chain ++ [last] ++ [fresh]) := by
  induction chain with
  | nil => exact ⟨linked.1, link, valid, mark, trivial⟩
  | cons first rest ih =>
      obtain ⟨firstValid, links, later⟩ := linked
      refine ⟨firstValid, ?_, ih later fun cluster member => same cluster (List.mem_cons_of_mem _ member)⟩
      have here := same first List.mem_cons_self
      cases rest with
      | nil => exact here.trans links
      | cons next more => exact here.trans links

def chainAddr (v : Volume) (chain : List Nat) (position : Nat) : Nat :=
  clusterBase v (chain.getD (position / v.clusterSize) 0) + position % v.clusterSize

theorem position_cluster {position : Nat} (inside : position < chain.length * v.clusterSize) :
    position / v.clusterSize < chain.length :=
  (Nat.div_lt_iff_lt_mul (clusterSize_pos v)).mpr inside

theorem chainAddr_area {position : Nat} (inside : position < chain.length * v.clusterSize) :
    ∃ cluster ∈ chain, chain[position / v.clusterSize]? = some cluster ∧
      chainAddr v chain position ∈ clusterArea v cluster := by
  have bound := position_cluster inside
  refine ⟨chain[position / v.clusterSize], List.getElem_mem bound, List.getElem?_eq_getElem bound, ?_⟩
  rw [chainAddr, List.getD_eq_getElem _ _ bound]
  exact ⟨Nat.le_add_right _ _, Nat.add_lt_add_left (Nat.mod_lt _ (clusterSize_pos v)) _⟩

theorem chainAddr_at {position index offset : Nat} (here : chain[index]? = some cluster)
    (within : offset < v.clusterSize) (isPosition : position = index * v.clusterSize + offset) :
    chainAddr v chain position = clusterBase v cluster + offset := by
  have positive := clusterSize_pos v
  have index' : position / v.clusterSize = index := by
    rw [isPosition, Nat.mul_comm, Nat.mul_add_div positive, Nat.div_eq_of_lt within, Nat.add_zero]
  have offset' : position % v.clusterSize = offset := by
    rw [isPosition, Nat.mul_comm, Nat.mul_add_mod, Nat.mod_eq_of_lt within]
  obtain ⟨bound, isCluster⟩ := List.getElem?_eq_some_iff.mp here
  rw [chainAddr, index', offset', List.getD_eq_getElem _ _ bound, isCluster]

theorem chainAddr_between {position index start count : Nat} (linked : Chain v bytes chain)
    (here : chain[index]? = some cluster) (fits : start + count ≤ v.clusterSize)
    (inside : position < chain.length * v.clusterSize) :
    (clusterBase v cluster + start ≤ chainAddr v chain position ∧
      chainAddr v chain position < clusterBase v cluster + (start + count)) ↔
    (index * v.clusterSize + start ≤ position ∧ position < index * v.clusterSize + (start + count)) := by
  have split := Nat.div_add_mod' position v.clusterSize
  have small := Nat.mod_lt position (clusterSize_pos v)
  obtain ⟨bound, isCluster⟩ := List.getElem?_eq_some_iff.mp here
  have itsBound := position_cluster inside
  by_cases same : position / v.clusterSize = index
  · have address := chainAddr_at here small (same ▸ split.symm)
    rw [address]
    rw [same] at split
    omega
  · obtain ⟨its, itsMember, itsHere, area⟩ := chainAddr_area inside
    have different : its ≠ cluster := by
      intro equal
      obtain ⟨itsIndex, isIts⟩ := List.getElem?_eq_some_iff.mp itsHere
      exact same ((linked.nodup.getElem_inj_iff).mp (isIts.trans (equal.trans isCluster.symm)))
    have member : cluster ∈ chain := isCluster ▸ List.getElem_mem bound
    have outside := clusterArea_disjoint (linked.valid itsMember).1 (linked.valid member).1 different area
    constructor
    · rintro ⟨lower, upper⟩
      exact absurd ⟨by omega, by omega⟩ outside
    · rintro ⟨lower, upper⟩
      refine absurd ?_ same
      refine (Nat.div_eq_iff (clusterSize_pos v)).mpr ⟨by omega, ?_⟩
      omega

end Chain

end Szczupak
