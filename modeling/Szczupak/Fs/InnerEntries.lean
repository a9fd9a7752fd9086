import Szczupak.Fs.ChainFaults

/-!
The entries of directories below the root.  They lie in the clusters of their directory, so they
stay where those clusters keep their bytes and their place in the table, and a directory that
`fat16_directory_cluster_empty` takes for empty has none.
-/

namespace Szczupak

def KeepsCluster (v : Volume) (bytes other : Mem) (cluster : Nat) : Prop :=
  fatEntry v other cluster = fatEntry v bytes cluster ∧ ∀ address ∈ clusterArea v cluster,
    other address = bytes address

def KeptChain (v : Volume) (bytes other : Mem) (start : Nat) : Prop :=
  ∃ chain, ChainFrom v bytes start chain ∧ ∀ cluster ∈ chain, KeepsCluster v bytes other cluster

section Kept

variable {v : Volume} {bytes other : Mem} {start index address : Nat} {chain : List Nat}

theorem KeepsCluster.trans {cluster : Nat} {middle last : Mem}
    (first : KeepsCluster v bytes middle cluster)
    (second : KeepsCluster v middle last cluster) : KeepsCluster v bytes last cluster :=
  ⟨second.1.trans first.1, fun address inside => (second.2 address inside).trans
    (first.2 address inside)⟩

theorem ChainFrom.kept (chained : ChainFrom v bytes start chain)
    (keeps : ∀ cluster ∈ chain, KeepsCluster v bytes other cluster) : ChainFrom v other start chain :=
  chained.congr fun cluster member => (keeps cluster member).1

theorem KeptChain.back (kept : KeptChain v bytes other start) : KeptChain v other bytes start := by
  obtain ⟨chain, chained, keeps⟩ := kept
  refine ⟨chain, chained.kept keeps, fun cluster member => ?_⟩
  obtain ⟨entry, area⟩ := keeps cluster member
  exact ⟨entry.symm, fun address inside => (area address inside).symm⟩

theorem clusterSize_entries : v.clusterSize = 32 * (v.sectorsPerCluster * 16) := by
  rw [Volume.clusterSize]
  omega

theorem entry_cluster (inside : index * 32 < chain.length * v.clusterSize) :
    ∃ cluster ∈ chain, ∀ k < 32, chainAddr v chain (index * 32) + k ∈ clusterArea v cluster := by
  obtain ⟨cluster, member, here, _⟩ := chainAddr_area inside
  have within := Nat.mod_lt (index * 32) (clusterSize_pos v)
  have base := chainAddr_at here within (Nat.div_add_mod' _ _).symm
  have aligned : index * 32 % v.clusterSize = 32 * (index % (v.sectorsPerCluster * 16)) := by
    rw [clusterSize_entries, Nat.mul_comm index 32, Nat.mul_mod_mul_left]
  refine ⟨cluster, member, fun k small => ?_⟩
  rw [base, Nat.add_assoc]
  refine ⟨Nat.le_add_right _ _, Nat.add_lt_add_left ?_ _⟩
  rw [aligned, clusterSize_entries] at within ⊢
  omega

theorem KeptChain.entry (kept : KeptChain v bytes other start) (entry : EntryIn v bytes start address) :
    EntryIn v other start address ∧ ∀ k < 32, other (address + k) = bytes (address + k) := by
  obtain ⟨chain, chained, keeps⟩ := kept
  obtain ⟨again, index, rechained, inside, isAddress, live, goesOn⟩ := entry
  rw [rechained.unique chained] at inside isAddress goesOn
  have same : ∀ index, index * 32 < chain.length * v.clusterSize → ∀ k < 32,
      other (chainAddr v chain (index * 32) + k) = bytes (chainAddr v chain (index * 32) + k) := by
    intro index inside k small
    obtain ⟨cluster, member, area⟩ := entry_cluster inside
    exact (keeps cluster member).2 _ (area k small)
  have here := same index inside
  rw [← isAddress] at here
  refine ⟨⟨chain, index, chained.kept keeps, inside, isAddress, ?_, fun earlier before => ?_⟩, here⟩
  · rw [innerLive, show other address = bytes address from here 0 (by decide), here 11 (by decide)]
    exact live
  · have first := same earlier (by omega) 0 (by decide)
    rw [Nat.add_zero] at first
    rw [first]
    exact goesOn earlier before

theorem entry_same {address : Nat} (same : ∀ k < 32, other (address + k) = bytes (address + k)) :
    other (address + 11) = bytes (address + 11) ∧ other.readU16 (address + 26) =
    bytes.readU16 (address + 26) := by
  refine ⟨same 11 (by decide), Mem.readLE_congr fun offset bound => ?_⟩
  rw [Nat.add_assoc]
  exact same (26 + offset) (by omega)

theorem inner_iff {tops later : Set Nat}
    (inner : ∀ dir, Inner v bytes tops dir → KeptChain v bytes other (bytes.readU16 (dir + 26)))
    (leads : ∀ cluster ∈ tops, ∀ address, EntryIn v bytes cluster address →
      cluster ∈ later ∧ KeptChain v bytes other cluster)
    (comes : ∀ cluster ∈ later, ∀ address, EntryIn v other cluster address →
      cluster ∈ tops ∧ KeptChain v bytes other cluster) (address : Nat) :
    (Inner v other later address ↔ Inner v bytes tops address) ∧
      (Inner v bytes tops address → ∀ k < 32, other (address + k) = bytes (address + k)) := by
  have forward : ∀ address, Inner v bytes tops address → Inner v other later address ∧
      ∀ k < 32, other (address + k) = bytes (address + k) := by
    intro address isInner
    induction isInner with
    | top isTop entry =>
        obtain ⟨isLater, kept⟩ := leads _ isTop _ entry
        obtain ⟨still, same⟩ := kept.entry entry
        exact ⟨.top isLater still, same⟩
    | @under dir address above directory entry ih =>
        obtain ⟨again, itsSame⟩ := ih
        obtain ⟨attr, start⟩ := entry_same itsSame
        obtain ⟨still, same⟩ := (inner dir above).entry entry
        rw [← attr] at directory
        rw [← start] at still
        exact ⟨.under again directory still, same⟩
  have backward : Inner v other later address → Inner v bytes tops address := by
    intro isInner
    induction isInner with
    | top isLater entry =>
        obtain ⟨isTop, kept⟩ := comes _ isLater _ entry
        exact .top isTop (kept.back.entry entry).1
    | @under dir address above directory entry ih =>
        obtain ⟨attr, start⟩ := entry_same (forward dir ih).2
        rw [attr] at directory
        rw [start] at entry
        exact .under ih directory ((inner dir ih).back.entry entry).1
  exact ⟨⟨backward, fun isInner => (forward address isInner).1⟩,
    fun isInner => (forward address isInner).2⟩

end Kept

section Empty

variable {v : Volume} {d after : Disk} {sector : Mem} {remaining slot : Nat}

def slotPassed (sector : Mem) (slot : Nat) : Prop :=
  sector (slot * 32) = 0xE5 ∨ entryAttr sector slot = 0x0F ∨ sector (slot * 32) = 46

theorem sectorEmpty_cases : (sectorEmpty sector remaining slot = some true →
      ∃ last, slot ≤ last ∧ last < slot + remaining ∧ sector (last * 32) = 0 ∧
        ∀ earlier, slot ≤ earlier → earlier < last → slotPassed sector earlier) ∧
    (sectorEmpty sector remaining slot = none →
      ∀ earlier, slot ≤ earlier → earlier < slot + remaining → slotPassed sector earlier) := by
  induction remaining generalizing slot with
  | zero => exact ⟨nofun, fun _ earlier _ _ => by omega⟩
  | succ remaining ih =>
      rw [sectorEmpty]
      split
      next ends =>
        exact ⟨fun _ => ⟨slot, Nat.le_refl _, by omega, ends, fun earlier _ _ => by omega⟩, nofun⟩
      next =>
        split
        next passed =>
          have extends' : ∀ last, (∀ earlier, slot + 1 ≤ earlier → earlier < last → slotPassed sector earlier) →
              ∀ earlier, slot ≤ earlier → earlier < last → slotPassed sector earlier := by
            intro last rest earlier lower upper
            rcases Nat.eq_or_lt_of_le lower with rfl | later
            · exact passed
            · exact rest earlier later upper
          refine ⟨fun empty => ?_, fun none => ?_⟩
          · obtain ⟨last, lower, upper, ends, rest⟩ := ih.1 empty
            exact ⟨last, by omega, by omega, ends, extends' last rest⟩
          · intro earlier lower upper
            exact extends' _ (ih.2 none) earlier lower (by omega)
        next => exact ⟨nofun, nofun⟩

def bytesFrom (bytes : Mem) (first : Nat) : Mem := fun index => bytes (first * 512 + index)

theorem slotPassed_sector {first s slot : Nat} :
    slotPassed (d.sector (first + s)) slot ↔ slotPassed (bytesFrom d.bytes first) (s * 16 + slot) := by
  have shift : ∀ k, (first + s) * 512 + (slot * 32 + k) = first * 512 + ((s * 16 + slot) * 32 + k) := by
    intro k
    rw [Nat.add_mul first s]
    omega
  have here : (first + s) * 512 + slot * 32 = first * 512 + (s * 16 + slot) * 32 := shift 0
  simp only [slotPassed, entryAttr, Disk.sector, bytesFrom, shift, here]

theorem clusterEmpty_cases {first s : Nat} :
    (∀ after, clusterEmpty first remaining s d = (some true, after) →
      ∃ last, s * 16 ≤ last ∧ last < (s + remaining) * 16 ∧ bytesFrom d.bytes first (last * 32) = 0 ∧
        ∀ earlier, s * 16 ≤ earlier → earlier < last → slotPassed (bytesFrom d.bytes first) earlier) ∧
    (∀ after, clusterEmpty first remaining s d = (none, after) → after.bytes = d.bytes ∧
      after.faults = d.faults ∧ ∀ earlier, s * 16 ≤ earlier → earlier < (s + remaining) * 16 →
        slotPassed (bytesFrom d.bytes first) earlier) := by
  induction remaining generalizing s d with
  | zero =>
      refine ⟨fun after done => (by cases done), fun after none => ?_⟩
      cases none
      exact ⟨rfl, rfl, fun earlier _ _ => by omega⟩
  | succ remaining ih =>
      rw [clusterEmpty]
      cases fault : d.faults d.calls with
      | true =>
          rw [ataReadSector_fault fault]
          exact ⟨fun after done => (by cases done), fun after done => (by cases done)⟩
      | false =>
          rw [ataReadSector_clear fault]
          dsimp only
          obtain ⟨ends, passes⟩ := @sectorEmpty_cases (d.sector (first + s)) 16 0
          have translate : ∀ last ≤ 16, (∀ earlier, 0 ≤ earlier → earlier < last →
              slotPassed (d.sector (first + s)) earlier) → ∀ earlier, s * 16 ≤ earlier →
                earlier < s * 16 + last → slotPassed (bytesFrom d.bytes first) earlier := by
            intro last _ all earlier lower upper
            have here := slotPassed_sector.mp (all (earlier - s * 16) (Nat.zero_le _) (by omega))
            rwa [Nat.add_sub_cancel' lower] at here
          split
          next empty isResult =>
            refine ⟨fun after done => ?_, fun after done => (by cases done)⟩
            cases done
            obtain ⟨last, _, upper, mark, earlier⟩ := ends isResult
            have place : (first + s) * 512 + last * 32 = first * 512 + (s * 16 + last) * 32 := by omega
            refine ⟨s * 16 + last, Nat.le_add_right _ _, by omega, ?_, translate last (by omega) earlier⟩
            rw [bytesFrom, ← place]
            exact mark
          next isResult =>
            have here := translate 16 (Nat.le_refl _) fun earlier lower upper =>
              passes isResult earlier lower (by omega)
            obtain ⟨laterEnds, laterPasses⟩ := @ih d.called (s + 1)
            refine ⟨fun after done => ?_, fun after done => ?_⟩
            · obtain ⟨last, lower, upper, mark, earlier⟩ := laterEnds after done
              refine ⟨last, by omega, by omega, mark, fun slot from' before => ?_⟩
              by_cases inside : slot < s * 16 + 16
              · exact here slot from' inside
              · exact earlier slot (by omega) before
            · obtain ⟨bytes, faults, all⟩ := laterPasses after done
              refine ⟨bytes, faults, fun slot from' before => ?_⟩
              by_cases inside : slot < s * 16 + 16
              · exact here slot from' inside
              · exact all slot (by omega) (by omega)

theorem slotPassed_entry {cluster index : Nat} {address : Nat}
    (isAddress : address = clusterBase v cluster + index * 32)
    (passed : slotPassed (bytesFrom d.bytes (v.clusterSector cluster)) index) :
    ¬innerLive d.bytes address := by
  rintro ⟨_, notDeleted, notLong, notDot⟩
  have first : bytesFrom d.bytes (v.clusterSector cluster) (index * 32) = d.bytes address := by
    rw [isAddress]
    rfl
  have attr : entryAttr (bytesFrom d.bytes (v.clusterSector cluster)) index =
    d.bytes (address + 11) := by
    rw [isAddress, Nat.add_assoc]
    rfl
  rw [slotPassed, first, attr] at passed
  exact passed.elim notDeleted fun rest => rest.elim notLong notDot

theorem chainAddr_head {cluster position : Nat} {rest : List Nat} (inside : position < v.clusterSize) :
    chainAddr v (cluster :: rest) position = clusterBase v cluster + position := by
  rw [chainAddr, Nat.div_eq_of_lt inside, Nat.mod_eq_of_lt inside, List.getD_cons_zero]

theorem chainAddr_tail {cluster position : Nat} {rest : List Nat} :
    chainAddr v (cluster :: rest) (position + v.clusterSize) = chainAddr v rest position := by
  rw [chainAddr, Nat.add_div_right _ (clusterSize_pos v), Nat.add_mod_right,
    List.getD_cons_succ, chainAddr]

theorem directoryEmptyFrom_none {chain : List Nat} {cluster guard : Nat}
    (linked : Chain v d.bytes chain)
    (starts : StartsAt cluster chain ∨ chain = [] ∧ 0xFFF8 ≤ cluster) (enough : chain.length < guard)
    (whole : ChecksWhole v guard cluster d) (empty : directoryEmptyFrom v guard cluster d =
    (true, after)) {index : Nat} (inside : index * 32 < chain.length * v.clusterSize)
    (live : innerLive d.bytes (chainAddr v chain (index * 32))) :
    ∃ earlier < index, d.bytes (chainAddr v chain (earlier * 32)) = 0 := by
  induction chain generalizing cluster guard d index with
  | nil =>
      rw [List.length_nil, Nat.zero_mul] at inside
      exact absurd inside (Nat.not_lt_zero _)
  | cons first rest ih =>
      obtain ⟨guard, rfl⟩ := Nat.exists_eq_succ_of_ne_zero (Nat.ne_of_gt (Nat.zero_lt_of_lt enough))
      have isFirst : cluster = first := starts.resolve_right fun both => absurd both.1 (List.cons_ne_nil _ _)
      subst isFirst
      obtain ⟨⟨two, small, known⟩, links, later⟩ := linked
      have entries := @clusterSize_entries v
      generalize isCount : v.sectorsPerCluster * 16 = count at entries
      obtain ⟨ends, passes⟩ := @clusterEmpty_cases d v.sectorsPerCluster (v.clusterSector cluster) 0
      rw [Nat.zero_mul, Nat.zero_add, isCount] at ends passes
      have firstMark : ∀ last < count, bytesFrom d.bytes (v.clusterSector cluster) (last * 32) = 0 →
          d.bytes (chainAddr v (cluster :: rest) (last * 32)) = 0 := by
        intro last upper mark
        rw [chainAddr_head (by omega)]
        exact mark
      have notPassed : index < count → ¬slotPassed (bytesFrom d.bytes (v.clusterSector cluster)) index := by
        intro here passed
        exact slotPassed_entry (chainAddr_head (by omega)) passed live
      rw [directoryEmptyFrom, if_neg (by omega)] at empty
      split at empty
      next isEmpty middle looked =>
        cases empty
        obtain ⟨last, _, upper, mark, earlier⟩ := ends after looked
        have isEnd := firstMark last upper mark
        rcases Nat.lt_trichotomy index last with before | rfl | behind
        · exact absurd (earlier index (Nat.zero_le _) before) (notPassed (by omega))
        · exact absurd isEnd live.1
        · exact ⟨last, behind, isEnd⟩
      next middle looked =>
        obtain ⟨bytes, faults, all⟩ := passes middle looked
        have behind : count ≤ index := Nat.le_of_not_lt fun here =>
          notPassed here (all index (Nat.zero_le _) here)
        obtain ⟨position, rfl⟩ := Nat.exists_eq_add_of_le' behind
        have place : (position + count) * 32 = position * 32 + v.clusterSize := by omega
        rw [List.length_cons, Nat.succ_mul] at inside
        cases rest with
        | nil =>
            rw [List.length_nil, Nat.zero_mul] at inside
            omega
        | cons next more =>
            have named : fatEntry v d.bytes cluster = next := links
            have nextValid := later.1
            obtain ⟨reads, further⟩ := whole two small middle looked
            have clear : middle.faults middle.calls = false := by
              refine reads.resolve_right fun atEnd => ?_
              rw [EndsChain, named] at atEnd
              exact atEnd.elim (Nat.not_lt.mpr nextValid.1) (Nat.not_le.mpr nextValid.2.1)
            rw [fat16ReadFatEntry_eq two, clear, if_neg Bool.false_ne_true, bytes, named] at empty
            dsimp only at empty
            split at empty
            next => cases empty
            next =>
              rw [named] at further
              rw [place, chainAddr_tail] at live
              have found := @ih middle.called next guard
                (by rw [show middle.called.bytes = d.bytes from bytes]; exact later) (Or.inl rfl)
                (Nat.lt_of_succ_lt_succ enough) further empty position (by omega)
                (by rw [show middle.called.bytes = d.bytes from bytes]; exact live)
              obtain ⟨earlier, before, mark⟩ := found
              refine ⟨earlier + count, by omega, ?_⟩
              have itsPlace : (earlier + count) * 32 = earlier * 32 + v.clusterSize := by omega
              rw [itsPlace, chainAddr_tail, ← bytes]
              exact mark

theorem fat16DirectoryClusterEmpty_none {chain : List Nat} {cluster : Nat}
    (chained : ChainFrom v d.bytes cluster chain)
    (whole : ChecksWhole v 0x10000 cluster d) (empty : fat16DirectoryClusterEmpty v d cluster =
    (true, after)) (address : Nat) : ¬EntryIn v d.bytes cluster address := by
  rintro ⟨again, index, rechained, inside, isAddress, live, goesOn⟩
  rw [rechained.unique chained] at inside isAddress goesOn
  obtain ⟨starts, linked⟩ := chained
  rw [fat16DirectoryClusterEmpty] at empty
  split at empty
  next small =>
    rw [starts.empty small linked, List.length_nil, Nat.zero_mul] at inside
    exact absurd inside (Nat.not_lt_zero _)
  next =>
    rw [isAddress] at live
    obtain ⟨earlier, before, mark⟩ :=
      directoryEmptyFrom_none linked (Or.inl starts) linked.short whole empty inside live
    exact goesOn earlier before mark

end Empty

end Szczupak
