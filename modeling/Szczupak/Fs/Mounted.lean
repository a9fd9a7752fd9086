import Mathlib.Data.List.Perm.Basic
import Szczupak.Fs.RootDirectory

/-!
What `fat16_create` finds in the root directory.  The nodes are read off the slots of the whole
table; an entry that is put into a slot adds its node to them, an entry that is given up takes
its node away.
-/

namespace Szczupak

def entryNode (root : Mem) (slot : Nat) : Fat16Node :=
  ⟨mountedName (entryName root slot), (entryAttr root slot).toNat / 16 % 2 = 1, entrySize root slot,
    entryCluster root slot⟩

def mountedNodes (v : Volume) (bytes : Mem) : List Fat16Node :=
  (mountSlots (rootMem v bytes) v.rootSlots 0).1

section Slots

variable {root other : Mem} {count slot : Nat}

theorem SameEntry.node (same : SameEntry root other slot) :
    entryNode other slot = entryNode root slot := by
  rw [entryNode, entryNode, same.name, same.attr, same.size, same.cluster]

theorem mountSlots_live {remaining : Nat} (live : entryLive root slot = true) :
    mountSlots root (remaining + 1) slot =
      (entryNode root slot :: (mountSlots root remaining (slot + 1)).1,
        (mountSlots root remaining (slot + 1)).2) := by
  simp only [entryLive, entryFree, Bool.and_eq_true, Bool.not_eq_true', Bool.or_eq_false_iff,
    beq_eq_false_iff_ne, bne_iff_ne] at live
  rw [mountSlots, if_neg live.1.1]
  dsimp only
  rw [if_neg (not_or.mpr ⟨live.1.2, live.2⟩), entryNode]

theorem mountSlots_deleted {remaining : Nat} (deleted : root (slot * 32) = 0xE5) :
    mountSlots root (remaining + 1) slot = mountSlots root remaining (slot + 1) := by
  rw [mountSlots, if_neg (by rw [deleted]; decide)]
  exact if_pos (Or.inl deleted)

theorem mountSlots_end {remaining : Nat} (ends : root (slot * 32) = 0) :
    mountSlots root (remaining + 1) slot = ([], true) := by
  rw [mountSlots, if_pos ends]

theorem mountSlots_append {more : Nat} :
    mountSlots root (count + more) slot =
      if (mountSlots root count slot).2 = true then mountSlots root count slot
      else ((mountSlots root count slot).1 ++ (mountSlots root more (slot + count)).1,
        (mountSlots root more (slot + count)).2) := by
  induction count generalizing slot with
  | zero =>
      rw [Nat.zero_add, mountSlots]
      rfl
  | succ count ih =>
      have next : slot + 1 + count = slot + (count + 1) := by omega
      rw [Nat.succ_add, mountSlots, mountSlots, ih, next]
      split
      next => rfl
      next =>
        dsimp only
        split
        next => rfl
        next =>
          dsimp only
          split <;> rfl

theorem mountSlots_reach {more : Nat} (open' : ∀ earlier, slot ≤ earlier → earlier < slot + count →
    root (earlier * 32) ≠ 0) :
    (mountSlots root (count + more) slot).1 =
      (mountSlots root count slot).1 ++ (mountSlots root more (slot + count)).1 := by
  have goesOn : (mountSlots root count slot).2 = false := by
    clear more
    induction count generalizing slot with
    | zero => rfl
    | succ count ih =>
        have rest := @ih (slot + 1) fun earlier lower upper => open' earlier (by omega) (by omega)
        rw [mountSlots, if_neg (open' slot (Nat.le_refl _) (by omega))]
        dsimp only
        split
        next => exact rest
        next => exact rest
  rw [mountSlots_append, goesOn]
  rfl

theorem mountSlots_congr (same : ∀ index, slot ≤ index → index < slot + count →
    SameEntry root other index) : mountSlots other count slot = mountSlots root count slot := by
  induction count generalizing slot with
  | zero => rfl
  | succ count ih =>
      have here := same slot (Nat.le_refl _) (by omega)
      have rest := @ih (slot + 1) fun index lower upper => same index (by omega) (by omega)
      rw [mountSlots, mountSlots, rest, here.first, here.attr, here.name, here.size, here.cluster]

theorem mountSlots_sector {sectorIndex : Nat} :
    mountSlots (sectorOf root sectorIndex) count slot = mountSlots root count
    (sectorIndex * 16 + slot) := by
  induction count generalizing slot with
  | zero => rfl
  | succ count ih =>
      obtain ⟨first, name, attr, cluster, size⟩ := @entry_sectorOf root slot sectorIndex
      rw [mountSlots, mountSlots, ih, first, name, attr, cluster, size, Nat.add_assoc]

end Slots

section Mount

variable {v : Volume} {d : Disk} {index : Nat}

theorem mountRoot_reliable (reliable : Reliable d) {remaining sectorIndex : Nat} :
    ∃ after, mountRoot v remaining sectorIndex d =
        ((mountSlots (rootMem v d.bytes) (remaining * 16) (sectorIndex * 16)).1, after) ∧
      Changes ∅ d after := by
  induction remaining generalizing sectorIndex d with
  | zero =>
      rw [Nat.zero_mul]
      exact ⟨d, rfl, Changes.refl d⟩
  | succ remaining ih =>
      obtain ⟨after, rest, changes⟩ := @ih d.called reliable (sectorIndex + 1)
      have slots : (remaining + 1) * 16 = 16 + remaining * 16 := by omega
      have next : (sectorIndex + 1) * 16 = sectorIndex * 16 + 16 := by omega
      rw [mountRoot, ataReadSector_reliable reliable]
      dsimp only
      rw [sector_rootMem, mountSlots_sector, Nat.add_zero, slots, mountSlots_append]
      rw [next] at rest
      cases mountSlots (rootMem v d.bytes) 16 (sectorIndex * 16) with
      | mk nodes ended =>
          cases ended with
          | true => exact ⟨d.called, rfl, called_changes⟩
          | false =>
              dsimp only
              rw [rest]
              exact ⟨after, rfl, called_changes.trans changes⟩

theorem fat16Create_reliable (reliable : Reliable d) :
    ∃ after, fat16Create v d = (mountedNodes v d.bytes, after) ∧ Changes ∅ d after := by
  have scanned := @mountRoot_reliable v d reliable v.rootSectors 0
  rwa [Nat.zero_mul] at scanned

end Mount

section Changed

variable {v : Volume} {d after : Disk} {index : Nat} {name83 : List UInt8}

/-- Behind the end of the directory nothing shows up when the slot of the end mark is taken. -/
def TidyEnd (v : Volume) (bytes : Mem) : Prop :=
  ∀ slot < v.rootSlots, (∀ earlier < slot, entryFree (rootMem v bytes) earlier = false) →
    rootMem v bytes (slot * 32) = 0 →
    (mountSlots (rootMem v bytes) (v.rootSlots - (slot + 1)) (slot + 1)).1 = []

instance (v : Volume) (bytes : Mem) : Decidable (TidyEnd v bytes) :=
  inferInstanceAs (Decidable (∀ slot < v.rootSlots, (∀ earlier < slot, _) → _ = _ → _ = _))

theorem mountedNodes_split {bytes : Mem} (bound : index < v.rootSlots)
    (open' : ∀ earlier < index, rootMem v bytes (earlier * 32) ≠ 0) :
    mountedNodes v bytes = (mountSlots (rootMem v bytes) index 0).1 ++
      (mountSlots (rootMem v bytes) (v.rootSlots - (index + 1) + 1) index).1 := by
  have whole : v.rootSlots = index + (v.rootSlots - (index + 1) + 1) := by omega
  have reach := @mountSlots_reach (rootMem v bytes) index 0 (v.rootSlots - (index + 1) + 1)
    fun earlier _ upper => open' earlier (by omega)
  rw [Nat.zero_add] at reach
  rw [mountedNodes]
  conv_lhs => rw [whole]
  exact reach

theorem EntryPut.nodes {attr : UInt8} {cluster : Nat}
    (put : EntryPut v (rootMem v d.bytes) (rootMem v after.bytes) index name83 attr cluster)
    (bound : index < v.rootSlots) (free : entryFree (rootMem v d.bytes) index = true)
    (taken : ∀ earlier < index, entryFree (rootMem v d.bytes) earlier = false)
    (tidy : TidyEnd v d.bytes) (visible : name83.getD 0 0 ≠ 0 ∧ name83.getD 0 0 ≠ 0xE5)
    (ordinary : attr ≠ 0x0F) (small : cluster < 65536) :
    (mountedNodes v after.bytes).Perm
      (⟨mountedName name83, attr.toNat / 16 % 2 = 1, 0, cluster⟩ :: mountedNodes v d.bytes) := by
  have notEnd : ∀ earlier < index, rootMem v d.bytes (earlier * 32) ≠ 0 := by
    intro earlier before ends
    have used := taken earlier before
    rw [entryFree, ends] at used
    cases used
  have others : ∀ slot < index, SameEntry (rootMem v d.bytes) (rootMem v after.bytes) slot :=
    fun slot before => put.others slot (by omega) (by omega)
  have before := @mountSlots_congr (rootMem v d.bytes) (rootMem v after.bytes) index 0
    fun slot _ upper => others slot (by omega)
  have behind := @mountSlots_congr (rootMem v d.bytes) (rootMem v after.bytes)
    (v.rootSlots - (index + 1)) (index + 1) fun slot lower upper =>
    put.others slot (by omega) (by omega)
  have live : entryLive (rootMem v after.bytes) index = true := by
    simp only [entryLive, entryFree, put.first, put.attr, Bool.and_eq_true, Bool.not_eq_true',
      Bool.or_eq_false_iff, beq_eq_false_iff_ne, bne_iff_ne]
    exact ⟨visible, ordinary⟩
  have node : entryNode (rootMem v after.bytes) index =
      ⟨mountedName name83, attr.toNat / 16 % 2 = 1, 0, cluster⟩ := by
    rw [entryNode, put.name, put.attr, put.size, put.cluster small]
  have old : mountedNodes v d.bytes = (mountSlots (rootMem v d.bytes) index 0).1 ++
      (mountSlots (rootMem v d.bytes) (v.rootSlots - (index + 1)) (index + 1)).1 := by
    rw [mountedNodes_split bound notEnd]
    rw [entryFree, Bool.or_eq_true, beq_iff_eq, beq_iff_eq] at free
    rcases free with ends | deleted
    · rw [mountSlots_end ends, tidy index bound taken ends]
    · rw [mountSlots_deleted deleted]
  rw [mountedNodes_split bound fun slot earlier => (others slot earlier).first ▸
    notEnd slot earlier, mountSlots_live live, before, behind, node, old]
  exact List.perm_middle

theorem EntryGone.nodes (gone : EntryGone v (rootMem v d.bytes) (rootMem v after.bytes) index)
    (bound : index < v.rootSlots) (live : entryLive (rootMem v d.bytes) index = true)
    (notEnd : ∀ earlier < index, rootMem v d.bytes (earlier * 32) ≠ 0) :
    (mountedNodes v d.bytes).Perm
      (entryNode (rootMem v d.bytes) index :: mountedNodes v after.bytes) := by
  have others : ∀ slot < index, SameEntry (rootMem v d.bytes) (rootMem v after.bytes) slot :=
    fun slot before => gone.others slot (by omega) (by omega)
  have before := @mountSlots_congr (rootMem v d.bytes) (rootMem v after.bytes) index 0
    fun slot _ upper => others slot (by omega)
  have behind := @mountSlots_congr (rootMem v d.bytes) (rootMem v after.bytes)
    (v.rootSlots - (index + 1)) (index + 1) fun slot lower upper =>
    gone.others slot (by omega) (by omega)
  rw [mountedNodes_split bound notEnd,
    mountedNodes_split bound fun slot earlier => (others slot earlier).first ▸ notEnd slot earlier,
    mountSlots_live live, mountSlots_deleted gone.first, before, behind]
  exact List.perm_middle

theorem mountedNodes_quiet {area : Set Nat} (changes : Changes area d after)
    (apart : area ⊆ fatArea v ∪ dataArea v) : mountedNodes v after.bytes = mountedNodes v d.bytes := by
  rw [mountedNodes, mountedNodes]
  exact congrArg Prod.fst (mountSlots_congr fun slot _ upper => changes.sameEntry apart (by omega))

end Changed

end Szczupak
