import Szczupak.Fs.HolderCalls
import Szczupak.Fs.Mounted

/-!
The nodes that `fat16_create` makes of the entries of the root directory: a node gets the entry
that its block came with, an entry for which the heap had no block keeps its clusters alone.  So a
volume that is accounted for is accounted for when it has been mounted.
-/

namespace Szczupak

section Slots

variable {v : Volume} {d : Disk} {root : Mem} {count slot : Nat}

theorem countedSlots_mem {listed : Nat} (member : listed ∈ countedSlots root count slot) :
    (slot ≤ listed ∧ listed < slot + count) ∧ entryLive root listed = true ∧
      ∀ earlier, slot ≤ earlier → earlier < listed → root (earlier * 32) ≠ 0 := by
  induction count generalizing slot with
  | zero => cases member
  | succ count ih =>
      rw [countedSlots] at member
      split at member
      next => cases member
      next goesOn =>
        have later : listed ∈ countedSlots root count (slot + 1) →
            (slot ≤ listed ∧ listed < slot + (count + 1)) ∧ entryLive root listed = true ∧
              ∀ earlier, slot ≤ earlier → earlier < listed → root (earlier * 32) ≠ 0 := by
          intro behind
          obtain ⟨range, live, before⟩ := ih behind
          refine ⟨by omega, live, fun earlier lower upper => ?_⟩
          rcases Nat.eq_or_lt_of_le lower with rfl | beyond
          · exact goesOn
          · exact before earlier beyond upper
        split at member
        next => exact later member
        next counts =>
          obtain ⟨notDeleted, notLong⟩ := not_or.mp counts
          rcases List.mem_cons.mp member with rfl | behind
          · refine ⟨by omega, ?_, fun earlier lower upper => absurd upper (Nat.not_lt.mpr lower)⟩
            simp [entryLive, entryFree, goesOn, notDeleted, notLong]
          · exact later behind

theorem countedSlots_nodup : (countedSlots root count slot).Nodup := by
  induction count generalizing slot with
  | zero => exact List.nodup_nil
  | succ count ih =>
      rw [countedSlots]
      split
      next => exact List.nodup_nil
      next =>
        split
        next => exact ih
        next =>
          refine List.nodup_cons.mpr ⟨fun member => ?_, ih⟩
          exact absurd (countedSlots_mem member).1.1 (Nat.not_succ_le_self slot)

theorem mountSlots_counted : (mountSlots root count slot).1 =
    (countedSlots root count slot).map (entryNode root) := by
  induction count generalizing slot with
  | zero => rfl
  | succ count ih =>
      rw [mountSlots, countedSlots]
      split
      next => rfl
      next =>
        dsimp only
        split
        next => exact ih
        next =>
          rw [List.map_cons, ← ih]
          rfl

theorem countedSlots_append {more : Nat} : countedSlots root (count + more) slot =
    if (mountSlots root count slot).2 = true then countedSlots root count slot
    else countedSlots root count slot ++ countedSlots root more (slot + count) := by
  induction count generalizing slot with
  | zero =>
      rw [Nat.zero_add]
      rfl
  | succ count ih =>
      have next : slot + 1 + count = slot + (count + 1) := by omega
      rw [Nat.succ_add, countedSlots, countedSlots, mountSlots, ih, next]
      split
      next => rfl
      next =>
        dsimp only
        split
        next => rfl
        next =>
          dsimp only
          split <;> rfl

theorem countedSlots_sector {sectorIndex : Nat} :
    (countedSlots (sectorOf root sectorIndex) count slot).map (sectorIndex * 16 + ·) =
      countedSlots root count (sectorIndex * 16 + slot) := by
  induction count generalizing slot with
  | zero => rfl
  | succ count ih =>
      obtain ⟨first, _, attr, _, _⟩ := @entry_sectorOf root slot sectorIndex
      rw [countedSlots, countedSlots, first, attr, Nat.add_assoc, ← ih]
      split
      next => rfl
      next =>
        split
        next => rfl
        next => rfl

theorem mountedSlots_reliable (reliable : Reliable d) {remaining sectorIndex : Nat} :
    mountedSlots v remaining sectorIndex d =
      countedSlots (rootMem v d.bytes) (remaining * 16) (sectorIndex * 16) := by
  induction remaining generalizing sectorIndex d with
  | zero =>
      rw [Nat.zero_mul]
      rfl
  | succ remaining ih =>
      have slots : (remaining + 1) * 16 = 16 + remaining * 16 := by omega
      have next : (sectorIndex + 1) * 16 = sectorIndex * 16 + 16 := by omega
      rw [mountedSlots, ataReadSector_reliable reliable]
      dsimp only
      rw [sector_rootMem, mountSlots_sector, countedSlots_sector, Nat.add_zero, slots,
        countedSlots_append, @ih d.called reliable, next]
      rfl

end Slots

namespace Vfs

section Linked

variable {s after : Vfs} {root node block last : Nat} {made : VfsNode} {entries : List Fat16Node}
    {blocks : List Nat}

theorem modify_fat16Node {address : Nat} {change : VfsNode → VfsNode} (same : ∀ old : VfsNode,
    change old = { old with firstChild := (change old).firstChild, nextSibling :=
      (change old).nextSibling }) :
    (s.modify address change).fat16Node node = s.fat16Node node := by
  by_cases here : node = address
  · rw [here, fat16Node, modify_same, same]
    rfl
  · rw [fat16Node, modify_other here]
    rfl

structure Makes (s after : Vfs) (block : Nat) (made : VfsNode) : Prop where
  nodes : after.nodes = block :: s.nodes
  inUse : ∀ address, after.InUse address ↔ address = block ∨ s.InUse address
  new : after.fat16Node block = ⟨made.name, made.isDirectory, made.size, made.fsData % 2 ^ 16⟩
  old : ∀ node, node ≠ block → after.fat16Node node = s.fat16Node node

theorem linkMounted_turn : Makes s (if last = 0 then ({ s with
        node := Function.update s.node block made, nodes := block :: s.nodes } : Vfs).modify root
          fun old => { old with firstChild := block }
      else ({ s with node := Function.update s.node block made, nodes := block :: s.nodes } :
        Vfs).modify last fun old => { old with nextSibling := block }) block made := by
  have inUse : ∀ address, (address ∈ block :: s.nodes ∨ address ∈ s.filesystems ∨
      address ∈ s.datas ∨ address ∈ s.buffers) ↔ address = block ∨ s.InUse address := by
    intro address
    rw [List.mem_cons, or_assoc]
    rfl
  have new : ({ s with node := Function.update s.node block made, nodes := block :: s.nodes } :
    Vfs).fat16Node block =
      ⟨made.name, made.isDirectory, made.size, made.fsData % 2 ^ 16⟩ := by
    rw [fat16Node]
    dsimp only
    rw [Function.update_self]
  have old : ∀ node, node ≠ block → ({ s with
      node := Function.update s.node block made, nodes := block :: s.nodes } : Vfs).fat16Node node =
        s.fat16Node node := by
    intro node different
    rw [fat16Node]
    dsimp only
    rw [Function.update_of_ne different]
    rfl
  split
  next => exact ⟨rfl, inUse, (modify_fat16Node fun _ => rfl).trans new,
    fun node different => (modify_fat16Node fun _ => rfl).trans (old node different)⟩
  next => exact ⟨rfl, inUse, (modify_fat16Node fun _ => rfl).trans new,
    fun node different => (modify_fat16Node fun _ => rfl).trans (old node different)⟩

theorem linkMounted_old (known : node ∈ s.nodes) :
    node ∈ (linkMounted root entries blocks last s).nodes ∧
    (linkMounted root entries blocks last s).fat16Node node = s.fat16Node node := by
  induction entries generalizing s blocks last with
  | nil => exact ⟨known, rfl⟩
  | cons entry rest ih =>
      rw [linkMounted]
      dsimp only
      split
      next => exact ih known
      next got =>
        have makes := @linkMounted_turn s root (blocks.headD 0) last
          { s.freshNode root entry.name entry.isDirectory entry.cluster with size := entry.size }
        have different : node ≠ blocks.headD 0 := fun same => (kmalloc_fresh got).nodes (same ▸ known)
        obtain ⟨member, same⟩ := ih (makes.nodes ▸ List.mem_cons_of_mem _ known)
        exact ⟨member, same.trans (makes.old node different)⟩

theorem linkMounted_new (known : node ∈ (linkMounted root entries blocks last s).nodes) :
    node ∈ s.nodes ∨
    s.Fresh node ∧ node ∈ blocks ∧ ∃ entry, entries[blocks.idxOf node]? = some entry ∧
      (linkMounted root entries blocks last s).fat16Node node =
      { entry with cluster := entry.cluster % 2 ^ 16 } := by
  induction entries generalizing s blocks last with
  | nil => exact Or.inl known
  | cons entry rest ih =>
      rw [linkMounted] at known ⊢
      dsimp only at known ⊢
      cases blocks with
      | nil =>
          rw [List.headD_nil, show s.kmalloc 0 = 0 from ite_self 0, if_pos rfl] at known ⊢
          refine (ih known).imp id ?_
          rintro ⟨_, member, _⟩
          cases member
      | cons block later =>
          rw [List.headD_cons, List.tail_cons] at known ⊢
          split at known
          next used =>
            rw [if_pos used]
            rcases ih known with old | ⟨fresh, member, entry, there, same⟩
            · exact Or.inl old
            · have different : block ≠ node := by
                rintro rfl
                rw [kmalloc, if_neg fresh.2] at used
                exact fresh.1 used
              refine Or.inr ⟨fresh, List.mem_cons_of_mem _ member, entry, ?_, same⟩
              rw [List.idxOf_cons_ne _ different]
              exact there
          next got =>
            rw [if_neg got]
            have makes := @linkMounted_turn s root block last
              { s.freshNode root entry.name entry.isDirectory entry.cluster with size := entry.size }
            rcases ih known with old | ⟨fresh, member, other, there, same⟩
            · rcases List.mem_cons.mp (makes.nodes ▸ old) with isNew | before
              · subst isNew
                refine Or.inr ⟨kmalloc_fresh got, List.mem_cons_self, entry, ?_, ?_⟩
                · rw [List.idxOf_cons_self]
                  rfl
                · rw [(linkMounted_old old).2, makes.new]
                  rfl
              · exact Or.inl before
            · have apart := not_or.mp (fun used => fresh.2 ((makes.inUse node).mpr used))
              refine Or.inr ⟨⟨fresh.1, apart.2⟩, List.mem_cons_of_mem _ member, other, ?_, same⟩
              rw [List.idxOf_cons_ne _ (Ne.symm apart.1)]
              exact there

end Linked

end Vfs

namespace VolumeTree

/-- The nodes stand for entries, each for another one, but for a node without clusters. -/
structure StandsFor (v : Volume) (bytes : Mem) (s : VolumeTree) : Prop where
  disk : s.bytes = bytes
  node : ∀ node ∈ s.vfs.nodes, s.own node = none ∧ (s.vfs.fat16Node node).cluster = 0 ∨
    ∃ slot, s.own node = some slot ∧ LiveAt v bytes slot ∧
      (s.vfs.fat16Node node).cluster = entryCluster (rootMem v bytes) slot ∧
      ((s.vfs.fat16Node node).isDirectory = true ↔ attrIsDirectory (entryAttr (rootMem v bytes) slot))
  known : ∀ node slot, s.own node = some slot → node ∈ s.vfs.nodes
  once : ∀ node other slot, s.own node = some slot → s.own other = some slot → node = other

section Mount

variable {v : Volume} {d disk : Disk} {s : VolumeTree} {fs root : Nat} {blocks : List Nat}

theorem keep_standsFor {vfs : Vfs} {own : Nat → Option Nat} (d : Disk) (blocks : List Nat)
    (bytes : vfs.disk.bytes = d.bytes)
    (node : ∀ node ∈ vfs.nodes, own node = none ∧ (vfs.fat16Node node).cluster = 0 ∨
      node ∈ blocks ∧ own node = (countedSlots (rootMem v d.bytes) v.rootSlots 0)[blocks.idxOf
        node]? ∧ ∃ entry, (mountedNodes v d.bytes)[blocks.idxOf node]? = some entry ∧
          vfs.fat16Node node = { entry with cluster := entry.cluster % 2 ^ 16 }) :
    StandsFor v d.bytes (keep v vfs own) := by
  have slots : ∀ index slot : Nat, (countedSlots (rootMem v d.bytes) v.rootSlots 0)[index]? =
      some slot → LiveAt v d.bytes slot := by
    intro index slot here
    obtain ⟨range, live, before⟩ := countedSlots_mem (List.mem_of_getElem? here)
    exact ⟨by omega, live, fun earlier upper => before earlier (Nat.zero_le _) upper⟩
  refine ⟨bytes, fun one known => ?_, fun _ _ keeps => (keep_own keeps).1,
    fun one other slot keeps keepsToo => ?_⟩
  · rcases node one known with ⟨unowned, none⟩ | ⟨_, isSlot, entry, isEntry, same⟩
    · refine Or.inl ⟨?_, none⟩
      change (if one ∈ vfs.nodes then (own one).filter _ else _) = _
      rw [unowned]
      exact ite_self Option.none
    · rw [mountedNodes, mountSlots_counted, List.getElem?_map] at isEntry
      obtain ⟨slot, here, rfl⟩ := Option.map_eq_some_iff.mp isEntry
      have live := slots _ slot here
      refine Or.inr ⟨slot, (keep_own_iff known ?_).mpr (isSlot.trans here), live, ?_, ?_⟩
      · change LiveAt v vfs.disk.bytes slot
        rw [bytes]
        exact live
      · change (vfs.fat16Node one).cluster = _
        rw [same]
        exact Nat.mod_eq_of_lt ((rootMem v d.bytes).readLE_lt _ 2)
      · change (vfs.fat16Node one).isDirectory = true ↔ _
        rw [same]
        exact decide_eq_true_iff
  · have place : ∀ one, (keep v vfs own).own one = some slot →
        one ∈ blocks ∧ (countedSlots (rootMem v d.bytes) v.rootSlots 0)[blocks.idxOf one]? = some slot := by
      intro one keeps
      obtain ⟨known, owns, _⟩ := keep_own keeps
      rcases node one known with ⟨unowned, _⟩ | ⟨member, isSlot, _⟩
      · rw [unowned] at owns
        cases owns
      · exact ⟨member, isSlot.symm.trans owns⟩
    obtain ⟨member, here⟩ := place one keeps
    obtain ⟨_, there⟩ := place other keepsToo
    obtain ⟨bound, _⟩ := List.getElem?_eq_some_iff.mp here
    exact (List.idxOf_inj member).mp ((List.getElem?_inj bound countedSlots_nodup).mp
      (here.trans there.symm))

theorem mount_standsFor (reliable : Reliable disk) :
    StandsFor v disk.bytes (mount v disk fs root blocks) := by
  have slots : mountedSlots v v.rootSectors 0 disk = countedSlots (rootMem v disk.bytes)
    v.rootSlots 0 := by
    rw [mountedSlots_reliable reliable, Nat.zero_mul]
    rfl
  rw [mount, slots, Vfs.fat16CreateFs]
  split
  next => exact keep_standsFor disk blocks rfl fun _ known => absurd known List.not_mem_nil
  next =>
    split
    next => exact keep_standsFor disk blocks rfl fun _ known => absurd known List.not_mem_nil
    next got =>
      obtain ⟨after, created, changes⟩ := @fat16Create_reliable v disk reliable
      rw [show (Vfs.init disk).disk = disk from rfl, created]
      dsimp only
      refine keep_standsFor disk blocks ?_ fun node known => ?_
      · rw [Vfs.linkMounted_others.2.2]
        exact changes.none
      · rcases Vfs.linkMounted_new known with old | ⟨fresh, member, isEntry⟩
        · have isRoot : node = root := List.mem_singleton.mp old
          refine Or.inl ⟨if_pos isRoot, ?_⟩
          rw [(Vfs.linkMounted_old old).2, isRoot, Vfs.fat16Node, Vfs.addFilesystem]
          dsimp only
          rw [Function.update_self]
          rfl
        · have notRoot : node ≠ root := fun same => fresh.nodes (same ▸ List.mem_cons_self)
          exact Or.inr ⟨member, if_neg notRoot, isEntry⟩

theorem unmounted_congr {other : Disk} (same : other.bytes = disk.bytes)
    (accounted : (unmounted disk).Accounted v) : (unmounted other).Accounted v := by
  cases disk
  cases other
  cases same
  exact ⟨accounted.chained, accounted.owner⟩

def origin (s : VolumeTree) : Holder → Holder
  | .node node => .slot ((s.own node).getD 0)
  | holder => holder

section

variable (stands : StandsFor v s.bytes s)
include stands

theorem StandsFor.of_own {node slot : Nat} (owns : s.own node = some slot) :
    node ∈ s.vfs.nodes ∧ LiveAt v s.bytes slot ∧ s.first v (.node node) =
    entryCluster (rootMem v s.bytes) slot ∧
      (s.IsDirectory v (.node node) ↔ attrIsDirectory (entryAttr (rootMem v s.bytes) slot)) := by
  have known := stands.known node slot owns
  rcases stands.node node known with ⟨unowned, _⟩ | ⟨other, ownsToo, live, same, kind⟩
  · cases unowned.symm.trans owns
  · obtain rfl := Option.some.inj (owns.symm.trans ownsToo)
    exact ⟨known, live, same, kind⟩

theorem StandsFor.tops {cluster : Nat} (two : 2 ≤ cluster) :
    cluster ∈ s.tops v ↔ cluster ∈ (unmounted s.vfs.disk).tops v := by
  constructor
  · rintro (⟨node, known, directory, isFirst⟩ | ⟨slot, live, _, directory, isFirst⟩)
    · rcases stands.node node known with ⟨_, none⟩ | ⟨slot, _, live, same, kind⟩
      · omega
      · exact Or.inr ⟨slot, live, nofun, kind.mp directory, same.symm.trans isFirst⟩
    · exact Or.inr ⟨slot, live, nofun, directory, isFirst⟩
  · rintro (⟨_, known, _⟩ | ⟨slot, live, _, directory, isFirst⟩)
    · cases known
    · by_cases owned : ∃ node, s.own node = some slot
      · obtain ⟨node, owns⟩ := owned
        obtain ⟨known, _, same, kind⟩ := stands.of_own owns
        exact Or.inl ⟨node, known, kind.mpr directory, same.trans isFirst⟩
      · exact Or.inr ⟨slot, live, not_exists.mp owned, directory, isFirst⟩

theorem StandsFor.inner (accounted : (unmounted s.vfs.disk).Accounted v)
    (address : Nat) : s.Holds v (.inner address) ↔ (unmounted s.vfs.disk).Holds v (.inner address) := by
  have kept : ∀ {start : Nat}, (∃ chain, ChainFrom v s.bytes start chain) →
    KeptChain v s.bytes s.bytes start := by
    rintro start ⟨chain, chained⟩
    exact ⟨chain, chained, fun _ _ => ⟨rfl, fun _ _ => rfl⟩⟩
  have ofEntry : ∀ {start address : Nat}, EntryIn v s.bytes start address →
    KeptChain v s.bytes s.bytes start := by
    rintro start address ⟨chain, _, chained, _⟩
    exact kept ⟨chain, chained⟩
  refine (inner_iff (fun dir holds => kept (accounted.chained (.inner dir) holds))
    (fun cluster isTop address entry => ?_) (fun cluster isTop address entry => ?_) address).1
  · exact ⟨(stands.tops (entryIn_two entry)).mpr isTop, ofEntry entry⟩
  · exact ⟨(stands.tops (entryIn_two entry)).mp isTop, ofEntry entry⟩

theorem StandsFor.owns {node cluster : Nat} (shares : cluster ∈ s.share v (.node node)) :
    ∃ slot, s.own node = some slot := by
  rcases stands.node node shares.1 with ⟨_, none⟩ | ⟨slot, owns, _⟩
  · have empty : s.share v (.node node) = ∅ := share_small fun _ => by
      rw [first, none]
      exact Nat.zero_lt_two
    exact absurd (empty ▸ shares) (Set.notMem_empty _)
  · exact ⟨slot, owns⟩

theorem StandsFor.divided (accounted : (unmounted s.vfs.disk).Accounted v) :
    Divided (s.share v) (inUse v s.bytes) := by
  refine accounted.divided.rename s.origin (fun holder cluster shares => ?_)
    (fun holder cluster shares => ?_) fun one other cluster shares also same => ?_
  · cases holder with
    | node node =>
        obtain ⟨slot, owns⟩ := stands.owns shares
        obtain ⟨_, live, isFirst, _⟩ := stands.of_own owns
        obtain ⟨_, chain, chained, member⟩ := shares
        rw [isFirst] at chained
        rw [origin, owns]
        exact ⟨⟨live, nofun⟩, chain, chained, member⟩
    | slot slot => exact ⟨⟨shares.1.1, nofun⟩, shares.2⟩
    | inner address => exact ⟨(stands.inner accounted address).mp shares.1, shares.2⟩
  · cases holder with
    | node node => cases shares.1
    | slot slot =>
        obtain ⟨⟨live, _⟩, chain, chained, member⟩ := shares
        by_cases owned : ∃ node, s.own node = some slot
        · obtain ⟨node, owns⟩ := owned
          obtain ⟨known, _, isFirst, _⟩ := stands.of_own owns
          refine ⟨.node node, known, chain, ?_, member⟩
          rw [isFirst]
          exact chained
        · exact ⟨.slot slot, ⟨live, not_exists.mp owned⟩, chain, chained, member⟩
    | inner address => exact ⟨.inner address, (stands.inner accounted address).mpr shares.1, shares.2⟩
  · have unlisted : ∀ {node slot : Nat}, cluster ∈ s.share v (.node node) →
        cluster ∈ s.share v (.slot slot) → s.origin (.node node) ≠ .slot slot := by
      intro node slot shares also same
      obtain ⟨mine, owns⟩ := stands.owns shares
      rw [origin, owns] at same
      exact also.1.2 node (owns.trans (congrArg some (Holder.slot.inj same)))
    cases one with
    | node one =>
        cases other with
        | node other =>
            obtain ⟨slot, owns⟩ := stands.owns shares
            obtain ⟨otherSlot, ownsToo⟩ := stands.owns also
            rw [origin, origin, owns, ownsToo] at same
            have isSame : slot = otherSlot := Holder.slot.inj same
            rw [stands.once one other slot owns (isSame ▸ ownsToo)]
        | slot other => exact absurd same (unlisted shares also)
        | inner other => cases same
    | slot one =>
        cases other with
        | node other => exact absurd same.symm (unlisted also shares)
        | slot other => exact same
        | inner other => cases same
    | inner one =>
        cases other with
        | node other => cases same
        | slot other => cases same
        | inner other => exact same

theorem StandsFor.tracked (accounted : (unmounted s.vfs.disk).Accounted v) :
    s.Tracked v := by
  refine ⟨fun node slot owns => ?_, fun holder holds => ?_,
    (divided_iff.mp (stands.divided accounted)).2⟩
  · obtain ⟨_, _, isFirst, kind⟩ := stands.of_own owns
    exact ⟨Or.inl isFirst.symm, kind.symm⟩
  · cases holder with
    | node node =>
        rcases stands.node node holds with ⟨_, none⟩ | ⟨slot, owns, live, _⟩
        · refine ⟨[], ?_, trivial⟩
          rw [first, none]
          exact Nat.zero_lt_two
        · rw [(stands.of_own owns).2.2.1]
          exact accounted.chained (.slot slot) ⟨live, nofun⟩
    | slot slot => exact accounted.chained (.slot slot) ⟨holds.1, nofun⟩
    | inner address => exact accounted.chained (.inner address) ((stands.inner accounted address).mp holds)

end

theorem mount_tracked (reliable : Reliable disk) (accounted : (unmounted disk).Accounted v) :
    (mount v disk fs root blocks).Tracked v := by
  have stands := @mount_standsFor v disk fs root blocks reliable
  have accounted := unmounted_congr stands.disk accounted
  rw [← stands.disk] at stands
  exact stands.tracked accounted

end Mount

end VolumeTree

end Szczupak
