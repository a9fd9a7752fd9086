import Szczupak.Fs.Holders

/-!
The four calls of the driver, one after the other: what each does to the holders of clusters when
it takes and gives up clusters whole.
-/

namespace Szczupak

namespace VolumeTree

/-- A node and its entry agree on what they are, and on the first cluster as far as the entry names
one. -/
def Mirrors (v : Volume) (s : VolumeTree) : Prop := ∀ node slot, s.own node = some slot →
  (entryCluster (rootMem v s.bytes) slot = (s.vfs.fat16Node node).cluster ∨
      entryCluster (rootMem v s.bytes) slot < 2) ∧
    (attrIsDirectory (entryAttr (rootMem v s.bytes) slot) ↔ (s.vfs.fat16Node node).isDirectory = true)

structure Tracked (v : Volume) (s : VolumeTree) : Prop where
  mirrors : s.Mirrors v
  accounted : s.Accounted v

section Slots

variable {v : Volume} {s : VolumeTree} {vfs : Vfs} {own : Nat → Option Nat}
  {index cluster slot : Nat} {name83 : List UInt8} {attr : UInt8} {bytes other : Mem}

theorem rootOnly_keeps (same : ∀ address, address ∉ rootArea v → other address = bytes address)
    (known : cluster < v.fatEntries) : KeepsCluster v bytes other cluster :=
  ⟨tableEntry_congr known fun address front => same address fun inside =>
    absurd inside.1 (Nat.not_le.mpr front),
    fun address inside => same address fun inRoot => absurd inRoot.2
    (Nat.not_lt.mpr (clusterArea_data inside))⟩

theorem slotArea_rootArea (bound : index < v.rootSlots) : slotArea v index ⊆ rootArea v := by
  rintro address ⟨lower, upper⟩
  have last : v.dataStart * 512 = v.rootStart * 512 + v.rootSectors * 512 :=
    Nat.add_mul v.rootStart v.rootSectors 512
  rw [Volume.rootSlots] at bound
  refine ⟨(Nat.le_add_right _ _).trans lower, ?_⟩
  rw [last]
  refine upper.trans_le (Nat.add_le_add_left ?_ _)
  omega

theorem put_liveAt (put : EntryPut v (rootMem v bytes) (rootMem v other) index name83 attr cluster)
    (visible : name83.getD 0 0 ≠ 0) (shows : ShowsNothing v bytes index)
    (different : slot ≠ index) : (LiveAt v other slot ↔ LiveAt v bytes slot) ∨
      ¬LiveAt v bytes slot ∧ (LiveAt v other slot → entryCluster (rootMem v other) slot < 2) := by
  have mark : rootMem v other (index * 32) ≠ 0 := put.first ▸ visible
  have others : ∀ earlier < v.rootSlots, earlier ≠ index →
      rootMem v other (earlier * 32) = rootMem v bytes (earlier * 32) :=
    fun earlier bound notHere => (put.others earlier bound notHere).first
  by_cases behind : rootMem v bytes (index * 32) = 0 ∧ index < slot
  · refine Or.inr ⟨fun live => live.2.2 index behind.2 behind.1, fun live => ?_⟩
    have entry := put.others slot live.1 different
    rw [entry.cluster]
    refine shows behind.1 slot live.1 behind.2 (entry.live ▸ live.2.1) fun between before after => ?_
    rw [← others between (before.trans live.1) (Nat.ne_of_gt after)]
    exact live.2.2 between before
  · refine Or.inl ?_
    rw [LiveAt, LiveAt]
    refine and_congr_right fun bound => ?_
    rw [(put.others slot bound different).live]
    refine and_congr_right fun _ => forall₂_congr fun earlier before => ?_
    by_cases here : earlier = index
    · rw [here]
      exact iff_of_true mark fun ends => behind ⟨ends, here ▸ before⟩
    · rw [others earlier (before.trans bound) here]

theorem put_shows (put : EntryPut v (rootMem v bytes) (rootMem v other) index name83 attr cluster)
    (bound : index < v.rootSlots) (visible : name83.getD 0 0 ≠ 0) (shown : name83.getD 0 0 ≠ 0xE5)
    (ordinary : attr ≠ 0x0F) (goesOn : ∀ earlier < index, rootMem v bytes (earlier * 32) ≠ 0) :
    LiveAt v other index := by
  refine ⟨bound, ?_, fun earlier before => ?_⟩
  · rw [← put.first] at visible shown
    rw [← put.attr] at ordinary
    simp [entryLive, entryFree, visible, shown, ordinary]
  · rw [(put.others earlier (before.trans bound) (Nat.ne_of_lt before)).first]
    exact goesOn earlier before

section

variable (same : ∀ address ∈ rootArea v, other address = bytes address)
include same

theorem rootSame_mem {position : Nat}
    (inside : position < v.rootSectors * 512) : rootMem v other position =
    rootMem v bytes position := by
  have last : v.dataStart * 512 = v.rootStart * 512 + v.rootSectors * 512 :=
    Nat.add_mul v.rootStart v.rootSectors 512
  refine same _ ⟨Nat.le_add_right _ _, ?_⟩
  rw [last]
  exact Nat.add_lt_add_left inside _

theorem rootSame_entry (bound : slot < v.rootSlots) :
    SameEntry (rootMem v bytes) (rootMem v other) slot := by
  rw [Volume.rootSlots] at bound
  exact SameEntry.of_bytes fun position _ upper => rootSame_mem same (by omega)

theorem rootSame_liveAt :
    LiveAt v other slot ↔ LiveAt v bytes slot := by
  rw [LiveAt, LiveAt]
  refine and_congr_right fun bound => ?_
  rw [(rootSame_entry same bound).live]
  refine and_congr_right fun _ => forall₂_congr fun earlier before => ?_
  rw [(rootSame_entry same (before.trans bound)).first]

end

end Slots

section Stays

variable {v : Volume} {s : VolumeTree} {vfs : Vfs} {own : Nat → Option Nat}
    {index cluster slot node : Nat}

theorem stays_node (known : node ∈ vfs.nodes ↔ node ∈ s.vfs.nodes)
    (same : (vfs.fat16Node node).cluster = (s.vfs.fat16Node node).cluster ∧
      (vfs.fat16Node node).isDirectory = (s.vfs.fat16Node node).isDirectory) :
    Stays v s (keep v vfs own) (.node node) := by
  refine Or.inl ⟨known, fun _ => ⟨same.1, ?_⟩⟩
  change (vfs.fat16Node node).isDirectory = true ↔ (s.vfs.fat16Node node).isDirectory = true
  rw [same.2]

theorem stays_slot (entry : slot < v.rootSlots → SameEntry (rootMem v s.bytes)
    (rootMem v vfs.disk.bytes) slot) (live : LiveAt v vfs.disk.bytes slot ↔ LiveAt v s.bytes slot)
    (owned : LiveAt v s.bytes slot → ((∃ node ∈ vfs.nodes, own node = some slot) ↔ ∃ node,
    s.own node = some slot)) : Stays v s (keep v vfs own) (.slot slot) := by
  refine Or.inl ⟨?_, fun holds => ?_⟩
  · change LiveAt v vfs.disk.bytes slot ∧ (∀ node, (keep v vfs own).own node ≠ some slot) ↔
      LiveAt v s.bytes slot ∧ ∀ node, s.own node ≠ some slot
    rw [live]
    refine and_congr_right fun isLive => ?_
    rw [← not_exists, ← not_exists, ← owned isLive]
    refine not_congr ⟨?_, ?_⟩
    · rintro ⟨node, keeps⟩
      obtain ⟨known, owns, _⟩ := keep_own keeps
      exact ⟨node, known, owns⟩
    · rintro ⟨node, known, owns⟩
      exact ⟨node, (keep_own_iff known (live.mpr isLive)).mpr owns⟩
  · have same := entry holds.1.1
    refine ⟨same.cluster, ?_⟩
    change attrIsDirectory (entryAttr (rootMem v vfs.disk.bytes) slot) ↔
      attrIsDirectory (entryAttr (rootMem v s.bytes) slot)
    rw [same.attr]

theorem stays_none {holder : Holder} {after : VolumeTree} (before : ¬s.Holds v holder)
    (small : after.Holds v holder → after.first v holder < 2) : Stays v s after holder :=
  Or.inr ⟨fun holds => absurd holds before, small⟩

theorem rootSame_slot (sound : Sound v s)
    (same : ∀ address ∈ rootArea v, vfs.disk.bytes address = s.bytes address)
    (nodes : vfs.nodes = s.vfs.nodes) : Stays v s (keep v vfs s.own) (.slot slot) := by
  refine stays_slot (rootSame_entry same) (rootSame_liveAt same) fun _ => ⟨?_, ?_⟩
  · rintro ⟨node, _, owns⟩
    exact ⟨node, owns⟩
  · rintro ⟨node, owns⟩
    exact ⟨node, nodes ▸ (sound.live node slot owns).1, owns⟩

theorem Mirrors.entry (mirrors : s.Mirrors v) (owns : s.own node = some slot)
    (same : SameEntry (rootMem v s.bytes) (rootMem v vfs.disk.bytes) slot)
    (clusters : 2 ≤ (s.vfs.fat16Node node).cluster →
      (vfs.fat16Node node).cluster = (s.vfs.fat16Node node).cluster)
    (kinds : (vfs.fat16Node node).isDirectory = (s.vfs.fat16Node node).isDirectory) :
    (entryCluster (rootMem v vfs.disk.bytes) slot = (vfs.fat16Node node).cluster ∨
      entryCluster (rootMem v vfs.disk.bytes) slot < 2) ∧
    (attrIsDirectory (entryAttr (rootMem v vfs.disk.bytes) slot) ↔
      (vfs.fat16Node node).isDirectory = true) := by
  obtain ⟨isFirst, kind⟩ := mirrors node slot owns
  rw [same.cluster, same.attr, kinds]
  refine ⟨?_, kind⟩
  by_cases small : entryCluster (rootMem v s.bytes) slot < 2
  · exact Or.inr small
  · have isCluster := isFirst.resolve_right small
    rw [clusters (isCluster ▸ Nat.le_of_not_lt small)]
    exact Or.inl isCluster

theorem rootSame_mirrors (mirrors : s.Mirrors v)
    (same : ∀ address ∈ rootArea v, vfs.disk.bytes address = s.bytes address)
    (kinds : ∀ node, (vfs.fat16Node node).isDirectory = (s.vfs.fat16Node node).isDirectory)
    (clusters : ∀ node, 2 ≤ (s.vfs.fat16Node node).cluster →
      (vfs.fat16Node node).cluster = (s.vfs.fat16Node node).cluster) : (keep v vfs s.own).Mirrors v := by
  intro node slot keeps
  obtain ⟨_, owns, live⟩ := keep_own keeps
  exact mirrors.entry owns (rootSame_entry same live.1) (clusters node) (kinds node)

theorem Tracked.rootSame (sound : Sound v s) (tracked : s.Tracked v) (nodes : vfs.nodes = s.vfs.nodes)
    (alike : ∀ node, (vfs.fat16Node node).cluster = (s.vfs.fat16Node node).cluster ∧
      (vfs.fat16Node node).isDirectory = (s.vfs.fat16Node node).isDirectory)
    (same : ∀ address ∈ rootArea v, vfs.disk.bytes address = s.bytes address)
    (kept : ∀ cluster ∈ inUse v s.bytes, KeepsCluster v s.bytes vfs.disk.bytes cluster)
    (free : ∀ cluster < v.fatEntries, fatEntry v s.bytes cluster = 0 →
    fatEntry v vfs.disk.bytes cluster = 0) : (keep v vfs s.own).Tracked v := by
  have null : 0 ∉ s.vfs.nodes := sound.tree.nonNull
  have stillNull : 0 ∉ vfs.nodes := nodes ▸ null
  refine ⟨rootSame_mirrors tracked.mirrors same (fun node => (alike node).2) fun node _ =>
    (alike node).1, tracked.accounted.quiet ⟨null, stillNull⟩ kept free fun other atRoot => ?_⟩
  cases other with
  | node node => exact stays_node (by rw [nodes]) (alike node)
  | slot slot => exact rootSame_slot sound same nodes
  | inner address => exact atRoot.elim

theorem Tracked.unchanged (sound : Sound v s) (tracked : s.Tracked v) (nodes : vfs.nodes = s.vfs.nodes)
    (alike : ∀ node, (vfs.fat16Node node).cluster = (s.vfs.fat16Node node).cluster ∧
      (vfs.fat16Node node).isDirectory = (s.vfs.fat16Node node).isDirectory)
      (bytes : vfs.disk.bytes = s.bytes) :
    (keep v vfs s.own).Tracked v := by
  refine tracked.rootSame sound nodes alike (fun _ _ => congrFun bytes _)
    (fun _ _ => ?_) fun _ _ zero => ?_
  · rw [bytes]
    exact ⟨rfl, fun _ _ => rfl⟩
  · rw [bytes]
    exact zero

theorem Tracked.called (sound : Sound v s) (tracked : s.Tracked v) {disk : Disk}
    (bytes : disk.bytes = s.bytes) : (keep v { s.vfs with disk } s.own).Tracked v :=
  @Tracked.unchanged v s { s.vfs with disk } sound tracked rfl (fun _ => ⟨rfl, rfl⟩) bytes

end Stays

section Creation

variable {v : Volume} {s : VolumeTree} {vfs : Vfs} {own : Nat → Option Nat}
    {parent block index cluster : Nat}
  {name name83 : List UInt8} {attr : UInt8} {disk : Disk} {fresh : Nat}

theorem free_unowned (sound : Sound v s) (free : entryFree (rootMem v s.bytes) index = true) :
    ¬LiveAt v s.bytes index ∧ ∀ node, s.own node ≠ some index := by
  have notLive : ¬LiveAt v s.bytes index := fun live =>
    Bool.false_ne_true ((entryLive_not_free live.2.1).symm.trans free)
  exact ⟨notLive, fun node owns => notLive (sound.live node index owns).2⟩

structure Puts (v : Volume) (s : VolumeTree) (vfs : Vfs) (own : Nat → Option Nat) (index : Nat)
    (name83 : List UInt8) (attr : UInt8) (cluster : Nat) : Prop where
  put : EntryPut v (rootMem v s.bytes) (rootMem v vfs.disk.bytes) index name83 attr cluster
  visible : name83.getD 0 0 ≠ 0
  free : entryFree (rootMem v s.bytes) index = true
  shows : ShowsNothing v s.bytes index
  nodes : ∀ node ∈ s.vfs.nodes, node ∈ vfs.nodes ∧ (vfs.fat16Node node).cluster =
    (s.vfs.fat16Node node).cluster ∧
    (vfs.fat16Node node).isDirectory = (s.vfs.fat16Node node).isDirectory
  owns : ∀ node slot, slot ≠ index → (own node = some slot ↔ s.own node = some slot)

theorem Puts.slot (puts : Puts v s vfs own index name83 attr cluster) (sound : Sound v s)
    {slot : Nat} (different : slot ≠ index) : Stays v s (keep v vfs own) (.slot slot) := by
  rcases put_liveAt puts.put puts.visible puts.shows different with live | ⟨dead, small⟩
  · refine stays_slot (fun bound => puts.put.others slot bound different) live fun _ => ⟨?_, ?_⟩
    · rintro ⟨node, _, owns⟩
      exact ⟨node, (puts.owns node slot different).mp owns⟩
    · rintro ⟨node, owns⟩
      exact ⟨node, (puts.nodes node (sound.live node slot owns).1).1, (puts.owns node slot different).mpr owns⟩
  · exact stays_none (fun holds => dead holds.1) fun holds => small holds.1

theorem Puts.mirrors (puts : Puts v s vfs own index name83 attr cluster) (sound : Sound v s)
    (mirrors : s.Mirrors v) (new : ∀ node ∈ vfs.nodes, own node = some index →
      (entryCluster (rootMem v vfs.disk.bytes) index = (vfs.fat16Node node).cluster ∨
        entryCluster (rootMem v vfs.disk.bytes) index < 2) ∧
      (attrIsDirectory (entryAttr (rootMem v vfs.disk.bytes) index) ↔
      (vfs.fat16Node node).isDirectory = true)) :
    (keep v vfs own).Mirrors v := by
  intro node slot keeps
  obtain ⟨known, owns, live⟩ := keep_own keeps
  by_cases here : slot = index
  · rw [here] at owns ⊢
    exact new node known owns
  · have before := (puts.owns node slot here).mp owns
    have same := puts.put.others slot live.1 here
    obtain ⟨_, sameCluster, sameKind⟩ := puts.nodes node (sound.live node slot before).1
    exact mirrors.entry before same (fun _ => sameCluster) sameKind

theorem Puts.without
    (put : EntryPut v (rootMem v s.bytes) (rootMem v disk.bytes) index name83 attr cluster)
    (visible : name83.getD 0 0 ≠ 0) (free : entryFree (rootMem v s.bytes) index = true)
    (shows : ShowsNothing v s.bytes index) :
    Puts v s { s.vfs with disk } s.own index name83 attr cluster :=
  ⟨put, visible, free, shows, fun _ known => ⟨known, rfl, rfl⟩, fun _ _ _ => Iff.rfl⟩

theorem link_nodes (sound : Sound v s) (known : parent ∈ s.vfs.nodes) (fresh : s.vfs.Fresh block)
    {made : VfsNode} : 0 ∉ (({ s.vfs with disk } : Vfs).link parent block made).nodes ∧
    (∀ node ∈ s.vfs.nodes, node ∈ (({ s.vfs with disk } : Vfs).link parent block made).nodes ∧
      ((({ s.vfs with disk } : Vfs).link parent block made).fat16Node node).cluster =
      (s.vfs.fat16Node node).cluster ∧
      ((({ s.vfs with disk } : Vfs).link parent block made).fat16Node node).isDirectory =
        (s.vfs.fat16Node node).isDirectory) ∧
    ((({ s.vfs with disk } : Vfs).link parent block made).fat16Node block).cluster =
    made.fsData % 2 ^ 16 ∧
    ((({ s.vfs with disk } : Vfs).link parent block made).fat16Node block).isDirectory =
    made.isDirectory := by
  have apart := fresh.apart known
  have isBlock := @Vfs.link_block { s.vfs with disk } parent block made apart
  refine ⟨?_, fun node member => ⟨List.mem_cons_of_mem _ member, ?_⟩, ?_, ?_⟩
  · intro null
    rcases List.mem_cons.mp null with isNull | member
    · exact fresh.1 isNull.symm
    · exact sound.tree.nonNull member
  · have same := @Vfs.link_same { s.vfs with disk } parent block node made apart fun isBlock =>
      fresh.nodes (isBlock ▸ member)
    rw [Vfs.fat16Node, same]
    exact ⟨rfl, rfl⟩
  · rw [Vfs.fat16Node, isBlock]
  · rw [Vfs.fat16Node, isBlock]

theorem update_owns (sound : Sound v s) (fresh : s.vfs.Fresh block) (node slot : Nat)
    (different : slot ≠ index) :
    Function.update s.own block (some index) node = some slot ↔ s.own node = some slot := by
  by_cases isBlock : node = block
  · rw [isBlock, Function.update_self]
    refine iff_of_false (fun same => different (Option.some.inj same).symm) fun owns => ?_
    exact fresh.nodes (sound.live block slot owns).1
  · rw [Function.update_of_ne isBlock]

theorem update_owner (sound : Sound v s) (free : entryFree (rootMem v s.bytes) index = true)
    {node : Nat}
    (owns : Function.update s.own block (some index) node = some index) : node = block := by
  by_contra other
  rw [Function.update_of_ne other] at owns
  exact (free_unowned sound free).2 node owns

theorem Puts.tracked (puts : Puts v s vfs own index name83 attr 0) (sound : Sound v s)
    (tracked : s.Tracked v)
    (null : 0 ∉ vfs.nodes) (changes : Changes (slotArea v index) s.vfs.disk vfs.disk)
    (bound : index < v.rootSlots)
    (news : ∀ node ∈ vfs.nodes, node ∉ s.vfs.nodes → (vfs.fat16Node node).cluster = 0)
    (kinds : ∀ node ∈ vfs.nodes, own node = some index →
      (attrIsDirectory attr ↔ (vfs.fat16Node node).isDirectory = true)) : (keep v vfs own).Tracked v := by
  have none : entryCluster (rootMem v vfs.disk.bytes) index = 0 := puts.put.cluster (by decide)
  have outside : ∀ address, address ∉ rootArea v → vfs.disk.bytes address = s.bytes address :=
    fun address notRoot =>
    changes.bytes address fun inside => notRoot (slotArea_rootArea bound inside)
  refine ⟨puts.mirrors sound tracked.mirrors fun node known owns => ?_,
    tracked.accounted.quiet ⟨sound.tree.nonNull, null⟩ (fun cluster used => rootOnly_keeps outside used.2.1)
      (fun cluster inTable zero => (rootOnly_keeps outside inTable).1.trans zero) fun other atRoot => ?_⟩
  · rw [puts.put.attr, none]
    exact ⟨Or.inr (by decide), kinds node known owns⟩
  · cases other with
    | node node =>
        by_cases known : node ∈ s.vfs.nodes
        · obtain ⟨still, same⟩ := puts.nodes node known
          exact stays_node (iff_of_true still known) same
        · refine stays_none known fun new => ?_
          change (vfs.fat16Node node).cluster < 2
          rw [news node new known]
          decide
    | slot slot =>
        by_cases here : slot = index
        · subst here
          refine stays_none (fun holds => (free_unowned sound puts.free).1 holds.1) fun _ => ?_
          change entryCluster (rootMem v vfs.disk.bytes) slot < 2
          rw [none]
          decide
        · exact puts.slot sound here
    | inner address => exact atRoot.elim

theorem createFile_tracked (sound : Sound v s) (tracked : s.Tracked v)
    (known : parent ∈ s.vfs.nodes) (whole : s.CreateFileWhole v parent name) :
    (s.made v name (s.vfs.fat16CreateFileNode v parent name block)).2.Tracked v := by
  rw [Vfs.fat16CreateFileNode]
  split
  next isRoot =>
    have scan := @scanRoot_changes (fat16NameTo83 name) v s.vfs.disk v.rootSectors 0
    rw [fat16CreateFile]
    rcases scanned : scanRoot v (fat16NameTo83 name) v.rootSectors 0 s.vfs.disk with ⟨_ | found, middle⟩
    · rw [scanned] at scan
      exact tracked.called sound scan.none
    · rw [scanned] at scan
      obtain ⟨foundIn, free, _⟩ := scanRoot_found (Nat.zero_add _) scanned
      rcases whole isRoot found middle scanned with fault | shows
      · dsimp only
        rw [ataWriteSector_fault fault]
        exact tracked.called sound scan.none
      · cases fault : middle.faults middle.calls with
        | true =>
            dsimp only
            rw [ataWriteSector_fault fault]
            exact tracked.called sound scan.none
        | false =>
            obtain ⟨disk, put⟩ : ∃ disk, ataWriteSector middle (v.rootStart + found.sectorIndex)
              (newEntry found.sector found.slot (fat16NameTo83 name) 0x20 0) = (true, disk) :=
              ⟨_, ataWriteSector_clear fault⟩
            obtain ⟨changes, entry⟩ := scanned_entryPut scanned (Changes.refl middle) put
              (fat16NameTo83_length name)
            have changes := (scan.mono (Set.empty_subset _)).trans changes
            dsimp only
            rw [put]
            dsimp only
            split
            next room =>
              have fresh := Vfs.kmalloc_fresh (bne_iff_ne.mp room)
              obtain ⟨null, olds, isCluster, isKind⟩ := @link_nodes v s parent block disk sound
                known fresh (s.vfs.freshNode parent (createdFileName (fat16NameTo83 name)) false 0)
              rw [Vfs.fat16Link, made, scanned]
              refine Puts.tracked ⟨entry, fat16NameTo83_first, free, shows, olds,
                update_owns sound fresh⟩ sound tracked
                null changes foundIn.index (fun node new old => ?_) fun node new owns => ?_
              · have isBlock : node = block := (List.mem_cons.mp new).resolve_right old
                rw [isBlock]
                exact isCluster
              · have isBlock : node = block := update_owner sound free owns
                rw [isBlock]
                exact iff_of_false (by decide) (by rw [isKind]; exact Bool.false_ne_true)
            next =>
              refine (Puts.without entry fat16NameTo83_first free shows).tracked sound tracked
                sound.tree.nonNull changes
                foundIn.index (fun node new old => absurd new old) fun node _ owns => ?_
              exact absurd owns ((free_unowned sound free).2 node)
  next => exact tracked.called sound rfl

theorem fatStored_keeps {bytes : Mem} {other value : Nat} (known : cluster < v.fatEntries)
    (inTable : other < v.fatEntries)
    (different : other ≠ cluster) :
    KeepsCluster v bytes (fatStored v cluster value v.numFats 0 bytes) other :=
  ⟨fatStored_other inTable different, fun _ inside => fatStored_outside
    (Nat.le_of_eq (Nat.zero_add _)) (clusterArea_table known inside)⟩

theorem fatStored_root {bytes : Mem} {value : Nat} (known : cluster < v.fatEntries) :
    ∀ address ∈ rootArea v, fatStored v cluster value v.numFats 0 bytes address = bytes address :=
  fun _ inside =>
  fatStored_outside (Nat.le_of_eq (Nat.zero_add _)) fun words =>
    absurd inside.1 (Nat.not_le.mpr (fatWords_table known words).2)

section Took

variable {d taken : Disk} {fresh other : Nat}

theorem took_keeps (took : TakesCluster v d taken fresh) (inTable : fresh < v.fatEntries)
    (two : 2 ≤ other)
    (known : other < v.fatEntries) (different : other ≠ fresh) :
    KeepsCluster v d.bytes taken.bytes other := by
  refine ⟨(took.entry inTable known).trans (if_neg different), fun address inside => ?_⟩
  exact took.outside (clusterArea_table inTable inside)
    (clusterArea_disjoint two took.two different inside)

theorem took_root (took : TakesCluster v d taken fresh) (inTable : fresh < v.fatEntries) :
    ∀ address ∈ rootArea v, taken.bytes address = d.bytes address := fun _ inside =>
  took.outside (fun words => absurd inside.1 (Nat.not_le.mpr (fatWords_table inTable words).2))
    fun area => absurd inside.2 (Nat.not_lt.mpr (clusterArea_data area))

end Took

theorem undone_tracked (sound : Sound v s) (tracked : s.Tracked v) {d taken undone : Disk}
    (bytes : d.bytes = s.bytes) (took : TakesCluster v d taken fresh) (inTable : fresh < v.fatEntries)
    (undo : undone.bytes = fatStored v fresh 0 v.numFats 0 taken.bytes) :
    (keep v { s.vfs with disk := undone } s.own).Tracked v := by
  refine @Tracked.rootSame v s { s.vfs with disk := undone } sound tracked rfl (fun _ => ⟨rfl, rfl⟩)
    (fun address inside => ?_) (fun cluster used => ?_) fun cluster known zero => ?_
  · rw [undo, fatStored_root inTable address inside, took_root took inTable address inside, bytes]
  · have different : cluster ≠ fresh := by
      rintro rfl
      exact used.2.2 (bytes ▸ took.free)
    rw [← bytes, undo]
    exact (took_keeps took inTable used.1 used.2.1 different).trans
      (fatStored_keeps inTable used.2.1 different)
  · rw [undo]
    by_cases same : cluster = fresh
    · rw [same]
      exact fatStored_same inTable
    · rw [fatStored_other known same, took.entry inTable known, if_neg same, bytes]
      exact zero

theorem share_chain {holder : Holder} {chain : List Nat} (holds : s.Holds v holder)
    (chained : ChainFrom v s.bytes (s.first v holder) chain) (cluster : Nat) :
    cluster ∈ s.share v holder ↔ cluster ∈ chain := by
  refine ⟨?_, fun member => ⟨holds, chain, chained, member⟩⟩
  rintro ⟨_, again, rechained, member⟩
  rwa [rechained.unique chained] at member

theorem Accounted.taken {after : VolumeTree} {d taken : Disk}
    (accounted : s.Accounted v) (holder : Holder) (bytes : d.bytes = s.bytes)
    (took : TakesCluster v d taken fresh)
    (inTable : fresh < v.fatEntries)
    (outside : ∀ address, address ∉ rootArea v → after.bytes address = taken.bytes address)
    (atRoot : holder.AtRoot) (unheld : ¬s.Holds v holder) (holds : after.Holds v holder)
    (isFirst : after.first v holder = fresh)
    (others : ∀ other : Holder, other.AtRoot → other ≠ holder → Stays v s after other) :
    after.Accounted v := by
  have chained : ChainFrom v after.bytes (after.first v holder) [fresh] := by
    refine ⟨isFirst, took.valid inTable, ?_, trivial⟩
    rw [NamesNext, (rootOnly_keeps outside inTable).1, took.entry inTable inTable, if_pos rfl]
    decide
  have only : ∀ cluster, cluster ∈ after.share v holder ↔ cluster = fresh :=
    fun cluster => (share_chain holds chained cluster).trans List.mem_singleton
  refine accounted.moves holder ⟨atRoot, fun cluster owned => ?_,
    fun cluster owned => absurd owned.1 unheld,
    fun cluster used _ => ?_, fun cluster known zero notShare => ?_, fun _ =>
    ⟨[fresh], chained⟩, others, fun held => absurd held unheld, fun _ _ address entry => ?_⟩
  · rw [(only cluster).mp owned]
    exact Or.inr (bytes ▸ took.free)
  · have notFresh : cluster ≠ fresh := by
      rintro rfl
      exact used.2.2 (bytes ▸ took.free)
    rw [← bytes]
    exact (took_keeps took inTable used.1 used.2.1 notFresh).trans (rootOnly_keeps outside used.2.1)
  · have notFresh : cluster ≠ fresh := fun same => notShare ((only cluster).mpr same)
    rw [(rootOnly_keeps outside known).1, took.entry inTable known, if_neg notFresh, bytes]
    exact zero
  · obtain ⟨chain, position, rechained, inside, isAddress, live, _⟩ := entry
    rw [rechained.unique chained] at inside isAddress
    obtain ⟨cluster, member, area⟩ := entry_cluster inside
    have here := area 0 (by decide)
    rw [Nat.add_zero, ← isAddress, List.mem_singleton.mp member] at here
    have zero : after.bytes address = 0 := by
      rw [outside address fun inRoot => absurd inRoot.2 (Nat.not_lt.mpr (clusterArea_data here))]
      exact took.zero here
    exact live.1 zero

theorem Puts.taken {d taken : Disk} (puts : Puts v s vfs own index name83 0x10 fresh)
    (sound : Sound v s)
    (tracked : s.Tracked v) (bytes : d.bytes = s.bytes) (took : TakesCluster v d taken fresh)
    (inTable : fresh < v.fatEntries) (changes : Changes (slotArea v index) taken vfs.disk)
    (bound : index < v.rootSlots)
    (unknown : block ∉ s.vfs.nodes) (nodes : vfs.nodes = block :: s.vfs.nodes)
    (isCluster : (vfs.fat16Node block).cluster = fresh)
    (isKind : (vfs.fat16Node block).isDirectory = true)
    (owns : own block = some index) (only : ∀ node, own node = some index → node = block) :
    (keep v vfs own).Tracked v := by
  have small := took.small
  have known : block ∈ vfs.nodes := nodes ▸ List.mem_cons_self
  refine ⟨puts.mirrors sound tracked.mirrors fun node _ isOwner => ?_,
    tracked.accounted.taken (.node block)
    bytes took inTable (fun address notRoot => changes.bytes address fun inside =>
      notRoot (slotArea_rootArea bound inside))
    trivial unknown known isCluster fun other atRoot different => ?_⟩
  · rw [only node isOwner, puts.put.attr, puts.put.cluster (by omega), isCluster, isKind]
    exact ⟨Or.inl rfl, iff_of_true (by decide) rfl⟩
  · cases other with
    | node node =>
        have notBlock : node ≠ block := fun same => different (congrArg Holder.node same)
        by_cases old : node ∈ s.vfs.nodes
        · obtain ⟨still, same⟩ := puts.nodes node old
          exact stays_node (iff_of_true still old) same
        · refine stays_none old fun new => ?_
          change node ∈ vfs.nodes at new
          rw [nodes] at new
          exact absurd ((List.mem_cons.mp new).resolve_left notBlock) old
    | slot slot =>
        by_cases here : slot = index
        · subst here
          refine stays_none (fun holds => (free_unowned sound puts.free).1 holds.1) fun holds => ?_
          exact absurd ((keep_own_iff known holds.1).mpr owns) (holds.2 block)
        · exact puts.slot sound here
    | inner address => exact atRoot.elim

theorem Puts.alone {d taken : Disk} (puts : Puts v s { s.vfs with disk } s.own index name83 0x10 fresh)
    (sound : Sound v s) (tracked : s.Tracked v) (bytes : d.bytes = s.bytes)
    (took : TakesCluster v d taken fresh)
    (inTable : fresh < v.fatEntries) (changes : Changes (slotArea v index) taken disk)
    (bound : index < v.rootSlots)
    (live : LiveAt v disk.bytes index) : (keep v { s.vfs with disk } s.own).Tracked v := by
  have small := took.small
  have unowned := (free_unowned sound puts.free).2
  refine ⟨puts.mirrors sound tracked.mirrors fun node _ isOwner => absurd isOwner (unowned node),
    tracked.accounted.taken (.slot index) bytes took inTable
      (fun address notRoot => changes.bytes address fun inside =>
      notRoot (slotArea_rootArea bound inside)) trivial
      (fun holds => (free_unowned sound puts.free).1 holds.1) ⟨live, fun node owns => unowned node
      (keep_own owns).2.1⟩ (puts.put.cluster (by omega)) fun other atRoot different => ?_⟩
  cases other with
  | node node => exact stays_node Iff.rfl ⟨rfl, rfl⟩
  | slot slot => exact puts.slot sound fun same => different (congrArg Holder.slot same)
  | inner address => exact atRoot.elim

theorem createDir_tracked (sound : Sound v s) (tracked : s.Tracked v) (known : parent ∈ s.vfs.nodes)
    (whole : s.CreateDirWhole v parent name block) :
    (s.made v name (s.vfs.fat16CreateDirNode v parent name block)).2.Tracked v := by
  rw [Vfs.fat16CreateDirNode]
  split
  next isRoot =>
    have scan := @scanRoot_changes (fat16NameTo83 name) v s.vfs.disk v.rootSectors 0
    rcases scanned : scanRoot v (fat16NameTo83 name) v.rootSectors 0 s.vfs.disk with ⟨_ | found, middle⟩
    · rw [scanned] at scan
      rw [fat16CreateDir_unscanned scanned]
      exact tracked.called sound scan.none
    · rw [scanned] at scan
      obtain ⟨foundIn, free, before'⟩ := scanRoot_found (Nat.zero_add _) scanned
      obtain ⟨takes, further⟩ := whole isRoot found middle scanned
      rw [fat16CreateDir_scanned scanned]
      rcases fat16AllocateCluster_whole takes with ⟨taken, none, bytes, faults⟩ |
        ⟨fresh, taken, some, took, inTable, first, clears, calls⟩
      · rw [none]
        exact tracked.called sound (bytes.trans scan.none)
      · have goes := further fresh first clears
        have positive : fresh ≠ 0 := Nat.ne_of_gt (Nat.lt_of_lt_of_le (by decide) took.two)
        rw [some, if_neg positive, putDirectory]
        have request : taken.faults taken.calls = middle.faults (entryCall v middle fresh) := by
          rw [took.faults, calls]
        cases fault : middle.faults (entryCall v middle fresh) with
        | true =>
            rw [if_pos fault] at goes
            have fails := request.trans fault
            have written : EntryWritten v taken.called.faults taken.called.calls := by
              rw [show taken.called.faults = middle.faults from took.faults,
                show taken.called.calls = entryCall v middle fresh + 1 from congrArg (· + 1) calls]
              exact goes
            obtain ⟨undone, done, undo, _⟩ :=
              @fat16WriteFatEntry_written v taken.called fresh 0 took.two written
            dsimp only
            rw [ataWriteSector_fault fails]
            dsimp only
            rw [done]
            exact undone_tracked sound tracked scan.none took inTable undo.bytes
        | false =>
            rw [fault, if_neg Bool.false_ne_true] at goes
            obtain ⟨shows, keeps⟩ := goes
            obtain ⟨disk, put⟩ : ∃ disk, ataWriteSector taken (v.rootStart + found.sectorIndex)
              (newEntry found.sector found.slot (fat16NameTo83 name) 0x10 fresh) = (true, disk) :=
              ⟨_, ataWriteSector_clear (request.trans fault)⟩
            have between : Changes (fatArea v ∪ dataArea v) middle taken := by
              refine ⟨fun address apart => took.outside (fun words => apart (Or.inl ?_)) fun area =>
                apart (Or.inr ?_), took.faults⟩
              · exact fatWords_table inTable words
              · exact clusterArea_data area
            obtain ⟨changes, entry⟩ := scanned_entryPut scanned between put (fat16NameTo83_length name)
            dsimp only
            rw [put]
            dsimp only
            by_cases room : s.vfs.kmalloc block = 0
            · obtain ⟨shown, stops⟩ := keeps.resolve_left fun some => some room
              have asksNext : disk.faults = middle.faults ∧ disk.calls = entryCall v middle fresh + 1 := by
                rw [ataWriteSector_true put]
                exact ⟨took.faults, congrArg (· + 1) calls⟩
              have fails : EntryStopped disk.faults disk.calls := by
                rw [asksNext.1, asksNext.2]
                exact stops
              obtain ⟨undone, done, undo, faults⟩ := @fat16WriteFatEntry_stopped v disk fresh 0 took.two fails
              rw [← undo] at entry
              rw [if_neg (by rw [room]; decide), done]
              refine (Puts.without entry fat16NameTo83_first free shows).alone sound tracked
                scan.none took inTable
                ⟨fun address apart => ?_, faults.trans changes.faults⟩ foundIn.index
                (put_shows entry foundIn.index fat16NameTo83_first shown
                (by decide) fun earlier before ends => ?_)
              · rw [undo]
                exact changes.bytes address apart
              · have taken := (before' earlier (Nat.zero_le _) before).1
                rw [entryFree, ends] at taken
                exact absurd taken (by decide)
            · have fresh' := Vfs.kmalloc_fresh room
              obtain ⟨_, olds, isCluster, isKind⟩ := @link_nodes v s parent block disk sound known
                fresh' (s.vfs.freshNode parent (createdDirName (fat16NameTo83 name)) true fresh)
              rw [if_pos (bne_iff_ne.mpr room), Vfs.fat16Link, made, scanned]
              refine Puts.taken ⟨entry, fat16NameTo83_first, free, shows, olds,
                update_owns sound fresh'⟩ sound tracked
                scan.none took inTable changes foundIn.index fresh'.nodes rfl ?_ isKind
                (Function.update_self _ _ _) fun node => update_owner sound free
              have small := took.small
              rw [isCluster]
              exact Nat.mod_eq_of_lt (show fresh < 2 ^ 16 by omega)
  next => exact tracked.called sound rfl

end Creation

section Writes

variable {v : Volume} {s : VolumeTree} {node offset : Nat} {bytes : List UInt8}

structure Resizes (s : VolumeTree) (vfs : Vfs) (node : Nat) (written : Fat16Node)
    (disk : Disk) : Prop where
  disk : vfs.disk = disk
  nodes : vfs.nodes = s.vfs.nodes
  kinds : ∀ other, (vfs.fat16Node other).isDirectory = (s.vfs.fat16Node other).isDirectory
  cluster : (vfs.fat16Node node).cluster = written.cluster
  others : ∀ other, other ≠ node → (vfs.fat16Node other).cluster = (s.vfs.fat16Node other).cluster

theorem fat16WriteAt_resizes {ok : Bool} {written : Fat16Node} {disk : Disk} (some : node ≠ 0)
    (wrote : fat16WriteNode v s.vfs.disk (s.vfs.fat16Node node) bytes offset = (ok,
    written, disk)) : Resizes s (s.vfs.fat16WriteAt v node offset bytes).2 node written disk := by
  have fits := @fat16WriteNode_cluster v s.vfs.disk (s.vfs.fat16Node node) bytes offset
  rw [wrote] at fits
  rw [Vfs.fat16WriteAt, if_neg some, wrote]
  dsimp only
  refine ⟨rfl, rfl, fun other => ?_, ?_, fun other different => ?_⟩
  · by_cases same : other = node
    · rw [same, Vfs.fat16Node, Vfs.modify_same]
      rfl
    · rw [Vfs.fat16Node, Vfs.modify_other same]
      rfl
  · rw [Vfs.fat16Node, Vfs.modify_same]
    dsimp only
    split
    next same => exact same.symm
    next different => exact Nat.mod_eq_of_lt (fits.resolve_left different)
  · rw [Vfs.fat16Node, Vfs.modify_other different]
    rfl

theorem Resizes.tracked {vfs : Vfs} {written : Fat16Node} {disk : Disk} {chain longer : List Nat}
    (resizes : Resizes s vfs node written disk) (sound : Sound v s) (tracked : s.Tracked v)
    (known : node ∈ s.vfs.nodes)
    (file : (s.vfs.fat16Node node).isDirectory = false)
    (chained : ChainFrom v s.bytes (s.vfs.fat16Node node).cluster chain)
    (follows : Follows v s.vfs.disk chain disk longer)
    (starts : ChainFrom v disk.bytes written.cluster longer)
    (keeps : 2 ≤ (s.vfs.fat16Node node).cluster → written.cluster =
    (s.vfs.fat16Node node).cluster) : (keep v vfs s.own).Tracked v := by
  obtain ⟨expected, grown⟩ := follows
  have isDisk := resizes.disk
  subst isDisk
  have root : ∀ address ∈ rootArea v, vfs.disk.bytes address = s.bytes address := by
    intro address inside
    refine grown.frame address fun cluster member => ⟨fun words => ?_, fun area => ?_⟩
    · exact absurd inside.1 (Nat.not_le.mpr (fatWords_table (grown.linked.valid member).2.2 words).2)
    · exact absurd inside.2 (Nat.not_lt.mpr (clusterArea_data area))
  have mine := @share_chain v s (.node node) chain known chained
  have still : ChainFrom v vfs.disk.bytes (vfs.fat16Node node).cluster longer :=
    resizes.cluster ▸ starts
  have later : ∀ cluster, cluster ∈ (keep v vfs s.own).share v (.node node) ↔ cluster ∈ longer :=
    share_chain (show node ∈ vfs.nodes from resizes.nodes ▸ known) still
  have notDirectory : ¬(vfs.fat16Node node).isDirectory = true := by
    rw [resizes.kinds, file]
    exact Bool.false_ne_true
  refine ⟨rootSame_mirrors tracked.mirrors root resizes.kinds fun other two => ?_,
    tracked.accounted.moves (.node node) ⟨trivial, fun cluster owned => ?_, fun cluster owned gone => ?_,
      fun cluster used notMine => ?_, fun cluster inTable zero notLater => ?_, fun _ => ⟨longer, still⟩,
      fun other atRoot different => ?_, fun _ directory =>
      absurd directory (by rw [IsDirectory, file]; exact Bool.false_ne_true),
      fun _ directory => absurd directory notDirectory⟩⟩
  · by_cases same : other = node
    · rw [same] at two ⊢
      rw [resizes.cluster, keeps two]
    · exact resizes.others other same
  · rw [mine]
    exact grown.fresh cluster ((later cluster).mp owned)
  · rw [mine] at owned
    rw [later] at gone
    exact absurd (grown.grows.subset owned) gone
  · rw [mine] at notMine
    have notLonger : cluster ∉ longer := fun member =>
      used.2.2 ((grown.fresh cluster member).resolve_left notMine)
    refine ⟨grown.entries cluster used.2.1 notLonger, fun address inside =>
      grown.frame address fun other member => ?_⟩
    have valid := grown.linked.valid member
    exact ⟨clusterArea_table valid.2.2 inside,
      clusterArea_disjoint used.1 valid.1 (fun same => notLonger (same ▸ member)) inside⟩
  · rw [later] at notLater
    exact (grown.entries cluster inTable notLater).trans zero
  · cases other with
    | node other =>
        have notNode : other ≠ node := fun same => different (congrArg Holder.node same)
        exact stays_node (by rw [resizes.nodes]) ⟨resizes.others other notNode, resizes.kinds other⟩
    | slot slot => exact rootSame_slot sound root resizes.nodes
    | inner address => exact atRoot.elim

theorem write_tracked (sound : Sound v s) (tracked : s.Tracked v) (known : node ∈ s.vfs.nodes)
    (whole : WriteWhole v s.vfs.disk (s.vfs.fat16Node node) bytes offset) :
    (keep v (s.vfs.fat16WriteAt v node offset bytes).2 s.own).Tracked v := by
  have some : node ≠ 0 := fun null => sound.tree.nonNull (null ▸ known)
  rcases wrote : fat16WriteNode v s.vfs.disk (s.vfs.fat16Node node) bytes offset
    with ⟨ok, written, disk⟩
  have resizes := fat16WriteAt_resizes some wrote
  cases kind : (s.vfs.fat16Node node).isDirectory with
  | false =>
      obtain ⟨chain, chained⟩ := tracked.accounted.chained (.node node) known
      obtain ⟨longer, follows, starts, keeps⟩ := fat16WriteNode_follows chained whole wrote
      exact resizes.tracked sound tracked known kind chained follows starts keeps
  | true =>
      rw [fat16WriteNode, if_pos kind] at wrote
      cases wrote
      refine tracked.unchanged sound resizes.nodes (fun other => ⟨?_, resizes.kinds other⟩)
        (congrArg Disk.bytes resizes.disk)
      by_cases same : other = node
      · rw [same]
        exact resizes.cluster
      · exact resizes.others other same

end Writes

section Deletion

variable {v : Volume} {s : VolumeTree} {node slot start : Nat} {name : List UInt8}
  {found : FoundSlot} {d middle looked disk : Disk} {chain : List Nat}

theorem Tracked.entryChain (sound : Sound v s) (tracked : s.Tracked v) (live : LiveAt v s.bytes slot) :
    ∃ chain, ChainFrom v s.bytes (entryCluster (rootMem v s.bytes) slot) chain := by
  by_cases owned : ∃ node, s.own node = some slot
  · obtain ⟨node, owns⟩ := owned
    rcases (tracked.mirrors node slot owns).1 with same | small
    · rw [same]
      exact tracked.accounted.chained (.node node) (sound.live node slot owns).1
    · exact ⟨[], small, trivial⟩
  · exact tracked.accounted.chained (.slot slot) ⟨live, not_exists.mp owned⟩

theorem foundEmpty_changes : Changes ∅ d (foundEmpty v found d).2 := by
  rw [foundEmpty]
  split
  next => exact fat16DirectoryClusterEmpty_changes
  next => exact Changes.refl d

theorem fat16Delete_found (scanned : findRoot v (fat16NameTo83 name) v.rootSectors 0 d =
    (some found, middle)) : fat16Delete v d name = match foundEmpty v found middle with
      | (false, d) => (false, d)
      | (true, d) =>
          match if 2 ≤ entryCluster found.sector found.slot then
              fat16ReleaseClusterChain v d (entryCluster found.sector found.slot) else (true, d) with
          | (false, d) => (false, d)
          | (true, d) =>
              ataWriteSector d (v.rootStart + found.sectorIndex) (deletedEntry found.sector found.slot) := by
  rw [fat16Delete, scanned]
  rfl

theorem delete_stopped (chained : ChainFrom v looked.bytes start chain)
    (stops : StopsBeforeWrite looked start)
    {sector : Mem} {lba : Nat} : ∃ after,
    (match if 2 ≤ start then fat16ReleaseClusterChain v looked start
        else (true, looked) with
      | (false, d) => (false, d)
      | (true, d) => ataWriteSector d lba sector) = (false, after) ∧ after.bytes = looked.bytes := by
  rw [StopsBeforeWrite] at stops
  by_cases two : 2 ≤ start
  · rw [if_pos two] at stops
    have small : start < 0xFFF8 := by
      cases chain with
      | nil => exact absurd chained.1 (Nat.not_lt.mpr two)
      | cons head tail =>
          rw [show start = head from chained.1]
          exact chained.2.1.2.1
    obtain ⟨after, done, bytes, _⟩ := release_stopped two small stops
    rw [if_pos two, done]
    exact ⟨after, rfl, bytes⟩
  · rw [if_neg two] at stops
    rw [if_neg two]
    dsimp only
    rw [ataWriteSector_fault stops]
    exact ⟨_, rfl, rfl⟩

structure Deleted (v : Volume) (s : VolumeTree) (disk : Disk) (slot : Nat)
    (chain : List Nat) : Prop where
  live : LiveAt v s.bytes slot
  gone : EntryGone v (rootMem v s.bytes) (rootMem v disk.bytes) slot
  chained : ChainFrom v s.bytes (entryCluster (rootMem v s.bytes) slot) chain
  entries : ∀ cluster < v.fatEntries, fatEntry v disk.bytes cluster =
    if cluster ∈ chain then 0 else fatEntry v s.bytes cluster
  data : ∀ address, v.dataStart * 512 ≤ address → disk.bytes address = s.bytes address

theorem Deleted.stays (deleted : Deleted v s disk slot chain) (sound : Sound v s)
    (mirrors : s.Mirrors v)
    (own : s.FindsChain v node slot) {vfs : Vfs} (isDisk : vfs.disk = disk)
    (nodes : vfs.nodes = s.vfs.nodes.erase node)
    (other : Nat) : Stays v s (keep v vfs s.own) (.slot other) := by
  subst isDisk
  by_cases here : other = slot
  · rw [here]
    refine Or.inr ⟨fun holds => ?_, fun holds => ?_⟩
    · exact (own.resolve_left fun both => holds.2 node both.1).1
    · have live : entryLive (rootMem v vfs.disk.bytes) slot = true := holds.1.2.1
      rw [entryLive, entryFree, deleted.gone.first] at live
      exact absurd live (by simp)
  · have same : LiveAt v s.bytes other → LiveAt v vfs.disk.bytes other ∧
        SameEntry (rootMem v s.bytes) (rootMem v vfs.disk.bytes) other := fun live =>
      ⟨(gone_liveAt deleted.gone deleted.live here).mpr live, deleted.gone.others other live.1 here⟩
    by_cases mine : s.own node = some other
    · refine Or.inr ⟨fun holds => absurd mine (holds.2 node), fun holds => ?_⟩
      have small : (s.vfs.fat16Node node).cluster < 2 :=
        (own.resolve_left fun both => here (Option.some.inj (mine.symm.trans both.1))).2
      have entry := deleted.gone.others other holds.1.1 here
      change entryCluster (rootMem v vfs.disk.bytes) other < 2
      rw [entry.cluster]
      exact (mirrors node other mine).1.elim (fun isFirst => isFirst ▸ small) id
    · refine stays_slot (fun bound => deleted.gone.others other bound here)
        (gone_liveAt deleted.gone deleted.live here) fun _ => ⟨?_, ?_⟩
      · rintro ⟨owner, _, owns⟩
        exact ⟨owner, owns⟩
      · rintro ⟨owner, owns⟩
        have notNode : owner ≠ node := fun isNode => mine (isNode ▸ owns)
        refine ⟨owner, ?_, owns⟩
        rw [nodes]
        exact (List.mem_erase_of_ne notNode).mpr (sound.live owner other owns).1

theorem Deleted.tracked (deleted : Deleted v s disk slot chain) (sound : Sound v s)
    (tracked : s.Tracked v) (own : s.FindsChain v node slot) (known : node ∈ s.vfs.nodes)
    (empty : attrIsDirectory (entryAttr (rootMem v s.bytes) slot) →
      ∀ address, ¬EntryIn v s.bytes (entryCluster (rootMem v s.bytes) slot) address) {vfs : Vfs}
    (isDisk : vfs.disk = disk) (nodes : vfs.nodes = s.vfs.nodes.erase node)
    (alike : ∀ other, vfs.fat16Node other = s.vfs.fat16Node other) : (keep v vfs s.own).Tracked v := by
  have chained : ChainFrom v s.bytes (s.vfs.fat16Node node).cluster chain := by
    rcases own with ⟨_, same⟩ | ⟨small, smallToo⟩
    · exact same ▸ deleted.chained
    · rw [deleted.chained.unique (show ChainFrom v s.bytes _ [] from ⟨small, trivial⟩)]
      exact ⟨smallToo, trivial⟩
  have mine := @share_chain v s (.node node) chain known chained
  have unknown : node ∉ vfs.nodes := by
    rw [nodes]
    exact sound.tree.nodup.not_mem_erase
  have slots := fun other => @Deleted.stays v s node slot disk chain deleted sound tracked.mirrors
    own vfs isDisk nodes other
  subst isDisk
  refine ⟨fun owner other keeps => ?_, tracked.accounted.moves (.node node)
    ⟨trivial, fun _ owned => absurd owned.1 unknown, fun cluster owned _ => ?_,
      fun cluster used notMine => ?_,
      fun cluster inTable zero _ => ?_, fun holds => absurd holds unknown, fun other atRoot different => ?_,
      fun _ directory address entry => ?_, fun holds => absurd holds unknown⟩⟩
  · obtain ⟨_, owns, live⟩ := keep_own keeps
    have notHere : other ≠ slot := by
      rintro rfl
      have dead := live.2.1
      rw [entryLive, entryFree, deleted.gone.first] at dead
      exact absurd dead (by simp)
    have same := deleted.gone.others other live.1 notHere
    exact tracked.mirrors.entry owns same (fun _ => congrArg (·.cluster) (alike owner))
      (congrArg (·.isDirectory) (alike owner))
  · rw [mine] at owned
    exact (deleted.entries cluster (chained.2.valid owned).2.2).trans (if_pos owned)
  · rw [mine] at notMine
    exact ⟨(deleted.entries cluster used.2.1).trans (if_neg notMine), fun address inside =>
      deleted.data address (clusterArea_data inside)⟩
  · change fatEntry v vfs.disk.bytes cluster = 0
    rw [deleted.entries cluster inTable, zero, ite_self]
  · cases other with
    | node other =>
        have notNode : other ≠ node := fun same => different (congrArg Holder.node same)
        refine stays_node ?_ (by rw [alike]; exact ⟨rfl, rfl⟩)
        rw [nodes]
        exact List.mem_erase_of_ne notNode
    | slot other => exact slots other
    | inner address => exact atRoot.elim
  · obtain ⟨owns, same⟩ := own.resolve_right fun small =>
      absurd small.2 (Nat.not_lt.mpr (entryIn_two entry))
    rw [show s.first v (.node node) = _ from same.symm] at entry
    exact empty ((tracked.mirrors node slot owns).2.mpr directory) address entry

theorem findRoot_live (scanned : findRoot v (fat16NameTo83 name) v.rootSectors 0 s.vfs.disk =
    (some found, middle)) : FoundIn v s.vfs.disk middle found ∧ LiveAt v s.bytes found.index ∧
      entryAttr found.sector found.slot = entryAttr (rootMem v s.bytes) found.index ∧
      entryCluster found.sector found.slot = entryCluster (rootMem v s.bytes) found.index := by
  obtain ⟨foundIn, live, _, before⟩ := findRoot_found (Nat.zero_add _) scanned
  refine ⟨foundIn, ⟨foundIn.index, live, fun earlier upper => ?_⟩, ?_, ?_⟩
  · exact (before earlier (by omega) upper).1
  · rw [foundIn.sector]
    exact entry_sectorOf.2.2.1
  · rw [foundIn.sector]
    exact entry_sectorOf.2.2.2.1

theorem delete_through (scanned : findRoot v (fat16NameTo83 name) v.rootSectors 0 s.vfs.disk =
      (some found, middle))
    (chained : ChainFrom v s.bytes (entryCluster (rootMem v s.bytes) found.index) chain)
    (bytes : looked.bytes = s.bytes)
    (whole : ReleasesWhole v 0x10000 (entryCluster found.sector found.slot) looked) :
    ∃ disk, (match if 2 ≤ entryCluster found.sector found.slot then
        fat16ReleaseClusterChain v looked (entryCluster found.sector found.slot) else (true, looked) with
      | (false, d) => (false, d)
      | (true, d) => ataWriteSector d (v.rootStart + found.sectorIndex)
        (deletedEntry found.sector found.slot)) =
        (true, disk) ∧ Deleted v s disk found.index chain := by
  obtain ⟨foundIn, live, _, start⟩ := findRoot_live scanned
  have chainedToo : ChainFrom v looked.bytes (entryCluster found.sector found.slot) chain := by
    rw [start, bytes]
    exact chained
  obtain ⟨middle, released, releases⟩ := release_whole chainedToo whole
  have table : ∀ address, v.rootStart * 512 ≤ address → middle.bytes address = s.bytes address := by
    intro address behind
    rw [releases.others address fun cluster member inside => absurd behind
      (Nat.not_le.mpr (fatWords_table (chained.2.valid member).2.2 inside).2), bytes]
  have root : ∀ address ∈ rootArea v, middle.bytes address = s.bytes address := fun address inside =>
    table address inside.1
  have sector : ∀ index < 512, found.sector index = sectorOf (rootMem v middle.bytes)
    found.sectorIndex index := by
    intro index bound
    have row := foundIn.sectorIndex
    rw [foundIn.sector]
    exact (rootSame_mem root (by omega)).symm
  have put := @ataWriteSector_clear middle (v.rootStart + found.sectorIndex)
    (deletedEntry found.sector found.slot) releases.next
  obtain ⟨changes, gone⟩ := entryGone_of_write foundIn.slot sector put
  rw [released]
  refine ⟨_, put, live, ⟨fun slot bound different => ?_, gone.first⟩,
    chained, fun cluster known => ?_, fun address behind => ?_⟩
  · exact (rootSame_entry root bound).trans (gone.others slot bound different)
  · have same : fatEntry v _ cluster = fatEntry v middle.bytes cluster :=
      tableEntry_congr known fun address front => changes.bytes address fun inside =>
        absurd ((Nat.le_add_right _ _).trans inside.1) (Nat.not_le.mpr front)
    rw [same, releases.entries cluster known, bytes]
  · have apart : address ∉ slotArea v found.index := fun inside =>
      absurd (slotArea_rootArea foundIn.index inside).2 (Nat.not_lt.mpr behind)
    rw [changes.bytes address apart]
    exact table address ((rootStart_le_data).trans behind)

theorem delete_tracked (sound : Sound v s) (tracked : s.Tracked v) (listed : s.vfs.Listed node)
    (whole : s.DeleteWhole v node) : (keep v (s.vfs.fat16DeleteNode v node).2 s.own).Tracked v := by
  rw [Vfs.fat16DeleteNode]
  split
  next => exact tracked.called sound rfl
  next some =>
    split
    next => exact tracked.called sound rfl
    next atRoot =>
      split
      next => exact tracked.called sound rfl
      next childless =>
        rcases scanned : findRoot v (fat16NameTo83 (s.vfs.node node).name) v.rootSectors 0 s.vfs.disk with
          ⟨none | found, middle⟩
        · have same : middle.bytes = s.bytes := by
            have changes : Changes ∅ s.vfs.disk
              (findRoot v (fat16NameTo83 (s.vfs.node node).name) v.rootSectors 0 s.vfs.disk).2 :=
              findRoot_changes
            rw [scanned] at changes
            exact changes.none
          rw [fat16Delete, scanned]
          exact tracked.called sound same
        · obtain ⟨foundIn, live, attr, start⟩ := findRoot_live scanned
          obtain ⟨checks, further⟩ := whole (not_not.mp atRoot)
            (fun directory => not_not.mp fun child => childless ⟨directory, child⟩) found middle scanned
          obtain ⟨chain, chained⟩ := tracked.entryChain sound live
          have unread : middle.bytes = s.bytes := foundIn.same.none
          rw [fat16Delete_found scanned]
          rcases look : foundEmpty v found middle with ⟨empty, looked⟩
          have same : looked.bytes = s.bytes := by
            have changes : Changes ∅ middle (foundEmpty v found middle).2 := foundEmpty_changes
            rw [look] at changes
            exact changes.none.trans unread
          cases empty with
          | false => exact tracked.called sound same
          | true =>
              dsimp only
              rcases further looked look with stops | ⟨releases, own⟩
              · have startsToo : ChainFrom v looked.bytes (entryCluster found.sector found.slot) chain := by
                  rw [start, same]
                  exact chained
                obtain ⟨after, done, bytes⟩ := delete_stopped startsToo stops
                rw [done]
                exact tracked.called sound (bytes.trans same)
              · obtain ⟨disk, done, deleted⟩ := delete_through scanned chained same releases
                have diskTree : ({ s.vfs with disk } : Vfs).Tree :=
                  @Vfs.SameTree.tree s.vfs _ ⟨rfl, rfl, rfl, rfl, rfl⟩ sound.tree
                obtain ⟨unlinked, takes, unlinks⟩ := diskTree.unlink listed
                rw [done]
                dsimp only
                rw [takes]
                have known := (sound.tree.child _ listed.1 node listed.2).1
                refine deleted.tracked sound tracked own known (fun directory address => ?_) ?_ rfl
                  fun other => ?_
                · rw [foundEmpty, attr,
                    if_pos (show (entryAttr (rootMem v s.bytes) found.index).toNat / 16 % 2 = 1 from
                    directory)] at look
                  have chainedToo : ChainFrom v middle.bytes (entryCluster found.sector found.slot) chain := by
                    rw [start, unread]
                    exact chained
                  have none := fat16DirectoryClusterEmpty_none chainedToo checks look address
                  rwa [start, unread] at none
                · rw [unlinks.others]
                · change Fat16Node.mk (unlinked.node other).name _ _ _ = _
                  rw [unlinks.body other]
                  rfl

end Deletion

end VolumeTree

end Szczupak
