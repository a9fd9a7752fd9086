import Mathlib.Data.List.Find
import Szczupak.Lib.Transition
import Szczupak.Fs.ChainCalls
import Szczupak.Fs.VfsMounts
import Szczupak.Fs.VolumeTreeCore

/-!
Deletions on a mounted volume.  `fat16_delete` looks the entry of a node up again by its name and
takes the chain from the entry that it finds.  Where that is the node's own entry and the node
has no other chain, the call deletes the node and nothing else.
-/

namespace Szczupak

namespace VolumeTree

/-- What every run keeps: a tree whose file systems are volumes, and live slots. -/
structure Sound (v : Volume) (s : VolumeTree) : Prop where
  tree : s.vfs.Tree
  volumes : ∀ fs ∈ s.vfs.filesystems, (s.vfs.filesystem fs).ops = .fat16
  live : ∀ node slot, s.own node = some slot → node ∈ s.vfs.nodes ∧ LiveAt v s.bytes slot

section Runs

variable {v : Volume} {s after : VolumeTree} {vfs : Vfs} {own : Nat → Option Nat} {node slot : Nat}

theorem keep_own (kept : (keep v vfs own).own node = some slot) :
    node ∈ vfs.nodes ∧ own node = some slot ∧ LiveAt v vfs.disk.bytes slot := by
  change (if node ∈ vfs.nodes then _ else none) = some slot at kept
  split at kept
  next known =>
    obtain ⟨owns, live⟩ := Option.filter_eq_some_iff.mp kept
    exact ⟨known, owns, of_decide_eq_true live⟩
  next => cases kept

theorem keep_own_iff (known : node ∈ vfs.nodes) (live : LiveAt v vfs.disk.bytes slot) :
    (keep v vfs own).own node = some slot ↔ own node = some slot := by
  refine ⟨fun kept => (keep_own kept).2.1, fun owns => ?_⟩
  change (if node ∈ vfs.nodes then _ else none) = some slot
  rw [if_pos known]
  exact Option.filter_eq_some_iff.mpr ⟨owns, decide_eq_true live⟩

section

variable (sound : Sound v s)
include sound

theorem Sound.ops (known : node ∈ s.vfs.nodes) : s.vfs.ops node = .fat16 :=
  sound.volumes _ (sound.tree.owned node known)

theorem Sound.failing (faults : List Nat) :
    Sound v { s with vfs := s.vfs.failing faults } :=
  ⟨@Vfs.SameTree.tree s.vfs _ ⟨rfl, rfl, rfl, rfl, rfl⟩ sound.tree, sound.volumes, sound.live⟩

theorem Sound.keeps (tree : vfs.Tree)
    (same : vfs.filesystems = s.vfs.filesystems ∧ vfs.filesystem = s.vfs.filesystem) :
    Sound v (keep v vfs own) := by
  refine ⟨tree, fun fs known => ?_, fun _ _ kept => ⟨(keep_own kept).1, (keep_own kept).2.2⟩⟩
  change fs ∈ vfs.filesystems at known
  change (vfs.filesystem fs).ops = .fat16
  rw [same.2]
  exact sound.volumes fs (same.1 ▸ known)

theorem made_sound {parent block : Nat} {name : List UInt8} {isDirectory : Bool}
    {result : Option Nat × Vfs} (known : parent ∈ s.vfs.nodes)
    (creates : Vfs.Creates s.vfs parent block name isDirectory result) :
    Sound v (s.made v name result).2 := by
  have chain : Vfs.Chain (fun _ _ => True) False s.vfs result.2 :=
    creates.chain known False.elim fun _ _ _ => trivial
  have tree := chain.tree sound.tree
  have same := creates.filesystems
  rcases result with ⟨_ | made, vfs⟩
  · exact sound.keeps tree same
  · exact sound.keeps tree same

theorem call_sound {call : VolumeCall} {ok : Bool}
    (called : s.call v call = some (ok, after)) : Sound v after := by
  cases call with
  | createFile parent name block =>
      rw [VolumeTree.call] at called
      split at called
      next known =>
        have made := made_sound sound known
          (@Vfs.fat16CreateFileNode_creates v s.vfs parent block name (sound.ops known))
        rw [Option.some.inj called] at made
        exact made
      next => cases called
  | createDir parent name block =>
      rw [VolumeTree.call] at called
      split at called
      next known =>
        have made := made_sound sound known
          (@Vfs.fat16CreateDirNode_creates v s.vfs parent block name (sound.ops known))
        rw [Option.some.inj called] at made
        exact made
      next => cases called
  | write node offset bytes =>
      rw [VolumeTree.call] at called
      split at called
      next known =>
        have isAfter : keep v (s.vfs.fat16WriteAt v node offset bytes).2 s.own = after :=
          congrArg Prod.snd (Option.some.inj called)
        obtain ⟨resized, chain⟩ := @Vfs.fat16WriteAt_writes v s.vfs node offset bytes (sound.ops known)
        rw [← isAfter]
        exact sound.keeps ((chain (fun _ _ => True) False).tree sound.tree)
          ⟨resized.filesystems, resized.filesystem⟩
      next => cases called
  | delete node =>
      rw [VolumeTree.call] at called
      split at called
      next held =>
        have isAfter : keep v (s.vfs.fat16DeleteNode v node).2 s.own = after :=
          congrArg Prod.snd (Option.some.inj called)
        rw [← isAfter]
        rcases held with listed | top
        · have deletes := @Vfs.fat16DeleteNode_deletes v s.vfs node sound.tree listed
          have chain : Vfs.Chain (fun _ _ => True) False s.vfs (s.vfs.fat16DeleteNode v node).2 := deletes.chain
          exact sound.keeps (chain.tree sound.tree) deletes.filesystems
        · rw [Vfs.fat16DeleteNode_root top]
          exact sound.keeps sound.tree ⟨rfl, rfl⟩
      next => cases called

theorem step_sound {request : VolumeRequest} (taken : s.step v request = some after) :
    Sound v after := by
  obtain ⟨⟨ok, result⟩, called, rfl⟩ := Option.map_eq_some_iff.mp taken
  exact call_sound (sound.failing request.faults) called

end

theorem mount_sound {disk : Disk} {fs root : Nat} {blocks : List Nat} :
    Sound v (mount v disk fs root blocks) := by
  have chain : Vfs.Chain (fun _ _ => True) False (Vfs.init disk)
    ((Vfs.init disk).fat16CreateFs v fs root blocks).2 := by
    refine Vfs.fat16CreateFs_chain Vfs.init_tree ?_
    exact List.Pairwise.imp (fun _ => trivial)
      (List.pairwise_of_forall (R := fun _ _ => True) fun _ _ => trivial)
  refine ⟨chain.tree Vfs.init_tree, ?_, fun _ _ kept => ⟨(keep_own kept).1, (keep_own kept).2.2⟩⟩
  change ∀ fs' ∈ ((Vfs.init disk).fat16CreateFs v fs root blocks).2.filesystems,
    (((Vfs.init disk).fat16CreateFs v fs root blocks).2.filesystem fs').ops = .fat16
  rw [Vfs.fat16CreateFs]
  split
  next => simp [Vfs.init]
  next =>
    split
    next => simp [Vfs.init]
    next =>
      intro other known
      change other ∈ (Vfs.linkMounted root (fat16Create v (Vfs.init disk).disk).1 blocks 0
        _).filesystems at known
      change ((Vfs.linkMounted root (fat16Create v (Vfs.init disk).disk).1 blocks 0 _).filesystem
        other).ops = .fat16
      rw [Vfs.linkMounted_others.1] at known
      rw [Vfs.linkMounted_others.2.1, List.mem_singleton.mp known]
      have isFs := @Function.update_self Nat (fun _ => VfsFilesystem) _ fs ⟨.fat16, root⟩
        (Vfs.init disk).filesystem
      exact congrArg VfsFilesystem.ops isFs

theorem run_sound {disk : Disk} {fs root : Nat} {blocks : List Nat} {requests : List VolumeRequest}
    (reached : runActions (step v) (mount v disk fs root blocks) requests = some s) : Sound v s :=
  runActions_invariant (fun _ _ _ sound taken => step_sound sound taken) mount_sound reached

end Runs

/-- The node finds its own entry: the name leads back to the bytes of the entry, none in front
has them, the entry has the first cluster of the node, and its chain is nobody else's. -/
structure FindsOwn (v : Volume) (s : VolumeTree) (node slot : Nat) (chain : List Nat) : Prop where
  owns : s.own node = some slot
  name : fat16NameTo83 (s.vfs.node node).name = entryName (rootMem v s.bytes) slot
  first : ∀ earlier < slot, entryLive (rootMem v s.bytes) earlier = true →
    entryName (rootMem v s.bytes) earlier ≠ entryName (rootMem v s.bytes) slot
  cluster : entryCluster (rootMem v s.bytes) slot = (s.vfs.fat16Node node).cluster
  chained : ChainFrom v s.bytes (s.vfs.fat16Node node).cluster chain
  apart : ∀ other, other ≠ slot → LiveAt v s.bytes other →
    ∀ rest, ChainFrom v s.bytes (s.start v other) rest → ∀ cluster ∈ rest, cluster ∉ chain

/-- What a deletion is to do: the entry of the node is given up, the clusters of its chain become
free and the node leaves the list of its parent.  Nothing else changes. -/
structure DeletesOnly (v : Volume) (s after : VolumeTree) (node slot : Nat)
    (chain : List Nat) : Prop where
  marked : rootMem v after.bytes (slot * 32) = 0xE5
  others : ∀ address, address ∉ fatArea v → address ∉ slotArea v slot →
    after.bytes address = s.bytes address
  freed : ∀ cluster < v.fatEntries, fatEntry v after.bytes cluster =
    if cluster ∈ chain then 0 else fatEntry v s.bytes cluster
  gone : after.vfs.nodes = s.vfs.nodes.erase node ∧ node ∉ after.vfs.nodes
  lists : ∀ dir ∈ after.vfs.nodes, after.vfs.children dir =
    if dir = (s.vfs.node node).parent then (s.vfs.children dir).erase node else s.vfs.children dir
  nodes : ∀ other, after.vfs.node other = { s.vfs.node other with
    firstChild := (after.vfs.node other).firstChild, nextSibling := (after.vfs.node other).nextSibling }
  entries : ∀ other, other ≠ slot → (LiveAt v after.bytes other ↔ LiveAt v s.bytes other)
  chains : ∀ other, other ≠ slot → LiveAt v s.bytes other → ∀ rest,
    ChainFrom v s.bytes (s.start v other) rest → ChainFrom v after.bytes (after.start v other) rest

section Deletions

variable {v : Volume} {s after : VolumeTree} {node slot : Nat} {chain : List Nat}

theorem gone_liveAt {before later : Mem} {other : Nat}
    (gone : EntryGone v (rootMem v before) (rootMem v later) slot)
    (live : LiveAt v before slot) (different : other ≠ slot) : LiveAt v later other ↔
    LiveAt v before other := by
  have marks : ∀ earlier < v.rootSlots, rootMem v later (earlier * 32) ≠ 0 ↔
    rootMem v before (earlier * 32) ≠ 0 := by
    intro earlier bound
    by_cases here : earlier = slot
    · rw [here, gone.first]
      refine iff_of_true (by decide) fun ends => ?_
      have free := entryLive_not_free live.2.1
      rw [entryFree, ends] at free
      cases free
    · rw [(gone.others earlier bound here).first]
  rw [LiveAt, LiveAt]
  refine and_congr_right fun bound => ?_
  rw [(gone.others other bound different).live]
  exact and_congr_right fun _ => forall₂_congr fun earlier before => marks earlier (before.trans bound)

theorem find_erase {list : List Nat} {test : Nat → Bool} (fails : test node = false) :
    (list.erase node).find? test = list.find? test := by
  induction list with
  | nil => rfl
  | cons head tail ih =>
      by_cases same : head = node
      · rw [same, List.erase_cons_head, List.find?_cons_of_neg (by rw [fails]; exact Bool.false_ne_true)]
      · rw [List.erase_cons_tail (by rwa [beq_iff_eq]), List.find?_cons, List.find?_cons, ih]

theorem start_eq {other : Nat}
    (nodes : after.vfs.nodes.find? (fun node => after.own node == some other) =
      s.vfs.nodes.find? fun node => s.own node == some other)
    (clusters : ∀ node ∈ s.vfs.nodes, s.own node = some other →
      (after.vfs.fat16Node node).cluster = (s.vfs.fat16Node node).cluster)
    (entry : entryCluster (rootMem v after.bytes) other = entryCluster (rootMem v s.bytes) other) :
    after.start v other = s.start v other := by
  rw [start, start, nodes]
  cases found : s.vfs.nodes.find? fun node => s.own node == some other with
  | none => exact entry
  | some node =>
      have owns := @List.find?_some _ (fun node => s.own node == some other) _ _ found
      exact clusters node (List.mem_of_find?_eq_some found) (beq_iff_eq.mp owns)

theorem fat16DeleteNode_true {vfs later : Vfs} (deleted : vfs.fat16DeleteNode v node =
    (true, later)) : ∃ disk u, fat16Delete v vfs.disk (vfs.node node).name = (true, disk) ∧
      ({ vfs with disk } : Vfs).unlink node = some u ∧ later = { u with nodes := vfs.nodes.erase node } := by
  rw [Vfs.fat16DeleteNode] at deleted
  split at deleted
  next => cases deleted
  next =>
    split at deleted
    next => cases deleted
    next =>
      split at deleted
      next => cases deleted
      next =>
        split at deleted
        next => cases deleted
        next disk done =>
          split at deleted
          next => cases deleted
          next u taken =>
            cases deleted
            exact ⟨disk, u, done, taken, rfl⟩

theorem call_deletes (sound : Sound v s) (reliable : Reliable s.vfs.disk)
    (own : s.FindsOwn v node slot chain)
    (deleted : s.call v (.delete node) = some (true, after)) :
    DeletesOnly v s after node slot chain := by
  rw [call] at deleted
  split at deleted
  next held =>
    rcases result : s.vfs.fat16DeleteNode v node with ⟨ok, later⟩
    rw [result] at deleted
    obtain ⟨isOk, isAfter⟩ := Prod.mk.inj (Option.some.inj deleted)
    change ok = true at isOk
    subst isOk
    have listed : s.vfs.Listed node := by
      refine held.resolve_right fun top => ?_
      rw [Vfs.fat16DeleteNode_root top] at result
      cases result
    obtain ⟨disk, u, done, taken, isLater⟩ := fat16DeleteNode_true result
    have diskTree : ({ s.vfs with disk } : Vfs).Tree :=
      @Vfs.SameTree.tree s.vfs _ ⟨rfl, rfl, rfl, rfl, rfl⟩ sound.tree
    obtain ⟨unlinked, takes, unlinks⟩ := diskTree.unlink listed
    rw [taken, Option.some.injEq] at takes
    subst takes
    obtain ⟨_, lists⟩ := diskTree.drop listed unlinks
    have isDisk : after.bytes = disk.bytes := by
      rw [← isAfter, isLater, unlinks.others]
      rfl
    have live := (sound.live node slot own.owns).2
    have first : FirstNamed (rootMem v s.bytes) (fat16NameTo83 (s.vfs.node node).name) slot :=
      ⟨live.2.1, own.name.symm, fun earlier before => ⟨live.2.2 earlier before, fun both =>
        own.first earlier before both.1 (both.2.trans own.name)⟩⟩
    obtain ⟨changes, gone, entries⟩ := fat16Delete_chain reliable done first (own.cluster ▸ own.chained)
    have isNode : ∀ other, after.vfs.node other = u.node other := by
      intro other
      rw [← isAfter, isLater]
      rfl
    have isNodes : after.vfs.nodes = s.vfs.nodes.erase node := by
      rw [← isAfter, isLater]
      rfl
    have body : ∀ other, after.vfs.node other = { s.vfs.node other with
        firstChild := (after.vfs.node other).firstChild
        nextSibling := (after.vfs.node other).nextSibling } := by
      intro other
      rw [isNode]
      exact unlinks.body other
    rw [← isDisk] at gone
    refine ⟨gone.first, fun address notTable notSlot => ?_, fun cluster known => ?_,
      ⟨isNodes, ?_⟩, fun dir known => ?_,
      body, fun other different => gone_liveAt gone live different,
      fun other different here rest chained => ?_⟩
    · rw [isDisk]
      exact changes.bytes address (not_or.mpr ⟨notTable, notSlot⟩)
    · rw [isDisk]
      exact entries cluster known
    · rw [isNodes]
      exact sound.tree.nodup.not_mem_erase
    · rw [isNodes] at known
      rw [← isAfter, isLater]
      exact lists dir known
    · have sameStart : after.start v other = s.start v other := by
        refine start_eq ?_ (fun node _ _ => by rw [Vfs.fat16Node, body]; rfl)
          (gone.others other here.1 different).cluster
        rw [isNodes, ← @find_erase node s.vfs.nodes (fun node => s.own node == some other)]
        · refine List.find?_congr fun node member => ?_
          rw [← isNodes, ← isAfter] at member
          have alive : LiveAt v later.disk.bytes other := by
            rw [← isAfter] at gone
            exact (gone_liveAt gone live different).mpr here
          rw [Bool.eq_iff_iff, beq_iff_eq, beq_iff_eq, ← isAfter]
          exact keep_own_iff member alive
        · rw [own.owns]
          exact beq_false_of_ne fun same => different (Option.some.inj same).symm
      rw [sameStart]
      refine chained.congr fun cluster member => ?_
      rw [isDisk, entries cluster (chained.2.valid member).2.2,
        if_neg (own.apart other different here rest chained cluster member)]
      rfl
  next => cases deleted

/-- After every run of calls from a mount on, whatever requests failed in them: a deletion of a
node that finds its own entry, in which no request fails, deletes the node and nothing else. -/
theorem delete_deletesOnly {disk : Disk} {fs root : Nat} {blocks : List Nat}
    {requests : List VolumeRequest}
    (reached : runActions (step v) (mount v disk fs root blocks) requests = some s)
    (own : s.FindsOwn v node slot chain)
    (deleted : s.request v ⟨.delete node, []⟩ = some (true, after)) :
    DeletesOnly v s after node slot chain := by
  have reliable : Reliable (s.vfs.failing []).disk := fun index =>
    decide_eq_false (List.not_mem_nil (a := index))
  have still : ({ s with vfs := s.vfs.failing [] } : VolumeTree).FindsOwn v node slot chain :=
    ⟨own.owns, own.name, own.first, own.cluster, own.chained, own.apart⟩
  have only := call_deletes ((run_sound reached).failing []) reliable still deleted
  exact ⟨only.marked, only.others, only.freed, only.gone, only.lists, only.nodes,
    only.entries, only.chains⟩

end Deletions

theorem deletedDir_only : ∃ s after, runActions (step smallVolume)
    (mount smallVolume formattedDisk 1 2 [])
    [⟨.createDir 2 [68] 3, []⟩] = some s ∧ s.request smallVolume ⟨.delete 3, []⟩ =
      some (true, after) ∧ DeletesOnly smallVolume s after 3 0 [2] := by
  have runs : (runActions (step smallVolume) (mount smallVolume formattedDisk 1 2 [])
      [⟨.createDir 2 [68] 3, []⟩]).map (fun s => decide (s.own 3 = some 0 ∧
        fat16NameTo83 (s.vfs.node 3).name = entryName (rootMem smallVolume s.bytes) 0 ∧
        entryCluster (rootMem smallVolume s.bytes) 0 = 2 ∧ (s.vfs.fat16Node 3).cluster = 2 ∧
        0xFFF8 ≤ fatEntry smallVolume s.bytes 2 ∧
        (∀ other < smallVolume.rootSlots, other ≠ 0 → ¬LiveAt smallVolume s.bytes other) ∧
        (s.request smallVolume ⟨.delete 3, []⟩).map Prod.fst = some true)) = some true := by decide
  obtain ⟨s, reached, holds⟩ := Option.map_eq_some_iff.mp runs
  obtain ⟨owns, name, entry, cluster, mark, none, succeeds⟩ := of_decide_eq_true holds
  obtain ⟨⟨report, after⟩, deleted, rfl⟩ := Option.map_eq_some_iff.mp succeeds
  have own : s.FindsOwn smallVolume 3 0 [2] := by
    refine ⟨owns, name, fun earlier before => absurd before (Nat.not_lt_zero _), entry.trans cluster.symm,
      ⟨cluster, ⟨by decide, by decide, by decide⟩, mark, trivial⟩, fun other different live => ?_⟩
    exact absurd live (none other live.1 different)
  exact ⟨s, after, reached, deleted, delete_deletesOnly reached own deleted⟩

/-- The node of "A.B" is named "AB", so the entry of the file "AB" is given up in its place. -/
theorem dottedNode_breaks : ¬ ∀ (v : Volume) (disk : Disk) (fs root : Nat) (blocks : List Nat)
    (requests : List VolumeRequest) (s after : VolumeTree) (node slot : Nat),
    runActions (step v) (mount v disk fs root blocks) requests = some s → s.own node = some slot →
      s.request v ⟨.delete node, []⟩ = some (true, after) → ∃ chain,
      DeletesOnly v s after node slot chain := by
  intro only
  have runs : (runActions (step smallVolume) (mount smallVolume formattedDisk 1 2 [])
      [⟨.createFile 2 [65, 46, 66] 3, []⟩, ⟨.createFile 2 [65, 66] 4, []⟩]).map (fun s =>
        decide (s.own 3 = some 0 ∧ (s.request smallVolume ⟨.delete 3, []⟩).map (fun result =>
          (result.1, rootMem smallVolume result.2.bytes 0)) = some (true, 65))) = some true := by decide
  obtain ⟨s, reached, holds⟩ := Option.map_eq_some_iff.mp runs
  obtain ⟨owns, succeeds⟩ := of_decide_eq_true holds
  obtain ⟨⟨report, after⟩, deleted, same⟩ := Option.map_eq_some_iff.mp succeeds
  obtain ⟨rfl, kept⟩ := Prod.mk.inj same
  obtain ⟨chain, deletes⟩ := only smallVolume formattedDisk 1 2 [] _ s after 3 0 reached owns deleted
  have marked := deletes.marked
  rw [Nat.zero_mul, kept] at marked
  exact absurd marked (by decide)

end VolumeTree

end Szczupak
