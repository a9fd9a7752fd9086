import Szczupak.Lib.Transition
import Szczupak.Fs.RootDirectory
import Szczupak.Fs.VfsMounts

/-!
Runs of the tree of nodes, from `vfs_init` on: file systems are made and mounted, and nodes are
made, written and deleted.  A mount that keeps the types of `fs_data` leaves every deletion with
data of the node alone.
-/

namespace Szczupak

inductive VfsCall where
  | tmpfsCreate (fs root : Nat)
  | fat16Create (fs root : Nat) (blocks : List Nat)
  | mount (fs : Nat) (path : List UInt8)
  | mountAt (fs : Nat) (path : List UInt8) (block : Nat)
  | ensureDirectory (path : List UInt8) (blocks : List Nat)
  | createFile (parent : Nat) (name : List UInt8) (block data : Nat)
  | createDirectory (parent : Nat) (name : List UInt8) (block : Nat)
  | delete (node : Nat)
  | write (node offset : Nat) (bytes : List UInt8) (block : Nat)

namespace Vfs

/-- The callers have the file systems that were made, and the nodes that a lookup can find. -/
def step (v : Volume) (s : Vfs) : VfsCall → Option Vfs
  | .tmpfsCreate fs root => some (s.tmpfsCreate fs root).2
  | .fat16Create fs root blocks => some (s.fat16CreateFs v fs root blocks).2
  | .mount fs path => if fs ∈ s.filesystems then some (s.vfsMount fs path).2 else none
  | .mountAt fs path block => if fs ∈ s.filesystems then some (s.vfsMountAt fs path block).2 else none
  | .ensureDirectory path blocks => some (s.vfsEnsureDirectory v path blocks).2
  | .createFile parent name block data =>
      if parent ∈ s.nodes then some (s.vfsCreateFile v parent name block data).2 else none
  | .createDirectory parent name block =>
      if parent ∈ s.nodes then some (s.vfsCreateDirectory v parent name block).2 else none
  | .delete node =>
      if s.Listed node ∨ (s.node node).parent = 0 then (s.vfsDelete v node).map (·.2) else none
  | .write node offset bytes block =>
      if node ∈ s.nodes then (s.vfsWrite v node offset bytes block).map (·.2) else none

structure FreesOwn (s after : Vfs) (node : Nat) : Prop where
  nodes : ∀ address ∈ s.nodes, address ∉ after.nodes → address = node
  datas : ∀ address ∈ s.datas, address ∉ after.datas →
    s.ops node = .tmpfs ∧ address = (s.node node).fsData
  buffers : ∀ address ∈ s.buffers, address ∉ after.buffers →
    s.ops node = .tmpfs ∧ address = (s.tmpfsData (s.node node).fsData).data
  filesystems : after.filesystems = s.filesystems

/-- Sibling lists end, a child has its directory as parent, `fs_data` is what the operations of
the node take it for, and a deletion works on data of its node. -/
structure InOrder (v : Volume) (s : Vfs) : Prop where
  acyclic : ∀ dir ∈ s.nodes, ∃ listed, Linked s.next 0 (s.node dir).firstChild listed ∧
    listed.Nodup ∧ ∀ child ∈ listed, child ∈ s.nodes ∧ (s.node child).parent = dir
  fits : ∀ node ∈ s.nodes, s.Fits node
  sole : ∀ left ∈ s.nodes, ∀ right ∈ s.nodes, s.ops left = .tmpfs → s.ops right = .tmpfs →
    (s.node left).fsData = (s.node right).fsData → (s.node left).fsData ≠ 0 → left = right
  deletes : ∀ node, s.Listed node → ∃ ok after, s.vfsDelete v node = some (ok, after) ∧
    FreesOwn s after node

/-- A file system that is mounted over a path has no nodes yet and no cluster to tell. -/
def MountFits (s : Vfs) : VfsCall → Prop
  | .mountAt fs path block => path = [47] ∨ s.MountsBare fs path block ∧ s.MountsTyped fs path
  | _ => True

instance (s : Vfs) (call : VfsCall) : Decidable (s.MountFits call) :=
  match call with
  | .mountAt _ _ _ => inferInstanceAs (Decidable (_ ∨ _ ∧ _))
  | .tmpfsCreate _ _ | .fat16Create _ _ _ | .mount _ _ | .ensureDirectory _ _ | .createFile _ _ _ _
  | .createDirectory _ _ _ | .delete _ | .write _ _ _ _ => .isTrue trivial

section Runs

variable {v : Volume} {s after : Vfs} {node : Nat} {call : VfsCall}

theorem vfsDelete_defined (fits : s.Fits node) : ∃ result, s.vfsDelete v node = some result := by
  rw [vfsDelete]
  split
  next => exact ⟨_, rfl⟩
  next =>
    split
    next => exact ⟨_, rfl⟩
    next tmpfs =>
      rw [tmpfsDelete]
      split
      next => exact ⟨_, rfl⟩
      next =>
        split
        next => exact ⟨_, rfl⟩
        next =>
          split
          next => exact ⟨_, rfl⟩
          next =>
            dsimp only
            split
            next => exact ⟨_, rfl⟩
            next some =>
              rw [if_pos (((fits_tmpfs tmpfs).mp fits).resolve_left some).2]
              exact ⟨_, rfl⟩

theorem mem_erased {address other : Nat} {list : List Nat} (member : address ∈ list)
    (gone : address ∉ list.erase other) : address = other := by
  by_contra different
  exact gone ((List.mem_erase_of_ne different).mpr member)

theorem delete_frees (tree : s.Tree) (own : s.OwnData) (listed : s.Listed node) :
    ∃ ok after, s.vfsDelete v node = some (ok, after) ∧ FreesOwn s after node := by
  obtain ⟨⟨ok, after⟩, deleted⟩ :=
    @vfsDelete_defined v s node (own.fits node (tree.child _ listed.1 _ listed.2).1)
  refine ⟨ok, after, deleted, ?_⟩
  have deletes := vfsDelete_deletes tree listed deleted
  cases deletes with
  | refuses disk =>
      exact ⟨fun _ member gone => absurd member gone, fun _ member gone => absurd member gone,
        fun _ member gone => absurd member gone, rfl⟩
  | drops empty unlinks same steps freed =>
      refine ⟨fun address member gone => ?_, fun address member gone => ?_, fun address member gone => ?_, ?_⟩
      · rw [same.nodes] at gone
        exact mem_erased member gone
      · rcases freed with kept | ⟨tmpfs, _, datas, _⟩
        · rw [kept.1] at gone
          exact absurd member gone
        · rw [datas] at gone
          exact ⟨tmpfs, mem_erased member gone⟩
      · rcases freed with kept | ⟨tmpfs, _, _, buffers⟩
        · rw [kept.2] at gone
          exact absurd member gone
        · rw [buffers] at gone
          exact ⟨tmpfs, mem_erased member gone⟩
      · rw [same.filesystems, unlinks.others]

theorem inOrder (tree : s.Tree) (own : s.OwnData) : InOrder v s :=
  ⟨fun dir known => ⟨_, tree.linked dir known, tree.distinct dir known, tree.child dir known⟩,
    own.fits, own.sole, fun _ => delete_frees tree own⟩

theorem step_chain (tree : s.Tree) (own : s.OwnData) (fits : s.MountFits call)
    (taken : s.step v call = some after) : Chain (fun _ _ => True) True s after := by
  cases call with
  | tmpfsCreate fs root =>
      cases taken
      exact tmpfsCreate_chain
  | fat16Create fs root blocks =>
      cases taken
      refine fat16CreateFs_chain tree ?_
      exact List.Pairwise.imp (fun _ => trivial)
        (List.pairwise_of_forall (R := fun _ _ => True) fun _ _ => trivial)
  | mount fs path =>
      rw [step] at taken
      split at taken
      next known =>
        cases taken
        exact vfsMount_chain tree known
      next => cases taken
  | mountAt fs path block =>
      rw [step] at taken
      split at taken
      next known =>
        cases taken
        exact vfsMountAt_chain tree known (fun notRoot => (fits.resolve_left notRoot).1)
          (fun _ notRoot => (fits.resolve_left notRoot).2) fun _ _ _ => trivial
      next => cases taken
  | ensureDirectory path blocks =>
      cases taken
      rw [vfsEnsureDirectory]
      split
      next => exact .refl
      next mounted =>
        exact ensureFrom_chain tree (tree.root.resolve_left (not_or.mp mounted).1).1 (fun _ => own)
          fun _ _ _ _ _ _ _ => trivial
  | createFile parent name block data =>
      rw [step] at taken
      split at taken
      next known =>
        cases taken
        exact vfsCreateFile_creates.chain known (fun _ => own) fun _ _ _ => trivial
      next => cases taken
  | createDirectory parent name block =>
      rw [step] at taken
      split at taken
      next known =>
        cases taken
        exact vfsCreateDirectory_creates.chain known (fun _ => own) fun _ _ _ => trivial
      next => cases taken
  | delete node =>
      rw [step] at taken
      split at taken
      next held =>
        obtain ⟨⟨ok, result⟩, deleted, rfl⟩ := Option.map_eq_some_iff.mp taken
        rcases held with listed | top
        · exact (vfsDelete_deletes tree listed deleted).chain
        · rw [vfsDelete_root top] at deleted
          cases deleted
          exact .refl
      next => cases taken
  | write node offset bytes block =>
      rw [step] at taken
      split at taken
      next known =>
        obtain ⟨⟨ok, result⟩, wrote, rfl⟩ := Option.map_eq_some_iff.mp taken
        exact (vfsWrite_writes wrote).2 _ _
      next => cases taken

theorem mountOver_breaks {fs mountPoint : Nat} (isRoot : (s.filesystem fs).root ∈ s.nodes)
    (apart : (s.filesystem fs).root ≠ mountPoint)
    (some : (s.node (s.filesystem fs).root).firstChild ≠ 0) :
    ¬InOrder v (s.mountOver fs mountPoint) := by
  intro order
  generalize first : (s.node (s.filesystem fs).root).firstChild = child at some
  have mounted : (s.modify mountPoint fun old => { old with
      fs, firstChild := (s.node (s.filesystem fs).root).firstChild }).children mountPoint =
        child :: (siblings (s.modify mountPoint fun old => { old with
          fs, firstChild := (s.node (s.filesystem fs).root).firstChild }).next (s.nodes.length - 1)
          ((s.modify mountPoint fun old => { old with
            fs, firstChild := (s.node (s.filesystem fs).root).firstChild }).next child)) := by
    have count : s.nodes.length = s.nodes.length - 1 + 1 := by
      have positive := List.length_pos_of_mem isRoot
      omega
    rw [children, modify_same, first]
    change siblings _ s.nodes.length child = _
    rw [count, siblings, if_neg some, Nat.add_sub_cancel]
  have moved : ((s.mountOver fs mountPoint).node child).parent = mountPoint := by
    rw [mountOver]
    dsimp only
    rw [if_pos (by rw [mounted]; exact List.mem_cons_self)]
  have rootFirst : ((s.mountOver fs mountPoint).node (s.filesystem fs).root).firstChild = child := by
    rw [mountOver]
    dsimp only
    split
    next => rw [modify_other apart, first]
    next => rw [modify_other apart, first]
  obtain ⟨listed, linked, _, under⟩ := order.acyclic (s.filesystem fs).root isRoot
  rw [rootFirst] at linked
  obtain ⟨rest, shape, _⟩ := linked.head_mem some
  have isParent := (under child (by rw [shape]; exact List.mem_cons_self)).2
  exact apart (isParent.symm.trans moved)

theorem mountParent_unmounted {path : List UInt8} (unmounted : s.root = 0) :
    s.mountParent path = none := by
  rw [mountParent]
  dsimp only
  split
  next => rfl
  next => rw [vfsResolvePath, if_pos (Or.inl unmounted)]

theorem mount_breaks (tree : s.Tree) (breaks : ¬s.MountFits call)
    (taken : s.step v call = some after) : ¬InOrder v after := by
  cases call with
  | mountAt fs path block =>
      obtain ⟨notRoot, broken⟩ := not_or.mp breaks
      rw [step] at taken
      split at taken
      next known =>
        have isRoot := tree.roots fs known
        cases found : s.mountParent path with
        | none => exact absurd ⟨fun _ place => (by rw [found] at place; cases place),
            fun _ place => (by rw [found] at place; cases place)⟩ broken
        | some place =>
            obtain ⟨parent, name⟩ := place
            have member := (mountParent_some tree found).1.known tree
            have started : ¬(fs = 0 ∨ (s.filesystem fs).root = 0 ∨ s.root = 0) := by
              rintro (null | null | null)
              · exact tree.fsNonNull (null ▸ known)
              · exact tree.nonNull (null ▸ isRoot.1)
              · exact absurd found (by simp [mountParent_unmounted null])
            rw [vfsMountAt, if_neg started, if_neg notRoot, found] at taken
            dsimp only at taken
            cases here : s.findEither parent name with
            | none =>
                rw [here] at taken
                dsimp only at taken
                have got : s.kmalloc block ≠ 0 ∧ ((s.node (s.filesystem fs).root).firstChild = 0 →
                    parent = (s.filesystem fs).root) := by
                  by_contra fine
                  refine broken ⟨fun _ place => ?_, fun _ place mountPoint there => ?_⟩
                  · rw [found, Option.mem_some_iff] at place
                    subst place
                    refine ⟨fun _ some => ?_, fun mountPoint there => ?_⟩
                    · by_contra bad
                      refine fine ⟨some, fun bare => ?_⟩
                      by_contra different
                      exact bad ⟨bare, different⟩
                    · rw [here] at there
                      cases there
                  · rw [found, Option.mem_some_iff] at place
                    subst place
                    rw [here] at there
                    cases there
                rw [if_neg got.1] at taken
                cases taken
                have fresh := kmalloc_fresh got.1
                have apart := fresh.apart member
                refine mountOver_breaks (List.mem_cons_of_mem _ isRoot.1) (fresh.apart isRoot.1) ?_
                by_cases isParent : (s.filesystem fs).root = parent
                · change ((s.link parent block (s.freshNode parent name true 0)).node
                    (s.filesystem fs).root).firstChild ≠ 0
                  rw [isParent, link_parent apart]
                  exact fresh.1
                · change ((s.link parent block (s.freshNode parent name true 0)).node
                    (s.filesystem fs).root).firstChild ≠ 0
                  rw [link_other isParent (fresh.apart isRoot.1)]
                  exact fun bare => isParent (got.2 bare).symm
            | some mountPoint =>
                rw [here] at taken
                dsimp only at taken
                have listed := (findEither_some here).2
                have point := tree.child parent member mountPoint listed
                have bad : (s.node mountPoint).isDirectory = true ∧
                  ((s.node (s.filesystem fs).root).firstChild = 0 →
                    (s.filesystem fs).ops = .tmpfs ∧ (s.node mountPoint).fsData ≠ 0) := by
                  by_contra fine
                  refine broken ⟨fun _ place => ?_, fun _ place other there isDirectory tmpfs => ?_⟩
                  · rw [found, Option.mem_some_iff] at place
                    subst place
                    refine ⟨fun none => (by rw [here] at none; cases none), fun other there isDirectory => ?_⟩
                    rw [here, Option.mem_some_iff] at there
                    subst there
                    by_contra some
                    exact fine ⟨isDirectory, fun bare => absurd bare some⟩
                  · rw [found, Option.mem_some_iff] at place
                    subst place
                    rw [here, Option.mem_some_iff] at there
                    subst there
                    by_contra some
                    exact fine ⟨isDirectory, fun _ => ⟨tmpfs, some⟩⟩
                rw [if_pos bad.1] at taken
                cases taken
                have different : (s.filesystem fs).root ≠ mountPoint := by
                  rintro rfl
                  exact tree.root_unlisted isRoot member listed
                by_cases bare : (s.node (s.filesystem fs).root).firstChild = 0
                · obtain ⟨tmpfs, some⟩ := bad.2 bare
                  intro order
                  have fits := order.fits mountPoint (by rw [mountOver_bare bare]; exact point.1)
                  rw [mountOver_bare bare] at fits
                  have ops : (s.modify mountPoint fun old => { old with fs, firstChild := 0 }).ops
                    mountPoint = .tmpfs := by
                    rw [Vfs.ops, modify_same]
                    exact tmpfs
                  rw [fits_tmpfs ops, modify_same] at fits
                  rcases fits with null | file
                  · exact some null
                  · exact absurd (bad.1.symm.trans file.1) (by decide)
                · exact mountOver_breaks isRoot.1 different bare
      next => cases taken
  | _ => exact absurd trivial breaks

/-- The tree is in order in every state of a run exactly when every mount of the run meets the
condition. -/
theorem tree_in_order_iff {disk : Disk} {calls : List VfsCall}
    (reached : runActions (step v) (init disk) calls = some after) :
    (∀ begun rest middle, calls = begun ++ rest → runActions (step v) (init disk) begun =
      some middle → InOrder v middle) ↔ RunMeets (step v) MountFits (init disk) calls := by
  refine @runActions_exact_kept Vfs VfsCall (step v) MountFits (fun s => s.Tree ∧ s.OwnData)
    (InOrder v) (fun s good => inOrder good.1 good.2) ?_ ?_ _ _ _ ⟨init_tree, init_ownData⟩ reached
  · rintro s call next ⟨tree, own⟩ fits taken
    have chain := step_chain tree own fits taken
    exact ⟨chain.tree tree, chain.ownData tree own trivial⟩
  · rintro s call next ⟨tree, _⟩ breaks taken
    exact mount_breaks tree breaks taken

end Runs

def tidyMounts : List VfsCall :=
  [.tmpfsCreate 1 2, .mount 1 [47], .createFile 2 [97] 3 4, .tmpfsCreate 5 6, .mountAt 5 tmpPath 7,
    .createDirectory 7 [98] 8, .delete 3]

theorem tidyMounts_in_order : ∃ after, runActions (step smallVolume)
    (init formattedDisk) tidyMounts = some after ∧
    after.nodes = [8, 7, 6, 2] ∧ ∀ begun rest middle, tidyMounts = begun ++ rest →
      runActions (step smallVolume) (init formattedDisk) begun = some middle →
      InOrder smallVolume middle := by
  have runs : (runActions (step smallVolume) (init formattedDisk) tidyMounts).map Vfs.nodes =
      some [8, 7, 6, 2] := by decide
  have meets : RunMeets (step smallVolume) MountFits (init formattedDisk) tidyMounts := by decide
  obtain ⟨after, reached, nodes⟩ := Option.map_eq_some_iff.mp runs
  exact ⟨after, reached, nodes, (tree_in_order_iff reached).mpr meets⟩

/-- The root is a volume; "/tmp" is made on it and then a tmpfs is mounted there. -/
def mountOverCluster : List VfsCall :=
  [.fat16Create 1 2 [], .mount 1 [47], .createDirectory 2 [116, 109, 112] 3, .tmpfsCreate 4 5,
    .mountAt 4 tmpPath 6]

/-- The directory keeps its cluster as `fs_data`, which tmpfs takes for an address. -/
theorem mountOverCluster_breaks : ¬ ∀ (v : Volume) (disk : Disk) (calls : List VfsCall) (after : Vfs),
    runActions (step v) (init disk) calls = some after → InOrder v after := by
  intro order
  have runs : (runActions (step smallVolume) (init formattedDisk) mountOverCluster).map (fun after =>
      decide (3 ∈ after.nodes ∧ after.ops 3 = .tmpfs ∧ (after.node 3).isDirectory = true ∧
        (after.node 3).fsData = 2)) = some true := by decide
  obtain ⟨after, reached, holds⟩ := Option.map_eq_some_iff.mp runs
  obtain ⟨known, tmpfs, directory, cluster⟩ := of_decide_eq_true holds
  have fits := (order smallVolume formattedDisk mountOverCluster after reached).fits 3 known
  rw [fits_tmpfs tmpfs, cluster, directory] at fits
  exact absurd fits (by rintro (null | ⟨file, _⟩) <;> contradiction)

end Vfs

end Szczupak
