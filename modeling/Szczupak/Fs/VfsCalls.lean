import Szczupak.Fs.VfsData

/-!
What each routine of the tree does, as a chain of changes: creation, deletion, writing, mounting
and the two loops over a path.
-/

namespace Szczupak

section Driver

variable {v : Volume} {d after : Disk} {name : List UInt8} {room : Bool} {node : Fat16Node}

theorem allocateFrom_small {remaining i : Nat} (start : 2 ≤ i) :
    (allocateFrom v remaining i d).1 < max 1 (i + remaining) := by
  induction remaining generalizing i d with
  | zero =>
      rw [allocateFrom]
      exact lt_max_of_lt_left Nat.one_pos
  | succ remaining ih =>
      rw [allocateFrom]
      dsimp only
      split
      next =>
        split
        next => exact lt_max_of_lt_left Nat.one_pos
        next =>
          split
          next => exact lt_max_of_lt_left Nat.one_pos
          next => exact lt_max_of_lt_right (Nat.lt_add_of_pos_right (Nat.succ_pos remaining))
      next =>
        have bound := @ih (fat16ReadFatEntry v d i).2 (i + 1) (Nat.le_succ_of_le start)
        rwa [Nat.add_right_comm, Nat.add_assoc] at bound

theorem fat16AllocateCluster_small : (fat16AllocateCluster v d).1 < 2 ^ 16 :=
  Nat.lt_of_lt_of_le (@allocateFrom_small v d (0xFFF0 - 2) 2 (Nat.le_refl 2)) (by decide)

theorem fat16CreateFile_made (made : fat16CreateFile v d name room = (some node, after)) :
    room = true ∧ node = ⟨createdFileName (fat16NameTo83 name), false, 0, 0⟩ := by
  rw [fat16CreateFile] at made
  split at made
  next => cases made
  next =>
    split at made
    next => cases made
    next =>
      split at made
      next hasRoom =>
        cases made
        exact ⟨hasRoom, rfl⟩
      next => cases made

theorem fat16CreateDir_made (made : fat16CreateDir v d name room = (some node, after)) :
    room = true ∧ node.cluster < 2 ^ 16 ∧
      node = ⟨createdDirName (fat16NameTo83 name), true, 0, node.cluster⟩ := by
  rw [fat16CreateDir] at made
  split at made
  next => cases made
  next found middle scanned =>
    split at made
    next => cases made
    next cluster allocated _ taken =>
      have small := @fat16AllocateCluster_small v middle
      rw [taken] at small
      split at made
      next => cases made
      next =>
        split at made
        next hasRoom =>
          cases made
          exact ⟨hasRoom, small, rfl⟩
        next => cases made

theorem firstCluster_small {cluster : Nat} (first : firstCluster v d node = (some cluster, after)) :
    cluster = node.cluster ∨ cluster < 2 ^ 16 := by
  rw [firstCluster] at first
  split at first
  next =>
    split at first
    next => cases first
    next taken allocated _ took =>
      cases first
      have small := @fat16AllocateCluster_small v d
      rw [took] at small
      exact Or.inr small
  next =>
    cases first
    exact Or.inl rfl

theorem fat16WriteNode_cluster {data : List UInt8} {offset : Nat} :
    (fat16WriteNode v d node data offset).2.1.cluster = node.cluster ∨
      (fat16WriteNode v d node data offset).2.1.cluster < 2 ^ 16 := by
  rw [fat16WriteNode]
  split
  next => exact Or.inl rfl
  next =>
    split
    next => exact Or.inl rfl
    next =>
      split
      next => exact Or.inl rfl
      next =>
        split
        next => exact Or.inl rfl
        next cluster afterFirst first =>
          have small := firstCluster_small first
          dsimp only
          split
          next => exact small
          next =>
            split
            next => exact small
            next => exact small

end Driver

namespace Vfs

def createdName (s : Vfs) (parent : Nat) (name : List UInt8) (isDirectory : Bool) : List UInt8 :=
  match s.ops parent with
  | .tmpfs => name.take (maxFilename - 1)
  | .fat16 =>
      if isDirectory then createdDirName (fat16NameTo83 name) else createdFileName (fat16NameTo83 name)

/-- What a create routine does: nothing to the tree, or one new first child. -/
inductive Creates (s : Vfs) (parent block : Nat) (name : List UInt8) (isDirectory : Bool) :
    Option Nat × Vfs → Prop
  | fails (disk : Disk) : Creates s parent block name isDirectory (none, { s with disk })
  | makes {before : Vfs} {node : VfsNode} (same : SameTree s before)
      (steps : ∀ related typed, Chain related typed s before) (fresh : before.Fresh block)
      (directory : (s.node parent).isDirectory = true) (under : node.parent = parent)
      (sameFs : node.fs = (s.node parent).fs) (empty : node.firstChild = 0)
      (owns : s.OwnData → before.FreshData node)
      (named : node.name = s.createdName parent name isDirectory) (kind : node.isDirectory = isDirectory) :
      Creates s parent block name isDirectory (some block, before.link parent block node)

section Creation

variable {v : Volume} {s after : Vfs} {parent block data answer : Nat} {name : List UInt8}
    {isDirectory : Bool}
  {related : List UInt8 → List UInt8 → Prop} {typed : Prop} {result : Option Nat × Vfs}

theorem kmalloc_fresh (got : s.kmalloc answer ≠ 0) : s.Fresh answer := by
  rw [kmalloc] at got
  split at got
  next => exact absurd rfl got
  next free => exact ⟨got, free⟩

theorem Creates.chain (creates : Creates s parent block name isDirectory result)
    (member : parent ∈ s.nodes) (sound : typed → s.OwnData)
    (permits : (s.node parent).isDirectory = true →
      ∀ other ∈ s.childNames parent, related (s.createdName parent name isDirectory) other) :
    Chain related typed s result.2 := by
  cases creates with
  | fails disk => exact Relation.ReflTransGen.single (.disk disk)
  | makes same steps fresh directory under sameFs empty owns named kind =>
      refine (steps related typed).tail
        (.link fresh ?_ ?_ under ?_ empty (fun isTyped => owns (sound isTyped)) ?_)
      · rw [same.nodes]
        exact member
      · rw [same.node]
        exact directory
      · rw [same.node]
        exact sameFs
      · rw [same.childNames, named]
        exact permits directory

theorem Creates.filesystems (creates : Creates s parent block name isDirectory result) :
    result.2.filesystems = s.filesystems ∧ result.2.filesystem = s.filesystem := by
  cases creates with
  | fails disk => exact ⟨rfl, rfl⟩
  | makes same => exact ⟨same.filesystems, same.filesystem⟩

theorem tmpfsCreateFile_creates (tmpfs : s.ops parent = .tmpfs) :
    Creates s parent block name false (s.tmpfsCreateFile parent name block data) := by
  rw [tmpfsCreateFile]
  split
  next => exact .fails s.disk
  next isParent =>
    split
    next => exact .fails s.disk
    next =>
      split
      next => exact .fails s.disk
      next gotBlock =>
        split
        next => exact .fails s.disk
        next gotData =>
          have fresh := kmalloc_fresh gotBlock
          have freshData := kmalloc_fresh (not_or.mp gotData).1
          have notData : data ∉ s.datas := fun inUse => freshData.2 (Or.inr (Or.inr (Or.inl inUse)))
          refine .makes ⟨rfl, rfl, rfl, rfl, rfl⟩ (fun _ _ => Relation.ReflTransGen.single (.data freshData)) ?_
            (Bool.not_eq_false _ ▸ (not_or.mp isParent).2) rfl rfl rfl ?_ ?_ rfl
          · refine ⟨fresh.1, ?_⟩
            rintro (inUse | inUse | inUse | inUse)
            · exact fresh.2 (Or.inl inUse)
            · exact fresh.2 (Or.inr (Or.inl inUse))
            · rcases List.mem_cons.mp inUse with same | old
              · exact (not_or.mp gotData).2 same.symm
              · exact fresh.2 (Or.inr (Or.inr (Or.inl old)))
            · exact fresh.2 (Or.inr (Or.inr (Or.inr inUse)))
          · intro own
            rw [FreshData]
            split
            next fat16 => exact absurd (tmpfs.symm.trans fat16) (fun different => VfsOps.noConfusion different)
            next =>
              refine Or.inr ⟨rfl, List.mem_cons_self, fun other known isTmpfs equal => ?_⟩
              have isData : (s.node other).fsData = data := equal
              rcases (@fits_tmpfs s other isTmpfs).mp (own.fits other known) with null | file
              · exact freshData.1 (isData.symm.trans null)
              · exact notData (isData ▸ file.2)
          · rw [createdName, tmpfs]
            rfl

theorem tmpfsCreateDir_creates (tmpfs : s.ops parent = .tmpfs) :
    Creates s parent block name true (s.tmpfsCreateDir parent name block) := by
  rw [tmpfsCreateDir]
  split
  next => exact .fails s.disk
  next isParent =>
    split
    next => exact .fails s.disk
    next =>
      split
      next => exact .fails s.disk
      next gotBlock =>
        refine .makes ⟨rfl, rfl, rfl, rfl, rfl⟩ (fun _ _ => Relation.ReflTransGen.refl) (kmalloc_fresh gotBlock)
          (Bool.not_eq_false _ ▸ (not_or.mp isParent).2) rfl rfl rfl (fun _ => ?_) ?_ rfl
        · rw [FreshData]
          split
          next => exact Nat.two_pow_pos 16
          next => exact Or.inl rfl
        · rw [createdName, tmpfs]
          rfl

theorem fat16Link_creates (fat16 : s.ops parent = .fat16) (isRoot : s.fat16Root parent = true)
    {made : Option Fat16Node × Disk} (makes : ∀ node disk, made = (some node, disk) →
      (s.kmalloc block != 0) = true ∧ node.cluster < 2 ^ 16 ∧ node.isDirectory = isDirectory ∧
        node.name = s.createdName parent name isDirectory) :
    Creates s parent block name isDirectory (s.fat16Link parent block made) := by
  rcases made with ⟨_ | node, disk⟩
  · exact .fails disk
  · obtain ⟨room, small, kind, named⟩ := makes node disk rfl
    rw [fat16Root, Bool.and_eq_true, Bool.and_eq_true] at isRoot
    have fresh := kmalloc_fresh (bne_iff_ne.mp room)
    refine .makes ⟨rfl, rfl, rfl, rfl, rfl⟩ (fun _ _ => Relation.ReflTransGen.single (.disk disk))
      fresh isRoot.1.2 rfl rfl rfl (fun _ => ?_) named kind
    rw [FreshData]
    split
    next => exact small
    next tmpfs => exact absurd (fat16.symm.trans tmpfs) (fun different => VfsOps.noConfusion different)

theorem fat16CreateFileNode_creates (fat16 : s.ops parent = .fat16) :
    Creates s parent block name false (s.fat16CreateFileNode v parent name block) := by
  rw [fat16CreateFileNode]
  split
  next isRoot =>
    refine fat16Link_creates fat16 isRoot fun node disk made => ?_
    obtain ⟨room, shape⟩ := fat16CreateFile_made made
    rw [createdName, fat16, shape]
    exact ⟨room, Nat.two_pow_pos 16, rfl, rfl⟩
  next => exact .fails s.disk

theorem fat16CreateDirNode_creates (fat16 : s.ops parent = .fat16) :
    Creates s parent block name true (s.fat16CreateDirNode v parent name block) := by
  rw [fat16CreateDirNode]
  split
  next isRoot =>
    refine fat16Link_creates fat16 isRoot fun node disk made => ?_
    obtain ⟨room, small, shape⟩ := fat16CreateDir_made made
    rw [createdName, fat16, shape]
    exact ⟨room, small, rfl, rfl⟩
  next => exact .fails s.disk

theorem vfsCreateFile_creates : Creates s parent block name false
    (s.vfsCreateFile v parent name block data) := by
  rw [vfsCreateFile]
  split
  next => exact .fails s.disk
  next =>
    split
    next fat16 => exact fat16CreateFileNode_creates fat16
    next tmpfs => exact tmpfsCreateFile_creates tmpfs

theorem vfsCreateDirectory_creates :
    Creates s parent block name true (s.vfsCreateDirectory v parent name block) := by
  rw [vfsCreateDirectory]
  split
  next => exact .fails s.disk
  next =>
    split
    next fat16 => exact fat16CreateDirNode_creates fat16
    next tmpfs => exact tmpfsCreateDir_creates tmpfs

end Creation

section Deletion

variable {v : Volume} {s after : Vfs} {node : Nat} {result : Bool × Vfs}

/-- What a delete routine does: nothing to the tree, or the node is taken out of its list and
freed, with nothing but data of its own. -/
inductive Deletes (s : Vfs) (node : Nat) : Bool × Vfs → Prop
  | refuses (disk : Disk) : Deletes s node (false, { s with disk })
  | drops {u after : Vfs} (empty : (s.node node).isDirectory = true → (s.node node).firstChild = 0)
      (unlinks : Unlinked s u node) (same : SameTree { u with nodes := s.nodes.erase node } after)
      (steps : ∀ related typed, Chain related typed s after)
      (freed : after.datas = s.datas ∧ after.buffers = s.buffers ∨
        s.ops node = .tmpfs ∧ (s.node node).fsData ∈ s.datas ∧
          after.datas = s.datas.erase (s.node node).fsData ∧
          after.buffers = s.buffers.erase (s.tmpfsData (s.node node).fsData).data) :
      Deletes s node (true, after)

theorem Unlinked.disk {disk : Disk} {u : Vfs} (unlinks : Unlinked s u node) :
    Unlinked { s with disk } { u with disk } node := by
  refine ⟨?_, unlinks.body, unlinks.first, unlinks.linked⟩
  rw [unlinks.others]

theorem fat16DeleteNode_deletes (tree : s.Tree) (listed : s.Listed node) :
    Deletes s node (s.fat16DeleteNode v node) := by
  rw [fat16DeleteNode]
  split
  next => exact .refuses s.disk
  next =>
    split
    next => exact .refuses s.disk
    next =>
      split
      next => exact .refuses s.disk
      next empty =>
        rcases fat16Delete v s.disk (s.node node).name with ⟨_ | _, disk⟩
        · exact .refuses disk
        · have diskTree : ({ s with disk } : Vfs).Tree := SameTree.tree (s := s) ⟨rfl, rfl, rfl, rfl, rfl⟩ tree
          obtain ⟨u, taken, unlinks⟩ := diskTree.unlink listed
          dsimp only
          rw [taken]
          refine @Deletes.drops s node { u with disk := s.disk } _ ?_ ?_ ⟨rfl, rfl, rfl, rfl, rfl⟩
            (fun _ _ => ?_) (Or.inl ?_)
          · intro directory
            by_contra some
            exact empty ⟨directory, some⟩
          · exact unlinks.disk
          · exact Relation.ReflTransGen.head (.disk disk) (.single (.drop (s := { s with disk }) listed taken))
          · rw [unlinks.others]
            exact ⟨rfl, rfl⟩

theorem tmpfsDelete_deletes (tree : s.Tree) (listed : s.Listed node) (tmpfs : s.ops node = .tmpfs)
    (deleted : s.tmpfsDelete node = some result) : Deletes s node result := by
  obtain ⟨u, taken, unlinks⟩ := tree.unlink listed
  rw [tmpfsDelete, taken] at deleted
  split at deleted
  next =>
    cases deleted
    exact .refuses s.disk
  next =>
    split at deleted
    next =>
      cases deleted
      exact .refuses s.disk
    next some =>
      split at deleted
      next =>
        cases deleted
        exact .refuses s.disk
      next =>
        have empty : (s.node node).isDirectory = true → (s.node node).firstChild = 0 := by
          intro directory
          by_contra children
          exact some ⟨directory, children⟩
        dsimp only [Option.getD_some] at deleted
        split at deleted
        next =>
          cases deleted
          refine .drops empty unlinks ⟨rfl, rfl, rfl, rfl, rfl⟩
            (fun _ _ => Relation.ReflTransGen.single (.drop listed taken)) (Or.inl ?_)
          rw [unlinks.others]
          exact ⟨rfl, rfl⟩
        next =>
          split at deleted
          next member =>
            cases deleted
            exact .drops empty unlinks ⟨rfl, rfl, rfl, rfl, rfl⟩
              (fun _ _ => Relation.ReflTransGen.single (.dropData listed tmpfs member taken))
              (Or.inr ⟨tmpfs, member, rfl, rfl⟩)
          next => cases deleted

theorem fat16DeleteNode_root (top : (s.node node).parent = 0) :
    s.fat16DeleteNode v node = (false, s) := by
  rw [fat16DeleteNode, top]
  exact if_pos (Or.inr rfl)

theorem vfsDelete_root (top : (s.node node).parent = 0) : s.vfsDelete v node = some (false, s) := by
  rw [vfsDelete]
  split
  next => rfl
  next =>
    split
    next => exact congrArg some (fat16DeleteNode_root top)
    next =>
      rw [tmpfsDelete]
      split
      next => rfl
      next =>
        split
        next => rfl
        next => rfl

theorem vfsDelete_deletes (tree : s.Tree) (listed : s.Listed node)
    (deleted : s.vfsDelete v node = some result) : Deletes s node result := by
  rw [vfsDelete] at deleted
  split at deleted
  next =>
    cases deleted
    exact .refuses s.disk
  next =>
    split at deleted
    next =>
      cases deleted
      exact fat16DeleteNode_deletes tree listed
    next tmpfs => exact tmpfsDelete_deletes tree listed tmpfs deleted

theorem Deletes.chain {related : List UInt8 → List UInt8 → Prop} {typed : Prop}
    (deletes : Deletes s node result) : Chain related typed s result.2 := by
  cases deletes with
  | refuses disk => exact Relation.ReflTransGen.single (.disk disk)
  | drops empty unlinks same steps => exact steps related typed

theorem Deletes.filesystems (deletes : Deletes s node result) :
    result.2.filesystems = s.filesystems ∧ result.2.filesystem = s.filesystem := by
  cases deletes with
  | refuses disk => exact ⟨rfl, rfl⟩
  | drops empty unlinks same =>
      rw [same.filesystems, same.filesystem, unlinks.others]
      exact ⟨rfl, rfl⟩

end Deletion

section Writing

variable {v : Volume} {s after : Vfs} {node offset block : Nat} {bytes : List UInt8} {ok : Bool}

structure Resized (s after : Vfs) : Prop where
  body : ∀ address, after.node address = { s.node address with
    size := (after.node address).size, fsData := (after.node address).fsData }
  nodes : after.nodes = s.nodes
  filesystem : after.filesystem = s.filesystem
  filesystems : after.filesystems = s.filesystems
  root : after.root = s.root

theorem Resized.refl : Resized s s := ⟨fun _ => rfl, rfl, rfl, rfl, rfl⟩

theorem Resized.children (resized : Resized s after) : after.children = s.children := by
  funext dir
  have next : after.next = s.next := by
    funext address
    rw [Vfs.next, resized.body]
    rfl
  rw [Vfs.children, Vfs.children, next, resized.nodes, resized.body dir]

theorem resized_modify {size fsData : Nat} :
    Resized s (s.modify node fun old => { old with size, fsData }) :=
  ⟨fun _ => modify_frame, rfl, rfl, rfl, rfl⟩

theorem fat16WriteAt_writes (fat16 : s.ops node = .fat16) :
    Resized s (s.fat16WriteAt v node offset bytes).2 ∧
      ∀ related typed, Chain related typed s (s.fat16WriteAt v node offset bytes).2 := by
  rw [fat16WriteAt]
  split
  next => exact ⟨Resized.refl, fun _ _ => Relation.ReflTransGen.refl⟩
  next =>
    have fits := @fat16WriteNode_cluster v s.disk (s.fat16Node node) bytes offset
    rcases result : fat16WriteNode v s.disk (s.fat16Node node) bytes offset with ⟨written, grown, disk⟩
    rw [result] at fits
    dsimp only
    rw [@modify_congr { s with disk } node _ (fun old => { old with
      size := grown.size
      fsData := if grown.cluster = (s.fat16Node node).cluster then (s.node node).fsData
        else grown.cluster }) rfl]
    have resized := @resized_modify { s with disk } node grown.size
      (if grown.cluster = (s.fat16Node node).cluster then (s.node node).fsData else grown.cluster)
    refine ⟨⟨resized.body, rfl, rfl, rfl, rfl⟩, fun related typed => ?_⟩
    refine Relation.ReflTransGen.head (.disk disk) (.single (.resize (s := { s with disk }) fun _ => ?_))
    split
    next => exact Or.inl rfl
    next different => exact Or.inr ⟨fat16, fits.resolve_left different⟩

theorem vfsWrite_writes (wrote : s.vfsWrite v node offset bytes block = some (ok, after)) :
    Resized s after ∧ ∀ related typed, Chain related typed s after := by
  have stays : Resized s s ∧ ∀ related typed, Chain related typed s s :=
    ⟨Resized.refl, fun _ _ => Relation.ReflTransGen.refl⟩
  rw [vfsWrite] at wrote
  split at wrote
  next =>
    cases wrote
    exact stays
  next =>
    split at wrote
    next fat16 =>
      have writes := @fat16WriteAt_writes v s node offset bytes fat16
      rw [Option.some.inj wrote] at writes
      exact writes
    next tmpfs =>
      rw [tmpfsWriteNode] at wrote
      split at wrote
      next =>
        cases wrote
        exact stays
      next =>
        dsimp only at wrote
        split at wrote
        next member =>
          have sized : ∀ before : Vfs,
            Resized before (if (offset + bytes.length) % 2 ^ 64 > (before.node node).size
              then before.modify node fun old => { old with size := (offset + bytes.length) % 2 ^ 64 }
              else before) ∧ ∀ related typed, Chain related typed before
                (if (offset + bytes.length) % 2 ^ 64 > (before.node node).size
                  then before.modify node fun old => { old with size := (offset + bytes.length) % 2 ^ 64 }
                  else before) := by
            intro before
            split
            next =>
              exact ⟨@resized_modify before node _ (before.node node).fsData,
                fun related typed => .single (.resize fun _ => Or.inl rfl)⟩
            next => exact ⟨Resized.refl, fun _ _ => Relation.ReflTransGen.refl⟩
          split at wrote
          next =>
            split at wrote
            next =>
              cases wrote
              exact stays
            next got =>
              cases wrote
              have fresh := kmalloc_fresh got
              obtain ⟨resized, steps⟩ := sized { s with
                tmpfsData := Function.update s.tmpfsData (s.node node).fsData
                  { data := block, allocatedSize := (offset + bytes.length) % 2 ^ 64 * 2 % 2 ^ 64 }
                buffers := block :: s.buffers.erase (s.tmpfsData (s.node node).fsData).data }
              refine ⟨⟨resized.body, resized.nodes, resized.filesystem, resized.filesystems,
                resized.root⟩, fun related typed => ?_⟩
              exact Relation.ReflTransGen.head (.grow member fresh) (steps related typed)
          next =>
            cases wrote
            exact sized s
        next => cases wrote

end Writing

end Vfs

end Szczupak
