import Mathlib.Data.List.Perm.Subperm
import Mathlib.Logic.Relation
import Szczupak.Fs.FileCallsCore
import Szczupak.Lib.LinkedList

/-!
The shape of the tree of nodes.  `Tree` says that every sibling list ends, that the nodes on it
are in use and have the directory as parent.  `Alters` lists the changes that the routines of
`fs/vfs.c` and of the back ends make to a tree, and each routine is a chain of them.
-/

namespace Szczupak

namespace Vfs

def IsRoot (s : Vfs) (address : Nat) : Prop :=
  address ∈ s.nodes ∧ (s.node address).isDirectory = true ∧ (s.node address).parent = 0

structure Tree (s : Vfs) : Prop where
  nonNull : 0 ∉ s.nodes
  nodup : s.nodes.Nodup
  linked : ∀ dir ∈ s.nodes, Linked s.next 0 (s.node dir).firstChild (s.children dir)
  distinct : ∀ dir ∈ s.nodes, (s.children dir).Nodup
  child : ∀ dir ∈ s.nodes, ∀ child ∈ s.children dir, child ∈ s.nodes ∧ (s.node child).parent = dir
  leaf : ∀ node ∈ s.nodes, (s.node node).isDirectory = false → (s.node node).firstChild = 0
  fsNonNull : 0 ∉ s.filesystems
  owned : ∀ node ∈ s.nodes, (s.node node).fs ∈ s.filesystems
  roots : ∀ fs ∈ s.filesystems, s.IsRoot (s.filesystem fs).root
  root : s.root = 0 ∨ s.IsRoot s.root

section Siblings

variable {s : Vfs} {dir head fuel : Nat} {kids : List Nat} {next : Nat → Nat}

theorem siblings_eq (linked : Linked next 0 head kids) (enough : kids.length ≤ fuel) :
    siblings next fuel head = kids := by
  induction fuel generalizing head kids with
  | zero => exact (List.length_eq_zero_iff.mp (Nat.le_zero.mp enough)).symm
  | succ fuel ih =>
      rw [siblings]
      cases kids with
      | nil => exact if_pos linked
      | cons first rest =>
          obtain ⟨rfl, nonNull, tail⟩ := linked
          rw [if_neg nonNull, ih tail (Nat.le_of_succ_le_succ enough)]

theorem children_eq (linked : Linked s.next 0 (s.node dir).firstChild kids) (distinct : kids.Nodup)
    (known : ∀ child ∈ kids, child ∈ s.nodes) : s.children dir = kids :=
  siblings_eq linked (List.subperm_of_subset distinct known).length_le

theorem Tree.of_lists (lists : Nat → List Nat) (nonNull : 0 ∉ s.nodes) (nodup : s.nodes.Nodup)
    (linked : ∀ dir ∈ s.nodes, Linked s.next 0 (s.node dir).firstChild (lists dir))
    (distinct : ∀ dir ∈ s.nodes, (lists dir).Nodup)
    (child : ∀ dir ∈ s.nodes, ∀ child ∈ lists dir, child ∈ s.nodes ∧ (s.node child).parent = dir)
    (leaf : ∀ node ∈ s.nodes, (s.node node).isDirectory = false → (s.node node).firstChild = 0)
    (fsNonNull : 0 ∉ s.filesystems) (owned : ∀ node ∈ s.nodes, (s.node node).fs ∈ s.filesystems)
    (roots : ∀ fs ∈ s.filesystems, s.IsRoot (s.filesystem fs).root)
    (root : s.root = 0 ∨ s.IsRoot s.root) :
    s.Tree ∧ ∀ dir ∈ s.nodes, s.children dir = lists dir := by
  have same : ∀ dir ∈ s.nodes, s.children dir = lists dir := fun dir member =>
    children_eq (linked dir member) (distinct dir member) fun kid listed =>
      (child dir member kid listed).1
  refine ⟨⟨nonNull, nodup, ?_, ?_, ?_, leaf, fsNonNull, owned, roots, root⟩, same⟩
  · intro dir member
    rw [same dir member]
    exact linked dir member
  · intro dir member
    rw [same dir member]
    exact distinct dir member
  · intro dir member
    rw [same dir member]
    exact child dir member

theorem Tree.parent_nonNull (tree : s.Tree) {child : Nat} (member : dir ∈ s.nodes)
    (listed : child ∈ s.children dir) : (s.node child).parent ≠ 0 := by
  rw [(tree.child dir member child listed).2]
  rintro rfl
  exact tree.nonNull member

theorem Tree.root_unlisted (tree : s.Tree) {root : Nat} (isRoot : s.IsRoot root)
    (member : dir ∈ s.nodes) : root ∉ s.children dir :=
  fun listed => tree.parent_nonNull member listed isRoot.2.2

theorem Tree.isDirectory (tree : s.Tree) {child : Nat} (member : dir ∈ s.nodes)
    (listed : child ∈ s.children dir) : (s.node dir).isDirectory = true := by
  by_contra file
  have none := tree.leaf dir member (Bool.not_eq_true _ ▸ file)
  have linked := tree.linked dir member
  rw [none] at linked
  cases lists : s.children dir with
  | nil => rw [lists] at listed; cases listed
  | cons first rest =>
      rw [lists] at linked
      exact linked.2.1 linked.1.symm

end Siblings

def Listed (s : Vfs) (node : Nat) : Prop :=
  (s.node node).parent ∈ s.nodes ∧ node ∈ s.children (s.node node).parent

instance (s : Vfs) (node : Nat) : Decidable (s.Listed node) := inferInstanceAs (Decidable (_ ∧ _))

def Fresh (s : Vfs) (address : Nat) : Prop := address ≠ 0 ∧ ¬s.InUse address

/-- What may stand in `fs_data` of a new node: a cluster number, or nothing, or a
`tmpfs_data_t` that no node has. -/
def FreshData (s : Vfs) (node : VfsNode) : Prop :=
  match (s.filesystem node.fs).ops with
  | .fat16 => node.fsData < 2 ^ 16
  | .tmpfs => node.fsData = 0 ∨ node.isDirectory = false ∧ node.fsData ∈ s.datas ∧
      ∀ other ∈ s.nodes, s.ops other = .tmpfs → (s.node other).fsData ≠ node.fsData

def linkBehind (s : Vfs) (last block : Nat) (node : VfsNode) : Vfs :=
  ({ s with node := Function.update s.node block node, nodes := block :: s.nodes }).modify last
    fun old => { old with nextSibling := block }

def childNames (s : Vfs) (dir : Nat) : List (List UInt8) := (s.children dir).map fun child =>
    (s.node child).name

/-- The changes that the routines make.  The name of a new child is `related` to the names that
are there, and where `typed` holds every `fs_data` fits the operations of its
node. -/
inductive Alters (related : List UInt8 → List UInt8 → Prop) (typed : Prop) (s : Vfs) : Vfs → Prop
  | disk (disk : Disk) : Alters related typed s { s with disk }
  | data {address : Nat} (fresh : s.Fresh address) : Alters related typed s { s with
      tmpfsData := Function.update s.tmpfsData address { data := 0, allocatedSize := 0 }
      datas := address :: s.datas }
  | grow {address block size : Nat} (member : address ∈ s.datas) (fresh : s.Fresh block) :
      Alters related typed s { s with
        tmpfsData := Function.update s.tmpfsData address { data := block, allocatedSize := size }
        buffers := block :: s.buffers.erase (s.tmpfsData address).data }
  | resize {node size fsData : Nat}
      (owns : typed → fsData = (s.node node).fsData ∨ s.ops node = .fat16 ∧ fsData < 2 ^ 16) :
      Alters related typed s (s.modify node fun old => { old with size, fsData })
  | link {parent block : Nat} {node : VfsNode} (fresh : s.Fresh block) (member : parent ∈ s.nodes)
      (directory : (s.node parent).isDirectory = true) (under : node.parent = parent)
      (sameFs : node.fs = (s.node parent).fs) (empty : node.firstChild = 0)
      (owns : typed → s.FreshData node) (name : ∀ other ∈ s.childNames parent,
      related node.name other) : Alters related typed s (s.link parent block node)
  | append {parent last block : Nat} {node : VfsNode} (fresh : s.Fresh block) (member : parent ∈ s.nodes)
      (under : node.parent = parent) (sameFs : node.fs = (s.node parent).fs)
      (empty : node.firstChild = 0) (ends : node.nextSibling = 0)
      (isLast : (s.children parent).getLast? = some last)
      (owns : typed → s.FreshData node) (name : ∀ other ∈ s.childNames parent,
      related node.name other) : Alters related typed s (s.linkBehind last block node)
  | drop {node : Nat} {unlinked : Vfs} (listed : s.Listed node) (taken : s.unlink node = some unlinked) :
      Alters related typed s { unlinked with nodes := s.nodes.erase node }
  | dropData {node : Nat} {unlinked : Vfs} (listed : s.Listed node) (tmpfs : s.ops node = .tmpfs)
      (member : (s.node node).fsData ∈ s.datas) (taken : s.unlink node = some unlinked) :
      Alters related typed s { unlinked with
        nodes := s.nodes.erase node
        datas := s.datas.erase (s.node node).fsData
        buffers := s.buffers.erase (s.tmpfsData (s.node node).fsData).data }
  | filesystem {fs root : Nat} {ops : VfsOps} (fresh : s.Fresh fs) (freshRoot : s.Fresh root) :
      Alters related typed s (s.addFilesystem fs root ops)
  | mount {root : Nat} (isRoot : s.IsRoot root) : Alters related typed s { s with root }
  | mountOver {fs mountPoint : Nat} (known : fs ∈ s.filesystems)
      (directory : (s.node mountPoint).isDirectory = true)
      (bare : (s.node (s.filesystem fs).root).firstChild = 0)
      (owns : typed → (s.filesystem fs).ops = .tmpfs → (s.node mountPoint).fsData = 0) :
      Alters related typed s (s.mountOver fs mountPoint)

section Link

variable {s : Vfs} {parent block other address : Nat} {node : VfsNode} {change : VfsNode → VfsNode}

theorem modify_same : (s.modify address change).node address = change (s.node address) :=
  Function.update_self _ _ _

theorem modify_other (different : other ≠ address) :
    (s.modify address change).node other = s.node other :=
  Function.update_of_ne different _ _

theorem Fresh.nodes (fresh : s.Fresh block) : block ∉ s.nodes := fun member => fresh.2 (Or.inl member)

theorem Fresh.apart (fresh : s.Fresh block) (member : parent ∈ s.nodes) : parent ≠ block := by
  rintro rfl
  exact fresh.nodes member

theorem link_parent (apart : parent ≠ block) :
    (s.link parent block node).node parent = { s.node parent with firstChild := block } := by
  rw [link, modify_same]
  change { Function.update s.node block _ parent with firstChild := block } = _
  rw [Function.update_of_ne apart]

theorem link_block (apart : parent ≠ block) : (s.link parent block node).node block =
    { node with nextSibling := (s.node parent).firstChild } := by
  rw [link, modify_other apart.symm]
  exact Function.update_self _ _ _

theorem link_other (notParent : other ≠ parent) (notBlock : other ≠ block) :
    (s.link parent block node).node other = s.node other := by
  rw [link, modify_other notParent]
  exact Function.update_of_ne notBlock _ _

theorem link_next (apart : parent ≠ block) :
    (s.link parent block node).next = Function.update s.next block (s.node parent).firstChild := by
  funext address
  by_cases isParent : address = parent
  · rw [next, isParent, link_parent apart, Function.update_of_ne apart]
    rfl
  · by_cases isBlock : address = block
    · rw [next, isBlock, link_block apart, Function.update_self]
    · rw [next, link_other isParent isBlock, Function.update_of_ne isBlock]
      rfl

theorem modify_congr {other : VfsNode → VfsNode}
    (same : change (s.node address) = other (s.node address)) :
    s.modify address change = s.modify address other := by
  rw [modify, modify, same]

theorem modify_frame {size fsData : Nat} :
    (s.modify address fun old => { old with size, fsData }).node other = { s.node other with
      size := ((s.modify address fun old => { old with size, fsData }).node other).size
      fsData := ((s.modify address fun old => { old with size, fsData }).node other).fsData } := by
  by_cases same : other = address
  · rw [same, modify_same]
  · rw [modify_other same]

theorem link_same (apart : parent ≠ block) (notBlock : other ≠ block) :
    (s.link parent block node).node other =
      { s.node other with firstChild := ((s.link parent block node).node other).firstChild } := by
  by_cases isParent : other = parent
  · rw [isParent, link_parent apart]
  · rw [link_other isParent notBlock]

/-- The node at `block` is new, below `parent`; `kids` are now the children of `parent`. -/
structure Adds (s u : Vfs) (parent block : Nat) (kids : List Nat) : Prop where
  others : u = { s with node := u.node, nodes := block :: s.nodes }
  body : ∀ other, other ≠ block → u.node other = { s.node other with
    firstChild := (u.node other).firstChild, nextSibling := (u.node other).nextSibling }
  first : ∀ other, other ≠ parent → other ≠ block → (u.node other).firstChild =
    (s.node other).firstChild
  under : (u.node block).parent = parent
  sameFs : (u.node block).fs = (s.node parent).fs
  empty : (u.node block).firstChild = 0
  perm : kids.Perm (block :: s.children parent)
  linked : Linked u.next 0 (u.node parent).firstChild kids
  rest : ∀ dir ∈ s.nodes, dir ≠ parent → Linked u.next 0 (u.node dir).firstChild (s.children dir)

theorem Tree.unlisted (tree : s.Tree) (fresh : s.Fresh block) {dir : Nat} (known : dir ∈ s.nodes) :
    block ∉ s.children dir :=
  fun listed => fresh.nodes (tree.child dir known block listed).1

theorem Tree.adds {u : Vfs} {kids : List Nat} (tree : s.Tree) (fresh : s.Fresh block)
    (member : parent ∈ s.nodes) (directory : (s.node parent).isDirectory = true)
    (adds : Adds s u parent block kids) : u.Tree ∧ ∀ dir ∈ block :: s.nodes,
      u.children dir = if dir = block then [] else if dir = parent then kids else s.children dir := by
  obtain ⟨others, body, first, under, sameFs, empty, perm, linked, rest⟩ := adds
  have nodes : u.nodes = block :: s.nodes := by rw [others]
  have filesystems : u.filesystems = s.filesystems := by rw [others]
  have filesystem : u.filesystem = s.filesystem := by rw [others]
  have root : u.root = s.root := by rw [others]
  have old : ∀ {dir}, dir ∈ u.nodes → dir ≠ block → dir ∈ s.nodes := by
    intro dir known notBlock
    rw [nodes] at known
    exact (List.mem_cons.mp known).resolve_left notBlock
  have isRoot : ∀ root, s.IsRoot root → u.IsRoot root := by
    rintro root ⟨known, isDirectory, top⟩
    have same := body root (fresh.apart known)
    refine ⟨nodes ▸ List.mem_cons_of_mem _ known, ?_, ?_⟩
    · exact (congrArg VfsNode.isDirectory same).trans isDirectory
    · exact (congrArg VfsNode.parent same).trans top
  rw [← nodes]
  refine Tree.of_lists
    (fun dir => if dir = block then [] else if dir = parent then kids else s.children dir)
    ?_ ?_ ?_ ?_ ?_ ?_ (filesystems ▸ tree.fsNonNull) ?_ ?_ ?_
  · rw [nodes]
    rintro (_ | ⟨_, known⟩)
    · exact fresh.1 rfl
    · exact tree.nonNull known
  · exact nodes ▸ List.nodup_cons.mpr ⟨fresh.nodes, tree.nodup⟩
  · intro dir known
    by_cases isBlock : dir = block
    · rw [if_pos isBlock, isBlock]
      exact empty
    · rw [if_neg isBlock]
      by_cases isParent : dir = parent
      · rw [if_pos isParent, isParent]
        exact linked
      · rw [if_neg isParent]
        exact rest dir (old known isBlock) isParent
  · intro dir known
    split
    next => exact List.nodup_nil
    next isBlock =>
      split
      next =>
        exact perm.nodup_iff.mpr
          (List.nodup_cons.mpr ⟨tree.unlisted fresh member, tree.distinct parent member⟩)
      next => exact tree.distinct dir (old known isBlock)
  · intro dir known child listed
    have before : ∀ dir ∈ s.nodes, child ∈ s.children dir → child ∈ u.nodes ∧
      (u.node child).parent = dir := by
      intro dir member listed
      obtain ⟨childKnown, isParent⟩ := tree.child dir member child listed
      refine ⟨nodes ▸ List.mem_cons_of_mem _ childKnown, ?_⟩
      exact (congrArg VfsNode.parent (body child (fresh.apart childKnown))).trans isParent
    split at listed
    next => cases listed
    next isBlock =>
      split at listed
      next isParent =>
        rcases List.mem_cons.mp (perm.mem_iff.mp listed) with rfl | behind
        · exact ⟨nodes ▸ List.mem_cons_self, isParent ▸ under⟩
        · exact isParent ▸ before parent member behind
      next => exact before dir (old known isBlock) listed
  · intro other known file
    by_cases isBlock : other = block
    · exact isBlock ▸ empty
    · have wasFile := (congrArg VfsNode.isDirectory (body other isBlock)).symm.trans file
      have notParent : other ≠ parent := by
        rintro rfl
        cases directory.symm.trans wasFile
      rw [first other notParent isBlock]
      exact tree.leaf other (old known isBlock) wasFile
  · intro other known
    rw [filesystems]
    by_cases isBlock : other = block
    · rw [isBlock, sameFs]
      exact tree.owned parent member
    · have kept := congrArg VfsNode.fs (body other isBlock)
      exact kept ▸ tree.owned other (old known isBlock)
  · intro fs known
    rw [filesystem]
    exact isRoot _ (tree.roots fs (filesystems ▸ known))
  · rw [root]
    exact tree.root.imp_right (isRoot _)

theorem Tree.link (tree : s.Tree) (fresh : s.Fresh block) (member : parent ∈ s.nodes)
    (directory : (s.node parent).isDirectory = true) (under : node.parent = parent)
    (sameFs : node.fs = (s.node parent).fs) (empty : node.firstChild = 0) :
    (s.link parent block node).Tree ∧ ∀ dir ∈ block :: s.nodes,
    (s.link parent block node).children dir =
      if dir = block then [] else if dir = parent then block :: s.children parent else s.children dir := by
  have apart := fresh.apart member
  refine tree.adds fresh member directory ?_
  constructor
  case others => rfl
  case body =>
    intro other notBlock
    by_cases isParent : other = parent
    · rw [isParent, link_parent apart]
    · rw [link_other isParent notBlock]
  case first =>
    intro other notParent notBlock
    rw [link_other notParent notBlock]
  case under => rw [link_block apart]; exact under
  case sameFs => rw [link_block apart]; exact sameFs
  case empty => rw [link_block apart]; exact empty
  case perm => rfl
  case linked =>
    rw [link_next apart, link_parent apart]
    refine ⟨rfl, fresh.1, ?_⟩
    rw [Function.update_self]
    exact (tree.linked parent member).update (tree.unlisted fresh member)
  case rest =>
    intro dir known notParent
    rw [link_next apart, link_other notParent (fresh.apart known)]
    exact (tree.linked dir known).update (tree.unlisted fresh known)

end Link

section Drop

variable {s u : Vfs} {node : Nat}

structure Unlinked (s u : Vfs) (node : Nat) : Prop where
  others : u = { s with node := u.node }
  body : ∀ address, u.node address = { s.node address with
    firstChild := (u.node address).firstChild, nextSibling := (u.node address).nextSibling }
  first : ∀ address, address ≠ (s.node node).parent →
    (u.node address).firstChild = (s.node address).firstChild
  linked : ∀ dir ∈ s.nodes, Linked u.next 0 (u.node dir).firstChild
    (if dir = (s.node node).parent then (s.children dir).erase node else s.children dir)

theorem erase_middle {front back : List Nat} (distinct : (front ++ node :: back).Nodup) :
    (front ++ node :: back).erase node = front ++ back := by
  have notFront : node ∉ front := fun member =>
    (List.nodup_append.mp distinct).2.2 node member node List.mem_cons_self rfl
  rw [List.erase_append_right _ notFront, List.erase_cons_head]

theorem prevSibling_eq {start back : List Nat} {last : Nat} (tree : s.Tree)
    (member : (s.node node).parent ∈ s.nodes)
    (split : s.children (s.node node).parent = start ++ [last] ++ node :: back) :
    s.prevSibling node = some last := by
  have linked := tree.linked _ member
  have distinct := tree.distinct _ member
  rw [split] at linked distinct
  rw [prevSibling, split, List.find?_eq_some_iff_append]
  have successor : s.next last = node := by
    rw [List.append_assoc] at linked
    exact linked.successor
  refine ⟨by rw [successor, beq_self_eq_true], start, node :: back, by simp, ?_⟩
  intro earlier before
  obtain ⟨left, right, rfl⟩ := List.append_of_mem before
  rw [Bool.not_eq_true', beq_eq_false_iff_ne]
  intro same
  have shape : left ++ earlier :: right ++ [last] ++ node :: back =
      left ++ earlier :: (right ++ [last] ++ node :: back) := by simp
  rw [shape] at linked distinct
  -- the successor of an earlier node stands in front of this one
  have here : node ∈ right ++ [last] := by
    cases behind : right ++ [last] with
    | nil => simp at behind
    | cons first rest =>
        rw [behind] at linked
        have step : s.next earlier = first := linked.successor
        rw [← same, step]
        exact List.mem_cons_self
  have rest := (List.nodup_cons.mp (List.nodup_append.mp distinct).2.1).2
  exact (List.nodup_append.mp rest).2.2 node here node List.mem_cons_self rfl

theorem Tree.unlink (tree : s.Tree) (listed : s.Listed node) :
    ∃ u, s.unlink node = some u ∧ Unlinked s u node := by
  obtain ⟨member, listed⟩ := listed
  obtain ⟨front, back, split⟩ := List.append_of_mem listed
  have linked := tree.linked _ member
  have distinct := tree.distinct _ member
  rw [split] at linked distinct
  have removed := linked.remove distinct
  have others : ∀ dir ∈ s.nodes, dir ≠ (s.node node).parent →
      ∀ kid ∈ s.children dir, kid ∉ s.children (s.node node).parent := by
    intro dir known different kid here there
    exact different ((tree.child dir known kid here).2.symm.trans (tree.child _ member kid there).2)
  rcases List.eq_nil_or_concat front with rfl | ⟨start, last, rfl⟩
  · -- the node is the first child
    have first : (s.node (s.node node).parent).firstChild = node := linked.1
    have next : (s.modify (s.node node).parent fun old =>
      { old with firstChild := s.next node }).next = s.next := by
      funext address
      by_cases isParent : address = (s.node node).parent
      · rw [Vfs.next, isParent, modify_same]
        rfl
      · rw [Vfs.next, modify_other isParent]
        rfl
    refine ⟨_, if_pos first, rfl, ?_, fun address different => by rw [modify_other different], ?_⟩
    · intro address
      by_cases isParent : address = (s.node node).parent
      · rw [isParent, modify_same]
      · rw [modify_other isParent]
    · intro dir known
      rw [next]
      by_cases isParent : dir = (s.node node).parent
      · rw [if_pos isParent, isParent, modify_same, split, List.nil_append, List.erase_cons_head]
        exact removed.1 rfl
      · rw [if_neg isParent, modify_other isParent]
        exact tree.linked dir known
  · rw [List.concat_eq_append] at split linked distinct removed
    have notFirst : (s.node (s.node node).parent).firstChild ≠ node := by
      intro first
      have inFront : node ∈ start ++ [last] := by
        cases start with
        | nil =>
            rw [first] at linked
            rw [linked.1]
            exact List.mem_singleton.mpr rfl
        | cons head rest =>
            rw [first] at linked
            rw [linked.1]
            exact List.mem_cons_self
      exact (List.nodup_append.mp distinct).2.2 node inFront node List.mem_cons_self rfl
    have prev := prevSibling_eq tree member split
    have next : (s.modify last fun old => { old with nextSibling := s.next node }).next =
        Function.update s.next last (s.next node) := by
      funext address
      by_cases isLast : address = last
      · rw [Vfs.next, isLast, modify_same, Function.update_self]
      · rw [Vfs.next, modify_other isLast, Function.update_of_ne isLast]
        rfl
    have lastListed : last ∈ s.children (s.node node).parent := by
      rw [split]
      simp
    have first : ∀ address, ((s.modify last fun old => { old with nextSibling := s.next node }).node
        address).firstChild = (s.node address).firstChild := by
      intro address
      by_cases isLast : address = last
      · rw [isLast, modify_same]
      · rw [modify_other isLast]
    refine ⟨s.modify last fun old => { old with nextSibling := s.next node }, ?_, rfl, ?_,
      fun address _ => first address, ?_⟩
    · rw [Vfs.unlink, if_neg notFirst, prev]
      rfl
    · intro address
      by_cases isLast : address = last
      · rw [isLast, modify_same]
      · rw [modify_other isLast]
    · intro dir known
      rw [next, first]
      by_cases isParent : dir = (s.node node).parent
      · rw [if_pos isParent, isParent, split, erase_middle distinct]
        exact removed.2 start last rfl
      · rw [if_neg isParent]
        exact (tree.linked dir known).update fun here => others dir known isParent last here lastListed

theorem Tree.drop (tree : s.Tree) (listed : s.Listed node) (unlinked : Unlinked s u node) :
    ({ u with nodes := s.nodes.erase node } : Vfs).Tree ∧ ∀ dir ∈ s.nodes.erase node,
      ({ u with nodes := s.nodes.erase node } : Vfs).children dir =
        if dir = (s.node node).parent then (s.children dir).erase node else s.children dir := by
  have same : u.filesystems = s.filesystems ∧ u.filesystem = s.filesystem ∧ u.root = s.root := by
    rw [unlinked.others]
    exact ⟨rfl, rfl, rfl⟩
  have isRoot : ∀ root, s.IsRoot root → ({ u with nodes := s.nodes.erase node } : Vfs).IsRoot root := by
    intro root isRoot
    have different : root ≠ node := by
      rintro rfl
      exact tree.root_unlisted isRoot listed.1 listed.2
    refine ⟨(List.mem_erase_of_ne different).mpr isRoot.1, ?_, ?_⟩
    · exact (congrArg VfsNode.isDirectory (unlinked.body root)).trans isRoot.2.1
    · exact (congrArg VfsNode.parent (unlinked.body root)).trans isRoot.2.2
  refine Tree.of_lists
    (fun dir => if dir = (s.node node).parent then (s.children dir).erase node else s.children dir)
    (fun null => tree.nonNull (List.mem_of_mem_erase null)) (tree.nodup.erase node) ?_ ?_ ?_
    ?_ ?_ ?_ ?_ ?_
  · intro dir known
    exact unlinked.linked dir (List.mem_of_mem_erase known)
  · intro dir known
    have old := tree.distinct dir (List.mem_of_mem_erase known)
    split
    next => exact old.erase node
    next => exact old
  · intro dir known child here
    have old := List.mem_of_mem_erase known
    have inOld : child ∈ s.children dir ∧ child ≠ node := by
      split at here
      next =>
        have apart := (List.Nodup.mem_erase_iff (tree.distinct dir old)).mp here
        exact ⟨apart.2, apart.1⟩
      next notParent =>
        refine ⟨here, ?_⟩
        rintro rfl
        exact notParent (tree.child dir old child here).2.symm
    obtain ⟨childKnown, isParent⟩ := tree.child dir old child inOld.1
    refine ⟨(List.mem_erase_of_ne inOld.2).mpr childKnown, ?_⟩
    exact (congrArg VfsNode.parent (unlinked.body child)).trans isParent
  · intro other known file
    have wasFile : (s.node other).isDirectory = false :=
      (congrArg VfsNode.isDirectory (unlinked.body other)).symm.trans file
    have notParent : other ≠ (s.node node).parent := by
      rintro rfl
      rw [tree.isDirectory listed.1 listed.2] at wasFile
      cases wasFile
    exact (unlinked.first other notParent).trans (tree.leaf other (List.mem_of_mem_erase known) wasFile)
  · change 0 ∉ u.filesystems
    rw [same.1]
    exact tree.fsNonNull
  · intro other known
    change (u.node other).fs ∈ u.filesystems
    rw [same.1]
    have kept := congrArg VfsNode.fs (unlinked.body other)
    rw [kept]
    exact tree.owned other (List.mem_of_mem_erase known)
  · intro fs known
    change fs ∈ u.filesystems at known
    rw [same.1] at known
    change ({ u with nodes := s.nodes.erase node } : Vfs).IsRoot (u.filesystem fs).root
    rw [same.2.1]
    exact isRoot _ (tree.roots fs known)
  · change u.root = 0 ∨ ({ u with nodes := s.nodes.erase node } : Vfs).IsRoot u.root
    rw [same.2.2]
    exact tree.root.imp_right (isRoot _)

end Drop

section Append

variable {s : Vfs} {parent last block other : Nat} {node : VfsNode}

theorem linkBehind_block (apart : last ≠ block) : (s.linkBehind last block node).node block = node := by
  rw [linkBehind, modify_other apart.symm]
  exact Function.update_self _ _ _

theorem linkBehind_same (notBlock : other ≠ block) : (s.linkBehind last block node).node other =
    { s.node other with nextSibling := ((s.linkBehind last block node).node other).nextSibling } := by
  have old : Function.update s.node block node other = s.node other :=
    Function.update_of_ne notBlock _ _
  by_cases isLast : other = last
  · rw [linkBehind, isLast, modify_same]
    change { Function.update s.node block node last with nextSibling := block } = _
    rw [← isLast, old]
  · rw [linkBehind, modify_other isLast]
    change Function.update s.node block node other =
      { s.node other with nextSibling := (Function.update s.node block node other).nextSibling }
    rw [old]

theorem linkBehind_next : (s.linkBehind last block node).next =
    Function.update (Function.update s.next block node.nextSibling) last block := by
  funext address
  by_cases isLast : address = last
  · rw [next, isLast, linkBehind, modify_same, Function.update_self]
  · rw [next, linkBehind, modify_other isLast, Function.update_of_ne isLast]
    change (Function.update s.node block node address).nextSibling = _
    by_cases isBlock : address = block
    · rw [isBlock, Function.update_self, Function.update_self]
    · rw [Function.update_of_ne isBlock, Function.update_of_ne isBlock]
      rfl

theorem Tree.append (tree : s.Tree) (fresh : s.Fresh block) (member : parent ∈ s.nodes)
    (under : node.parent = parent) (sameFs : node.fs = (s.node parent).fs)
    (empty : node.firstChild = 0) (ends : node.nextSibling = 0)
    (isLast : (s.children parent).getLast? = some last) :
    (s.linkBehind last block node).Tree ∧ ∀ dir ∈ block :: s.nodes,
      (s.linkBehind last block node).children dir =
        if dir = block then [] else if dir = parent then s.children parent ++ [block] else s.children dir := by
  obtain ⟨start, split⟩ := List.getLast?_eq_some_iff.mp isLast
  have lastListed : last ∈ s.children parent := by
    rw [split]
    simp
  have apart : last ≠ block := fresh.apart (tree.child parent member last lastListed).1
  refine tree.adds fresh member (tree.isDirectory member lastListed) ?_
  constructor
  case others => rfl
  case body =>
    intro other notBlock
    rw [linkBehind_same notBlock]
  case first =>
    intro other _ notBlock
    rw [linkBehind_same notBlock]
  case under => rw [linkBehind_block apart]; exact under
  case sameFs => rw [linkBehind_block apart]; exact sameFs
  case empty => rw [linkBehind_block apart]; exact empty
  case perm => exact List.perm_append_singleton block _
  case linked =>
    have linked : Linked (Function.update s.next block 0) 0 _ _ :=
      (tree.linked parent member).update (tree.unlisted fresh member)
    have lastFresh : last ∉ start := by
      have distinct := tree.distinct parent member
      rw [split] at distinct
      exact fun before => (List.nodup_append.mp distinct).2.2 last before last (by simp) rfl
    rw [split] at linked ⊢
    rw [linkBehind_next, ends, linkBehind_same (fresh.apart member)]
    refine Linked.append.mpr ⟨block, linked.redirect lastFresh, rfl, fresh.1, ?_⟩
    rw [Function.update_of_ne apart.symm, Function.update_self]
    rfl
  case rest =>
    intro dir known notParent
    rw [linkBehind_next, linkBehind_same (fresh.apart known)]
    refine ((tree.linked dir known).update (tree.unlisted fresh known)).update fun here => notParent ?_
    exact (tree.child dir known last here).2.symm.trans (tree.child parent member last lastListed).2

end Append

section Mounting

variable {s after : Vfs} {fs root mountPoint : Nat} {ops : VfsOps}

theorem Tree.frame (tree : s.Tree) (nodes : after.nodes = s.nodes)
    (filesystems : after.filesystems = s.filesystems) (filesystem : after.filesystem = s.filesystem)
    (body : ∀ address, after.node address = { s.node address with
      size := (after.node address).size, fsData := (after.node address).fsData })
    (root : after.root = s.root ∨ s.IsRoot after.root) :
    after.Tree ∧ ∀ dir ∈ after.nodes, after.children dir = s.children dir := by
  have sameNext : after.next = s.next := by
    funext address
    rw [next, body]
    rfl
  have isRoot : ∀ root, s.IsRoot root → after.IsRoot root := by
    rintro root ⟨known, isDirectory, top⟩
    refine ⟨nodes ▸ known, ?_, ?_⟩
    · exact (congrArg VfsNode.isDirectory (body root)).trans isDirectory
    · exact (congrArg VfsNode.parent (body root)).trans top
  refine Tree.of_lists s.children (nodes ▸ tree.nonNull) (nodes ▸ tree.nodup) ?_ ?_ ?_ ?_
    (filesystems ▸ tree.fsNonNull) ?_ ?_ ?_
  · intro dir known
    rw [sameNext, congrArg VfsNode.firstChild (body dir)]
    exact tree.linked dir (nodes ▸ known)
  · intro dir known
    exact tree.distinct dir (nodes ▸ known)
  · intro dir known child listed
    obtain ⟨childKnown, isParent⟩ := tree.child dir (nodes ▸ known) child listed
    exact ⟨nodes ▸ childKnown, (congrArg VfsNode.parent (body child)).trans isParent⟩
  · intro node known file
    exact (congrArg VfsNode.firstChild (body node)).trans (tree.leaf node (nodes ▸ known)
      ((congrArg VfsNode.isDirectory (body node)).symm.trans file))
  · intro node known
    rw [congrArg VfsNode.fs (body node), filesystems]
    exact tree.owned node (nodes ▸ known)
  · intro fs known
    rw [filesystem]
    exact isRoot _ (tree.roots fs (filesystems ▸ known))
  · rcases root with same | isNew
    · rw [same]
      exact tree.root.imp_right (isRoot _)
    · exact Or.inr (isRoot _ isNew)

theorem addFilesystem_other {other : Nat} (different : other ≠ root) :
    (s.addFilesystem fs root ops).node other = s.node other :=
  Function.update_of_ne different _ _

theorem Tree.addFilesystem (tree : s.Tree) (fresh : s.Fresh fs) (freshRoot : s.Fresh root) :
    (s.addFilesystem fs root ops).Tree ∧ ∀ dir ∈ root :: s.nodes,
      (s.addFilesystem fs root ops).children dir = if dir = root then [] else s.children dir := by
  have kept : ∀ {other}, other ∈ s.nodes → (s.addFilesystem fs root ops).node other = s.node other :=
    fun known => addFilesystem_other (freshRoot.apart known)
  have made : ((s.addFilesystem fs root ops).node root) = {
      name := [47], isDirectory := true, size := 0, fsData := 0, fs, parent := 0, firstChild := 0
      nextSibling := 0 } := Function.update_self _ _ _
  have next : (s.addFilesystem fs root ops).next = Function.update s.next root 0 := by
    funext address
    by_cases isRoot : address = root
    · rw [Vfs.next, isRoot, made, Function.update_self]
    · rw [Vfs.next, Function.update_of_ne isRoot]
      exact congrArg VfsNode.nextSibling (Function.update_of_ne isRoot _ _)
  have isRoot : ∀ root', s.IsRoot root' → (s.addFilesystem fs root ops).IsRoot root' := by
    rintro root' ⟨known, isDirectory, top⟩
    refine ⟨List.mem_cons_of_mem _ known, ?_, ?_⟩
    · rw [kept known]
      exact isDirectory
    · rw [kept known]
      exact top
  refine Tree.of_lists (fun dir => if dir = root then [] else s.children dir) ?_
    (List.nodup_cons.mpr ⟨freshRoot.nodes, tree.nodup⟩) ?_ ?_ ?_ ?_ ?_ ?_ ?_ ?_
  · rintro (_ | ⟨_, known⟩)
    · exact freshRoot.1 rfl
    · exact tree.nonNull known
  · intro dir known
    rw [next]
    split
    next isRoot =>
      rw [isRoot, made]
      rfl
    next different =>
      have old := (List.mem_cons.mp known).resolve_left different
      rw [kept old]
      refine (tree.linked dir old).update fun here => freshRoot.nodes (tree.child dir old root here).1
  · intro dir known
    split
    next => exact List.nodup_nil
    next different => exact tree.distinct dir ((List.mem_cons.mp known).resolve_left different)
  · intro dir known child listed
    split at listed
    next => cases listed
    next different =>
      obtain ⟨childKnown, isParent⟩ :=
        tree.child dir ((List.mem_cons.mp known).resolve_left different) child listed
      refine ⟨List.mem_cons_of_mem _ childKnown, ?_⟩
      rw [kept childKnown]
      exact isParent
  · intro node known file
    rcases List.mem_cons.mp known with rfl | old
    · rw [made]
    · rw [kept old] at file ⊢
      exact tree.leaf node old file
  · rintro (_ | ⟨_, known⟩)
    · exact fresh.1 rfl
    · exact tree.fsNonNull known
  · intro node known
    rcases List.mem_cons.mp known with rfl | old
    · rw [made]
      exact List.mem_cons_self
    · rw [kept old]
      exact List.mem_cons_of_mem _ (tree.owned node old)
  · intro other known
    by_cases isNew : other = fs
    · have target : ((s.addFilesystem fs root ops).filesystem other).root = root := by
        rw [isNew]
        change (Function.update s.filesystem fs { ops, root } fs).root = root
        rw [Function.update_self]
      rw [target, IsRoot, made]
      exact ⟨List.mem_cons_self, rfl, rfl⟩
    · have target : (s.addFilesystem fs root ops).filesystem other = s.filesystem other :=
        Function.update_of_ne isNew _ _
      rw [target]
      exact isRoot _ (tree.roots other ((List.mem_cons.mp known).resolve_left isNew))
  · exact tree.root.imp_right (isRoot _)

theorem mountOver_bare (bare : (s.node (s.filesystem fs).root).firstChild = 0) :
    s.mountOver fs mountPoint = s.modify mountPoint fun old => { old with fs, firstChild := 0 } := by
  have none : (s.modify mountPoint fun old => { old with fs, firstChild := 0 }).children
    mountPoint = [] := by
    rw [children, modify_same]
    cases (s.modify mountPoint fun old => { old with fs, firstChild := 0 }).nodes.length with
    | zero => rfl
    | succ count => rfl
  rw [mountOver]
  dsimp only
  rw [bare, none]
  rfl

theorem Tree.mountOver (tree : s.Tree) (known : fs ∈ s.filesystems)
    (bare : (s.node (s.filesystem fs).root).firstChild = 0) :
    (s.mountOver fs mountPoint).Tree ∧ ∀ dir ∈ s.nodes,
      (s.mountOver fs mountPoint).children dir = if dir = mountPoint then [] else s.children dir := by
  rw [mountOver_bare bare]
  have body : ∀ address, (s.modify mountPoint fun old => { old with fs, firstChild := 0 }).node
    address =
      if address = mountPoint then { s.node address with fs, firstChild := 0 } else s.node address := by
    intro address
    split
    next same => rw [same, modify_same]
    next different => exact modify_other different
  have sameNext : (s.modify mountPoint fun old => { old with fs, firstChild := 0 }).next = s.next := by
    funext address
    rw [next, body]
    split <;> rfl
  have isRoot : ∀ root, s.IsRoot root →
      (s.modify mountPoint fun old => { old with fs, firstChild := 0 }).IsRoot root := by
    rintro root ⟨known, isDirectory, top⟩
    rw [IsRoot, body]
    split
    next => exact ⟨known, isDirectory, top⟩
    next => exact ⟨known, isDirectory, top⟩
  refine Tree.of_lists (fun dir => if dir = mountPoint then [] else s.children dir)
    tree.nonNull tree.nodup ?_ ?_ ?_ ?_ tree.fsNonNull ?_ ?_ ?_
  · intro dir member
    rw [sameNext, body]
    split
    next => rfl
    next => exact tree.linked dir member
  · intro dir member
    split
    next => exact List.nodup_nil
    next => exact tree.distinct dir member
  · intro dir member child listed
    split at listed
    next => cases listed
    next =>
      obtain ⟨childKnown, isParent⟩ := tree.child dir member child listed
      refine ⟨childKnown, ?_⟩
      rw [body]
      split
      next => exact isParent
      next => exact isParent
  · intro node member file
    rw [body] at file ⊢
    split
    next => rfl
    next different =>
      rw [if_neg different] at file
      exact tree.leaf node member file
  · intro node member
    rw [body]
    split
    next => exact known
    next => exact tree.owned node member
  · intro other member
    exact isRoot _ (tree.roots other member)
  · exact tree.root.imp_right (isRoot _)

end Mounting

section Chain

variable {s after : Vfs} {related : List UInt8 → List UInt8 → Prop} {typed : Prop}

def Chain (related : List UInt8 → List UInt8 → Prop) (typed : Prop) : Vfs → Vfs → Prop :=
  Relation.ReflTransGen (Alters related typed)

def NamesApart (related : List UInt8 → List UInt8 → Prop) (s : Vfs) : Prop :=
  ∀ dir ∈ s.nodes, (s.childNames dir).Pairwise related

theorem childNames_eq {dir : Nat} {kids : List Nat} (lists : after.children dir = kids)
    (names : ∀ child ∈ kids, (after.node child).name = (s.node child).name) :
    after.childNames dir = kids.map fun child => (s.node child).name := by
  rw [childNames, lists]
  exact List.map_congr_left names

theorem NamesApart.of_sublist (apart : NamesApart related s)
    (fewer : ∀ dir ∈ after.nodes, after.childNames dir = [] ∨
      dir ∈ s.nodes ∧ (after.childNames dir).Sublist (s.childNames dir)) : NamesApart related after := by
  intro dir known
  rcases fewer dir known with none | ⟨old, sub⟩
  · rw [none]
    exact List.Pairwise.nil
  · exact (apart dir old).sublist sub

structure SameTree (s after : Vfs) : Prop where
  node : after.node = s.node
  nodes : after.nodes = s.nodes
  filesystem : after.filesystem = s.filesystem
  filesystems : after.filesystems = s.filesystems
  root : after.root = s.root

theorem SameTree.children (same : SameTree s after) : after.children = s.children := by
  funext dir
  rw [Vfs.children, Vfs.children, same.node, same.nodes, show after.next = s.next from
    funext fun address => congrArg VfsNode.nextSibling (congrFun same.node address)]

theorem SameTree.childNames (same : SameTree s after) : after.childNames = s.childNames := by
  funext dir
  rw [Vfs.childNames, Vfs.childNames, same.children, same.node]

theorem SameTree.tree (same : SameTree s after) (tree : s.Tree) : after.Tree := by
  refine (tree.frame same.nodes same.filesystems same.filesystem (fun address => ?_)
    (Or.inl same.root)).1
  rw [same.node]

theorem SameTree.namesApart (same : SameTree s after)
    (apart : NamesApart related s) : NamesApart related after := by
  intro dir known
  rw [same.childNames]
  exact apart dir (same.nodes ▸ known)

theorem dropped_keeps {node : Nat} {unlinked : Vfs} (tree : s.Tree) (listed : s.Listed node)
    (taken : s.unlink node = some unlinked) :
    ({ unlinked with nodes := s.nodes.erase node } : Vfs).Tree ∧
      ∀ related, NamesApart related s →
      NamesApart related { unlinked with nodes := s.nodes.erase node } := by
  obtain ⟨u, found, unlinks⟩ := tree.unlink listed
  rw [found, Option.some.injEq] at taken
  subst taken
  obtain ⟨keeps, lists⟩ := tree.drop listed unlinks
  refine ⟨keeps, fun related apart => apart.of_sublist fun dir known => ?_⟩
  refine Or.inr ⟨List.mem_of_mem_erase known, ?_⟩
  rw [@childNames_eq s _ dir _ (lists dir known) fun child _ => by rw [unlinks.body child]]
  refine List.Sublist.map _ ?_
  split
  next => exact List.erase_sublist
  next => exact List.Sublist.refl _

theorem Alters.keeps (tree : s.Tree) (alters : Alters related typed s after) : after.Tree ∧
    ((∀ left right, related left right → related right left) →
      NamesApart related s → NamesApart related after) := by
  cases alters with
  | disk | data | grow =>
      exact ⟨@SameTree.tree s _ ⟨rfl, rfl, rfl, rfl, rfl⟩ tree,
        fun _ => @SameTree.namesApart s _ related ⟨rfl, rfl, rfl, rfl, rfl⟩⟩
  | @resize node size fsData owns =>
      have body := fun address => @modify_frame s address node size fsData
      obtain ⟨keeps, lists⟩ := @Tree.frame s (s.modify node fun old => { old with size, fsData })
        tree rfl rfl rfl body (Or.inl rfl)
      refine ⟨keeps, fun _ apart => apart.of_sublist fun dir known => Or.inr ⟨known, ?_⟩⟩
      rw [@childNames_eq s _ dir _ (lists dir known) fun child _ => by rw [body child]]
      exact List.Sublist.refl _
  | @mount root isRoot =>
      obtain ⟨keeps, lists⟩ := @Tree.frame s { s with root } tree rfl rfl rfl (fun _ => rfl) (Or.inr isRoot)
      exact ⟨keeps, fun _ apart dir known => apart dir known⟩
  | filesystem fresh freshRoot =>
      obtain ⟨keeps, lists⟩ := tree.addFilesystem fresh freshRoot
      refine ⟨keeps, fun _ apart => apart.of_sublist fun dir known => ?_⟩
      by_cases isRoot : dir ∈ s.nodes
      · have different := freshRoot.apart isRoot
        refine Or.inr ⟨isRoot, ?_⟩
        rw [childNames_eq ((lists dir known).trans (if_neg different)) fun child listed => ?_]
        · exact List.Sublist.refl _
        · have old := freshRoot.apart (tree.child dir isRoot child listed).1
          rw [addFilesystem_other old]
      · have same := (List.mem_cons.mp known).resolve_right isRoot
        rw [childNames, lists dir known, if_pos same]
        exact Or.inl rfl
  | @mountOver fs mountPoint isFs directory bare owns =>
      obtain ⟨keeps, lists⟩ := tree.mountOver isFs bare
      refine ⟨keeps, fun _ apart => apart.of_sublist fun dir known => ?_⟩
      rw [mountOver_bare bare] at known lists ⊢
      by_cases isPoint : dir = mountPoint
      · rw [childNames, lists dir known, if_pos isPoint]
        exact Or.inl rfl
      · refine Or.inr ⟨known, ?_⟩
        rw [childNames_eq ((lists dir known).trans (if_neg isPoint)) fun child _ => ?_]
        · exact List.Sublist.refl _
        · by_cases same : child = mountPoint
          · rw [same, modify_same]
          · rw [modify_other same]
  | drop listed taken =>
      obtain ⟨keeps, names⟩ := dropped_keeps tree listed taken
      exact ⟨keeps, fun _ => names related⟩
  | @dropData node unlinked listed tmpfs member taken =>
      obtain ⟨keeps, names⟩ := dropped_keeps tree listed taken
      have same : SameTree { unlinked with nodes := s.nodes.erase node } { unlinked with
          nodes := s.nodes.erase node
          datas := s.datas.erase (s.node node).fsData
          buffers := s.buffers.erase (s.tmpfsData (s.node node).fsData).data } := ⟨rfl, rfl, rfl, rfl, rfl⟩
      exact ⟨same.tree keeps, fun _ apart => same.namesApart (names related apart)⟩
  | @link parent block node fresh member directory under sameFs empty owns name =>
      obtain ⟨keeps, lists⟩ := tree.link fresh member directory under sameFs empty
      refine ⟨keeps, fun _ apart dir known => ?_⟩
      have parentApart := fresh.apart member
      have names : ∀ old ∈ s.nodes, ∀ child ∈ s.children old,
          ((s.link parent block node).node child).name = (s.node child).name :=
          fun old oldKnown child listed => by
        rw [link_same parentApart (fresh.apart (tree.child old oldKnown child listed).1)]
      by_cases isBlock : dir = block
      · rw [childNames, lists dir known, if_pos isBlock]
        exact List.Pairwise.nil
      · have old := (List.mem_cons.mp known).resolve_left isBlock
        by_cases isParent : dir = parent
        · rw [childNames, lists dir known, if_neg isBlock, if_pos isParent, List.map_cons,
            link_block parentApart, List.map_congr_left (names _ member)]
          exact List.pairwise_cons.mpr ⟨name, apart _ member⟩
        · rw [childNames_eq ((lists dir known).trans ((if_neg isBlock).trans (if_neg isParent)))
            (names dir old)]
          exact apart dir old
  | @append parent last block node fresh member under sameFs empty ends isLast owns name =>
      obtain ⟨keeps, lists⟩ := tree.append fresh member under sameFs empty ends isLast
      refine ⟨keeps, fun symmetric apart dir known => ?_⟩
      have lastListed := List.mem_of_getLast? isLast
      have lastApart := fresh.apart (tree.child _ member _ lastListed).1
      have names : ∀ old ∈ s.nodes, ∀ child ∈ s.children old,
          ((s.linkBehind last block node).node child).name = (s.node child).name :=
          fun old oldKnown child listed => by
        rw [linkBehind_same (fresh.apart (tree.child old oldKnown child listed).1)]
      by_cases isBlock : dir = block
      · rw [childNames, lists dir known, if_pos isBlock]
        exact List.Pairwise.nil
      · have old := (List.mem_cons.mp known).resolve_left isBlock
        by_cases isParent : dir = parent
        · rw [childNames, lists dir known, if_neg isBlock, if_pos isParent, List.map_append,
            List.map_congr_left (names _ member), List.map_singleton, linkBehind_block lastApart]
          refine List.pairwise_append.mpr ⟨apart _ member, List.pairwise_singleton _ _, ?_⟩
          rintro other here _ (_ | ⟨_, ⟨⟩⟩)
          exact symmetric _ _ (name other here)
        · rw [childNames_eq ((lists dir known).trans ((if_neg isBlock).trans (if_neg isParent)))
            (names dir old)]
          exact apart dir old

theorem Chain.tree (tree : s.Tree) (chain : Chain related typed s after) : after.Tree := by
  induction chain with
  | refl => exact tree
  | tail _ alters ih => exact (alters.keeps ih).1

theorem Chain.namesApart (tree : s.Tree)
    (symmetric : ∀ left right, related left right → related right left)
    (apart : NamesApart related s) (chain : Chain related typed s after) :
    NamesApart related after := by
  induction chain with
  | refl => exact apart
  | tail before alters ih =>
      exact (alters.keeps (Chain.tree tree before)).2 symmetric ih

end Chain

end Vfs

end Szczupak
