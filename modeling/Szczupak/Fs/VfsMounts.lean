import Szczupak.Fs.VfsCalls

/-!
Lookup by path ends in nodes of the tree; mounting, `vfs_ensure_directory` and the two
constructors of a file system are chains of changes.
-/

namespace Szczupak

namespace Vfs

inductive Reached (s : Vfs) : Nat → Prop
  | root (mounted : s.root ≠ 0) : Reached s s.root
  | child {dir child : Nat} (reached : Reached s dir) (listed : child ∈ s.children dir) :
    Reached s child

section Lookup

variable {s : Vfs} {dir child node current : Nat} {name token path : List UInt8}
    {test : List UInt8 → Bool}

theorem Reached.known (tree : s.Tree) (reached : Reached s node) : node ∈ s.nodes := by
  induction reached with
  | root mounted => exact (tree.root.resolve_left mounted).1
  | child _ listed ih => exact (tree.child _ ih _ listed).1

theorem Reached.parent (tree : s.Tree) (reached : Reached s node) :
    (s.node node).parent = 0 ∨ s.Listed node ∧ Reached s (s.node node).parent := by
  cases reached with
  | root mounted => exact Or.inl (tree.root.resolve_left mounted).2.2
  | child above listed =>
      have known := above.known tree
      have isParent := (tree.child _ known _ listed).2
      rw [Listed, isParent]
      exact Or.inr ⟨⟨known, listed⟩, above⟩

theorem findChildWith_some (found : s.findChildWith dir test = some child) :
    dir ≠ 0 ∧ (s.node dir).isDirectory = true ∧ child ∈ s.children dir ∧
    test (s.node child).name = true := by
  rw [findChildWith] at found
  split at found
  next => cases found
  next isDir =>
    obtain ⟨some, directory⟩ := not_or.mp isDir
    refine ⟨some, Bool.not_eq_false _ ▸ directory, List.mem_of_find?_eq_some found, ?_⟩
    exact @List.find?_some _ (fun child => test (s.node child).name) _ _ found

theorem findChildWith_none (some : dir ≠ 0) (directory : (s.node dir).isDirectory = true)
    (none : s.findChildWith dir test = none) : ∀ other ∈ s.childNames dir, test other = false := by
  rw [findChildWith, directory, if_neg (not_or.mpr ⟨some, by decide⟩)] at none
  intro other member
  obtain ⟨child, listed, rfl⟩ := List.mem_map.mp member
  exact Bool.not_eq_true _ ▸ List.find?_eq_none.mp none child listed

theorem findEither_some (found : s.findEither dir name = some child) :
    (s.node dir).isDirectory = true ∧ child ∈ s.children dir := by
  rw [findEither] at found
  split at found
  next exact =>
    cases found
    obtain ⟨_, directory, listed, _⟩ := findChildWith_some exact
    exact ⟨directory, listed⟩
  next =>
    obtain ⟨_, directory, listed, _⟩ := findChildWith_some found
    exact ⟨directory, listed⟩

theorem findEither_none (some : dir ≠ 0) (directory : (s.node dir).isDirectory = true)
    (none : s.findEither dir name = none) : ∀ other ∈ s.childNames dir,
    streqNocase other name = false := by
  rw [findEither] at none
  split at none
  next => cases none
  next => exact findChildWith_none some directory none

theorem enter_reached (tree : s.Tree) (reached : Reached s current)
    (entered : s.enter current token = some node) : Reached s node := by
  rw [enter] at entered
  split at entered
  next => cases entered
  next =>
    split at entered
    next =>
      cases entered
      exact reached
    next =>
      split at entered
      next =>
        split at entered
        next some =>
          cases entered
          exact ((reached.parent tree).resolve_left some).2
        next =>
          cases entered
          exact reached
      next => exact reached.child (findEither_some entered).2

theorem foldlM_reached (tree : s.Tree) {tokens : List (List UInt8)} (reached : Reached s current)
    (entered : tokens.foldlM s.enter current = some node) : Reached s node := by
  induction tokens generalizing current with
  | nil =>
      cases entered
      exact reached
  | cons token rest ih =>
      rw [List.foldlM_cons] at entered
      obtain ⟨next, first, remaining⟩ := Option.bind_eq_some_iff.mp entered
      exact ih (enter_reached tree reached first) remaining

theorem vfsResolvePath_reached (tree : s.Tree) (resolved : s.vfsResolvePath path = some node) :
    Reached s node := by
  rw [vfsResolvePath] at resolved
  split at resolved
  next => cases resolved
  next mounted => exact foldlM_reached tree (.root (not_or.mp mounted).1) resolved

end Lookup

section Mounting

variable {v : Volume} {s : Vfs} {related : List UInt8 → List UInt8 → Prop} {typed : Prop}
  {fs root block parent : Nat} {path name : List UInt8}

theorem vfsMount_chain (tree : s.Tree) (known : fs ∈ s.filesystems) :
    Chain related typed s (s.vfsMount fs path).2 := by
  rw [vfsMount]
  split
  next => exact .refl
  next =>
    split
    next => exact .single (.mount (tree.roots fs known))
    next => exact .refl

theorem mountParent_some (tree : s.Tree) (found : s.mountParent path = some (parent, name)) :
    Reached s parent ∧ (s.node parent).isDirectory = true := by
  rw [mountParent] at found
  dsimp only at found
  split at found
  next => cases found
  next =>
    split at found
    next => cases found
    next resolved =>
      split at found
      next directory =>
        cases found
        exact ⟨vfsResolvePath_reached tree resolved, directory⟩
      next => cases found

/-- Where a mount takes place, the file system has no nodes yet, and a new mount point is not
made in its own root. -/
def MountsBare (s : Vfs) (fs : Nat) (path : List UInt8) (block : Nat) : Prop :=
  ∀ place ∈ s.mountParent path,
    (s.findEither place.1 place.2 = none → s.kmalloc block ≠ 0 →
      (s.node (s.filesystem fs).root).firstChild = 0 ∧ place.1 ≠ (s.filesystem fs).root) ∧
    ∀ mountPoint ∈ s.findEither place.1 place.2, (s.node mountPoint).isDirectory = true →
      (s.node (s.filesystem fs).root).firstChild = 0

instance (s : Vfs) (fs : Nat) (path : List UInt8) (block : Nat) :
    Decidable (s.MountsBare fs path block) :=
  inferInstanceAs (Decidable (∀ place ∈ s.mountParent path,
    (_ → _ → _) ∧ ∀ mountPoint ∈ s.findEither place.1 place.2, _))

/-- A directory that a tmpfs is mounted over has no number of a cluster. -/
def MountsTyped (s : Vfs) (fs : Nat) (path : List UInt8) : Prop :=
  ∀ place ∈ s.mountParent path, ∀ mountPoint ∈ s.findEither place.1 place.2,
    (s.node mountPoint).isDirectory = true → (s.filesystem fs).ops = .tmpfs →
    (s.node mountPoint).fsData = 0

instance (s : Vfs) (fs : Nat) (path : List UInt8) : Decidable (s.MountsTyped fs path) :=
  inferInstanceAs (Decidable (∀ place ∈ s.mountParent path,
    ∀ mountPoint ∈ s.findEither place.1 place.2, _))

theorem vfsMountAt_chain (tree : s.Tree) (known : fs ∈ s.filesystems)
    (bare : path ≠ [47] → s.MountsBare fs path block)
    (fits : typed → path ≠ [47] → s.MountsTyped fs path)
    (permits : ∀ name other, streqNocase other name = false → related name other) :
    Chain related typed s (s.vfsMountAt fs path block).2 := by
  rw [vfsMountAt]
  split
  next => exact .refl
  next =>
    split
    next => exact vfsMount_chain tree known
    next notRoot =>
      split
      next => exact .refl
      next parent name found =>
        have isBare := bare notRoot (parent, name) found
        obtain ⟨reached, directory⟩ := mountParent_some tree found
        have member := reached.known tree
        have nonNull : parent ≠ 0 := fun null => tree.nonNull (null ▸ member)
        split
        next missing =>
          split
          next => exact .refl
          next got =>
            have fresh := kmalloc_fresh got
            have apart := fresh.apart member
            have isRoot := tree.roots fs known
            obtain ⟨noNodes, notRoot⟩ := isBare.1 missing got
            have rootKept : (s.link parent block (s.freshNode parent name true 0)).node
                (s.filesystem fs).root = s.node (s.filesystem fs).root :=
              link_other notRoot.symm (fresh.apart isRoot.1)
            have made : (s.link parent block (s.freshNode parent name true 0)).node block =
                { s.freshNode parent name true 0 with nextSibling := (s.node parent).firstChild } :=
                link_block apart
            have links : Alters related typed s (s.link parent block (s.freshNode parent name true 0)) := by
              refine .link fresh member directory rfl rfl rfl (fun _ => ?_) fun other here =>
                permits name other (findEither_none nonNull directory missing other here)
              rw [FreshData]
              split
              next => exact Nat.two_pow_pos 16
              next => exact Or.inl rfl
            refine Relation.ReflTransGen.head links (.single (.mountOver known ?_ ?_ fun _ _ => ?_))
            · rw [made]
              rfl
            · exact (congrArg VfsNode.firstChild rootKept).trans noNodes
            · rw [made]
              rfl
        next mountPoint here =>
          split
          next isDirectory =>
            exact .single (.mountOver known isDirectory (isBare.2 mountPoint here isDirectory) fun isTyped =>
              fits isTyped notRoot (parent, name) found mountPoint here isDirectory)
          next => exact .refl

theorem Creates.child {isDirectory : Bool} {node : Nat} {after : Vfs} (tree : s.Tree)
    (member : parent ∈ s.nodes)
    (creates : Creates s parent block name isDirectory (some node, after)) :
    after.Tree ∧ node = block ∧ block ∈ after.nodes ∧ parent ∈ after.nodes ∧
      after.children parent = block :: s.children parent ∧ (after.node block).isDirectory =
      isDirectory ∧ (after.node block).name = s.createdName parent name isDirectory ∧
      ∀ other ∈ s.nodes, (after.node other).name = (s.node other).name := by
  cases creates with
  | @makes before made same steps fresh directory under sameFs empty owns named kind =>
      have beforeTree := same.tree tree
      have known : parent ∈ before.nodes := same.nodes ▸ member
      have apart := fresh.apart known
      obtain ⟨linked, lists⟩ := beforeTree.link fresh known
        (by rw [same.node]; exact directory) under (by rw [same.node]; exact sameFs) empty
      have parentKnown : parent ∈ block :: before.nodes := List.mem_cons_of_mem _ known
      refine ⟨linked, rfl, List.mem_cons_self, parentKnown, ?_, ?_, ?_, ?_⟩
      · rw [lists parent parentKnown, if_neg apart, if_pos rfl, same.children]
      · rw [link_block apart]
        exact kind
      · rw [link_block apart]
        exact named
      · intro other old
        rw [link_same apart (fresh.apart (same.nodes ▸ old)), same.node]

variable {blocks : List Nat}

theorem ensureFrom_chain {tokens : List (List UInt8)} {current : Nat} (tree : s.Tree)
    (member : current ∈ s.nodes) (sound : typed → s.OwnData)
    (permits : ∀ (s : Vfs) current, ∀ token ∈ tokens, ∀ other, token.length < maxFilename →
      streqNocase other token = false → related (s.createdName current token true) other) :
    Chain related typed s (ensureFrom v tokens current blocks s).2 := by
  induction tokens generalizing s current blocks with
  | nil => exact .refl
  | cons token rest ih =>
      have later := fun (s : Vfs) current other here => permits s current other (List.mem_cons_of_mem _ here)
      rw [ensureFrom]
      split
      next => exact .refl
      next short =>
        split
        next => exact ih tree member sound later
        next =>
          split
          next => exact .refl
          next =>
            split
            next child found =>
              split
              next => exact ih tree (tree.child _ member _ (findEither_some found).2).1 sound later
              next => exact .refl
            next missing =>
              have creates := @vfsCreateDirectory_creates v s current (blocks.headD 0) token
              have nonNull : current ≠ 0 := fun null => tree.nonNull (null ▸ member)
              have chain := creates.chain member sound fun directory other here =>
                permits s current token List.mem_cons_self other (Nat.lt_of_not_le short)
                  (findEither_none nonNull directory missing other here)
              rcases result : s.vfsCreateDirectory v current token (blocks.headD 0) with ⟨_ | node, after⟩
              · rw [result] at chain
                exact chain
              · rw [result] at chain creates
                obtain ⟨afterTree, isBlock, known, _⟩ := creates.child tree member
                dsimp only
                split
                next =>
                  exact chain.trans (ih afterTree (isBlock ▸ known)
                    (fun isTyped => chain.ownData tree (sound isTyped) isTyped) later)
                next => exact chain

end Mounting

section Filesystems

variable {v : Volume} {s : Vfs} {related : List UInt8 → List UInt8 → Prop} {typed : Prop}
  {fs root : Nat}

theorem addFilesystem_alters (got : ¬s.kmalloc fs = 0) (gotRoot : ¬(s.kmalloc root = 0 ∨ root = fs))
    (ops : VfsOps) : Alters related typed s (s.addFilesystem fs root ops) :=
  .filesystem (kmalloc_fresh got) (kmalloc_fresh (not_or.mp gotRoot).1)

theorem tmpfsCreate_chain : Chain related typed s (s.tmpfsCreate fs root).2 := by
  rw [tmpfsCreate]
  split
  next => exact .refl
  next got =>
    split
    next => exact .refl
    next gotRoot => exact .single (addFilesystem_alters got gotRoot .tmpfs)

theorem linkMounted_others {entries : List Fat16Node} {last : Nat} :
    (linkMounted root entries blocks last s).filesystems = s.filesystems ∧
      (linkMounted root entries blocks last s).filesystem = s.filesystem ∧
      (linkMounted root entries blocks last s).disk = s.disk := by
  induction entries generalizing s blocks last with
  | nil => exact ⟨rfl, rfl, rfl⟩
  | cons entry rest ih =>
      rw [linkMounted]
      dsimp only
      split
      next => exact ih
      next =>
        obtain ⟨filesystems, filesystem, disk⟩ := @ih _ _ _
        rw [filesystems, filesystem, disk]
        split
        next => exact ⟨rfl, rfl, rfl⟩
        next => exact ⟨rfl, rfl, rfl⟩

theorem linkMounted_chain {entries : List Fat16Node} {last : Nat} (tree : s.Tree)
    (member : root ∈ s.nodes) (directory : (s.node root).isDirectory = true) (fat16 : s.ops root = .fat16)
    (ends : (s.children root).getLastD 0 = last) (small : ∀ entry ∈ entries, entry.cluster < 2 ^ 16)
    (apart : entries.Pairwise fun earlier later => related later.name earlier.name)
    (beside : ∀ entry ∈ entries, ∀ other ∈ s.childNames root, related entry.name other) :
    Chain related typed s (linkMounted root entries blocks last s) := by
  induction entries generalizing s blocks last with
  | nil => exact .refl
  | cons entry rest ih =>
      obtain ⟨first, laterApart⟩ := List.pairwise_cons.mp apart
      have laterSmall := fun other here => small other (List.mem_cons_of_mem _ here)
      rw [linkMounted]
      dsimp only
      split
      next =>
        exact ih tree member directory fat16 ends laterSmall laterApart fun other here =>
          beside other (List.mem_cons_of_mem _ here)
      next got =>
        have fresh := kmalloc_fresh got
        generalize blocks.headD 0 = block at fresh
        have rootApart := fresh.apart member
        obtain ⟨node, isNode⟩ : ∃ node : VfsNode, node =
            { s.freshNode root entry.name entry.isDirectory entry.cluster with size := entry.size } := ⟨_, rfl⟩
        have under : node.parent = root := by rw [isNode]; rfl
        have sameFs : node.fs = (s.node root).fs := by rw [isNode]; rfl
        have empty : node.firstChild = 0 := by rw [isNode]; rfl
        have ends' : node.nextSibling = 0 := by rw [isNode]; rfl
        have isName : node.name = entry.name := by rw [isNode]; rfl
        have owns : typed → s.FreshData node := by
          intro _
          rw [FreshData, sameFs, show (s.filesystem (s.node root).fs).ops = .fat16 from fat16, isNode]
          exact small entry List.mem_cons_self
        have named : ∀ other ∈ s.childNames root, related node.name other := by
          rw [isName]
          exact beside entry List.mem_cons_self
        rw [← isNode]
        -- what the rest of the loop needs of the tree with the new node
        have goesOn : ∀ after : Vfs, Alters related typed s after →
            block ∈ after.nodes → root ∈ after.nodes → after.filesystem = s.filesystem →
            (∃ firstChild nextSibling, after.node root = { s.node root
            with firstChild, nextSibling }) → after.children root = s.children root ++ [block] →
            (after.node block).name = entry.name →
            (∀ child ∈ s.nodes, (after.node child).name = (s.node child).name) →
            Chain related typed s (linkMounted root rest blocks.tail block after) := by
          rintro after alters blockKnown rootKnown filesystem ⟨firstChild, nextSibling, body⟩ lists
            newName oldNames
          refine Relation.ReflTransGen.head alters
            (ih (alters.keeps tree).1 rootKnown ?_ ?_ ?_ laterSmall laterApart ?_)
          · rw [body]
            exact directory
          · change (after.filesystem (after.node root).fs).ops = _
            rw [filesystem, body]
            exact fat16
          · rw [lists, List.getLastD_concat]
          · intro other here name there
            rw [childNames, lists, List.map_append, List.map_singleton, newName] at there
            rcases List.mem_append.mp there with old | new
            · refine beside other (List.mem_cons_of_mem _ here) name ?_
              obtain ⟨child, listed, rfl⟩ := List.mem_map.mp old
              rw [oldNames child (tree.child root member child listed).1]
              exact List.mem_map_of_mem listed
            · rw [List.mem_singleton.mp new]
              exact first other here
        split
        next isFirst =>
          subst isFirst
          have noChildren : s.children root = [] := by
            rcases List.eq_nil_or_concat (s.children root) with none | ⟨front, child, shape⟩
            · exact none
            · rw [shape, List.concat_eq_append, List.getLastD_concat] at ends
              have listed : child ∈ s.children root := by simp [shape]
              exact absurd (ends ▸ (tree.child root member child listed).1) tree.nonNull
          have noFirst : (s.node root).firstChild = 0 := by
            have linked := tree.linked root member
            rw [noChildren] at linked
            exact linked
          have links := @Alters.link related typed s root block node fresh member directory under
            sameFs empty owns named
          obtain ⟨linked, lists⟩ := tree.link fresh member directory under sameFs empty
          have same : ({ s with node := Function.update s.node block node, nodes :=
            block :: s.nodes } : Vfs).modify
              root (fun old => { old with firstChild := block }) = s.link root block node := by
            rw [link, noFirst, ← ends']
          rw [same]
          refine goesOn _ links List.mem_cons_self (List.mem_cons_of_mem _ member) rfl
            ⟨_, _, link_same rootApart rootApart⟩ ?_ ?_ fun child known => ?_
          · rw [lists root (List.mem_cons_of_mem _ member), if_neg rootApart, if_pos rfl, noChildren]
            rfl
          · rw [link_block rootApart]
            exact isName
          · rw [link_same rootApart (fresh.apart known)]
        next notFirst =>
          have isLast : (s.children root).getLast? = some last := by
            rcases List.eq_nil_or_concat (s.children root) with none | ⟨front, child, shape⟩
            · rw [none] at ends
              exact absurd ends.symm notFirst
            · rw [shape, List.concat_eq_append] at ends ⊢
              rw [List.getLastD_concat] at ends
              rw [List.getLast?_concat, ends]
          have lastApart := fresh.apart (tree.child root member last (List.mem_of_getLast? isLast)).1
          have appends := @Alters.append related typed s root last block node fresh member under
            sameFs empty ends' isLast owns named
          obtain ⟨appended, lists⟩ := tree.append fresh member under sameFs empty ends' isLast
          change Chain related typed s
            (linkMounted root rest blocks.tail block (s.linkBehind last block node))
          refine goesOn _ appends List.mem_cons_self (List.mem_cons_of_mem _ member) rfl
            ⟨_, _, linkBehind_same rootApart⟩ ?_ ?_ fun child known => ?_
          · rw [lists root (List.mem_cons_of_mem _ member), if_neg rootApart, if_pos rfl]
          · rw [linkBehind_block lastApart]
            exact isName
          · rw [linkBehind_same (fresh.apart known)]

theorem mountSlots_small {sector : Mem} {remaining slot : Nat} :
    ∀ entry ∈ (mountSlots sector remaining slot).1, entry.cluster < 2 ^ 16 := by
  induction remaining generalizing slot with
  | zero =>
      intro entry member
      cases member
  | succ remaining ih =>
      intro entry member
      rw [mountSlots] at member
      split at member
      next => cases member
      next =>
        dsimp only at member
        split at member
        next => exact ih entry member
        next =>
          rcases List.mem_cons.mp member with rfl | later
          · exact sector.readLE_lt _ 2
          · exact ih entry later

theorem mountRoot_small {d : Disk} {remaining sectorIndex : Nat} :
    ∀ entry ∈ (mountRoot v remaining sectorIndex d).1, entry.cluster < 2 ^ 16 := by
  induction remaining generalizing sectorIndex d with
  | zero =>
      intro entry member
      cases member
  | succ remaining ih =>
      intro entry member
      rw [mountRoot] at member
      split at member
      next => exact ih entry member
      next sector read _ =>
        have slots := @mountSlots_small sector 16 0
        split at member
        next nodes found =>
          rw [found] at slots
          exact slots entry member
        next nodes found =>
          rw [found] at slots
          rcases List.mem_append.mp member with here | later
          · exact slots entry here
          · exact ih entry later

theorem fat16CreateFs_chain (tree : s.Tree)
    (apart : (fat16Create v s.disk).1.Pairwise fun earlier later => related later.name
    earlier.name) : Chain related typed s (s.fat16CreateFs v fs root blocks).2 := by
  rw [fat16CreateFs]
  split
  next => exact .refl
  next got =>
    split
    next => exact .refl
    next gotRoot =>
      have small := @mountRoot_small v s.disk v.rootSectors 0
      rcases created : fat16Create v s.disk with ⟨entries, disk⟩
      rw [show mountRoot v v.rootSectors 0 s.disk = (entries, disk) from created] at small
      rw [created] at apart
      have adds : Alters related typed { s with disk } (({ s with disk }).addFilesystem fs root .fat16) :=
        addFilesystem_alters (s := { s with disk }) got gotRoot .fat16
      have diskTree : ({ s with disk } : Vfs).Tree := SameTree.tree (s := s) ⟨rfl, rfl, rfl, rfl, rfl⟩ tree
      have fresh := kmalloc_fresh got
      have freshRoot := kmalloc_fresh (not_or.mp gotRoot).1
      obtain ⟨added, lists⟩ := @Tree.addFilesystem { s with disk } fs root .fat16 diskTree fresh freshRoot
      have made : (({ s with disk } : Vfs).addFilesystem fs root .fat16).node root = {
          name := [47], isDirectory := true, size := 0, fsData := 0, fs, parent := 0, firstChild := 0
          nextSibling := 0 } := Function.update_self _ _ _
      have noChildren := (lists root List.mem_cons_self).trans (if_pos rfl)
      dsimp only
      refine Relation.ReflTransGen.head (.disk disk) (Relation.ReflTransGen.head adds
        (linkMounted_chain added List.mem_cons_self ?_ ?_ ?_ small apart ?_))
      · rw [made]
      · change ((({ s with disk } : Vfs).addFilesystem fs root .fat16).filesystem
          ((({ s with disk } : Vfs).addFilesystem fs root .fat16).node root).fs).ops = _
        rw [made, addFilesystem]
        dsimp only
        rw [Function.update_self]
      · rw [noChildren]
        rfl
      · intro entry _ other here
        rw [childNames, noChildren] at here
        cases here

end Filesystems

end Vfs

end Szczupak
