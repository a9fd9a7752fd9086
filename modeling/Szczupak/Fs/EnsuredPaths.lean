import Szczupak.Fs.FileReports

/-!
`vfs_ensure_directory` against `vfs_resolve_path`.  A walk goes down only, so what it makes lies
below every directory that it has passed, and a second walk comes the same way; the root of the
volume alone may give a new directory a name that the walk does not find again.
-/

namespace Szczupak

namespace Vfs

inductive Trail (s : Vfs) : Nat → List Nat → Prop
  | root {dir : Nat} (isRoot : s.IsRoot dir) : Trail s dir []
  | child {dir child : Nat} {above : List Nat} (trail : Trail s dir above)
      (listed : child ∈ s.children dir) : Trail s child (dir :: above)

section Trail

variable {s after : Vfs} {dir node : Nat} {above other : List Nat}

theorem Trail.known (tree : s.Tree) (trail : Trail s node above) : node ∈ s.nodes := by
  induction trail with
  | root isRoot => exact isRoot.1
  | child _ listed ih => exact (tree.child _ ih _ listed).1

theorem Trail.unique (tree : s.Tree) (trail : Trail s node above) (again : Trail s node other) :
    above = other := by
  induction trail generalizing other with
  | root isRoot =>
      cases again with
      | root => rfl
      | child upper listed => exact absurd isRoot.2.2 (tree.parent_nonNull (upper.known tree) listed)
  | child upper listed ih =>
      cases again with
      | root isRoot => exact absurd isRoot.2.2 (tree.parent_nonNull (upper.known tree) listed)
      | child otherUpper otherListed =>
          have same := (tree.child _ (upper.known tree) _ listed).2
          have otherSame := (tree.child _ (otherUpper.known tree) _ otherListed).2
          have dirs := same.symm.trans otherSame
          subst dirs
          rw [ih otherUpper]

theorem Trail.upper (trail : Trail s node above) (member : dir ∈ above) :
    ∃ shorter, Trail s dir shorter ∧ shorter.length < above.length := by
  induction trail with
  | root => cases member
  | child upper listed ih =>
      rcases List.mem_cons.mp member with rfl | later
      · exact ⟨_, upper, by simp⟩
      · obtain ⟨shorter, its, less⟩ := ih later
        exact ⟨shorter, its, less.trans (by simp)⟩

theorem Trail.apart (tree : s.Tree) (trail : Trail s node above) : node ∉ above := by
  intro member
  obtain ⟨shorter, its, less⟩ := trail.upper member
  rw [its.unique tree trail] at less
  exact Nat.lt_irrefl _ less

theorem Trail.parent_some (trail : Trail s node (dir :: above)) (tree : s.Tree) :
    (s.node node).parent ≠ 0 := by
  cases trail with
  | child upper listed => exact tree.parent_nonNull (upper.known tree) listed

end Trail

/-- Every node stays as it is; a directory may have new children in front of the old ones. -/
structure KeepsNodes (s after : Vfs) : Prop where
  root : after.root = s.root
  nodes : ∀ node ∈ s.nodes, node ∈ after.nodes
  body : ∀ node ∈ s.nodes, after.node node =
    { s.node node with firstChild := (after.node node).firstChild }
  children : ∀ dir ∈ s.nodes, ∃ made, after.children dir = made ++ s.children dir

section Keeps

variable {s middle after : Vfs} {dir node parent block : Nat} {above : List Nat} {name : List UInt8}
  {isDirectory : Bool}

theorem KeepsNodes.refl (s : Vfs) : KeepsNodes s s :=
  ⟨rfl, fun _ known => known, fun _ _ => rfl, fun _ _ => ⟨[], rfl⟩⟩

theorem KeepsNodes.trans (first : KeepsNodes s middle) (second : KeepsNodes middle after) :
    KeepsNodes s after := by
  constructor
  · exact second.root.trans first.root
  · exact fun node known => second.nodes node (first.nodes node known)
  · intro node known
    rw [second.body node (first.nodes node known), first.body node known]
  · intro dir known
    obtain ⟨made, lists⟩ := first.children dir known
    obtain ⟨more, later⟩ := second.children dir (first.nodes dir known)
    exact ⟨more ++ made, by rw [later, lists, List.append_assoc]⟩

theorem KeepsNodes.trail (keeps : KeepsNodes s after) (tree : s.Tree) (trail : Trail s node above) :
    Trail after node above := by
  induction trail with
  | @root dir isRoot =>
      refine .root ⟨keeps.nodes dir isRoot.1, ?_, ?_⟩
      · rw [keeps.body dir isRoot.1]
        exact isRoot.2.1
      · rw [keeps.body dir isRoot.1]
        exact isRoot.2.2
  | child upper listed ih =>
      refine .child ih ?_
      obtain ⟨made, lists⟩ := keeps.children _ (upper.known tree)
      rw [lists]
      exact List.mem_append_right _ listed

theorem Creates.keeps (tree : s.Tree) (member : parent ∈ s.nodes)
    (creates : Creates s parent block name isDirectory (some node, after)) :
    KeepsNodes s after ∧ after.children node = [] ∧ (after.node node).parent = parent ∧
      (∀ dir ∈ s.nodes, dir ≠ parent → after.children dir = s.children dir) := by
  cases creates with
  | @makes before made same steps fresh directory under sameFs empty owns named kind =>
      have known : parent ∈ before.nodes := same.nodes ▸ member
      have apart := fresh.apart known
      obtain ⟨_, lists⟩ := (same.tree tree).link fresh known
        (by rw [same.node]; exact directory) under (by rw [same.node]; exact sameFs) empty
      have old : ∀ dir ∈ s.nodes, (before.link parent node made).children dir =
          if dir = parent then node :: s.children parent else s.children dir := by
        intro dir member
        have here : dir ∈ before.nodes := same.nodes ▸ member
        rw [lists dir (List.mem_cons_of_mem _ here), if_neg (fresh.apart here), same.children]
      refine ⟨⟨same.root, ?_, ?_, ?_⟩, ?_, ?_, ?_⟩
      · exact fun other known => List.mem_cons_of_mem _ (same.nodes ▸ known)
      · intro other known
        rw [link_same apart (fresh.apart (same.nodes ▸ known)), same.node]
      · intro dir known
        rw [old dir known]
        split
        next isParent => exact ⟨[node], by rw [isParent]; rfl⟩
        next => exact ⟨[], rfl⟩
      · rw [lists node List.mem_cons_self, if_pos rfl]
      · rw [link_block apart]
        exact under
      · intro dir known different
        rw [old dir known, if_neg different]

end Keeps

section Lookup

variable {v : Volume} {s after : Vfs} {dir node block : Nat} {name token : List UInt8}
  {test : List UInt8 → Bool}

theorem findChildWith_list (some : dir ≠ 0) (directory : (s.node dir).isDirectory = true) :
    s.findChildWith dir test = (s.children dir).find? fun child => test (s.node child).name := by
  rw [findChildWith, directory, if_neg (not_or.mpr ⟨some, by decide⟩)]

theorem KeepsNodes.findEither (keeps : KeepsNodes s after) (tree : s.Tree) (member : dir ∈ s.nodes)
    (lists : after.children dir = s.children dir) : after.findEither dir name =
    s.findEither dir name := by
  have finds : ∀ test, after.findChildWith dir test = s.findChildWith dir test := by
    intro test
    have kind : (after.node dir).isDirectory = (s.node dir).isDirectory := by
      rw [keeps.body dir member]
    rw [findChildWith, findChildWith, kind, lists]
    split
    · rfl
    · refine List.find?_congr fun child listed => ?_
      rw [keeps.body child (tree.child dir member child listed).1]
  rw [Vfs.findEither, Vfs.findEither, vfsFindChild, vfsFindChild, vfsFindChildNocase,
    vfsFindChildNocase, finds, finds]

theorem KeepsNodes.findMade (keeps : KeepsNodes s after) (tree : s.Tree) (member : dir ∈ s.nodes)
    (directory : (s.node dir).isDirectory = true) (missing : s.findEither dir name = none)
    (lists : after.children dir = node :: s.children dir) : after.findEither dir name =
      if streqNocase (after.node node).name name = true then some node else none := by
  have nonNull : dir ≠ 0 := fun null => tree.nonNull (null ▸ member)
  have kind : (after.node dir).isDirectory = true := by
    rw [keeps.body dir member]
    exact directory
  have others : ∀ child ∈ s.children dir, streqNocase (after.node child).name name = false := by
    intro child listed
    rw [keeps.body child (tree.child dir member child listed).1]
    exact findEither_none nonNull directory missing _ (List.mem_map_of_mem listed)
  have nocase : (s.children dir).find? (fun child => streqNocase (after.node child).name name) = none :=
    List.find?_eq_none.mpr fun child listed => by rw [others child listed]; exact Bool.false_ne_true
  have exactly : (s.children dir).find? (fun child => (after.node child).name == name) = none := by
    refine List.find?_eq_none.mpr fun child listed same => ?_
    have unlike := others child listed
    rw [beq_iff_eq.mp same, streqNocase_refl] at unlike
    cases unlike
  rw [Vfs.findEither, vfsFindChild, vfsFindChildNocase, findChildWith_list nonNull kind,
    findChildWith_list nonNull kind, lists, List.find?_cons, List.find?_cons, exactly, nocase]
  by_cases same : (after.node node).name = name
  · simp [same, streqNocase_refl]
  · have differs : ((after.node node).name == name) = false := by simpa using same
    rw [differs]
    cases agree : streqNocase (after.node node).name name with
    | true => simp
    | false => simp

theorem createdName_below (short : token.length < maxFilename) (below : (s.node dir).parent ≠ 0)
    (made : s.vfsCreateDirectory v dir token block = (some node, after)) :
    streqNocase (s.createdName dir token true) token = true := by
  refine createdName_kept short fun fat16 => ?_
  have noRoot : s.fat16Root dir = false := by simp [fat16Root, below]
  rw [vfsCreateDirectory] at made
  split at made
  · cases made
  · simp [fat16, fat16CreateDirNode, noRoot] at made

end Lookup

def Walks (s : Vfs) : List (List UInt8) → Nat → Prop
  | [], _ => True
  | token :: rest, current =>
      token.length < maxFilename ∧
        if token = [46] then Walks s rest current
        else token ≠ [46, 46] ∧ ∃ child, s.findEither current token = some child ∧
          (s.node child).isDirectory = true ∧ Walks s rest child

section Walk

variable {v : Volume} {s after : Vfs} {current : Nat} {above blocks : List Nat}
  {path token : List UInt8} {tokens : List (List UInt8)} {rest : List (List UInt8)}

theorem ensureFrom_again (walks : Walks s tokens current) :
    ensureFrom v tokens current blocks s = (true, s) := by
  induction tokens generalizing current with
  | nil => rfl
  | cons token rest ih =>
      obtain ⟨short, step⟩ := walks
      rw [ensureFrom, if_neg (Nat.not_le.mpr short)]
      by_cases dot : token = [46]
      · rw [if_pos dot] at step ⊢
        exact ih step
      · rw [if_neg dot] at step ⊢
        obtain ⟨dots, child, found, directory, rest⟩ := step
        rw [if_neg dots, found]
        dsimp only
        rw [if_pos directory]
        exact ih rest

theorem Walks.resolves (walks : Walks s tokens current)
    (directory : (s.node current).isDirectory = true) :
    ∃ node, tokens.foldlM s.enter current = some node ∧ (s.node node).isDirectory = true := by
  induction tokens generalizing current with
  | nil => exact ⟨current, rfl, directory⟩
  | cons token rest ih =>
      obtain ⟨short, step⟩ := walks
      rw [List.foldlM_cons, enter, if_neg (Nat.not_le.mpr short)]
      by_cases dot : token = [46]
      · rw [if_pos dot] at step ⊢
        exact ih step directory
      · rw [if_neg dot] at step ⊢
        obtain ⟨dots, child, found, isDirectory, rest⟩ := step
        rw [if_neg dots, found]
        exact ih rest isDirectory

inductive EnsureStep (v : Volume) (s : Vfs) (token : List UInt8) (rest : List (List UInt8))
    (current : Nat) (blocks : List Nat) (after : Vfs) : Prop
  | dot (isDot : token = [46]) (run : ensureFrom v rest current blocks s = (true, after))
  | found {child : Nat} (notDot : token ≠ [46]) (notDots : token ≠ [46, 46])
      (finds : s.findEither current token = some child) (directory : (s.node child).isDirectory = true)
      (run : ensureFrom v rest child blocks s = (true, after))
  | made {child : Nat} {middle : Vfs} (notDot : token ≠ [46]) (notDots : token ≠ [46, 46])
      (missing : s.findEither current token = none)
      (makes : s.vfsCreateDirectory v current token (blocks.headD 0) = (some child, middle))
      (directory : (middle.node child).isDirectory = true)
      (run : ensureFrom v rest child blocks.tail middle = (true, after))

theorem ensureFrom_step (ensured : ensureFrom v (token :: rest) current blocks s = (true, after)) :
    token.length < maxFilename ∧ EnsureStep v s token rest current blocks after := by
  rw [ensureFrom] at ensured
  split at ensured
  next => cases ensured
  next short =>
    refine ⟨Nat.lt_of_not_le short, ?_⟩
    split at ensured
    next isDot => exact .dot isDot ensured
    next notDot =>
      split at ensured
      next => cases ensured
      next notDots =>
        split at ensured
        next child finds =>
          split at ensured
          next directory => exact .found notDot notDots finds directory ensured
          next => cases ensured
        next missing =>
          split at ensured
          next => cases ensured
          next child middle makes =>
            split at ensured
            next directory => exact .made notDot notDots missing makes directory ensured
            next => cases ensured

theorem ensureFrom_keeps (tree : s.Tree) (trail : Trail s current above)
    (ensured : ensureFrom v tokens current blocks s = (true, after)) :
    after.Tree ∧ KeepsNodes s after ∧ ∀ dir ∈ above, after.children dir = s.children dir := by
  induction tokens generalizing s current above blocks with
  | nil =>
      cases ensured
      exact ⟨tree, KeepsNodes.refl _, fun _ _ => rfl⟩
  | cons token rest ih =>
      obtain ⟨short, step⟩ := ensureFrom_step ensured
      cases step with
      | dot isDot run => exact ih tree trail run
      | found notDot notDots finds directory run =>
          obtain ⟨later, keeps, same⟩ := ih tree (trail.child (findEither_some finds).2) run
          exact ⟨later, keeps, fun dir member => same dir (List.mem_cons_of_mem _ member)⟩
      | @made child middle notDot notDots missing makes directory run =>
          have creates := @vfsCreateDirectory_creates v s current (blocks.headD 0) token
          rw [makes] at creates
          have member := trail.known tree
          obtain ⟨middleTree, rfl, _, _, lists, _⟩ := creates.child tree member
          obtain ⟨keeps, _, _, others⟩ := creates.keeps tree member
          have down : Trail middle (blocks.headD 0) (current :: above) :=
            .child (keeps.trail tree trail) (by rw [lists]; exact List.mem_cons_self)
          obtain ⟨later, keepsLater, same⟩ := ih middleTree down run
          refine ⟨later, keeps.trans keepsLater, fun dir higher => ?_⟩
          obtain ⟨_, its, _⟩ := trail.upper higher
          have different : dir ≠ current := fun equal => trail.apart tree (equal ▸ higher)
          rw [same dir (List.mem_cons_of_mem _ higher), others dir (its.known tree) different]

/-- The first name that the walk looks up in the root is found there, or the directory that is
made for it keeps it up to case. -/
def KeepsFirst (s : Vfs) (tokens : List (List UInt8)) (current : Nat) : Prop :=
  ∀ token ∈ tokens.find? (· != [46]), (s.findEither current token).isSome = true ∨
    streqNocase (s.createdName current token true) token = true

theorem keepsFirst_dot (isDot : token = [46]) :
    KeepsFirst s (token :: rest) current ↔ KeepsFirst s rest current := by
  rw [KeepsFirst, List.find?_cons, isDot]
  rfl

theorem keepsFirst_name (notDot : token ≠ [46]) :
    KeepsFirst s (token :: rest) current ↔ (s.findEither current token).isSome = true ∨
      streqNocase (s.createdName current token true) token = true := by
  have passes : (token != [46]) = true := by simpa using notDot
  rw [KeepsFirst, List.find?_cons, passes]
  simp

theorem made_found {child : Nat} {middle : Vfs} (tree : s.Tree)
    (trail : Trail s current above) (directory : (s.node current).isDirectory = true)
    (missing : s.findEither current token = none)
    (makes : s.vfsCreateDirectory v current token (blocks.headD 0) = (some child, middle))
    (run : ensureFrom v rest child blocks.tail middle = (true, after)) :
    middle.Tree ∧ Trail middle child (current :: above) ∧ after.findEither current token =
      if streqNocase (s.createdName current token true) token = true then some child else none := by
  have creates := @vfsCreateDirectory_creates v s current (blocks.headD 0) token
  rw [makes] at creates
  have member := trail.known tree
  obtain ⟨middleTree, rfl, known, _, lists, _, named, _⟩ := creates.child tree member
  obtain ⟨keeps, _⟩ := creates.keeps tree member
  have down : Trail middle (blocks.headD 0) (current :: above) :=
    .child (keeps.trail tree trail) (by rw [lists]; exact List.mem_cons_self)
  obtain ⟨_, keepsLater, same⟩ := ensureFrom_keeps middleTree down run
  refine ⟨middleTree, down, ?_⟩
  have here : after.children current = blocks.headD 0 :: s.children current := by
    rw [same current List.mem_cons_self, lists]
  have name : (after.node (blocks.headD 0)).name = s.createdName current token true := by
    rw [keepsLater.body _ known, named]
  rw [(keeps.trans keepsLater).findMade tree member directory missing here, name]

theorem ensureFrom_walks (tree : s.Tree) (trail : Trail s current above)
    (directory : (s.node current).isDirectory = true)
    (first : (s.node current).parent = 0 → KeepsFirst s tokens current)
    (ensured : ensureFrom v tokens current blocks s = (true, after)) : Walks after tokens current := by
  induction tokens generalizing s current above blocks with
  | nil => trivial
  | cons token rest ih =>
      obtain ⟨short, step⟩ := ensureFrom_step ensured
      refine ⟨short, ?_⟩
      cases step with
      | dot isDot run =>
          rw [if_pos isDot]
          exact ih tree trail directory (fun top => (keepsFirst_dot isDot).mp (first top)) run
      | @found child notDot notDots finds isDirectory run =>
          have down := trail.child (findEither_some finds).2
          obtain ⟨_, keeps, same⟩ := ensureFrom_keeps tree down run
          have member := trail.known tree
          have known := down.known tree
          rw [if_neg notDot]
          refine ⟨notDots, child, ?_, ?_, ?_⟩
          · rw [keeps.findEither tree member (same current List.mem_cons_self)]
            exact finds
          · rw [keeps.body child known]
            exact isDirectory
          · exact ih tree down isDirectory (fun top => absurd top (down.parent_some tree)) run
      | @made child middle notDot notDots missing makes isDirectory run =>
          obtain ⟨middleTree, down, finds⟩ := made_found tree trail directory missing makes run
          obtain ⟨_, keeps, _⟩ := ensureFrom_keeps middleTree down run
          have kept : streqNocase (s.createdName current token true) token = true := by
            by_cases top : (s.node current).parent = 0
            · rcases (keepsFirst_name notDot).mp (first top) with known | kept
              · rw [missing] at known
                cases known
              · exact kept
            · exact createdName_below short top makes
          rw [if_neg notDot]
          refine ⟨notDots, child, ?_, ?_, ?_⟩
          · rw [finds, if_pos kept]
          · rw [keeps.body child (down.known middleTree)]
            exact isDirectory
          · exact ih middleTree down isDirectory (fun top => absurd top (down.parent_some middleTree)) run

theorem ensureFrom_lost (tree : s.Tree) (trail : Trail s current above)
    (directory : (s.node current).isDirectory = true) (loses : ¬KeepsFirst s tokens current)
    (ensured : ensureFrom v tokens current blocks s = (true, after)) :
    tokens.foldlM after.enter current = none := by
  induction tokens generalizing blocks with
  | nil => exact absurd (fun _ none => by cases none) loses
  | cons token rest ih =>
      obtain ⟨short, step⟩ := ensureFrom_step ensured
      rw [List.foldlM_cons, enter, if_neg (Nat.not_le.mpr short)]
      cases step with
      | dot isDot run =>
          rw [if_pos isDot]
          exact ih (fun keeps => loses ((keepsFirst_dot isDot).mpr keeps)) run
      | found notDot notDots finds isDirectory run =>
          refine absurd ((keepsFirst_name notDot).mpr (Or.inl ?_)) loses
          rw [finds]
          rfl
      | made notDot notDots missing makes isDirectory run =>
          obtain ⟨_, _, finds⟩ := made_found tree trail directory missing makes run
          have changed : ¬streqNocase (s.createdName current token true) token = true := fun kept =>
            loses ((keepsFirst_name notDot).mpr (Or.inr kept))
          rw [if_neg notDot, if_neg notDots, finds, if_neg changed]
          rfl

structure Ensured (v : Volume) (s after : Vfs) (path : List UInt8) : Prop where
  leads : after.LeadsTo path true
  keeps : KeepsNodes s after
  again : ∀ blocks, after.vfsEnsureDirectory v path blocks = (true, after)

/-- A call of `vfs_ensure_directory` that returns true has done so exactly when the first name of
the path is in the root directory, or is one that the new directory keeps. -/
theorem ensured_iff (tree : s.Tree) (ensured : s.vfsEnsureDirectory v path blocks = (true, after)) :
    Ensured v s after path ↔ KeepsFirst s (pathTokens path) s.root := by
  rw [vfsEnsureDirectory] at ensured
  split at ensured
  next => cases ensured
  next mounted =>
    have isRoot := tree.root.resolve_left (not_or.mp mounted).1
    have trail : Trail s s.root [] := .root isRoot
    obtain ⟨_, keeps, _⟩ := ensureFrom_keeps tree trail ensured
    have guard : ¬(after.root = 0 ∨ path.head? ≠ some 47) := by
      rw [keeps.root]
      exact mounted
    constructor
    · intro did
      by_contra loses
      obtain ⟨node, resolved, _⟩ := did.leads
      rw [vfsResolvePath, if_neg guard, keeps.root,
        ensureFrom_lost tree trail isRoot.2.1 loses ensured] at resolved
      cases resolved
    · intro first
      have walks := ensureFrom_walks tree trail isRoot.2.1 (fun _ => first) ensured
      have directory : (after.node s.root).isDirectory = true := by
        rw [keeps.body _ isRoot.1]
        exact isRoot.2.1
      refine ⟨?_, keeps, fun blocks => ?_⟩
      · obtain ⟨node, resolved, kind⟩ := walks.resolves directory
        refine ⟨node, ?_, kind⟩
        rw [vfsResolvePath, if_neg guard, keeps.root]
        exact resolved
      · rw [vfsEnsureDirectory, if_neg guard, keeps.root]
        exact ensureFrom_again walks

end Walk

theorem booted_tree : (bootFilesystem smallVolume formattedDisk freshBlocks).Tree := by
  have entries : (fat16Create smallVolume formattedDisk).1 = [] := by decide
  exact (bootFilesystem_settled unlike_separates (by rw [entries]; exact List.Pairwise.nil)).tree

theorem ensured_below_tmp : ∃ after,
    (bootFilesystem smallVolume formattedDisk freshBlocks).vfsEnsureDirectory smallVolume
        [47, 116, 109, 112, 47, 97] [13] = (true, after) ∧
      Ensured smallVolume (bootFilesystem smallVolume formattedDisk freshBlocks) after
        [47, 116, 109, 112, 47, 97] := by
  have succeeds : ((bootFilesystem smallVolume formattedDisk freshBlocks).vfsEnsureDirectory
      smallVolume [47, 116, 109, 112, 47, 97] [13]).1 = true := by decide
  have found : ((bootFilesystem smallVolume formattedDisk freshBlocks).findEither
      (bootFilesystem smallVolume formattedDisk freshBlocks).root [116, 109, 112]).isSome = true := by decide
  refine ⟨_, Prod.ext succeeds rfl, (ensured_iff booted_tree (Prod.ext succeeds rfl)).mpr ?_⟩
  rintro token ⟨⟩
  exact Or.inl found

theorem ensured_under_other_name : ∃ after,
    (bootFilesystem smallVolume formattedDisk freshBlocks).Tree ∧
      (bootFilesystem smallVolume formattedDisk freshBlocks).vfsEnsureDirectory smallVolume
        [47, 100, 105, 114, 101, 99, 116, 111, 114, 121] [13] = (true, after) ∧
      ¬Ensured smallVolume (bootFilesystem smallVolume formattedDisk freshBlocks) after
        [47, 100, 105, 114, 101, 99, 116, 111, 114, 121] := by
  have succeeds : ((bootFilesystem smallVolume formattedDisk freshBlocks).vfsEnsureDirectory
      smallVolume [47, 100, 105, 114, 101, 99, 116, 111, 114, 121] [13]).1 = true := by decide
  have lost : ((bootFilesystem smallVolume formattedDisk freshBlocks).vfsEnsureDirectory smallVolume
      [47, 100, 105, 114, 101, 99, 116, 111, 114, 121] [13]).2.vfsResolvePath
        [47, 100, 105, 114, 101, 99, 116, 111, 114, 121] = none := by decide
  refine ⟨_, booted_tree, Prod.ext succeeds rfl, fun did => ?_⟩
  obtain ⟨node, resolved, _⟩ := did.leads
  cases lost.symm.trans resolved

end Vfs

end Szczupak
