import Szczupak.Lib.Transition
import Szczupak.Fs.RootDirectory
import Szczupak.Fs.VfsPaths

/-!
The file calls from boot on.  `Settled` is the invariant of every run: the tree has its shape
and the names of siblings are related.  With one spelling for each name, the two ways to look a
node up agree.
-/

namespace Szczupak

namespace Vfs

structure Settled (related : List UInt8 → List UInt8 → Prop) (s : Vfs) : Prop where
  tree : s.Tree
  apart : NamesApart related s

structure Separates (related : List UInt8 → List UInt8 → Prop) : Prop where
  symm : ∀ left right, related left right → related right left
  different : ∀ left right, streqNocase right left = false → related left right

theorem sameSpelling_separates : Separates SameSpelling :=
  ⟨sameSpelling_symm, fun left right unlike => sameSpelling_symm right left fun agree =>
    absurd agree (by rw [unlike]; exact Bool.false_ne_true)⟩

theorem unlike_separates : Separates Unlike :=
  ⟨unlike_symm, fun left right => unlike_symm right left⟩

section Boot

variable {v : Volume} {s after : Vfs} {related : List UInt8 → List UInt8 → Prop}
  {fs root block : Nat} {path name token : List UInt8}

theorem Settled.chain (separates : Separates related) (settled : Settled related s) {typed : Prop}
    (chain : Chain related typed s after) : Settled related after :=
  ⟨chain.tree settled.tree, chain.namesApart settled.tree separates.symm settled.apart⟩

theorem kept_related (separates : Separates related) {made other : List UInt8}
    (kept : streqNocase made name = true) (unlike : streqNocase other name = false) :
    related made other := by
  refine separates.different made other ?_
  cases agree : streqNocase other made with
  | false => rfl
  | true => exact absurd (streqNocase_trans agree kept) (by rw [unlike]; exact Bool.false_ne_true)

theorem createdName_kept {parent : Nat} {isDirectory : Bool} (short : name.length < maxFilename)
    (folds : s.ops parent = .fat16 → streqNocase (s.createdName parent name isDirectory) name =
    true) : streqNocase (s.createdName parent name isDirectory) name = true := by
  cases isOps : s.ops parent with
  | fat16 => exact folds isOps
  | tmpfs =>
      rw [createdName, isOps, List.take_of_length_le (Nat.le_sub_one_of_lt short)]
      exact streqNocase_refl

theorem ensureAll_settled (separates : Separates related) {paths : List (List UInt8)}
    {blocks : List (List Nat)} (kept : ∀ path ∈ paths, ∀ token ∈ pathTokens path,
      streqNocase (createdDirName (fat16NameTo83 token)) token = true)
    (settled : Settled related s) : Settled related (ensureAll v paths blocks s) := by
  induction paths generalizing s blocks with
  | nil => exact settled
  | cons path rest ih =>
      refine ih (fun other member => kept other (List.mem_cons_of_mem _ member)) ?_
      rw [vfsEnsureDirectory]
      split
      next => exact settled
      next mounted =>
        have member := (settled.tree.root.resolve_left (not_or.mp mounted).1).1
        have ensures : Chain related False s
            (ensureFrom v (pathTokens path) s.root (blocks.headD []) s).2 := by
          refine @ensureFrom_chain v s related False (blocks.headD []) (pathTokens path) s.root
            settled.tree member False.elim fun s current token isToken other short unlike => ?_
          refine kept_related separates (createdName_kept short fun fat16 => ?_) unlike
          rw [createdName, fat16]
          exact kept path List.mem_cons_self token isToken
        exact settled.chain separates ensures

theorem mountTmpfs_settled (separates : Separates related) (settled : Settled related s) :
    Settled related (s.mountTmpfs fs root block path).2 := by
  rw [mountTmpfs]
  have created := settled.chain separates (@tmpfsCreate_chain s related False fs root)
  split
  next made =>
    rw [made] at created
    exact created
  next tmpfs mounted _ made =>
    rw [made] at created
    dsimp only
    rw [tmpfsCreate] at made
    split at made
    next => cases made; contradiction
    next got =>
      split at made
      next => cases made; contradiction
      next gotRoot =>
        cases made
        have freshRoot := kmalloc_fresh (not_or.mp gotRoot).1
        have isFs : (s.addFilesystem fs root .tmpfs).filesystem fs = { ops := .tmpfs, root } :=
          Function.update_self _ _ _
        have isRoot : (s.addFilesystem fs root .tmpfs).IsRoot root := by
          have roots := created.tree.roots fs List.mem_cons_self
          rw [isFs] at roots
          exact roots
        have bare : ((s.addFilesystem fs root .tmpfs).node root).firstChild = 0 := by
          rw [addFilesystem]
          dsimp only
          rw [Function.update_self]
        have notReached : ∀ node, Reached (s.addFilesystem fs root .tmpfs) node → node ≠ root := by
          intro node reached
          cases reached with
          | root mounted =>
              intro same
              exact freshRoot.nodes (same ▸ (settled.tree.root.resolve_left mounted).1)
          | child above listed =>
              rintro rfl
              exact created.tree.root_unlisted isRoot (above.known created.tree) listed
        have mounts : Chain related False (s.addFilesystem fs root .tmpfs)
            ((s.addFilesystem fs root .tmpfs).vfsMountAt fs path block).2 := by
          refine @vfsMountAt_chain _ _ _ _ block path created.tree List.mem_cons_self
            (fun _ place found => ?_) False.elim fun name other => separates.different name other
          rw [isFs]
          exact ⟨fun _ _ => ⟨bare, notReached _ (mountParent_some created.tree found).1⟩, fun _ _ _ => bare⟩
        exact created.chain separates mounts

theorem init_settled {disk : Disk} : Settled related (init disk) := ⟨init_tree, nofun⟩

theorem bootFilesystem_settled (separates : Separates related) {disk : Disk} {b : BootBlocks}
    (entries : (fat16Create v disk).1.Pairwise fun earlier later =>
    related later.name earlier.name) : Settled related (bootFilesystem v disk b) := by
  have made := (@init_settled related disk).chain separates
    (@fat16CreateFs_chain v (init disk) related False b.fat b.fatRoot b.entries init_tree entries)
  have known : ∀ fat s, (init disk).fat16CreateFs v b.fat b.fatRoot b.entries = (fat, s) → fat ≠ 0 →
      fat ∈ s.filesystems := by
    intro fat s created some
    rw [fat16CreateFs] at created
    split at created
    next => cases created; contradiction
    next =>
      split at created
      next => cases created; contradiction
      next =>
        cases created
        rw [linkMounted_others.1]
        exact List.mem_cons_self
  rw [bootFilesystem]
  split
  next created =>
    rw [created] at made
    exact made
  next fat s some created =>
    rw [created] at made
    have mounts := made.chain separates (@vfsMount_chain s related False fat [47] made.tree
      (known fat s created some))
    split
    next mounted =>
      rw [mounted] at mounts
      exact mounts
    next mounted =>
      rw [mounted] at mounts
      have kept : ∀ path ∈ persistentDirs, ∀ token ∈ pathTokens path,
          streqNocase (createdDirName (fat16NameTo83 token)) token = true := by decide
      have ensured := @ensureAll_settled v _ related separates persistentDirs b.dirs kept mounts
      have tmp := @mountTmpfs_settled _ related b.tmp b.tmpRoot b.tmpPoint tmpPath separates ensured
      unfold bootstrapFilesystemLayout
      split
      next layout =>
        rw [layout] at tmp
        exact tmp
      next layout =>
        rw [layout] at tmp
        exact mountTmpfs_settled separates tmp

end Boot

end Vfs

def FileCall.creates : FileCall → Option (List UInt8 × Bool)
  | .touch path _ _ => some (path, false)
  | .mkdir path _ => some (path, true)
  | .delete _ => none
  | .write path _ bytes _ _ _ => if bytes = [] then none else some (path, false)

namespace Vfs

/-- Where a call comes to a create routine: the directory, the name and the kind. -/
def creation (s : Vfs) (call : FileCall) : Option (Nat × List UInt8 × Bool) :=
  call.creates.bind fun (bytes, isDirectory) =>
    (copyUserString bytes).bind fun path =>
      match s.parentOf path with
      | .inl _ => none
      | .inr (parent, name) =>
          if (s.vfsFindChildNocase parent name).isSome then none else some (parent, name, isDirectory)

def NamesFit (related : List UInt8 → List UInt8 → Prop) (s : Vfs) (call : FileCall) : Prop :=
  ∀ place ∈ s.creation call, ∀ other ∈ s.childNames place.1,
    related (s.createdName place.1 place.2.1 place.2.2) other

instance (s : Vfs) (call : FileCall) : Decidable (NamesFit SameSpelling s call) :=
  inferInstanceAs (Decidable (∀ place ∈ s.creation call, ∀ other ∈ s.childNames place.1, _))

section Calls

variable {v : Volume} {s after : Vfs} {related : List UInt8 → List UInt8 → Prop}
  {path name : List UInt8} {parent block data : Nat} {ok : Bool} {call : FileCall}

theorem parentOf_some (found : s.parentOf path = .inr (parent, name)) :
    ∃ parentName, splitParentName path execPathMax maxFilename = some (parentName, name) ∧
      s.vfsResolvePath parentName = some parent ∧ (s.node parent).isDirectory = true := by
  rw [parentOf] at found
  split at found
  next => cases found
  next split =>
    split at found
    next => cases found
    next resolved =>
      split at found
      next directory =>
        cases found
        exact ⟨_, split, resolved, directory⟩
      next => cases found

theorem parentOf_known (tree : s.Tree) (found : s.parentOf path = .inr (parent, name)) :
    parent ∈ s.nodes := by
  obtain ⟨_, _, resolved, _⟩ := parentOf_some found
  exact (vfsResolvePath_reached tree resolved).known tree

theorem nocase_listed (tree : s.Tree) {node : Nat} (found : s.parentOf path = .inr (parent, name))
    (child : s.vfsFindChildNocase parent name = some node) : s.Listed node ∧
    (s.node node).parent = parent := by
  have known := parentOf_known tree found
  obtain ⟨_, _, listed, _⟩ := findChildWith_some child
  have isParent := (tree.child parent known node listed).2
  rw [Listed, isParent]
  exact ⟨⟨known, listed⟩, rfl⟩

theorem creation_eq {bytes : List UInt8} {isDirectory : Bool}
    (creates : call.creates = some (bytes, isDirectory))
    (copied : copyUserString bytes = some path) (found : s.parentOf path = .inr (parent, name))
    (missing : s.vfsFindChildNocase parent name = none) :
    s.creation call = some (parent, name, isDirectory) := by
  rw [creation, creates]
  dsimp only [Option.bind_some]
  rw [copied]
  dsimp only [Option.bind_some]
  rw [found]
  dsimp only
  rw [missing]
  rfl

theorem Chain.reported {ρ : Type} {made : Option Nat × Vfs} {failed : Vfs → ρ × Vfs}
    {done : Nat → Vfs → ρ × Vfs} (chain : Chain related False s made.2) (same : ∀ s, (failed s).2 = s)
    (kept : ∀ node s, (done node s).2 = s) :
    Chain related False s (match made with
      | (none, s) => failed s
      | (some node, s) => done node s).2 := by
  obtain ⟨_ | node, after⟩ := made
  · exact (same after).symm ▸ chain
  · exact (kept node after).symm ▸ chain

theorem fileCall_chain (settled : Settled related s) (fits : NamesFit related s call)
    (called : s.fileCall v call = some (ok, after)) : Chain related False s after := by
  have tree := settled.tree
  cases call with
  | touch bytes block data =>
      rw [fileCall, Option.some.injEq] at called
      obtain ⟨_, rfl⟩ := Prod.mk.inj called
      change Chain related False s (s.sysFsTouch v bytes block data).2
      rw [sysFsTouch]
      split
      next => exact .refl
      next path copied =>
        split
        next => exact .refl
        next parent name found =>
          split
          next => exact .refl
          next missing =>
            have permits := fits _ (creation_eq rfl copied found missing)
            exact (vfsCreateFile_creates.chain (parentOf_known tree found) False.elim
              fun _ => permits).reported (fun _ => rfl) (fun _ _ => rfl)
  | mkdir bytes block =>
      rw [fileCall, Option.some.injEq] at called
      obtain ⟨_, rfl⟩ := Prod.mk.inj called
      change Chain related False s (s.sysFsMkdir v bytes block).2
      rw [sysFsMkdir]
      split
      next => exact .refl
      next path copied =>
        split
        next => exact .refl
        next parent name found =>
          split
          next => exact .refl
          next missing =>
            have permits := fits _ (creation_eq rfl copied found missing)
            exact (vfsCreateDirectory_creates.chain (parentOf_known tree found) False.elim
              fun _ => permits).reported (fun _ => rfl) (fun _ _ => rfl)
  | delete bytes =>
      rw [fileCall] at called
      obtain ⟨⟨ret, result⟩, deleted, same⟩ := Option.map_eq_some_iff.mp called
      obtain ⟨_, rfl⟩ := Prod.mk.inj same
      change Chain related False s result
      rw [sysFsDelete] at deleted
      split at deleted
      next =>
        cases deleted
        exact .refl
      next path copied =>
        split at deleted
        next =>
          cases deleted
          exact .refl
        next parent name found =>
          split at deleted
          next =>
            cases deleted
            exact .refl
          next node child =>
            obtain ⟨⟨done, reached⟩, drops, same⟩ := Option.map_eq_some_iff.mp deleted
            cases same
            exact (vfsDelete_deletes tree (nocase_listed tree found child).1 drops).chain
  | write bytes offset content block data buffer =>
      rw [fileCall, sysFsWrite] at called
      split at called
      next =>
        cases called
        exact .refl
      next some =>
        split at called
        next =>
          cases called
          exact .refl
        next path copied =>
          have opens : Chain related False s (s.openOrCreateFileForWrite v path block data).2 := by
            rw [openOrCreateFileForWrite]
            split
            next => exact .refl
            next =>
              split
              next => exact .refl
              next parent name found =>
                split
                next => exact .refl
                next missing =>
                  have permits := fits _ (creation_eq (if_neg some) copied found missing)
                  exact (vfsCreateFile_creates.chain (parentOf_known tree found) False.elim
                    fun _ => permits).reported (fun _ => rfl) (fun _ _ => rfl)
          split at called
          next opened =>
            rw [opened] at opens
            cases called
            exact opens
          next opened =>
            rw [opened] at opens
            exact opens.trans ((vfsWrite_writes called).2 related False)

theorem fileStep_settled (separates : Separates related) (settled : Settled related s)
    (fits : NamesFit related s call) (taken : s.fileStep v call = some after) :
    Settled related after := by
  obtain ⟨⟨ok, result⟩, called, same⟩ := Option.map_eq_some_iff.mp taken
  change result = after at same
  subst same
  exact settled.chain separates (fileCall_chain settled fits called)

/-- From boot on, as long as no call makes a node with the name of a sibling in another spelling,
the two ways to a node end at the same one. -/
theorem fileCalls_lookupsAgree {disk : Disk} {b : BootBlocks} {calls : List FileCall}
    (entries : (fat16Create v disk).1.Pairwise fun earlier later => SameSpelling later.name
    earlier.name) (reached : runActions (fileStep v) (bootFilesystem v disk b) calls = some after)
    (meets : RunMeets (fileStep v) (NamesFit SameSpelling) (bootFilesystem v disk b) calls) :
    LookupsAgree after := by
  have settled := @runActions_guarded Vfs FileCall (fileStep v) (NamesFit SameSpelling)
    (Settled SameSpelling)
    (fun _ _ _ settled fits taken => fileStep_settled sameSpelling_separates settled fits taken)
    _ _ _ (bootFilesystem_settled sameSpelling_separates entries) meets reached
  exact lookupsAgree settled.tree settled.apart

end Calls

def freshBlocks : BootBlocks where
  fat := 1
  fatRoot := 2
  entries := []
  dirs := [[3], [4], [5], [6]]
  tmp := 7
  tmpRoot := 8
  tmpPoint := 9
  log := 10
  logRoot := 11
  logPoint := 12

def tidyFiles : List FileCall :=
  [.touch [47, 65] 13 0, .mkdir [47, 116, 109, 112, 47, 98] 14,
    .touch [47, 116, 109, 112, 47, 98, 47, 67] 15 16, .delete [47, 116, 109, 112, 47, 98, 47, 67]]

theorem tidyFiles_lookupsAgree : ∃ after,
    runActions (fileStep smallVolume) (bootFilesystem smallVolume formattedDisk freshBlocks)
    tidyFiles = some after ∧
      after.nodes = [14, 13, 12, 11, 9, 8, 6, 5, 4, 3, 2] ∧ LookupsAgree after := by
  have runs : (runActions (fileStep smallVolume) (bootFilesystem smallVolume formattedDisk freshBlocks)
      tidyFiles).map Vfs.nodes = some [14, 13, 12, 11, 9, 8, 6, 5, 4, 3, 2] := by decide +kernel
  have meets : RunMeets (fileStep smallVolume) (NamesFit SameSpelling)
      (bootFilesystem smallVolume formattedDisk freshBlocks) tidyFiles := by decide +kernel
  have entries : (fat16Create smallVolume formattedDisk).1 = [] := by decide +kernel
  obtain ⟨after, reached, nodes⟩ := Option.map_eq_some_iff.mp runs
  exact ⟨after, reached, nodes, fileCalls_lookupsAgree (by rw [entries]; exact List.Pairwise.nil)
    reached meets⟩

/-- "/t.mp" becomes the node "TMP" in front of the mount point "tmp". -/
theorem dottedTmp_breaks :
    ¬ ∀ (v : Volume) (disk : Disk) (b : BootBlocks) (calls : List FileCall) (after : Vfs),
    (fat16Create v disk).1 = [] → runActions (fileStep v) (bootFilesystem v disk b) calls =
      some after → LookupsAgree after := by
  intro agree
  have runs : (runActions (fileStep smallVolume) (bootFilesystem smallVolume formattedDisk freshBlocks)
      [.touch [47, 116, 46, 109, 112] 13 0]).map
      (fun after => decide (after.vfsResolvePath tmpPath = some 9 ∧
        after.parentOf tmpPath = .inr (2, [116, 109, 112]) ∧
          after.vfsFindChildNocase 2 [116, 109, 112] = some 13)) = some true := by decide
  obtain ⟨after, reached, holds⟩ := Option.map_eq_some_iff.mp runs
  obtain ⟨resolved, parent, other⟩ := of_decide_eq_true holds
  obtain ⟨found, isParent, child⟩ := agree smallVolume formattedDisk freshBlocks _ after
    (by decide) reached tmpPath 9 [47] [116, 109, 112] resolved (by decide)
  rw [parent, Sum.inr.injEq, Prod.mk.injEq] at isParent
  obtain ⟨isParent, _⟩ := isParent
  rw [← isParent, other] at child
  exact absurd child (by decide)

end Vfs

end Szczupak
