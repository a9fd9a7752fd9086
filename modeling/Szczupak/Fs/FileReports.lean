import Szczupak.Fs.FileCalls

/-!
What a file call that reports success has done to its path.  Where the names of siblings differ
in more than case, a lookup is a matter of membership, so it survives every change that keeps
the nodes of the tree.
-/

namespace Szczupak

namespace Vfs

/-- Every node of the one tree is a node of the other, under the same name and in the same
directory. -/
structure Within (s after : Vfs) : Prop where
  root : after.root = s.root
  name : ∀ node ∈ s.nodes, (after.node node).name = (s.node node).name
  isDirectory : ∀ node ∈ s.nodes, (after.node node).isDirectory = (s.node node).isDirectory
  parent : ∀ node ∈ s.nodes, (after.node node).parent = (s.node node).parent
  children : ∀ dir ∈ s.nodes, dir ∈ after.nodes ∧ ∀ child ∈ s.children dir, child ∈ after.children dir

section Lookup

variable {s after : Vfs} {dir child node current parent : Nat} {name path token : List UInt8}

theorem Settled.sole (settled : Settled Unlike s) (member : dir ∈ s.nodes) {first second : Nat}
    (here : first ∈ s.children dir) (there : second ∈ s.children dir)
    (isFirst : streqNocase (s.node first).name name = true)
    (isSecond : streqNocase (s.node second).name name = true) : first = second := by
  by_contra different
  have apart := List.pairwise_map.mp (settled.apart dir member)
  have symmetric : Std.Symm fun first second => Unlike (s.node first).name (s.node second).name :=
    ⟨fun _ _ unlike => unlike_symm _ _ unlike⟩
  have unlike : Unlike (s.node first).name (s.node second).name := apart.forall here there different
  rw [Unlike, streqNocase_trans isFirst (streqNocase_symm isSecond)] at unlike
  cases unlike

theorem findChildNocase_iff (settled : Settled Unlike s) (member : dir ∈ s.nodes) :
    s.vfsFindChildNocase dir name = some child ↔ (s.node dir).isDirectory = true ∧
      child ∈ s.children dir ∧ streqNocase (s.node child).name name = true := by
  constructor
  · intro found
    exact (findChildWith_some found).2
  · rintro ⟨directory, listed, isName⟩
    have nonNull : dir ≠ 0 := fun null => settled.tree.nonNull (null ▸ member)
    cases found : s.vfsFindChildNocase dir name with
    | none =>
        have fails := findChildWith_none nonNull directory found _ (List.mem_map_of_mem listed)
        rw [isName] at fails
        cases fails
    | some other =>
        obtain ⟨_, _, there, isOther⟩ := findChildWith_some found
        rw [settled.sole member there listed isOther isName]

theorem findEither_iff (settled : Settled Unlike s) (member : dir ∈ s.nodes) :
    s.findEither dir name = some child ↔ (s.node dir).isDirectory = true ∧ child ∈ s.children dir ∧
      streqNocase (s.node child).name name = true := by
  rw [findEither]
  split
  next other exact =>
    obtain ⟨_, directory, there, isOther⟩ := findChildWith_some exact
    have agrees : streqNocase (s.node other).name name = true := by
      rw [beq_iff_eq.mp isOther]
      exact streqNocase_refl
    rw [Option.some.injEq]
    constructor
    · rintro rfl
      exact ⟨directory, there, agrees⟩
    · rintro ⟨_, listed, isName⟩
      exact settled.sole member there listed agrees isName
  next => exact findChildNocase_iff settled member

theorem Within.findEither (within : Within s after) (settled : Settled Unlike s)
    (later : Settled Unlike after)
    (member : dir ∈ s.nodes) (found : s.findEither dir name = some child) :
    after.findEither dir name = some child := by
  obtain ⟨directory, listed, isName⟩ := (findEither_iff settled member).mp found
  obtain ⟨known, kept⟩ := within.children dir member
  refine (findEither_iff later known).mpr ⟨?_, kept child listed, ?_⟩
  · rw [within.isDirectory dir member]
    exact directory
  · rw [within.name child (settled.tree.child dir member child listed).1]
    exact isName

theorem Within.enter (within : Within s after) (settled : Settled Unlike s)
    (later : Settled Unlike after)
    (member : current ∈ s.nodes) (entered : s.enter current token = some node) :
    after.enter current token = some node := by
  rw [Vfs.enter] at entered ⊢
  rw [within.parent current member]
  split at entered
  next => cases entered
  next long =>
    rw [if_neg long]
    split at entered
    next dot => rw [if_pos dot, entered]
    next dot =>
      rw [if_neg dot]
      split at entered
      next dots => rw [if_pos dots, entered]
      next dots =>
        rw [if_neg dots]
        exact within.findEither settled later member entered

theorem Within.resolved (within : Within s after) (settled : Settled Unlike s)
    (later : Settled Unlike after)
    (resolved : s.vfsResolvePath path = some node) : after.vfsResolvePath path = some node := by
  have walks : ∀ (tokens : List (List UInt8)) (current : Nat), Reached s current →
      tokens.foldlM s.enter current = some node → tokens.foldlM after.enter current = some node := by
    intro tokens
    induction tokens with
    | nil => exact fun _ _ ends => ends
    | cons token rest ih =>
        intro current reached entered
        rw [List.foldlM_cons] at entered ⊢
        obtain ⟨next, first, remaining⟩ := Option.bind_eq_some_iff.mp entered
        rw [within.enter settled later (reached.known settled.tree) first]
        exact ih next (enter_reached settled.tree reached first) remaining
  rw [vfsResolvePath] at resolved ⊢
  rw [within.root]
  split at resolved
  next => cases resolved
  next mounted =>
    rw [if_neg mounted]
    exact walks _ _ (.root (not_or.mp mounted).1) resolved

end Lookup

section Changes

variable {s after : Vfs} {parent block node : Nat} {name : List UInt8} {isDirectory : Bool}

theorem Resized.within (resized : Resized s after) : Within s after := by
  refine ⟨resized.root, ?_, ?_, ?_, fun dir member => ⟨resized.nodes ▸ member, fun child listed => ?_⟩⟩
  · exact fun node _ => by rw [resized.body node]
  · exact fun node _ => by rw [resized.body node]
  · exact fun node _ => by rw [resized.body node]
  · rw [resized.children]
    exact listed

theorem Creates.within (tree : s.Tree) (member : parent ∈ s.nodes)
    (creates : Creates s parent block name isDirectory (some node, after)) : Within s after := by
  cases creates with
  | @makes before made same steps fresh directory under sameFs empty owns named kind =>
      have known : parent ∈ before.nodes := same.nodes ▸ member
      have apart := fresh.apart known
      obtain ⟨_, lists⟩ := (same.tree tree).link fresh known
        (by rw [same.node]; exact directory) under (by rw [same.node]; exact sameFs) empty
      have kept : ∀ other ∈ s.nodes, (before.link parent block made).node other =
          { s.node other with firstChild := ((before.link parent block made).node other).firstChild } := by
        intro other old
        rw [link_same apart (fresh.apart (same.nodes ▸ old)), same.node]
      refine ⟨same.root, ?_, ?_, ?_, fun dir old => ?_⟩
      · exact fun other old => by rw [kept other old]
      · exact fun other old => by rw [kept other old]
      · exact fun other old => by rw [kept other old]
      · have here : dir ∈ before.nodes := same.nodes ▸ old
        refine ⟨List.mem_cons_of_mem _ here, fun child listed => ?_⟩
        rw [lists dir (List.mem_cons_of_mem _ here), if_neg (fresh.apart here), same.children]
        split
        next isParent => exact List.mem_cons_of_mem _ (isParent ▸ listed)
        next => exact listed

theorem Deletes.within (tree : s.Tree) (listed : s.Listed node)
    (deletes : Deletes s node (true, after)) : Within after s ∧ node ∉ after.nodes := by
  cases deletes with
  | @drops u _ empty unlinks same steps freed =>
      obtain ⟨dropped, lists⟩ := tree.drop listed unlinks
      have body : ∀ other, after.node other = { s.node other with
          firstChild := (u.node other).firstChild, nextSibling := (u.node other).nextSibling } := by
        intro other
        rw [same.node]
        exact unlinks.body other
      refine ⟨⟨?_, ?_, ?_, ?_, fun dir known => ?_⟩, ?_⟩
      · rw [same.root, unlinks.others]
      · exact fun other _ => by rw [body other]
      · exact fun other _ => by rw [body other]
      · exact fun other _ => by rw [body other]
      · rw [same.nodes] at known
        refine ⟨List.mem_of_mem_erase known, fun child here => ?_⟩
        rw [same.children, lists dir known] at here
        split at here
        next => exact List.mem_of_mem_erase here
        next => exact here
      · rw [same.nodes]
        exact tree.nodup.not_mem_erase

end Changes

def LeadsTo (s : Vfs) (path : List UInt8) (isDirectory : Bool) : Prop :=
  ∃ node, s.vfsResolvePath path = some node ∧ (s.node node).isDirectory = isDirectory

def Promised (after : Vfs) : FileCall → Prop
  | .touch bytes _ _ => ∀ path ∈ copyUserString bytes, after.LeadsTo path false
  | .mkdir bytes _ => ∀ path ∈ copyUserString bytes, after.LeadsTo path true
  | .delete bytes => ∀ path ∈ copyUserString bytes, after.vfsResolvePath path = none
  | .write bytes _ content _ _ _ => content ≠ [] → ∀ path ∈ copyUserString bytes,
    after.LeadsTo path false

def KeepsName (s : Vfs) (call : FileCall) : Prop :=
  ∀ place ∈ s.creation call, streqNocase (s.createdName place.1 place.2.1 place.2.2) place.2.1 = true

instance (s : Vfs) (call : FileCall) : Decidable (KeepsName s call) :=
  inferInstanceAs (Decidable (∀ place ∈ s.creation call, _))

section Reports

variable {v : Volume} {s after : Vfs} {parent block node data : Nat} {name path bytes : List UInt8}
  {isDirectory ok : Bool} {call : FileCall}

theorem LeadsTo.within (leads : s.LeadsTo path isDirectory) (within : Within s after)
    (settled : Settled Unlike s)
    (later : Settled Unlike after) : after.LeadsTo path isDirectory := by
  obtain ⟨node, resolved, kind⟩ := leads
  refine ⟨node, within.resolved settled later resolved, ?_⟩
  rw [within.isDirectory node ((vfsResolvePath_reached settled.tree resolved).known settled.tree)]
  exact kind

theorem resolved_child (settled : Settled Unlike s) (found : s.parentOf path = .inr (parent, name))
    (child : s.vfsFindChildNocase parent name = some node) : s.vfsResolvePath path = some node := by
  have member := parentOf_known settled.tree found
  obtain ⟨parentName, split, resolved, _⟩ := parentOf_some found
  rw [vfsResolvePath_split split, resolved]
  exact (findEither_iff settled member).mpr ((findChildNocase_iff settled member).mp child)

theorem KeepsName.fits (keeps : s.KeepsName call) (tree : s.Tree) : NamesFit Unlike s call := by
  rintro ⟨parent, name, isDirectory⟩ place other here
  refine kept_related unlike_separates (keeps _ place) ?_
  rw [creation] at place
  obtain ⟨⟨bytes, _⟩, _, place⟩ := Option.bind_eq_some_iff.mp place
  obtain ⟨path, _, place⟩ := Option.bind_eq_some_iff.mp place
  split at place
  next => cases place
  next found =>
    split at place
    next => cases place
    next missing =>
      cases place
      have nonNull : parent ≠ 0 := fun null => tree.nonNull (null ▸ parentOf_known tree found)
      obtain ⟨_, _, _, directory⟩ := parentOf_some found
      exact @findChildWith_none s parent (fun other => streqNocase other name) nonNull directory
        (Option.not_isSome_iff_eq_none.mp missing) other here

theorem Creates.leads (settled : Settled Unlike s) (later : Settled Unlike after)
    (found : s.parentOf path = .inr (parent, name))
    (keeps : streqNocase (s.createdName parent name isDirectory) name = true)
    (creates : Creates s parent block name isDirectory (some node, after)) :
    after.vfsResolvePath path = some node ∧ (after.node node).isDirectory = isDirectory := by
  have member := parentOf_known settled.tree found
  obtain ⟨parentName, split, resolved, directory⟩ := parentOf_some found
  have within := creates.within settled.tree member
  obtain ⟨_, rfl, _, known, lists, kind, named, _⟩ := creates.child settled.tree member
  refine ⟨?_, kind⟩
  rw [vfsResolvePath_split split, within.resolved settled later resolved]
  refine (findEither_iff later known).mpr ⟨?_, ?_, ?_⟩
  · rw [within.isDirectory parent member]
    exact directory
  · rw [lists]
    exact List.mem_cons_self
  · rw [named]
    exact keeps

theorem openOrCreate_leads (settled : Settled Unlike s) (copied : copyUserString bytes = some path)
    {content : List UInt8} {offset buffer : Nat} (some : content ≠ [])
    (keeps : s.KeepsName (.write bytes offset content block data buffer))
    (opened : s.openOrCreateFileForWrite v path block data = (Option.some node, after)) :
    Settled Unlike after ∧ after.LeadsTo path false := by
  rw [openOrCreateFileForWrite] at opened
  split at opened
  next existing resolved =>
    split at opened
    next => cases opened
    next file =>
      cases opened
      exact ⟨settled, node, resolved, Bool.eq_false_of_not_eq_true file⟩
  next =>
    split at opened
    next => cases opened
    next parent name found =>
      split at opened
      next existing child =>
        split at opened
        next => cases opened
        next file =>
          cases opened
          exact ⟨settled, node, resolved_child settled found child, Bool.eq_false_of_not_eq_true file⟩
      next missing =>
        have creates := @vfsCreateFile_creates v s parent block data name
        have place : s.creation (.write bytes offset content block data buffer) =
          Option.some (parent, name, false) :=
          creation_eq (if_neg some) copied found missing
        have chain : Chain Unlike False s (s.vfsCreateFile v parent name block data).2 :=
          creates.chain (parentOf_known settled.tree found) False.elim fun _ => keeps.fits settled.tree _ place
        split at opened
        next => cases opened
        next made created =>
          rw [created] at creates chain
          have later := settled.chain unlike_separates chain
          split at opened
          next => cases opened
          next =>
            cases opened
            exact ⟨later, node, creates.leads settled later found (keeps _ place)⟩

theorem reported {result : FsRet × Vfs}
    (report : Prod.map (· == FsRet.ok) id result = (true, after)) : result = (.ok, after) := by
  obtain ⟨succeeds, same⟩ := Prod.mk.inj report
  exact Prod.ext (beq_iff_eq.mp succeeds) same

theorem parentOf_error : s.parentOf path ≠ .inl .ok := by
  rw [parentOf]
  split
  next => simp
  next =>
    split
    next => simp
    next => split <;> simp

section

variable (settled : Settled Unlike s)
include settled

theorem sysFsTouch_leads (later : Settled Unlike after)
    (keeps : s.KeepsName (.touch bytes block data)) (copied : copyUserString bytes = some path)
    (touched : s.sysFsTouch v bytes block data = (.ok, after)) : after.LeadsTo path false := by
  rw [sysFsTouch, copied] at touched
  dsimp only at touched
  split at touched
  next error found =>
    cases touched
    exact absurd found parentOf_error
  next parent name found =>
    split at touched
    next existing child =>
      obtain ⟨report, rfl⟩ := Prod.mk.inj touched
      refine ⟨existing, resolved_child settled found child, Bool.eq_false_of_not_eq_true fun directory => ?_⟩
      rw [if_pos directory] at report
      cases report
    next missing =>
      have place : s.creation (.touch bytes block data) = some (parent, name, false) :=
        creation_eq rfl copied found missing
      split at touched
      next => cases touched
      next made created =>
        cases touched
        have creates := @vfsCreateFile_creates v s parent block data name
        rw [created] at creates
        exact ⟨_, creates.leads settled later found (keeps _ place)⟩

theorem sysFsMkdir_leads (later : Settled Unlike after)
    (keeps : s.KeepsName (.mkdir bytes block)) (copied : copyUserString bytes = some path)
    (made : s.sysFsMkdir v bytes block = (.ok, after)) : after.LeadsTo path true := by
  rw [sysFsMkdir, copied] at made
  dsimp only at made
  split at made
  next error found =>
    cases made
    exact absurd found parentOf_error
  next parent name found =>
    split at made
    next => cases made
    next missing =>
      have place : s.creation (.mkdir bytes block) = some (parent, name, true) :=
        creation_eq rfl copied found missing
      split at made
      next => cases made
      next created =>
        cases made
        have creates := @vfsCreateDirectory_creates v s parent block name
        rw [created] at creates
        exact ⟨_, creates.leads settled later found (keeps _ place)⟩

theorem sysFsDelete_leads (later : Settled Unlike after)
    (copied : copyUserString bytes = some path)
    (deleted : s.sysFsDelete v bytes = some (.ok, after)) : after.vfsResolvePath path = none := by
  rw [sysFsDelete, copied] at deleted
  dsimp only at deleted
  split at deleted
  next error found =>
    cases deleted
    exact absurd found parentOf_error
  next parent name found =>
    split at deleted
    next => cases deleted
    next node child =>
      obtain ⟨⟨succeeds, result⟩, drops, same⟩ := Option.map_eq_some_iff.mp deleted
      obtain ⟨report, rfl⟩ := Prod.mk.inj same
      cases succeeds with
      | false => cases report
      | true =>
          obtain ⟨within, gone⟩ := (vfsDelete_deletes settled.tree (nocase_listed settled.tree found child).1
            drops).within settled.tree (nocase_listed settled.tree found child).1
          cases resolved : result.vfsResolvePath path with
          | none => rfl
          | some other =>
              have before := within.resolved later settled resolved
              rw [resolved_child settled found child, Option.some.injEq] at before
              subst before
              exact absurd ((vfsResolvePath_reached later.tree resolved).known later.tree) gone

theorem fileCall_promised (keeps : s.KeepsName call)
    (called : s.fileCall v call = some (true, after)) : Promised after call := by
  have later := settled.chain unlike_separates (fileCall_chain settled (keeps.fits settled.tree) called)
  cases call with
  | touch bytes block data =>
      rw [fileCall, Option.some.injEq] at called
      exact fun path copied => sysFsTouch_leads settled later keeps copied (reported called)
  | mkdir bytes block =>
      rw [fileCall, Option.some.injEq] at called
      exact fun path copied => sysFsMkdir_leads settled later keeps copied (reported called)
  | delete bytes =>
      rw [fileCall] at called
      obtain ⟨result, deleted, report⟩ := Option.map_eq_some_iff.mp called
      rw [reported report] at deleted
      exact fun path copied => sysFsDelete_leads settled later copied deleted
  | write bytes offset content block data buffer =>
      intro some path copied
      rw [fileCall, sysFsWrite, if_neg some, copied] at called
      dsimp only at called
      split at called
      next => cases called
      next file opened result =>
        obtain ⟨middle, leads⟩ := openOrCreate_leads settled copied some keeps result
        exact leads.within (vfsWrite_writes called).1.within middle later

end

/-- From boot on, as long as every node that a call makes keeps the name it was asked for up to
case, a call that reports success has kept its promise. -/
theorem fileCalls_promised {disk : Disk} {b : BootBlocks} {calls : List FileCall}
    (entries : (fat16Create v disk).1.Pairwise fun earlier later => Unlike later.name earlier.name)
    (reached : runActions (fileStep v) (bootFilesystem v disk b) calls = some s)
    (meets : RunMeets (fileStep v) KeepsName (bootFilesystem v disk b) calls) (keeps : s.KeepsName call)
    (called : s.fileCall v call = some (true, after)) : Promised after call := by
  refine fileCall_promised ?_ keeps called
  exact @runActions_guarded Vfs FileCall (fileStep v) KeepsName (Settled Unlike)
    (fun s _ _ settled keeps taken => fileStep_settled unlike_separates settled
      (keeps.fits settled.tree) taken)
    _ _ _ (bootFilesystem_settled unlike_separates entries) meets reached

end Reports

theorem deletedFile_promised : ∃ s after, runActions (fileStep smallVolume)
    (bootFilesystem smallVolume formattedDisk freshBlocks)
    [.touch [47, 116, 109, 112, 47, 98] 13 14, .mkdir [47, 66] 15] =
      some s ∧ s.fileCall smallVolume (.delete [47, 116, 109, 112, 47, 98]) = some (true, after) ∧
    Promised after (.delete [47, 116, 109, 112, 47, 98]) := by
  have runs : (runActions (fileStep smallVolume) (bootFilesystem smallVolume formattedDisk freshBlocks)
      [.touch [47, 116, 109, 112, 47, 98] 13 14, .mkdir [47, 66] 15]).map (fun s => decide
        (s.KeepsName (.delete [47, 116, 109, 112, 47, 98]) ∧
          (s.fileCall smallVolume (.delete [47, 116, 109, 112, 47, 98])).map Prod.fst =
          some true)) = some true := by
    decide +kernel
  have meets : RunMeets (fileStep smallVolume) KeepsName
    (bootFilesystem smallVolume formattedDisk freshBlocks)
      [.touch [47, 116, 109, 112, 47, 98] 13 14, .mkdir [47, 66] 15] := by decide +kernel
  have entries : (fat16Create smallVolume formattedDisk).1 = [] := by decide +kernel
  obtain ⟨s, reached, holds⟩ := Option.map_eq_some_iff.mp runs
  obtain ⟨keeps, succeeds⟩ := of_decide_eq_true holds
  obtain ⟨⟨report, after⟩, called, rfl⟩ := Option.map_eq_some_iff.mp succeeds
  exact ⟨s, after, reached, called,
    fileCalls_promised (by rw [entries]; exact List.Pairwise.nil) reached meets keeps called⟩

/-- "/a.txt" becomes the node "ATXT". -/
theorem dottedName_breaks :
    ¬ ∀ (v : Volume) (disk : Disk) (b : BootBlocks) (calls : List FileCall) (s after : Vfs)
    (call : FileCall), (fat16Create v disk).1 = [] →
      runActions (fileStep v) (bootFilesystem v disk b) calls = some s →
        s.fileCall v call = some (true, after) → Promised after call := by
  intro promised
  have runs : ((bootFilesystem smallVolume formattedDisk freshBlocks).fileCall smallVolume
      (.touch [47, 97, 46, 116, 120, 116] 13 0)).map (fun result =>
        (result.1, result.2.vfsResolvePath [47, 97, 46, 116, 120, 116])) = some (true, none) := by decide
  obtain ⟨⟨report, after⟩, called, same⟩ := Option.map_eq_some_iff.mp runs
  obtain ⟨rfl, lost⟩ := Prod.mk.inj same
  obtain ⟨node, resolved, _⟩ := promised smallVolume formattedDisk freshBlocks [] _ after _
    (by decide) rfl called [47, 97, 46, 116, 120, 116] (by decide)
  rw [lost] at resolved
  cases resolved

end Vfs

end Szczupak
