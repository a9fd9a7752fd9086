import Szczupak.Fs.VfsTree

/-!
What stands in `fs_data`.  A node of FAT16 has the number of a cluster, a file of tmpfs has a
`tmpfs_data_t` of its own, and the buffers belong to one `tmpfs_data_t` each.
-/

namespace Szczupak

namespace Vfs

/-- `fs_data` is a value of the representation that the operations of the node use. -/
def Fits (s : Vfs) (node : Nat) : Prop :=
  match s.ops node with
  | .fat16 => (s.node node).fsData < 2 ^ 16
  | .tmpfs => (s.node node).fsData = 0 ∨ (s.node node).isDirectory = false ∧
    (s.node node).fsData ∈ s.datas

structure OwnData (s : Vfs) : Prop where
  datasNonNull : 0 ∉ s.datas
  datasNodup : s.datas.Nodup
  buffersNonNull : 0 ∉ s.buffers
  buffersNodup : s.buffers.Nodup
  buffer : ∀ data ∈ s.datas, (s.tmpfsData data).data = 0 ∨ (s.tmpfsData data).data ∈ s.buffers
  soleBuffer : ∀ left ∈ s.datas, ∀ right ∈ s.datas, (s.tmpfsData left).data =
    (s.tmpfsData right).data → (s.tmpfsData left).data ≠ 0 → left = right
  fits : ∀ node ∈ s.nodes, s.Fits node
  sole : ∀ left ∈ s.nodes, ∀ right ∈ s.nodes, s.ops left = .tmpfs → s.ops right = .tmpfs →
    (s.node left).fsData = (s.node right).fsData → (s.node left).fsData ≠ 0 → left = right

section Fits

variable {s after : Vfs} {node : Nat}

theorem fits_fat16 (fat16 : s.ops node = .fat16) : s.Fits node ↔ (s.node node).fsData < 2 ^ 16 := by
  rw [Fits, fat16]

theorem fits_tmpfs (tmpfs : s.ops node = .tmpfs) : s.Fits node ↔
    (s.node node).fsData = 0 ∨ (s.node node).isDirectory = false ∧ (s.node node).fsData ∈ s.datas := by
  rw [Fits, tmpfs]

structure SameData (s after : Vfs) (node : Nat) : Prop where
  ops : after.ops node = s.ops node
  fsData : (after.node node).fsData = (s.node node).fsData
  isDirectory : (after.node node).isDirectory = (s.node node).isDirectory

theorem SameData.of_body {firstChild nextSibling : Nat} (filesystem : after.filesystem = s.filesystem)
    (body : after.node node = { s.node node with firstChild, nextSibling }) :
    SameData s after node := by
  refine ⟨?_, ?_, ?_⟩
  · change (after.filesystem (after.node node).fs).ops = _
    rw [filesystem, body]
    rfl
  · rw [body]
  · rw [body]

theorem SameData.fits (same : SameData s after node) (kept : s.ops node = .tmpfs →
    (s.node node).fsData ∈ s.datas → (s.node node).fsData ∈ after.datas) (fits : s.Fits node) :
    after.Fits node := by
  cases isOps : s.ops node with
  | fat16 =>
      rw [fits_fat16 isOps] at fits
      rw [fits_fat16 (same.ops.trans isOps), same.fsData]
      exact fits
  | tmpfs =>
      rw [fits_tmpfs isOps] at fits
      rw [fits_tmpfs (same.ops.trans isOps), same.fsData, same.isDirectory]
      exact fits.imp_right fun file => ⟨file.1, kept isOps file.2⟩

theorem OwnData.of_same (own : s.OwnData) (fewer : ∀ node ∈ after.nodes, node ∈ s.nodes)
    (same : ∀ node ∈ after.nodes, SameData s after node)
    (kept : ∀ node ∈ after.nodes, s.ops node = .tmpfs → (s.node node).fsData ∈ s.datas →
      (s.node node).fsData ∈ after.datas)
    (datasNonNull : 0 ∉ after.datas) (datasNodup : after.datas.Nodup)
    (buffersNonNull : 0 ∉ after.buffers) (buffersNodup : after.buffers.Nodup)
    (buffer : ∀ data ∈ after.datas, (after.tmpfsData data).data = 0 ∨
      (after.tmpfsData data).data ∈ after.buffers)
    (soleBuffer : ∀ left ∈ after.datas, ∀ right ∈ after.datas,
      (after.tmpfsData left).data = (after.tmpfsData right).data →
      (after.tmpfsData left).data ≠ 0 → left = right) : after.OwnData := by
  refine ⟨datasNonNull, datasNodup, buffersNonNull, buffersNodup, buffer, soleBuffer, ?_, ?_⟩
  · intro node known
    exact (same node known).fits (kept node known) (own.fits node (fewer node known))
  · intro left leftKnown right rightKnown leftTmpfs rightTmpfs equal some
    have sameLeft := same left leftKnown
    have sameRight := same right rightKnown
    rw [sameLeft.fsData, sameRight.fsData] at equal
    rw [sameLeft.fsData] at some
    exact own.sole left (fewer left leftKnown) right (fewer right rightKnown)
      (sameLeft.ops.symm.trans leftTmpfs) (sameRight.ops.symm.trans rightTmpfs) equal some

theorem OwnData.frame (own : s.OwnData) (fewer : ∀ node ∈ after.nodes, node ∈ s.nodes)
    (same : ∀ node ∈ after.nodes, SameData s after node) (datas : after.datas = s.datas)
    (buffers : after.buffers = s.buffers) (tmpfsData : after.tmpfsData = s.tmpfsData) :
    after.OwnData := by
  refine own.of_same fewer same ?_ ?_ ?_ ?_ ?_ ?_ ?_
  · intro node _ _ member
    rw [datas]
    exact member
  · exact datas ▸ own.datasNonNull
  · exact datas ▸ own.datasNodup
  · exact buffers ▸ own.buffersNonNull
  · exact buffers ▸ own.buffersNodup
  · rw [datas, buffers, tmpfsData]
    exact own.buffer
  · rw [datas, tmpfsData]
    exact own.soleBuffer

theorem OwnData.add {block : Nat} {made : VfsNode} (own : s.OwnData)
    (nodes : after.nodes = block :: s.nodes)
    (same : ∀ node ∈ s.nodes, SameData s after node)
    (ops : after.ops block = (s.filesystem made.fs).ops)
    (fsData : (after.node block).fsData = made.fsData)
    (isDirectory : (after.node block).isDirectory = made.isDirectory) (fresh : s.FreshData made)
    (datas : after.datas = s.datas) (buffers : after.buffers = s.buffers)
    (tmpfsData : after.tmpfsData = s.tmpfsData) : after.OwnData := by
  have distinct : ∀ other ∈ s.nodes, s.ops other = .tmpfs → after.ops block = .tmpfs →
      (s.node other).fsData = made.fsData → made.fsData = 0 := by
    intro other known otherTmpfs blockTmpfs equal
    rw [FreshData, ← ops, blockTmpfs] at fresh
    exact fresh.resolve_right fun fresh => fresh.2.2 other known otherTmpfs equal
  obtain ⟨datasNonNull, datasNodup, buffersNonNull, buffersNodup, buffer, soleBuffer, fits, sole⟩ := own
  refine ⟨datas ▸ datasNonNull, datas ▸ datasNodup, buffers ▸ buffersNonNull,
    buffers ▸ buffersNodup, ?_, ?_, ?_, ?_⟩
  · rw [datas, buffers, tmpfsData]
    exact buffer
  · rw [datas, tmpfsData]
    exact soleBuffer
  · intro node known
    rw [nodes] at known
    rcases List.mem_cons.mp known with rfl | old
    · rw [FreshData, ← ops] at fresh
      cases isOps : after.ops node with
      | fat16 =>
          rw [isOps] at fresh
          rw [fits_fat16 isOps, fsData]
          exact fresh
      | tmpfs =>
          rw [isOps] at fresh
          rw [fits_tmpfs isOps, fsData, isDirectory, datas]
          exact fresh.imp_right fun file => ⟨file.1, file.2.1⟩
    · exact (same node old).fits (fun _ member => datas ▸ member) (fits node old)
  · intro left leftKnown right rightKnown leftTmpfs rightTmpfs equal some
    rw [nodes] at leftKnown rightKnown
    rcases List.mem_cons.mp leftKnown with rfl | leftOld
    · rcases List.mem_cons.mp rightKnown with rfl | rightOld
      · rfl
      · have sameRight := same right rightOld
        rw [fsData] at equal some
        rw [sameRight.fsData] at equal
        exact absurd (distinct right rightOld (sameRight.ops.symm.trans rightTmpfs) leftTmpfs equal.symm) some
    · have sameLeft := same left leftOld
      rcases List.mem_cons.mp rightKnown with rfl | rightOld
      · rw [fsData, sameLeft.fsData] at equal
        rw [sameLeft.fsData, equal] at some
        exact absurd (distinct left leftOld (sameLeft.ops.symm.trans leftTmpfs) rightTmpfs equal) some
      · have sameRight := same right rightOld
        rw [sameLeft.fsData, sameRight.fsData] at equal
        rw [sameLeft.fsData] at some
        exact sole left leftOld right rightOld (sameLeft.ops.symm.trans leftTmpfs)
          (sameRight.ops.symm.trans rightTmpfs) equal some

end Fits

section Changes

variable {s after : Vfs} {related : List UInt8 → List UInt8 → Prop}

section

variable (own : s.OwnData)
include own

theorem OwnData.grow {address block size : Nat} (member : address ∈ s.datas)
    (fresh : s.Fresh block) : ({ s with
      tmpfsData := Function.update s.tmpfsData address { data := block, allocatedSize := size }
      buffers := block :: s.buffers.erase (s.tmpfsData address).data } : Vfs).OwnData := by
  have notBuffer : block ∉ s.buffers := fun inUse => fresh.2 (Or.inr (Or.inr (Or.inr inUse)))
  have other : ∀ data, data ≠ address →
      Function.update s.tmpfsData address { data := block, allocatedSize := size } data = s.tmpfsData data :=
    fun data different => Function.update_of_ne different _ _
  have here : (Function.update s.tmpfsData address { data := block, allocatedSize := size }
    address).data = block := by
    rw [Function.update_self]
  have apart : ∀ data ∈ s.datas, (s.tmpfsData data).data ≠ block := by
    intro data known same
    rcases own.buffer data known with null | inUse
    · exact fresh.1 (same.symm.trans null)
    · exact notBuffer (same ▸ inUse)
  refine own.of_same (fun _ => id) (fun _ _ => ⟨rfl, rfl, rfl⟩) (fun _ _ _ => id) own.datasNonNull
    own.datasNodup ?_ ?_ ?_ ?_
  · rintro (_ | ⟨_, null⟩)
    · exact fresh.1 rfl
    · exact own.buffersNonNull (List.mem_of_mem_erase null)
  · exact List.nodup_cons.mpr ⟨fun inUse => notBuffer (List.mem_of_mem_erase inUse),
      own.buffersNodup.erase _⟩
  · intro data known
    dsimp only
    by_cases same : data = address
    · rw [same, here]
      exact Or.inr List.mem_cons_self
    · rw [other data same]
      by_cases null : (s.tmpfsData data).data = 0
      · exact Or.inl null
      · refine Or.inr (List.mem_cons_of_mem _
          ((List.mem_erase_of_ne ?_).mpr ((own.buffer data known).resolve_left null)))
        exact fun equal => same (own.soleBuffer data known address member equal null)
  · intro left leftKnown right rightKnown equal some
    dsimp only at equal some
    by_cases isLeft : left = address
    · by_cases isRight : right = address
      · exact isLeft.trans isRight.symm
      · rw [isLeft, here, other right isRight] at equal
        exact absurd equal.symm (apart right rightKnown)
    · by_cases isRight : right = address
      · rw [isRight, here, other left isLeft] at equal
        exact absurd equal (apart left leftKnown)
      · rw [other left isLeft, other right isRight] at equal
        rw [other left isLeft] at some
        exact own.soleBuffer left leftKnown right rightKnown equal some

theorem OwnData.data {address : Nat} (fresh : s.Fresh address) : ({ s with
      tmpfsData := Function.update s.tmpfsData address { data := 0, allocatedSize := 0 }
      datas := address :: s.datas } : Vfs).OwnData := by
  have notData : address ∉ s.datas := fun inUse => fresh.2 (Or.inr (Or.inr (Or.inl inUse)))
  have other : ∀ data ∈ s.datas,
      Function.update s.tmpfsData address { data := 0, allocatedSize := 0 } data = s.tmpfsData data := by
    intro data known
    refine Function.update_of_ne ?_ _ _
    rintro rfl
    exact notData known
  have here : (Function.update s.tmpfsData address { data := 0, allocatedSize := 0 } address).data =
    0 := by
    rw [Function.update_self]
  refine own.of_same (fun _ => id) (fun _ _ => ⟨rfl, rfl, rfl⟩) (fun _ _ _ => List.mem_cons_of_mem _) ?_
    (List.nodup_cons.mpr ⟨notData, own.datasNodup⟩) own.buffersNonNull own.buffersNodup ?_ ?_
  · rintro (_ | ⟨_, null⟩)
    · exact fresh.1 rfl
    · exact own.datasNonNull null
  · intro data known
    dsimp only
    rcases List.mem_cons.mp known with rfl | old
    · exact Or.inl here
    · rw [other data old]
      exact own.buffer data old
  · intro left leftKnown right rightKnown equal some
    dsimp only at equal some
    rcases List.mem_cons.mp leftKnown with rfl | leftOld
    · exact absurd here some
    · rcases List.mem_cons.mp rightKnown with rfl | rightOld
      · rw [here] at equal
        exact absurd equal some
      · rw [other left leftOld, other right rightOld] at equal
        rw [other left leftOld] at some
        exact own.soleBuffer left leftOld right rightOld equal some

theorem OwnData.drop {node : Nat} {u : Vfs} (unlinks : Unlinked s u node) :
    ({ u with nodes := s.nodes.erase node } : Vfs).OwnData := by
  have others := unlinks.others
  refine own.frame (fun _ => List.mem_of_mem_erase) (fun other _ => ?_) ?_ ?_ ?_
  · exact SameData.of_body (by rw [others]) (unlinks.body other)
  · rw [others]
  · rw [others]
  · rw [others]

theorem OwnData.free {address : Nat} (member : address ∈ s.datas)
    (unowned : ∀ node ∈ s.nodes, s.ops node = .tmpfs → (s.node node).fsData ≠ address) : ({ s with
      datas := s.datas.erase address, buffers := s.buffers.erase (s.tmpfsData address).data } :
        Vfs).OwnData := by
  have known : ∀ data, data ∈ s.datas.erase address → data ∈ s.datas ∧ data ≠ address :=
    fun data here =>
    ((List.Nodup.mem_erase_iff own.datasNodup).mp here).symm
  refine own.of_same (fun _ => id) (fun _ _ => ⟨rfl, rfl, rfl⟩) ?_
    (fun null => own.datasNonNull (List.mem_of_mem_erase null)) (own.datasNodup.erase _)
    (fun null => own.buffersNonNull (List.mem_of_mem_erase null)) (own.buffersNodup.erase _) ?_ ?_
  · intro node here tmpfs inUse
    exact (List.mem_erase_of_ne (unowned node here tmpfs)).mpr inUse
  · intro data here
    obtain ⟨old, different⟩ := known data here
    dsimp only
    by_cases null : (s.tmpfsData data).data = 0
    · exact Or.inl null
    · refine Or.inr ((List.mem_erase_of_ne fun equal => ?_).mpr ((own.buffer data old).resolve_left null))
      exact different (own.soleBuffer data old address member equal null)
  · intro left leftKnown right rightKnown
    exact own.soleBuffer left (known left leftKnown).1 right (known right rightKnown).1

theorem OwnData.dropData {node : Nat} {u : Vfs} (tree : s.Tree) (unlinks : Unlinked s u node)
    (tmpfs : s.ops node = .tmpfs) (member : (s.node node).fsData ∈ s.datas)
    (inUse : node ∈ s.nodes) : ({ u with
      nodes := s.nodes.erase node
      datas := s.datas.erase (s.node node).fsData
      buffers := s.buffers.erase (s.tmpfsData (s.node node).fsData).data } : Vfs).OwnData := by
  have same : u.datas = s.datas ∧ u.buffers = s.buffers ∧ u.tmpfsData = s.tmpfsData := by
    rw [unlinks.others]
    exact ⟨rfl, rfl, rfl⟩
  have freed := (own.drop unlinks).free (same.1.symm ▸ member) fun other known isTmpfs equal => by
    obtain ⟨different, old⟩ := (List.Nodup.mem_erase_iff tree.nodup).mp known
    have view := SameData.of_body (show u.filesystem = s.filesystem by rw [unlinks.others])
      (unlinks.body other)
    have isSame : (s.node other).fsData = (s.node node).fsData := view.fsData.symm.trans equal
    refine different (own.sole other old node inUse (view.ops.symm.trans isTmpfs) tmpfs isSame ?_)
    rw [isSame]
    exact fun null => own.datasNonNull (null ▸ member)
  change ({ u with
    nodes := s.nodes.erase node
    datas := u.datas.erase (s.node node).fsData
    buffers := u.buffers.erase (u.tmpfsData (s.node node).fsData).data } : Vfs).OwnData at freed
  rw [same.1, same.2.1, same.2.2] at freed
  rw [same.2.2]
  exact freed

theorem OwnData.addFilesystem {fs root : Nat} {ops : VfsOps} (tree : s.Tree)
    (fresh : s.Fresh fs) (freshRoot : s.Fresh root) : (s.addFilesystem fs root ops).OwnData := by
  have notFs : ∀ node ∈ s.nodes, (s.node node).fs ≠ fs := by
    intro node known isFs
    exact fresh.2 (Or.inr (Or.inl (isFs ▸ tree.owned node known)))
  have extended : ({ s with
      filesystem := Function.update s.filesystem fs { ops, root }
      filesystems := fs :: s.filesystems } : Vfs).OwnData := by
    refine own.frame (fun _ => id) (fun node known => ⟨?_, rfl, rfl⟩) rfl rfl rfl
    exact congrArg VfsFilesystem.ops (Function.update_of_ne (notFs node known) _ _)
  have made : (s.addFilesystem fs root ops).node root = {
      name := [47], isDirectory := true, size := 0, fsData := 0, fs, parent := 0, firstChild := 0
      nextSibling := 0 } := Function.update_self _ _ _
  refine extended.add rfl (fun node known => ?_) ?_ (congrArg VfsNode.fsData made)
    (congrArg VfsNode.isDirectory made) ?_ rfl rfl rfl
  · have old : (s.addFilesystem fs root ops).node node = s.node node :=
      addFilesystem_other (freshRoot.apart known)
    exact SameData.of_body rfl old
  · change ((s.addFilesystem fs root ops).filesystem ((s.addFilesystem fs root ops).node root).fs).ops = _
    rw [made]
    rfl
  · rw [FreshData]
    split
    next => exact Nat.two_pow_pos 16
    next => exact Or.inl rfl

theorem OwnData.mountOver {fs mountPoint : Nat} (directory : (s.node mountPoint).isDirectory = true)
    (bare : (s.node (s.filesystem fs).root).firstChild = 0)
    (owns : (s.filesystem fs).ops = .tmpfs → (s.node mountPoint).fsData = 0) :
    (s.mountOver fs mountPoint).OwnData := by
  rw [mountOver_bare bare]
  have others : ∀ node, node ≠ mountPoint →
      SameData s (s.modify mountPoint fun old => { old with fs, firstChild := 0 }) node := by
    intro node different
    exact SameData.of_body rfl (modify_other different)
  have here : (s.modify mountPoint fun old => { old with fs, firstChild := 0 }).node mountPoint =
      { s.node mountPoint with fs, firstChild := 0 } := modify_same
  have ops : (s.modify mountPoint fun old => { old with fs, firstChild := 0 }).ops mountPoint =
      (s.filesystem fs).ops := by
    rw [Vfs.ops, here]
    rfl
  refine ⟨own.datasNonNull, own.datasNodup, own.buffersNonNull, own.buffersNodup, own.buffer,
    own.soleBuffer, ?_, ?_⟩
  · intro node known
    by_cases isPoint : node = mountPoint
    · subst isPoint
      cases isOps : (s.filesystem fs).ops with
      | fat16 =>
          rw [fits_fat16 (ops.trans isOps), here]
          have old := own.fits node known
          cases before : s.ops node with
          | fat16 => exact (fits_fat16 before).mp old
          | tmpfs =>
              rcases (fits_tmpfs before).mp old with null | file
              · exact lt_of_eq_of_lt null (Nat.two_pow_pos 16)
              · rw [directory] at file
                exact absurd file.1.symm Bool.false_ne_true
      | tmpfs =>
          rw [fits_tmpfs (ops.trans isOps), here]
          exact Or.inl (owns isOps)
    · exact (others node isPoint).fits (fun _ => id) (own.fits node known)
  · have notPoint : ∀ node, (s.modify mountPoint fun old => { old with fs, firstChild := 0 }).ops
      node = .tmpfs →
        ((s.modify mountPoint fun old => { old with fs, firstChild := 0 }).node node).fsData ≠ 0 →
          node ≠ mountPoint := by
      rintro node tmpfs some rfl
      rw [here] at some
      exact some (owns (ops.symm.trans tmpfs))
    intro left leftKnown right rightKnown leftTmpfs rightTmpfs equal some
    have sameLeft := others left (notPoint left leftTmpfs some)
    have sameRight := others right (notPoint right rightTmpfs (equal ▸ some))
    rw [sameLeft.fsData, sameRight.fsData] at equal
    rw [sameLeft.fsData] at some
    exact own.sole left leftKnown right rightKnown (sameLeft.ops.symm.trans leftTmpfs)
      (sameRight.ops.symm.trans rightTmpfs) equal some

theorem OwnData.resize {node size fsData : Nat}
    (owns : fsData = (s.node node).fsData ∨ s.ops node = .fat16 ∧ fsData < 2 ^ 16) :
    (s.modify node fun old => { old with size, fsData }).OwnData := by
  have ops : ∀ other, (s.modify node fun old => { old with size, fsData }).ops other = s.ops other := by
    intro other
    rw [Vfs.ops, modify_frame]
    rfl
  have tmpfs : ∀ other, s.ops other = .tmpfs →
      SameData s (s.modify node fun old => { old with size, fsData }) other := by
    intro other isTmpfs
    by_cases same : other = node
    · subst same
      have kept := owns.resolve_right fun fat16 => VfsOps.noConfusion (isTmpfs.symm.trans fat16.1)
      refine ⟨ops other, ?_, ?_⟩
      · rw [modify_same]
        exact kept
      · rw [modify_same]
    · refine ⟨ops other, ?_, ?_⟩
      · rw [modify_other same]
      · rw [modify_other same]
  refine ⟨own.datasNonNull, own.datasNodup, own.buffersNonNull, own.buffersNodup, own.buffer,
    own.soleBuffer, ?_, ?_⟩
  · intro other known
    cases isOps : s.ops other with
    | fat16 =>
        have old := (fits_fat16 isOps).mp (own.fits other known)
        rw [fits_fat16 ((ops other).trans isOps)]
        by_cases same : other = node
        · subst same
          rw [modify_same]
          rcases owns with kept | new
          · exact lt_of_eq_of_lt kept old
          · exact new.2
        · rw [modify_other same]
          exact old
    | tmpfs => exact (tmpfs other isOps).fits (fun _ => id) (own.fits other known)
  · intro left leftKnown right rightKnown leftTmpfs rightTmpfs equal some
    rw [ops] at leftTmpfs rightTmpfs
    rw [(tmpfs left leftTmpfs).fsData, (tmpfs right rightTmpfs).fsData] at equal
    rw [(tmpfs left leftTmpfs).fsData] at some
    exact own.sole left leftKnown right rightKnown leftTmpfs rightTmpfs equal some

end

theorem Alters.ownData {typed : Prop} (tree : s.Tree) (own : s.OwnData)
    (isTyped : typed) (alters : Alters related typed s after) : after.OwnData := by
  cases alters with
  | disk => exact @OwnData.frame s _ own (fun _ => id) (fun _ _ => ⟨rfl, rfl, rfl⟩) rfl rfl rfl
  | data fresh => exact own.data fresh
  | grow member fresh => exact own.grow member fresh
  | @resize node size fsData owns => exact own.resize (owns isTyped)
  | @link parent block node fresh member directory under sameFs empty owns name =>
      have apart := fresh.apart member
      refine own.add rfl (fun other known => ?_) ?_ ?_ ?_ (owns isTyped) rfl rfl rfl
      · exact SameData.of_body rfl (link_same apart (fresh.apart known))
      · change (s.filesystem ((s.link parent block node).node block).fs).ops = _
        rw [link_block apart]
      · rw [link_block apart]
      · rw [link_block apart]
  | @append parent last block node fresh member under sameFs empty ends isLast owns name =>
      have lastApart := fresh.apart (tree.child _ member _ (List.mem_of_getLast? isLast)).1
      refine own.add rfl (fun other known => ?_) ?_ ?_ ?_ (owns isTyped) rfl rfl rfl
      · exact SameData.of_body rfl (linkBehind_same (fresh.apart known))
      · change (s.filesystem ((s.linkBehind last block node).node block).fs).ops = _
        rw [linkBehind_block lastApart]
      · rw [linkBehind_block lastApart]
      · rw [linkBehind_block lastApart]
  | drop listed taken =>
      obtain ⟨u, found, unlinks⟩ := tree.unlink listed
      rw [found, Option.some.injEq] at taken
      subst taken
      exact own.drop unlinks
  | @dropData node unlinked listed tmpfs member taken =>
      obtain ⟨u, found, unlinks⟩ := tree.unlink listed
      rw [found, Option.some.injEq] at taken
      subst taken
      exact own.dropData tree unlinks tmpfs member (tree.child _ listed.1 _ listed.2).1
  | filesystem fresh freshRoot => exact own.addFilesystem tree fresh freshRoot
  | mount isRoot => exact @OwnData.frame s _ own (fun _ => id) (fun _ _ => ⟨rfl, rfl, rfl⟩) rfl rfl rfl
  | mountOver isFs directory bare owns => exact own.mountOver directory bare (owns isTyped)

theorem Chain.ownData {typed : Prop} (tree : s.Tree) (own : s.OwnData) (isTyped : typed)
    (chain : Chain related typed s after) : after.OwnData := by
  induction chain with
  | refl => exact own
  | tail before alters ih => exact alters.ownData (Chain.tree tree before) ih isTyped

theorem init_tree {disk : Disk} : (init disk).Tree :=
  ⟨nofun, List.nodup_nil, nofun, nofun, nofun, nofun, nofun, nofun, nofun, Or.inl rfl⟩

theorem init_ownData {disk : Disk} : (init disk).OwnData :=
  ⟨nofun, List.nodup_nil, nofun, List.nodup_nil, nofun, nofun, nofun, nofun⟩

end Changes

end Vfs

end Szczupak
