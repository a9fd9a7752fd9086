import Szczupak.Mm.PageTree

/-!
Mapping and lookup agree.  Every step of a mapping walk keeps the tables a tree and
keeps what every address translates to, until the last store changes one page.
-/

namespace Szczupak

structure PageTree (ram : Mem) (root : Nat) : Prop where
  aligned : root % pageSize = 0
  apart : WalksApart (childNode ram) root (PathUpTo 3)
  direct : ∀ path table, PathUpTo 3 path → nodeAt ram root path = some table → table < nullTable
  zero : ∀ path table index, PathUpTo 3 path → nodeAt ram root path = some table → index < 512 →
    (entryAt ram table index).testBit presentBit = false → entryAt ram table index = 0
  noGiant : ∀ slot table index, slot < 512 → nodeAt ram root [slot] = some table → index < 512 →
    (entryAt ram table index).testBit hugeBit = false

/-- A directory whose tables the allocator will not hand out again. -/
structure Directory (pmm : Pmm) (root : Nat) : Prop where
  based : ZeroBased pmm
  tree : PageTree pmm.ram root
  inUse : ∀ path table, PathUpTo 3 path → nodeAt pmm.ram root path = some table →
    ¬Available pmm table

def SameTranslation (ram changed : Mem) (root : Nat) : Prop :=
  ∀ virt, vmmGetPhysical changed root virt = vmmGetPhysical ram root virt

def pageResult (entry : Nat) (virt : UInt64) : Nat :=
  if entry.testBit presentBit then alignDown entry + virt.toNat % 4096 else 0

def hugeResult (entry : Nat) (virt : UInt64) : Nat :=
  if entry.testBit presentBit && entry.testBit hugeBit then
    entry / 2 ^ 21 * 2 ^ 21 + virt.toNat % 2 ^ 21
  else 0

def tablePath (virt : UInt64) : List Nat :=
  [pdIndex (alignDown virt.toNat), pdpIndex (alignDown virt.toNat), pml4Index (alignDown virt.toNat)]

def pageOf (virt : UInt64) : Nat := ptIndex (alignDown virt.toNat)

theorem tablePath_valid (virt : UInt64) : PathUpTo 3 (tablePath virt) := by
  refine ⟨Nat.le_refl _, ?_⟩
  simp only [tablePath, pdIndex, pdpIndex, pml4Index, List.forall_mem_cons]
  exact ⟨Nat.mod_lt _ (by decide), Nat.mod_lt _ (by decide), Nat.mod_lt _ (by decide), by simp⟩

theorem pageOf_lt (virt : UInt64) : pageOf virt < 512 := Nat.mod_lt _ (by decide)

section Lookup

variable {ram : Mem} {root : Nat}

/-- What an address translates to, in terms of the table of its last level or, when there
is none, of its page directory entry. -/
def lookupAt (ram : Mem) (root : Nat) (virt : UInt64) : Nat :=
  match nodeAt ram root (tablePath virt) with
  | some pt => pageResult (entryAt ram pt (pageOf virt)) virt
  | none =>
      match nodeAt ram root (tablePath virt).tail with
      | some pd => hugeResult (entryAt ram pd (pdIndex (alignDown virt.toNat))) virt
      | none => 0

theorem vmmGetPhysical_eq (tree : PageTree ram root) (virt : UInt64) :
    vmmGetPhysical ram root virt = lookupAt ram root virt := by
  have valid := tablePath_valid virt
  generalize addressEq : alignDown virt.toNat = address
  simp only [tablePath, addressEq] at valid
  simp only [vmmGetPhysical, lookupAt, tablePath, pageOf, addressEq, List.tail_cons]
  cases slot : (entryAt ram root (pml4Index address)).testBit presentBit with
  | false => simp [nodeAt, walk, childNode, slot]
  | true =>
      generalize pdpEq : alignDown (entryAt ram root (pml4Index address)) = pdp
      have pdpNode : nodeAt ram root [pml4Index address] = some pdp := by
        simp [nodeAt, walk, childNode, slot, pdpEq]
      have small := tree.noGiant _ pdp _ valid.tail.tail.head pdpNode valid.tail.head
      have pdNode : nodeAt ram root [pdpIndex address, pml4Index address] =
          childNode ram 1 pdp (pdpIndex address) := walk_cons pdpNode
      cases directory : (entryAt ram pdp (pdpIndex address)).testBit presentBit with
      | false =>
          have missing : childNode ram 1 pdp (pdpIndex address) = none := by
            simp [childNode, directory]
          rw [missing] at pdNode
          have noTable : nodeAt ram root [pdIndex address, pdpIndex address, pml4Index address] =
              none := by
            rw [nodeAt, walk, ← nodeAt, pdNode]
            rfl
          simp [noTable, pdNode]
      | true =>
          generalize pdEq : alignDown (entryAt ram pdp (pdpIndex address)) = pd
          have found : childNode ram 1 pdp (pdpIndex address) = some pd := by
            simp [childNode, directory, small, pdEq]
          rw [found] at pdNode
          have ptNode : nodeAt ram root [pdIndex address, pdpIndex address, pml4Index address] =
              childNode ram 2 pd (pdIndex address) := walk_cons pdNode
          rw [ptNode, pdNode]
          cases table : (entryAt ram pd (pdIndex address)).testBit presentBit with
          | false => simp [childNode, hugeResult, small, table]
          | true =>
              cases huge : (entryAt ram pd (pdIndex address)).testBit hugeBit with
              | false =>
                  simp only [childNode, pageResult, small, table, huge]
                  cases page : (entryAt ram (alignDown (entryAt ram pd (pdIndex address)))
                    (ptIndex address)).testBit presentBit <;> simp [page]
              | true => simp [childNode, hugeResult, small, table, huge]

end Lookup

section Steps

variable {pmm after : Pmm} {root parent index : Nat} {path : List Nat} {contents : Nat → Nat}
  {frame : Nat} {value : Nat}

theorem Directory.node_aligned (dir : Directory pmm root) {table : Nat}
    (found : nodeAt pmm.ram root path = some table) : table % pageSize = 0 :=
  nodeAt_aligned dir.tree.aligned found

theorem Directory.nodes_kept (dir : Directory pmm root)
    (present : (entryAt pmm.ram parent index).testBit presentBit = true)
    (alike : Alike (entryAt pmm.ram parent index) value)
    (entries : EntryStep pmm.ram after.ram parent index value)
    {other : List Nat} (valid : PathUpTo 3 other) :
    nodeAt after.ram root other = nodeAt pmm.ram root other := by
  refine walk_congr (fun _ _ => PathUpTo.tail) ?_ valid
  intro before step node allowed found
  have step := entries node step (dir.node_aligned found) allowed.head
  split at step
  · rename_i here
    obtain ⟨rfl, rfl⟩ := here
    rw [← step] at alike
    exact childNode_alike present alike
  · exact childNode_congr step

theorem WalksApart.of_eq {child changed : Nat → Nat → Nat → Option Nat} {valid : List Nat → Prop}
    (apart : WalksApart child root valid)
    (same : ∀ path, valid path → walk changed root path = walk child root path) :
    WalksApart changed root valid := by
  intro left right node leftValid rightValid leftFound rightFound
  rw [same left leftValid] at leftFound
  rw [same right rightValid] at rightFound
  exact apart left right node leftValid rightValid leftFound rightFound

theorem available_of_pool (pool : after = { pmm with ram := after.ram }) :
    Available after frame ↔ Available pmm frame := by
  have same : usedSet after = usedSet pmm := by
    rw [pool]
    exact usedSet_congr rfl rfl
  have total : after.totalPages = pmm.totalPages := by rw [pool]
  simp only [Available, same, total]

theorem ZeroBased.of_pool (based : ZeroBased pmm) (pool : after = { pmm with ram := after.ram }) :
    ZeroBased after := by
  rw [pool]
  exact ⟨based.start, based.covered, based.small⟩

theorem Directory.kept (dir : Directory pmm root)
    (present : (entryAt pmm.ram parent index).testBit presentBit = true)
    (alike : Alike (entryAt pmm.ram parent index) value)
    (entries : EntryStep pmm.ram after.ram parent index value)
    (pool : after = { pmm with ram := after.ram }) : Directory after root := by
  have same : ∀ other, PathUpTo 3 other → nodeAt after.ram root other = nodeAt pmm.ram root other :=
    fun _ valid => dir.nodes_kept present alike entries valid
  refine ⟨dir.based.of_pool pool, ⟨dir.tree.aligned, dir.tree.apart.of_eq same, ?_, ?_, ?_⟩, ?_⟩
  · intro other table valid found
    rw [same other valid] at found
    exact dir.tree.direct other table valid found
  · intro other table position valid found bound absent
    rw [same other valid] at found
    have entry := entries table position (dir.node_aligned found) bound
    split at entry
    · rw [entry, alike.present present] at absent
      contradiction
    · rw [entry] at absent ⊢
      exact dir.tree.zero other table position valid found bound absent
  · intro slot table position slotBound found bound
    rw [same [slot] ⟨by simp, by simpa using slotBound⟩] at found
    have old := dir.tree.noGiant slot table position slotBound found bound
    have entry := entries table position (dir.node_aligned found) bound
    split at entry
    · rename_i here
      rw [entry, alike.testBit (show 3 ≤ hugeBit by decide), ← here.1, ← here.2]
      exact old
    · rw [entry]
      exact old
  · intro other table valid found
    rw [same other valid] at found
    rw [available_of_pool pool]
    exact dir.inUse other table valid found

theorem hugeResult_alike {old value : Nat} (alike : Alike old value)
    (present : old.testBit presentBit = true) (virt : UInt64) :
    hugeResult value virt = hugeResult old virt := by
  have page : value / 2 ^ 21 = old / 2 ^ 21 := by
    obtain ⟨extra, small, rfl⟩ := alike
    exact or_div (Nat.lt_trans small (by decide))
  simp only [hugeResult, alike.present present, present, page,
    alike.testBit (show 3 ≤ hugeBit by decide)]

section

variable (dir : Directory pmm root) (valid : PathUpTo 2 path)
  (place : nodeAt pmm.ram root path = some parent)
include dir valid place

theorem Directory.kept_translation
    (present : (entryAt pmm.ram parent index).testBit presentBit = true)
    (alike : Alike (entryAt pmm.ram parent index) value)
    (entries : EntryStep pmm.ram after.ram parent index value)
    (pool : after = { pmm with ram := after.ram }) : SameTranslation pmm.ram after.ram root := by
  intro virt
  have same : ∀ other, PathUpTo 3 other → nodeAt after.ram root other = nodeAt pmm.ram root other :=
    fun _ valid => dir.nodes_kept present alike entries valid
  have whole := tablePath_valid virt
  have upper : PathUpTo 3 (tablePath virt).tail := whole.tail
  rw [vmmGetPhysical_eq dir.tree, vmmGetPhysical_eq (dir.kept present alike entries pool).tree]
  simp only [lookupAt, same _ whole, same _ upper]
  cases found : nodeAt pmm.ram root (tablePath virt) with
  | some pt =>
      have elsewhere : ¬(pt = parent ∧ pageOf virt = index) := by
        rintro ⟨rfl, _⟩
        have paths := dir.tree.apart _ _ _ whole (valid.mono (by decide)) found place
        have length := valid.1
        rw [← paths] at length
        simp [tablePath] at length
      simp only [entries pt _ (dir.node_aligned found) (pageOf_lt virt), if_neg elsewhere]
  | none =>
      cases above : nodeAt pmm.ram root (tablePath virt).tail with
      | none => rfl
      | some pd =>
          have entry := entries pd (pdIndex (alignDown virt.toNat)) (dir.node_aligned above)
            whole.head
          split at entry
          · rename_i here
            simp only [entry]
            rw [hugeResult_alike alike present, here.1, here.2]
          · simp only [entry]

theorem Grew.entry (took : Took pmm after frame)
    (entries : LinkStep pmm.ram after.ram parent index frame value contents)
    {other : List Nat} {table position : Nat} (otherValid : PathUpTo 3 other)
    (found : nodeAt pmm.ram root other = some table) (bound : position < 512) :
    entryAt after.ram table position =
      if other = path ∧ position = index then value else entryAt pmm.ram table position := by
  have old : table ≠ frame := by
    rintro rfl
    exact dir.inUse other table otherValid found took.available
  rw [entries table position (dir.node_aligned found) bound, if_neg old]
  by_cases here : other = path ∧ position = index
  · obtain ⟨rfl, rfl⟩ := here
    rw [place] at found
    cases found
    rw [if_pos ⟨rfl, rfl⟩, if_pos ⟨rfl, rfl⟩]
  · rw [if_neg here, if_neg]
    rintro ⟨rfl, rfl⟩
    exact here ⟨dir.tree.apart _ _ _ otherValid (valid.mono (by decide)) found place, rfl⟩

theorem Directory.nodes_grown
    (bound : index < 512) (missing : nodeAt pmm.ram root (index :: path) = none)
    (blank : path.length < 2 → ∀ position < 512, contents position = 0)
    (grew : Grew pmm after parent index frame contents)
    {other : List Nat} (otherValid : PathUpTo 3 other) :
    nodeAt after.ram root other =
      if other = index :: path then some frame else nodeAt pmm.ram root other := by
  obtain ⟨_, took, value, link, entries⟩ := grew
  refine walk_update (fun _ _ => PathUpTo.tail) ?_ place ?_ ?_ otherValid
  · intro before step node allowed found elsewhere
    apply childNode_congr
    rw [Grew.entry dir valid place took entries allowed.tail found allowed.head, if_neg elsewhere]
  · apply childNode_link took.available.1
    rw [Grew.entry dir valid place took entries (valid.mono (by decide)) place bound,
      if_pos ⟨rfl, rfl⟩]
    exact link
  · intro step allowed
    refine ⟨missing, ?_⟩
    intro node same
    cases same
    apply childNode_zero
    rw [entries frame step took.available.1 allowed.head, if_pos rfl]
    have short := allowed.1
    simp only [List.length_cons] at short
    exact blank (by omega) step allowed.head

theorem Directory.grown (bound : index < 512) (missing : nodeAt pmm.ram root (index :: path) = none)
    (blank : path.length < 2 → ∀ position < 512, contents position = 0)
    (tidy : ∀ position < 512, (contents position).testBit presentBit = false →
      contents position = 0)
    (grew : Grew pmm after parent index frame contents) : Directory after root := by
  have nodes : ∀ other, PathUpTo 3 other → nodeAt after.ram root other =
      if other = index :: path then some frame else nodeAt pmm.ram root other :=
    fun _ otherValid => dir.nodes_grown valid place bound missing blank grew otherValid
  obtain ⟨_, took, value, link, entries⟩ := grew
  have fresh : ∀ other, PathUpTo 3 other → nodeAt pmm.ram root other ≠ some frame :=
    fun other otherValid found => dir.inUse other frame otherValid found took.available
  have linkBits : value.testBit presentBit = true ∧ value.testBit hugeBit = false := by
    obtain ⟨flags, small, rfl, present, notHuge⟩ := link
    rw [Nat.testBit_or, Nat.testBit_or, present, notHuge,
      testBit_aligned took.available.1 (show hugeBit < 12 by decide)]
    simp
  refine ⟨dir.based.of_sameBounds took.bounds, ⟨dir.tree.aligned, ?_, ?_, ?_, ?_⟩, ?_⟩
  · intro left right node leftValid rightValid leftFound rightFound
    change nodeAt after.ram root left = some node at leftFound
    change nodeAt after.ram root right = some node at rightFound
    rw [nodes left leftValid] at leftFound
    rw [nodes right rightValid] at rightFound
    split at leftFound
    · rename_i leftNew
      split at rightFound
      · rename_i rightNew
        rw [leftNew, rightNew]
      · cases leftFound
        exact absurd rightFound (fresh right rightValid)
    · split at rightFound
      · cases rightFound
        exact absurd leftFound (fresh left leftValid)
      · exact dir.tree.apart left right node leftValid rightValid leftFound rightFound
  · intro other table otherValid found
    rw [nodes other otherValid] at found
    split at found
    · cases found
      exact Nat.lt_trans (took.available.small dir.based) (by decide)
    · exact dir.tree.direct other table otherValid found
  · intro other table position otherValid found positionBound absent
    rw [nodes other otherValid] at found
    split at found
    · cases found
      rw [entries frame position took.available.1 positionBound, if_pos rfl] at absent ⊢
      exact tidy position positionBound absent
    · rw [Grew.entry dir valid place took entries otherValid found positionBound] at absent ⊢
      split at absent
      · rw [linkBits.1] at absent
        contradiction
      · rename_i elsewhere
        rw [if_neg elsewhere]
        exact dir.tree.zero other table position otherValid found positionBound absent
  · intro slot table position slotBound found positionBound
    have slotValid : PathUpTo 3 [slot] := ⟨by simp, by simpa using slotBound⟩
    rw [nodes [slot] slotValid] at found
    split at found
    · rename_i new
      cases found
      have short : path.length < 2 := by
        have length := congrArg List.length new
        simp only [List.length_cons, List.length_nil] at length
        omega
      rw [entries frame position took.available.1 positionBound, if_pos rfl,
        blank short position positionBound, Nat.zero_testBit]
    · rw [Grew.entry dir valid place took entries slotValid found positionBound]
      split
      · exact linkBits.2
      · exact dir.tree.noGiant slot table position slotBound found positionBound
  · intro other table otherValid found available
    rw [nodes other otherValid] at found
    split at found
    · cases found
      exact took.not_available available
    · exact dir.inUse other table otherValid found (took.available_before available)

theorem Directory.grown_translation
    (bound : index < 512) (missing : nodeAt pmm.ram root (index :: path) = none)
    (blank : path.length < 2 → ∀ position < 512, contents position = 0)
    (tidy : ∀ position < 512, (contents position).testBit presentBit = false →
      contents position = 0)
    (agree : ∀ virt, tablePath virt = index :: path →
      pageResult (contents (pageOf virt)) virt = hugeResult (entryAt pmm.ram parent index) virt)
    (grew : Grew pmm after parent index frame contents) :
    SameTranslation pmm.ram after.ram root := by
  intro virt
  have whole := tablePath_valid virt
  have upper : PathUpTo 3 (tablePath virt).tail := whole.tail
  rw [vmmGetPhysical_eq dir.tree,
    vmmGetPhysical_eq (dir.grown valid place bound missing blank tidy grew).tree]
  simp only [lookupAt, dir.nodes_grown valid place bound missing blank grew whole,
    dir.nodes_grown valid place bound missing blank grew upper]
  obtain ⟨_, took, value, link, entries⟩ := grew
  by_cases here : tablePath virt = index :: path
  · -- the new table serves the address: its contents say what the old entry said
    have directoryIndex : pdIndex (alignDown virt.toNat) = index := by
      simp only [tablePath, List.cons.injEq] at here
      exact here.1
    rw [if_pos here]
    simp only [entries frame _ took.available.1 (pageOf_lt virt), if_true,
      List.tail_cons, place, here, missing, directoryIndex]
    exact agree virt here
  · rw [if_neg here]
    cases found : nodeAt pmm.ram root (tablePath virt) with
    | some pt =>
        have longer : ¬(tablePath virt = path ∧ pageOf virt = index) := by
          rintro ⟨same, _⟩
          have length := valid.1
          rw [← same] at length
          simp [tablePath] at length
        simp only [Grew.entry dir valid place took entries whole found (pageOf_lt virt),
          if_neg longer]
    | none =>
        by_cases above : (tablePath virt).tail = index :: path
        · rw [if_pos above, above]
          have short : path.length < 2 := by
            have length := congrArg List.length above
            simp only [tablePath, List.tail_cons, List.length_cons, List.length_nil] at length
            omega
          simp only [entries frame _ took.available.1 whole.head, if_true,
            blank short _ whole.head, missing]
          simp [hugeResult]
        · rw [if_neg above]
          cases pdFound : nodeAt pmm.ram root (tablePath virt).tail with
          | none => rfl
          | some pd =>
              have elsewhere : ¬((tablePath virt).tail = path ∧
                  pdIndex (alignDown virt.toNat) = index) := by
                rintro ⟨same, first⟩
                apply here
                rw [← same, ← first]
                rfl
              simp only [Grew.entry dir valid place took entries upper pdFound whole.head,
                if_neg elsewhere]

end

theorem nodes_of_entries {ram changed : Mem}
    (same : ∀ other table position, PathUpTo 3 other → nodeAt ram root other = some table →
      position < 512 → entryAt changed table position = entryAt ram table position)
    (other : List Nat) (valid : PathUpTo 3 other) : nodeAt changed root other =
    nodeAt ram root other := by
  refine walk_congr (fun _ _ => PathUpTo.tail) ?_ valid
  intro before step node allowed found
  exact childNode_congr (same before node step allowed.tail found allowed.head)

theorem Directory.of_entries (dir : Directory pmm root) (based : ZeroBased after)
    (same : ∀ other table position, PathUpTo 3 other → nodeAt pmm.ram root other = some table →
      position < 512 → entryAt after.ram table position = entryAt pmm.ram table position)
    (fewer : ∀ frame, Available after frame → Available pmm frame) :
    Directory after root ∧ SameTranslation pmm.ram after.ram root := by
  have nodes := nodes_of_entries same
  have kept : Directory after root := by
    refine ⟨based, ⟨dir.tree.aligned, dir.tree.apart.of_eq nodes, ?_, ?_, ?_⟩, ?_⟩
    · intro other table valid found
      exact dir.tree.direct other table valid (nodes other valid ▸ found)
    · intro other table position valid found bound absent
      rw [nodes other valid] at found
      rw [same other table position valid found bound] at absent ⊢
      exact dir.tree.zero other table position valid found bound absent
    · intro slot table position slotBound found bound
      have valid : PathUpTo 3 [slot] := ⟨by simp, by simpa using slotBound⟩
      rw [nodes [slot] valid] at found
      rw [same [slot] table position valid found bound]
      exact dir.tree.noGiant slot table position slotBound found bound
    · intro other table valid found available
      exact dir.inUse other table valid (nodes other valid ▸ found) (fewer table available)
  refine ⟨kept, ?_⟩
  intro virt
  have whole := tablePath_valid virt
  have upper : PathUpTo 3 (tablePath virt).tail := whole.tail
  rw [vmmGetPhysical_eq dir.tree, vmmGetPhysical_eq kept.tree]
  simp only [lookupAt, nodes _ whole, nodes _ upper]
  cases found : nodeAt pmm.ram root (tablePath virt) with
  | some pt => simp only [same _ pt _ whole found (pageOf_lt virt)]
  | none =>
      cases pdFound : nodeAt pmm.ram root (tablePath virt).tail with
      | none => rfl
      | some pd => simp only [same _ pd _ upper pdFound whole.head]

theorem Directory.no_frame (dir : Directory pmm root) (noFrame : NoFrame pmm after) :
    Directory after root ∧ SameTranslation pmm.ram after.ram root := by
  rcases noFrame with rfl | ⟨took, zeroed⟩
  · exact ⟨dir, fun _ => rfl⟩
  · refine dir.of_entries (dir.based.of_sameBounds took.bounds) ?_
      (fun frame available => took.available_before available)
    intro other table position valid found bound
    have apart : table ≠ 0 := by
      rintro rfl
      exact dir.inUse other 0 valid found took.available
    rw [zeroed, entryAt_fill took.available.1 (dir.node_aligned found) bound, if_neg apart]

theorem Directory.table_step (dir : Directory pmm root) {table : Nat} (valid : PathUpTo 2 path)
    (place : nodeAt pmm.ram root path = some parent) (bound : index < 512)
    (small : 0 < path.length → (entryAt pmm.ram parent index).testBit hugeBit = false)
    (step : TableStep pmm after parent index table) :
    Directory after root ∧ SameTranslation pmm.ram after.ram root ∧
      nodeAt after.ram root (index :: path) = some table := by
  have longer : PathUpTo 3 (index :: path) := valid.cons bound
  cases step with
  | kept value present alike entries pool =>
      refine ⟨dir.kept present alike entries pool,
        dir.kept_translation valid place present alike entries pool, ?_⟩
      rw [dir.nodes_kept present alike entries longer, nodeAt, walk_cons place]
      cases path with
      | nil => simp [childNode, present]
      | cons last path => simp [childNode, present, small (by simp)]
  | made _ absent grew =>
      have missing : nodeAt pmm.ram root (index :: path) = none := nodeAt_missing place absent
      have blank : path.length < 2 → ∀ position < 512, (fun _ : Nat => 0) position = 0 :=
        fun _ _ _ => rfl
      refine ⟨dir.grown valid place bound missing blank (fun _ _ _ => rfl) grew,
        dir.grown_translation valid place bound missing blank (fun _ _ _ => rfl) ?_ grew, ?_⟩
      · intro virt _
        simp [pageResult, hugeResult, absent]
      · rw [dir.nodes_grown valid place bound missing blank grew longer, if_pos rfl]

theorem splitContents_result {entry : Nat} (present : entry.testBit presentBit = true)
    (huge : entry.testBit hugeBit = true) (virt : UInt64) :
    pageResult (splitContents entry (pageOf virt)) virt = hugeResult entry virt := by
  have kind := smallFlags_kind entry
  have isPresent : (splitContents entry (pageOf virt)).testBit presentBit = true := by
    rw [splitContents, Nat.testBit_or, kind.2.1, Bool.or_true]
  have frame : alignDown (splitContents entry (pageOf virt)) =
      entry / 2 ^ 21 * 2 ^ 21 + pageOf virt * 4096 := by
    rw [splitContents, alignDown_or kind.1, alignDown_of_aligned]
    simp only [pageSize]
    omega
  simp only [pageResult, hugeResult, isPresent, present, huge, frame, Bool.and_self, if_true]
  simp only [pageOf, ptIndex, alignDown, pageSize]
  omega

theorem Directory.split_step (dir : Directory pmm root) (valid : PathUpTo 2 path)
    (deep : path.length = 2) (place : nodeAt pmm.ram root path = some parent)
    (bound : index < 512) (huge : (entryAt pmm.ram parent index).testBit hugeBit = true)
    (grew : Grew pmm after parent index frame (splitContents (entryAt pmm.ram parent index))) :
    Directory after root ∧ SameTranslation pmm.ram after.ram root ∧
      nodeAt after.ram root path = some parent ∧
      (entryAt after.ram parent index).testBit hugeBit = false := by
  have present : (entryAt pmm.ram parent index).testBit presentBit = true := by
    by_contra absent
    have zero := dir.tree.zero path parent index (valid.mono (by decide)) place bound
      (by simpa using absent)
    rw [zero] at huge
    simp at huge
  have missing : nodeAt pmm.ram root (index :: path) = none := by
    rw [nodeAt, walk_cons place]
    simp [childNode, deep, huge]
  have blank : path.length < 2 → ∀ position < 512,
      splitContents (entryAt pmm.ram parent index) position = 0 := by
    intro short
    omega
  have tidy : ∀ position < 512,
      (splitContents (entryAt pmm.ram parent index) position).testBit presentBit = false →
        splitContents (entryAt pmm.ram parent index) position = 0 := by
    intro position _ absent
    rw [splitContents, Nat.testBit_or, (smallFlags_kind _).2.1, Bool.or_true] at absent
    contradiction
  refine ⟨dir.grown valid place bound missing blank tidy grew,
    dir.grown_translation valid place bound missing blank tidy
      (fun virt _ => splitContents_result present huge virt) grew, ?_, ?_⟩
  · have shorter : path ≠ index :: path := by
      intro same
      have length := congrArg List.length same
      simp at length
    rw [dir.nodes_grown valid place bound missing blank grew (valid.mono (by decide)),
      if_neg shorter, place]
  · obtain ⟨_, took, value, ⟨flags, _, rfl, _, notHuge⟩, entries⟩ := grew
    rw [Grew.entry dir valid place took entries (valid.mono (by decide)) place bound,
      if_pos ⟨rfl, rfl⟩, Nat.testBit_or, notHuge,
      testBit_aligned took.available.1 (show hugeBit < 12 by decide)]
    rfl

theorem SameTranslation.trans {ram middle changed : Mem} (first : SameTranslation ram middle root)
    (second : SameTranslation middle changed root) : SameTranslation ram changed root :=
  fun virt => (second virt).trans (first virt)

/-- One level of the walk: it faults, gives up with every translation kept, or goes on
from a directory that translates alike and has the table in place. -/
theorem Directory.level (flags : Nat) (forceUser : Bool) (next : Nat → Pmm → Option (Bool × Pmm))
    (dir : Directory pmm root) (valid : PathUpTo 2 path)
    (place : nodeAt pmm.ram root path = some parent) (bound : index < 512)
    (small : 0 < path.length → (entryAt pmm.ram parent index).testBit hugeBit = false) :
    withTable pmm parent index flags forceUser next = none ∨
      (∃ after, withTable pmm parent index flags forceUser next = some (false, after) ∧
        SameTranslation pmm.ram after.ram root) ∨
      ∃ table after, Directory after root ∧ SameTranslation pmm.ram after.ram root ∧
        nodeAt after.ram root (index :: path) = some table ∧
        withTable pmm parent index flags forceUser next = next table after := by
  have wide := valid.mono (show 2 ≤ 3 by decide)
  have nonNull : parent ≠ nullTable := Nat.ne_of_lt (dir.tree.direct path parent wide place)
  rcases withTable_cases dir.based (dir.node_aligned place) nonNull bound
    (dir.inUse path parent wide place) with fault | ⟨after, failed, why⟩ | ⟨table, after, _, step, goes⟩
  · exact Or.inl fault
  · refine Or.inr (Or.inl ⟨after, failed, ?_⟩)
    rcases why with noFrame | step
    · exact (dir.no_frame noFrame).2
    · exact (dir.table_step valid place bound small step).2.1
  · obtain ⟨kept, same, found⟩ := dir.table_step valid place bound small step
    exact Or.inr (Or.inr ⟨table, after, kept, same, found, goes⟩)

theorem Directory.split_level (dir : Directory pmm root) (valid : PathUpTo 2 path)
    (deep : path.length = 2) (place : nodeAt pmm.ram root path = some parent)
    (bound : index < 512) :
    splitHugePage pmm parent index = none ∨
      (∃ after, splitHugePage pmm parent index = some (false, after) ∧
        SameTranslation pmm.ram after.ram root) ∨
      ∃ after, splitHugePage pmm parent index = some (true, after) ∧ Directory after root ∧
        SameTranslation pmm.ram after.ram root ∧ nodeAt after.ram root path = some parent ∧
        (entryAt after.ram parent index).testBit hugeBit = false := by
  have wide := valid.mono (show 2 ≤ 3 by decide)
  rcases splitHugePage_cases dir.based (dir.node_aligned place) bound
    (dir.inUse path parent wide place) with
    fault | ⟨after, failed, noFrame⟩ | ⟨small, notHuge⟩ | ⟨after, frame, splits, huge, grew⟩
  · exact Or.inl fault
  · exact Or.inr (Or.inl ⟨after, failed, (dir.no_frame noFrame).2⟩)
  · exact Or.inr (Or.inr ⟨pmm, small, dir, fun _ => rfl, place, notHuge⟩)
  · exact Or.inr (Or.inr ⟨after, splits, dir.split_step valid deep place bound huge grew⟩)

theorem mapWalk_cases (flags : Nat) (forceUser : Bool) (leaf : Nat) (dir : Directory pmm root)
    (virt : UInt64) :
    mapWalk pmm root (alignDown virt.toNat) flags forceUser leaf = none ∨
      (∃ after, mapWalk pmm root (alignDown virt.toNat) flags forceUser leaf =
          some (false, after) ∧ SameTranslation pmm.ram after.ram root) ∨
      ∃ pt middle, Directory middle root ∧ SameTranslation pmm.ram middle.ram root ∧
        nodeAt middle.ram root (tablePath virt) = some pt ∧
        mapWalk pmm root (alignDown virt.toNat) flags forceUser leaf =
          some (true, { middle with ram := setEntry middle.ram pt (pageOf virt) leaf }) := by
  have whole := tablePath_valid virt
  have slotBound : pml4Index (alignDown virt.toNat) < 512 := whole.tail.tail.head
  have rootValid : PathUpTo 2 [] := ⟨by simp, by simp⟩
  have rootNode : nodeAt pmm.ram root [] = some root := rfl
  unfold mapWalk
  rcases dir.level flags forceUser _ rootValid rootNode slotBound (by simp) with
    fault | ⟨after, failed, same⟩ | ⟨pdp, first, firstDir, firstSame, pdpNode, goes⟩
  · exact Or.inl fault
  · exact Or.inr (Or.inl ⟨after, failed, same⟩)
  rw [goes]
  have pdpValid : PathUpTo 2 [pml4Index (alignDown virt.toNat)] := ⟨by simp, by simpa using slotBound⟩
  have pdpBound : pdpIndex (alignDown virt.toNat) < 512 := whole.tail.head
  rcases firstDir.level flags forceUser _ pdpValid pdpNode pdpBound
      (fun _ => firstDir.tree.noGiant _ pdp _ slotBound pdpNode pdpBound) with
    fault | ⟨after, failed, same⟩ | ⟨pd, second, secondDir, secondSame, pdNode, goes⟩
  · exact Or.inl fault
  · exact Or.inr (Or.inl ⟨after, failed, firstSame.trans same⟩)
  rw [goes]
  have pdValid : PathUpTo 2 [pdpIndex (alignDown virt.toNat), pml4Index (alignDown virt.toNat)] :=
    ⟨Nat.le_refl _, whole.tail.2⟩
  have pdBound : pdIndex (alignDown virt.toNat) < 512 := whole.head
  rcases secondDir.split_level pdValid rfl pdNode pdBound with
    fault | ⟨after, failed, same⟩ | ⟨third, splits, thirdDir, thirdSame, pdStays, notHuge⟩
  · rw [fault]
    exact Or.inl rfl
  · rw [failed]
    exact Or.inr (Or.inl ⟨after, rfl, firstSame.trans (secondSame.trans same)⟩)
  rw [splits]
  dsimp only
  rcases thirdDir.level flags forceUser _ pdValid pdStays pdBound (fun _ => notHuge) with
    fault | ⟨after, failed, same⟩ | ⟨pt, fourth, fourthDir, fourthSame, ptNode, goes⟩
  · exact Or.inl fault
  · exact Or.inr (Or.inl ⟨after, failed,
      firstSame.trans (secondSame.trans (thirdSame.trans same))⟩)
  · exact Or.inr (Or.inr ⟨pt, fourth, fourthDir,
      firstSame.trans (secondSame.trans (thirdSame.trans fourthSame)), ptNode, goes⟩)

theorem Directory.set_leaf (dir : Directory pmm root) {virt : UInt64} {pt leaf : Nat}
    (place : nodeAt pmm.ram root (tablePath virt) = some pt) (small : leaf < 2 ^ 64)
    (kind : leaf.testBit presentBit = true ∨ leaf = 0) :
    Directory { pmm with ram := setEntry pmm.ram pt (pageOf virt) leaf } root ∧
      (∀ path, PathUpTo 3 path →
        nodeAt (setEntry pmm.ram pt (pageOf virt) leaf) root path = nodeAt pmm.ram root path) ∧
      ∀ other, vmmGetPhysical (setEntry pmm.ram pt (pageOf virt) leaf) root other =
        if tablePath other = tablePath virt ∧ pageOf other = pageOf virt then pageResult leaf other
        else vmmGetPhysical pmm.ram root other := by
  have entries := @setEntry_step pmm.ram pt (pageOf virt) leaf (dir.node_aligned place)
    (pageOf_lt virt) small
  generalize setEntry pmm.ram pt (pageOf virt) leaf = stored at entries ⊢
  -- only a path of three indices ends in `pt`
  have entry : ∀ path table position, PathUpTo 3 path → nodeAt pmm.ram root path = some table →
      position < 512 → entryAt stored table position =
        if path = tablePath virt ∧ position = pageOf virt then leaf
        else entryAt pmm.ram table position := by
    intro path table position valid found bound
    rw [entries table position (dir.node_aligned found) bound]
    by_cases here : path = tablePath virt ∧ position = pageOf virt
    · obtain ⟨rfl, rfl⟩ := here
      rw [place] at found
      cases found
      rw [if_pos ⟨rfl, rfl⟩, if_pos ⟨rfl, rfl⟩]
    · rw [if_neg here, if_neg]
      rintro ⟨rfl, rfl⟩
      exact here ⟨dir.tree.apart _ _ _ valid (tablePath_valid virt) found place, rfl⟩
  have shorter : ∀ path position, path.length ≤ 2 →
      ¬(path = tablePath virt ∧ position = pageOf virt) := by
    rintro path position short ⟨rfl, _⟩
    simp [tablePath] at short
  have nodes : ∀ path, PathUpTo 3 path → nodeAt stored root path = nodeAt pmm.ram root path := by
    intro path valid
    refine walk_congr (fun _ _ => PathUpTo.tail) ?_ valid
    intro before step node allowed found
    apply childNode_congr
    rw [entry before node step allowed.tail found allowed.head,
      if_neg (shorter before step (Nat.le_of_succ_le_succ allowed.1))]
  have tree : PageTree stored root := by
    refine ⟨dir.tree.aligned, dir.tree.apart.of_eq nodes, ?_, ?_, ?_⟩
    · intro path table valid found
      exact dir.tree.direct path table valid (nodes path valid ▸ found)
    · intro path table position valid found bound absent
      rw [nodes path valid] at found
      rw [entry path table position valid found bound] at absent ⊢
      split at absent
      · rename_i here
        rw [if_pos here]
        apply kind.resolve_left
        simp [absent]
      · rename_i elsewhere
        rw [if_neg elsewhere]
        exact dir.tree.zero path table position valid found bound absent
    · intro slot table position slotBound found bound
      have valid : PathUpTo 3 [slot] := ⟨by simp, by simpa using slotBound⟩
      rw [nodes [slot] valid] at found
      rw [entry [slot] table position valid found bound,
        if_neg (shorter [slot] position (by simp))]
      exact dir.tree.noGiant slot table position slotBound found bound
  refine ⟨⟨⟨dir.based.start, dir.based.covered, dir.based.small⟩, tree, ?_⟩, nodes, fun other => ?_⟩
  · intro path table valid found available
    exact dir.inUse path table valid (nodes path valid ▸ found) available
  have whole := tablePath_valid other
  have upper : PathUpTo 3 (tablePath other).tail := whole.tail
  rw [vmmGetPhysical_eq tree, vmmGetPhysical_eq dir.tree]
  simp only [lookupAt, nodes _ whole, nodes _ upper]
  by_cases here : tablePath other = tablePath virt ∧ pageOf other = pageOf virt
  · rw [if_pos here, here.1, here.2, place]
    simp only [entry _ pt _ (tablePath_valid virt) place (pageOf_lt virt), and_self, if_true]
  · rw [if_neg here]
    cases found : nodeAt pmm.ram root (tablePath other) with
    | some table => simp only [entry _ table _ whole found (pageOf_lt other), if_neg here]
    | none =>
        cases above : nodeAt pmm.ram root (tablePath other).tail with
        | none => rfl
        | some pd =>
            have high := shorter (tablePath other).tail (pdIndex (alignDown other.toNat))
              (by simp [tablePath])
            simp only [entry _ pd _ upper above whole.head, if_neg high]

theorem Directory.store_leaf (dir : Directory pmm root) {virt : UInt64} {pt leaf : Nat}
    (place : nodeAt pmm.ram root (tablePath virt) = some pt) (small : leaf < 2 ^ 64)
    (present : leaf.testBit presentBit = true) (other : UInt64) :
    vmmGetPhysical (setEntry pmm.ram pt (pageOf virt) leaf) root other =
      if tablePath other = tablePath virt ∧ pageOf other = pageOf virt then
        alignDown leaf + other.toNat % 4096
      else vmmGetPhysical pmm.ram root other := by
  obtain ⟨_, _, translates⟩ := dir.set_leaf place small (Or.inl present)
  rw [translates other, pageResult, if_pos present]

end Steps

theorem same_page_iff {left right : UInt64} (leftCanonical : isCanonical left = true)
    (rightCanonical : isCanonical right = true) :
    (tablePath left = tablePath right ∧ pageOf left = pageOf right) ↔
      left.toNat / 4096 = right.toNat / 4096 := by
  have leftSmall := left.toNat_lt
  have rightSmall := right.toNat_lt
  simp only [isCanonical, Bool.or_eq_true, decide_eq_true_eq] at leftCanonical rightCanonical
  simp only [tablePath, pageOf, pml4Index, pdpIndex, pdIndex, ptIndex, alignDown, pageSize,
    List.cons.injEq, and_true]
  omega

theorem and_frameMask {phys : Nat} (aligned : phys % pageSize = 0) (small : phys < 2 ^ 52) :
    phys &&& 0x000FFFFFFFFFF000 = phys := by
  have mask : 0x000FFFFFFFFFF000 = (2 ^ 40 - 1) <<< 12 := by decide
  apply Nat.eq_of_testBit_eq
  intro bit
  rw [mask, Nat.testBit_and, Nat.testBit_shiftLeft, Nat.testBit_two_pow_sub_one]
  by_cases low : bit < 12
  · rw [testBit_aligned aligned low, Bool.false_and]
  · by_cases high : 52 ≤ bit
    · rw [Nat.testBit_lt_two_pow (Nat.lt_of_lt_of_le small (Nat.pow_le_pow_right (by decide) high)),
        Bool.false_and]
    · simp only [show 12 ≤ bit by omega, show bit - 12 < 40 by omega, decide_true, Bool.and_self,
        Bool.and_true]

section Mapping

variable {pmm after : Pmm} {root : Nat} {virt phys : UInt64} {flags : UInt32} {mapped : Bool}

theorem mapWalk_translates {walkFlags low : Nat} {forceUser : Bool} (dir : Directory pmm root)
    (canonical : isCanonical virt = true) (aligned : phys.toNat % pageSize = 0)
    (small : phys.toNat < 2 ^ 52) (lowSmall : low < 2 ^ 12)
    (called : mapWalk pmm root (alignDown virt.toNat) walkFlags forceUser
      (phys.toNat ||| low ||| pagePresent) = some (mapped, after)) :
    (mapped = true → ∀ other, isCanonical other = true → vmmGetPhysical after.ram root other =
      if other.toNat / 4096 = virt.toNat / 4096 then phys.toNat + other.toNat % 4096
      else vmmGetPhysical pmm.ram root other) ∧
    (mapped = false → SameTranslation pmm.ram after.ram root) := by
  rcases mapWalk_cases walkFlags forceUser (phys.toNat ||| low ||| pagePresent) dir virt with
    fault | ⟨final, failed, same⟩ | ⟨pt, middle, middleDir, same, place, stored⟩
  · rw [fault] at called
    contradiction
  · rw [failed] at called
    cases called
    exact ⟨by simp, fun _ => same⟩
  · rw [stored] at called
    cases called
    refine ⟨fun _ other otherCanonical => ?_, by simp⟩
    obtain ⟨leafSmall, leafPresent, leafFrame⟩ := leaf_kind aligned small lowSmall
    rw [middleDir.store_leaf place leafSmall leafPresent other, leafFrame]
    simp only [same_page_iff otherCanonical canonical]
    split
    · rfl
    · exact same other

/-- After a successful mapping the page translates to `phys` and every other canonical
address as before; after a failed one every address translates as before. -/
theorem vmm_map_translates (map : Pmm → Nat → UInt64 → UInt64 → UInt32 → Option (Bool × Pmm))
    (either : map = vmmMapPage ∨ map = vmmMapUserPage) (dir : Directory pmm root)
    (aligned : phys.toNat % 4096 = 0) (small : phys.toNat < 2 ^ 52)
    (flagsSmall : flags.toNat < 2 ^ 12)
    (called : map pmm root virt phys flags = some (mapped, after)) :
    (mapped = true → ∀ other, isCanonical other = true → vmmGetPhysical after.ram root other =
      if other.toNat / 4096 = virt.toNat / 4096 then phys.toNat + other.toNat % 4096
      else vmmGetPhysical pmm.ram root other) ∧
    (mapped = false → ∀ other,
      vmmGetPhysical after.ram root other = vmmGetPhysical pmm.ram root other) := by
  have frame : alignDown phys.toNat = phys.toNat := alignDown_of_aligned aligned
  have userSmall : flags.toNat ||| pageUser < 2 ^ 12 := Nat.or_lt_two_pow flagsSmall (by decide)
  cases canonical : isCanonical virt with
  | false =>
      have unchanged : mapped = false ∧ after = pmm := by
        rcases either with rfl | rfl
        · simpa [vmmMapPage, canonical, eq_comm] using called
        · simpa [vmmMapUserPage, canonical, eq_comm] using called
      obtain ⟨rfl, rfl⟩ := unchanged
      exact ⟨by simp, fun _ _ => rfl⟩
  | true =>
      rcases either with rfl | rfl
      · rw [vmmMapPage, canonical, frame, and_frameMask aligned small] at called
        exact mapWalk_translates dir canonical aligned small
          (Nat.lt_of_le_of_lt Nat.and_le_right (by decide)) called
      · rw [vmmMapUserPage, canonical, frame] at called
        exact mapWalk_translates dir canonical aligned small userSmall called

end Mapping

def blankPmm : Pmm :=
  { bitmap := fun index => if index = 0 then 0xF else 0, totalPages := 8, usedPages := 4,
    start := 0, stop := 0x8000, lastAllocHint := 0, ram := fun _ => 0 }

theorem blank_entry (table index : Nat) : entryAt blankPmm.ram table index = 0 :=
  Mem.readLE_zero fun _ _ => rfl

theorem blank_node {path : List Nat} {table : Nat}
    (found : nodeAt blankPmm.ram 0x1000 path = some table) : path = [] ∧ table = 0x1000 := by
  cases path with
  | nil =>
      simp only [nodeAt, walk, Option.some.injEq] at found
      exact ⟨rfl, found.symm⟩
  | cons index path =>
      obtain ⟨parent, _, step⟩ := walk_parent found
      rw [childNode_zero (blank_entry parent index)] at step
      contradiction

theorem blank_directory : Directory blankPmm 0x1000 := by
  refine ⟨⟨rfl, by decide, by decide⟩, ⟨rfl, ?_, ?_, ?_, ?_⟩, ?_⟩
  · intro left right node _ _ leftFound rightFound
    rw [(blank_node leftFound).1, (blank_node rightFound).1]
  · intro path table _ found
    rw [(blank_node found).2]
    decide
  · intro path table index _ _ _ _
    exact blank_entry table index
  · intro slot table index _ _ _
    rw [blank_entry, Nat.zero_testBit]
  · intro path table _ found available
    rw [(blank_node found).2] at available
    exact available.2.2 (by decide)

theorem vmm_map_translates_blank : ∃ after,
    vmmMapUserPage blankPmm 0x1000 0x8000400000 0x3000 3 = some (true, after) ∧
      vmmGetPhysical after.ram 0x1000 0x8000400123 = 0x3123 := by
  have runs : ((vmmMapUserPage blankPmm 0x1000 0x8000400000 0x3000 3).map Prod.fst) = some true := by
    decide +kernel
  obtain ⟨⟨mapped, after⟩, called, success⟩ := Option.map_eq_some_iff.mp runs
  cases success
  have translated := (vmm_map_translates vmmMapUserPage (Or.inr rfl) blank_directory (by decide)
    (by decide) (by decide) called).1 rfl 0x8000400123 (by decide)
  refine ⟨after, called, ?_⟩
  rw [translated]
  decide

end Szczupak
