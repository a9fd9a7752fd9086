import Szczupak.Mm.PageTree

/-!
Who owns the frames of an address space.  A new directory shares the kernel's entry 0
and upper half; what hangs below its other slots was taken from the page allocator for
it alone, and that is what tearing it down gives back.
-/

namespace Szczupak

def Reachable (ram : Mem) (root frame : Nat) : Prop :=
  ∃ path, PathUpTo 4 path ∧ nodeAt ram root path = some frame

def Held (pmm : Pmm) (frame : Nat) : Prop :=
  frame % pageSize = 0 ∧ frame / pageSize < pmm.totalPages ∧ frame / pageSize ∈ usedSet pmm

structure KernelDirectory (pmm : Pmm) (kernelRoot : Nat) : Prop where
  based : ZeroBased pmm
  aligned : kernelRoot % pageSize = 0
  inUse : ∀ frame, Reachable pmm.ram kernelRoot frame → ¬Available pmm frame
  rootApart : ∀ path, PathUpTo 3 path → nodeAt pmm.ram kernelRoot path = some kernelRoot → path = []
  noGiant : ∀ slot pdp index, slot < 512 → nodeAt pmm.ram kernelRoot [slot] = some pdp →
    index < 512 → (entryAt pmm.ram pdp index).testBit hugeBit = false

/-- PML4 slots the directory does not share; `low` says that the kernel's slot 0 is
present. -/
def OwnSlot (low : Bool) (slot : Nat) : Prop := slot < 256 ∧ (slot ≠ 0 ∨ low = false)

def OwnPath (low : Bool) (path : List Nat) : Prop :=
  PathUpTo 4 path ∧ ∀ slot ∈ path.getLast?, OwnSlot low slot

structure AddressSpace (low : Bool) (kernelRoot root : Nat) (pmm : Pmm) : Prop where
  kernel : KernelDirectory pmm kernelRoot
  aligned : root % pageSize = 0
  shared : ∀ slot < 512, ¬OwnSlot low slot →
    entryAt pmm.ram root slot = entryAt pmm.ram kernelRoot slot
  apart : WalksApart (childNode pmm.ram) root (OwnPath low)
  held : ∀ path node, OwnPath low path → nodeAt pmm.ram root path = some node → Held pmm node
  foreign : ∀ path node, OwnPath low path → nodeAt pmm.ram root path = some node →
    ¬Reachable pmm.ram kernelRoot node
  small : ∀ path table index, OwnPath low path → 0 < path.length → path.length < 3 →
    nodeAt pmm.ram root path = some table → index < 512 →
    (entryAt pmm.ram table index).testBit hugeBit = false

section Paths

variable {low : Bool} {index : Nat} {path : List Nat}

theorem OwnPath.tail (own : OwnPath low (index :: path)) : OwnPath low path := by
  refine ⟨own.1.tail, ?_⟩
  cases path with
  | nil => simp
  | cons next path =>
      have last := own.2
      rwa [List.getLast?_cons_cons] at last

theorem OwnPath.cons (own : OwnPath low path) (bound : index < 512) (short : path.length < 4)
    (slot : path = [] → OwnSlot low index) : OwnPath low (index :: path) := by
  refine ⟨⟨short, (own.1.cons bound).2⟩, ?_⟩
  cases path with
  | nil => simpa using slot rfl
  | cons next path =>
      rw [List.getLast?_cons_cons]
      exact own.2

theorem ownPath_nil : OwnPath low [] := ⟨⟨by simp, by simp⟩, by simp⟩

variable {frame : Nat}

theorem Held.not_available {pmm : Pmm} (held : Held pmm frame) :
    ¬Available pmm frame := fun available => available.2.2 held.2.2

end Paths

structure PoolKept (pmm after : Pmm) : Prop where
  based : ZeroBased after
  fewer : ∀ frame, Available after frame → Available pmm frame
  holds : ∀ frame, Held pmm frame → Held after frame

theorem Took.pool {pmm after : Pmm} (took : Took pmm after frame)
    (based : ZeroBased pmm) : PoolKept pmm after := by
  refine ⟨based.of_sameBounds took.bounds, fun _ available => took.available_before available, ?_⟩
  rintro other ⟨aligned, managed, used⟩
  refine ⟨aligned, took.bounds.totalPages ▸ managed, ?_⟩
  rw [took.used]
  exact Finset.mem_insert_of_mem used

theorem Took.held {pmm after : Pmm} (took : Took pmm after frame) :
    Held after frame := by
  refine ⟨took.available.1, took.bounds.totalPages ▸ took.available.2.1, ?_⟩
  rw [took.used]
  exact Finset.mem_insert_self _ _

theorem PoolKept.of_ram {pmm : Pmm} (based : ZeroBased pmm) (ram : Mem) :
    PoolKept pmm { pmm with ram } := by
  have same : usedSet { pmm with ram } = usedSet pmm := usedSet_congr rfl rfl
  refine ⟨⟨based.start, based.covered, based.small⟩, ?_, ?_⟩
  · rintro frame ⟨aligned, managed, unused⟩
    rw [same] at unused
    exact ⟨aligned, managed, unused⟩
  · rintro frame ⟨aligned, managed, used⟩
    rw [← same] at used
    exact ⟨aligned, managed, used⟩

section Kernel

variable {pmm after : Pmm} {kernelRoot : Nat}

theorem nodeAt_same {ram changed : Mem} {root depth : Nat} {path : List Nat}
    (same : ∀ other table position, PathUpTo depth (position :: other) →
      nodeAt ram root other = some table →
      entryAt changed table position = entryAt ram table position)
    (valid : PathUpTo depth path) : nodeAt changed root path = nodeAt ram root path := by
  refine walk_congr (fun _ _ => PathUpTo.tail) ?_ valid
  intro before step node allowed found
  exact childNode_congr (same before node step allowed found)

theorem KernelDirectory.of_entries (kernel : KernelDirectory pmm kernelRoot)
    (pool : PoolKept pmm after)
    (same : ∀ table position, Reachable pmm.ram kernelRoot table → table % pageSize = 0 →
      position < 512 → entryAt after.ram table position = entryAt pmm.ram table position) :
    KernelDirectory after kernelRoot ∧
      (∀ frame, Reachable after.ram kernelRoot frame ↔ Reachable pmm.ram kernelRoot frame) := by
  have nodes : ∀ path, PathUpTo 4 path →
      nodeAt after.ram kernelRoot path = nodeAt pmm.ram kernelRoot path := by
    intro path valid
    refine nodeAt_same ?_ valid
    intro other table position allowed found
    exact same table position ⟨other, allowed.tail, found⟩ (nodeAt_aligned kernel.aligned found)
      allowed.head
  have reach : ∀ frame, Reachable after.ram kernelRoot frame ↔
      Reachable pmm.ram kernelRoot frame := by
    intro frame
    constructor
    · rintro ⟨path, valid, found⟩
      exact ⟨path, valid, nodes path valid ▸ found⟩
    · rintro ⟨path, valid, found⟩
      exact ⟨path, valid, (nodes path valid).trans found⟩
  refine ⟨⟨pool.based, kernel.aligned, ?_, ?_, ?_⟩, reach⟩
  · intro frame reachable available
    exact kernel.inUse frame ((reach frame).mp reachable) (pool.fewer frame available)
  · intro path valid found
    exact kernel.rootApart path valid (nodes path (valid.mono (by decide)) ▸ found)
  · intro slot pdp index slotBound found bound
    have valid : PathUpTo 4 [slot] := ⟨by simp, by simpa using slotBound⟩
    rw [nodes [slot] valid] at found
    rw [same pdp index ⟨[slot], valid, found⟩ (nodeAt_aligned kernel.aligned found) bound]
    exact kernel.noGiant slot pdp index slotBound found bound

end Kernel

section Space

variable {low : Bool} {kernelRoot root parent index fresh value : Nat} {pmm after : Pmm}
  {path : List Nat}

theorem AddressSpace.node_aligned (space : AddressSpace low kernelRoot root pmm) {node : Nat}
    (found : nodeAt pmm.ram root path = some node) : node % pageSize = 0 :=
  nodeAt_aligned space.aligned found

def Spare (low : Bool) (kernelRoot root : Nat) (pmm : Pmm) (frame : Nat) : Prop :=
  ¬Reachable pmm.ram kernelRoot frame ∧
    ∀ path, OwnPath low path → nodeAt pmm.ram root path ≠ some frame

section

variable (space : AddressSpace low kernelRoot root pmm)
include space

theorem AddressSpace.spare
    (available : Available pmm frame) : Spare low kernelRoot root pmm frame := by
  refine ⟨fun reachable => space.kernel.inUse frame reachable available, ?_⟩
  intro path own found
  exact (space.held path frame own found).not_available available

theorem AddressSpace.spare_one :
    Spare low kernelRoot root pmm 1 := by
  constructor
  · rintro ⟨path, _, found⟩
    have aligned := nodeAt_aligned space.kernel.aligned found
    simp [pageSize] at aligned
  · intro path _ found
    have aligned := space.node_aligned found
    simp [pageSize] at aligned

section

variable (place : nodeAt pmm.ram root path = some parent) (spare : Spare low kernelRoot root pmm fresh)
  (pool : PoolKept pmm after)
  (entries : ∀ table position, table % pageSize = 0 → position < 512 → table ≠ fresh →
    entryAt after.ram table position =
      if table = parent ∧ position = index then value else entryAt pmm.ram table position)
include place spare pool entries

omit pool in
theorem AddressSpace.own_entry (own : OwnPath low path) {other : List Nat} {table position : Nat}
    (otherOwn : OwnPath low other) (found : nodeAt pmm.ram root other = some table) (bound : position < 512) :
    entryAt after.ram table position =
      if other = path ∧ position = index then value else entryAt pmm.ram table position := by
  have old : table ≠ fresh := by
    rintro rfl
    exact spare.2 other otherOwn found
  rw [entries table position (space.node_aligned found) bound old]
  by_cases here : other = path ∧ position = index
  · obtain ⟨rfl, rfl⟩ := here
    rw [place] at found
    cases found
    rw [if_pos ⟨rfl, rfl⟩, if_pos ⟨rfl, rfl⟩]
  · rw [if_neg here, if_neg]
    rintro ⟨rfl, rfl⟩
    exact here ⟨space.apart _ _ _ otherOwn own found place, rfl⟩

theorem AddressSpace.kernel_kept (own : OwnPath low path) :
    KernelDirectory after kernelRoot ∧
      (∀ frame, Reachable after.ram kernelRoot frame ↔ Reachable pmm.ram kernelRoot frame) ∧
      ∀ slot < 512, entryAt after.ram kernelRoot slot = entryAt pmm.ram kernelRoot slot := by
  have same : ∀ table position, Reachable pmm.ram kernelRoot table → table % pageSize = 0 →
      position < 512 → entryAt after.ram table position = entryAt pmm.ram table position := by
    intro table position reachable aligned bound
    have old : table ≠ fresh := by
      rintro rfl
      exact spare.1 reachable
    have kernelTable : ¬(table = parent ∧ position = index) := by
      rintro ⟨rfl, _⟩
      exact space.foreign path table own place reachable
    rw [entries table position aligned bound old, if_neg kernelTable]
  have rootReachable : Reachable pmm.ram kernelRoot kernelRoot :=
    ⟨[], ⟨by simp, by simp⟩, rfl⟩
  obtain ⟨kernel, reach⟩ := space.kernel.of_entries pool same
  exact ⟨kernel, reach, fun slot bound => same kernelRoot slot rootReachable space.kernel.aligned bound⟩

theorem AddressSpace.update (own : OwnPath low (index :: path))
    (valueSmall : 0 < path.length → path.length < 3 → value.testBit hugeBit = false)
    (nodes : ∀ other node, OwnPath low other → nodeAt after.ram root other = some node →
      nodeAt pmm.ram root other = some node ∨
        (other = index :: path ∧ node = fresh ∧ Held after fresh ∧
          (path.length < 2 → ∀ position < 512,
            (entryAt after.ram fresh position).testBit hugeBit = false))) :
    AddressSpace low kernelRoot root after := by
  obtain ⟨kernel, reach, kernelEntries⟩ :=
    space.kernel_kept place spare pool entries own.tail
  refine ⟨kernel, space.aligned, ?_, ?_, ?_, ?_, ?_⟩
  · intro slot bound notOwn
    have other : ¬([] = path ∧ slot = index) := by
      rintro ⟨rfl, rfl⟩
      exact notOwn (own.2 slot (by simp))
    have rootNode : nodeAt pmm.ram root [] = some root := rfl
    rw [space.own_entry place spare entries own.tail ownPath_nil rootNode bound, if_neg other,
      kernelEntries slot bound]
    exact space.shared slot bound notOwn
  · intro left right node leftOwn rightOwn leftFound rightFound
    rcases nodes left node leftOwn leftFound with leftOld | ⟨leftNew, rfl, _⟩
    · rcases nodes right node rightOwn rightFound with rightOld | ⟨_, rfl, _⟩
      · exact space.apart left right node leftOwn rightOwn leftOld rightOld
      · exact absurd leftOld (spare.2 left leftOwn)
    · rcases nodes right _ rightOwn rightFound with rightOld | ⟨rightNew, _⟩
      · exact absurd rightOld (spare.2 right rightOwn)
      · rw [leftNew, rightNew]
  · intro other node otherOwn found
    rcases nodes other node otherOwn found with old | ⟨_, rfl, held, _⟩
    · exact pool.holds node (space.held other node otherOwn old)
    · exact held
  · intro other node otherOwn found
    rw [reach]
    rcases nodes other node otherOwn found with old | ⟨_, rfl, _⟩
    · exact space.foreign other node otherOwn old
    · exact spare.1
  · intro other table position otherOwn positive short found bound
    rcases nodes other table otherOwn found with old | ⟨rfl, rfl, _, clear⟩
    · rw [space.own_entry place spare entries own.tail otherOwn old bound]
      split
      · rename_i here
        rw [here.1] at positive short
        exact valueSmall positive short
      · exact space.small other table position otherOwn positive short old bound
    · simp only [List.length_cons] at short
      exact clear (by omega) position bound

theorem AddressSpace.attach (own : OwnPath low (index :: path)) (held : Held after fresh)
    (valueSmall : path.length < 3 → value.testBit hugeBit = false)
    (link : childNode after.ram path.length parent index = some fresh)
    (blank : path.length < 3 → nodeAt pmm.ram root (index :: path) = none ∧
      ∀ position < 512, entryAt after.ram fresh position = 0) :
    AddressSpace low kernelRoot root after ∧
      ∀ other, OwnPath low other → nodeAt after.ram root other =
        if other = index :: path then some fresh else nodeAt pmm.ram root other := by
  have nodes : ∀ other, OwnPath low other → nodeAt after.ram root other =
      if other = index :: path then some fresh else nodeAt pmm.ram root other := by
    intro other otherOwn
    refine walk_update (fun _ _ => OwnPath.tail) ?_ place link ?_ otherOwn
    · intro before step node allowed found elsewhere
      apply childNode_congr
      rw [space.own_entry place spare entries own.tail allowed.tail found allowed.1.head,
        if_neg elsewhere]
    · intro step allowed
      have short := allowed.1.1
      simp only [List.length_cons] at short
      obtain ⟨missing, zero⟩ := blank (by omega)
      refine ⟨missing, ?_⟩
      rintro node same
      cases same
      exact childNode_zero (zero step allowed.1.head)
  refine ⟨space.update place spare pool entries own (fun _ => valueSmall) ?_, nodes⟩
  intro other node otherOwn found
  rw [nodes other otherOwn] at found
  split at found
  · rename_i new
    cases found
    refine Or.inr ⟨new, rfl, held, fun short position bound => ?_⟩
    rw [(blank (by omega)).2 position bound, Nat.zero_testBit]
  · exact Or.inl found

end

end

theorem ownPath_one : OwnPath low [1] :=
  ownPath_nil.cons (by decide) (by decide) fun _ => ⟨by decide, Or.inl (by decide)⟩

theorem AddressSpace.of_entries (space : AddressSpace low kernelRoot root pmm)
    (spare : Spare low kernelRoot root pmm fresh) (pool : PoolKept pmm after)
    (same : ∀ table position, table % pageSize = 0 → position < 512 → table ≠ fresh →
      entryAt after.ram table position = entryAt pmm.ram table position) :
    AddressSpace low kernelRoot root after ∧
      ∀ frame, Spare low kernelRoot root pmm frame → Spare low kernelRoot root after frame := by
  have rootNode : nodeAt pmm.ram root [] = some root := rfl
  have entries : ∀ table position, table % pageSize = 0 → position < 512 → table ≠ fresh →
      entryAt after.ram table position =
        if table = root ∧ position = 1 then entryAt pmm.ram root 1
        else entryAt pmm.ram table position := by
    intro table position aligned bound old
    rw [same table position aligned bound old]
    split
    · rename_i here
      rw [here.1, here.2]
    · rfl
  have nodes : ∀ other, OwnPath low other →
      nodeAt after.ram root other = nodeAt pmm.ram root other := by
    intro other otherOwn
    refine walk_congr (fun _ _ => OwnPath.tail) ?_ otherOwn
    intro before step node allowed found
    apply childNode_congr
    refine same node step (space.node_aligned found) allowed.1.head ?_
    rintro rfl
    exact spare.2 before allowed.tail found
  refine ⟨space.update rootNode spare pool entries ownPath_one (by simp) ?_, ?_⟩
  · intro other node otherOwn found
    exact Or.inl (nodes other otherOwn ▸ found)
  · rintro frame ⟨foreign, notOwn⟩
    obtain ⟨_, reach, _⟩ := space.kernel_kept rootNode spare pool entries ownPath_nil
    exact ⟨fun reachable => foreign ((reach frame).mp reachable),
      fun path own found => notOwn path own (nodes path own ▸ found)⟩

theorem AddressSpace.alloc (space : AddressSpace low kernelRoot root pmm)
    (took : Took pmm after frame) (zeroed : after.ram = pmm.ram.fill frame pageSize 0) :
    AddressSpace low kernelRoot root after ∧ Spare low kernelRoot root after frame := by
  have spare := space.spare took.available
  obtain ⟨kept, stays⟩ := space.of_entries spare (took.pool space.kernel.based) (by
    intro table position aligned bound old
    rw [zeroed, entryAt_fill took.available.1 aligned bound, if_neg old])
  exact ⟨kept, stays frame spare⟩

structure OwnChanges (low : Bool) (kernelRoot root : Nat) (pmm after : Pmm) : Prop where
  space : AddressSpace low kernelRoot root after
  pool : PoolKept pmm after
  nodes : ∀ path node, OwnPath low path → nodeAt after.ram root path = some node →
    Available pmm node ∨ nodeAt pmm.ram root path = some node
  stays : ∀ path node, OwnPath low path → nodeAt pmm.ram root path = some node →
    nodeAt after.ram root path = some node
  entries : ∀ frame position, frame % pageSize = 0 → position < 512 → ¬Available pmm frame →
    (∀ path, OwnPath low path → nodeAt pmm.ram root path ≠ some frame) →
    entryAt after.ram frame position = entryAt pmm.ram frame position

theorem OwnChanges.refl (space : AddressSpace low kernelRoot root pmm) :
    OwnChanges low kernelRoot root pmm pmm :=
  ⟨space, ⟨space.kernel.based, fun _ available => available, fun _ held => held⟩,
    fun _ _ _ found => Or.inr found, fun _ _ _ found => found, fun _ _ _ _ _ _ => rfl⟩

theorem OwnChanges.kernel_reach (space : AddressSpace low kernelRoot root pmm)
    (changes : OwnChanges low kernelRoot root pmm after) (frame : Nat) :
    Reachable after.ram kernelRoot frame ↔ Reachable pmm.ram kernelRoot frame := by
  refine (space.kernel.of_entries changes.pool ?_).2 frame
  intro table position reachable aligned bound
  refine changes.entries table position aligned bound (space.kernel.inUse table reachable) ?_
  intro path own found
  exact space.foreign path table own found reachable

theorem OwnChanges.spare (changes : OwnChanges low kernelRoot root pmm after)
    (space : AddressSpace low kernelRoot root pmm) (held : Held pmm frame)
    (spare : Spare low kernelRoot root pmm frame) : Spare low kernelRoot root after frame := by
  refine ⟨fun reachable => spare.1 ((changes.kernel_reach space frame).mp reachable), ?_⟩
  intro path own found
  rcases changes.nodes path frame own found with available | old
  · exact held.not_available available
  · exact spare.2 path own old

section

variable (space : AddressSpace low kernelRoot root pmm)
include space

theorem AddressSpace.alloc_entries
    (took : Took pmm after frame) (zeroed : after.ram = pmm.ram.fill frame pageSize 0)
    {table position : Nat}
    (own : OwnPath low path) (place : nodeAt pmm.ram root path = some table) (bound : position < 512) :
    entryAt after.ram table position = entryAt pmm.ram table position := by
  rw [zeroed, entryAt_fill took.available.1 (space.node_aligned place) bound, if_neg]
  rintro rfl
  exact (space.spare took.available).2 path own place

theorem AddressSpace.alloc_nodes
    (took : Took pmm after frame) (zeroed : after.ram = pmm.ram.fill frame pageSize 0)
    (own : OwnPath low path) : nodeAt after.ram root path = nodeAt pmm.ram root path := by
  refine walk_congr (fun _ _ => OwnPath.tail) ?_ own
  intro before step table allowed place
  exact childNode_congr (space.alloc_entries took zeroed allowed.tail place allowed.1.head)

theorem AddressSpace.alloc_changes
    (took : Took pmm after frame) (zeroed : after.ram = pmm.ram.fill frame pageSize 0) :
    OwnChanges low kernelRoot root pmm after := by
  have same : ∀ path, OwnPath low path → nodeAt after.ram root path = nodeAt pmm.ram root path :=
    fun _ own => space.alloc_nodes took zeroed own
  refine ⟨(space.alloc took zeroed).1, took.pool space.kernel.based, ?_, ?_, ?_⟩
  · intro path node own found
    exact Or.inr (same path own ▸ found)
  · intro path node own found
    exact (same path own).trans found
  · intro table position aligned bound inUse _
    rw [zeroed, entryAt_fill took.available.1 aligned bound, if_neg]
    rintro rfl
    exact inUse took.available

theorem AddressSpace.noFrame_changes
    (noFrame : NoFrame pmm after) : OwnChanges low kernelRoot root pmm after := by
  rcases noFrame with rfl | ⟨took, zeroed⟩
  · exact OwnChanges.refl space
  · exact space.alloc_changes took zeroed

end

structure LevelStep (low : Bool) (kernelRoot root : Nat) (pmm after : Pmm) (path : List Nat)
    (table : Nat) : Prop where
  changes : OwnChanges low kernelRoot root pmm after
  node : nodeAt after.ram root path = some table

section

variable (space : AddressSpace low kernelRoot root pmm) (own : OwnPath low (index :: path))
include space own

theorem AddressSpace.level_kept (short : path.length < 3)
    (place : nodeAt pmm.ram root path = some parent)
    (present : (entryAt pmm.ram parent index).testBit presentBit = true)
    (alike : Alike (entryAt pmm.ram parent index) value)
    (entries : EntryStep pmm.ram after.ram parent index value)
    (pool : after = { pmm with ram := after.ram }) :
    LevelStep low kernelRoot root pmm after (index :: path)
      (alignDown (entryAt pmm.ram parent index)) := by
  have kept : PoolKept pmm after := by
    have unchanged := PoolKept.of_ram space.kernel.based after.ram
    rwa [← pool] at unchanged
  have nodes : ∀ other, OwnPath low other →
      nodeAt after.ram root other = nodeAt pmm.ram root other := by
    intro other otherOwn
    refine walk_congr (fun _ _ => OwnPath.tail) ?_ otherOwn
    intro before step node allowed found
    have entry := entries node step (space.node_aligned found) allowed.1.head
    split at entry
    · rename_i here
      obtain ⟨rfl, rfl⟩ := here
      rw [← entry] at alike
      exact childNode_alike present alike
    · exact childNode_congr entry
  have oldSmall : 0 < path.length → (entryAt pmm.ram parent index).testBit hugeBit = false :=
    fun positive => space.small path parent index own.tail positive short place own.1.head
  refine ⟨⟨?_, kept, ?_, ?_, ?_⟩, ?_⟩
  · refine space.update place space.spare_one kept
      (fun table position aligned bound _ => entries table position aligned bound) own ?_ ?_
    · intro positive _
      rw [alike.testBit (show 3 ≤ hugeBit by decide)]
      exact oldSmall positive
    · intro other node otherOwn found
      exact Or.inl (nodes other otherOwn ▸ found)
  · intro other node otherOwn found
    exact Or.inr (nodes other otherOwn ▸ found)
  · intro other node otherOwn found
    exact (nodes other otherOwn).trans found
  · intro frame position aligned bound _ notOwn
    rw [entries frame position aligned bound, if_neg]
    rintro ⟨rfl, _⟩
    exact notOwn path own.tail place
  · rw [nodes _ own, nodeAt, walk_cons place]
    cases path with
    | nil => simp [childNode, present]
    | cons last path => simp [childNode, present, oldSmall (by simp)]

theorem AddressSpace.level_made (place : nodeAt pmm.ram root path = some parent)
    (absent : (entryAt pmm.ram parent index).testBit presentBit = false)
    (grew : Grew pmm after parent index frame fun _ => 0) :
    LevelStep low kernelRoot root pmm after (index :: path) frame := by
  obtain ⟨_, took, value, link, entries⟩ := grew
  have spare := space.spare took.available
  have kept := took.pool space.kernel.based
  have elsewhere : ∀ table position, table % pageSize = 0 → position < 512 → table ≠ frame →
      entryAt after.ram table position =
        if table = parent ∧ position = index then value else entryAt pmm.ram table position := by
    intro table position aligned bound old
    rw [entries table position aligned bound, if_neg old]
  have stored : entryAt after.ram parent index = value := by
    have old : parent ≠ frame := by
      rintro rfl
      exact spare.2 path own.tail place
    rw [elsewhere parent index (space.node_aligned place) own.1.head old, if_pos ⟨rfl, rfl⟩]
  have missing : nodeAt pmm.ram root (index :: path) = none := nodeAt_missing place absent
  have notHuge : value.testBit hugeBit = false := by
    obtain ⟨flags, _, rfl, _, clear⟩ := link
    rw [Nat.testBit_or, clear, testBit_aligned took.available.1 (show hugeBit < 12 by decide)]
    rfl
  have child : childNode after.ram path.length parent index = some frame := by
    apply childNode_link took.available.1
    rw [stored]
    exact link
  have blank : ∀ position < 512, entryAt after.ram frame position = 0 := by
    intro position bound
    rw [entries frame position took.available.1 bound, if_pos rfl]
  obtain ⟨attached, nodes⟩ := space.attach place spare kept elsewhere own took.held
    (fun _ => notHuge) child (fun _ => ⟨missing, blank⟩)
  refine ⟨⟨attached, kept, ?_, ?_, ?_⟩, by rw [nodes _ own, if_pos rfl]⟩
  · intro other node otherOwn found
    rw [nodes other otherOwn] at found
    split at found
    · cases found
      exact Or.inl took.available
    · exact Or.inr found
  · intro other node otherOwn found
    rw [nodes other otherOwn, if_neg]
    · exact found
    · rintro rfl
      cases missing.symm.trans found
  · intro table position aligned bound inUse notOwn
    have old : table ≠ frame := by
      rintro rfl
      exact inUse took.available
    rw [elsewhere table position aligned bound old, if_neg]
    rintro ⟨rfl, _⟩
    exact notOwn path own.tail place

theorem AddressSpace.tableStep {table : Nat} (short : path.length < 3)
    (place : nodeAt pmm.ram root path = some parent)
    (step : TableStep pmm after parent index table) :
    LevelStep low kernelRoot root pmm after (index :: path) table := by
  cases step with
  | kept value present alike entries pool =>
      exact space.level_kept own short place present alike entries pool
  | made _ absent grew => exact space.level_made own place absent grew

theorem AddressSpace.level {flags : Nat}
    {forceUser ok : Bool} {next : Nat → Pmm → Option (Bool × Pmm)}
    (short : path.length < 3)
    (place : nodeAt pmm.ram root path = some parent)
    (called : withTable pmm parent index flags forceUser next = some (ok, after)) :
    (ok = false ∧ OwnChanges low kernelRoot root pmm after) ∨
      ∃ table middle, LevelStep low kernelRoot root pmm middle (index :: path) table ∧
        next table middle = some (ok, after) := by
  have held := space.held path parent own.tail place
  have nonNull : parent ≠ nullTable := by
    have managed := held.2.1
    have bound := space.kernel.based.small
    simp only [pageSize, maxMemoryPages, nullTable] at managed bound ⊢
    omega
  rcases withTable_cases space.kernel.based held.1 nonNull own.1.head held.not_available with
    fault | ⟨other, failed, cause⟩ | ⟨table, middle, _, step, goes⟩
  · rw [fault] at called
    contradiction
  · rw [failed] at called
    simp only [Option.some.injEq, Prod.mk.injEq] at called
    obtain ⟨rfl, rfl⟩ := called
    refine Or.inl ⟨rfl, ?_⟩
    rcases cause with noFrame | step
    · exact space.noFrame_changes noFrame
    · exact (space.tableStep own short place step).changes
  · exact Or.inr ⟨table, middle, space.tableStep own short place step, goes.symm.trans called⟩

end

/-- The directory keeps to the frames `mine`: the pool and its own nodes are among them, and
all other frames have the entries they had in `ram`. -/
structure Confined (mine : Nat → Prop) (ram : Mem) (low : Bool) (kernelRoot root : Nat)
    (pmm : Pmm) : Prop where
  space : AddressSpace low kernelRoot root pmm
  pool : ∀ frame, Available pmm frame → mine frame
  nodes : ∀ path node, OwnPath low path → nodeAt pmm.ram root path = some node → mine node
  entries : ∀ frame position, frame % pageSize = 0 → position < 512 → ¬mine frame →
    entryAt pmm.ram frame position = entryAt ram frame position

theorem AddressSpace.confined (space : AddressSpace low kernelRoot root pmm) :
    Confined (fun _ => True) pmm.ram low kernelRoot root pmm :=
  ⟨space, fun _ _ => trivial, fun _ _ _ _ => trivial, fun _ _ _ _ _ => rfl⟩

section Footprint

variable {mine : Nat → Prop} {ram : Mem}

theorem Confined.change (inside : Confined mine ram low kernelRoot root pmm)
    (changes : OwnChanges low kernelRoot root pmm after) :
    Confined mine ram low kernelRoot root after := by
  refine ⟨changes.space, fun frame available => inside.pool frame
    (changes.pool.fewer frame available), ?_, ?_⟩
  · intro path node own found
    rcases changes.nodes path node own found with available | old
    · exact inside.pool node available
    · exact inside.nodes path node own old
  · intro frame position aligned bound notMine
    rw [← inside.entries frame position aligned bound notMine]
    exact changes.entries frame position aligned bound
      (fun available => notMine (inside.pool frame available))
      fun path own found => notMine (inside.nodes path frame own found)

theorem Confined.leaf (inside : Confined mine ram low kernelRoot root pmm)
    (own : OwnPath low (index :: path)) (deep : path.length = 3)
    (place : nodeAt pmm.ram root path = some parent) (granted : mine frame)
    (target : (Held pmm frame ∧ Spare low kernelRoot root pmm frame) ∨
      nodeAt pmm.ram root (index :: path) = some frame)
    (valueSmall : value < 2 ^ 64) (present : value.testBit presentBit = true)
    (valueFrame : alignDown value = frame) :
    Confined mine ram low kernelRoot root
      { pmm with ram := setEntry pmm.ram parent index value } := by
  have space := inside.space
  have aligned := space.node_aligned place
  have stored := @setEntry_step pmm.ram parent index value aligned own.1.head valueSmall
  have kept := PoolKept.of_ram space.kernel.based (setEntry pmm.ram parent index value)
  have child : childNode (setEntry pmm.ram parent index value) path.length parent index =
      some frame := by
    simp [childNode, stored.read aligned own.1.head, present, valueFrame, deep]
  have finish : ∀ changed : AddressSpace low kernelRoot root
      { pmm with ram := setEntry pmm.ram parent index value },
      (∀ other, OwnPath low other → nodeAt (setEntry pmm.ram parent index value) root other =
        if other = index :: path then some frame else nodeAt pmm.ram root other) →
      Confined mine ram low kernelRoot root
        { pmm with ram := setEntry pmm.ram parent index value } := by
    intro changed nodes
    refine ⟨changed, fun other available => inside.pool other (kept.fewer other available), ?_, ?_⟩
    · intro other node otherOwn found
      have old := nodes other otherOwn
      rw [show nodeAt (setEntry pmm.ram parent index value) root other = some node from found] at old
      split at old
      · cases old
        exact granted
      · exact inside.nodes other node otherOwn old.symm
    · intro other position otherAligned bound notMine
      rw [← inside.entries other position otherAligned bound notMine]
      refine (stored other position otherAligned bound).trans (if_neg ?_)
      rintro ⟨rfl, _⟩
      exact notMine (inside.nodes path other own.tail place)
  rcases target with ⟨held, spare⟩ | there
  · obtain ⟨changed, nodes⟩ := space.attach place spare kept
      (fun table position tableAligned bound _ => stored table position tableAligned bound) own
      (kept.holds frame held) (by omega) child (by omega)
    exact finish changed nodes
  · have same : ∀ other, OwnPath low other →
        nodeAt (setEntry pmm.ram parent index value) root other = nodeAt pmm.ram root other := by
      intro other otherOwn
      refine walk_congr (fun _ _ => OwnPath.tail) ?_ otherOwn
      intro before step table allowed found
      have entry := stored table step (space.node_aligned found) allowed.1.head
      split at entry
      · rename_i here
        obtain ⟨rfl, rfl⟩ := here
        have samePath := space.apart before path table allowed.tail own.tail found place
        subst samePath
        rw [nodeAt, walk_cons place] at there
        exact child.trans there.symm
      · exact childNode_congr entry
    refine finish (space.update place space.spare_one kept
      (fun table position tableAligned bound _ => stored table position tableAligned bound) own
      (by omega) ?_) ?_
    · intro other node otherOwn found
      exact Or.inl ((same other otherOwn).symm.trans found)
    · intro other otherOwn
      rw [same other otherOwn]
      split
      · rename_i here
        rw [here, there]
      · rfl

def addressPath (address : Nat) : List Nat :=
  [ptIndex address, pdIndex address, pdpIndex address, pml4Index address]

theorem addressPath_own {address : Nat} (slot : OwnSlot low (pml4Index address)) :
    OwnPath low (addressPath address) := by
  have slotPath : OwnPath low [pml4Index address] :=
    ownPath_nil.cons (Nat.mod_lt _ (by decide)) (by decide) fun _ => slot
  have pdpPath : OwnPath low [pdpIndex address, pml4Index address] :=
    slotPath.cons (Nat.mod_lt _ (by decide)) (by simp) (by simp)
  have pdPath : OwnPath low [pdIndex address, pdpIndex address, pml4Index address] :=
    pdpPath.cons (Nat.mod_lt _ (by decide)) (by simp) (by simp)
  exact pdPath.cons (Nat.mod_lt _ (by decide)) (by simp) (by simp)

theorem Confined.mapWalk (inside : Confined mine ram low kernelRoot root pmm)
    {address flags leaf frame : Nat} {forceUser ok : Bool}
    (slot : OwnSlot low (pml4Index address)) (granted : mine frame)
    (target : (Held pmm frame ∧ Spare low kernelRoot root pmm frame) ∨
      nodeAt pmm.ram root (addressPath address) = some frame)
    (leafSmall : leaf < 2 ^ 64) (leafPresent : leaf.testBit presentBit = true)
    (leafFrame : alignDown leaf = frame)
    (called : mapWalk pmm root address flags forceUser leaf = some (ok, after)) :
    Confined mine ram low kernelRoot root after := by
  have ptPath := addressPath_own slot
  have pdPath := ptPath.tail
  have pdpPath := pdPath.tail
  have keep : ∀ {before middle : Pmm}, OwnChanges low kernelRoot root before middle →
      AddressSpace low kernelRoot root before →
      ((Held before frame ∧ Spare low kernelRoot root before frame) ∨
        nodeAt before.ram root (addressPath address) = some frame) →
      (Held middle frame ∧ Spare low kernelRoot root middle frame) ∨
        nodeAt middle.ram root (addressPath address) = some frame := by
    intro before middle changes space target
    rcases target with ⟨held, spare⟩ | there
    · exact Or.inl ⟨changes.pool.holds frame held, changes.spare space held spare⟩
    · exact Or.inr (changes.stays _ frame ptPath there)
  unfold Szczupak.mapWalk at called
  rcases inside.space.level pdpPath.tail (by decide) rfl called with
    ⟨_, changes⟩ | ⟨pdp, first, firstStep, called⟩
  · exact inside.change changes
  have firstInside := inside.change firstStep.changes
  have firstTarget := keep firstStep.changes inside.space target
  rcases firstInside.space.level pdpPath (by simp) firstStep.node called with
    ⟨_, changes⟩ | ⟨pd, second, secondStep, called⟩
  · exact firstInside.change changes
  have secondInside := firstInside.change secondStep.changes
  have secondTarget := keep secondStep.changes firstInside.space firstTarget
  have notHuge := secondInside.space.small _ pd (pdIndex address) pdpPath (by simp) (by simp)
    secondStep.node (Nat.mod_lt _ (by decide))
  have noSplit : splitHugePage second pd (pdIndex address) = some (true, second) := by
    simp [splitHugePage, notHuge]
  rw [noSplit] at called
  rcases secondInside.space.level pdPath (by simp) secondStep.node called with
    ⟨_, changes⟩ | ⟨pt, third, thirdStep, called⟩
  · exact secondInside.change changes
  have thirdInside := secondInside.change thirdStep.changes
  have thirdTarget := keep thirdStep.changes secondInside.space secondTarget
  simp only [Option.some.injEq, Prod.mk.injEq] at called
  obtain ⟨rfl, rfl⟩ := called
  exact thirdInside.leaf ptPath rfl thirdStep.node granted thirdTarget leafSmall leafPresent
    leafFrame

end Footprint

theorem setEntry_zero_child {ram : Mem} {table depth other position next : Nat}
    (aligned : table % pageSize = 0) (otherAligned : other % pageSize = 0) (bound : index < 512)
    (positionBound : position < 512)
    (found : childNode (setEntry ram table index 0) depth other position = some next) :
    childNode ram depth other position = some next := by
  have small : 0 < 2 ^ 64 := by decide
  have entry := @setEntry_step ram table index 0 aligned bound small other position otherAligned
    positionBound
  by_cases here : other = table ∧ position = index
  · rw [if_pos here] at entry
    exact absurd (found.symm.trans (childNode_zero entry)) (by simp)
  · rw [if_neg here] at entry
    exact (childNode_congr entry).symm.trans found

theorem KernelDirectory.clear (kernel : KernelDirectory pmm kernelRoot) {table : Nat}
    (aligned : table % pageSize = 0) (bound : index < 512) :
    KernelDirectory { pmm with ram := setEntry pmm.ram table index 0 } kernelRoot ∧
      ∀ frame, Reachable (setEntry pmm.ram table index 0) kernelRoot frame →
        Reachable pmm.ram kernelRoot frame := by
  have pool := PoolKept.of_ram kernel.based (setEntry pmm.ram table index 0)
  have nodes : ∀ path node, PathUpTo 4 path →
      nodeAt (setEntry pmm.ram table index 0) kernelRoot path = some node →
      nodeAt pmm.ram kernelRoot path = some node := by
    intro path node valid found
    refine walk_mono (fun _ _ => PathUpTo.tail) ?_ valid found
    intro before step parent next allowed place child
    exact setEntry_zero_child aligned (nodeAt_aligned kernel.aligned place) bound allowed.head child
  have reach : ∀ frame, Reachable (setEntry pmm.ram table index 0) kernelRoot frame →
      Reachable pmm.ram kernelRoot frame := by
    rintro frame ⟨path, valid, found⟩
    exact ⟨path, valid, nodes path frame valid found⟩
  refine ⟨⟨pool.based, kernel.aligned, ?_, ?_, ?_⟩, reach⟩
  · intro frame reachable available
    exact kernel.inUse frame (reach frame reachable) (pool.fewer frame available)
  · intro path valid found
    exact kernel.rootApart path valid (nodes path kernelRoot (valid.mono (by decide)) found)
  · intro slot pdp position slotBound found positionBound
    have valid : PathUpTo 4 [slot] := ⟨by simp, by simpa using slotBound⟩
    have old := nodes [slot] pdp valid found
    have entry := @setEntry_step pmm.ram table index 0 aligned bound (by decide) pdp position
      (nodeAt_aligned kernel.aligned old) positionBound
    rw [entry]
    split
    · exact Nat.zero_testBit _
    · exact kernel.noGiant slot pdp position slotBound old positionBound

theorem AddressSpace.clear_shared (space : AddressSpace low kernelRoot root pmm) {table : Nat}
    (valid : PathUpTo 3 path) (deep : path ≠ []) (bound : index < 512)
    (place : nodeAt pmm.ram kernelRoot path = some table) :
    AddressSpace low kernelRoot root { pmm with ram := setEntry pmm.ram table index 0 } := by
  have aligned := nodeAt_aligned space.kernel.aligned place
  have reachable : Reachable pmm.ram kernelRoot table := ⟨path, valid.mono (by decide), place⟩
  have pool := PoolKept.of_ram space.kernel.based (setEntry pmm.ram table index 0)
  have entries := @setEntry_step pmm.ram table index 0 aligned bound (by decide)
  have own : ∀ other node position, OwnPath low other → nodeAt pmm.ram root other = some node →
      position < 512 →
      entryAt (setEntry pmm.ram table index 0) node position = entryAt pmm.ram node position := by
    intro other node position otherOwn found positionBound
    rw [entries node position (space.node_aligned found) positionBound, if_neg]
    rintro ⟨rfl, _⟩
    exact space.foreign other node otherOwn found reachable
  have nodes : ∀ other, OwnPath low other →
      nodeAt (setEntry pmm.ram table index 0) root other = nodeAt pmm.ram root other := by
    intro other otherOwn
    refine walk_congr (fun _ _ => OwnPath.tail) ?_ otherOwn
    intro before step node allowed found
    exact childNode_congr (own before node step allowed.tail found allowed.1.head)
  obtain ⟨kernel, reach⟩ := space.kernel.clear aligned bound
  refine ⟨kernel, space.aligned, ?_, ?_, ?_, ?_, ?_⟩
  · intro slot slotBound notOwn
    have kernelSlot : ¬(kernelRoot = table ∧ slot = index) := by
      rintro ⟨rfl, _⟩
      exact deep (space.kernel.rootApart path valid place)
    have rootNode : nodeAt pmm.ram root [] = some root := rfl
    have rootEntry := own [] root slot ownPath_nil rootNode slotBound
    have kernelEntry := entries kernelRoot slot space.kernel.aligned slotBound
    rw [if_neg kernelSlot] at kernelEntry
    exact rootEntry.trans ((space.shared slot slotBound notOwn).trans kernelEntry.symm)
  · intro left right node leftOwn rightOwn leftFound rightFound
    exact space.apart left right node leftOwn rightOwn ((nodes left leftOwn).symm.trans leftFound)
      ((nodes right rightOwn).symm.trans rightFound)
  · intro other node otherOwn found
    exact pool.holds node (space.held other node otherOwn ((nodes other otherOwn).symm.trans found))
  · intro other node otherOwn found kernelReaches
    exact space.foreign other node otherOwn ((nodes other otherOwn).symm.trans found)
      (reach node kernelReaches)
  · intro other node position otherOwn positive short found positionBound
    have old := (nodes other otherOwn).symm.trans found
    have same := own other node position otherOwn old positionBound
    have small := space.small other node position otherOwn positive short old positionBound
    change (entryAt (setEntry pmm.ram table index 0) node position).testBit hugeBit = false
    rw [same, small]

theorem AddressSpace.clear_own (space : AddressSpace low kernelRoot root pmm)
    (own : OwnPath low (index :: path)) (place : nodeAt pmm.ram root path = some parent) :
    AddressSpace low kernelRoot root { pmm with ram := setEntry pmm.ram parent index 0 } := by
  have aligned := space.node_aligned place
  have small : 0 < 2 ^ 64 := by decide
  have entries := @setEntry_step pmm.ram parent index 0 aligned own.1.head small
  have pool := PoolKept.of_ram space.kernel.based (setEntry pmm.ram parent index 0)
  refine space.update place space.spare_one pool
    (fun table position tableAligned bound _ => entries table position tableAligned bound) own
    (fun _ _ => Nat.zero_testBit _) ?_
  intro other node otherOwn found
  refine Or.inl (walk_mono (fun _ _ => OwnPath.tail) ?_ otherOwn found)
  intro before step table next allowed place child
  exact setEntry_zero_child aligned (space.node_aligned place) own.1.head allowed.1.head child

theorem vmmUnmapPage_cases (ram : Mem) (root : Nat) (virt : UInt64) :
    (vmmUnmapPage ram root virt).2 = ram ∨
      (entryAt ram root (pml4Index (alignDown virt.toNat))).testBit presentBit = true ∧
      ∃ pdp pd, pdp = alignDown (entryAt ram root (pml4Index (alignDown virt.toNat))) ∧
        (entryAt ram pdp (pdpIndex (alignDown virt.toNat))).testBit presentBit = true ∧
        pd = alignDown (entryAt ram pdp (pdpIndex (alignDown virt.toNat))) ∧
        (entryAt ram pd (pdIndex (alignDown virt.toNat))).testBit presentBit = true ∧
        ((vmmUnmapPage ram root virt).2 = setEntry ram pd (pdIndex (alignDown virt.toNat)) 0 ∨
          (entryAt ram pd (pdIndex (alignDown virt.toNat))).testBit hugeBit = false ∧
          (vmmUnmapPage ram root virt).2 =
            setEntry ram (alignDown (entryAt ram pd (pdIndex (alignDown virt.toNat))))
              (ptIndex (alignDown virt.toNat)) 0) := by
  unfold vmmUnmapPage
  generalize alignDown virt.toNat = address
  dsimp only
  cases slot : (entryAt ram root (pml4Index address)).testBit presentBit with
  | false => exact Or.inl rfl
  | true =>
      generalize pdpEq : alignDown (entryAt ram root (pml4Index address)) = pdp
      cases directory : (entryAt ram pdp (pdpIndex address)).testBit presentBit with
      | false => exact Or.inl rfl
      | true =>
          generalize pdEq : alignDown (entryAt ram pdp (pdpIndex address)) = pd
          cases table : (entryAt ram pd (pdIndex address)).testBit presentBit with
          | false => exact Or.inl rfl
          | true =>
              refine Or.inr ⟨rfl, pdp, pd, rfl, directory, pdEq.symm, table, ?_⟩
              cases huge : (entryAt ram pd (pdIndex address)).testBit hugeBit with
              | false => exact Or.inr ⟨rfl, rfl⟩
              | true => exact Or.inl rfl

theorem nodeAt_child {ram : Mem} {table node : Nat} (place : nodeAt ram root path = some table)
    (present : (entryAt ram table index).testBit presentBit = true)
    (notHuge : 0 < path.length → path.length < 3 →
      (entryAt ram table index).testBit hugeBit = false)
    (target : node = alignDown (entryAt ram table index)) :
    nodeAt ram root (index :: path) = some node := by
  rw [nodeAt, walk_cons place, target]
  rcases path with _ | ⟨_, _ | ⟨_, _ | ⟨_, _⟩⟩⟩
  · simp [childNode, present]
  · simp [childNode, present, notHuge (by simp) (by simp)]
  · simp [childNode, present, notHuge (by simp) (by simp)]
  · simp [childNode, present]

/-- How far the walk of the own half to `address` comes, by the entries of its three upper levels.
-/
inductive Walked (ram : Mem) (root address first second third : Nat) : Prop
  | noPdp (absent : first.testBit presentBit = false)
      (missing : nodeAt ram root (addressPath address).tail = none)
  | noPd (small : second.testBit hugeBit = false) (absent : second.testBit presentBit = false)
      (missing : nodeAt ram root (addressPath address).tail = none)
  | noPt (small : second.testBit hugeBit = false) (notHuge : third.testBit hugeBit = false)
      (absent : third.testBit presentBit = false)
      (missing : nodeAt ram root (addressPath address).tail = none)
  | table (small : second.testBit hugeBit = false) (notHuge : third.testBit hugeBit = false)
      (one : first.testBit presentBit = true) (two : second.testBit presentBit = true)
      (three : third.testBit presentBit = true)
      (pdp : nodeAt ram root [pml4Index address] = some (alignDown first))
      (pd : nodeAt ram root [pdpIndex address, pml4Index address] = some (alignDown second))
      (pt : nodeAt ram root (addressPath address).tail = some (alignDown third))

theorem AddressSpace.walked {address first second third : Nat} (space : AddressSpace low kernelRoot root pmm)
    (own : OwnPath low (addressPath address)) (firstEq : entryAt pmm.ram root (pml4Index address) = first)
    (secondEq : entryAt pmm.ram (alignDown first) (pdpIndex address) = second)
    (thirdEq : entryAt pmm.ram (alignDown second) (pdIndex address) = third) :
    Walked pmm.ram root address first second third := by
  have pdPath := own.tail
  have pdpPath := pdPath.tail
  have rootNode : nodeAt pmm.ram root [] = some root := rfl
  cases one : first.testBit presentBit with
  | false =>
      exact .noPdp one (walk_append_none (nodeAt_missing rootNode (firstEq ▸ one))
        [pdIndex address, pdpIndex address])
  | true =>
      have pdp := nodeAt_child rootNode (firstEq ▸ one) (by simp) (congrArg alignDown firstEq.symm)
      have small : second.testBit hugeBit = false :=
        secondEq ▸ space.small _ _ _ pdpPath.tail (by simp) (by simp) pdp pdpPath.1.head
      cases two : second.testBit presentBit with
      | false =>
          exact .noPd small two (walk_append_none (nodeAt_missing pdp (secondEq ▸ two)) [pdIndex address])
      | true =>
          have pd := nodeAt_child pdp (secondEq ▸ two) (fun _ _ => secondEq ▸ small)
            (congrArg alignDown secondEq.symm)
          have notHuge : third.testBit hugeBit = false :=
            thirdEq ▸ space.small _ _ _ pdpPath (by simp) (by simp) pd pdPath.1.head
          cases three : third.testBit presentBit with
          | false => exact .noPt small notHuge three (nodeAt_missing pd (thirdEq ▸ three))
          | true =>
              exact .table small notHuge one two three pdp pd (nodeAt_child pd (thirdEq ▸ three)
                (fun _ _ => thirdEq ▸ notHuge) (congrArg alignDown thirdEq.symm))

theorem AddressSpace.unmap (space : AddressSpace low kernelRoot root pmm) (virt : UInt64) :
    AddressSpace low kernelRoot root { pmm with ram := (vmmUnmapPage pmm.ram root virt).2 } := by
  rcases vmmUnmapPage_cases pmm.ram root virt with
    same | ⟨slotPresent, pdp, pd, pdpEq, pdpPresent, pdEq, pdPresent, result⟩
  · rw [same]
    exact space
  generalize alignDown virt.toNat = address at *
  have slotBound : pml4Index address < 512 := Nat.mod_lt _ (by decide)
  have pdpBound : pdpIndex address < 512 := Nat.mod_lt _ (by decide)
  have pdBound : pdIndex address < 512 := Nat.mod_lt _ (by decide)
  have ptBound : ptIndex address < 512 := Nat.mod_lt _ (by decide)
  by_cases slot : OwnSlot low (pml4Index address)
  · have slotPath : OwnPath low [pml4Index address] :=
      ownPath_nil.cons slotBound (by simp) fun _ => slot
    have pdpPath : OwnPath low [pdpIndex address, pml4Index address] :=
      slotPath.cons pdpBound (by simp) (by simp)
    have pdPath := pdpPath.cons pdBound (by simp) (by simp)
    have ptPath := pdPath.cons ptBound (by simp) (by simp)
    have rootNode : nodeAt pmm.ram root [] = some root := rfl
    have pdpNode := nodeAt_child rootNode slotPresent (by simp) pdpEq
    have pdNode := nodeAt_child pdpNode pdpPresent
      (fun positive short => space.small _ pdp _ slotPath positive short pdpNode pdpBound) pdEq
    have notHuge := space.small _ pd _ pdpPath (by simp) (by simp) pdNode pdBound
    rcases result with huge | ⟨_, cleared⟩
    · rw [huge]
      exact space.clear_own pdPath pdNode
    · rw [cleared]
      exact space.clear_own ptPath (nodeAt_child pdNode pdPresent (fun _ _ => notHuge) rfl)
  · have sharedEntry := space.shared _ slotBound slot
    rw [sharedEntry] at slotPresent pdpEq
    have slotValid : PathUpTo 1 [pml4Index address] := ⟨by simp, by simpa using slotBound⟩
    have rootNode : nodeAt pmm.ram kernelRoot [] = some kernelRoot := rfl
    have pdpNode := nodeAt_child rootNode slotPresent (by simp) pdpEq
    have pdNode := nodeAt_child pdpNode pdpPresent
      (fun _ _ => space.kernel.noGiant _ pdp _ slotBound pdpNode pdpBound) pdEq
    have pdValid := slotValid.cons pdpBound
    rcases result with huge | ⟨notHuge, cleared⟩
    · rw [huge]
      exact space.clear_shared (pdValid.mono (by decide)) (by simp) pdBound pdNode
    · rw [cleared]
      exact space.clear_shared (pdValid.cons pdBound) (by simp) ptBound
        (nodeAt_child pdNode pdPresent (fun _ _ => notHuge) rfl)

end Space

section Creation

variable {ram : Mem} {kernelRoot root other position : Nat}

theorem copyUpper_entry {count : Nat} (aligned : root % pageSize = 0)
    (kernelAligned : kernelRoot % pageSize = 0) (apart : kernelRoot ≠ root)
    (otherAligned : other % pageSize = 0) (bound : position < 512) (fits : count ≤ 256) :
    entryAt ((List.range count).foldl (fun ram index =>
        setEntry ram root (256 + index) (entryAt ram kernelRoot (256 + index))) ram)
        other position =
      if other = root ∧ 256 ≤ position ∧ position < 256 + count then
        entryAt ram kernelRoot position
      else entryAt ram other position := by
  induction count generalizing other position with
  | zero =>
      rw [if_neg (by omega)]
      rfl
  | succ count ih =>
      rw [List.range_succ, List.foldl_append, List.foldl_cons, List.foldl_nil,
        entryAt_setEntry aligned otherAligned (by omega) bound,
        ih kernelAligned (by omega) (by omega), ih otherAligned bound (by omega),
        if_neg (fun both : kernelRoot = root ∧ _ => apart both.1),
        Nat.mod_eq_of_lt (entryAt_lt ram kernelRoot (256 + count))]
      by_cases last : other = root ∧ position = 256 + count
      · rw [if_pos last, if_pos (by omega), last.2]
      · rw [if_neg last]
        by_cases earlier : other = root ∧ 256 ≤ position ∧ position < 256 + count
        · rw [if_pos earlier, if_pos (by omega)]
        · rw [if_neg earlier, if_neg (by omega)]

theorem copyKernelEntries_entry (aligned : root % pageSize = 0)
    (kernelAligned : kernelRoot % pageSize = 0) (apart : kernelRoot ≠ root)
    (otherAligned : other % pageSize = 0) (bound : position < 512) :
    entryAt (copyKernelEntries ram kernelRoot root) other position =
      if other = root then
        if position = 0 ∨ 256 ≤ position then entryAt ram kernelRoot position else 0
      else entryAt ram other position := by
  have zeroed (table index : Nat) (tableAligned : table % pageSize = 0) (indexBound : index < 512) :
      entryAt ((List.range 512).foldl (fun ram index => setEntry ram root index 0) ram) table index =
        if table = root then 0 else entryAt ram table index := by
    rw [entryAt_foldl aligned tableAligned indexBound (Nat.le_refl _)]
    by_cases own : table = root
    · rw [if_pos ⟨own, indexBound⟩, if_pos own]
      rfl
    · rw [if_neg (fun both => own both.1), if_neg own]
  have low (table index : Nat) (tableAligned : table % pageSize = 0) (indexBound : index < 512) :=
    @entryAt_setEntry ((List.range 512).foldl (fun ram index => setEntry ram root index 0) ram)
      root 0 (entryAt ram kernelRoot 0) table index aligned tableAligned (by decide) indexBound
  unfold copyKernelEntries
  dsimp only
  rw [copyUpper_entry aligned kernelAligned apart otherAligned bound (Nat.le_refl _),
    zeroed kernelRoot 0 kernelAligned (by decide), if_neg apart, low kernelRoot position
      kernelAligned bound, low other position otherAligned bound,
    zeroed kernelRoot position kernelAligned bound, zeroed other position otherAligned bound,
    if_neg (fun both : kernelRoot = root ∧ _ => apart both.1), if_neg apart,
    Nat.mod_eq_of_lt (entryAt_lt ram kernelRoot 0)]
  by_cases own : other = root
  · subst own
    by_cases first : position = 0
    · subst first
      simp
    · by_cases upper : 256 ≤ position
      · simp [first, upper, bound]
      · simp [first, upper]
  · simp [own]

end Creation

variable {kernelRoot root : Nat}

theorem fresh_space {pmm taken : Pmm}
    (kernel : KernelDirectory pmm kernelRoot) (took : Took pmm taken root)
    (zeroed : taken.ram = pmm.ram.fill root pageSize 0) :
    root ≠ kernelRoot ∧
      AddressSpace ((entryAt pmm.ram kernelRoot 0).testBit presentBit) kernelRoot root
        { taken with ram := copyKernelEntries taken.ram kernelRoot root } := by
  have kernelReachable : Reachable pmm.ram kernelRoot kernelRoot := ⟨[], ⟨by simp, by simp⟩, rfl⟩
  have apart : kernelRoot ≠ root := by
    rintro rfl
    exact kernel.inUse _ kernelReachable took.available
  have aligned := took.available.1
  have entries : ∀ table position, table % pageSize = 0 → position < 512 →
      entryAt (copyKernelEntries taken.ram kernelRoot root) table position =
        if table = root then
          if position = 0 ∨ 256 ≤ position then entryAt pmm.ram kernelRoot position else 0
        else entryAt pmm.ram table position := by
    intro table position tableAligned bound
    rw [copyKernelEntries_entry aligned kernel.aligned apart tableAligned bound, zeroed,
      entryAt_fill aligned kernel.aligned bound, entryAt_fill aligned tableAligned bound,
      if_neg apart]
    split
    · rfl
    · rfl
  generalize copyKernelEntries taken.ram kernelRoot root = ram at entries ⊢
  have pool : PoolKept pmm { taken with ram } := (took.with_ram ram).pool kernel.based
  have held : Held { taken with ram } root := (took.with_ram ram).held
  have kept : ∀ table position, Reachable pmm.ram kernelRoot table → table % pageSize = 0 →
      position < 512 → entryAt ram table position = entryAt pmm.ram table position := by
    intro table position reachable tableAligned bound
    rw [entries table position tableAligned bound, if_neg]
    rintro rfl
    exact kernel.inUse _ reachable took.available
  obtain ⟨kernelAfter, reach⟩ := kernel.of_entries pool kept
  -- below its own slots the new directory is empty
  have nodes : ∀ path node, OwnPath ((entryAt pmm.ram kernelRoot 0).testBit presentBit) path →
      nodeAt ram root path = some node → path = [] ∧ node = root := by
    intro path node own found
    induction path generalizing node with
    | nil =>
        simp only [nodeAt, walk, Option.some.injEq] at found
        exact ⟨rfl, found.symm⟩
    | cons index path ih =>
        obtain ⟨parent, place, child⟩ := walk_parent found
        obtain ⟨rfl, rfl⟩ := ih parent own.tail place
        have slot : OwnSlot _ index := own.2 index (by simp)
        have entry := entries parent index aligned own.1.head
        have absent : (entryAt ram parent index).testBit presentBit = false := by
          rw [entry, if_pos rfl]
          split
          · rename_i copied
            have zero : index = 0 := by
              have bound := slot.1
              omega
            subst zero
            exact slot.2.resolve_left (by simp)
          · exact Nat.zero_testBit _
        simp [childNode, absent] at child
  have foreign : ¬Reachable ram kernelRoot root := by
    rw [reach]
    exact fun reachable => kernel.inUse root reachable took.available
  refine ⟨apart.symm, kernelAfter, aligned, ?_, ?_, ?_, ?_, ?_⟩
  · intro slot bound notOwn
    have copied : slot = 0 ∨ 256 ≤ slot := by
      by_contra neither
      exact notOwn ⟨by omega, Or.inl (by omega)⟩
    have rootEntry := entries root slot aligned bound
    rw [if_pos rfl, if_pos copied] at rootEntry
    exact rootEntry.trans (kept kernelRoot slot kernelReachable kernel.aligned bound).symm
  · intro left right node leftOwn rightOwn leftFound rightFound
    rw [(nodes left node leftOwn leftFound).1, (nodes right node rightOwn rightFound).1]
  · intro path node own found
    rw [(nodes path node own found).2]
    exact held
  · intro path node own found
    rw [(nodes path node own found).2]
    exact foreign
  · intro path table index own positive _ found _
    rw [(nodes path table own found).1] at positive
    simp at positive

theorem vmmCreateAddressSpace_space {pmm after : Pmm} (kernel : KernelDirectory pmm kernelRoot)
    (created : vmmCreateAddressSpace pmm kernelRoot = some (root, after)) (nonNull : root ≠ 0) :
    pml4Mapped root = true ∧ pml4Mapped kernelRoot = true ∧ root ≠ kernelRoot ∧
      AddressSpace ((entryAt pmm.ram kernelRoot 0).testBit presentBit) kernelRoot root after := by
  unfold vmmCreateAddressSpace at created
  cases allocated : pmmAllocPage pmm with
  | none => simp [allocated] at created
  | some result =>
      obtain ⟨frame, taken⟩ := result
      simp only [allocated] at created
      split at created
      · simp only [Option.some.injEq, Prod.mk.injEq] at created
        exact absurd created.1.symm nonNull
      · rename_i frameNonNull
        split at created
        · simp only [Option.some.injEq, Prod.mk.injEq] at created
          exact absurd created.1.symm nonNull
        · rename_i mapped
          simp only [Option.some.injEq, Prod.mk.injEq] at created
          obtain ⟨rfl, rfl⟩ := created
          simp only [Bool.or_eq_true, Bool.not_eq_true', not_or, Bool.not_eq_false] at mapped
          obtain ⟨took, zeroed⟩ := pmmAllocPage_took kernel.based allocated nonNull
          exact ⟨mapped.1, mapped.2, fresh_space kernel took zeroed⟩

inductive SpaceCall where
  | mapUser (virt : UInt64) (flags : UInt32)
  | unmap (virt : UInt64)

def isLowerHalf (virt : UInt64) : Bool := virt.toNat ≤ 0x00007FFFFFFFFFFF

/-- One call on the directory; a mapping uses a fresh frame and counts when it succeeds. -/
def spaceStep (root : Nat) (pmm : Pmm) : SpaceCall → Option Pmm
  | .mapUser virt flags =>
      if !isLowerHalf virt then none
      else
        match pmmAllocPage pmm with
        | none => none
        | some (frame, taken) =>
            if frame = 0 then none
            else
              match vmmMapUserPage taken root virt (UInt64.ofNat frame) flags with
              | some (true, after) => some after
              | _ => none
  | .unmap virt => some { pmm with ram := (vmmUnmapPage pmm.ram root virt).2 }

/-- The call stays out of the slot shared with the kernel and its flags fit below the
frame number. -/
def SpaceCall.Confined (low : Bool) : SpaceCall → Prop
  | .mapUser virt flags => flags.toNat < 2 ^ 12 ∧ (pml4Index virt.toNat ≠ 0 ∨ low = false)
  | .unmap _ => True

/-- Tearing the directory down hands back, once each, exactly the tables and frames it does
not share with the kernel. -/
def DestroysOwn (pmm : Pmm) (kernelRoot root : Nat) : Prop :=
  (freedFrames pmm.ram kernelRoot root).Nodup ∧
    (∀ frame, frame ∈ freedFrames pmm.ram kernelRoot root ↔
      Reachable pmm.ram root frame ∧ ¬Reachable pmm.ram kernelRoot frame) ∧
    usedSet (vmmDestroyAddressSpace pmm kernelRoot root) =
      usedSet pmm \ ((freedFrames pmm.ram kernelRoot root).map (· / pageSize)).toFinset

section Steps

variable {low : Bool} {kernelRoot root : Nat} {pmm after : Pmm}

theorem Confined.map_user {mine : Nat → Prop} {ram : Mem}
    (inside : Confined mine ram low kernelRoot root pmm) {virt : UInt64}
    {flags : UInt32} {ok : Bool} (flagsSmall : flags.toNat < 2 ^ 12)
    (slot : OwnSlot low (pml4Index (alignDown virt.toNat))) (granted : mine frame)
    (target : (Held pmm frame ∧ Spare low kernelRoot root pmm frame) ∨
      nodeAt pmm.ram root (addressPath (alignDown virt.toNat)) = some frame)
    (called : vmmMapUserPage pmm root virt (UInt64.ofNat frame) flags = some (ok, after)) :
    Confined mine ram low kernelRoot root after := by
  have held : Held pmm frame := by
    rcases target with ⟨held, _⟩ | there
    · exact held
    · exact inside.space.held _ frame (addressPath_own slot) there
  have frameSmall : frame < 2 ^ 30 := by
    have managed := held.2.1
    have bound := inside.space.kernel.based.small
    simp only [pageSize, maxMemoryPages] at managed bound
    omega
  have phys : alignDown (UInt64.ofNat frame).toNat = frame := by
    rw [UInt64.toNat_ofNat', Nat.mod_eq_of_lt (by omega), alignDown_of_aligned held.1]
  obtain ⟨leafSmall, leafPresent, leafFrame⟩ := leaf_kind held.1
    (Nat.lt_trans frameSmall (by decide)) (Nat.or_lt_two_pow flagsSmall (by decide : pageUser < 2 ^ 12))
  rw [vmmMapUserPage, phys] at called
  split at called
  · simp only [Option.some.injEq, Prod.mk.injEq] at called
    obtain ⟨rfl, rfl⟩ := called
    exact inside
  · exact inside.mapWalk slot granted target leafSmall leafPresent leafFrame called

theorem AddressSpace.step (space : AddressSpace low kernelRoot root pmm) {call : SpaceCall}
    (confined : call.Confined low) (stepped : spaceStep root pmm call = some after) :
    AddressSpace low kernelRoot root after := by
  cases call with
  | unmap virt =>
      simp only [spaceStep, Option.some.injEq] at stepped
      subst stepped
      exact space.unmap virt
  | mapUser virt flags =>
      rw [spaceStep] at stepped
      split at stepped
      · contradiction
      · rename_i lower
        cases allocated : pmmAllocPage pmm with
        | none => simp [allocated] at stepped
        | some result =>
            obtain ⟨frame, taken⟩ := result
            simp only [allocated] at stepped
            split at stepped
            · contradiction
            · rename_i nonNull
              obtain ⟨took, zeroed⟩ := pmmAllocPage_took space.kernel.based allocated nonNull
              obtain ⟨takenSpace, spare⟩ := space.alloc took zeroed
              split at stepped
              · rename_i mapped called
                simp only [Option.some.injEq] at stepped
                subst stepped
                refine (takenSpace.confined.map_user confined.1 ?_ trivial
                  (Or.inl ⟨took.held, spare⟩) called).space
                refine ⟨?_, ?_⟩
                · simp only [isLowerHalf, Bool.not_eq_true', decide_eq_false_iff_not, not_not] at lower
                  simp only [pml4Index, alignDown, pageSize]
                  omega
                · refine confined.2.imp_left fun slot => ?_
                  simp only [pml4Index, alignDown, pageSize] at slot ⊢
                  omega
              · contradiction

end Steps

def ownPaths (low : Bool) : List (List Nat) :=
  ((List.range 256).flatMap fun slot =>
    if slot ≠ 0 ∨ low = false then pathsBelow (List.range 512) 3 [slot] else []) ++ [[]]

section Destruction

variable {low : Bool} {kernelRoot root : Nat} {pmm : Pmm} {ram : Mem} {path : List Nat}

theorem freed_level {table steps : Nat} {freed : Nat → List Nat}
    (place : nodeAt ram root path = some table)
    (level : ∀ index < 512, freed index =
      (pathsBelow (List.range 512) steps (index :: path)).filterMap (nodeAt ram root)) :
    (List.range 512).flatMap freed ++ [table] =
      (pathsBelow (List.range 512) (steps + 1) path).filterMap (nodeAt ram root) := by
  rw [pathsBelow, List.filterMap_append, List.filterMap_flatMap]
  have last : [path].filterMap (nodeAt ram root) = [table] := by simp [place]
  rw [last, List.flatMap_congr fun index member => level index (List.mem_range.mp member)]

theorem freedPt_eq {pt : Nat} (place : nodeAt ram root path = some pt) (deep : path.length = 3) :
    freedPt ram pt = (pathsBelow (List.range 512) 1 path).filterMap (nodeAt ram root) := by
  unfold freedPt
  refine freed_level place fun index _ => ?_
  have node : nodeAt ram root (index :: path) = childNode ram 3 pt index := by
    rw [nodeAt, walk_cons place, deep]
  simp only [pathsBelow, List.filterMap_cons, node, List.filterMap_nil]
  cases present : (entryAt ram pt index).testBit presentBit with
  | false => simp [childNode, present]
  | true => simp [childNode, present]

theorem freed_table {table steps : Nat} {freed : Mem → Nat → List Nat}
    (place : nodeAt ram root path = some table) (deep : path.length = 1 ∨ path.length = 2)
    (below : ∀ index node, nodeAt ram root (index :: path) = some node → freed ram node =
      (pathsBelow (List.range 512) steps (index :: path)).filterMap (nodeAt ram root)) :
    ((List.range 512).flatMap fun index =>
      let entry := entryAt ram table index
      if entry.testBit presentBit && !entry.testBit hugeBit then freed ram (alignDown entry)
      else []) ++ [table] =
      (pathsBelow (List.range 512) (steps + 1) path).filterMap (nodeAt ram root) := by
  refine freed_level place fun index _ => ?_
  have node : nodeAt ram root (index :: path) = childNode ram path.length table index := by
    rw [nodeAt, walk_cons place]
  by_cases isTable : ((entryAt ram table index).testBit presentBit &&
      !(entryAt ram table index).testBit hugeBit) = true
  · have found : nodeAt ram root (index :: path) = some (alignDown (entryAt ram table index)) := by
      simp only [Bool.and_eq_true, Bool.not_eq_true'] at isTable
      simp [node, childNode, isTable]
    simp only [isTable, if_true]
    exact below index _ found
  · have missing : nodeAt ram root (index :: path) = none := by
      rw [node]
      simp only [Bool.and_eq_true, Bool.not_eq_true', not_and, Bool.not_eq_false] at isTable
      cases present : (entryAt ram table index).testBit presentBit with
      | false => simp [childNode, present]
      | true => rcases deep with deep | deep <;> simp [childNode, deep, isTable present]
    simp only [isTable, Bool.false_eq_true, if_false]
    exact (pathsBelow_missing missing).symm

theorem freedPdp_eq {pdp : Nat} (place : nodeAt ram root path = some pdp) (deep : path.length = 1) :
    freedPdp ram pdp = (pathsBelow (List.range 512) 3 path).filterMap (nodeAt ram root) := by
  unfold freedPdp
  refine freed_table place (Or.inl deep) fun index pd pdPlace => ?_
  unfold freedPd
  refine freed_table pdPlace (Or.inr (by simp [deep])) fun position pt ptPlace => ?_
  exact freedPt_eq ptPlace (by simp [deep])

theorem mem_ownPaths : path ∈ ownPaths low ↔ OwnPath low path := by
  simp only [ownPaths, List.mem_append, List.mem_flatMap, List.mem_singleton, List.mem_range]
  constructor
  · rintro (⟨slot, slotBound, member⟩ | rfl)
    · split at member
      · rename_i own
        obtain ⟨more, rfl, short, inside⟩ := mem_pathsBelow.mp member
        have bound : (more ++ [slot]).length ≤ 4 := by
          rw [List.length_append, List.length_singleton]
          omega
        refine ⟨⟨bound, ?_⟩, ?_⟩
        · intro index indexMember
          rcases List.mem_append.mp indexMember with earlier | last
          · exact List.mem_range.mp (inside index earlier)
          · rw [List.mem_singleton.mp last]
            omega
        · simpa using ⟨slotBound, own⟩
      · exact absurd member List.not_mem_nil
    · exact ownPath_nil
  · intro own
    rcases List.eq_nil_or_concat path with rfl | ⟨more, slot, rfl⟩
    · exact Or.inr rfl
    · rw [List.concat_eq_append] at own ⊢
      have slotOwn : OwnSlot low slot := own.2 slot (by simp)
      refine Or.inl ⟨slot, slotOwn.1, ?_⟩
      rw [if_pos slotOwn.2]
      have bound := own.1.1
      rw [List.length_append, List.length_singleton] at bound
      refine mem_pathsBelow.mpr ⟨more, rfl, by omega, ?_⟩
      intro index member
      exact List.mem_range.mpr (own.1.2 index (List.mem_append_left _ member))

theorem ownPaths_nodup : (ownPaths low).Nodup := by
  rw [ownPaths, List.nodup_append]
  refine ⟨?_, List.nodup_singleton _, ?_⟩
  · rw [List.nodup_flatMap]
    refine ⟨?_, ?_⟩
    · intro slot _
      split
      · exact pathsBelow_nodup List.nodup_range
      · exact List.nodup_nil
    · apply List.nodup_range.imp
      intro left right different
      rw [Function.onFun_apply, List.disjoint_left]
      intro common inLeft inRight
      split at inLeft
      · split at inRight
        · obtain ⟨leftMore, rfl, _⟩ := mem_pathsBelow.mp inLeft
          obtain ⟨rightMore, same, _⟩ := mem_pathsBelow.mp inRight
          have last := (List.append_inj' same rfl).2
          simp only [List.cons.injEq, and_true] at last
          exact different last
        · exact absurd inRight List.not_mem_nil
      · exact absurd inLeft List.not_mem_nil
  · intro longer inLonger shorter inShorter same
    rw [List.mem_singleton] at inShorter
    obtain ⟨slot, _, below⟩ := List.mem_flatMap.mp inLonger
    split at below
    · obtain ⟨more, shape, _⟩ := mem_pathsBelow.mp below
      have lengths := congrArg List.length (shape.symm.trans (same.trans inShorter))
      simp at lengths
    · exact absurd below List.not_mem_nil

theorem AddressSpace.freedFrames_eq (space : AddressSpace low kernelRoot root pmm) :
    freedFrames pmm.ram kernelRoot root = (ownPaths low).filterMap (nodeAt pmm.ram root) := by
  have rootNode : nodeAt pmm.ram root [] = some root := rfl
  have last : [[]].filterMap (nodeAt pmm.ram root) = [root] := by simp [rootNode]
  have slots : ∀ slot ∈ List.range 256,
      (if ((entryAt pmm.ram root slot).testBit presentBit &&
          entryAt pmm.ram root slot != entryAt pmm.ram kernelRoot slot) = true then
        freedPdp pmm.ram (alignDown (entryAt pmm.ram root slot)) else []) =
      (if slot ≠ 0 ∨ low = false then pathsBelow (List.range 512) 3 [slot] else []).filterMap
        (nodeAt pmm.ram root) := by
    intro slot member
    have slotBound := List.mem_range.mp member
    have child : nodeAt pmm.ram root [slot] = childNode pmm.ram 0 root slot := walk_cons rootNode
    by_cases own : slot ≠ 0 ∨ low = false
    · rw [if_pos own]
      cases present : (entryAt pmm.ram root slot).testBit presentBit with
      | false =>
          have missing : nodeAt pmm.ram root [slot] = none := by simp [child, childNode, present]
          rw [Bool.false_and, if_neg Bool.false_ne_true]
          exact (pathsBelow_missing missing).symm
      | true =>
          have found : nodeAt pmm.ram root [slot] =
              some (alignDown (entryAt pmm.ram root slot)) := by
            simp [child, childNode, present]
          have slotPath : OwnPath low [slot] :=
            ownPath_nil.cons (by omega) (by simp) fun _ => ⟨slotBound, own⟩
          have different : entryAt pmm.ram root slot ≠ entryAt pmm.ram kernelRoot slot := by
            intro same
            refine space.foreign [slot] _ slotPath found ⟨[slot], slotPath.1, ?_⟩
            have kernelNode : nodeAt pmm.ram kernelRoot [] = some kernelRoot := rfl
            rw [nodeAt, walk_cons kernelNode]
            simp [childNode, ← same, present]
          have condition : (true && entryAt pmm.ram root slot !=
              entryAt pmm.ram kernelRoot slot) = true := by simpa using different
          rw [if_pos condition]
          exact freedPdp_eq found rfl
    · have shared := space.shared slot (by omega) (fun ownSlot => own ownSlot.2)
      simp [own, shared]
  rw [freedFrames, ownPaths, List.filterMap_append, last, List.filterMap_flatMap]
  rw [List.flatMap_congr slots]

theorem pmmFreePage_held (based : ZeroBased pmm) (held : Held pmm frame) :
    SameBounds pmm (pmmFreePage pmm frame) ∧
      usedSet (pmmFreePage pmm frame) = usedSet pmm \ {frame / pageSize} := by
  obtain ⟨aligned, managed, used⟩ := held
  have one : (1 : UInt32).toNat = 1 := rfl
  have accepted : ¬FreeRejected pmm frame 1 := by
    have covered := based.covered
    simp only [FreeRejected, not_or, not_exists, not_and, not_not, based.start, one, Nat.sub_zero]
    refine ⟨by decide, by omega, ?_, aligned, by omega, ?_⟩
    · simp only [pageSize] at managed covered aligned
      omega
    · intro index small
      rw [Nat.lt_one_iff.mp small]
      exact used
  have freed := pmmFreePages_accepted accepted
  have single : Finset.Ico (frame / pageSize) (frame / pageSize + 1) = {frame / pageSize} := by
    ext page
    simp only [Finset.mem_Ico, Finset.mem_singleton]
    omega
  have result := freed.used
  rw [based.start, one, Nat.sub_zero, single] at result
  exact ⟨freed.bounds, result⟩

theorem foldl_pmmFreePage {frames : List Nat} (based : ZeroBased pmm) (distinct : frames.Nodup)
    (held : ∀ frame ∈ frames, Held pmm frame) :
    usedSet (frames.foldl pmmFreePage pmm) =
      usedSet pmm \ (frames.map (· / pageSize)).toFinset := by
  induction frames generalizing pmm with
  | nil => simp
  | cons frame rest ih =>
      rw [List.nodup_cons] at distinct
      have first := held frame List.mem_cons_self
      obtain ⟨bounds, used⟩ := pmmFreePage_held based first
      have others : ∀ other ∈ rest, Held (pmmFreePage pmm frame) other := by
        intro other member
        have before := held other (List.mem_cons_of_mem _ member)
        refine ⟨before.1, bounds.totalPages ▸ before.2.1, ?_⟩
        rw [used, Finset.mem_sdiff, Finset.mem_singleton]
        refine ⟨before.2.2, fun samePage => distinct.1 ?_⟩
        have same : other = frame := by
          have otherAligned := before.1
          have aligned := first.1
          simp only [pageSize] at samePage otherAligned aligned
          omega
        exact same ▸ member
      rw [List.foldl_cons, ih (based.of_sameBounds bounds) distinct.2 others, used, List.map_cons,
        List.toFinset_cons, Finset.insert_eq, sdiff_sdiff_left]
      rfl

theorem AddressSpace.shared_walk (space : AddressSpace low kernelRoot root pmm) {slot : Nat}
    (valid : PathUpTo 4 path) (last : path.getLast? = some slot) (shared : ¬OwnSlot low slot) :
    nodeAt pmm.ram root path = nodeAt pmm.ram kernelRoot path := by
  induction path with
  | nil => simp at last
  | cons index path ih =>
      cases path with
      | nil =>
          simp only [List.getLast?_singleton, Option.some.injEq] at last
          subst last
          have same := space.shared index valid.head shared
          simp only [nodeAt, walk, Option.bind_some, childNode, same]
      | cons next path =>
          rw [List.getLast?_cons_cons] at last
          have before := ih valid.tail last
          simp only [nodeAt] at before ⊢
          rw [walk, before]
          rfl

theorem AddressSpace.destroys (space : AddressSpace low kernelRoot root pmm)
    (mapped : pml4Mapped root = true) (kernelMapped : pml4Mapped kernelRoot = true)
    (different : root ≠ kernelRoot) : DestroysOwn pmm kernelRoot root := by
  have members : ∀ frame, frame ∈ freedFrames pmm.ram kernelRoot root ↔
      ∃ path, OwnPath low path ∧ nodeAt pmm.ram root path = some frame := by
    intro frame
    rw [space.freedFrames_eq, List.mem_filterMap]
    simp only [mem_ownPaths]
  have distinct : (freedFrames pmm.ram kernelRoot root).Nodup := by
    rw [space.freedFrames_eq]
    exact walks_nodup space.apart (fun path member => mem_ownPaths.mp member) ownPaths_nodup
  refine ⟨distinct, ?_, ?_⟩
  · intro frame
    rw [members]
    constructor
    · rintro ⟨path, own, found⟩
      exact ⟨⟨path, own.1, found⟩, space.foreign path frame own found⟩
    · rintro ⟨⟨path, valid, found⟩, foreign⟩
      refine ⟨path, ⟨valid, ?_⟩, found⟩
      intro slot last
      by_contra shared
      exact foreign ⟨path, valid, (space.shared_walk valid last shared).symm.trans found⟩
  · rw [vmmDestroyAddressSpace, if_neg different, mapped, kernelMapped]
    simp only [Bool.not_true, Bool.or_self, Bool.false_eq_true, if_false]
    refine foldl_pmmFreePage space.kernel.based distinct ?_
    intro frame member
    obtain ⟨path, own, found⟩ := (members frame).mp member
    exact space.held path frame own found

end Destruction

/-- In every run whose mappings stay out of the shared slot 0 and pass flags below the
frame bits, tearing the directory down gives back exactly its own frames, each once. -/
theorem confined_spaces_destroy_own {pmm start final : Pmm} {kernelRoot root : Nat}
    {calls : List SpaceCall} (kernel : KernelDirectory pmm kernelRoot)
    (created : vmmCreateAddressSpace pmm kernelRoot = some (root, start)) (nonNull : root ≠ 0)
    (confined : ∀ call ∈ calls,
      call.Confined ((entryAt pmm.ram kernelRoot 0).testBit presentBit))
    (reached : runActions (spaceStep root) start calls = some final) :
    DestroysOwn final kernelRoot root := by
  obtain ⟨mapped, kernelMapped, different, space⟩ :=
    vmmCreateAddressSpace_space kernel created nonNull
  have finalSpace : AddressSpace ((entryAt pmm.ram kernelRoot 0).testBit presentBit) kernelRoot
      root final := by
    clear created
    induction calls generalizing start with
    | nil =>
        simp only [runActions, Option.some.injEq] at reached
        exact reached ▸ space
    | cons call rest ih =>
        obtain ⟨next, stepped, remaining⟩ := runActions_cons reached
        exact ih (fun later member => confined later (List.mem_cons_of_mem _ member)) remaining
          (space.step (confined call List.mem_cons_self) stepped)
  exact finalSpace.destroys mapped kernelMapped different

/-- Sixteen pages; the kernel's PML4 at 0x1000 identity-maps the first 2 MiB through tables
at 0x2000 and 0x3000, without `PAGE_USER`, as boot leaves it. -/
def bootPmm : Pmm :=
  { bitmap := fun index => if index = 0 then 0xF else 0, totalPages := 16, usedPages := 4,
    start := 0, stop := 0x10000, lastAllocHint := 0,
    ram := setEntry (setEntry (setEntry (fun _ => 0) 0x1000 0 0x2003) 0x2000 0 0x3003)
      0x3000 0 0x83 }

theorem boot_entry {table index : Nat} (aligned : table % pageSize = 0) (bound : index < 512) :
    entryAt bootPmm.ram table index =
      if table = 0x3000 ∧ index = 0 then 0x83
      else if table = 0x2000 ∧ index = 0 then 0x3003
      else if table = 0x1000 ∧ index = 0 then 0x2003 else 0 := by
  have zero : entryAt (fun _ => 0) table index = 0 := Mem.readLE_zero fun _ _ => rfl
  unfold bootPmm
  dsimp only
  rw [entryAt_setEntry (by decide) aligned (by decide) bound,
    entryAt_setEntry (by decide) aligned (by decide) bound,
    entryAt_setEntry (by decide) aligned (by decide) bound, zero]
  rfl

theorem boot_node {path : List Nat} {node : Nat} (valid : PathUpTo 4 path)
    (found : nodeAt bootPmm.ram 0x1000 path = some node) :
    (path = [] ∧ node = 0x1000) ∨ (path = [0] ∧ node = 0x2000) ∨ (path = [0, 0] ∧ node = 0x3000) := by
  induction path generalizing node with
  | nil =>
      simp only [nodeAt, walk, Option.some.injEq] at found
      exact Or.inl ⟨rfl, found.symm⟩
  | cons index path ih =>
      obtain ⟨parent, place, child⟩ := walk_parent found
      have above := ih valid.tail place
      have aligned : parent % pageSize = 0 := by
        rcases above with ⟨_, rfl⟩ | ⟨_, rfl⟩ | ⟨_, rfl⟩ <;> rfl
      simp only [childNode, boot_entry aligned valid.head] at child
      by_cases first : index = 0
      · subst first
        rcases above with ⟨rfl, rfl⟩ | ⟨rfl, rfl⟩ | ⟨rfl, rfl⟩
        · right
          left
          refine ⟨rfl, Option.some.inj (child.symm.trans ?_)⟩
          decide
        · right
          right
          refine ⟨rfl, Option.some.inj (child.symm.trans ?_)⟩
          decide
        · have wrong : some node = none := child.symm.trans (by decide)
          cases wrong
      · simp [first] at child

theorem boot_kernel : KernelDirectory bootPmm 0x1000 := by
  refine ⟨⟨rfl, by decide, by decide⟩, rfl, ?_, ?_, ?_⟩
  · rintro frame ⟨path, valid, found⟩ available
    have unused := available.2.2
    rcases boot_node valid found with ⟨_, rfl⟩ | ⟨_, rfl⟩ | ⟨_, rfl⟩
    · exact unused (by decide)
    · exact unused (by decide)
    · exact unused (by decide)
  · intro path valid found
    rcases boot_node (valid.mono (by decide)) found with ⟨rfl, _⟩ | ⟨_, same⟩ | ⟨_, same⟩
    · rfl
    · exact absurd same (by decide)
    · exact absurd same (by decide)
  · intro slot pdp index slotBound found bound
    have valid : PathUpTo 4 [slot] := ⟨by simp, by simpa using slotBound⟩
    rcases boot_node valid found with ⟨wrong, _⟩ | ⟨_, rfl⟩ | ⟨wrong, _⟩
    · simp at wrong
    · rw [boot_entry rfl bound]
      by_cases first : index = 0
      · subst first
        decide
      · simp [first]
    · simp at wrong

/-- What `vmm_create_address_space` makes of `bootPmm`: the one present kernel entry is
copied, the rest of the new PML4 is zero. -/
def bootSpace : Pmm :=
  { bootPmm with
    bitmap := (bitmapSetBit bootPmm 4).bitmap, usedPages := 5, lastAllocHint := 5,
    ram := setEntry (bootPmm.ram.fill 0x4000 4096 0) 0x4000 0 0x2003 }

theorem eq_of_entryAt {left right : Mem} (same : ∀ table index, table % pageSize = 0 → index < 512 →
    entryAt left table index = entryAt right table index) : left = right := by
  apply Mem.eq_of_readU64
  intro address aligned
  have entry := same (alignDown address) (address % 4096 / 8) (alignDown_aligned address) (by omega)
  have place : alignDown address + 8 * (address % 4096 / 8) = address := by
    simp only [alignDown, pageSize]
    omega
  simpa only [entryAt, place] using entry

theorem boot_created : vmmCreateAddressSpace bootPmm 0x1000 = some (0x4000, bootSpace) := by
  have allocated : pmmAllocPage bootPmm =
      some (0x4000, { bootSpace with ram := bootPmm.ram.fill 0x4000 pageSize 0 }) := by
    have found : findClearRange bootPmm 1 = some 4 := by decide +kernel
    unfold pmmAllocPage pmmAllocPages
    rw [if_neg (by decide), if_neg (by decide), show (1 : UInt32).toNat = 1 from rfl, found]
    rfl
  have copied : copyKernelEntries (bootPmm.ram.fill 0x4000 pageSize 0) 0x1000 0x4000 =
      bootSpace.ram := by
    apply eq_of_entryAt
    intro table index aligned bound
    have stored := @entryAt_setEntry (bootPmm.ram.fill 0x4000 pageSize 0) 0x4000 0
      0x2003 table index (by decide) aligned (by decide) bound
    change _ = entryAt (setEntry (bootPmm.ram.fill 0x4000 pageSize 0) 0x4000 0 0x2003) table index
    rw [stored, copyKernelEntries_entry (by decide) (by decide) (by decide) aligned bound,
      entryAt_fill (by decide) aligned bound, entryAt_fill (by decide) (by decide) bound,
      if_neg (show ¬(0x1000 = 0x4000) by decide), boot_entry (by decide) bound]
    by_cases own : table = 0x4000
    · by_cases first : index = 0
      · simp [own, first]
      · simp [own, first]
    · simp [own]
  unfold vmmCreateAddressSpace
  rw [allocated]
  dsimp only
  rw [if_neg (by decide), if_neg (by decide), copied]

/-- Mapping below slot 0 sets `PAGE_USER` in the copied entry, so that it no longer equals
the kernel's and the kernel's own tables are handed back. -/
theorem shared_slot_frees_kernel_table : ∃ final,
    KernelDirectory bootPmm 0x1000 ∧
    vmmCreateAddressSpace bootPmm 0x1000 = some (0x4000, bootSpace) ∧
    runActions (spaceStep 0x4000) bootSpace [.mapUser 0x200000 3] = some final ∧
    ¬DestroysOwn final 0x1000 0x4000 := by
  have runs : ((runActions (spaceStep 0x4000) bootSpace [.mapUser 0x200000 3]).map
      fun final => (entryAt final.ram 0x4000 0, entryAt final.ram 0x1000 0)) =
      some (0x2007, 0x2003) := by
    decide +kernel
  obtain ⟨final, reached, entries⟩ := Option.map_eq_some_iff.mp runs
  simp only [Prod.mk.injEq] at entries
  refine ⟨final, boot_kernel, boot_created, reached, ?_⟩
  rintro ⟨_, exact, _⟩
  have freed : 0x2000 ∈ freedFrames final.ram 0x1000 0x4000 := by
    rw [freedFrames, List.mem_append, List.mem_flatMap]
    refine Or.inl ⟨0, List.mem_range.mpr (by decide), ?_⟩
    simp only [entries]
    exact List.mem_append_right _ List.mem_cons_self
  refine ((exact 0x2000).mp freed).2 ⟨[0], ⟨by simp, by simp⟩, ?_⟩
  simp only [nodeAt, walk, Option.bind_some, childNode, entries]
  decide

theorem confined_spaces_one_page : ∃ final,
    runActions (spaceStep 0x4000) bootSpace [.mapUser 0x8000000000 3, .unmap 0x200000] =
      some final ∧ DestroysOwn final 0x1000 0x4000 := by
  have runs : (runActions (spaceStep 0x4000) bootSpace
      [.mapUser 0x8000000000 3, .unmap 0x200000]).isSome = true := by
    decide +kernel
  obtain ⟨final, reached⟩ := Option.isSome_iff_exists.mp runs
  refine ⟨final, reached, confined_spaces_destroy_own boot_kernel boot_created (by decide) ?_
    reached⟩
  intro call member
  rcases List.mem_cons.mp member with rfl | later
  · exact ⟨by decide, Or.inl (by decide)⟩
  · rw [List.mem_singleton.mp later]
    trivial

end Szczupak
