import Szczupak.Loader.Elf

/-!
The user range page by page.  Each of its pages has one last-level entry; mapping and
`vmm_change_flags` set that entry and leave the other pages alone, and neither touches the bytes
of a frame that holds data.
-/

namespace Szczupak

def InUserSpace (address : Nat) : Prop := userSpaceStart ≤ address ∧ address < userSpaceEnd

def leafEntry (ram : Mem) (root address : Nat) : Nat :=
  match nodeAt ram root (addressPath address).tail with
  | some pt => entryAt ram pt (ptIndex address)
  | none => 0

/-- The upper tables of the own half leave the permissions to the last level; what is mapped there
is for the user, and not frame 0. -/
structure UserSpace (kernelRoot root : Nat) (pmm : Pmm) : Prop where
  space : AddressSpace true kernelRoot root pmm
  granted : ∀ path table index, OwnPath true (index :: path) → path.length < 3 →
    nodeAt pmm.ram root path = some table → (entryAt pmm.ram table index).testBit presentBit = true →
    (entryAt pmm.ram table index).testBit userBit = true ∧
    (entryAt pmm.ram table index).testBit writeBit = true
  nonNull : ∀ path frame, OwnPath true path → path.length = 4 →
    nodeAt pmm.ram root path = some frame → frame ≠ 0
  users : ∀ address, InUserSpace address → (leafEntry pmm.ram root address).testBit presentBit =
    true → (leafEntry pmm.ram root address).testBit userBit = true

def DataFrame (root : Nat) (pmm : Pmm) (frame : Nat) : Prop :=
  Held pmm frame ∧ ∀ path, OwnPath true path → path.length ≤ 3 → nodeAt pmm.ram root path ≠ some frame

structure KeepsData (root : Nat) (pmm after : Pmm) : Prop where
  data : ∀ frame, DataFrame root pmm frame → DataFrame root after frame
  bytes : ∀ address, DataFrame root pmm (alignDown address) → after.ram address = pmm.ram address

structure KeepsPages (kernelRoot root : Nat) (pmm after : Pmm) :
    Prop extends KeepsData root pmm after where
  leaves : ∀ address, InUserSpace address → leafEntry after.ram root address =
    leafEntry pmm.ram root address
  holds : ∀ frame, Held pmm frame → Held after frame
  spare : ∀ frame, Held pmm frame → Spare true kernelRoot root pmm frame →
    Spare true kernelRoot root after frame
  stays : ∀ path node, OwnPath true path → nodeAt pmm.ram root path = some node →
    nodeAt after.ram root path = some node

structure SetsPage (root : Nat) (pmm after : Pmm)
    (address value : Nat) : Prop extends KeepsData root pmm after where
  leaf : ∀ other, InUserSpace other → leafEntry after.ram root other =
    if other / 4096 = address / 4096 then value else leafEntry pmm.ram root other

variable {pmm middle after : Pmm}

theorem KeepsData.trans {root : Nat} (first : KeepsData root pmm middle)
    (second : KeepsData root middle after) : KeepsData root pmm after := by
  constructor
  · intro frame data
    exact second.data frame (first.data frame data)
  · intro address data
    rw [second.bytes address (first.data _ data), first.bytes address data]

theorem KeepsPages.trans {kernelRoot root : Nat} (first : KeepsPages kernelRoot root pmm middle)
    (second : KeepsPages kernelRoot root middle after) : KeepsPages kernelRoot root pmm after where
  toKeepsData := first.toKeepsData.trans second.toKeepsData
  leaves address user := (second.leaves address user).trans (first.leaves address user)
  holds frame held := second.holds frame (first.holds frame held)
  spare frame held spare :=
  second.spare frame (first.holds frame held) (first.spare frame held spare)
  stays path node own found := second.stays path node own (first.stays path node own found)

theorem KeepsPages.sets {kernelRoot root address value : Nat}
    (first : KeepsPages kernelRoot root pmm middle) (second :
    SetsPage root middle after address value) : SetsPage root pmm after address value where
  toKeepsData := first.toKeepsData.trans second.toKeepsData
  leaf other user := by rw [second.leaf other user, first.leaves other user]

section Addresses

variable {address other : Nat}

theorem addressPath_alignDown (address : Nat) : addressPath (alignDown address) =
    addressPath address := by
  simp only [addressPath, ptIndex, pdIndex, pdpIndex, pml4Index, alignDown, pageSize,
    List.cons.injEq, and_true]
  omega

section

variable (user : InUserSpace address)
include user

theorem InUserSpace.slot : OwnSlot true (pml4Index address) := by
  have own := user_slot user.1 user.2
  have path := addressPath_alignDown address
  simp only [addressPath, List.cons.injEq] at path
  rwa [path.2.2.2.1] at own

theorem InUserSpace.path : OwnPath true (addressPath address) := addressPath_own user.slot

theorem InUserSpace.whole : (UInt64.ofNat address).toNat = address := by
  have upper := user.2
  simp only [userSpaceEnd] at upper
  rw [UInt64.toNat_ofNat', Nat.mod_eq_of_lt (by omega)]

theorem InUserSpace.same_page (otherUser : InUserSpace other) :
    addressPath other = addressPath address ↔ other / 4096 = address / 4096 := by
  have upper := user.2
  have otherUpper := otherUser.2
  simp only [userSpaceEnd] at upper otherUpper
  simp only [addressPath, ptIndex, pdIndex, pdpIndex, pml4Index, List.cons.injEq, and_true]
  omega

end

theorem byte_of_entryAt {left right : Mem}
    (same : ∀ position < 512, entryAt left (alignDown address) position =
      entryAt right (alignDown address) position) :
    left address = right address := by
  apply Mem.byte_of_readU64
  have entry := same (address % 4096 / 8) (by omega)
  have place : alignDown address + 8 * (address % 4096 / 8) = address - address % 8 := by
    simp only [alignDown, pageSize]
    omega
  rwa [entryAt, entryAt, place] at entry

end Addresses

section Levels

variable {kernelRoot root parent index table flags : Nat} {pmm after : Pmm} {path : List Nat}

theorem TableStep.others {other position : Nat} (step : TableStep pmm after parent index table)
    (aligned : other % pageSize = 0) (bound : position < 512) (inUse : ¬Available pmm other)
    (elsewhere : ¬(other = parent ∧ position = index)) :
    entryAt after.ram other position = entryAt pmm.ram other position := by
  cases step with
  | kept value present alike entries pool => rw [entries other position aligned bound, if_neg elsewhere]
  | made frame absent grew =>
      obtain ⟨_, took, value, _, entries⟩ := grew
      have old : other ≠ table := by
        rintro rfl
        exact inUse took.available
      rw [entries other position aligned bound, if_neg old, if_neg elsewhere]

theorem grantFlag_bit {ram : Mem} {bit : Nat} (aligned : parent % pageSize = 0)
    (bound : index < 512) (low : bit < 3)
    (asked : flags.testBit bit = true) :
    (entryAt (grantFlag ram parent index flags bit) parent index).testBit bit = true := by
  unfold grantFlag
  cases had : (entryAt ram parent index).testBit bit with
  | true => simp [had]
  | false =>
      have small : 2 ^ bit < 8 := Nat.pow_lt_pow_right (by decide) low
      simp [asked, (orEntry_step aligned bound small).read aligned bound]

theorem getOrCreateTable_write (aligned : parent % pageSize = 0) (bound : index < 512)
    (asked : flags.testBit writeBit = true) (nonNull : table ≠ nullTable)
    (found : getOrCreateTable pmm parent index flags = some (table, after)) :
    (entryAt after.ram parent index).testBit writeBit = true := by
  unfold getOrCreateTable at found
  split at found
  · simp only [Option.some.injEq, Prod.mk.injEq] at found
    exact absurd found.1.symm nonNull
  · split at found
    · simp only [Option.some.injEq, Prod.mk.injEq] at found
      rw [← found.2]
      exact grantFlag_bit aligned bound (by decide) asked
    · cases allocated : pmmAllocPage pmm with
      | none => simp [allocated] at found
      | some result =>
          simp only [allocated] at found
          split at found
          · simp only [Option.some.injEq, Prod.mk.injEq] at found
            exact absurd found.1.symm nonNull
          · simp only [Option.some.injEq, Prod.mk.injEq] at found
            obtain ⟨_, rfl⟩ := found
            have own : Nat.testBit pageWrite writeBit = true := by decide
            have low : writeBit < 64 := by decide
            rw [entryAt_setEntry aligned aligned bound bound, if_pos ⟨rfl, rfl⟩, Nat.testBit_mod_two_pow]
            simp only [Nat.testBit_or, own, low, Bool.or_true, Bool.true_or, decide_true, Bool.and_self]

theorem withTable_user {next : Nat → Pmm → Option (Bool × Pmm)} (based : ZeroBased pmm)
    (aligned : parent % pageSize = 0) (bound : index < 512) (notNull : parent ≠ nullTable)
    (inUse : ¬Available pmm parent) (asked : flags.testBit writeBit = true)
    (called : withTable pmm parent index flags true next = some (true, after)) :
    ∃ table middle, TableStep pmm middle parent index table ∧
      ((entryAt middle.ram parent index).testBit userBit = true ∧
        (entryAt middle.ram parent index).testBit writeBit = true) ∧
      next table middle = some (true, after) := by
  unfold withTable at called
  rcases @getOrCreateTable_cases pmm parent index flags based aligned notNull bound inUse with
    fault | ⟨taken, failed, _⟩ | ⟨table, made, found, step⟩
  · simp [fault] at called
  · simp [failed] at called
  · simp only [found] at called
    split at called
    · simp at called
    · rename_i nonNull
      have write := getOrCreateTable_write aligned bound asked nonNull found
      refine ⟨table, _, step.force aligned bound inUse, ?_, called⟩
      have own : Nat.testBit pageUser userBit = true := by decide
      have stored := (@orEntry_step made.ram parent index pageUser aligned bound (by decide)).read aligned bound
      simp [stored, write, own]

theorem AddressSpace.own_others (space : AddressSpace true kernelRoot root pmm)
    (own : OwnPath true (index :: path))
    (place : nodeAt pmm.ram root path = some parent) (step : TableStep pmm after parent index table) :
    ∀ other node position, OwnPath true (position :: other) → nodeAt pmm.ram root other = some node →
      ¬(other = path ∧ position = index) → entryAt after.ram node position =
      entryAt pmm.ram node position := by
  intro other node position allowed found elsewhere
  have held := space.held other node allowed.tail found
  refine step.others held.1 allowed.1.head held.not_available ?_
  rintro ⟨rfl, rfl⟩
  exact elsewhere ⟨space.apart other path node allowed.tail own.tail found place, rfl⟩

theorem AddressSpace.linked (space : AddressSpace true kernelRoot root pmm)
    (own : OwnPath true (index :: path))
    (short : path.length < 3) (place : nodeAt pmm.ram root path = some parent)
    (step : TableStep pmm after parent index table) :
    (∀ other, OwnPath true other → nodeAt after.ram root other =
      if other = index :: path then some table else nodeAt pmm.ram root other) ∧
    (nodeAt pmm.ram root (index :: path) = some table ∨
      nodeAt pmm.ram root (index :: path) = none ∧ ∀ position < 512,
      entryAt after.ram table position = 0) := by
  have others := space.own_others own place step
  have reached := (space.tableStep own short place step).node
  cases step with
  | kept value present alike entries pool =>
      have there : nodeAt pmm.ram root (index :: path) = some (alignDown (entryAt pmm.ram parent index)) :=
        nodeAt_child place present (fun positive _ =>
          space.small path parent index own.tail positive short place own.1.head) rfl
      refine ⟨?_, Or.inl there⟩
      intro other otherOwn
      have same : nodeAt after.ram root other = nodeAt pmm.ram root other := by
        refine walk_congr (fun _ _ => OwnPath.tail) ?_ otherOwn
        intro before position node allowed found
        by_cases here : before = path ∧ position = index
        · obtain ⟨rfl, rfl⟩ := here
          obtain rfl : parent = node := Option.some.inj (place.symm.trans found)
          rw [← entries.read (space.node_aligned place) own.1.head] at alike
          exact childNode_alike present alike
        · exact childNode_congr (others before node position allowed found here)
      rw [same]
      split
      · rename_i here
        rw [here, there]
      · rfl
  | made frame absent grew =>
      have missing : nodeAt pmm.ram root (index :: path) = none := nodeAt_missing place absent
      obtain ⟨_, took, value, link, entries⟩ := grew
      have blank : ∀ position < 512, entryAt after.ram table position = 0 := by
        intro position bound
        rw [entries table position took.available.1 bound, if_pos rfl]
      have inUse := (space.held path parent own.tail place).not_available
      have old : parent ≠ table := by
        rintro rfl
        exact inUse took.available
      have stored : entryAt after.ram parent index = value := by
        rw [entries parent index (space.node_aligned place) own.1.head, if_neg old, if_pos ⟨rfl, rfl⟩]
      refine ⟨?_, Or.inr ⟨missing, blank⟩⟩
      intro other otherOwn
      refine walk_update (fun _ _ => OwnPath.tail) ?_ place ?_ ?_ otherOwn
      · intro before position node allowed found elsewhere
        exact childNode_congr (others before node position allowed found elsewhere)
      · apply childNode_link took.available.1
        rw [stored]
        exact link
      · intro position allowed
        refine ⟨missing, ?_⟩
        intro node same
        cases same
        exact childNode_zero (blank position allowed.1.head)

theorem UserSpace.level (user : UserSpace kernelRoot root pmm) (own : OwnPath true (index :: path))
    (short : path.length < 3) (place : nodeAt pmm.ram root path = some parent)
    (step : TableStep pmm after parent index table)
    (bits : (entryAt after.ram parent index).testBit userBit = true ∧
      (entryAt after.ram parent index).testBit writeBit = true) :
    UserSpace kernelRoot root after ∧ KeepsPages kernelRoot root pmm after ∧
      nodeAt after.ram root (index :: path) = some table := by
  have space := user.space
  obtain ⟨nodes, fresh⟩ := space.linked own short place step
  have level := space.tableStep own short place step
  have others := space.own_others own place step
  have new : nodeAt after.ram root (index :: path) = some table := level.node
  have keeps : KeepsPages kernelRoot root pmm after := by
    refine ⟨⟨?_, ?_⟩, ?_, level.changes.pool.holds, ?_, level.changes.stays⟩
    · rintro frame ⟨held, noTable⟩
      refine ⟨level.changes.pool.holds frame held, ?_⟩
      intro other otherOwn otherShort found
      rcases level.changes.nodes other frame otherOwn found with available | old
      · exact held.not_available available
      · exact noTable other otherOwn otherShort old
    · rintro address ⟨held, noTable⟩
      refine byte_of_entryAt fun position bound => step.others held.1 bound held.not_available ?_
      rintro ⟨rfl, _⟩
      exact noTable path own.tail (by omega) place
    · intro address inUser
      have allowed := inUser.path
      have deep : (addressPath address).tail.length = 3 := rfl
      have elsewhere : ¬((addressPath address).tail = path ∧ ptIndex address = index) := by
        rintro ⟨rfl, _⟩
        omega
      unfold leafEntry
      rw [nodes (addressPath address).tail allowed.tail]
      by_cases here : (addressPath address).tail = index :: path
      · rw [if_pos here]
        rcases fresh with there | ⟨missing, blank⟩
        · rw [← here] at there
          rw [there]
          exact others _ table _ allowed there elsewhere
        · rw [here, missing]
          exact blank _ allowed.1.head
      · rw [if_neg here]
        cases found : nodeAt pmm.ram root (addressPath address).tail with
        | none => rfl
        | some pt => exact others _ pt _ allowed found elsewhere
    · intro frame held spare
      exact level.changes.spare space held spare
  refine ⟨⟨level.changes.space, ?_, ?_, ?_⟩, keeps, new⟩
  · intro other node position allowed otherShort found present
    rw [nodes other allowed.tail] at found
    split at found
    · rename_i here
      obtain rfl : table = node := Option.some.inj found
      rcases fresh with there | ⟨_, blank⟩
      · have elsewhere : ¬(other = path ∧ position = index) := by
          rintro ⟨same, _⟩
          simp [here] at same
        rw [← here] at there
        rw [others other table position allowed there elsewhere] at present ⊢
        exact user.granted other table position allowed otherShort there present
      · rw [blank position allowed.1.head, Nat.zero_testBit] at present
        contradiction
    · by_cases here : other = path ∧ position = index
      · obtain ⟨rfl, rfl⟩ := here
        obtain rfl : parent = node := Option.some.inj (place.symm.trans found)
        exact bits
      · rw [others other node position allowed found here] at present ⊢
        exact user.granted other node position allowed otherShort found present
  · intro other frame otherOwn deep found
    rw [nodes other otherOwn, if_neg] at found
    · exact user.nonNull other frame otherOwn deep found
    · rintro rfl
      simp only [List.length_cons] at deep
      omega
  · intro address inUser
    rw [keeps.leaves address inUser]
    exact user.users address inUser

theorem UserSpace.table_kind (user : UserSpace kernelRoot root pmm) (own : OwnPath true path)
    (place : nodeAt pmm.ram root path = some table) :
    table % pageSize = 0 ∧ table ≠ nullTable ∧ ¬Available pmm table := by
  have held := user.space.held path table own place
  have managed := held.2.1
  have bound := user.space.kernel.based.small
  refine ⟨held.1, ?_, held.not_available⟩
  simp only [pageSize, maxMemoryPages, nullTable] at managed bound ⊢
  omega

theorem UserSpace.with_table (user : UserSpace kernelRoot root pmm)
    {next : Nat → Pmm → Option (Bool × Pmm)}
    (own : OwnPath true (index :: path)) (short : path.length < 3)
    (place : nodeAt pmm.ram root path = some parent) (asked : flags.testBit writeBit = true)
    (called : withTable pmm parent index flags true next = some (true, after)) :
    ∃ table middle, UserSpace kernelRoot root middle ∧ KeepsPages kernelRoot root pmm middle ∧
      nodeAt middle.ram root (index :: path) = some table ∧ next table middle = some (true, after) := by
  obtain ⟨aligned, notNull, inUse⟩ := user.table_kind own.tail place
  obtain ⟨table, middle, step, bits, goes⟩ :=
    withTable_user user.space.kernel.based aligned own.1.head notNull inUse asked called
  obtain ⟨middleUser, keeps, node⟩ := user.level own short place step bits
  exact ⟨table, middle, middleUser, keeps, node, goes⟩

end Levels

section Leaves

variable {kernelRoot root address pt value frame : Nat} {pmm after : Pmm}

theorem UserSpace.map_walk {flags leaf : Nat} (user : UserSpace kernelRoot root pmm)
    (inUser : InUserSpace address) (asked : flags.testBit writeBit = true)
    (called : mapWalk pmm root address flags true leaf = some (true, after)) :
    ∃ pt middle, UserSpace kernelRoot root middle ∧ KeepsPages kernelRoot root pmm middle ∧
      nodeAt middle.ram root (addressPath address).tail = some pt ∧
      after = { middle with ram := setEntry middle.ram pt (ptIndex address) leaf } := by
  have ptPath := inUser.path
  have pdPath := ptPath.tail
  have pdpPath := pdPath.tail
  have rootNode : nodeAt pmm.ram root [] = some root := rfl
  unfold mapWalk at called
  obtain ⟨pdp, first, firstUser, firstKeeps, pdpNode, called⟩ :=
    user.with_table pdpPath.tail (by simp) rootNode asked called
  obtain ⟨pd, second, secondUser, secondKeeps, pdNode, called⟩ :=
    firstUser.with_table pdpPath (by simp) pdpNode asked called
  have notHuge := secondUser.space.small _ pd (pdIndex address) pdpPath (by simp)
    (by simp) pdNode pdPath.1.head
  have noSplit : splitHugePage second pd (pdIndex address) = some (true, second) := by
    simp [splitHugePage, notHuge]
  rw [noSplit] at called
  obtain ⟨pt, third, thirdUser, thirdKeeps, ptNode, called⟩ :=
    secondUser.with_table pdPath (by simp) pdNode asked called
  simp only [Option.some.injEq, Prod.mk.injEq, true_and] at called
  exact ⟨pt, third, thirdUser, (firstKeeps.trans secondKeeps).trans thirdKeeps, ptNode, called.symm⟩

theorem UserSpace.store_leaf (user : UserSpace kernelRoot root pmm) (inUser : InUserSpace address)
    (place : nodeAt pmm.ram root (addressPath address).tail = some pt)
    (target : (Held pmm frame ∧ Spare true kernelRoot root pmm frame) ∨
      nodeAt pmm.ram root (addressPath address) = some frame)
    (nonNull : frame ≠ 0) (valueSmall : value < 2 ^ 64) (present : value.testBit presentBit = true)
    (valueFrame : alignDown value = frame) (forUser : value.testBit userBit = true) :
    UserSpace kernelRoot root { pmm with ram := setEntry pmm.ram pt (ptIndex address) value } ∧
      SetsPage root pmm { pmm with ram := setEntry pmm.ram pt (ptIndex address) value } address value := by
  have space := user.space
  have own := inUser.path
  have changed := (space.confined.leaf own rfl place trivial target valueSmall present valueFrame).space
  have stored := @setEntry_step pmm.ram pt (ptIndex address) value (space.node_aligned place)
    own.1.head valueSmall
  have holds := (PoolKept.of_ram space.kernel.based (setEntry pmm.ram pt (ptIndex address) value)).holds
  generalize setEntry pmm.ram pt (ptIndex address) value = ram at *
  have deep : (addressPath address).tail.length = 3 := rfl
  -- only the path of three indices to the page's table ends in `pt`
  have entry : ∀ other table position, OwnPath true (position :: other) →
    nodeAt pmm.ram root other = some table →
      entryAt ram table position = if other = (addressPath address).tail ∧
      position = ptIndex address then value
        else entryAt pmm.ram table position := by
    intro other table position allowed found
    rw [stored table position (space.node_aligned found) allowed.1.head]
    by_cases here : other = (addressPath address).tail ∧ position = ptIndex address
    · obtain ⟨rfl, rfl⟩ := here
      obtain rfl : pt = table := Option.some.inj (place.symm.trans found)
      rw [if_pos ⟨rfl, rfl⟩, if_pos ⟨rfl, rfl⟩]
    · rw [if_neg here, if_neg]
      rintro ⟨rfl, rfl⟩
      exact here ⟨space.apart other _ table allowed.tail own.tail found place, rfl⟩
  have tables : ∀ other, OwnPath true other → other.length ≤ 3 →
    nodeAt ram root other = nodeAt pmm.ram root other := by
    intro other otherOwn short
    have both : OwnPath true other ∧ other.length ≤ 3 := ⟨otherOwn, short⟩
    refine @walk_congr _ _ _ _ root (fun path => OwnPath true path ∧ path.length ≤ 3) other ?_ ?_ both
    · intro position before allowed
      exact ⟨allowed.1.tail, Nat.le_of_succ_le allowed.2⟩
    · intro before position node allowed found
      apply childNode_congr
      rw [entry before node position allowed.1 found, if_neg]
      rintro ⟨rfl, _⟩
      have tooLong := allowed.2
      simp only [List.length_cons, deep] at tooLong
      omega
  have leaves : ∀ other, InUserSpace other → leafEntry ram root other =
      if other / 4096 = address / 4096 then value else leafEntry pmm.ram root other := by
    intro other otherUser
    have otherOwn := otherUser.path
    unfold leafEntry
    rw [tables (addressPath other).tail otherOwn.tail (Nat.le_refl 3)]
    by_cases here : addressPath other = addressPath address
    · rw [if_pos ((inUser.same_page otherUser).mp here)]
      have index : ptIndex other = ptIndex address := congrArg (fun path => path.headD 0) here
      rw [here, place, index]
      exact (entry _ pt _ own place).trans (if_pos ⟨rfl, rfl⟩)
    · rw [if_neg (fun same => here ((inUser.same_page otherUser).mpr same))]
      cases found : nodeAt pmm.ram root (addressPath other).tail with
      | none => rfl
      | some table =>
          refine (entry _ table _ otherOwn found).trans (if_neg ?_)
          rintro ⟨sameTable, sameIndex⟩
          apply here
          simp only [addressPath, List.tail_cons] at sameTable ⊢
          rw [sameIndex, sameTable]
  refine ⟨⟨changed, ?_, ?_, ?_⟩, ⟨⟨?_, ?_⟩, ?_⟩⟩
  · intro other table position allowed short found isPresent
    change nodeAt ram root other = some table at found
    change (entryAt ram table position).testBit presentBit = true at isPresent
    rw [tables other allowed.tail (by omega)] at found
    have same : entryAt ram table position = entryAt pmm.ram table position := by
      rw [entry other table position allowed found, if_neg]
      rintro ⟨rfl, _⟩
      omega
    rw [same] at isPresent
    simpa only [same] using user.granted other table position allowed short found isPresent
  · intro other node otherOwn otherDeep found
    change nodeAt ram root other = some node at found
    cases other with
    | nil => simp at otherDeep
    | cons position other =>
        have tableDeep : other.length = 3 := Nat.succ.inj otherDeep
        obtain ⟨table, before, child⟩ := walk_parent found
        have old := (tables other otherOwn.tail (Nat.le_of_eq tableDeep)).symm.trans before
        have stands := entry other table position otherOwn old
        split at stands
        · have same : frame = node := by simpa [childNode, stands, present, tableDeep, valueFrame] using child
          exact same ▸ nonNull
        · refine user.nonNull (position :: other) node otherOwn otherDeep ?_
          rw [nodeAt, walk_cons old]
          exact (childNode_congr stands).symm.trans child
  · intro other otherUser
    change (leafEntry ram root other).testBit presentBit = true →
      (leafEntry ram root other).testBit userBit = true
    rw [leaves other otherUser]
    split
    · exact fun _ => forUser
    · exact user.users other otherUser
  · rintro other ⟨held, noTable⟩
    refine ⟨holds other held, ?_⟩
    intro path pathOwn short found
    exact noTable path pathOwn short ((tables path pathOwn short).symm.trans found)
  · rintro other ⟨held, noTable⟩
    refine byte_of_entryAt fun position bound => ?_
    rw [stored _ position held.1 bound, if_neg]
    rintro ⟨rfl, _⟩
    exact noTable _ own.tail (Nat.le_of_eq deep) place
  · exact leaves

theorem leafEntry_missing {ram : Mem} (missing : nodeAt ram root (addressPath address).tail = none) :
    leafEntry ram root address = 0 := by
  rw [leafEntry, missing]

theorem leafEntry_found {ram : Mem} (place : nodeAt ram root (addressPath address).tail = some pt) :
    leafEntry ram root address = entryAt ram pt (ptIndex address) := by
  rw [leafEntry, place]

theorem leafEntry_page {ram : Mem} {other : Nat} (inUser : InUserSpace address)
    (otherUser : InUserSpace other)
    (same : other / 4096 = address / 4096) : leafEntry ram root other = leafEntry ram root address := by
  have path := (inUser.same_page otherUser).mpr same
  have index : ptIndex other = ptIndex address := congrArg (fun path => path.headD 0) path
  rw [leafEntry, leafEntry, path, index]

def OpenEntry (entry : Nat) : Prop :=
  entry.testBit presentBit = true ∧ entry.testBit userBit = true ∧ entry.testBit writeBit = true

theorem UserSpace.walk_entries (user : UserSpace kernelRoot root pmm) (inUser : InUserSpace address)
    {first second third : Nat} (firstEq : entryAt pmm.ram root (pml4Index address) = first)
    (secondEq : entryAt pmm.ram (alignDown first) (pdpIndex address) = second)
    (thirdEq : entryAt pmm.ram (alignDown second) (pdIndex address) = third) :
    (leafEntry pmm.ram root address = 0 ∧ first.testBit presentBit = false) ∨
    (leafEntry pmm.ram root address = 0 ∧ second.testBit hugeBit = false ∧
      second.testBit presentBit = false) ∨
    (leafEntry pmm.ram root address = 0 ∧ second.testBit hugeBit = false ∧
      third.testBit hugeBit = false ∧ third.testBit presentBit = false) ∨
    (nodeAt pmm.ram root (addressPath address).tail = some (alignDown third) ∧
      second.testBit hugeBit = false ∧ third.testBit hugeBit = false ∧
      OpenEntry first ∧ OpenEntry second ∧ OpenEntry third) := by
  have pdPath := inUser.path.tail
  have pdpPath := pdPath.tail
  cases user.space.walked inUser.path firstEq secondEq thirdEq with
  | noPdp absent missing => exact Or.inl ⟨leafEntry_missing missing, absent⟩
  | noPd small absent missing => exact Or.inr (Or.inl ⟨leafEntry_missing missing, small, absent⟩)
  | noPt small notHuge absent missing =>
      exact Or.inr (Or.inr (Or.inl ⟨leafEntry_missing missing, small, notHuge, absent⟩))
  | table small notHuge one two three pdp pd pt =>
      have firstBits := user.granted [] root (pml4Index address) pdpPath.tail (by simp) rfl (firstEq ▸ one)
      have secondBits := user.granted _ _ (pdpIndex address) pdpPath (by simp) pdp (secondEq ▸ two)
      have thirdBits := user.granted _ _ (pdIndex address) pdPath (by simp) pd (thirdEq ▸ three)
      rw [firstEq] at firstBits
      rw [secondEq] at secondBits
      rw [thirdEq] at thirdBits
      exact Or.inr (Or.inr (Or.inr ⟨pt, small, notHuge, ⟨one, firstBits⟩, ⟨two, secondBits⟩,
        ⟨three, thirdBits⟩⟩))

theorem UserSpace.view (user : UserSpace kernelRoot root pmm) (inUser : InUserSpace address) :
    pageView pmm.ram root address = if (leafEntry pmm.ram root address).testBit presentBit then
      some ⟨alignDown (leafEntry pmm.ram root address), (leafEntry pmm.ram root address).testBit
        userBit, (leafEntry pmm.ram root address).testBit writeBit⟩ else none := by
  unfold pageView
  generalize firstEq : entryAt pmm.ram root (pml4Index address) = first
  dsimp only
  generalize secondEq : entryAt pmm.ram (alignDown first) (pdpIndex address) = second
  generalize thirdEq : entryAt pmm.ram (alignDown second) (pdIndex address) = third
  rcases user.walk_entries inUser firstEq secondEq thirdEq with ⟨zero, absent⟩ | ⟨zero, small, absent⟩ |
    ⟨zero, small, notHuge, absent⟩ | ⟨place, small, notHuge, one, two, three⟩
  · simp [zero, absent]
  · simp [zero, small, absent]
  · simp [zero, small, notHuge, absent]
  · rw [leafEntry_found place]
    simp [small, notHuge, one.1, one.2.1, one.2.2, two.1, two.2.1, two.2.2, three.1, three.2.1, three.2.2]

theorem UserSpace.physical (user : UserSpace kernelRoot root pmm) (inUser : InUserSpace address) :
    vmmGetPhysical pmm.ram root (UInt64.ofNat address) =
    if (leafEntry pmm.ram root address).testBit presentBit then
      alignDown (leafEntry pmm.ram root address) + address % 4096 else 0 := by
  have same := addressPath_alignDown address
  simp only [addressPath, List.cons.injEq, and_true] at same
  unfold vmmGetPhysical
  rw [inUser.whole]
  dsimp only
  rw [same.1, same.2.1, same.2.2.1, same.2.2.2]
  generalize firstEq : entryAt pmm.ram root (pml4Index address) = first
  generalize secondEq : entryAt pmm.ram (alignDown first) (pdpIndex address) = second
  generalize thirdEq : entryAt pmm.ram (alignDown second) (pdIndex address) = third
  rcases user.walk_entries inUser firstEq secondEq thirdEq with ⟨zero, absent⟩ | ⟨zero, small, absent⟩ |
    ⟨zero, small, notHuge, absent⟩ | ⟨place, small, notHuge, one, two, three⟩
  · simp [zero, absent]
  · simp [zero, absent]
  · simp [zero, small, absent]
  · rw [leafEntry_found place]
    cases (entryAt pmm.ram (alignDown third) (ptIndex address)).testBit presentBit with
    | false => simp [small, notHuge]
    | true => simp [small, notHuge, one.1, two.1, three.1]

def mappedEntry (frame : Nat) (flags : UInt32) : Nat :=
  frame ||| (flags.toNat ||| pageUser) ||| pagePresent

section

variable (user : UserSpace kernelRoot root pmm)
include user

theorem held_small (held : Held pmm frame) : frame < 2 ^ 30 := by
  have managed := held.2.1
  have bound := user.space.kernel.based.small
  simp only [pageSize, maxMemoryPages] at managed bound
  omega

theorem UserSpace.map_page {flags : UInt32} (inUser : InUserSpace address)
    (aligned : address % 4096 = 0) (asked : (flags.toNat ||| pageUser).testBit writeBit = true)
    (flagsSmall : flags.toNat < 2 ^ 12) (nonNull : frame ≠ 0)
    (target : (Held pmm frame ∧ Spare true kernelRoot root pmm frame) ∨
      nodeAt pmm.ram root (addressPath address) = some frame)
    (called : vmmMapUserPage pmm root (UInt64.ofNat address) (UInt64.ofNat frame) flags =
      some (true, after)) :
    UserSpace kernelRoot root after ∧ SetsPage root pmm after address (mappedEntry frame flags) := by
  have held : Held pmm frame := by
    rcases target with fresh | there
    · exact fresh.1
    · exact user.space.held _ frame inUser.path there
  have small := held_small user held
  have phys : alignDown (UInt64.ofNat frame).toNat = frame := by
    rw [UInt64.toNat_ofNat', Nat.mod_eq_of_lt (by omega), alignDown_of_aligned held.1]
  have down : alignDown (UInt64.ofNat address).toNat = address := by
    rw [inUser.whole, alignDown_of_aligned aligned]
  obtain ⟨leafSmall, leafPresent, leafFrame⟩ := leaf_kind held.1 (Nat.lt_trans small (by decide))
    (Nat.or_lt_two_pow flagsSmall (by decide : pageUser < 2 ^ 12))
  rw [vmmMapUserPage, phys, down] at called
  split at called
  · simp at called
  · obtain ⟨pt, middle, middleUser, keeps, place, rfl⟩ := user.map_walk inUser asked called
    have middleTarget : (Held middle frame ∧ Spare true kernelRoot root middle frame) ∨
        nodeAt middle.ram root (addressPath address) = some frame := by
      rcases target with ⟨_, spare⟩ | there
      · exact Or.inl ⟨keeps.holds frame held, keeps.spare frame held spare⟩
      · exact Or.inr (keeps.stays _ frame inUser.path there)
    obtain ⟨afterUser, sets⟩ :=
      middleUser.store_leaf inUser place middleTarget nonNull leafSmall leafPresent leafFrame (by
        have own : Nat.testBit pageUser userBit = true := by decide
        simp [own])
    exact ⟨afterUser, keeps.sets sets⟩

theorem UserSpace.change_flags {flags : UInt32} (inUser : InUserSpace address)
    (flagsSmall : flags.toNat < 2 ^ 12) (forUser : flags.toNat.testBit userBit = true)
    (called : vmmChangeFlags pmm root (UInt64.ofNat address) flags = some (true, after)) :
    (leafEntry pmm.ram root address).testBit presentBit = true ∧ UserSpace kernelRoot root after ∧
      SetsPage root pmm after address
      (alignDown (leafEntry pmm.ram root address) ||| flags.toNat ||| pagePresent) := by
  have same := addressPath_alignDown address
  simp only [addressPath, List.cons.injEq, and_true] at same
  have space := user.space
  have own := inUser.path
  unfold vmmChangeFlags at called
  rw [inUser.whole] at called
  dsimp only at called
  rw [same.1, same.2.1, same.2.2.1, same.2.2.2] at called
  generalize firstEq : entryAt pmm.ram root (pml4Index address) = first at called
  generalize secondEq : entryAt pmm.ram (alignDown first) (pdpIndex address) = second at called
  rcases user.walk_entries inUser firstEq secondEq rfl with ⟨_, absent⟩ | ⟨_, small, absent⟩ |
    ⟨_, small, notHuge, absent⟩ | ⟨place, small, notHuge, one, two, three⟩
  · simp [absent] at called
  · simp [absent] at called
  · simp [absent] at called
  · have noSplit : splitHugePage pmm (alignDown second) (pdIndex address) = some (true, pmm) := by
      simp [splitHugePage, notHuge]
    simp only [one.1, two.1, three.1, Bool.not_true, Bool.false_eq_true, if_false, noSplit] at called
    rw [leafEntry_found place]
    generalize alignDown (entryAt pmm.ram (alignDown second) (pdIndex address)) = pt at *
    cases present : (entryAt pmm.ram pt (ptIndex address)).testBit presentBit with
    | false => simp [present] at called
    | true =>
        have leafNode := nodeAt_child place present (by simp [addressPath]) rfl
        have held := space.held _ _ own leafNode
        obtain ⟨leafSmall, leafPresent, leafFrame⟩ :=
          leaf_kind held.1 (Nat.lt_trans (held_small user held) (by decide)) flagsSmall
        simp only [present, Bool.not_true, Bool.false_eq_true, if_false, Option.some.injEq,
          Prod.mk.injEq, true_and] at called
        rw [← called]
        exact ⟨rfl, user.store_leaf inUser place (Or.inr leafNode)
          (user.nonNull _ _ own rfl leafNode) leafSmall leafPresent leafFrame (by simp [forUser])⟩

theorem UserSpace.leaf_frame (inUser : InUserSpace address)
    (present : (leafEntry pmm.ram root address).testBit presentBit = true) :
    nodeAt pmm.ram root (addressPath address) = some (alignDown (leafEntry pmm.ram root address)) ∧
      DataFrame root pmm (alignDown (leafEntry pmm.ram root address)) := by
  have own := inUser.path
  cases place : nodeAt pmm.ram root (addressPath address).tail with
  | none => simp [leafEntry, place] at present
  | some pt =>
      rw [leafEntry_found place] at present ⊢
      have node : nodeAt pmm.ram root (addressPath address) =
        some (alignDown (entryAt pmm.ram pt (ptIndex address))) :=
        nodeAt_child place present (by simp) rfl
      refine ⟨node, user.space.held _ _ own node, ?_⟩
      intro path pathOwn short found
      have same := user.space.apart path _ _ pathOwn own found node
      rw [same] at short
      simp [addressPath] at short

theorem UserSpace.of_entries (space : AddressSpace true kernelRoot root after)
    (same : ∀ path table position, OwnPath true (position :: path) → nodeAt pmm.ram root path =
      some table → entryAt after.ram table position = entryAt pmm.ram table position) :
    UserSpace kernelRoot root after ∧
      (∀ path, OwnPath true path → nodeAt after.ram root path = nodeAt pmm.ram root path) ∧
      ∀ address, InUserSpace address → leafEntry after.ram root address =
      leafEntry pmm.ram root address := by
  have nodes : ∀ path, OwnPath true path → nodeAt after.ram root path = nodeAt pmm.ram root path := by
    intro path own
    refine walk_congr (fun _ _ => OwnPath.tail) ?_ own
    intro before position table allowed place
    exact childNode_congr (same before table position allowed place)
  have leaves : ∀ address, InUserSpace address → leafEntry after.ram root address =
    leafEntry pmm.ram root address := by
    intro address inUser
    have own := inUser.path
    rw [leafEntry, leafEntry, nodes (addressPath address).tail own.tail]
    cases place : nodeAt pmm.ram root (addressPath address).tail with
    | none => rfl
    | some pt => exact same _ pt _ own place
  refine ⟨⟨space, ?_, ?_, ?_⟩, nodes, leaves⟩
  · intro path table index own short found
    rw [nodes path own.tail] at found
    rw [same path table index own found]
    exact user.granted path table index own short found
  · intro path node own deep found
    rw [nodes path own] at found
    exact user.nonNull path node own deep found
  · intro address inUser
    rw [leaves address inUser]
    exact user.users address inUser

theorem UserSpace.take (took : Took pmm after frame)
    (zeroed : after.ram = pmm.ram.fill frame pageSize 0) :
    UserSpace kernelRoot root after ∧ KeepsPages kernelRoot root pmm after ∧
      Spare true kernelRoot root after frame ∧ DataFrame root after frame := by
  have space := user.space
  obtain ⟨taken, spare⟩ := space.alloc took zeroed
  have changes := space.alloc_changes took zeroed
  obtain ⟨afterUser, nodes, leaves⟩ := user.of_entries taken fun path table position own place =>
    space.alloc_entries took zeroed own.tail place own.1.head
  refine ⟨afterUser, ⟨⟨?_, ?_⟩, leaves, changes.pool.holds, ?_, changes.stays⟩, spare, took.held, ?_⟩
  · rintro other ⟨held, noTable⟩
    refine ⟨changes.pool.holds other held, ?_⟩
    intro path own short found
    exact noTable path own short ((nodes path own).symm.trans found)
  · rintro address ⟨held, _⟩
    rw [zeroed]
    have other : alignDown address ≠ frame := by
      intro same
      exact (same ▸ held).not_available took.available
    have aligned := took.available.1
    apply Mem.fill_outside
    simp only [alignDown, pageSize] at other aligned ⊢
    omega
  · intro other held
    exact changes.spare space held
  · intro path own _ found
    exact spare.2 path own found

theorem UserSpace.store {changed : Mem} (inUser : InUserSpace address)
    (place : nodeAt pmm.ram root (addressPath address) = some frame)
    (outside : ∀ address, address < frame ∨ frame + 4096 ≤ address →
    changed address = pmm.ram address) : UserSpace kernelRoot root { pmm with ram := changed } ∧
      ∀ other, InUserSpace other → leafEntry changed root other = leafEntry pmm.ram root other := by
  have space := user.space
  have own := inUser.path
  have stored := (space.confined.store own rfl place outside).space
  obtain ⟨afterUser, _, leaves⟩ := user.of_entries stored fun path table position allowed found => by
    have frameAligned := space.node_aligned place
    have aligned := space.node_aligned found
    have other : table ≠ frame := by
      rintro rfl
      have same := space.apart path _ table allowed.tail own found place
      have short := allowed.1.1
      simp only [List.length_cons, same] at short
      simp [addressPath] at short
    have bound := allowed.1.head
    simp only [pageSize] at aligned frameAligned
    apply Mem.readU64_congr
    intro offset small
    exact outside _ (by omega)
  exact ⟨afterUser, leaves⟩

end

end Leaves

end Szczupak
