import Szczupak.Mm.PmmSearch
import Szczupak.Mm.Translate

/-!
The page tables that a kernel mapping makes.  Each table it lacks takes one frame from the pool,
and it gives up only when the pool is empty; no table is ever given back.
-/

namespace Szczupak

section Pool

variable {pmm after : Pmm}

theorem usedSet_range (pmm : Pmm) : usedSet pmm ⊆ Finset.range pmm.totalPages :=
  Finset.filter_subset _ _

theorem used_of_full (full : (usedSet pmm).card = pmm.totalPages) {page : Nat}
    (managed : page < pmm.totalPages) : page ∈ usedSet pmm := by
  have all := Finset.eq_of_subset_of_card_le (usedSet_range pmm) (by simp [full])
  rw [all]
  exact Finset.mem_range.mpr managed

theorem unused_of_free (free : (usedSet pmm).card < pmm.totalPages) : ∃ page < pmm.totalPages,
    page ∉ usedSet pmm := by
  by_contra none
  push Not at none
  have all : Finset.range pmm.totalPages ⊆ usedSet pmm := fun page member =>
    none page (Finset.mem_range.mp member)
  have enough := Finset.card_le_card all
  rw [Finset.card_range] at enough
  omega

theorem pmmAllocPage_full (first : FirstPageHeld pmm) (full : (usedSet pmm).card = pmm.totalPages) :
    pmmAllocPage pmm = some (0, pmm) := by
  have one : (1 : UInt32).toNat = 1 := rfl
  unfold pmmAllocPage pmmAllocPages
  rw [if_neg (by decide), if_neg (Nat.ne_of_gt first.managed), one]
  cases found : findClearRange pmm 1 with
  | none => rfl
  | some page =>
      obtain ⟨fits, clear⟩ := findClearRange_found (by decide) found
      have unused := clear 0 (by decide)
      rw [Nat.add_zero, Bool.eq_false_iff] at unused
      exact absurd ((bitmapTestBit_iff (by omega)).mpr (used_of_full full (by omega))) unused

theorem pmmAllocPage_free (first : FirstPageHeld pmm) (free : (usedSet pmm).card < pmm.totalPages) :
    ∃ frame after, pmmAllocPage pmm = some (frame, after) ∧ frame ≠ 0 ∧ Took pmm after frame ∧
      after.ram = pmm.ram.fill frame pageSize 0 := by
  have one : (1 : UInt32).toNat = 1 := rfl
  obtain ⟨page, managed, unused⟩ := unused_of_free free
  have run : ClearRun pmm page 1 := by
    refine ⟨managed, fun index bound => ?_⟩
    rw [Nat.lt_one_iff.mp bound, Nat.add_zero, Bool.eq_false_iff]
    exact fun used => unused ((bitmapTestBit_iff managed).mp used)
  cases allocated : pmmAllocPage pmm with
  | none =>
      unfold pmmAllocPage pmmAllocPages at allocated
      rw [if_neg (by decide), if_neg (Nat.ne_of_gt first.managed), one] at allocated
      split at allocated
      · contradiction
      · contradiction
  | some result =>
      obtain ⟨frame, after⟩ := result
      have spec := pmmAllocPage_spec first.based allocated
      have nonNull : frame ≠ 0 := by
        rintro rfl
        rcases spec with ⟨_, same⟩ | ⟨took, _⟩
        · unfold pmmAllocPage pmmAllocPages at allocated
          rw [if_neg (by decide), if_neg (Nat.ne_of_gt first.managed), one] at allocated
          cases found : findClearRange pmm 1 with
          | none => exact findClearRange_complete (by decide) found run
          | some other =>
              rw [found] at allocated
              simp only [first.based.start, Nat.zero_add, Option.some.injEq, Prod.mk.injEq] at allocated
              have start : other = 0 := (Nat.mul_eq_zero.mp allocated.1).resolve_right (by decide)
              obtain ⟨fits, clear⟩ := findClearRange_found (by decide) found
              have clearStart := clear 0 (by decide)
              rw [start, Nat.add_zero, Bool.eq_false_iff] at clearStart
              exact clearStart ((bitmapTestBit_iff first.managed).mpr first.held)
        · have available := took.available.2.2
          rw [Nat.zero_div] at available
          exact available first.held
      obtain ⟨took, zeroed⟩ := pmmAllocPage_took first.based allocated nonNull
      exact ⟨frame, after, rfl, nonNull, took, zeroed⟩

theorem Took.card {frame : Nat} (took : Took pmm after frame) :
    (usedSet after).card = (usedSet pmm).card + 1 := by
  rw [took.used, Finset.card_insert_of_notMem took.available.2.2]

end Pool

structure GrowsTables (root : Nat) (pmm after : Pmm) (new : Finset (List Nat)) : Prop where
  dir : Directory after root
  bounds : SameBounds pmm after
  grows : usedSet pmm ⊆ usedSet after
  taken : (usedSet after).card = (usedSet pmm).card + new.card
  missing : ∀ path ∈ new, PathUpTo 3 path ∧ nodeAt pmm.ram root path = none
  made : ∀ path ∈ new, nodeAt after.ram root path ≠ none
  stays : ∀ path table, PathUpTo 3 path → nodeAt pmm.ram root path = some table →
    nodeAt after.ram root path = some table
  nodes : ∀ path table, PathUpTo 3 path → nodeAt after.ram root path = some table →
    nodeAt pmm.ram root path = some table ∨ path ∈ new ∧ Available pmm table

section Growth

variable {root : Nat} {pmm middle after : Pmm} {new later : Finset (List Nat)}

theorem GrowsTables.refl (dir : Directory pmm root) : GrowsTables root pmm pmm ∅ :=
  ⟨dir, SameBounds.rfl, fun _ member => member, by simp, by simp, by simp, fun _ _ _ found => found,
    fun _ _ _ found => Or.inl found⟩

theorem GrowsTables.available (grown : GrowsTables root pmm after new) {frame : Nat}
    (available : Available after frame) : Available pmm frame :=
  ⟨available.1, grown.bounds.totalPages ▸ available.2.1, fun used => available.2.2 (grown.grows used)⟩

theorem GrowsTables.trans (first : GrowsTables root pmm middle new)
    (second : GrowsTables root middle after later) : GrowsTables root pmm after (new ∪ later) := by
  have disjoint : Disjoint new later := by
    rw [Finset.disjoint_left]
    intro path inNew inLater
    exact first.made path inNew (second.missing path inLater).2
  refine ⟨second.dir, first.bounds.trans second.bounds, first.grows.trans second.grows, ?_,
    ?_, ?_, ?_, ?_⟩
  · rw [second.taken, first.taken, Finset.card_union_of_disjoint disjoint, Nat.add_assoc]
  · intro path member
    rcases Finset.mem_union.mp member with inNew | inLater
    · exact first.missing path inNew
    · obtain ⟨valid, missing⟩ := second.missing path inLater
      refine ⟨valid, ?_⟩
      cases found : nodeAt pmm.ram root path with
      | none => rfl
      | some table =>
          rw [first.stays path table valid found] at missing
          contradiction
  · intro path member
    rcases Finset.mem_union.mp member with inNew | inLater
    · obtain ⟨table, found⟩ := Option.ne_none_iff_exists'.mp (first.made path inNew)
      rw [second.stays path table (first.missing path inNew).1 found]
      simp
    · exact second.made path inLater
  · intro path table valid found
    exact second.stays path table valid (first.stays path table valid found)
  · intro path table valid found
    rcases second.nodes path table valid found with before | ⟨inLater, available⟩
    · rcases first.nodes path table valid before with old | ⟨inNew, available⟩
      · exact Or.inl old
      · exact Or.inr ⟨Finset.mem_union_left _ inNew, available⟩
    · exact Or.inr ⟨Finset.mem_union_right _ inLater, first.available available⟩

theorem GrowsTables.first (grown : GrowsTables root pmm after new) (first : FirstPageHeld pmm) :
    FirstPageHeld after :=
  first.of_grows grown.bounds grown.grows

theorem GrowsTables.data (grown : GrowsTables root pmm after new) {frame : Nat}
    (used : ¬Available pmm frame)
    (noTable : ∀ path, PathUpTo 3 path → nodeAt pmm.ram root path ≠ some frame) :
    ∀ path, PathUpTo 3 path → nodeAt after.ram root path ≠ some frame := by
  intro path valid found
  rcases grown.nodes path frame valid found with old | ⟨_, available⟩
  · exact noTable path valid old
  · exact used available

end Growth

section Level

variable {root parent index flags : Nat} {pmm : Pmm} {path : List Nat}

theorem GrowsTables.of_step {after : Pmm} {table : Nat} (dir : Directory pmm root)
    (valid : PathUpTo 2 path) (place : nodeAt pmm.ram root path = some parent) (bound : index < 512)
    (small : 0 < path.length → (entryAt pmm.ram parent index).testBit hugeBit = false)
    (step : TableStep pmm after parent index table) :
    GrowsTables root pmm after (if nodeAt pmm.ram root (index :: path) =
      none then {index :: path} else ∅) := by
  have longer : PathUpTo 3 (index :: path) := valid.cons bound
  obtain ⟨afterDir, _, there⟩ := dir.table_step valid place bound small step
  cases step with
  | kept value present alike entries pool =>
      have same : ∀ other, PathUpTo 3 other → nodeAt after.ram root other = nodeAt pmm.ram root other :=
        fun _ otherValid => dir.nodes_kept present alike entries otherValid
      rw [same _ longer] at there
      have used : usedSet after = usedSet pmm := by
        rw [pool]
        exact usedSet_congr rfl rfl
      have bounds : SameBounds pmm after := by
        rw [pool]
        exact ⟨rfl, rfl, rfl⟩
      rw [if_neg (by simp [there])]
      refine ⟨afterDir, bounds, fun _ member => used ▸ member, by simp [used], by simp, by simp, ?_, ?_⟩
      · intro other node otherValid found
        exact (same other otherValid).trans found
      · intro other node otherValid found
        exact Or.inl ((same other otherValid).symm.trans found)
  | made _ absent grew =>
      have missing : nodeAt pmm.ram root (index :: path) = none := nodeAt_missing place absent
      have nodes : ∀ other, PathUpTo 3 other → nodeAt after.ram root other =
          if other = index :: path then some table else nodeAt pmm.ram root other :=
        fun _ otherValid => dir.nodes_grown valid place bound missing (fun _ _ _ => rfl) grew otherValid
      have took := grew.took
      rw [if_pos missing]
      refine ⟨afterDir, took.bounds, ?_, ?_, ?_, ?_, ?_, ?_⟩
      · intro page member
        rw [took.used]
        exact Finset.mem_insert_of_mem member
      · rw [took.card, Finset.card_singleton]
      · intro other member
        rw [Finset.mem_singleton.mp member]
        exact ⟨longer, missing⟩
      · intro other member
        rw [Finset.mem_singleton.mp member, there]
        simp
      · intro other node otherValid found
        rw [nodes other otherValid, if_neg]
        · exact found
        · rintro rfl
          rw [missing] at found
          contradiction
      · intro other node otherValid found
        rw [nodes other otherValid] at found
        split at found
        · rename_i here
          obtain rfl := Option.some.inj found
          exact Or.inr ⟨Finset.mem_singleton.mpr here, took.available⟩
        · exact Or.inl found

theorem Directory.kernel_level {next : Nat → Pmm → Option (Bool × Pmm)} (dir : Directory pmm root)
    (first : FirstPageHeld pmm) (valid : PathUpTo 2 path)
    (place : nodeAt pmm.ram root path = some parent) (bound : index < 512)
    (small : 0 < path.length → (entryAt pmm.ram parent index).testBit hugeBit = false) :
    (withTable pmm parent index flags false next = some (false, pmm) ∧
        (usedSet pmm).card = pmm.totalPages ∧ nodeAt pmm.ram root (index :: path) = none) ∨
      ∃ table middle,
        GrowsTables root pmm middle
          (if nodeAt pmm.ram root (index :: path) = none then {index :: path} else ∅) ∧
        SameTranslation pmm.ram middle.ram root ∧ nodeAt middle.ram root (index :: path) = some table ∧
        withTable pmm parent index flags false next = next table middle := by
  have wide := valid.mono (show 2 ≤ 3 by decide)
  have longer : PathUpTo 3 (index :: path) := valid.cons bound
  have nonNull : parent ≠ nullTable := Nat.ne_of_lt (dir.tree.direct path parent wide place)
  have goes : ∀ table middle, getOrCreateTable pmm parent index flags = some (table, middle) →
      table ≠ nullTable → ∃ table middle,
        GrowsTables root pmm middle
          (if nodeAt pmm.ram root (index :: path) = none then {index :: path} else ∅) ∧
        SameTranslation pmm.ram middle.ram root ∧ nodeAt middle.ram root (index :: path) = some table ∧
        withTable pmm parent index flags false next = next table middle := by
    intro table middle found real
    rcases @getOrCreateTable_cases pmm parent index flags dir.based (dir.node_aligned place) nonNull bound
      (dir.inUse path parent wide place) with fault | ⟨after, failed, _⟩ | ⟨other, after, there, step⟩
    · rw [fault] at found
      contradiction
    · rw [failed] at found
      cases found
      exact absurd rfl real
    · rw [there] at found
      cases found
      obtain ⟨_, same, node⟩ := dir.table_step valid place bound small step
      refine ⟨table, middle, .of_step dir valid place bound small step, same, node, ?_⟩
      simp only [withTable, there, if_neg real, Bool.false_eq_true, if_false]
  cases present : (entryAt pmm.ram parent index).testBit presentBit with
  | true =>
      have node : nodeAt pmm.ram root (index :: path) = some (alignDown (entryAt pmm.ram parent index)) := by
        rw [nodeAt, walk_cons place]
        cases path with
        | nil => simp [childNode, present]
        | cons last path => simp [childNode, present, small (by simp)]
      have found : ∃ middle, getOrCreateTable pmm parent index flags =
          some (alignDown (entryAt pmm.ram parent index), middle) := by
        unfold getOrCreateTable
        rw [if_neg (by omega), if_pos present]
        exact ⟨_, rfl⟩
      obtain ⟨middle, found⟩ := found
      exact Or.inr (goes _ middle found (Nat.ne_of_lt (dir.tree.direct _ _ longer node)))
  | false =>
      have missing : nodeAt pmm.ram root (index :: path) = none := nodeAt_missing place present
      rcases Nat.eq_or_lt_of_le (usedSet_card_le pmm) with full | free
      · refine Or.inl ⟨?_, full, missing⟩
        simp only [withTable, getOrCreateTable, if_neg (show ¬(parent = nullTable ∨ 512 ≤ index) by
          omega), present, Bool.false_eq_true, if_false, pmmAllocPage_full first full, if_true]
      · obtain ⟨frame, after, allocated, real, took, _⟩ := pmmAllocPage_free first free
        have found : ∃ middle, getOrCreateTable pmm parent index flags = some (frame, middle) := by
          simp only [getOrCreateTable, if_neg (show ¬(parent = nullTable ∨ 512 ≤ index) by omega),
            present, Bool.false_eq_true, if_false, allocated, if_neg real]
          exact ⟨_, rfl⟩
        obtain ⟨middle, found⟩ := found
        exact Or.inr (goes frame middle found
          (Nat.ne_of_lt (Nat.lt_trans (took.available.small dir.based) (by decide))))

end Level

/-- The tables that a mapping of the address goes through, below the root. -/
def tablesFor (virt : UInt64) : Finset (List Nat) :=
  {tablePath virt, (tablePath virt).tail, (tablePath virt).tail.tail}

def PageUnmapped (ram : Mem) (root : Nat) (virt : UInt64) : Prop :=
  ∀ other : UInt64, other.toNat / pageSize = virt.toNat / pageSize → vmmGetPhysical ram root other = 0

structure WalksTo (root : Nat) (pmm middle : Pmm) (new : Finset (List Nat)) (virt : UInt64) : Prop where
  grown : GrowsTables root pmm middle new
  within : new ⊆ tablesFor virt
  same : SameTranslation pmm.ram middle.ram root

section Page

variable {root : Nat} {pmm middle after : Pmm} {new later : Finset (List Nat)} {virt : UInt64}

theorem WalksTo.trans (first : WalksTo root pmm middle new virt)
    (second : WalksTo root middle after later virt) : WalksTo root pmm after (new ∪ later) virt :=
  ⟨first.grown.trans second.grown, Finset.union_subset first.within second.within,
    fun other => (second.same other).trans (first.same other)⟩

theorem unmapped_small (dir : Directory pmm root) {pd : Nat}
    (place : nodeAt pmm.ram root (tablePath virt).tail = some pd)
    (free : PageUnmapped pmm.ram root virt) :
    (entryAt pmm.ram pd (pdIndex (alignDown virt.toNat))).testBit hugeBit = false := by
  have whole := tablePath_valid virt
  cases present : (entryAt pmm.ram pd (pdIndex (alignDown virt.toNat))).testBit presentBit with
  | false => rw [dir.tree.zero _ pd _ whole.tail place whole.head present, Nat.zero_testBit]
  | true =>
      rw [Bool.eq_false_iff]
      intro huge
      have last : (UInt64.ofNat (alignDown virt.toNat + 4095)).toNat = alignDown virt.toNat + 4095 := by
        have bound := virt.toNat_lt
        rw [UInt64.toNat_ofNat', Nat.mod_eq_of_lt]
        simp only [alignDown, pageSize]
        omega
      have aligned : alignDown (UInt64.ofNat (alignDown virt.toNat + 4095)).toNat = alignDown virt.toNat := by
        rw [last]
        simp only [alignDown, pageSize]
        omega
      have path : tablePath (UInt64.ofNat (alignDown virt.toNat + 4095)) = tablePath virt := by
        simp only [tablePath, aligned]
      have nothing := free (UInt64.ofNat (alignDown virt.toNat + 4095)) (by
        rw [last]
        simp only [alignDown, pageSize]
        omega)
      have missing : nodeAt pmm.ram root (tablePath virt) = none := by
        have step : nodeAt pmm.ram root (tablePath virt) =
          childNode pmm.ram 2 pd (pdIndex (alignDown virt.toNat)) :=
          walk_cons place
        rw [step]
        simp [childNode, huge]
      rw [vmmGetPhysical_eq dir.tree, lookupAt, path, missing] at nothing
      simp only [place, aligned] at nothing
      simp only [hugeResult, present, huge, Bool.and_self, if_true, last] at nothing
      have inside := (Nat.add_eq_zero_iff.mp nothing).2
      simp only [alignDown, pageSize] at inside
      omega

theorem GrowsTables.leaf (grown : GrowsTables root pmm middle new) {pt leaf : Nat}
    (place : nodeAt middle.ram root (tablePath virt) = some pt) (small : leaf < 2 ^ 64)
    (kind : leaf.testBit presentBit = true ∨ leaf = 0) :
    GrowsTables root pmm { middle with ram := setEntry middle.ram pt (pageOf virt) leaf } new := by
  obtain ⟨dir, nodes, _⟩ := grown.dir.set_leaf place small kind
  refine ⟨dir, ⟨grown.bounds.totalPages, grown.bounds.start, grown.bounds.stop⟩,
    grown.grows, grown.taken, grown.missing, ?_, ?_, ?_⟩
  · intro path member
    rw [nodes path (grown.missing path member).1]
    exact grown.made path member
  · intro path table valid found
    rw [nodes path valid]
    exact grown.stays path table valid found
  · intro path table valid found
    rw [nodes path valid] at found
    exact grown.nodes path table valid found

/-- A mapping of an unmapped page reaches its last table, or stops with the pool empty and one of
its tables missing. -/
theorem Directory.kernel_walk (dir : Directory pmm root) (first : FirstPageHeld pmm)
    (free : PageUnmapped pmm.ram root virt) (flags leaf : Nat) :
    (∃ after new, mapWalk pmm root (alignDown virt.toNat) flags false leaf = some (false, after) ∧
        WalksTo root pmm after new virt ∧ (usedSet after).card = after.totalPages ∧
        ∃ path ∈ tablesFor virt, nodeAt after.ram root path = none) ∨
      ∃ pt middle new, WalksTo root pmm middle new virt ∧ nodeAt middle.ram root (tablePath virt) =
        some pt ∧ mapWalk pmm root (alignDown virt.toNat) flags false leaf =
          some (true, { middle with ram := setEntry middle.ram pt (pageOf virt) leaf }) := by
  have whole := tablePath_valid virt
  have slotBound : pml4Index (alignDown virt.toNat) < 512 := whole.tail.tail.head
  have pdpBound : pdpIndex (alignDown virt.toNat) < 512 := whole.tail.head
  have pdBound : pdIndex (alignDown virt.toNat) < 512 := whole.head
  have rootValid : PathUpTo 2 [] := ⟨by simp, by simp⟩
  have pdpValid : PathUpTo 2 [pml4Index (alignDown virt.toNat)] := ⟨by simp, by simpa using slotBound⟩
  have pdValid : PathUpTo 2 [pdpIndex (alignDown virt.toNat), pml4Index (alignDown virt.toNat)] :=
    ⟨Nat.le_refl _, whole.tail.2⟩
  have rootNode : nodeAt pmm.ram root [] = some root := rfl
  have within : ∀ {before : Pmm} {path : List Nat}, path ∈ tablesFor virt →
      (if nodeAt before.ram root path = none then {path} else ∅) ⊆ tablesFor virt := by
    intro before path member
    split
    · exact Finset.singleton_subset_iff.mpr member
    · exact Finset.empty_subset _
  have top : [pml4Index (alignDown virt.toNat)] ∈ tablesFor virt := by simp [tablesFor, tablePath]
  have upper : [pdpIndex (alignDown virt.toNat), pml4Index (alignDown virt.toNat)] ∈
    tablesFor virt := by
    simp [tablesFor, tablePath]
  have lowest : tablePath virt ∈ tablesFor virt := by simp [tablesFor]
  unfold mapWalk
  rcases @Directory.kernel_level root root (pml4Index (alignDown virt.toNat)) flags pmm
    [] _ dir first rootValid
    rootNode slotBound (by simp) with ⟨failed, full, missing⟩ | ⟨pdp, one, grown, same, pdpNode, goes⟩
  · exact Or.inl ⟨pmm, ∅, failed, ⟨.refl dir, Finset.empty_subset _, fun _ => rfl⟩, full, _, top, missing⟩
  have firstWalk : WalksTo root pmm one _ virt := ⟨grown, within top, same⟩
  rw [goes]
  rcases @Directory.kernel_level root pdp (pdpIndex (alignDown virt.toNat)) flags one _ _ grown.dir
    (grown.first first) pdpValid pdpNode pdpBound
    (fun _ => grown.dir.tree.noGiant _ pdp _ slotBound pdpNode pdpBound) with
    ⟨failed, full, missing⟩ | ⟨pd, two, more, alike, pdNode, goes⟩
  · exact Or.inl ⟨one, _, failed, firstWalk, full, _, upper, missing⟩
  have secondWalk := firstWalk.trans ⟨more, within upper, alike⟩
  rw [goes]
  have notHuge := unmapped_small secondWalk.grown.dir pdNode fun other page =>
    (secondWalk.same other).trans (free other page)
  have kept : splitHugePage two pd (pdIndex (alignDown virt.toNat)) = some (true, two) := by
    simp [splitHugePage, notHuge]
  simp only [kept]
  rcases @Directory.kernel_level root pd (pdIndex (alignDown virt.toNat)) flags two _ _
    secondWalk.grown.dir
    (secondWalk.grown.first first) pdValid pdNode pdBound (fun _ => notHuge) with
    ⟨failed, full, missing⟩ | ⟨pt, three, last, alike, ptNode, goes⟩
  · exact Or.inl ⟨two, _, failed, secondWalk, full, _, lowest, missing⟩
  · exact Or.inr ⟨pt, three, _, secondWalk.trans ⟨last, within lowest, alike⟩, ptNode, goes⟩

end Page

end Szczupak
