import Szczupak.Mm.PageWalk
import Szczupak.Mm.Ownership
import Szczupak.Mm.Translate

/-!
`vmm_unmap_page` clears one entry.  Every address translated through it is unmapped, whether or not
it lies in the page; in a 2 MiB mapping these are all 512 pages.
-/

namespace Szczupak

def InHugeMapping (ram : Mem) (root virt : Nat) : Prop :=
  let pml4Entry := entryAt ram root (pml4Index virt)
  let pdpEntry := entryAt ram (alignDown pml4Entry) (pdpIndex virt)
  let pdEntry := entryAt ram (alignDown pdpEntry) (pdIndex virt)
  pml4Entry.testBit presentBit = true ∧ pdpEntry.testBit presentBit = true ∧
    pdEntry.testBit presentBit = true ∧ pdEntry.testBit hugeBit = true

/-- No present entry of a page directory pointer table that a walk comes to maps 1 GiB. -/
def NoGiantPages (ram : Mem) (root : Nat) : Prop :=
  ∀ virt, (entryAt ram root (pml4Index virt)).testBit presentBit = true →
    let pdpEntry := entryAt ram (alignDown (entryAt ram root (pml4Index virt))) (pdpIndex virt)
    pdpEntry.testBit presentBit = true → pdpEntry.testBit hugeBit = false

def unmapEntry (ram : Mem) (root virt : Nat) : Option (Nat × Nat) :=
  let pml4Entry := entryAt ram root (pml4Index virt)
  let pdpEntry := entryAt ram (alignDown pml4Entry) (pdpIndex virt)
  let pdEntry := entryAt ram (alignDown pdpEntry) (pdIndex virt)
  if pml4Entry.testBit presentBit && pdpEntry.testBit presentBit && pdEntry.testBit presentBit then
    if pdEntry.testBit hugeBit then some (alignDown pdpEntry, pdIndex virt)
    else some (alignDown pdEntry, ptIndex virt)
  else none

section Cleared

variable {ram changed : Mem} {root virt : Nat} {entry : Nat × Nat}

theorem entryAt_cleared (aligned : entry.1 % pageSize = 0) (bound : entry.2 < 512)
    {table index : Nat} (tableAligned : table % pageSize = 0) (indexBound : index < 512) :
    entryAt (setEntry ram entry.1 entry.2 0) table index =
      if (table, index) = entry then 0 else entryAt ram table index := by
  rw [entryAt_setEntry aligned tableAligned bound indexBound, Nat.zero_mod]
  exact if_congr (Prod.ext_iff (x := (table, index))).symm rfl rfl

theorem vmmGetPhysical_cleared (rootAligned : root % pageSize = 0)
    (aligned : entry.1 % pageSize = 0) (bound : entry.2 < 512) (virt : UInt64) :
    vmmGetPhysical (setEntry ram entry.1 entry.2 0) root virt =
      if entry ∈ walkEntries ram root virt.toNat then 0 else vmmGetPhysical ram root virt := by
  have kept : ∀ {before after : Mem}, entry ∉ walkEntries before root virt.toNat →
      (∀ other ∈ walkEntries before root virt.toNat, other ≠ entry →
        entryAt after other.1 other.2 = entryAt before other.1 other.2) →
      SameWalk before after root virt.toNat := by
    intro before after apart same other member
    exact same other member fun equal => apart (equal ▸ member)
  have cleared : ∀ {before : Mem}, ∀ other ∈ walkEntries before root virt.toNat, other ≠ entry →
      entryAt (setEntry ram entry.1 entry.2 0) other.1 other.2 = entryAt ram other.1 other.2 := by
    intro before other member different
    have valid := walkEntries_valid rootAligned other member
    rw [entryAt_cleared aligned bound valid.1 valid.2, if_neg different]
  by_cases through : entry ∈ walkEntries ram root virt.toNat
  · rw [if_pos through]
    by_contra mapped
    -- the walk that still succeeds does not meet the entry, so it was the walk before
    have apart : entry ∉ walkEntries (setEntry ram entry.1 entry.2 0) root virt.toNat := by
      intro member
      have present := mapped_present mapped entry member
      rw [entryAt_cleared aligned bound aligned bound, if_pos rfl, Nat.zero_testBit] at present
      cases present
    have back := kept apart fun other member different => (cleared other member different).symm
    exact apart (walkEntries_sameWalk back ▸ through)
  · rw [if_neg through]
    exact vmmGetPhysical_sameWalk (kept through cleared)

theorem unmapEntry_valid (found : unmapEntry ram root virt = some entry) :
    entry.1 % pageSize = 0 ∧ entry.2 < 512 := by
  unfold unmapEntry at found
  dsimp only at found
  split at found
  · split at found
    · cases found
      exact ⟨alignDown_aligned _, Nat.mod_lt _ (by decide)⟩
    · cases found
      exact ⟨alignDown_aligned _, Nat.mod_lt _ (by decide)⟩
  · cases found

theorem vmmUnmapPage_ram {virt : UInt64} :
    (vmmUnmapPage ram root virt).2 =
      match unmapEntry ram root virt.toNat with
      | none => ram
      | some entry => setEntry ram entry.1 entry.2 0 := by
  have indices := @same_indices virt.toNat 0 (by omega)
  simp only [Nat.add_zero] at indices
  simp only [vmmUnmapPage, unmapEntry, indices]
  generalize alignDown virt.toNat = address at *
  cases slot : (entryAt ram root (pml4Index address)).testBit presentBit with
  | false => simp
  | true =>
      generalize alignDown (entryAt ram root (pml4Index address)) = pdp at *
      cases directory : (entryAt ram pdp (pdpIndex address)).testBit presentBit with
      | false => simp
      | true =>
          generalize alignDown (entryAt ram pdp (pdpIndex address)) = pd at *
          cases table : (entryAt ram pd (pdIndex address)).testBit presentBit with
          | false => simp
          | true => cases large : (entryAt ram pd (pdIndex address)).testBit hugeBit <;> simp

theorem unmapEntry_read (small : NoGiantPages ram root)
    (found : unmapEntry ram root virt = some entry) : entry ∈ walkEntries ram root virt := by
  unfold unmapEntry at found
  dsimp only at found
  split at found
  · rename_i present
    simp only [Bool.and_eq_true] at present
    obtain ⟨⟨first, second⟩, third⟩ := present
    have notGiant := small virt first second
    split at found
    · cases found
      simp [walkEntries, first, second, notGiant]
    · rename_i notLarge
      cases found
      simp [walkEntries, first, second, third, notGiant, notLarge]
  · cases found

theorem unmapEntry_none {virt : UInt64} (small : NoGiantPages ram root)
    (missing : unmapEntry ram root virt.toNat = none) : vmmGetPhysical ram root virt = 0 := by
  by_contra mapped
  have present := mapped_present mapped
  unfold unmapEntry at missing
  dsimp only at missing
  simp only [walkEntries, List.forall_mem_cons] at present
  have first := present.1
  simp only [first, Bool.not_true, Bool.false_eq_true, if_false, List.forall_mem_cons] at present
  have second := present.2.1
  have notGiant := small virt.toNat first second
  simp only [second, notGiant, Bool.not_true, Bool.or_false, Bool.false_eq_true, if_false,
    List.forall_mem_cons] at present
  have third := present.2.2.1
  simp only [first, second, third, Bool.and_self, if_true] at missing
  split at missing <;> cases missing

end Cleared

def UnmapsOnly (ram : Mem) (root : Nat) (virt : UInt64) : Prop :=
  (∀ other, other.toNat / 4096 = virt.toNat / 4096 →
    vmmGetPhysical (vmmUnmapPage ram root virt).2 root other = 0) ∧
  ∀ other, isCanonical other = true → other.toNat / 4096 ≠ virt.toNat / 4096 →
    vmmGetPhysical (vmmUnmapPage ram root virt).2 root other = vmmGetPhysical ram root other

/-- No mapped address outside the page is translated through the entry that is cleared. -/
def SoleEntry (ram : Mem) (root : Nat) (virt : UInt64) : Prop :=
  ∀ entry, unmapEntry ram root virt.toNat = some entry → ∀ other, isCanonical other = true →
    other.toNat / 4096 ≠ virt.toNat / 4096 → vmmGetPhysical ram root other ≠ 0 →
    entry ∉ walkEntries ram root other.toNat

section Exact

variable {ram : Mem} {root : Nat} {virt : UInt64}

theorem same_page {other : UInt64} (same : other.toNat / 4096 = virt.toNat / 4096) :
    alignDown other.toNat = alignDown virt.toNat := by
  simp only [alignDown, pageSize]
  omega

theorem walkEntries_page {other : UInt64} (same : other.toNat / 4096 = virt.toNat / 4096) :
    walkEntries ram root other.toNat = walkEntries ram root virt.toNat := by
  have otherIndices := @same_indices other.toNat 0 (by omega)
  have indices := @same_indices virt.toNat 0 (by omega)
  simp only [Nat.add_zero] at indices otherIndices
  simp only [walkEntries, indices, otherIndices, same_page same]

theorem unmapEntry_page {other : UInt64} (same : other.toNat / 4096 = virt.toNat / 4096) :
    unmapEntry ram root other.toNat = unmapEntry ram root virt.toNat := by
  have otherIndices := @same_indices other.toNat 0 (by omega)
  have indices := @same_indices virt.toNat 0 (by omega)
  simp only [Nat.add_zero] at indices otherIndices
  simp only [unmapEntry, indices, otherIndices, same_page same]

theorem unmap_lookup (aligned : root % pageSize = 0) (other : UInt64) :
    vmmGetPhysical (vmmUnmapPage ram root virt).2 root other =
      if ∃ entry, unmapEntry ram root virt.toNat = some entry ∧ entry ∈ walkEntries ram root other.toNat then 0
      else vmmGetPhysical ram root other := by
  rw [vmmUnmapPage_ram]
  cases found : unmapEntry ram root virt.toNat with
  | none => simp
  | some entry =>
      have valid := unmapEntry_valid found
      simp [vmmGetPhysical_cleared aligned valid.1 valid.2]

end Exact

section Kinds

variable {ram : Mem} {root : Nat} {virt : UInt64}

theorem same_region {left right : Nat} (same : left / 2 ^ 21 = right / 2 ^ 21) :
    pml4Index left = pml4Index right ∧ pdpIndex left = pdpIndex right ∧
    pdIndex left = pdIndex right := by
  simp only [pml4Index, pdpIndex, pdIndex]
  omega

theorem huge_lookup (small : NoGiantPages ram root) (huge : InHugeMapping ram root virt.toNat) :
    vmmGetPhysical ram root virt =
      entryAt ram (alignDown (entryAt ram (alignDown (entryAt ram root (pml4Index virt.toNat)))
        (pdpIndex virt.toNat))) (pdIndex virt.toNat) / 2 ^ 21 * 2 ^ 21 + virt.toNat % 2 ^ 21 := by
  obtain ⟨first, second, third, large⟩ := huge
  have notGiant := small virt.toNat first second
  have indices := @same_indices virt.toNat 0 (by omega)
  simp only [Nat.add_zero] at indices
  simp only [indices] at first second third large notGiant ⊢
  simp [vmmGetPhysical, first, second, third, large, notGiant]

theorem huge_shared (small : NoGiantPages ram root) (canonical : isCanonical virt = true)
    (huge : InHugeMapping ram root virt.toNat) : ¬SoleEntry ram root virt := by
  have top := virt.toNat_lt
  obtain ⟨place, bound, outside, region, inner⟩ : ∃ place < 2 ^ 64, place / 4096 ≠
      virt.toNat / 4096 ∧ place / 2 ^ 21 = virt.toNat / 2 ^ 21 ∧ place % 2 ^ 21 ≠ 0 := by
    by_cases second : virt.toNat / 4096 = (virt.toNat / 2 ^ 21 * 2 ^ 21 + 4096) / 4096
    · exact ⟨virt.toNat / 2 ^ 21 * 2 ^ 21 + 8192, by omega, by omega, by omega, by omega⟩
    · exact ⟨virt.toNat / 2 ^ 21 * 2 ^ 21 + 4096, by omega, by omega, by omega, by omega⟩
  have whole : (UInt64.ofNat place).toNat = place := UInt64.toNat_ofNat_of_lt' bound
  have indices := same_region region
  have otherHuge : InHugeMapping ram root (UInt64.ofNat place).toNat := by
    rw [whole]
    simpa only [InHugeMapping, indices] using huge
  intro sole
  obtain ⟨first, second, third, large⟩ := huge
  have found : unmapEntry ram root virt.toNat = some (alignDown (entryAt ram
      (alignDown (entryAt ram root (pml4Index virt.toNat))) (pdpIndex virt.toNat)), pdIndex virt.toNat) := by
    simp [unmapEntry, first, second, third, large]
  refine sole _ found (UInt64.ofNat place) ?_ ?_ ?_ ?_
  · simp only [isCanonical, whole, Bool.or_eq_true, decide_eq_true_eq] at canonical ⊢
    omega
  · rwa [whole]
  · rw [huge_lookup small otherHuge, whole]
    omega
  · have notGiant := small virt.toNat first second
    simp [whole, walkEntries, indices, first, second, notGiant]

theorem addressPath_lt (address : Nat) : ∀ index ∈ addressPath address, index < 512 := by
  simp only [addressPath, ptIndex, pdIndex, pdpIndex, pml4Index, List.forall_mem_cons]
  exact ⟨Nat.mod_lt _ (by decide), Nat.mod_lt _ (by decide), Nat.mod_lt _ (by decide),
    Nat.mod_lt _ (by decide), by simp⟩

theorem walkEntries_node {virt : Nat} (small : NoGiantPages ram root) :
    ∀ entry ∈ walkEntries ram root virt, ∃ path, nodeAt ram root path = some entry.1 ∧
      entry.2 :: path <:+ addressPath virt := by
  have rootNode : nodeAt ram root [] = some root := rfl
  simp only [walkEntries, List.forall_mem_cons]
  refine ⟨⟨[], rootNode, [_, _, _], rfl⟩, ?_⟩
  cases first : (entryAt ram root (pml4Index virt)).testBit presentBit with
  | false => simp
  | true =>
      have pdpNode := nodeAt_child rootNode first (by simp) rfl
      have giants := small virt first
      simp only [Bool.not_true, Bool.false_eq_true, if_false, List.forall_mem_cons]
      refine ⟨⟨_, pdpNode, [_, _], rfl⟩, ?_⟩
      generalize alignDown (entryAt ram root (pml4Index virt)) = pdp at *
      cases second : (entryAt ram pdp (pdpIndex virt)).testBit presentBit with
      | false => simp
      | true =>
          have notGiant := giants second
          rw [notGiant, Bool.or_false]
          have pdNode := nodeAt_child pdpNode second (fun _ _ => notGiant) rfl
          simp only [Bool.not_true, Bool.false_eq_true, if_false, List.forall_mem_cons]
          refine ⟨⟨_, pdNode, [_], rfl⟩, ?_⟩
          generalize alignDown (entryAt ram pdp (pdpIndex virt)) = pd at *
          cases third : (entryAt ram pd (pdIndex virt)).testBit presentBit with
          | false => simp
          | true =>
              cases large : (entryAt ram pd (pdIndex virt)).testBit hugeBit with
              | true => simp
              | false =>
                  have ptNode := nodeAt_child pdNode third (fun _ _ => large) rfl
                  simp only [Bool.not_true, Bool.or_self, Bool.false_eq_true, if_false,
                    List.forall_mem_singleton]
                  exact ⟨_, ptNode, [], rfl⟩

theorem PageTree.soleEntry (tree : PageTree ram root) (small : NoGiantPages ram root)
    (canonical : isCanonical virt = true) (notHuge : ¬InHugeMapping ram root virt.toNat) :
    SoleEntry ram root virt := by
  intro entry found other otherCanonical outside mapped through
  obtain ⟨path, node, suffix⟩ := walkEntries_node small entry through
  unfold unmapEntry at found
  dsimp only at found
  split at found
  · rename_i present
    simp only [Bool.and_eq_true] at present
    obtain ⟨⟨first, second⟩, third⟩ := present
    split at found
    · rename_i large
      exact notHuge ⟨first, second, third, large⟩
    · rename_i notLarge
      have rootNode : nodeAt ram root [] = some root := rfl
      have pdpNode := nodeAt_child rootNode first (by simp) rfl
      have pdNode := nodeAt_child pdpNode second (fun _ _ => small virt.toNat first second) rfl
      have ptNode := nodeAt_child pdNode third (fun _ _ => by simpa using notLarge) rfl
      cases found
      have short : path.length ≤ 3 := Nat.le_of_succ_le_succ suffix.length_le
      have upper : PathUpTo 3 (addressPath virt.toNat).tail :=
        ⟨Nat.le_refl 3, fun index member => addressPath_lt virt.toNat index (List.mem_of_mem_tail member)⟩
      have otherUpper : PathUpTo 3 path := ⟨short,
        fun index member => addressPath_lt _ index (suffix.subset (List.mem_cons_of_mem _ member))⟩
      have same := tree.apart _ path _ upper otherUpper ptNode node
      rw [← same] at suffix
      have whole := suffix.eq_of_length rfl
      have leftSmall := other.toNat_lt
      have rightSmall := virt.toNat_lt
      simp only [isCanonical, Bool.or_eq_true, decide_eq_true_eq] at canonical otherCanonical
      simp only [addressPath, pml4Index, pdpIndex, pdIndex, ptIndex, List.tail_cons, List.cons.injEq] at whole
      omega
  · cases found

theorem KernelDirectory.noGiantPages {pmm : Pmm} (kernel : KernelDirectory pmm root) :
    NoGiantPages pmm.ram root := by
  intro virt present _ _
  have rootNode : nodeAt pmm.ram root [] = some root := rfl
  exact kernel.noGiant _ _ _ (Nat.mod_lt _ (by decide))
    (nodeAt_child rootNode present (by simp) rfl) (Nat.mod_lt _ (by decide))

end Kinds

/-- A call unmaps its own page only where nothing else is translated through the entry it clears. -/
theorem vmm_unmap_own_page (ram : Mem) (root : Nat) (virt : UInt64) (aligned : root % pageSize = 0)
    (small : NoGiantPages ram root) : UnmapsOnly ram root virt ↔ SoleEntry ram root virt := by
  constructor
  · rintro ⟨_, others⟩ entry found other canonical outside mapped through
    have kept := others other canonical outside
    rw [unmap_lookup aligned, if_pos ⟨entry, found, through⟩] at kept
    exact mapped kept.symm
  · intro sole
    constructor
    · intro other same
      rw [unmap_lookup aligned]
      split
      · rfl
      · rename_i apart
        -- the address itself is translated through the entry, so there is none
        refine unmapEntry_none small (Option.eq_none_iff_forall_ne_some.mpr fun entry found => apart ?_)
        rw [unmapEntry_page same] at found
        exact ⟨entry, found, walkEntries_page same ▸ unmapEntry_read small found⟩
    · intro other canonical outside
      rw [unmap_lookup aligned]
      split
      · rename_i through
        obtain ⟨entry, found, member⟩ := through
        by_contra mapped
        exact sole entry found other canonical outside (fun zero => mapped zero.symm) member
      · rfl

theorem vmm_unmap_own_page_boot :
    UnmapsOnly bootPmm.ram 0x1000 0x200000 ↔ SoleEntry bootPmm.ram 0x1000 0x200000 :=
  vmm_unmap_own_page bootPmm.ram 0x1000 0x200000 (by decide) boot_kernel.noGiantPages

/-- The first 2 MiB of the boot directory: with the page at 0x1000 the one at 0x2000 is gone. -/
theorem unmap_takes_huge_page : NoGiantPages bootPmm.ram 0x1000 ∧
    vmmGetPhysical bootPmm.ram 0x1000 0x2000 = 0x2000 ∧
      vmmGetPhysical (vmmUnmapPage bootPmm.ram 0x1000 0x1000).2 0x1000 0x2000 = 0 :=
  ⟨boot_kernel.noGiantPages, by decide +kernel, by decide +kernel⟩

end Szczupak
