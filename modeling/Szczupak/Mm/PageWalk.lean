import Szczupak.Mm.Uaccess

/-!
The entries a translation reads, for any tables.  A lookup and a permission check stay the same
where these entries do.
-/

namespace Szczupak

/-- The entries that `vmm_get_physical` reads, as a table and an index each. -/
def walkEntries (ram : Mem) (root virt : Nat) : List (Nat × Nat) :=
  let pml4Entry := entryAt ram root (pml4Index virt)
  let pdp := alignDown pml4Entry
  let pdpEntry := entryAt ram pdp (pdpIndex virt)
  let pd := alignDown pdpEntry
  let pdEntry := entryAt ram pd (pdIndex virt)
  (root, pml4Index virt) :: if !pml4Entry.testBit presentBit then [] else
    (pdp, pdpIndex virt) :: if !pdpEntry.testBit presentBit || pdpEntry.testBit hugeBit then [] else
      (pd, pdIndex virt) :: if !pdEntry.testBit presentBit || pdEntry.testBit hugeBit then [] else
        [(alignDown pdEntry, ptIndex virt)]

def userView (ram : Mem) (root : Nat) : Mem := fun address =>
    ram (vmmGetPhysical ram root (UInt64.ofNat address))

def SameWalk (ram changed : Mem) (root virt : Nat) : Prop :=
  ∀ entry ∈ walkEntries ram root virt, entryAt changed entry.1 entry.2 = entryAt ram entry.1 entry.2

section Walks

variable {ram changed : Mem} {root virt : Nat} {write : Bool}

theorem sameWalk_cases (same : SameWalk ram changed root virt) :
    let pml4Entry := entryAt ram root (pml4Index virt)
    let pdpEntry := entryAt ram (alignDown pml4Entry) (pdpIndex virt)
    let pdEntry := entryAt ram (alignDown pdpEntry) (pdIndex virt)
    let ptEntry := entryAt ram (alignDown pdEntry) (ptIndex virt)
    entryAt changed root (pml4Index virt) = pml4Entry ∧
      (pml4Entry.testBit presentBit = true →
        entryAt changed (alignDown pml4Entry) (pdpIndex virt) = pdpEntry ∧
        (pdpEntry.testBit presentBit = true → pdpEntry.testBit hugeBit = false →
          entryAt changed (alignDown pdpEntry) (pdIndex virt) = pdEntry ∧
          (pdEntry.testBit presentBit = true → pdEntry.testBit hugeBit = false →
            entryAt changed (alignDown pdEntry) (ptIndex virt) = ptEntry))) := by
  simp only [SameWalk, walkEntries, List.forall_mem_cons] at same
  refine ⟨same.1, fun first => ?_⟩
  simp only [first, Bool.not_true, Bool.false_eq_true, if_false, List.forall_mem_cons] at same
  refine ⟨same.2.1, fun second secondSmall => ?_⟩
  simp only [second, secondSmall, Bool.not_true, Bool.or_self, Bool.false_eq_true, if_false,
    List.forall_mem_cons] at same
  refine ⟨same.2.2.1, fun third thirdSmall => ?_⟩
  simp only [third, thirdSmall, Bool.not_true, Bool.or_self, Bool.false_eq_true, if_false,
    List.forall_mem_cons] at same
  exact same.2.2.2.1

theorem vmmGetPhysical_sameWalk {virt : UInt64} (same : SameWalk ram changed root virt.toNat) :
    vmmGetPhysical changed root virt = vmmGetPhysical ram root virt := by
  obtain ⟨first, below⟩ := sameWalk_cases same
  have indices := @same_indices virt.toNat 0 (by omega)
  simp only [Nat.add_zero] at indices
  simp only [indices] at first below
  simp only [vmmGetPhysical, first]
  cases slot : (entryAt ram root (pml4Index (alignDown virt.toNat))).testBit presentBit with
  | false => simp
  | true =>
      obtain ⟨second, below⟩ := below slot
      simp only [second]
      generalize entryAt ram (alignDown (entryAt ram root (pml4Index (alignDown virt.toNat))))
        (pdpIndex (alignDown virt.toNat)) = pdpEntry at *
      cases directory : pdpEntry.testBit presentBit with
      | false => simp
      | true =>
          cases giant : pdpEntry.testBit hugeBit with
          | true => simp
          | false =>
              obtain ⟨third, below⟩ := below directory giant
              simp only [third]
              generalize entryAt ram (alignDown pdpEntry) (pdIndex (alignDown virt.toNat)) = pdEntry at *
              cases table : pdEntry.testBit presentBit with
              | false => simp
              | true =>
                  cases large : pdEntry.testBit hugeBit with
                  | true => simp
                  | false => simp only [below table large]

theorem checkPagePermissions_sameWalk (same : SameWalk ram changed root virt) :
    checkPagePermissions changed root virt write = checkPagePermissions ram root virt write := by
  obtain ⟨first, below⟩ := sameWalk_cases same
  simp only [checkPagePermissions, first]
  cases slot : entryAllows (entryAt ram root (pml4Index virt)) write with
  | false => simp
  | true =>
      obtain ⟨second, below⟩ := below (entryAllows_present slot)
      simp only [second]
      generalize entryAt ram (alignDown (entryAt ram root (pml4Index virt))) (pdpIndex virt) = pdpEntry at *
      cases directory : entryAllows pdpEntry write with
      | false => simp
      | true =>
          cases giant : pdpEntry.testBit hugeBit with
          | true => simp
          | false =>
              obtain ⟨third, below⟩ := below (entryAllows_present directory) giant
              simp only [third]
              generalize entryAt ram (alignDown pdpEntry) (pdIndex virt) = pdEntry at *
              cases table : entryAllows pdEntry write with
              | false => simp
              | true =>
                  cases large : pdEntry.testBit hugeBit with
                  | true => simp
                  | false => simp only [below (entryAllows_present table) large]

theorem walkEntries_valid (aligned : root % pageSize = 0) :
    ∀ entry ∈ walkEntries ram root virt, entry.1 % pageSize = 0 ∧ entry.2 < 512 := by
  have bound : ∀ number : Nat, number % 512 < 512 := fun number => Nat.mod_lt number (by decide)
  simp only [walkEntries, List.forall_mem_cons]
  refine ⟨⟨aligned, bound _⟩, ?_⟩
  split
  next => exact fun entry member => absurd member List.not_mem_nil
  next =>
    rw [List.forall_mem_cons]
    refine ⟨⟨alignDown_aligned _, bound _⟩, ?_⟩
    split
    next => exact fun entry member => absurd member List.not_mem_nil
    next =>
      rw [List.forall_mem_cons]
      refine ⟨⟨alignDown_aligned _, bound _⟩, ?_⟩
      split
      next => exact fun entry member => absurd member List.not_mem_nil
      next =>
        rw [List.forall_mem_singleton]
        exact ⟨alignDown_aligned _, bound _⟩

theorem walkEntries_sameWalk (same : SameWalk ram changed root virt) :
    walkEntries changed root virt = walkEntries ram root virt := by
  obtain ⟨first, below⟩ := sameWalk_cases same
  simp only [walkEntries, first]
  cases slot : (entryAt ram root (pml4Index virt)).testBit presentBit with
  | false => simp
  | true =>
      obtain ⟨second, below⟩ := below slot
      simp only [second]
      generalize entryAt ram (alignDown (entryAt ram root (pml4Index virt))) (pdpIndex virt) = pdpEntry at *
      cases directory : pdpEntry.testBit presentBit with
      | false => simp
      | true =>
          cases giant : pdpEntry.testBit hugeBit with
          | true => simp
          | false => simp only [(below directory giant).1]

theorem mapped_present {virt : UInt64} (mapped : vmmGetPhysical ram root virt ≠ 0) :
    ∀ entry ∈ walkEntries ram root virt.toNat,
    (entryAt ram entry.1 entry.2).testBit presentBit = true := by
  have indices := @same_indices virt.toNat 0 (by omega)
  simp only [Nat.add_zero] at indices
  simp only [vmmGetPhysical] at mapped
  simp only [walkEntries, indices, List.forall_mem_cons]
  generalize alignDown virt.toNat = address at *
  cases slot : (entryAt ram root (pml4Index address)).testBit presentBit with
  | false => simp [slot] at mapped
  | true =>
      refine ⟨rfl, ?_⟩
      simp only [Bool.not_true, Bool.false_eq_true, if_false, List.forall_mem_cons]
      generalize alignDown (entryAt ram root (pml4Index address)) = pdp at *
      cases directory : (entryAt ram pdp (pdpIndex address)).testBit presentBit with
      | false => simp [slot, directory] at mapped
      | true =>
          refine ⟨rfl, ?_⟩
          cases giant : (entryAt ram pdp (pdpIndex address)).testBit hugeBit with
          | true => simp
          | false =>
              simp only [Bool.not_true, Bool.or_false, Bool.false_eq_true, if_false, List.forall_mem_cons]
              generalize alignDown (entryAt ram pdp (pdpIndex address)) = pd at *
              cases table : (entryAt ram pd (pdIndex address)).testBit presentBit with
              | false => simp [slot, directory, giant, table] at mapped
              | true =>
                  refine ⟨rfl, ?_⟩
                  cases large : (entryAt ram pd (pdIndex address)).testBit hugeBit with
                  | true => simp
                  | false =>
                      simp only [Bool.not_true, Bool.or_false, Bool.false_eq_true, if_false,
                        List.forall_mem_singleton]
                      by_contra absent
                      simp [slot, directory, giant, table, large, absent] at mapped

theorem vmmGetPhysical_offset {cur offset : Nat} (inPage : cur % 4096 + offset < 4096)
    (small : cur + offset < 2 ^ 64) (mapped : vmmGetPhysical ram root (UInt64.ofNat cur) ≠ 0) :
    vmmGetPhysical ram root (UInt64.ofNat (cur + offset)) =
      alignDown (vmmGetPhysical ram root (UInt64.ofNat cur)) + cur % 4096 + offset := by
  have whole : ∀ address, address < 2 ^ 64 → (UInt64.ofNat address).toNat = address := by
    intro address bound
    rw [UInt64.toNat_ofNat', Nat.mod_eq_of_lt bound]
  have page : alignDown (cur + offset) = alignDown cur := by
    simp only [alignDown, pageSize]
    omega
  simp only [vmmGetPhysical, whole cur (by omega), whole _ small, page] at mapped ⊢
  generalize entryAt ram root (pml4Index (alignDown cur)) = pml4Entry at *
  generalize entryAt ram (alignDown pml4Entry) (pdpIndex (alignDown cur)) = pdpEntry at *
  generalize entryAt ram (alignDown pdpEntry) (pdIndex (alignDown cur)) = pdEntry at *
  generalize entryAt ram (alignDown pdEntry) (ptIndex (alignDown cur)) = ptEntry at *
  cases slot : pml4Entry.testBit presentBit with
  | false => simp [slot] at mapped
  | true =>
      cases directory : pdpEntry.testBit presentBit with
      | false => simp [slot, directory] at mapped
      | true =>
          cases giant : pdpEntry.testBit hugeBit with
          | true =>
              simp only [Bool.not_true, Bool.false_eq_true, if_false, if_true, alignDown, pageSize]
              omega
          | false =>
              cases table : pdEntry.testBit presentBit with
              | false => simp [slot, directory, giant, table] at mapped
              | true =>
                  cases large : pdEntry.testBit hugeBit with
                  | true =>
                      simp only [Bool.not_true, Bool.false_eq_true, if_false, if_true, alignDown, pageSize]
                      omega
                  | false =>
                      cases leaf : ptEntry.testBit presentBit with
                      | false => simp [slot, directory, giant, table, large, leaf] at mapped
                      | true =>
                          simp only [Bool.not_true, Bool.false_eq_true, if_false, alignDown, pageSize]
                          omega

end Walks

end Szczupak
