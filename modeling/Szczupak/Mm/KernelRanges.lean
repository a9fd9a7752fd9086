import Szczupak.Mm.KernelTables
import Szczupak.Mm.Unmap

/-!
Ranges of kernel pages from `mm/vmm.c`.  A range is a run of clear frames mapped at an
address cursor that only moves forward; a range that cannot be mapped whole is taken down again.
-/

namespace Szczupak

structure Vmm where
  pmm : Pmm
  nextVirtAddr : UInt64

def pageAt (start : UInt64) (index : Nat) : UInt64 := start + UInt64.ofNat (index * pageSize)

/-- The mapping loop of `vmm_alloc_pages`: the number of pages mapped before the first failure. -/
def mapPages (kernelRoot : Nat) (virtStart physBase : UInt64) : Nat → Nat → Pmm → Option (Nat × Pmm)
  | 0, index, pmm => some (index, pmm)
  | remaining + 1, index, pmm =>
      match vmmMapPage pmm kernelRoot (pageAt virtStart index) (pageAt physBase index) 3 with
      | none => none
      | some (false, after) => some (index, after)
      | some (true, after) => mapPages kernelRoot virtStart physBase remaining (index + 1) after

def unmapPages (ram : Mem) (kernelRoot : Nat) (start : UInt64) (count : Nat) : Mem :=
  (List.range count).foldl (fun ram index => (vmmUnmapPage ram kernelRoot (pageAt start index)).2) ram

/-- 0 is the null result.  The page allocator takes 32 bits of the count. -/
def vmmAllocPages (kernelRoot : Nat) (vmm : Vmm) (count : UInt64) : Option (UInt64 × Vmm) :=
  if count = 0 then some (0, vmm)
  else
    let virtStart := vmm.nextVirtAddr
    let nextVirtAddr := virtStart + count * 4096
    match pmmAllocPages vmm.pmm count.toUInt32 with
    | none => none
    | some (physBase, pmm) =>
        if physBase = 0 then some (0, { pmm, nextVirtAddr })
        else
          match mapPages kernelRoot virtStart (UInt64.ofNat physBase) count.toNat 0 pmm with
          | none => none
          | some (mapped, after) =>
              if mapped = count.toNat then some (virtStart, { pmm := after, nextVirtAddr })
              else
                let unmapped := { after with ram := unmapPages after.ram kernelRoot virtStart mapped }
                some (0, { pmm := pmmFreePages unmapped physBase count.toUInt32, nextVirtAddr })

def vmmFreePages (kernelRoot : Nat) (vmm : Vmm) (virt count : UInt64) : Vmm :=
  if virt = 0 ∨ count = 0 then vmm
  else
    let physBase := vmmGetPhysical vmm.pmm.ram kernelRoot virt
    let unmapped := { vmm.pmm with ram := unmapPages vmm.pmm.ram kernelRoot virt count.toNat }
    if physBase = 0 then { vmm with pmm := unmapped }
    else { vmm with pmm := pmmFreePages unmapped (alignDown physBase) count.toUInt32 }

section Pages

variable {start other : UInt64} {index count : Nat}

def pageNumber (start other : UInt64) : Nat := (other - start).toNat / pageSize

theorem pageAt_toNat (start : UInt64) (index : Nat) :
    (pageAt start index).toNat = (start.toNat + index * pageSize) % 2 ^ 64 := by
  rw [pageAt, UInt64.toNat_add, UInt64.toNat_ofNat']
  omega

theorem pageNumber_iff (aligned : start.toNat % pageSize = 0) (bound : index < 2 ^ 52) :
    pageNumber start other = index ↔ other.toNat / pageSize =
    (pageAt start index).toNat / pageSize := by
  have startSmall := start.toNat_lt
  have otherSmall := other.toNat_lt
  rw [pageAt_toNat, pageNumber, UInt64.toNat_sub]
  simp only [pageSize] at aligned ⊢
  omega

theorem pageNumber_pageAt (aligned : start.toNat % pageSize = 0) (bound : index < 2 ^ 52) :
    pageNumber start (pageAt start index) = index := (pageNumber_iff aligned bound).mpr rfl

theorem pageAt_aligned (aligned : start.toNat % pageSize = 0) (index : Nat) :
    (pageAt start index).toNat % pageSize = 0 := by
  rw [pageAt_toNat]
  simp only [pageSize] at aligned ⊢
  omega

theorem canonical_page {left right : UInt64} (same : left.toNat / pageSize =
    right.toNat / pageSize) : isCanonical left = isCanonical right := by
  rw [Bool.eq_iff_iff]
  simp only [isCanonical, Bool.or_eq_true, decide_eq_true_eq]
  simp only [pageSize] at same
  omega

end Pages

def rangeTables (start : UInt64) (count : Nat) : Finset (List Nat) :=
  (Finset.range count).biUnion fun index => tablesFor (pageAt start index)

structure RangeFits (start : UInt64) (count : Nat) : Prop where
  aligned : start.toNat % pageSize = 0
  short : count < 2 ^ 32
  canonical : ∀ index < count, isCanonical (pageAt start index) = true

structure MapsFirst (root : Nat) (start : UInt64) (base count : Nat) (pmm : Pmm)
    (done : Nat) (after : Pmm) (new : Finset (List Nat)) : Prop where
  grown : GrowsTables root pmm after new
  within : new ⊆ rangeTables start count
  placed : ∀ index < done, nodeAt after.ram root (tablePath (pageAt start index)) ≠ none
  translates : ∀ other, isCanonical other = true → vmmGetPhysical after.ram root other =
    if pageNumber start other < done then base + pageNumber start other * pageSize + other.toNat % pageSize
    else vmmGetPhysical pmm.ram root other

def RanOut (root : Nat) (start : UInt64) (count : Nat) (pmm : Pmm) : Prop :=
  (usedSet pmm).card = pmm.totalPages ∧ ∃ path ∈ rangeTables start count,
    nodeAt pmm.ram root path = none

section Loop

variable {root base count done : Nat} {start other : UInt64} {pmm after : Pmm} {new : Finset (List Nat)}

theorem RangeFits.page_iff (fits : RangeFits start count) {index : Nat} (bound : index < count)
    (canonical : isCanonical other = true) :
    (tablePath other = tablePath (pageAt start index) ∧
      pageOf other = pageOf (pageAt start index)) ↔ pageNumber start other = index := by
  have short := fits.short
  rw [same_page_iff canonical (fits.canonical index bound), pageNumber_iff fits.aligned (by omega)]
  rfl

theorem MapsFirst.refl (dir : Directory pmm root) : MapsFirst root start base count pmm 0 pmm ∅ :=
  ⟨.refl dir, Finset.empty_subset _, by simp, by simp⟩

theorem MapsFirst.page (maps : MapsFirst root start base count pmm done after new)
    (fits : RangeFits start count)
    (first : FirstPageHeld pmm) (baseAligned : base % pageSize = 0)
    (baseSmall : base + count * pageSize ≤ 2 ^ 30)
    (bound : done < count) (free : PageUnmapped pmm.ram root (pageAt start done)) :
    ∃ next later,
      (vmmMapPage after root (pageAt start done) (pageAt (UInt64.ofNat base) done) 3 =
        some (true, next) ∧ MapsFirst root start base count pmm (done + 1) next later) ∨
      (vmmMapPage after root (pageAt start done) (pageAt (UInt64.ofNat base) done) 3 = some (false, next) ∧
        MapsFirst root start base count pmm done next later ∧ RanOut root start count next) := by
  have short := fits.short
  have canonical := fits.canonical done bound
  have member : tablesFor (pageAt start done) ⊆ rangeTables start count :=
    Finset.subset_biUnion_of_mem (fun index => tablesFor (pageAt start index)) (Finset.mem_range.mpr bound)
  have frame : (pageAt (UInt64.ofNat base) done).toNat = base + done * pageSize := by
    rw [pageAt_toNat, UInt64.toNat_ofNat']
    simp only [pageSize] at baseSmall ⊢
    omega
  have frameAligned : (base + done * pageSize) % pageSize = 0 := by
    simp only [pageSize] at baseAligned ⊢
    omega
  have frameSmall : base + done * pageSize < 2 ^ 52 := by
    simp only [pageSize] at baseSmall ⊢
    omega
  obtain ⟨leafSmall, leafPresent, leafFrame⟩ :=
    leaf_kind frameAligned frameSmall (show (3 : UInt32).toNat &&& 0xFFF < 2 ^ 12 by decide)
  have stillFree : PageUnmapped after.ram root (pageAt start done) := by
    intro other same
    have here := (pageNumber_iff fits.aligned (by omega)).mpr same
    rw [maps.translates other ((canonical_page same).trans canonical), here, if_neg (Nat.lt_irrefl _)]
    exact free other same
  unfold vmmMapPage
  simp only [canonical, Bool.not_true, Bool.false_eq_true, if_false, frame,
    alignDown_of_aligned frameAligned, and_frameMask frameAligned frameSmall]
  generalize base + done * pageSize ||| (3 : UInt32).toNat &&& 0xFFF ||| pagePresent = leaf at *
  rcases maps.grown.dir.kernel_walk (maps.grown.first first) stillFree (3 : UInt32).toNat leaf with
    ⟨next, later, failed, walks, full, path, needed, missing⟩ | ⟨pt, middle, later, walks, place, stored⟩
  · refine ⟨next, new ∪ later, Or.inr ⟨failed, ⟨maps.grown.trans walks.grown,
      Finset.union_subset maps.within (walks.within.trans member), ?_, ?_⟩,
      full, path, member needed, missing⟩⟩
    · intro index before
      obtain ⟨table, found⟩ := Option.ne_none_iff_exists'.mp (maps.placed index before)
      rw [walks.grown.stays _ table (tablePath_valid _) found]
      simp
    · intro other otherCanonical
      rw [walks.same other, maps.translates other otherCanonical]
  · obtain ⟨_, nodes, translates⟩ := walks.grown.dir.set_leaf place leafSmall (Or.inl leafPresent)
    refine ⟨_, new ∪ later,
      Or.inl ⟨stored, maps.grown.trans (walks.grown.leaf place leafSmall (Or.inl leafPresent)),
      Finset.union_subset maps.within (walks.within.trans member), ?_, ?_⟩⟩
    · intro index before
      rw [nodes _ (tablePath_valid _)]
      rcases Nat.lt_succ_iff_lt_or_eq.mp before with earlier | rfl
      · obtain ⟨table, found⟩ := Option.ne_none_iff_exists'.mp (maps.placed index earlier)
        rw [walks.grown.stays _ table (tablePath_valid _) found]
        simp
      · simp [place]
    · intro other otherCanonical
      rw [translates other]
      simp only [fits.page_iff bound otherCanonical]
      by_cases here : pageNumber start other = done
      · rw [if_pos here, if_pos (by omega), pageResult, if_pos leafPresent, leafFrame, here]
        rfl
      · rw [if_neg here, walks.same other, maps.translates other otherCanonical]
        by_cases earlier : pageNumber start other < done
        · rw [if_pos earlier, if_pos (by omega)]
        · rw [if_neg earlier, if_neg (by omega)]

theorem MapsFirst.loop (fits : RangeFits start count) (first : FirstPageHeld pmm)
    (baseAligned : base % pageSize = 0) (baseSmall : base + count * pageSize ≤ 2 ^ 30)
    (free : ∀ index < count, PageUnmapped pmm.ram root (pageAt start index)) {remaining : Nat}
    (maps : MapsFirst root start base count pmm done after new) (whole : done + remaining = count) :
    ∃ mapped final later,
      mapPages root start (UInt64.ofNat base) remaining done after = some (mapped, final) ∧
      MapsFirst root start base count pmm mapped final later ∧ mapped ≤ count ∧
      (mapped < count → RanOut root start count final) := by
  induction remaining generalizing done after new with
  | zero => exact ⟨done, after, new, rfl, maps, by omega, by omega⟩
  | succ remaining ih =>
      rw [mapPages]
      obtain ⟨next, later, ⟨mapped, more⟩ | ⟨failed, same, out⟩⟩ :=
        maps.page fits first baseAligned baseSmall (by omega) (free done (by omega))
      · rw [mapped]
        exact ih more (by omega)
      · rw [failed]
        exact ⟨done, next, later, rfl, same, by omega, fun _ => out⟩

end Loop

theorem childNode_found {ram : Mem} {depth table index node : Nat}
    (found : childNode ram depth table index = some node) :
    (entryAt ram table index).testBit presentBit = true ∧ node = alignDown (entryAt ram table index) ∧
      ((depth = 1 ∨ depth = 2) → (entryAt ram table index).testBit hugeBit = false) := by
  unfold childNode at found
  dsimp only at found
  split at found
  · rename_i kind
    simp only [Bool.and_eq_true, Bool.not_eq_true', Bool.and_eq_false_iff, Bool.or_eq_false_iff,
      decide_eq_false_iff_not] at kind
    refine ⟨kind.1, (Option.some.inj found).symm, fun deep => kind.2.resolve_left ?_⟩
    intro shallow
    exact deep.elim shallow.1 shallow.2
  · contradiction

theorem vmmUnmapPage_placed {ram : Mem} {root pt : Nat} {virt : UInt64}
    (place : nodeAt ram root (tablePath virt) = some pt) :
    (vmmUnmapPage ram root virt).2 = setEntry ram pt (pageOf virt) 0 := by
  obtain ⟨pd, pdNode, ptChild⟩ := walk_parent place
  obtain ⟨pdp, pdpNode, pdChild⟩ := walk_parent pdNode
  obtain ⟨top, rootNode, pdpChild⟩ := walk_parent pdpNode
  simp only [walk, Option.some.injEq] at rootNode
  subst rootNode
  obtain ⟨slotPresent, pdpEq, _⟩ := childNode_found pdpChild
  obtain ⟨pdpPresent, pdEq, _⟩ := childNode_found pdChild
  obtain ⟨pdPresent, ptEq, small⟩ := childNode_found ptChild
  have notHuge := small (Or.inr rfl)
  rw [pdEq, pdpEq] at pdPresent notHuge ptEq
  rw [pdpEq] at pdpPresent
  simp [vmmUnmapPage, slotPresent, pdpPresent, pdPresent, notHuge, ptEq, pageOf]

theorem unmapPages_spec {root count : Nat} {start : UInt64} {pmm : Pmm} (dir : Directory pmm root)
    (fits : RangeFits start count)
    {done : Nat} (bound : done ≤ count)
    (placed : ∀ index < done, nodeAt pmm.ram root (tablePath (pageAt start index)) ≠ none) :
    Directory { pmm with ram := unmapPages pmm.ram root start done } root ∧
      (∀ path, PathUpTo 3 path →
        nodeAt (unmapPages pmm.ram root start done) root path = nodeAt pmm.ram root path) ∧
      ∀ other, isCanonical other = true → vmmGetPhysical (unmapPages pmm.ram root start done) root other =
        if pageNumber start other < done then 0 else vmmGetPhysical pmm.ram root other := by
  induction done with
  | zero => exact ⟨dir, fun _ _ => rfl, fun _ _ => by simp [unmapPages]⟩
  | succ done ih =>
      obtain ⟨before, nodes, translates⟩ := ih (by omega) fun index earlier => placed index (by omega)
      obtain ⟨pt, place⟩ := Option.ne_none_iff_exists'.mp (placed done (by omega))
      have unfolded : unmapPages pmm.ram root start (done + 1) =
          (vmmUnmapPage (unmapPages pmm.ram root start done) root (pageAt start done)).2 := by
        rw [unmapPages, List.range_succ, List.foldl_append]
        rfl
      rw [← nodes _ (tablePath_valid _)] at place
      rw [unfolded, vmmUnmapPage_placed place]
      obtain ⟨after, stays, moves⟩ := before.set_leaf place (by decide) (Or.inr rfl)
      refine ⟨after, fun path valid => (stays path valid).trans (nodes path valid), fun other canonical => ?_⟩
      have moved := moves other
      simp only [fits.page_iff (show done < count by omega) canonical] at moved
      rw [moved]
      by_cases here : pageNumber start other = done
      · rw [if_pos here, if_pos (by omega), pageResult, Nat.zero_testBit]
        simp
      · rw [if_neg here, translates other canonical]
        by_cases earlier : pageNumber start other < done
        · rw [if_pos earlier, if_pos (by omega)]
        · rw [if_neg earlier, if_neg (by omega)]

section Frames

variable {root page count : Nat} {pmm after : Pmm} {path : List Nat}

theorem pmmAllocPages_range (first : FirstPageHeld pmm) (count : UInt32) :
    pmmAllocPages pmm count = some (0, pmm) ∨
      ∃ page after, pmmAllocPages pmm count = some (page * pageSize, after) ∧ 0 < page ∧ 0 < count.toNat ∧
        ClearRun pmm page count.toNat ∧ Allocated pmm after page count.toNat (page * pageSize) := by
  by_cases zero : count = 0
  · simp [pmmAllocPages, zero]
  have positive : 0 < count.toNat :=
    Nat.pos_of_ne_zero fun none => zero (UInt32.toNat_inj.mp (by simpa using none))
  cases allocated : pmmAllocPages pmm count with
  | none =>
      unfold pmmAllocPages at allocated
      rw [if_neg zero, if_neg (Nat.ne_of_gt first.managed)] at allocated
      split at allocated <;> contradiction
  | some result =>
      obtain ⟨address, after⟩ := result
      rcases pmmAllocPages_spec allocated with ⟨rfl, rfl⟩ | ⟨page, spec⟩
      · exact Or.inl rfl
      · have place : address = page * pageSize := by rw [spec.address, first.based.start, Nat.zero_add]
        subst place
        have used : page ≠ 0 := by
          rintro rfl
          exact Finset.disjoint_left.mp spec.fresh (Finset.mem_Ico.mpr ⟨Nat.le_refl 0, by omega⟩) first.held
        refine Or.inr ⟨page, after, rfl, Nat.pos_of_ne_zero used, positive, ?_, spec⟩
        rw [clearRun_iff positive, Bool.and_eq_true, decide_eq_true_eq]
        exact ⟨spec.managed, (bitmapRangeIsClear_iff positive spec.managed).mpr spec.fresh⟩

theorem Directory.table_page (dir : Directory pmm root) {table : Nat} (valid : PathUpTo 3 path)
    (found : nodeAt pmm.ram root path = some table) (managed : table / pageSize < pmm.totalPages) :
    table / pageSize ∈ usedSet pmm := by
  by_contra unused
  exact dir.inUse path table valid found ⟨dir.node_aligned found, managed, unused⟩

theorem Directory.apart_run (dir : Directory pmm root) (managed : page + count ≤ pmm.totalPages)
    (fresh : Disjoint (Finset.Ico page (page + count)) (usedSet pmm)) {table : Nat}
    (valid : PathUpTo 3 path)
    (found : nodeAt pmm.ram root path = some table) :
    table / pageSize ∉ Finset.Ico page (page + count) := by
  intro inside
  have bound := (Finset.mem_Ico.mp inside).2
  exact Finset.disjoint_left.mp fresh inside (dir.table_page valid found (by omega))

theorem Directory.take_run (dir : Directory pmm root)
    (allocated : Allocated pmm after page count (page * pageSize)) :
    Directory after root ∧ SameTranslation pmm.ram after.ram root ∧
      ∀ path, PathUpTo 3 path → nodeAt after.ram root path = nodeAt pmm.ram root path := by
  have same : ∀ other table position, PathUpTo 3 other → nodeAt pmm.ram root other = some table →
      position < 512 → entryAt after.ram table position = entryAt pmm.ram table position := by
    intro other table position valid found bound
    have outside := dir.apart_run allocated.managed allocated.fresh valid found
    have aligned := dir.node_aligned found
    rw [Finset.mem_Ico] at outside
    rw [allocated.zeroed]
    apply Mem.readU64_congr
    intro offset inside
    apply Mem.fill_outside
    simp only [pageSize] at outside aligned ⊢
    omega
  obtain ⟨kept, translates⟩ := dir.of_entries (dir.based.of_sameBounds allocated.bounds) same (by
    intro frame available
    refine ⟨available.1, allocated.bounds.totalPages ▸ available.2.1, fun used => available.2.2 ?_⟩
    rw [allocated.used]
    exact Finset.mem_union_left _ used)
  exact ⟨kept, translates, nodes_of_entries same⟩

theorem Allocated.card (allocated : Allocated pmm after page count (page * pageSize)) :
    (usedSet after).card = (usedSet pmm).card + count := by
  rw [allocated.used, Finset.card_union_of_disjoint allocated.fresh.symm, Nat.card_Ico]
  omega

theorem Directory.give_run (dir : Directory pmm root) (freed : Freed pmm after page count)
    (noTable : ∀ path table, PathUpTo 3 path → nodeAt pmm.ram root path = some table →
      table / pageSize ∉ Finset.Ico page (page + count)) : Directory after root := by
  have tree := dir.tree
  refine ⟨dir.based.of_sameBounds freed.bounds, freed.ram ▸ tree, ?_⟩
  intro path table valid found available
  rw [freed.ram] at found
  refine dir.inUse path table valid found ⟨available.1, freed.bounds.totalPages ▸ available.2.1,
    fun used => ?_⟩
  refine available.2.2 ?_
  rw [freed.used]
  exact Finset.mem_sdiff.mpr ⟨used, noTable path table valid found⟩

theorem pmmFreePages_run (based : ZeroBased pmm) {count : UInt32} (positive : 0 < count.toNat)
    (managed : page + count.toNat ≤ pmm.totalPages)
    (used : Finset.Ico page (page + count.toNat) ⊆ usedSet pmm) :
    Freed pmm (pmmFreePages pmm (page * pageSize) count) page count.toNat := by
  have index : (page * pageSize - pmm.start) / pageSize = page := by
    rw [based.start, Nat.sub_zero, Nat.mul_div_cancel _ (by decide)]
  have accepted : ¬FreeRejected pmm (page * pageSize) count := by
    rintro (zero | below | above | unaligned | outside | ⟨offset, bound, unused⟩)
    · subst zero
      exact absurd positive (Nat.lt_irrefl 0)
    · rw [based.start] at below
      omega
    · have covered := based.covered
      simp only [pageSize] at covered above
      omega
    · exact unaligned (Nat.mul_mod_left _ _)
    · rw [index] at outside
      omega
    · rw [index] at unused
      exact unused (used (Finset.mem_Ico.mpr ⟨by omega, by omega⟩))
  have freed := pmmFreePages_accepted accepted
  rwa [index] at freed

end Frames

def missingTables (ram : Mem) (root : Nat) (start : UInt64) (count : Nat) : Finset (List Nat) :=
  (rangeTables start count).filter fun path => nodeAt ram root path = none

/-- The pool has room for the tables of a range beside its frames, or none for any table. -/
def RangeAffordable (root : Nat) (pmm : Pmm) (start : UInt64) (count : Nat) : Prop :=
  (usedSet pmm).card + count + (missingTables pmm.ram root start count).card ≤ pmm.totalPages ∨
    (usedSet pmm).card + count = pmm.totalPages

def RangeUnmapped (ram : Mem) (root : Nat) (start : UInt64) (count : Nat) : Prop :=
  ∀ other, isCanonical other = true → pageNumber start other < count → vmmGetPhysical ram root other = 0

structure RangeFailed (root : Nat) (pmm after : Pmm) : Prop where
  dir : Directory after root
  bounds : SameBounds pmm after
  used : usedSet after = usedSet pmm
  nodes : ∀ path, PathUpTo 3 path → nodeAt after.ram root path = nodeAt pmm.ram root path
  same : ∀ other, isCanonical other = true → vmmGetPhysical after.ram root other =
    vmmGetPhysical pmm.ram root other

structure RangeGiven (root : Nat) (start : UInt64) (count page : Nat) (pmm after : Pmm) : Prop where
  dir : Directory after root
  bounds : SameBounds pmm after
  grows : usedSet pmm ⊆ usedSet after
  managed : page + count ≤ pmm.totalPages
  fresh : Disjoint (Finset.Ico page (page + count)) (usedSet pmm)
  taken : Finset.Ico page (page + count) ⊆ usedSet after
  placed : ∀ index < count, nodeAt after.ram root (tablePath (pageAt start index)) ≠ none
  stays : ∀ path table, PathUpTo 3 path → nodeAt pmm.ram root path = some table →
    nodeAt after.ram root path = some table
  nodes : ∀ path table, PathUpTo 3 path → nodeAt after.ram root path = some table →
    nodeAt pmm.ram root path = some table ∨
      table / pageSize ∉ usedSet pmm ∧ table / pageSize ∉ Finset.Ico page (page + count)
  translates : ∀ other, isCanonical other = true → vmmGetPhysical after.ram root other =
    if pageNumber start other < count then (page + pageNumber start other) * pageSize +
      other.toNat % pageSize
    else vmmGetPhysical pmm.ram root other

section Allocation

variable {root page count : Nat} {start : UInt64} {pmm taken final : Pmm} {later : Finset (List Nat)}

theorem RangeUnmapped.single (free : RangeUnmapped pmm.ram root start count)
    (fits : RangeFits start count) {index : Nat}
    (bound : index < count) : PageUnmapped pmm.ram root (pageAt start index) := by
  intro other same
  have short := fits.short
  have here := (pageNumber_iff fits.aligned (by omega)).mpr same
  exact free other ((canonical_page same).trans (fits.canonical index bound)) (here ▸ bound)

theorem RangeFailed.of_given_back {count : UInt32} (dir : Directory final root)
    (positive : 0 < count.toNat)
    (allocated : Allocated pmm taken page count.toNat (page * pageSize))
    (bounds : SameBounds taken final) (used : usedSet final = usedSet taken)
    (nodes : ∀ path, PathUpTo 3 path → nodeAt final.ram root path = nodeAt pmm.ram root path)
    (same : ∀ other, isCanonical other = true →
      vmmGetPhysical final.ram root other = vmmGetPhysical pmm.ram root other)
    (old : Directory pmm root) :
    RangeFailed root pmm (pmmFreePages final (page * pageSize) count) := by
  have whole := allocated.bounds.trans bounds
  have inside : Finset.Ico page (page + count.toNat) ⊆ usedSet final := by
    rw [used, allocated.used]
    exact Finset.subset_union_right
  have freed := pmmFreePages_run dir.based positive (whole.totalPages ▸ allocated.managed) inside
  refine ⟨dir.give_run freed ?_, whole.trans freed.bounds, ?_, ?_, ?_⟩
  · intro path table valid found
    rw [nodes path valid] at found
    exact old.apart_run allocated.managed allocated.fresh valid found
  · rw [freed.used, used, allocated.used, Finset.union_sdiff_cancel_right allocated.fresh.symm]
  · intro path valid
    rw [freed.ram]
    exact nodes path valid
  · intro other canonical
    rw [freed.ram]
    exact same other canonical

theorem MapsFirst.ran_out {done : Nat}
    (maps : MapsFirst root start (page * pageSize) count taken done final later)
    (allocated : Allocated pmm taken page count (page * pageSize))
    (nodes : ∀ path, PathUpTo 3 path → nodeAt taken.ram root path = nodeAt pmm.ram root path)
    (out : RanOut root start count final) (affordable : RangeAffordable root pmm start count) :
    later = ∅ := by
  obtain ⟨full, path, needed, missing⟩ := out
  have counted : (usedSet final).card = (usedSet pmm).card + count + later.card := by
    rw [maps.grown.taken, allocated.card]
  have total : final.totalPages = pmm.totalPages :=
    (allocated.bounds.trans maps.grown.bounds).totalPages
  rw [full, total] at counted
  rcases affordable with enough | exact
  · have valid : PathUpTo 3 path := by
      obtain ⟨index, _, member⟩ := Finset.mem_biUnion.mp needed
      have whole := tablePath_valid (pageAt start index)
      simp only [tablesFor, Finset.mem_insert, Finset.mem_singleton] at member
      rcases member with rfl | rfl | rfl
      · exact whole
      · exact whole.tail.mono (by decide)
      · exact whole.tail.tail.mono (by decide)
    have outside : path ∉ later := fun member => maps.grown.made path member missing
    have lacked : insert path later ⊆ missingTables pmm.ram root start count := by
      intro other member
      rw [missingTables, Finset.mem_filter]
      rcases Finset.mem_insert.mp member with rfl | inLater
      · refine ⟨needed, ?_⟩
        rw [← nodes other valid]
        cases found : nodeAt taken.ram root other with
        | none => rfl
        | some table =>
            rw [maps.grown.stays other table valid found] at missing
            contradiction
      · obtain ⟨otherValid, absent⟩ := maps.grown.missing other inLater
        exact ⟨maps.within inLater, nodes other otherValid ▸ absent⟩
    have fewer := Finset.card_le_card lacked
    rw [Finset.card_insert_of_notMem outside] at fewer
    omega
  · exact Finset.card_eq_zero.mp (by omega)

theorem MapsFirst.given (maps : MapsFirst root start (page * pageSize) count taken count final later)
    (allocated : Allocated pmm taken page count (page * pageSize)) (old : Directory pmm root) :
    RangeGiven root start count page pmm final := by
  obtain ⟨_, same, nodes⟩ := old.take_run allocated
  have grows : usedSet pmm ⊆ usedSet taken := by
    rw [allocated.used]
    exact Finset.subset_union_left
  have inside : Finset.Ico page (page + count) ⊆ usedSet taken := by
    rw [allocated.used]
    exact Finset.subset_union_right
  refine ⟨maps.grown.dir, allocated.bounds.trans maps.grown.bounds, grows.trans maps.grown.grows,
    allocated.managed, allocated.fresh, inside.trans maps.grown.grows, maps.placed, ?_, ?_, ?_⟩
  · intro path table valid found
    exact maps.grown.stays path table valid ((nodes path valid).trans found)
  · intro path table valid found
    rcases maps.grown.nodes path table valid found with before | ⟨_, available⟩
    · exact Or.inl ((nodes path valid).symm.trans before)
    · exact Or.inr ⟨fun used => available.2.2 (grows used), fun member => available.2.2 (inside member)⟩
  · intro other canonical
    rw [maps.translates other canonical, same other, Nat.add_mul]

theorem MapsFirst.failed {count : UInt32} {pages mapped : Nat} (whole : pages = count.toNat)
    (maps : MapsFirst root start (page * pageSize) pages taken mapped final later)
    (short : mapped ≤ pages) (fits : RangeFits start pages) (positive : 0 < count.toNat)
    (allocated : Allocated pmm taken page pages (page * pageSize)) (old : Directory pmm root)
    (free : RangeUnmapped pmm.ram root start pages) (out : RanOut root start pages final)
    (affordable : RangeAffordable root pmm start pages) :
    RangeFailed root pmm (pmmFreePages { final with ram := unmapPages final.ram root start mapped }
      (page * pageSize) count) := by
  obtain ⟨_, same, nodes⟩ := old.take_run allocated
  have none := maps.ran_out allocated nodes out affordable
  subst none
  have stays : ∀ path, PathUpTo 3 path → nodeAt final.ram root path = nodeAt pmm.ram root path := by
    intro path valid
    rw [← nodes path valid]
    cases found : nodeAt final.ram root path with
    | none =>
        cases before : nodeAt taken.ram root path with
        | none => rfl
        | some table =>
            rw [maps.grown.stays path table valid before] at found
            contradiction
    | some table =>
        rcases maps.grown.nodes path table valid found with before | ⟨made, _⟩
        · exact before.symm
        · exact absurd made (Finset.notMem_empty path)
  have used : usedSet final = usedSet taken := by
    refine (Finset.eq_of_subset_of_card_le maps.grown.grows ?_).symm
    rw [maps.grown.taken, Finset.card_empty, Nat.add_zero]
  obtain ⟨dir, kept, translates⟩ := unmapPages_spec maps.grown.dir fits short maps.placed
  subst whole
  refine .of_given_back dir positive allocated ⟨maps.grown.bounds.totalPages, maps.grown.bounds.start,
    maps.grown.bounds.stop⟩ used (fun path valid => (kept path valid).trans (stays path valid)) ?_ old
  intro other canonical
  rw [translates other canonical]
  by_cases inside : pageNumber start other < mapped
  · rw [if_pos inside, free other canonical (by omega)]
  · rw [if_neg inside, maps.translates other canonical, if_neg inside, same other]

/-- The allocation does what it says: it takes nothing, or its range can be mapped and paid for. -/
def RangeAllowed (root : Nat) (vmm : Vmm) (count : UInt64) : Prop :=
  count.toUInt32 = 0 ∨ (¬∃ page, ClearRun vmm.pmm page count.toUInt32.toNat) ∨
    isCanonical vmm.nextVirtAddr = false ∨
    (vmm.nextVirtAddr ≠ 0 ∧ RangeFits vmm.nextVirtAddr count.toNat ∧
      RangeUnmapped vmm.pmm.ram root vmm.nextVirtAddr count.toNat ∧
      RangeAffordable root vmm.pmm vmm.nextVirtAddr count.toNat)

theorem RangeFailed.refl (dir : Directory pmm root) : RangeFailed root pmm pmm :=
  ⟨dir, SameBounds.rfl, rfl, fun _ _ => rfl, fun _ _ => rfl⟩

theorem vmmAllocPages_outcome {vmm : Vmm} (dir : Directory vmm.pmm root)
    (first : FirstPageHeld vmm.pmm) {count : UInt64} (allowed : RangeAllowed root vmm count) :
    (∃ after, vmmAllocPages root vmm count = some (0, ⟨after, vmm.nextVirtAddr + count * 4096⟩) ∧
        RangeFailed root vmm.pmm after) ∨
      ∃ page after, vmmAllocPages root vmm count = some (vmm.nextVirtAddr,
        ⟨after, vmm.nextVirtAddr + count * 4096⟩) ∧
        vmm.nextVirtAddr ≠ 0 ∧ 0 < page ∧ 0 < count.toNat ∧ RangeFits vmm.nextVirtAddr count.toNat ∧
        RangeUnmapped vmm.pmm.ram root vmm.nextVirtAddr count.toNat ∧
        RangeGiven root vmm.nextVirtAddr count.toNat page vmm.pmm after := by
  by_cases zero : count = 0
  · subst zero
    refine Or.inl ⟨vmm.pmm, ?_, .refl dir⟩
    simp [vmmAllocPages]
  unfold vmmAllocPages
  rw [if_neg zero]
  rcases pmmAllocPages_range first count.toUInt32 with
    failed | ⟨page, taken, took, positive, asked, run, allocated⟩
  · exact Or.inl ⟨vmm.pmm, by simp [failed], .refl dir⟩
  have nonNull : page * pageSize ≠ 0 := Nat.mul_ne_zero (Nat.ne_of_gt positive) (by decide)
  simp only [took, if_neg nonNull]
  obtain ⟨takenDir, same, nodes⟩ := dir.take_run allocated
  have takenFirst : FirstPageHeld taken := first.of_grows allocated.bounds (by
    rw [allocated.used]
    exact Finset.subset_union_left)
  have whole : count.toNat ≠ 0 := fun none => zero (UInt64.toNat_inj.mp (by simpa using none))
  rcases allowed with small | noRun | outside | ⟨real, fits, free, affordable⟩
  · rw [small] at asked
    exact absurd asked (by decide)
  · exact absurd ⟨page, run⟩ noRun
  · -- the first page is refused before any table is looked at
    obtain ⟨rest, split⟩ := Nat.exists_eq_succ_of_ne_zero whole
    have start : pageAt vmm.nextVirtAddr 0 = vmm.nextVirtAddr := by simp [pageAt]
    have refused : mapPages root vmm.nextVirtAddr (UInt64.ofNat (page * pageSize))
        count.toNat 0 taken = some (0, taken) := by
      rw [split, mapPages, start, vmmMapPage, outside]
      rfl
    simp only [refused, if_neg (Ne.symm whole)]
    refine Or.inl ⟨_, rfl, .of_given_back ?_ asked allocated ⟨rfl, rfl, rfl⟩ rfl nodes
      (fun other _ => same other) dir⟩
    exact takenDir
  · have short : count.toUInt32.toNat = count.toNat := by
      rw [UInt64.toNat_toUInt32, Nat.mod_eq_of_lt fits.short]
    rw [short] at allocated asked
    have bound : page * pageSize + count.toNat * pageSize ≤ 2 ^ 30 := by
      have managed := allocated.managed
      have small := dir.based.small
      simp only [maxMemoryPages, pageSize] at small ⊢
      omega
    have unmapped : ∀ index < count.toNat, PageUnmapped taken.ram root (pageAt vmm.nextVirtAddr index) := by
      intro index inside other page
      rw [same other]
      exact free.single fits inside other page
    obtain ⟨mapped, final, later, looped, maps, within, out⟩ :=
      @MapsFirst.loop root (page * pageSize) count.toNat 0
      vmm.nextVirtAddr taken taken ∅ fits takenFirst (Nat.mul_mod_left _ _) bound
      unmapped count.toNat (.refl takenDir) (Nat.zero_add _)
    simp only [looped]
    by_cases all : mapped = count.toNat
    · subst all
      rw [if_pos rfl]
      exact Or.inr ⟨page, final, rfl, real, positive, asked, fits, free, maps.given allocated dir⟩
    · rw [if_neg all]
      exact Or.inl ⟨_, rfl, maps.failed short.symm within fits (short.symm ▸ asked)
        allocated dir free (out (by omega)) affordable⟩

end Allocation

end Szczupak
