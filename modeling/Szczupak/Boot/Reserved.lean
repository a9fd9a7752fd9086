import Szczupak.Mm.Pmm

/-!
Which pages the allocator can hand out.  Reservations before the first call take exactly the
pages their loops visit; afterwards callers that return only what they were given are handed the
other managed pages, and every one of them is handed out in some run.
-/

namespace Szczupak

def Visits (range : Nat × Nat) (page : Nat) : Prop :=
  range.1 < range.2 ∧ alignDown range.1 ≤ page * pageSize ∧ page * pageSize < alignUp range.2

instance {range : Nat × Nat} {page : Nat} : Decidable (Visits range page) :=
  inferInstanceAs (Decidable (_ ∧ _))

section Marks

variable {pmm : Pmm}

theorem markAddressUsed_exact (based : ZeroBased pmm) {visited page : Nat} :
    page ∈ usedSet (markAddressUsed pmm (visited * pageSize)) ↔
      page ∈ usedSet pmm ∨ page = visited ∧ page < pmm.totalPages := by
  have start := based.start
  have index : (visited * pageSize - pmm.start) / pageSize = visited := by
    rw [start, Nat.sub_zero, Nat.mul_div_cancel _ (by decide)]
  by_cases managed : visited < pmm.totalPages
  · have grows := (markAddressUsed_marked pmm (visited * pageSize)).grows
    constructor
    · intro used
      by_cases same : page = visited
      · exact Or.inr ⟨same, same ▸ managed⟩
      · left
        unfold markAddressUsed at used
        simp only [index] at used
        split at used
        next => exact used
        next =>
          split at used
          next => exact used
          next =>
            have grown := usedSet_bitmapSetBit managed
            have equal : usedSet { bitmapSetBit pmm visited with usedPages := pmm.usedPages + 1 } =
                usedSet (bitmapSetBit pmm visited) := usedSet_congr rfl rfl
            rw [equal, grown, Finset.mem_union, Finset.mem_singleton] at used
            exact used.resolve_right same
    · rintro (used | ⟨rfl, _⟩)
      · exact grows used
      · exact markAddressUsed_page based managed
  · have unchanged : markAddressUsed pmm (visited * pageSize) = pmm := by
      unfold markAddressUsed
      simp only [index]
      have outside : bitmapTestBit pmm visited = true := by
        rw [bitmapTestBit, if_pos (by omega)]
      rw [outside]
      simp
    rw [unchanged]
    constructor
    · exact Or.inl
    · rintro (used | ⟨rfl, inside⟩)
      · exact used
      · exact absurd inside managed

theorem foldl_marks_exact (based : ZeroBased pmm) {first count page : Nat} :
    page ∈ usedSet ((List.range count).foldl
      (fun state index => markAddressUsed state (first * pageSize + index * pageSize)) pmm) ↔
    page ∈ usedSet pmm ∨ (first ≤ page ∧ page < first + count) ∧ page < pmm.totalPages := by
  induction count with
  | zero =>
      simp only [List.range_zero, List.foldl_nil]
      constructor
      · exact Or.inl
      · rintro (used | ⟨⟨_, _⟩, _⟩)
        · exact used
        · omega
  | succ count ih =>
      rw [List.range_succ, List.foldl_append]
      have earlier := foldl_marked pmm (first * pageSize) count
      have address : first * pageSize + count * pageSize = (first + count) * pageSize :=
        (Nat.add_mul first count pageSize).symm
      simp only [List.foldl_cons, List.foldl_nil, address]
      rw [markAddressUsed_exact (based.of_sameBounds earlier.bounds), ih, earlier.bounds.totalPages]
      constructor
      · rintro ((used | ⟨range, managed⟩) | ⟨same, managed⟩)
        · exact Or.inl used
        · exact Or.inr ⟨by omega, managed⟩
        · exact Or.inr ⟨by omega, managed⟩
      · rintro (used | ⟨range, managed⟩)
        · exact Or.inl (Or.inl used)
        · by_cases last : page = first + count
          · exact Or.inr ⟨last, managed⟩
          · exact Or.inl (Or.inr ⟨by omega, managed⟩)

theorem pmmMarkUsed_exact (based : ZeroBased pmm) {start stop page : Nat} :
    page ∈ usedSet (pmmMarkUsed pmm start stop) ↔
      page ∈ usedSet pmm ∨ Visits (start, stop) page ∧ page < pmm.totalPages := by
  unfold pmmMarkUsed
  split
  next empty =>
    constructor
    · exact Or.inl
    · rintro (used | ⟨⟨nonempty, _⟩, _⟩)
      · exact used
      · exact absurd nonempty (by simp only; omega)
  next nonempty =>
    have range : (start / pageSize ≤ page ∧
        page < start / pageSize + (alignUp stop - start / pageSize * pageSize) / pageSize) ↔
        Visits (start, stop) page := by
      simp only [Visits, alignDown, alignUp, pageSize] at nonempty ⊢
      omega
    simp only [alignDown]
    rw [foldl_marks_exact based, range]

end Marks

structure Reserves (pmm : Pmm) (total : Nat) (ranges : List (Nat × Nat)) : Prop where
  based : ZeroBased pmm
  size : pmm.totalPages = total
  hint : pmm.lastAllocHint = 0
  used : ∀ page < total, page ∈ usedSet pmm ↔ ∃ range ∈ ranges, Visits range page

section Reserves

variable {pmm : Pmm} {total : Nat} {ranges : List (Nat × Nat)}

theorem Reserves.mark (reserves : Reserves pmm total ranges) (start stop : Nat) :
    Reserves (pmmMarkUsed pmm start stop) total (ranges ++ [(start, stop)]) := by
  have marked := pmmMarkUsed_marked pmm start stop
  refine ⟨reserves.based.of_sameBounds marked.bounds, marked.bounds.totalPages.trans reserves.size,
    marked.hint.trans reserves.hint, fun page managed => ?_⟩
  rw [pmmMarkUsed_exact reserves.based, reserves.used page managed, reserves.size]
  simp only [List.mem_append, List.mem_singleton]
  constructor
  · rintro (⟨range, member, visits⟩ | ⟨visits, _⟩)
    · exact ⟨range, Or.inl member, visits⟩
    · exact ⟨_, Or.inr rfl, visits⟩
  · rintro ⟨range, member | rfl, visits⟩
    · exact Or.inl ⟨range, member, visits⟩
    · exact Or.inr ⟨visits, managed⟩

theorem Reserves.reserve (reserves : Reserves pmm total ranges) {start stop : Nat}
    (startFits : start < 2 ^ 64) (stopFits : stop < 2 ^ 64) :
    Reserves (pmmReserveRange pmm (UInt64.ofNat start) (UInt64.ofNat stop)) total
      (ranges ++ [(start, stop)]) := by
  have first : (UInt64.ofNat start).toNat = start := UInt64.toNat_ofNat_of_lt' startFits
  have last : (UInt64.ofNat stop).toNat = stop := UInt64.toNat_ofNat_of_lt' stopFits
  have marked := reserves.mark start stop
  unfold pmmReserveRange
  split
  next empty =>
    have empty' : stop ≤ start := by
      rw [ge_iff_le, UInt64.le_iff_toNat_le, first, last] at empty
      exact empty
    rw [pmmMarkUsed, if_pos empty'] at marked
    exact marked
  next nonempty =>
    rw [first, last]
    exact marked

theorem Reserves.of_clear (based : ZeroBased pmm) (isTotal : pmm.totalPages = total)
    (hint : pmm.lastAllocHint = 0) (clear : ∀ page < total, pageBit pmm page = false) :
    Reserves pmm total [] := by
  refine ⟨based, isTotal, hint, fun page managed => ?_⟩
  simp [mem_usedSet, clear page managed]

end Reserves

def kernelRanges (symbols : KernelSymbols) : List (Nat × Nat) :=
  [(0, 2 * 1024 * 1024), (0x100000, alignUp symbols.kernelEnd.toNat),
    (symbols.p4Table.toNat, (symbols.p4Table.toNat + pageSize) % 2 ^ 64),
    (symbols.p3Table.toNat, (symbols.p3Table.toNat + pageSize) % 2 ^ 64),
    (symbols.p2Table.toNat, (symbols.p2Table.toNat + pageSize) % 2 ^ 64),
    (symbols.pmmBitmap.toNat, (symbols.pmmBitmap.toNat + (maxMemoryPages + 63) / 64 * 8) % 2 ^ 64)]

def managedPages (stop : Nat) : Nat := min (stop / pageSize) maxMemoryPages

theorem pmmInit_reserves (symbols : KernelSymbols) (ram : Mem) {stop : Nat} (fits : stop < 2 ^ 64) :
    ∃ ranges, Reserves (pmmInit symbols (pmmBoot ram) 0 (UInt64.ofNat stop))
      (managedPages stop) ranges ∧ (0 < managedPages stop → ranges = kernelRanges symbols) := by
  have isStop : (UInt64.ofNat stop).toNat = stop := UInt64.toNat_ofNat_of_lt' fits
  unfold pmmInit
  split
  next invalid =>
    have zero : stop = 0 := by
      rw [ge_iff_le, UInt64.le_iff_toNat_le, isStop, UInt64.toNat_zero] at invalid
      omega
    subst zero
    exact ⟨[], Reserves.of_clear ⟨rfl, by simp [pmmBoot], by simp [pmmBoot]⟩ rfl rfl
      (by simp [managedPages]), by simp [managedPages]⟩
  next valid =>
    dsimp only
    rw [isStop, UInt64.toNat_zero, Nat.sub_zero]
    split
    next none =>
      have empty : managedPages stop = 0 := by rw [managedPages, none, Nat.zero_min]
      rw [empty]
      exact ⟨[], Reserves.of_clear ⟨rfl, by simp [none], by simp [none]⟩ none rfl
        (by simp), by simp⟩
    next some =>
      have covered : stop / pageSize * pageSize ≤ stop := Nat.div_mul_le_self _ _
      generalize isSized : ({ pmmBoot ram with
        start := 0, stop := stop, totalPages := stop / pageSize } : Pmm) = sized
      have start : sized.start = 0 := by rw [← isSized]
      have isTotal : sized.totalPages = stop / pageSize := by rw [← isSized]
      have based : ZeroBased (pmmClamp sized) :=
        pmmClamp_zeroBased start (by rw [← isSized]; exact covered)
      have total : (pmmClamp sized).totalPages = managedPages stop := by
        unfold pmmClamp
        split
        next more =>
          rw [isTotal] at more
          change maxMemoryPages = managedPages stop
          exact (min_eq_right (Nat.le_of_lt more)).symm
        next fitting =>
          rw [isTotal]
          exact (min_eq_left (by omega)).symm
      have hint : (pmmClamp sized).lastAllocHint = 0 := by
        unfold pmmClamp
        split <;> rw [← isSized] <;> rfl
      have clear : Reserves (pmmClearBitmap (pmmClamp sized)) (managedPages stop) [] := by
        refine Reserves.of_clear ⟨based.start, based.covered, based.small⟩ total hint fun page managed => ?_
        simp only [pmmClearBitmap, pageBit]
        rw [if_pos (by omega)]
        simp
      have low := clear.mark 0 (2 * 1024 * 1024)
      have all := ((((low.mark 0x100000 (alignUp symbols.kernelEnd.toNat)).mark
        symbols.p4Table.toNat ((symbols.p4Table.toNat + pageSize) % 2 ^ 64)).mark
        symbols.p3Table.toNat ((symbols.p3Table.toNat + pageSize) % 2 ^ 64)).mark
        symbols.p2Table.toNat ((symbols.p2Table.toNat + pageSize) % 2 ^ 64)).mark
        symbols.pmmBitmap.toNat
        ((symbols.pmmBitmap.toNat + (maxMemoryPages + 63) / 64 * 8) % 2 ^ 64)
      refine ⟨kernelRanges symbols, ?_, fun _ => rfl⟩
      have isStart : (pmmClearBitmap (pmmClamp sized)).start = 0 := clear.based.start
      unfold pmmReserveKernel pmmMarkTable
      rw [isStart, if_pos (by decide)]
      exact all

inductive PoolCall
  | alloc (count : UInt32)
  | free (address : UInt64) (count : UInt32)

structure Pool where
  pmm : Pmm
  held : Finset Nat
  returned : Finset Nat

def Pool.boot (pmm : Pmm) : Pool := { pmm, held := ∅, returned := ∅ }

/-- Callers give back only pages they hold; a result of 0 is a failure to them. -/
def Pool.step (pool : Pool) : PoolCall → Option Pool
  | .alloc count =>
      match pmmAllocPages pool.pmm count with
      | none => none
      | some (result, after) =>
          let pages := if result = 0 then ∅ else handedOut result count.toNat
          some { pmm := after, held := pool.held ∪ pages, returned := pool.returned ∪ pages }
  | .free address count =>
      if handedOut address.toNat count.toNat ⊆ pool.held then
        some { pool with
          pmm := pmmFreePages pool.pmm address.toNat count
          held := pool.held \ handedOut address.toNat count.toNat }
      else none

def AllocationsSafe (pmm : Pmm) (safe : Nat → Prop) : Prop :=
  ∀ calls pool, runActions Pool.step (Pool.boot pmm) calls = some pool →
    ∀ page ∈ pool.returned, safe page

/-- The pages that were used at boot stay so, and no other page is beyond the managed ones. -/
structure PoolKeeps (total : Nat) (kept : Finset Nat) (pool : Pool) : Prop where
  based : ZeroBased pool.pmm
  size : pool.pmm.totalPages = total
  used : kept ⊆ usedSet pool.pmm
  apart : Disjoint kept pool.held
  returned : ∀ page ∈ pool.returned, page < total ∧ page ∉ kept

section Pool

variable {pool next : Pool} {total : Nat} {kept : Finset Nat}

theorem PoolKeeps.alloc (keeps : PoolKeeps total kept pool) {count : UInt32}
    (taken : pool.step (.alloc count) = some next) : PoolKeeps total kept next := by
  simp only [Pool.step] at taken
  split at taken
  next => cases taken
  next result after allocated =>
    cases taken
    rcases pmmAllocPages_spec allocated with ⟨zero, same⟩ | ⟨page, spec⟩
    · subst zero same
      simp only [if_pos, Finset.union_empty]
      exact ⟨keeps.based, keeps.size, keeps.used, keeps.apart, keeps.returned⟩
    · have bounds := spec.bounds
      have fresh : ∀ other ∈ (if result = 0 then ∅ else handedOut result count.toNat : Finset Nat),
          other < total ∧ other ∉ kept := by
        intro other member
        split at member
        next => exact absurd member (Finset.notMem_empty other)
        next nonzero =>
          have index : result / pageSize = page := by
            rw [spec.address, keeps.based.start, Nat.zero_add, Nat.mul_div_cancel _ (by decide)]
          rw [handedOut, index] at member
          have inside := Finset.mem_Ico.mp member
          have managed := spec.managed
          rw [keeps.size] at managed
          exact ⟨by omega, fun inKept => Finset.disjoint_left.mp spec.fresh member (keeps.used inKept)⟩
      refine ⟨keeps.based.of_sameBounds bounds, bounds.totalPages.trans keeps.size, ?_, ?_, ?_⟩
      · rw [spec.used]
        exact keeps.used.trans Finset.subset_union_left
      · refine Finset.disjoint_union_right.mpr ⟨keeps.apart, Finset.disjoint_right.mpr ?_⟩
        exact fun other member => (fresh other member).2
      · intro other member
        rcases Finset.mem_union.mp member with earlier | new
        · exact keeps.returned other earlier
        · exact fresh other new

theorem PoolKeeps.free (keeps : PoolKeeps total kept pool) {address : UInt64} {count : UInt32}
    (taken : pool.step (.free address count) = some next) : PoolKeeps total kept next := by
  simp only [Pool.step] at taken
  split at taken
  next holds =>
    cases taken
    have apart : Disjoint kept (pool.held \ handedOut address.toNat count.toNat) :=
      keeps.apart.mono_right Finset.sdiff_subset
    by_cases rejected : FreeRejected pool.pmm address.toNat count
    · rw [pmmFreePages_rejected rejected]
      exact ⟨keeps.based, keeps.size, keeps.used, apart, keeps.returned⟩
    · have spec := pmmFreePages_accepted rejected
      refine ⟨keeps.based.of_sameBounds spec.bounds, spec.bounds.totalPages.trans keeps.size, ?_,
        apart, keeps.returned⟩
      rw [spec.used]
      intro page inKept
      refine Finset.mem_sdiff.mpr ⟨keeps.used inKept, fun freed => ?_⟩
      rw [keeps.based.start, Nat.sub_zero] at freed
      exact Finset.disjoint_left.mp keeps.apart inKept (holds freed)
  next => cases taken

theorem PoolKeeps.step (keeps : PoolKeeps total kept pool) {call : PoolCall}
    (taken : pool.step call = some next) : PoolKeeps total kept next := by
  cases call with
  | alloc count => exact keeps.alloc taken
  | free address count => exact keeps.free taken

theorem findClearRange_first {pmm : Pmm} {page : Nat} (clear : page ∉ usedSet pmm)
    (managed : page < pmm.totalPages) (ahead : pmm.lastAllocHint ≤ page) :
    ∃ found, findClearRange pmm 1 = some found ∧ pmm.lastAllocHint ≤ found ∧ found ≤ page ∧
      found ∉ usedSet pmm := by
  have accepts : ∀ other < pmm.totalPages,
      ((decide (other + 1 ≤ pmm.totalPages) && bitmapRangeIsClear pmm other 1) = true ↔
        other ∉ usedSet pmm) := by
    intro other inside
    have single : Finset.Ico other (other + 1) = {other} := by
      ext page
      simp only [Finset.mem_Ico, Finset.mem_singleton]
      omega
    have iff := bitmapRangeIsClear_iff (show 0 < 1 by decide) (show other + 1 ≤ pmm.totalPages from inside)
    rw [single, Finset.disjoint_singleton_left] at iff
    simp only [Bool.and_eq_true, decide_eq_true_eq, iff]
    exact ⟨fun both => both.2, fun clear => ⟨inside, clear⟩⟩
  have hint : pmm.lastAllocHint % pmm.totalPages = pmm.lastAllocHint := Nat.mod_eq_of_lt (by omega)
  have listed : page ∈ (List.range pmm.totalPages).map
      fun index => (pmm.lastAllocHint + index) % pmm.totalPages := by
    refine List.mem_map.mpr ⟨page - pmm.lastAllocHint, List.mem_range.mpr (by omega), ?_⟩
    rw [Nat.add_sub_cancel' ahead, Nat.mod_eq_of_lt managed]
  have accepted := (accepts page managed).mpr clear
  rw [findClearRange, hint]
  cases search : ((List.range pmm.totalPages).map
      fun index => (pmm.lastAllocHint + index) % pmm.totalPages).find?
      fun page => decide (page + 1 ≤ pmm.totalPages) && bitmapRangeIsClear pmm page 1 with
  | none =>
      exact absurd accepted (List.find?_eq_none.mp search page listed)
  | some found =>
      refine ⟨found, rfl, ?_⟩
      obtain ⟨satisfied, index, bound, isFound, earlier⟩ := List.find?_eq_some_iff_getElem.mp search
      rw [List.length_map, List.length_range] at bound
      simp only [List.getElem_map, List.getElem_range] at isFound earlier
      have notLater : index ≤ page - pmm.lastAllocHint := by
        by_contra later
        have rejected := earlier (page - pmm.lastAllocHint) (by omega)
        rw [Nat.add_sub_cancel' ahead, Nat.mod_eq_of_lt managed, accepted] at rejected
        cases rejected
      rw [Nat.mod_eq_of_lt (by omega)] at isFound
      exact ⟨by omega, by omega, (accepts found (by omega)).mp satisfied⟩

theorem allocations_reach {page distance : Nat} (keeps : PoolKeeps total kept pool)
    (zero : 0 ∈ kept) (clear : page ∉ usedSet pool.pmm) (managed : page < total)
    (ahead : pool.pmm.lastAllocHint + distance = page) :
    ∃ calls final, runActions Pool.step pool calls = some final ∧ page ∈ final.returned := by
  induction distance using Nat.strong_induction_on generalizing pool with
  | _ distance ih =>
      have managed' : page < pool.pmm.totalPages := keeps.size.symm ▸ managed
      obtain ⟨found, search, behind, notPast, fresh⟩ := findClearRange_first clear managed' (by omega)
      have nonzero : found ≠ 0 := fun same => fresh (same ▸ keeps.used zero)
      have allocated : ∃ after, pmmAllocPages pool.pmm 1 = some (found * pageSize, after) ∧
          after.lastAllocHint = found + 1 := by
        have one : (1 : UInt32).toNat = 1 := rfl
        rw [pmmAllocPages, if_neg (by decide), if_neg (by omega), one, search]
        simp only [keeps.based.start, Nat.zero_add]
        exact ⟨_, rfl, rfl⟩
      obtain ⟨after, allocated, hint⟩ := allocated
      have size : 0 < pageSize := by decide
      have notZero : found * pageSize ≠ 0 := Nat.mul_ne_zero nonzero (Nat.ne_of_gt size)
      have pages : handedOut (found * pageSize) 1 = {found} := by
        rw [handedOut, Nat.mul_div_cancel _ size]
        ext other
        simp only [Finset.mem_Ico, Finset.mem_singleton]
        omega
      have taken : pool.step (.alloc 1) = some
          { pmm := after, held := pool.held ∪ {found}, returned := pool.returned ∪ {found} } := by
        simp only [Pool.step, allocated, if_neg notZero]
        rw [← pages]
        rfl
      by_cases reached : found = page
      · subst reached
        refine ⟨[.alloc 1], _, by rw [runActions, taken]; rfl, ?_⟩
        exact Finset.mem_union_right _ (Finset.mem_singleton_self found)
      · have keepsNext := keeps.alloc taken
        have stillClear : page ∉ usedSet after := by
          rcases pmmAllocPages_spec allocated with ⟨isZero, _⟩ | ⟨other, spec⟩
          · exact absurd isZero notZero
          · have isFound : other = found := by
              have address := spec.address
              rw [keeps.based.start, Nat.zero_add] at address
              exact (Nat.eq_of_mul_eq_mul_right size address).symm
            rw [spec.used, Finset.mem_union, not_or, isFound]
            refine ⟨clear, fun inside => reached ?_⟩
            have bounds := Finset.mem_Ico.mp inside
            have one : (1 : UInt32).toNat = 1 := rfl
            omega
        obtain ⟨calls, final, run, member⟩ :=
          @ih (page - after.lastAllocHint) (by omega) _ keepsNext stillClear (by simp only; omega)
        exact ⟨.alloc 1 :: calls, final, by rw [runActions, taken]; exact run, member⟩

theorem Reserves.keeps {pmm : Pmm} {ranges : List (Nat × Nat)}
    (reserves : Reserves pmm total ranges) : PoolKeeps total (usedSet pmm) (Pool.boot pmm) :=
  ⟨reserves.based, reserves.size, Finset.Subset.refl _, Finset.disjoint_empty_right _,
    fun _ member => absurd member (Finset.notMem_empty _)⟩

theorem allocationsSafe_iff {pmm : Pmm} {ranges : List (Nat × Nat)} {safe : Nat → Prop}
    (reserves : Reserves pmm total ranges)
    (zero : 0 < total → ∃ range ∈ ranges, Visits range 0) :
    AllocationsSafe pmm safe ↔
      ∀ page < total, (∀ range ∈ ranges, ¬Visits range page) → safe page := by
  constructor
  · intro allSafe page managed outside
    have clear : page ∉ usedSet pmm := by
      rw [reserves.used page managed]
      rintro ⟨range, member, visits⟩
      exact outside range member visits
    have zero' : 0 ∈ usedSet pmm := (reserves.used 0 (by omega)).mpr (zero (by omega))
    have hint : (Pool.boot pmm).pmm.lastAllocHint + page = page := by
      change pmm.lastAllocHint + page = page
      rw [reserves.hint, Nat.zero_add]
    obtain ⟨calls, final, run, member⟩ := allocations_reach reserves.keeps zero' clear managed hint
    exact allSafe calls final run page member
  · intro outsideSafe calls pool run page member
    have keeps : PoolKeeps total (usedSet pmm) pool :=
      runActions_invariant (fun _ _ _ before taken => before.step taken) reserves.keeps run
    obtain ⟨managed, clear⟩ := keeps.returned page member
    refine outsideSafe page managed fun range inRanges visits => clear ?_
    exact (reserves.used page managed).mpr ⟨range, inRanges, visits⟩

end Pool

end Szczupak
