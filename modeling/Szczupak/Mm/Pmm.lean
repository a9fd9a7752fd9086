import Mathlib.Data.Finset.Card
import Mathlib.Order.Interval.Finset.Nat
import Szczupak.Mm.PmmCore

/-!
The page allocator seen as a set of used pages.  Each operation of `PmmCore` is
described once by what it does to that set; the counter, the disjointness of the
ranges handed out and the safety of reserved pages follow over every run.
-/

namespace Szczupak

theorem bitMask_getLsbD (bit index : Nat) :
    (bitMask bit).getLsbD index = decide (index = bit % 64) := by
  simp only [bitMask, BitVec.getLsbD_shiftLeft, BitVec.getLsbD_one]
  by_cases same : index = bit % 64
  · subst same
    simp
    omega
  · simp [same]
    omega

theorem and_bitMask (word : BitVec 64) (bit : Nat) :
    (word &&& bitMask bit != 0#64) = word.getLsbD (bit % 64) := by
  cases found : word.getLsbD (bit % 64) with
  | false =>
      simp only [bne_eq_false_iff_eq]
      apply BitVec.eq_of_getLsbD_eq
      intro index _
      simp only [BitVec.getLsbD_and, bitMask_getLsbD, BitVec.getLsbD_zero]
      by_cases same : index = bit % 64
      · simp [same, found]
      · simp [same]
  | true =>
      simp only [bne_iff_ne, ne_eq]
      intro empty
      have bitEmpty := congrArg (fun word => word.getLsbD (bit % 64)) empty
      simp [bitMask_getLsbD, found] at bitEmpty

/-- The bit of a page, whether or not the page is managed. -/
def pageBit (pmm : Pmm) (page : Nat) : Bool := (pmm.bitmap (page / 64)).getLsbD (page % 64)

def usedSet (pmm : Pmm) : Finset Nat :=
  (Finset.range pmm.totalPages).filter fun page => pageBit pmm page = true

variable {pmm : Pmm} {count : UInt32} {before after : Pmm} {trace : PmmTrace} {result : Nat}

theorem mem_usedSet {page : Nat} :
    page ∈ usedSet pmm ↔ page < pmm.totalPages ∧ pageBit pmm page = true := by
  simp [usedSet]

theorem bitmapTestBit_iff {page : Nat} (managed : page < pmm.totalPages) :
    bitmapTestBit pmm page = true ↔ page ∈ usedSet pmm := by
  rw [mem_usedSet, bitmapTestBit, if_neg (by omega), and_bitMask]
  simp [managed, pageBit]

theorem bitmapSetBit_pageBit {bit : Nat} (managed : bit < pmm.totalPages) (page : Nat) :
    pageBit (bitmapSetBit pmm bit) page = (decide (page = bit) || pageBit pmm page) := by
  simp only [bitmapSetBit, if_neg (Nat.not_le.mpr managed), pageBit, setWord]
  by_cases sameWord : page / 64 = bit / 64
  · simp only [sameWord, if_true, BitVec.getLsbD_or, bitMask_getLsbD]
    rw [Bool.or_comm]
    congr 1
    simp only [decide_eq_decide]
    omega
  · have different : page ≠ bit := fun same => sameWord (by rw [same])
    simp [sameWord, different]

theorem bitmapClearBit_pageBit {bit : Nat} (managed : bit < pmm.totalPages) (page : Nat) :
    pageBit (bitmapClearBit pmm bit) page = (!decide (page = bit) && pageBit pmm page) := by
  simp only [bitmapClearBit, if_neg (Nat.not_le.mpr managed), pageBit, setWord]
  by_cases sameWord : page / 64 = bit / 64
  · have index : page % 64 < 64 := Nat.mod_lt _ (by omega)
    simp only [sameWord, if_true, BitVec.getLsbD_and, BitVec.getLsbD_not, bitMask_getLsbD,
      index, decide_true, Bool.true_and]
    rw [Bool.and_comm]
    congr 2
    simp only [decide_eq_decide]
    omega
  · have different : page ≠ bit := fun same => sameWord (by rw [same])
    simp [sameWord, different]

structure SameBounds (before after : Pmm) : Prop where
  totalPages : after.totalPages = before.totalPages
  start : after.start = before.start
  stop : after.stop = before.stop

theorem SameBounds.rfl : SameBounds pmm pmm := ⟨Eq.refl _, Eq.refl _, Eq.refl _⟩

theorem SameBounds.trans {first second third : Pmm} (left : SameBounds first second)
    (right : SameBounds second third) : SameBounds first third :=
  ⟨right.totalPages.trans left.totalPages, right.start.trans left.start,
    right.stop.trans left.stop⟩

theorem bitmapSetBit_fields (pmm : Pmm) (bit : Nat) :
    bitmapSetBit pmm bit = { pmm with bitmap := (bitmapSetBit pmm bit).bitmap } := by
  unfold bitmapSetBit
  split <;> rfl

theorem bitmapClearBit_fields (pmm : Pmm) (bit : Nat) :
    bitmapClearBit pmm bit = { pmm with bitmap := (bitmapClearBit pmm bit).bitmap } := by
  unfold bitmapClearBit
  split <;> rfl

theorem bitmapSetRange_succ (pmm : Pmm) (page count : Nat) :
    bitmapSetRange pmm page (count + 1) =
      bitmapSetBit (bitmapSetRange pmm page count) (page + count) := by
  simp [bitmapSetRange, List.range_succ]

theorem bitmapClearRange_succ (pmm : Pmm) (page count : Nat) :
    bitmapClearRange pmm page (count + 1) =
      bitmapClearBit (bitmapClearRange pmm page count) (page + count) := by
  simp [bitmapClearRange, List.range_succ]

theorem bitmapSetRange_fields (pmm : Pmm) (page count : Nat) :
    bitmapSetRange pmm page count =
      { pmm with bitmap := (bitmapSetRange pmm page count).bitmap } := by
  induction count with
  | zero => rfl
  | succ count ih =>
      rw [bitmapSetRange_succ, bitmapSetBit_fields, ih]

theorem bitmapClearRange_fields (pmm : Pmm) (page count : Nat) :
    bitmapClearRange pmm page count =
      { pmm with bitmap := (bitmapClearRange pmm page count).bitmap } := by
  induction count with
  | zero => rfl
  | succ count ih =>
      rw [bitmapClearRange_succ, bitmapClearBit_fields, ih]

theorem usedSet_of_pageBit (total : after.totalPages = before.totalPages)
    {pages : Finset Nat} (managed : ∀ page ∈ pages, page < before.totalPages)
    (bits : ∀ page, pageBit after page = true ↔ page ∈ pages ∨ pageBit before page = true) :
    usedSet after = usedSet before ∪ pages := by
  ext page
  simp only [mem_usedSet, Finset.mem_union, total, bits]
  constructor
  · rintro ⟨bound, member | used⟩
    · exact Or.inr member
    · exact Or.inl ⟨bound, used⟩
  · rintro (⟨bound, used⟩ | member)
    · exact ⟨bound, Or.inr used⟩
    · exact ⟨managed page member, Or.inl member⟩

theorem usedSet_bitmapSetBit {bit : Nat} (managed : bit < pmm.totalPages) :
    usedSet (bitmapSetBit pmm bit) = usedSet pmm ∪ {bit} := by
  apply usedSet_of_pageBit
  · rw [bitmapSetBit_fields]
  · simpa using managed
  · intro page
    simp [bitmapSetBit_pageBit managed]

theorem usedSet_bitmapSetRange {page count : Nat} (managed : page + count ≤ pmm.totalPages) :
    usedSet (bitmapSetRange pmm page count) = usedSet pmm ∪ Finset.Ico page (page + count) := by
  induction count with
  | zero => simp [bitmapSetRange]
  | succ count ih =>
      have total : (bitmapSetRange pmm page count).totalPages = pmm.totalPages := by
        rw [bitmapSetRange_fields]
      rw [bitmapSetRange_succ, usedSet_bitmapSetBit (by omega), ih (by omega),
        Finset.union_assoc]
      congr 1
      ext other
      simp only [Finset.mem_union, Finset.mem_Ico, Finset.mem_singleton]
      omega

theorem usedSet_bitmapClearRange {page count : Nat} (managed : page + count ≤ pmm.totalPages) :
    usedSet (bitmapClearRange pmm page count) = usedSet pmm \ Finset.Ico page (page + count) := by
  induction count with
  | zero => simp [bitmapClearRange]
  | succ count ih =>
      have total : (bitmapClearRange pmm page count).totalPages = pmm.totalPages := by
        rw [bitmapClearRange_fields]
      have previous := ih (by omega)
      ext other
      have before : other ∈ usedSet (bitmapClearRange pmm page count) ↔
          other ∈ usedSet pmm ∧ ¬(page ≤ other ∧ other < page + count) := by
        rw [previous, Finset.mem_sdiff, Finset.mem_Ico]
      rw [mem_usedSet] at before
      rw [bitmapClearRange_succ, mem_usedSet, bitmapClearBit_pageBit (by omega)]
      rw [Finset.mem_sdiff, Finset.mem_Ico, bitmapClearBit_fields]
      simp only [Bool.and_eq_true, Bool.not_eq_true', decide_eq_false_iff_not]
      constructor
      · rintro ⟨bound, different, used⟩
        have old := before.mp ⟨bound, used⟩
        exact ⟨old.1, by omega⟩
      · rintro ⟨used, outside⟩
        have now := before.mpr ⟨used, by omega⟩
        exact ⟨now.1, by omega, now.2⟩

theorem bitmapRangeIsClear_iff {page count : Nat} (positive : 0 < count)
    (managed : page + count ≤ pmm.totalPages) :
    bitmapRangeIsClear pmm page count = true ↔
      Disjoint (Finset.Ico page (page + count)) (usedSet pmm) := by
  rw [bitmapRangeIsClear, if_neg (by omega), if_neg (by omega), if_neg (by omega),
    List.all_eq_true, Finset.disjoint_left]
  constructor
  · intro clear other member used
    rw [Finset.mem_Ico] at member
    have free := clear (other - page) (List.mem_range.mpr (by omega))
    rw [show page + (other - page) = other by omega] at free
    rw [(bitmapTestBit_iff (by omega)).mpr used] at free
    simp at free
  · intro disjoint index member
    have bound := List.mem_range.mp member
    rw [Bool.not_eq_true', Bool.eq_false_iff]
    intro used
    exact disjoint (Finset.mem_Ico.mpr ⟨by omega, by omega⟩)
      ((bitmapTestBit_iff (by omega)).mp used)

theorem findClearRange_sound {count page : Nat} (positive : 0 < count)
    (found : findClearRange pmm count = some page) :
    page + count ≤ pmm.totalPages ∧
      Disjoint (Finset.Ico page (page + count)) (usedSet pmm) := by
  have accepted := List.find?_some found
  simp only [Bool.and_eq_true, decide_eq_true_eq] at accepted
  exact ⟨accepted.1, (bitmapRangeIsClear_iff positive accepted.1).mp accepted.2⟩

structure Allocated (pmm after : Pmm) (page count result : Nat) : Prop where
  bounds : SameBounds pmm after
  managed : page + count ≤ pmm.totalPages
  fresh : Disjoint (Finset.Ico page (page + count)) (usedSet pmm)
  used : usedSet after = usedSet pmm ∪ Finset.Ico page (page + count)
  counter : after.usedPages = pmm.usedPages + count
  address : result = pmm.start + page * pageSize
  zeroed : after.ram = pmm.ram.fill result (count * pageSize) 0

theorem usedSet_congr {left right : Pmm} (total : left.totalPages = right.totalPages)
    (bitmap : left.bitmap = right.bitmap) : usedSet left = usedSet right := by
  ext page
  simp only [mem_usedSet, pageBit, total, bitmap]

theorem pmmAllocPages_spec {pmm after : Pmm}
    (allocated : pmmAllocPages pmm count = some (result, after)) :
    (result = 0 ∧ after = pmm) ∨ ∃ page, Allocated pmm after page count.toNat result := by
  unfold pmmAllocPages at allocated
  split at allocated
  · simp only [Option.some.injEq, Prod.mk.injEq] at allocated
    exact Or.inl ⟨allocated.1.symm, allocated.2.symm⟩
  · rename_i nonzero
    split at allocated
    · simp at allocated
    · cases found : findClearRange pmm count.toNat with
      | none =>
          simp only [found, Option.some.injEq, Prod.mk.injEq] at allocated
          exact Or.inl ⟨allocated.1.symm, allocated.2.symm⟩
      | some page =>
          simp only [found, Option.some.injEq, Prod.mk.injEq] at allocated
          obtain ⟨resultEq, afterEq⟩ := allocated
          have positive : 0 < count.toNat := by
            apply Nat.pos_of_ne_zero
            intro zero
            exact nonzero (UInt32.toNat_inj.mp (by simpa using zero))
          have sound := findClearRange_sound positive found
          refine Or.inr ⟨page, ⟨?_, sound.1, sound.2, ?_, ?_, resultEq.symm, ?_⟩⟩
          · subst after
            rw [bitmapSetRange_fields]
            exact ⟨rfl, rfl, rfl⟩
          · rw [← usedSet_bitmapSetRange sound.1]
            subst after
            exact usedSet_congr rfl rfl
          · subst after
            rfl
          · subst after
            rw [resultEq]

def FreeRejected (pmm : Pmm) (address : Nat) (count : UInt32) : Prop :=
  count = 0 ∨ address < pmm.start ∨ address ≥ pmm.stop ∨ address % pageSize ≠ 0 ∨
    (address - pmm.start) / pageSize + count.toNat > pmm.totalPages ∨
    ∃ index < count.toNat, (address - pmm.start) / pageSize + index ∉ usedSet pmm

structure Freed (pmm after : Pmm) (page count : Nat) : Prop where
  bounds : SameBounds pmm after
  managed : page + count ≤ pmm.totalPages
  wasUsed : Finset.Ico page (page + count) ⊆ usedSet pmm
  used : usedSet after = usedSet pmm \ Finset.Ico page (page + count)
  counter : after.usedPages = (pmm.usedPages + 2 ^ 64 - count) % 2 ^ 64
  ram : after.ram = pmm.ram

theorem pmmFreePages_rejected {address : Nat}
    (rejected : FreeRejected pmm address count) : pmmFreePages pmm address count = pmm := by
  unfold pmmFreePages
  split
  · rfl
  · rename_i nonzero
    split
    · rfl
    · rename_i inside
      split
      · rfl
      · rename_i aligned
        dsimp only
        split
        · rfl
        · rename_i fits
          rw [if_pos]
          rw [List.any_eq_true]
          obtain zero | below | above | unaligned | overflow | ⟨index, bound, clear⟩ := rejected
          · exact absurd zero nonzero
          · exact absurd (Or.inl below) inside
          · exact absurd (Or.inr above) inside
          · exact absurd unaligned aligned
          · exact absurd overflow fits
          · refine ⟨index, List.mem_range.mpr bound, ?_⟩
            rw [Bool.not_eq_true', Bool.eq_false_iff]
            exact fun used => clear ((bitmapTestBit_iff (by omega)).mp used)

theorem pmmFreePages_accepted {address : Nat} (accepted : ¬FreeRejected pmm address count) :
    Freed pmm (pmmFreePages pmm address count) ((address - pmm.start) / pageSize) count.toNat := by
  simp only [FreeRejected, not_or, not_exists, not_and, not_not] at accepted
  obtain ⟨nonzero, lower, upper, aligned, fits, used⟩ := accepted
  have noneClear : ((List.range count.toNat).any fun index =>
      !bitmapTestBit pmm ((address - pmm.start) / pageSize + index)) = false := by
    rw [List.any_eq_false]
    intro index member
    have bound := List.mem_range.mp member
    simp [(bitmapTestBit_iff (by omega)).mpr (used index bound)]
  unfold pmmFreePages
  rw [if_neg nonzero, if_neg (by omega), if_neg (by omega)]
  dsimp only
  rw [if_neg fits, noneClear, if_neg (by simp)]
  have managed : (address - pmm.start) / pageSize + count.toNat ≤ pmm.totalPages := by omega
  refine ⟨?_, managed, ?_, ?_, rfl, ?_⟩
  · rw [bitmapClearRange_fields]
    exact ⟨rfl, rfl, rfl⟩
  · intro page member
    rw [Finset.mem_Ico] at member
    have usedPage := used (page - (address - pmm.start) / pageSize) (by omega)
    rwa [show (address - pmm.start) / pageSize + (page - (address - pmm.start) / pageSize) = page
      by omega] at usedPage
  · rw [← usedSet_bitmapClearRange managed]
    exact usedSet_congr rfl rfl
  · rw [bitmapClearRange_fields]

structure Marked (before after : Pmm) : Prop where
  bounds : SameBounds before after
  grows : usedSet before ⊆ usedSet after
  counter : after.usedPages + (usedSet before).card = before.usedPages + (usedSet after).card
  hint : after.lastAllocHint = before.lastAllocHint
  ram : after.ram = before.ram

theorem Marked.rfl : Marked pmm pmm :=
  ⟨SameBounds.rfl, Finset.Subset.refl _, Eq.refl _, Eq.refl _, Eq.refl _⟩

theorem Marked.trans {first second third : Pmm} (left : Marked first second)
    (right : Marked second third) : Marked first third := by
  refine ⟨left.bounds.trans right.bounds, left.grows.trans right.grows, ?_,
    right.hint.trans left.hint, right.ram.trans left.ram⟩
  have leftCounter := left.counter
  have rightCounter := right.counter
  omega

theorem markAddressUsed_marked (pmm : Pmm) (address : Nat) :
    Marked pmm (markAddressUsed pmm address) := by
  unfold markAddressUsed
  split
  · exact Marked.rfl
  · dsimp only
    split
    · exact Marked.rfl
    · rename_i clear
      have managed : (address - pmm.start) / pageSize < pmm.totalPages := by
        by_contra outside
        exact clear (by rw [bitmapTestBit, if_pos (by omega)])
      have fresh : (address - pmm.start) / pageSize ∉ usedSet pmm :=
        fun used => clear ((bitmapTestBit_iff managed).mpr used)
      have grown := usedSet_bitmapSetBit managed
      rw [bitmapSetBit_fields] at grown ⊢
      refine ⟨⟨Eq.refl _, Eq.refl _, Eq.refl _⟩, ?_, ?_, Eq.refl _, Eq.refl _⟩
      · rw [usedSet_congr (Eq.refl _) (Eq.refl _)] at grown
        exact grown ▸ Finset.subset_union_left
      · have size := congrArg Finset.card grown
        rw [Finset.card_union_of_disjoint (Finset.disjoint_singleton_right.mpr fresh),
          Finset.card_singleton] at size
        have same : usedSet { pmm with
            bitmap := (bitmapSetBit pmm ((address - pmm.start) / pageSize)).bitmap
            usedPages := pmm.usedPages + 1 } =
          usedSet { pmm with
            bitmap := (bitmapSetBit pmm ((address - pmm.start) / pageSize)).bitmap } :=
          usedSet_congr (Eq.refl _) (Eq.refl _)
        rw [same, size]
        simp only
        omega

theorem foldl_marked (pmm : Pmm) (first count : Nat) :
    Marked pmm ((List.range count).foldl
      (fun state index => markAddressUsed state (first + index * pageSize)) pmm) := by
  induction count with
  | zero => exact Marked.rfl
  | succ count ih =>
      rw [List.range_succ, List.foldl_append]
      exact ih.trans (markAddressUsed_marked _ _)

theorem pmmMarkUsed_marked (pmm : Pmm) (start stop : Nat) :
    Marked pmm (pmmMarkUsed pmm start stop) := by
  unfold pmmMarkUsed
  split
  · exact Marked.rfl
  · exact foldl_marked pmm _ _

structure ZeroBased (pmm : Pmm) : Prop where
  start : pmm.start = 0
  covered : pmm.totalPages * pageSize ≤ pmm.stop
  small : pmm.totalPages ≤ maxMemoryPages

theorem ZeroBased.of_sameBounds (based : ZeroBased before)
    (same : SameBounds before after) : ZeroBased after :=
  ⟨same.start.trans based.start, by rw [same.totalPages, same.stop]; exact based.covered,
    by rw [same.totalPages]; exact based.small⟩

theorem markAddressUsed_page (based : ZeroBased pmm) {page : Nat}
    (managed : page < pmm.totalPages) :
    page ∈ usedSet (markAddressUsed pmm (page * pageSize)) := by
  have covered := based.covered
  unfold markAddressUsed
  rw [if_neg (by simp only [based.start, pageSize] at covered ⊢; omega)]
  have index : (page * pageSize - pmm.start) / pageSize = page := by
    rw [based.start, Nat.sub_zero, Nat.mul_div_cancel _ (by decide)]
  simp only [index]
  split
  · rename_i used
    exact (bitmapTestBit_iff managed).mp used
  · have grown := usedSet_bitmapSetBit managed
    have same : usedSet { bitmapSetBit pmm page with usedPages := pmm.usedPages + 1 } =
        usedSet (bitmapSetBit pmm page) := usedSet_congr (Eq.refl _) (Eq.refl _)
    rw [same, grown]
    simp

theorem foldl_marks_page (based : ZeroBased pmm) {first count page : Nat}
    (lower : first ≤ page) (upper : page < first + count) (managed : page < pmm.totalPages) :
    page ∈ usedSet ((List.range count).foldl
      (fun state index => markAddressUsed state (first * pageSize + index * pageSize)) pmm) := by
  induction count with
  | zero => omega
  | succ count ih =>
      rw [List.range_succ, List.foldl_append]
      have earlier := foldl_marked pmm (first * pageSize) count
      by_cases last : page = first + count
      · have address : first * pageSize + count * pageSize = page * pageSize := by
          rw [last, Nat.add_mul]
        simp only [List.foldl_cons, List.foldl_nil, address]
        exact markAddressUsed_page (based.of_sameBounds earlier.bounds)
          (by rw [earlier.bounds.totalPages]; exact managed)
      · exact (markAddressUsed_marked _ _).grows (ih (by omega))

def touchedPages (pmm : Pmm) (start stop : Nat) : Finset Nat :=
  (Finset.range pmm.totalPages).filter fun page =>
    start < stop ∧ start < (page + 1) * pageSize ∧ page * pageSize < stop

theorem pmmMarkUsed_touched (based : ZeroBased pmm) {start stop : Nat}
    (limit : stop ≤ 2 ^ 64 - pageSize) :
    touchedPages pmm start stop ⊆ usedSet (pmmMarkUsed pmm start stop) := by
  intro page member
  simp only [touchedPages, Finset.mem_filter, Finset.mem_range] at member
  obtain ⟨managed, nonempty, above, below⟩ := member
  unfold pmmMarkUsed
  rw [if_neg (by omega)]
  have rounded : alignUp stop = (stop + (pageSize - 1)) / pageSize * pageSize := by
    rw [alignUp, Nat.mod_eq_of_lt (by simp only [pageSize] at limit ⊢; omega)]
    rfl
  simp only [rounded, alignDown]
  apply foldl_marks_page based _ _ managed
  · simp only [pageSize] at above ⊢
    omega
  · simp only [pageSize] at above below ⊢
    omega

theorem Marked.counted (marked : Marked before after)
    (counted : before.usedPages = (usedSet before).card) :
    after.usedPages = (usedSet after).card := by
  have counter := marked.counter
  omega

/-- What the bookkeeping owes in every state: the counter counts the used pages. -/
structure Counted (pmm : Pmm) : Prop extends ZeroBased pmm where
  counter : pmm.usedPages = (usedSet pmm).card

theorem Counted.mark (counted : Counted before) (marked : Marked before after) : Counted after :=
  ⟨counted.toZeroBased.of_sameBounds marked.bounds, marked.counted counted.counter⟩

theorem Counted.of_clear (based : ZeroBased pmm) (zero : pmm.usedPages = 0)
    (clear : ∀ page < pmm.totalPages, pageBit pmm page = false) : Counted pmm := by
  refine ⟨based, ?_⟩
  rw [zero, eq_comm, Finset.card_eq_zero, Finset.eq_empty_iff_forall_notMem]
  intro page member
  rw [mem_usedSet] at member
  simp [clear page member.1] at member

theorem Counted.reserveKernel (symbols : KernelSymbols) (counted : Counted pmm) :
    Counted (pmmReserveKernel symbols pmm) := by
  have low : Counted (if pmm.start < 2 * 1024 * 1024 then
      pmmMarkUsed pmm pmm.start (2 * 1024 * 1024) else pmm) := by
    split
    · exact counted.mark (pmmMarkUsed_marked _ _ _)
    · exact counted
  unfold pmmReserveKernel pmmMarkTable
  exact ((((low.mark (pmmMarkUsed_marked _ _ _)).mark (pmmMarkUsed_marked _ _ _)).mark
    (pmmMarkUsed_marked _ _ _)).mark (pmmMarkUsed_marked _ _ _)).mark (pmmMarkUsed_marked _ _ _)

theorem pmmClamp_zeroBased (start : pmm.start = 0)
    (covered : pmm.totalPages * pageSize ≤ pmm.stop) : ZeroBased (pmmClamp pmm) := by
  unfold pmmClamp
  split
  · refine ⟨start, ?_, Nat.le_refl maxMemoryPages⟩
    simp only [start, Nat.zero_add]
    rw [Nat.mod_eq_of_lt (by simp only [maxMemoryPages, pageSize]; omega)]
  · exact ⟨start, covered, by omega⟩

theorem pmmInit_counted (symbols : KernelSymbols) (ram : Mem) (stop : UInt64) :
    Counted (pmmInit symbols (pmmBoot ram) 0 stop) := by
  unfold pmmInit
  split
  · exact Counted.of_clear ⟨rfl, by simp [pmmBoot], by simp [pmmBoot]⟩ rfl (by simp [pmmBoot])
  · dsimp only
    have covered : (stop.toNat - UInt64.toNat 0) / pageSize * pageSize ≤ stop.toNat := by
      rw [UInt64.toNat_zero, Nat.sub_zero]
      exact Nat.div_mul_le_self _ _
    split
    · rename_i empty
      exact Counted.of_clear ⟨UInt64.toNat_zero, covered, by simp only [empty]; omega⟩ rfl
        (by simp [pageBit, pmmBoot])
    · apply Counted.reserveKernel
      have based : ZeroBased (pmmClamp { pmmBoot ram with
          start := UInt64.toNat 0
          stop := stop.toNat
          totalPages := (stop.toNat - UInt64.toNat 0) / pageSize }) :=
        pmmClamp_zeroBased UInt64.toNat_zero covered
      refine Counted.of_clear ⟨based.start, based.covered, based.small⟩ rfl ?_
      intro page managed
      simp only [pmmClearBitmap] at managed
      simp only [pmmClearBitmap, pageBit]
      rw [if_pos (by omega)]
      simp

/-! Whole runs.  The trace remembers, beside the allocator, the pages of every
range handed out that were not freed since, and the reserved pages that were not
freed since. -/

inductive PmmCall
  | alloc (count : UInt32)
  | free (address : UInt64) (count : UInt32)
  | reserve (start stop : UInt64) (limit : stop.toNat ≤ 2 ^ 64 - pageSize)

structure PmmTrace where
  pmm : Pmm
  held : List (Finset Nat)
  reserved : Finset Nat

instance (pmm : Pmm) (address : Nat) (count : UInt32) :
    Decidable (FreeRejected pmm address count) :=
  inferInstanceAs (Decidable (_ ∨ _))

def handedOut (result count : Nat) : Finset Nat :=
  Finset.Ico (result / pageSize) (result / pageSize + count)

def PmmTrace.step (trace : PmmTrace) : PmmCall → Option PmmTrace
  | .alloc count =>
      match pmmAllocPages trace.pmm count with
      | none => none
      | some (result, after) => some { trace with
          pmm := after
          held := if result = 0 then trace.held else handedOut result count.toNat :: trace.held }
  | .free address count =>
      let after := pmmFreePages trace.pmm address.toNat count
      if FreeRejected trace.pmm address.toNat count then some { trace with pmm := after }
      else
        let freed := handedOut address.toNat count.toNat
        some {
          pmm := after
          held := trace.held.map fun pages => pages \ freed
          reserved := trace.reserved \ freed }
  | .reserve start stop _ => some { trace with
      pmm := pmmReserveRange trace.pmm start stop
      reserved := trace.reserved ∪ touchedPages trace.pmm start.toNat stop.toNat }

def PmmTrace.init (symbols : KernelSymbols) (ram : Mem) (stop : UInt64) : PmmTrace :=
  let pmm := pmmInit symbols (pmmBoot ram) 0 stop
  { pmm, held := [], reserved := usedSet pmm }

structure PmmInvariant (trace : PmmTrace) : Prop where
  counted : Counted trace.pmm
  heldUsed : ∀ pages ∈ trace.held, pages ⊆ usedSet trace.pmm
  heldDisjoint : trace.held.Pairwise Disjoint
  reservedUsed : trace.reserved ⊆ usedSet trace.pmm

theorem usedSet_card (pmm : Pmm) :
    (usedSet pmm).card = ((List.range pmm.totalPages).filter (bitmapTestBit pmm)).length := by
  have bits : (List.range pmm.totalPages).filter (bitmapTestBit pmm) =
      (List.range pmm.totalPages).filter fun page => pageBit pmm page = true := by
    apply List.filter_congr
    intro page member
    have managed := List.mem_range.mp member
    rw [Bool.eq_iff_iff, bitmapTestBit_iff managed, mem_usedSet]
    simp [managed]
  rw [bits]
  rfl

theorem usedSet_card_le (pmm : Pmm) : (usedSet pmm).card ≤ pmm.totalPages := by
  have bound := Finset.card_filter_le (Finset.range pmm.totalPages)
    (fun page => pageBit pmm page = true)
  rwa [Finset.card_range] at bound

theorem PmmInvariant.init (symbols : KernelSymbols) (ram : Mem) (stop : UInt64) :
    PmmInvariant (PmmTrace.init symbols ram stop) := by
  exact ⟨pmmInit_counted symbols ram stop, by simp [PmmTrace.init], List.Pairwise.nil,
    Finset.Subset.refl _⟩

theorem allocated_pages (invariant : PmmInvariant trace) {after : Pmm} (nonzero : result ≠ 0)
    (allocated : pmmAllocPages trace.pmm count = some (result, after)) :
    Allocated trace.pmm after (result / pageSize) count.toNat result := by
  rcases pmmAllocPages_spec allocated with ⟨zero, _⟩ | ⟨page, spec⟩
  · exact absurd zero nonzero
  · have index : result / pageSize = page := by
      rw [spec.address, invariant.counted.start, Nat.zero_add, Nat.mul_div_cancel _ (by decide)]
    rw [index]
    exact spec

theorem Counted.allocPages {pmm after : Pmm} (counted : Counted pmm)
    (allocated : pmmAllocPages pmm count = some (result, after)) :
    Counted after ∧ usedSet pmm ⊆ usedSet after := by
  rcases pmmAllocPages_spec allocated with ⟨_, same⟩ | ⟨page, spec⟩
  · subst after
    exact ⟨counted, Finset.Subset.refl _⟩
  · refine ⟨⟨counted.toZeroBased.of_sameBounds spec.bounds, ?_⟩,
      spec.used ▸ Finset.subset_union_left⟩
    rw [spec.used, Finset.card_union_of_disjoint spec.fresh.symm, spec.counter,
      counted.counter, Nat.card_Ico]
    omega

theorem Counted.freePages (counted : Counted pmm) {address : Nat}
    (accepted : ¬FreeRejected pmm address count) : Counted (pmmFreePages pmm address count) := by
  have spec := pmmFreePages_accepted accepted
  refine ⟨counted.toZeroBased.of_sameBounds spec.bounds, ?_⟩
  have size := Finset.card_sdiff_add_card_eq_card spec.wasUsed
  have small := usedSet_card_le pmm
  have bound := counted.small
  rw [Nat.card_Ico] at size
  simp only [maxMemoryPages] at bound
  rw [spec.counter, counted.counter, spec.used,
    show (usedSet pmm).card + 2 ^ 64 - count.toNat =
      (usedSet pmm).card - count.toNat + 2 ^ 64 by omega,
    Nat.add_mod_right, Nat.mod_eq_of_lt (by omega)]
  omega

theorem PmmInvariant.alloc (invariant : PmmInvariant trace) {after : Pmm}
    (allocated : pmmAllocPages trace.pmm count = some (result, after)) :
    PmmInvariant { trace with
      pmm := after
      held := if result = 0 then trace.held else handedOut result count.toNat :: trace.held } := by
  obtain ⟨counted, grows⟩ := invariant.counted.allocPages allocated
  have keptHeld : ∀ pages ∈ trace.held, pages ⊆ usedSet after :=
    fun pages member => (invariant.heldUsed pages member).trans grows
  refine ⟨counted, ?_, ?_, invariant.reservedUsed.trans grows⟩
  · intro pages member
    simp only at member
    split at member
    · exact keptHeld pages member
    · rename_i nonzero
      rcases List.mem_cons.mp member with new | old
      · have spec := allocated_pages invariant nonzero allocated
        rw [new, spec.used]
        exact Finset.subset_union_right
      · exact keptHeld pages old
  · simp only
    split
    · exact invariant.heldDisjoint
    · rename_i nonzero
      have spec := allocated_pages invariant nonzero allocated
      refine List.Pairwise.cons ?_ invariant.heldDisjoint
      intro pages member
      exact Finset.disjoint_of_subset_right (invariant.heldUsed pages member) spec.fresh

theorem PmmInvariant.free (invariant : PmmInvariant trace) {address : UInt64}
    (accepted : ¬FreeRejected trace.pmm address.toNat count) :
    PmmInvariant {
      pmm := pmmFreePages trace.pmm address.toNat count
      held := trace.held.map fun pages => pages \ handedOut address.toNat count.toNat
      reserved := trace.reserved \ handedOut address.toNat count.toNat } := by
  have spec := pmmFreePages_accepted accepted
  rw [invariant.counted.start, Nat.sub_zero] at spec
  have used : usedSet (pmmFreePages trace.pmm address.toNat count) =
      usedSet trace.pmm \ handedOut address.toNat count.toNat := spec.used
  refine ⟨invariant.counted.freePages accepted, ?_, ?_, ?_⟩
  · intro pages member
    obtain ⟨old, oldMember, oldEq⟩ := List.mem_map.mp member
    rw [← oldEq, used]
    exact Finset.sdiff_subset_sdiff (invariant.heldUsed old oldMember) (Finset.Subset.refl _)
  · rw [List.pairwise_map]
    refine invariant.heldDisjoint.imp ?_
    intro left right disjoint
    exact Finset.disjoint_of_subset_left Finset.sdiff_subset
      (Finset.disjoint_of_subset_right Finset.sdiff_subset disjoint)
  · simp only [used]
    exact Finset.sdiff_subset_sdiff invariant.reservedUsed (Finset.Subset.refl _)

theorem PmmInvariant.reserve (invariant : PmmInvariant trace)
    {start stop : UInt64} (limit : stop.toNat ≤ 2 ^ 64 - pageSize) :
    PmmInvariant { trace with
      pmm := pmmReserveRange trace.pmm start stop
      reserved := trace.reserved ∪ touchedPages trace.pmm start.toNat stop.toNat } := by
  have marked : Marked trace.pmm (pmmReserveRange trace.pmm start stop) := by
    unfold pmmReserveRange
    split
    · exact Marked.rfl
    · exact pmmMarkUsed_marked _ _ _
  have touched : touchedPages trace.pmm start.toNat stop.toNat ⊆
      usedSet (pmmReserveRange trace.pmm start stop) := by
    unfold pmmReserveRange
    split
    · rename_i reversed
      have order : stop.toNat ≤ start.toNat := UInt64.le_iff_toNat_le.mp reversed
      intro page member
      simp only [touchedPages, Finset.mem_filter] at member
      omega
    · exact pmmMarkUsed_touched invariant.counted.toZeroBased limit
  exact ⟨invariant.counted.mark marked,
    fun pages member => (invariant.heldUsed pages member).trans marked.grows,
    invariant.heldDisjoint, Finset.union_subset (invariant.reservedUsed.trans marked.grows) touched⟩

theorem PmmInvariant.step {trace next : PmmTrace} {call : PmmCall}
    (invariant : PmmInvariant trace) (taken : trace.step call = some next) :
    PmmInvariant next := by
  cases call with
  | alloc count =>
      simp only [PmmTrace.step] at taken
      cases allocated : pmmAllocPages trace.pmm count with
      | none => simp [allocated] at taken
      | some outcome =>
          rw [allocated] at taken
          simp only [Option.some.injEq] at taken
          subst next
          exact invariant.alloc allocated
  | free address count =>
      simp only [PmmTrace.step] at taken
      split at taken
      · rename_i rejected
        rw [pmmFreePages_rejected rejected, Option.some.injEq] at taken
        exact taken ▸ invariant
      · rename_i accepted
        simp only [Option.some.injEq] at taken
        subst next
        exact invariant.free accepted
  | reserve start stop limit =>
      simp only [PmmTrace.step, Option.some.injEq] at taken
      subst next
      exact invariant.reserve limit

/-- After `pmm_init(0, end)` and any calls: the counter is the number of set bits
of managed pages, outstanding ranges are disjoint and managed, the next range
handed out avoids every page reserved and not freed since and every outstanding
range, and a rejected free changes nothing. -/
theorem pmm_calls_keep_bookkeeping (symbols : KernelSymbols) (ram : Mem) (stop : UInt64)
    (calls : List PmmCall) (trace : PmmTrace)
    (reached : runActions PmmTrace.step (PmmTrace.init symbols ram stop) calls = some trace) :
    trace.pmm.usedPages =
        ((List.range trace.pmm.totalPages).filter (bitmapTestBit trace.pmm)).length ∧
      trace.held.Pairwise Disjoint ∧
      (∀ pages ∈ trace.held, ∀ page ∈ pages,
        page < trace.pmm.totalPages ∧ (page + 1) * pageSize ≤ trace.pmm.stop) ∧
      (∀ count result after, pmmAllocPages trace.pmm count = some (result, after) → result ≠ 0 →
        Disjoint (handedOut result count.toNat) trace.reserved ∧
        (∀ pages ∈ trace.held, Disjoint (handedOut result count.toNat) pages) ∧
        result % pageSize = 0 ∧ result + count.toNat * pageSize ≤ trace.pmm.stop) ∧
      ∀ address count, FreeRejected trace.pmm address count →
        pmmFreePages trace.pmm address count = trace.pmm := by
  have invariant := runActions_invariant
    (fun _ _ _ => PmmInvariant.step) (PmmInvariant.init symbols ram stop) reached
  have covered := invariant.counted.covered
  refine ⟨?_, invariant.heldDisjoint, ?_, ?_, fun _ _ => pmmFreePages_rejected⟩
  · rw [invariant.counted.counter, usedSet_card]
  · intro pages member page pageMember
    have used := invariant.heldUsed pages member pageMember
    have managed := (mem_usedSet.mp used).1
    refine ⟨managed, ?_⟩
    exact Nat.le_trans (Nat.mul_le_mul_right _ managed) covered
  · intro count result after allocated nonzero
    have spec := allocated_pages invariant nonzero allocated
    have address := spec.address
    rw [invariant.counted.start, Nat.zero_add] at address
    refine ⟨?_, ?_, ?_, ?_⟩
    · exact Finset.disjoint_of_subset_right invariant.reservedUsed spec.fresh
    · intro pages member
      exact Finset.disjoint_of_subset_right (invariant.heldUsed pages member) spec.fresh
    · rw [address, Nat.mul_mod_left]
    · have room := Nat.mul_le_mul_right pageSize spec.managed
      rw [Nat.add_mul] at room
      omega

def lowSymbols : KernelSymbols :=
  { kernelEnd := 0x100000, p4Table := 0, p3Table := 0, p2Table := 0, pmmBitmap := 0 }

theorem pmm_calls_three_pages :
    ∃ trace, runActions PmmTrace.step (PmmTrace.init lowSymbols (fun _ => 0) 0x3000)
        [.free 0x1000 1, .alloc 1, .reserve 0 0x1000 (by decide)] = some trace ∧
      trace.pmm.usedPages =
        ((List.range trace.pmm.totalPages).filter (bitmapTestBit trace.pmm)).length := by
  have finishes : (runActions PmmTrace.step (PmmTrace.init lowSymbols (fun _ => 0) 0x3000)
      [.free 0x1000 1, .alloc 1, .reserve 0 0x1000 (by decide)]).isSome = true := by
    decide +kernel
  obtain ⟨trace, reached⟩ := Option.isSome_iff_exists.mp finishes
  exact ⟨trace, reached, (pmm_calls_keep_bookkeeping _ _ _ _ trace reached).1⟩

end Szczupak
