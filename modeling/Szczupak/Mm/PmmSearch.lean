import Szczupak.Mm.Pmm

/-!
The rotating search of the page allocator misses no run of clear pages, wherever its hint stands.
Page 0 stays in use as long as nothing below 2 MiB is freed, so an address of 0 is always a
failure.
-/

namespace Szczupak

def ClearRun (pmm : Pmm) (page count : Nat) : Prop :=
  page + count ≤ pmm.totalPages ∧ ∀ index < count, bitmapTestBit pmm (page + index) = false

theorem mem_rotated {total page : Nat} (hint : Nat) (managed : page < total) :
    page ∈ (List.range total).map fun index => (hint % total + index) % total := by
  have bound : hint % total < total := Nat.mod_lt _ (by omega)
  refine List.mem_map.mpr ⟨(page + total - hint % total) % total,
    List.mem_range.mpr (Nat.mod_lt _ (by omega)), ?_⟩
  rw [Nat.add_mod_mod, Nat.add_sub_cancel' (by omega), Nat.add_mod_right, Nat.mod_eq_of_lt managed]

section Search

variable {pmm : Pmm} {page count : Nat}

theorem clearRun_iff (positive : 0 < count) :
    ClearRun pmm page count ↔
      (decide (page + count ≤ pmm.totalPages) && bitmapRangeIsClear pmm page count) = true := by
  rw [ClearRun, Bool.and_eq_true, decide_eq_true_eq]
  refine and_congr_right fun fits => ?_
  rw [bitmapRangeIsClear, if_neg (by omega), if_neg (by omega), if_neg (by omega), List.all_eq_true]
  simp only [List.mem_range, Bool.not_eq_true']

theorem findClearRange_found (positive : 0 < count) (found : findClearRange pmm count = some page) :
    ClearRun pmm page count := by
  have accepted := List.find?_some found
  exact (clearRun_iff positive).mpr accepted

theorem findClearRange_complete (positive : 0 < count) (missed : findClearRange pmm count = none) :
    ¬ClearRun pmm page count := by
  intro run
  have managed : page < pmm.totalPages := by
    have fits := run.1
    omega
  exact List.find?_eq_none.mp missed page (mem_rotated pmm.lastAllocHint managed)
    ((clearRun_iff positive).mp run)

end Search

structure FirstPageHeld (pmm : Pmm) : Prop where
  based : ZeroBased pmm
  held : 0 ∈ usedSet pmm

section FirstPage

variable {pmm after : Pmm}

theorem FirstPageHeld.managed (first : FirstPageHeld pmm) : 0 < pmm.totalPages :=
  (mem_usedSet.mp first.held).1

theorem FirstPageHeld.of_grows (first : FirstPageHeld pmm) (bounds : SameBounds pmm after)
    (grows : usedSet pmm ⊆ usedSet after) : FirstPageHeld after :=
  ⟨first.based.of_sameBounds bounds, grows first.held⟩

theorem FirstPageHeld.mark (first : FirstPageHeld pmm) (start stop : Nat) :
    FirstPageHeld (pmmMarkUsed pmm start stop) :=
  first.of_grows (pmmMarkUsed_marked pmm start stop).bounds (pmmMarkUsed_marked pmm start stop).grows

theorem FirstPageHeld.reserveKernel (symbols : KernelSymbols) (based : ZeroBased pmm)
    (managed : 0 < pmm.totalPages) : FirstPageHeld (pmmReserveKernel symbols pmm) := by
  have low : FirstPageHeld (pmmMarkUsed pmm 0 (2 * 1024 * 1024)) := by
    refine ⟨based.of_sameBounds (pmmMarkUsed_marked pmm 0 _).bounds,
      pmmMarkUsed_touched based (by decide) ?_⟩
    simp only [touchedPages, Finset.mem_filter, Finset.mem_range]
    exact ⟨managed, by decide, by decide, by decide⟩
  unfold pmmReserveKernel pmmMarkTable
  rw [based.start, if_pos (by decide)]
  exact ((((low.mark _ _).mark _ _).mark _ _).mark _ _).mark _ _

theorem pmmClamp_managed (managed : 0 < pmm.totalPages) : 0 < (pmmClamp pmm).totalPages := by
  unfold pmmClamp
  split
  · exact Nat.zero_lt_of_lt (show 0 < maxMemoryPages by decide)
  · exact managed

theorem pmmInit_firstPage {symbols : KernelSymbols} {ram : Mem} {stop : UInt64}
    (managed : 0 < (pmmInit symbols (pmmBoot ram) 0 stop).totalPages) :
    FirstPageHeld (pmmInit symbols (pmmBoot ram) 0 stop) := by
  unfold pmmInit at managed ⊢
  by_cases empty : (0 : UInt64) ≥ stop
  · rw [if_pos empty] at managed
    exact absurd managed (Nat.lt_irrefl 0)
  · rw [if_neg empty] at managed ⊢
    dsimp only at managed ⊢
    by_cases none : (stop.toNat - UInt64.toNat 0) / pageSize = 0
    · rw [if_pos none] at managed
      exact absurd none (Nat.ne_of_gt managed)
    · rw [if_neg none]
      have covered : (stop.toNat - UInt64.toNat 0) / pageSize * pageSize ≤ stop.toNat := by
        rw [UInt64.toNat_zero, Nat.sub_zero]
        exact Nat.div_mul_le_self _ _
      have based := @pmmClamp_zeroBased { pmmBoot ram with
        start := UInt64.toNat 0
        stop := stop.toNat
        totalPages := (stop.toNat - UInt64.toNat 0) / pageSize } UInt64.toNat_zero covered
      exact FirstPageHeld.reserveKernel symbols ⟨based.start, based.covered, based.small⟩
        (pmmClamp_managed (Nat.pos_of_ne_zero none))

theorem FirstPageHeld.freePages (first : FirstPageHeld pmm) {address : Nat} {count : UInt32}
    (spares : 2 * 1024 * 1024 ≤ address ∨ FreeRejected pmm address count) :
    FirstPageHeld (pmmFreePages pmm address count) := by
  by_cases rejected : FreeRejected pmm address count
  · rw [pmmFreePages_rejected rejected]
    exact first
  · have high := spares.resolve_right rejected
    have freed := pmmFreePages_accepted rejected
    refine ⟨first.based.of_sameBounds freed.bounds, ?_⟩
    rw [freed.used, first.based.start, Finset.mem_sdiff, Finset.mem_Ico]
    refine ⟨first.held, fun inside => ?_⟩
    simp only [pageSize] at inside
    omega

end FirstPage

inductive PmmOperation
  | allocPages (count : UInt32)
  | freePages (address : UInt64) (count : UInt32)
  | reserveRange (start stop : UInt64)

def pmmOperate (pmm : Pmm) : PmmOperation → Option Pmm
  | .allocPages count =>
      match pmmAllocPages pmm count with
      | none => none
      | some (_, after) => some after
  | .freePages address count => some (pmmFreePages pmm address.toNat count)
  | .reserveRange start stop => some (pmmReserveRange pmm start stop)

def SparesLow (pmm : Pmm) : PmmOperation → Prop
  | .freePages address count => 2 * 1024 * 1024 ≤ address.toNat ∨ FreeRejected pmm address.toNat count
  | _ => True

theorem FirstPageHeld.step {pmm next : Pmm} {call : PmmOperation} (first : FirstPageHeld pmm)
    (spares : SparesLow pmm call) (taken : pmmOperate pmm call = some next) : FirstPageHeld next := by
  cases call with
  | allocPages count =>
      rw [pmmOperate] at taken
      cases allocated : pmmAllocPages pmm count with
      | none => simp [allocated] at taken
      | some outcome =>
          rw [allocated] at taken
          cases taken
          rcases pmmAllocPages_spec allocated with ⟨_, same⟩ | ⟨page, spec⟩
          · exact same ▸ first
          · exact first.of_grows spec.bounds (spec.used ▸ Finset.subset_union_left)
  | freePages address count =>
      cases taken
      exact first.freePages spares
  | reserveRange start stop =>
      cases taken
      unfold pmmReserveRange
      split
      · exact first
      · exact first.mark _ _

/-- An allocation fails exactly where no run of clear pages is left, wherever the hint stands, and
gives the start of such a run otherwise. -/
theorem pmm_alloc_complete (symbols : KernelSymbols) (ram : Mem) (stop : UInt64)
    (calls : List PmmOperation)
    (pmm : Pmm) (managed : 0 < (pmmInit symbols (pmmBoot ram) 0 stop).totalPages)
    (spares : RunMeets pmmOperate SparesLow (pmmInit symbols (pmmBoot ram) 0 stop) calls)
    (reached : runActions pmmOperate (pmmInit symbols (pmmBoot ram) 0 stop) calls = some pmm)
    (hint : Nat) (count : UInt32) (positive : 1 ≤ count.toNat) :
    ∃ result after, pmmAllocPages { pmm with lastAllocHint := hint } count = some (result, after) ∧
      (result = 0 ↔ ¬∃ page, ClearRun pmm page count.toNat) ∧
      (result ≠ 0 → ∃ page, ClearRun pmm page count.toNat ∧ result = page * pageSize) := by
  have first := runActions_guarded (fun _ _ _ => FirstPageHeld.step)
    (pmmInit_firstPage managed) spares reached
  have nonempty := first.managed
  have nonzero : count ≠ 0 := by
    rintro rfl
    exact absurd positive (by decide)
  unfold pmmAllocPages
  rw [if_neg nonzero, if_neg (Nat.ne_of_gt nonempty)]
  cases found : findClearRange { pmm with lastAllocHint := hint } count.toNat with
  | none =>
      refine ⟨0, _, rfl, iff_of_true rfl ?_, fun wrong => absurd rfl wrong⟩
      rintro ⟨page, run⟩
      exact findClearRange_complete positive found run
  | some page =>
      have hinted : ClearRun { pmm with lastAllocHint := hint } page count.toNat :=
        findClearRange_found positive found
      have run : ClearRun pmm page count.toNat := hinted
      have address : pmm.start + page * pageSize = page * pageSize := by
        rw [first.based.start, Nat.zero_add]
      refine ⟨_, _, rfl, iff_of_false ?_ fun missing => missing ⟨page, run⟩, fun _ => ⟨page, run, address⟩⟩
      -- page 0 is in use, so no clear run starts there
      intro zero
      have start : page = 0 :=
        (Nat.mul_eq_zero.mp (address.symm.trans zero)).resolve_right (by decide)
      subst start
      have clear := run.2 0 positive
      rw [Nat.add_zero, Bool.eq_false_iff] at clear
      exact clear ((bitmapTestBit_iff nonempty).mpr first.held)

theorem pmm_alloc_complete_fragmented : ∃ pmm,
    runActions pmmOperate (pmmInit lowSymbols (pmmBoot fun _ => 0) 0 0x300000)
        [.allocPages 2, .freePages 0x200000 1] = some pmm ∧
      ∃ result after, pmmAllocPages { pmm with lastAllocHint := 514 } 1 = some (result, after) ∧
        (result = 0 ↔ ¬∃ page, ClearRun pmm page 1) ∧
        (result ≠ 0 → ∃ page, ClearRun pmm page 1 ∧ result = page * pageSize) := by
  have runs : (runActions pmmOperate (pmmInit lowSymbols (pmmBoot fun _ => 0) 0 0x300000)
      [.allocPages 2, .freePages 0x200000 1]).isSome = true := by
    decide +kernel
  obtain ⟨pmm, reached⟩ := Option.isSome_iff_exists.mp runs
  refine ⟨pmm, reached, pmm_alloc_complete lowSymbols (fun _ => 0) 0x300000 _ pmm
    (by decide +kernel) ?_ reached 514 1 (by decide)⟩
  exact ⟨trivial, fun _ _ => ⟨Or.inl (by decide), fun _ _ => trivial⟩⟩

end Szczupak
