import Szczupak.Lib.Transition
import Szczupak.Lib.WordMasks
import Szczupak.User.MallocCore

/-!
The blocks of a run of `malloc` and `calloc` lie in the arena and apart,
as long as no request is so large that the pointer wraps.
-/

namespace Szczupak.User

def Block.InArena (block : Block) : Prop :=
  heapStart.toNat ≤ block.address.toNat ∧ block.address.toNat + block.size ≤ heapStart.toNat +
    heapSize.toNat

def Block.Apart (block other : Block) : Prop :=
  block.address.toNat + block.size ≤ other.address.toNat ∨
    other.address.toNat + other.size ≤ block.address.toNat

def BlocksSound (run : AllocRun) : Prop :=
  (∀ block ∈ run.blocks, block.InArena) ∧ run.blocks.Pairwise Block.Apart

/-- The end of the heap and the request, rounded up, stay below 2^64; `calloc` refuses a product
from there on. -/
def RequestFits (run : AllocRun) (call : AllocCall) : Prop :=
  call.requested < 2 ^ 64 → run.heap.heapEnd.toNat + (call.requested + 7) / 8 * 8 < 2 ^ 64

instance (run : AllocRun) (call : AllocCall) : Decidable (RequestFits run call) :=
  inferInstanceAs (Decidable (_ → _))

structure AllocGood (run : AllocRun) : Prop where
  lower : heapStart.toNat ≤ run.heap.heapEnd.toNat
  upper : run.heap.heapEnd.toNat ≤ heapStart.toNat + heapSize.toNat
  front : ∀ block ∈ run.blocks, heapStart.toNat ≤ block.address.toNat ∧
    block.address.toNat + block.size ≤ run.heap.heapEnd.toNat
  apart : run.blocks.Pairwise Block.Apart

def movedEnd (heap : UserHeap) (request : Nat) : Nat :=
  (heap.heapEnd.toNat + (request + 7) % 2 ^ 64 / 8 * 8) % 2 ^ 64

def Refused (heap : UserHeap) (request : Nat) : Prop :=
  request = 0 ∨ 2 ^ 64 ≤ request ∨ heapStart.toNat + heapSize.toNat < movedEnd heap request

theorem heapStart_toNat : heapStart.toNat = 0x10000000 := rfl

theorem heapSize_toNat : heapSize.toNat = 0x100000 := rfl

section Calls

variable {heap : UserHeap} {run after : AllocRun} {call : AllocCall}

theorem movedEnd_toNat (heap : UserHeap) (size : UInt64) :
    (heap.heapEnd + ((size + 7) &&& ~~~7)).toNat = movedEnd heap size.toNat := by
  rw [movedEnd, UInt64.toNat_add, @toNat_masked (size + 7) 7 3 rfl, UInt64.toNat_add]
  rfl

theorem beyond_iff (heap : UserHeap) (size : UInt64) :
    heap.heapEnd + ((size + 7) &&& ~~~7) > heapStart + heapSize ↔
      heapStart.toNat + heapSize.toNat < movedEnd heap size.toNat := by
  have limit : (heapStart + heapSize).toNat = heapStart.toNat + heapSize.toNat := rfl
  rw [gt_iff_lt, UInt64.lt_iff_toNat_lt, movedEnd_toNat, limit]

theorem malloc_refused {size : UInt64} (refused : Refused heap size.toNat) :
    malloc size heap = (0, heap) := by
  rw [malloc]
  split
  next => rfl
  next some =>
    rcases refused with none | large | beyond
    · exact absurd (UInt64.toNat_inj.mp none) some
    · exact absurd size.toNat_lt (Nat.not_lt.mpr large)
    · exact if_pos ((beyond_iff heap size).mpr beyond)

theorem malloc_taken {size : UInt64} (taken : ¬Refused heap size.toNat) :
    ∃ heapEnd : UInt64, heapEnd.toNat = movedEnd heap size.toNat ∧
      malloc size heap = (heap.heapEnd, { heap with heapEnd := heapEnd }) := by
  rw [Refused, not_or, not_or] at taken
  obtain ⟨some, _, fits⟩ := taken
  refine ⟨_, movedEnd_toNat heap size, ?_⟩
  rw [malloc, if_neg]
  · exact if_neg (mt (beyond_iff heap size).mp fits)
  · rintro rfl
    exact some rfl

theorem product_wraps {nmemb size : UInt64} (some : size ≠ 0) :
    nmemb > 0xFFFFFFFFFFFFFFFF / size ↔ 2 ^ 64 ≤ nmemb.toNat * size.toNat := by
  have most : (0xFFFFFFFFFFFFFFFF : UInt64).toNat = 2 ^ 64 - 1 := rfl
  have positive : 0 < size.toNat := Nat.pos_of_ne_zero fun none => some (UInt64.toNat_inj.mp none)
  rw [gt_iff_lt, UInt64.lt_iff_toNat_lt, UInt64.toNat_div, most, Nat.div_lt_iff_lt_mul positive]
  omega

theorem AllocCall.run_refused (refused : Refused heap call.requested) : call.run heap = (0, heap) := by
  cases call with
  | malloc size => exact malloc_refused refused
  | calloc nmemb size =>
      rw [AllocCall.run, Szczupak.User.calloc]
      split
      next => rfl
      next some =>
        rw [not_or] at some
        split
        next => rfl
        next fits =>
          rw [product_wraps some.2] at fits
          have total : (nmemb * size).toNat = nmemb.toNat * size.toNat := by
            rw [UInt64.toNat_mul, Nat.mod_eq_of_lt (Nat.lt_of_not_le fits)]
          dsimp only
          rw [malloc_refused (by rw [total]; exact refused)]
          exact if_neg (not_not.mpr rfl)

theorem AllocCall.run_taken (taken : ¬Refused heap call.requested) :
    ∃ after, call.run heap = (heap.heapEnd, after) ∧ after.heapEnd.toNat =
    movedEnd heap call.requested := by
  cases call with
  | malloc size =>
      obtain ⟨heapEnd, moved, result⟩ := malloc_taken taken
      exact ⟨_, result, moved⟩
  | calloc nmemb size =>
      have taken' := taken
      rw [Refused, not_or, not_or] at taken'
      obtain ⟨some, fits, _⟩ := taken'
      have fits : ¬2 ^ 64 ≤ nmemb.toNat * size.toNat := fits
      have someSize : size ≠ 0 := by
        rintro rfl
        exact some (Nat.mul_zero _)
      have someCount : nmemb ≠ 0 := by
        rintro rfl
        exact some (Nat.zero_mul _)
      have total : (nmemb * size).toNat = nmemb.toNat * size.toNat := by
        rw [UInt64.toNat_mul, Nat.mod_eq_of_lt (Nat.lt_of_not_le fits)]
      obtain ⟨heapEnd, moved, result⟩ := @malloc_taken heap (nmemb * size) (by rw [total]; exact taken)
      rw [total] at moved
      rw [AllocCall.run, Szczupak.User.calloc, if_neg (not_or.mpr ⟨someCount, someSize⟩),
        if_neg (mt (product_wraps someSize).mp fits)]
      dsimp only
      rw [result]
      split
      · exact ⟨_, rfl, moved⟩
      · exact ⟨_, rfl, moved⟩

section

variable (good : AllocGood run)
include good

theorem movedEnd_cases {request : Nat} (small : request < 2 ^ 64) :
    (run.heap.heapEnd.toNat + (request + 7) / 8 * 8 < 2 ^ 64 ∧
      movedEnd run.heap request = run.heap.heapEnd.toNat + (request + 7) / 8 * 8) ∨
    2 ^ 64 ≤ run.heap.heapEnd.toNat + (request + 7) / 8 * 8 ∧
    movedEnd run.heap request ≤ run.heap.heapEnd.toNat := by
  have upper := good.upper
  rw [heapStart_toNat, heapSize_toNat] at upper
  rw [movedEnd]
  omega

theorem AllocGood.refused (refused : Refused run.heap call.requested)
    (stepped : allocStep run call = some after) : AllocGood after := by
  rw [allocStep, AllocCall.run_refused refused] at stepped
  cases stepped
  exact ⟨good.lower, good.upper, good.front, good.apart⟩

theorem AllocGood.step (fits : RequestFits run call) (stepped : allocStep run call = some after) :
    AllocGood after := by
  by_cases refused : Refused run.heap call.requested
  · exact good.refused refused stepped
  · obtain ⟨heap, result, moved⟩ := AllocCall.run_taken refused
    rw [Refused, not_or, not_or] at refused
    obtain ⟨some, small, below⟩ := refused
    have lower := good.lower
    have room := fits (Nat.lt_of_not_le small)
    have sum : heap.heapEnd.toNat = run.heap.heapEnd.toNat + (call.requested + 7) / 8 * 8 := by
      rcases movedEnd_cases good (Nat.lt_of_not_le small) with ⟨_, same⟩ | ⟨wraps, _⟩
      · rw [moved, same]
      · omega
    have nonNull : run.heap.heapEnd ≠ 0 := by
      intro null
      rw [null, heapStart_toNat] at lower
      exact absurd lower (by decide)
    rw [allocStep, result] at stepped
    cases stepped
    refine ⟨?_, ?_, ?_, ?_⟩
    · dsimp only
      omega
    · dsimp only
      omega
    · dsimp only
      rw [if_neg nonNull, List.forall_mem_cons]
      refine ⟨⟨lower, ?_⟩, fun block member => ?_⟩
      · dsimp only
        omega
      · have before := good.front block member
        omega
    · dsimp only
      rw [if_neg nonNull, List.pairwise_cons]
      exact ⟨fun block member => .inr (good.front block member).2, good.apart⟩

theorem AllocGood.lost (wraps : ¬RequestFits run call) (stepped : allocStep run call = some after) :
    ¬BlocksSound after := by
  simp only [RequestFits, Classical.not_imp] at wraps
  obtain ⟨small, large⟩ := wraps
  have lower := good.lower
  have upper := good.upper
  rw [heapStart_toNat] at lower
  rw [heapStart_toNat, heapSize_toNat] at upper
  have back : movedEnd run.heap call.requested ≤ run.heap.heapEnd.toNat := by
    rcases movedEnd_cases good small with ⟨fits, _⟩ | ⟨_, back⟩
    · exact absurd fits large
    · exact back
  have taken : ¬Refused run.heap call.requested := by
    rw [Refused, heapStart_toNat, heapSize_toNat]
    omega
  have nonNull : run.heap.heapEnd ≠ 0 := by
    intro null
    rw [null] at lower
    exact absurd lower (by decide)
  obtain ⟨heap, result, _⟩ := AllocCall.run_taken taken
  rw [allocStep, result] at stepped
  cases stepped
  rintro ⟨inArena, _⟩
  dsimp only at inArena
  rw [if_neg nonNull, List.forall_mem_cons] at inArena
  obtain ⟨_, ends⟩ := inArena.1
  rw [heapStart_toNat, heapSize_toNat] at ends
  dsimp only at ends
  omega

theorem AllocGood.sound : BlocksSound run :=
  ⟨fun block member => ⟨(good.front block member).1, (good.front block member).2.trans good.upper⟩,
    good.apart⟩

end

theorem allocStart_good (mem : UInt64 → UInt8) : AllocGood (allocStart mem) :=
  ⟨Nat.le_refl _, Nat.le_add_right _ _, fun _ member => absurd member List.not_mem_nil,
    List.Pairwise.nil⟩

end Calls

theorem runAlloc_total (run : AllocRun) (calls : List AllocCall) : ∃ after,
    runActions allocStep run calls = some after := by
  induction calls generalizing run with
  | nil => exact ⟨run, rfl⟩
  | cons call calls ih => exact ih _

/-- All blocks of a run are sound at every point of it exactly when no request makes the pointer
wrap. -/
theorem malloc_blocks_sound (mem : UInt64 → UInt8) (calls : List AllocCall) :
    (∀ begun rest run, calls = begun ++ rest → runActions allocStep (allocStart mem) begun =
      some run → BlocksSound run) ↔ RunMeets allocStep RequestFits (allocStart mem) calls := by
  obtain ⟨final, reached⟩ := runAlloc_total (allocStart mem) calls
  exact runActions_exact_kept (fun _ good => good.sound) (fun _ _ _ good fits stepped =>
    good.step fits stepped)
    (fun _ _ _ good wraps stepped => good.lost wraps stepped) (allocStart_good mem) reached

theorem largest_size_overlaps : ¬ ∀ (mem : UInt64 → UInt8) (calls : List AllocCall) (run : AllocRun),
    runActions allocStep (allocStart mem) calls = some run → BlocksSound run := by
  intro every
  have sound := every (fun _ => 0) [.malloc 0xFFFFFFFFFFFFFFFF, .malloc 16] _ rfl
  have blocks : (⟨0x10000000, 0xFFFFFFFFFFFFFFFF⟩ : Block).InArena := sound.1 _ (by decide)
  exact absurd blocks.2 (by decide)

end Szczupak.User
