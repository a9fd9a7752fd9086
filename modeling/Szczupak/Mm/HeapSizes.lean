import Szczupak.Mm.HeapCalls

/-!
Requests of every size.  The round-up of `kmalloc` wraps for the last seven sizes below 2^64, and
such a request is granted with an empty payload where the heap has a free block.  The test of
`kcalloc` catches products that wrap and not those.
-/

namespace Szczupak

def heapCall (storage : Nat) (state : HeapState) : HeapCall → Option HeapState
  | .kmalloc size =>
      let (ptr, mem) := kmalloc storage state.mem size
      some ⟨mem, hold state.live ptr⟩
  | .kcalloc num size =>
      let (ptr, mem) := kcalloc storage state.mem num size
      some ⟨mem, hold state.live ptr⟩
  | .krealloc ptr size =>
      if ptr = 0 || state.live.contains ptr then
        let (moved, mem) := krealloc storage state.mem ptr size
        if size = 0 then some ⟨mem, state.live.erase ptr⟩
        else if moved = 0 then some ⟨mem, state.live⟩
        else some ⟨mem, moved :: state.live.erase ptr⟩
      else none
  | .kfree ptr => heapStep storage state (.kfree ptr)
  | .write ptr offset value => heapStep storage state (.write ptr offset value)

def HeapFull (storage : HeapStorage) (mem : Mem) : Prop :=
  ∃ blocks, Blocks mem storage.stop 0 storage.address blocks ∧ ∀ block ∈ blocks, block.free = false

/-- The request survives the round-up, or nothing can be granted. -/
def SizeFits (storage : HeapStorage) (mem : Mem) (size : Nat) : Prop :=
  size ≤ maxRequest ∨ HeapFull storage mem

def RequestFits (storage : HeapStorage) (state : HeapState) : HeapCall → Prop
  | .kmalloc size => SizeFits storage state.mem size.toNat
  | .kcalloc num size => SizeFits storage state.mem (num.toNat * size.toNat) ∨
    2 ^ 64 ≤ num.toNat * size.toNat
  | .krealloc _ size => SizeFits storage state.mem size.toNat
  | .kfree _ => True
  | .write _ _ _ => True

section Requests

variable {storage : HeapStorage} {mem : Mem} {state next : HeapState} {blocks : List HeapBlock}
  {size : UInt64}

theorem firstFit_used {size address : Nat} (used : ∀ block ∈ blocks, block.free = false) :
    firstFit size address blocks = none := by
  induction blocks generalizing address with
  | nil => rfl
  | cons block rest ih =>
      rw [firstFit, used block List.mem_cons_self, ih fun other member =>
        used other (List.mem_cons_of_mem _ member)]
      rfl

theorem firstFit_zero {address : Nat} {block : HeapBlock} (member : block ∈ blocks)
    (free : block.free = true) :
    ∃ found after, firstFit 0 address blocks = some (found, after) := by
  induction blocks generalizing address with
  | nil => cases member
  | cons first rest ih =>
      rw [firstFit]
      by_cases here : first.free = true
      · exact ⟨_, _, if_pos (by rw [here]; rfl)⟩
      · have later : block ∈ rest := by
          rcases List.mem_cons.mp member with same | later
          · exact absurd (same ▸ free) here
          · exact later
        obtain ⟨found, after, fit⟩ := @ih (blockEnd address first) later
        rw [fit, Bool.eq_false_of_not_eq_true here]
        exact ⟨_, _, rfl⟩

theorem kmalloc_full (full : HeapFull storage mem) (size : UInt64) :
    kmalloc storage.address mem size = (0, mem) := by
  obtain ⟨blocks, tiled, used⟩ := full
  have apart : Separated blocks := by
    refine List.IsChain.imp (fun _ _ isUsed _ => isUsed)
      (?_ : blocks.IsChain fun _ next => next.free = false)
    exact (List.pairwise_of_forall_mem_list fun _ _ other member => used other member).isChain
  have start : linkTo storage.address blocks = storage.address := by
    cases blocks with
    | nil =>
        have ends : storage.address = storage.address + heapBytes := tiled
        have some : 0 < heapBytes := by decide
        omega
    | cons block rest => rfl
  rw [kmalloc]
  split
  next => rfl
  next =>
    have searched := @kmallocFrom_none storage mem 0 storage.address
      (roundRequest size.toNat) blocks heapMaxSteps tiled (Nat.le_refl _) apart (firstFit_used used)
    rwa [start] at searched

theorem roundRequest_wraps (large : maxRequest < size.toNat) : roundRequest size.toNat = 0 := by
  have bound := size.toNat_lt
  rw [maxRequest] at large
  rw [roundRequest, if_neg (by rw [heapMinSize]; omega)]
  omega

theorem kmalloc_wraps (heap : HeapInvariant storage mem blocks) (large : maxRequest < size.toNat)
    (free : ¬HeapFull storage mem) :
    (kmalloc storage.address mem size).1 ≠ 0 ∧
      payloadSize (kmalloc storage.address mem size).2 (kmalloc storage.address mem size).1 <
      size.toNat := by
  obtain ⟨block, member, isFree⟩ : ∃ block ∈ blocks, block.free = true := by
    by_contra none
    exact free ⟨blocks, heap.tiled, fun block member => Bool.eq_false_of_not_eq_true fun isFree =>
      none ⟨block, member, isFree⟩⟩
  obtain ⟨found, after, fit⟩ := @firstFit_zero blocks storage.address block member isFree
  have nonzero : size ≠ 0 := by
    rintro rfl
    exact absurd large (Nat.not_lt_zero _)
  have search : kmalloc storage.address mem size =
      kmallocFrom storage.address 0 heapMaxSteps mem (linkTo storage.address blocks) := by
    rw [kmalloc, if_neg nonzero, roundRequest_wraps large, heap.start]
  obtain ⟨pointer, tiled, _⟩ := kmallocFrom_some heap.tiled (Nat.le_refl _) heap.separated heap.few fit
  obtain ⟨granted, _, _, perm⟩ := firstFit_live fit
  rw [← search] at pointer tiled
  have live : ((kmalloc storage.address mem size).1, granted) ∈ livePayloads storage.address after := by
    rw [pointer]
    exact perm.mem_iff.mpr List.mem_cons_self
  obtain ⟨_, _, header⟩ := tiled.live_header live
  have inside := tiled.live_end live
  have lower := livePayloads_lower live
  refine ⟨by rw [pointer, headerSize]; omega, ?_⟩
  rw [payloadSize, header.size]
  simp only [HeapStorage.stop, heapBytes] at inside
  rw [maxRequest] at large
  change granted < size.toNat
  omega

theorem kmalloc_refused (heap : HeapInvariant storage mem blocks)
    (null : (kmalloc storage.address mem size).1 = 0) : kmalloc storage.address mem size =
    (0, mem) := by
  by_cases large : maxRequest < size.toNat
  · by_cases full : HeapFull storage mem
    · exact kmalloc_full full size
    · exact absurd null (kmalloc_wraps heap large full).1
  · rcases kmalloc_allocates heap (Nat.le_of_not_lt large) with failed | ⟨nonNull, _⟩
    · exact failed
    · exact absurd null (Nat.ne_of_gt nonNull)

theorem Allocates.payload {changed : Mem} {after : List HeapBlock} {ptr granted : Nat}
    (grants : Allocates storage mem changed blocks after ptr granted) :
    payloadSize changed ptr = granted := by
  obtain ⟨_, _, header⟩ := grants.heap.tiled.live_header grants.member
  exact header.size

theorem kcalloc_overflow {num size : UInt64} (wraps : 2 ^ 64 ≤ num.toNat * size.toNat) :
    kcalloc storage.address mem num size = (0, mem) := by
  rw [kcalloc]
  split
  next => rfl
  next nonzero =>
    have differs : num * size / num ≠ size := by
      intro same
      have quotient := congrArg UInt64.toNat same
      rw [UInt64.toNat_div, UInt64.toNat_mul] at quotient
      have positive : 0 < num.toNat := by
        refine Nat.pos_of_ne_zero fun zero => ?_
        rw [zero, Nat.zero_mul] at wraps
        omega
      have small : num.toNat * size.toNat % 2 ^ 64 < size.toNat * num.toNat := by
        have remainder := Nat.mod_lt (num.toNat * size.toNat) (Nat.two_pow_pos 64)
        have order := Nat.mul_comm num.toNat size.toNat
        omega
      have less := (Nat.div_lt_iff_lt_mul positive).mpr small
      omega
    exact if_pos differs

theorem kcalloc_full (full : HeapFull storage mem) (num size : UInt64) :
    kcalloc storage.address mem num size = (0, mem) := by
  rw [kcalloc]
  split
  next => rfl
  next =>
    dsimp only
    split
    next => rfl
    next =>
      rw [kmalloc_full full]
      rfl

theorem krealloc_full (heap : HeapInvariant storage mem blocks) (full : HeapFull storage mem)
    {ptr size : Nat}
    {request : UInt64} (live : (ptr, size) ∈ livePayloads storage.address blocks)
    (nonzero : request ≠ 0) : krealloc storage.address mem ptr request = (0, mem) ∨
      krealloc storage.address mem ptr request = (ptr, mem) ∧ request.toNat ≤ size := by
  obtain ⟨_, _, header⟩ := heap.tiled.live_header live
  obtain ⟨nonNull, back⟩ := heap.live_place live
  rw [krealloc, if_neg nonNull, if_neg nonzero]
  dsimp only
  rw [back, header.magic, if_neg (not_not.mpr rfl), header.size]
  split
  next enough => exact Or.inr ⟨rfl, enough⟩
  next =>
    rw [kmalloc_full full]
    exact Or.inl rfl

section

variable (intact : HeapIntact storage state blocks)
include intact

theorem heapCall_kmalloc (fits : RequestFits storage state (.kmalloc size))
    (stepped : heapCall storage.address state (.kmalloc size) = some next) :
    StepEffect storage state next blocks 0 := by
  rcases fits with small | full
  · refine step_kmalloc intact (?_ : heapStep storage.address state (.kmalloc size) = some next)
    rw [heapStep, if_pos small]
    exact stepped
  · rw [heapCall, kmalloc_full full] at stepped
    cases stepped
    exact intact.unchanged 0

theorem heapCall_kcalloc {num size : UInt64} (fits : RequestFits storage state (.kcalloc num size))
    (stepped : heapCall storage.address state (.kcalloc num size) = some next) :
    StepEffect storage state next blocks 0 := by
  rcases fits with (small | full) | wraps
  · refine step_kcalloc intact (?_ : heapStep storage.address state (.kcalloc num size) = some next)
    rw [heapStep, if_pos small]
    exact stepped
  · rw [heapCall, kcalloc_full full] at stepped
    cases stepped
    exact intact.unchanged 0
  · rw [heapCall, kcalloc_overflow wraps] at stepped
    cases stepped
    exact intact.unchanged 0

theorem heapCall_krealloc {ptr : Nat} (fits : RequestFits storage state (.krealloc ptr size))
    (stepped : heapCall storage.address state (.krealloc ptr size) = some next) :
    StepEffect storage state next blocks ptr := by
  rw [heapCall] at stepped
  split at stepped
  next allowed =>
    by_cases small : size.toNat ≤ maxRequest
    · refine step_krealloc intact (?_ : heapStep storage.address state (.krealloc ptr size) = some next)
      rw [heapStep, if_pos (by rw [allowed, Bool.true_and, decide_eq_true_eq]; exact small)]
      exact stepped
    · have full := fits.resolve_left small
      have nonzero : size ≠ 0 := by
        rintro rfl
        exact small (Nat.zero_le _)
      dsimp only at stepped
      rw [if_neg nonzero] at stepped
      by_cases null : ptr = 0
      · subst null
        rw [krealloc_null, kmalloc_full full] at stepped
        cases stepped
        exact intact.unchanged 0
      · have held : ptr ∈ state.live := by simpa [null] using allowed
        obtain ⟨amount, live⟩ := intact.mem_live held
        rcases krealloc_full intact.heap full live nonzero with failed | ⟨kept, _⟩
        · rw [failed] at stepped
          cases stepped
          exact intact.unchanged ptr
        · rw [kept] at stepped
          dsimp only at stepped
          rw [if_neg null] at stepped
          cases stepped
          exact ⟨blocks, ⟨intact.heap, (List.perm_cons_erase held).symm.trans intact.live⟩, OthersKept.refl⟩
  next => cases stepped

theorem heapCall_effect {call : HeapCall}
    (fits : RequestFits storage state call)
    (stepped : heapCall storage.address state call = some next) :
    StepEffect storage state next blocks call.target := by
  cases call with
  | kmalloc size => exact heapCall_kmalloc intact fits stepped
  | kcalloc num size => exact heapCall_kcalloc intact fits stepped
  | krealloc ptr size => exact heapCall_krealloc intact fits stepped
  | kfree ptr => exact step_kfree intact stepped
  | write ptr offset value => exact step_write intact stepped

end

def Granted (result : Nat × Mem) (bytes : Nat) : Prop := result.1 ≠ 0 →
    bytes ≤ payloadSize result.2 result.1

theorem kmalloc_granted (heap : HeapInvariant storage mem blocks) (size : UInt64) :
    Granted (kmalloc storage.address mem size) size.toNat ↔ SizeFits storage mem size.toNat := by
  constructor
  · intro granted
    rw [SizeFits, or_iff_not_imp_left, Nat.not_le]
    intro large
    by_contra free
    obtain ⟨nonNull, less⟩ := kmalloc_wraps heap large free
    exact absurd (granted nonNull) (Nat.not_le.mpr less)
  · rintro (small | full) nonNull
    · rcases kmalloc_allocates heap small with failed | ⟨_, after, granted, large, grants⟩
      · rw [failed] at nonNull
        exact absurd rfl nonNull
      · rwa [grants.payload]
    · rw [kmalloc_full full] at nonNull
      exact absurd rfl nonNull

theorem kcalloc_granted (heap : HeapInvariant storage mem blocks) {num size : UInt64}
    (fits : SizeFits storage mem (num.toNat * size.toNat) ∨ 2 ^ 64 ≤ num.toNat * size.toNat) :
    Granted (kcalloc storage.address mem num size) (num.toNat * size.toNat) ∧
      ((kcalloc storage.address mem num size).1 ≠ 0 → ∀ index < num.toNat * size.toNat,
        (kcalloc storage.address mem num size).2 ((kcalloc storage.address mem num size).1 + index) = 0) := by
  have null : ∀ result : Nat × Mem, result = (0, mem) → Granted result (num.toNat * size.toNat) ∧
      (result.1 ≠ 0 → ∀ index < num.toNat * size.toNat, result.2 (result.1 + index) = 0) := by
    rintro _ rfl
    exact ⟨fun nonNull => absurd rfl nonNull, fun nonNull => absurd rfl nonNull⟩
  rcases fits with (small | full) | wraps
  · rcases kcalloc_allocates heap small with failed | ⟨_, after, granted, large, grants, zeros⟩
    · exact null _ failed
    · refine ⟨fun _ => ?_, fun _ => zeros⟩
      rwa [grants.payload]
  · exact null _ (kcalloc_full full num size)
  · exact null _ (kcalloc_overflow wraps)

theorem krealloc_granted (intact : HeapIntact storage state blocks) {ptr : Nat}
    (held : ptr = 0 ∨ ptr ∈ state.live) (fits : SizeFits storage state.mem size.toNat) :
    Granted (krealloc storage.address state.mem ptr size) size.toNat := by
  by_cases null : ptr = 0
  · subst null
    rw [krealloc_null]
    exact (kmalloc_granted intact.heap size).mpr fits
  · by_cases zero : size = 0
    · subst zero
      exact fun _ => Nat.zero_le _
    · obtain ⟨amount, live⟩ := intact.mem_live (held.resolve_left null)
      obtain ⟨_, _, header⟩ := intact.heap.tiled.live_header live
      have same : payloadSize state.mem ptr = amount := header.size
      intro nonNull
      rcases fits with small | full
      · rcases krealloc_live intact.heap live small zero with
          failed | ⟨kept, enough⟩ | ⟨_, between, middle, after, granted, large, grants, releases⟩
        · rw [failed] at nonNull
          exact absurd rfl nonNull
        · rwa [kept, same]
        · obtain ⟨stays, _⟩ := releases.kept _ _ grants.member (grants.fresh live).symm
          obtain ⟨_, _, moved⟩ := releases.heap.tiled.live_header stays
          rw [payloadSize, moved.size]
          exact large
      · rcases krealloc_full intact.heap full live zero with failed | ⟨kept, enough⟩
        · rw [failed] at nonNull
          exact absurd rfl nonNull
        · rwa [kept, same]

/-- In every heap that calls lead to of which each fits: a call of `kmalloc` grants what it was
asked for exactly when the request fits; `kcalloc` and `krealloc` grant it when it fits, and the
payload of `kcalloc` is zero. -/
theorem heap_requests_granted (storage : HeapStorage) (mem : Mem) (calls : List HeapCall)
    (state : HeapState)
    (reached : runActions (heapCall storage.address) (heapStart storage.address mem) calls = some state)
    (fits : RunMeets (heapCall storage.address) (RequestFits storage)
      (heapStart storage.address mem) calls) :
    (∀ size, Granted (kmalloc storage.address state.mem size) size.toNat ↔
      RequestFits storage state (.kmalloc size)) ∧
    (∀ num size, RequestFits storage state (.kcalloc num size) →
      Granted (kcalloc storage.address state.mem num size) (num.toNat * size.toNat) ∧
      ((kcalloc storage.address state.mem num size).1 ≠ 0 → ∀ index < num.toNat * size.toNat,
        (kcalloc storage.address state.mem num size).2
          ((kcalloc storage.address state.mem num size).1 + index) = 0)) ∧
    ∀ ptr size, ptr = 0 ∨ ptr ∈ state.live → RequestFits storage state (.krealloc ptr size) →
      Granted (krealloc storage.address state.mem ptr size) size.toNat := by
  obtain ⟨blocks, intact⟩ : ∃ blocks, HeapIntact storage state blocks := by
    refine @runActions_guarded _ _ _ _ (fun state => ∃ blocks, HeapIntact storage state blocks) ?_
      _ _ _ ⟨_, heapStart_intact storage mem⟩ fits reached
    rintro before call after ⟨blocks, intact⟩ fits stepped
    obtain ⟨later, kept, _⟩ := heapCall_effect intact fits stepped
    exact ⟨later, kept⟩
  exact ⟨fun size => kmalloc_granted intact.heap size, fun num size fits =>
    kcalloc_granted intact.heap fits, fun ptr size held fits => krealloc_granted intact held fits⟩

end Requests

theorem heap_requests_granted_twoBlocks : ∃ state,
    runActions (heapCall lowStorage.address) (heapStart lowStorage.address fun _ => 0)
      [.kmalloc 24, .kcalloc 0x100000000 0x100000000] = some state ∧
    Granted (krealloc lowStorage.address state.mem 0x100028 100) 100 := by
  have runs : (runActions (heapCall lowStorage.address) (heapStart lowStorage.address fun _ => 0)
      [.kmalloc 24, .kcalloc 0x100000000 0x100000000]).map HeapState.live = some [0x100028] := by
      decide +kernel
  obtain ⟨state, reached, live⟩ := Option.map_eq_some_iff.mp runs
  refine ⟨state, reached, ?_⟩
  have fits : RunMeets (heapCall lowStorage.address) (RequestFits lowStorage)
      (heapStart lowStorage.address fun _ => 0) [.kmalloc 24, .kcalloc 0x100000000 0x100000000] :=
    ⟨Or.inl (by decide), fun _ _ => ⟨Or.inr (by decide), fun _ _ => trivial⟩⟩
  refine (heap_requests_granted lowStorage (fun _ => 0) _ state reached fits).2.2 0x100028 100
    (Or.inr ?_) (Or.inl (by decide))
  rw [live]
  exact List.mem_cons_self

theorem largestRequest_unmet :
    ¬ ∀ (storage : HeapStorage) (mem : Mem) (calls : List HeapCall) (state : HeapState)
    (size : UInt64), runActions (heapCall storage.address) (heapStart storage.address mem) calls =
      some state → Granted (kmalloc storage.address state.mem size) size.toNat := by
  intro every
  have granted := every lowStorage (fun _ => 0) [] _ 0xFFFFFFFFFFFFFFFF rfl
  have outcome : (kmalloc lowStorage.address (heapStart lowStorage.address fun _ => 0).mem
    0xFFFFFFFFFFFFFFFF).1 ≠ 0 ∧
      payloadSize (kmalloc lowStorage.address (heapStart lowStorage.address fun _ => 0).mem
        0xFFFFFFFFFFFFFFFF).2
        (kmalloc lowStorage.address (heapStart lowStorage.address fun _ => 0).mem
        0xFFFFFFFFFFFFFFFF).1 = 0 := by
    decide +kernel
  have enough := granted outcome.1
  rw [outcome.2] at enough
  exact absurd enough (by decide)

end Szczupak
