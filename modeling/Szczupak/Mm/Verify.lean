import Szczupak.Mm.PageWalk

/-!
The verify calls look at every page of a range before anything is copied, the copy calls at each
page before its bytes.  They agree as long as no copied byte lies in a table of the range.  The
kernel's buffers are in the same memory as the tables here.
-/

namespace Szczupak

/-- A kernel pointer, and where its bytes are in the memory of the frames. -/
structure KernelBuffer where
  pointer : UInt64
  phys : Nat → Nat

def readByteInto (buffer : KernelBuffer) (tables : Mem) (addr done base : Nat) (state : UserState)
    (index : Nat) : UserState :=
  { state with
    ram := state.ram.set (buffer.phys (done + index)) (state.ram (base + index))
    touched := state.touched ++ [⟨addr + (done + index), base + index, tables⟩] }

/-- `copy_from_user` where the kernel buffer may lie in any frame. -/
def copyFromUserInto (start : UserState) (dir : Option Nat) (buffer : KernelBuffer)
    (src size : UInt64) : Int × UserState :=
  guardedCall (buffer.pointer = 0 ∨ src = 0 ∨ size = 0) src.toNat size.toNat start dir fun root =>
    userPages src.toNat size.toNat (locateFromUser root)
      (fun base done chunk state => (List.range chunk).foldl
        (readByteInto buffer state.ram src.toNat done base) state)
      size.toNat 0 start

def writeByteFrom (buffer : KernelBuffer) (tables : Mem) (addr done base : Nat) (state : UserState)
    (index : Nat) : UserState :=
  { state with
    ram := state.ram.set (base + index) (state.ram (buffer.phys (done + index)))
    touched := state.touched ++ [⟨addr + (done + index), base + index, tables⟩] }

def copyToUserFrom (start : UserState) (dir : Option Nat) (dst : UInt64) (buffer : KernelBuffer)
    (size : UInt64) : Int × UserState :=
  guardedCall (dst = 0 ∨ buffer.pointer = 0 ∨ size = 0) dst.toNat size.toNat start dir fun root =>
    userPages dst.toNat size.toNat (locateToUser root)
      (fun base done chunk state => (List.range chunk).foldl
        (writeByteFrom buffer state.ram dst.toNat done base) state)
      size.toNat 0 start

def RangeAllows (ram : Mem) (root addr size : Nat) (write : Bool) : Prop :=
  ∀ offset < size, checkPagePermissions ram root (addr + offset) write = true

section Pages

variable {ram changed : Mem} {root virt : Nat} {write : Bool}

theorem checkPagePermissions_page {other : Nat} (same : alignDown other = alignDown virt) :
    checkPagePermissions ram root other write = checkPagePermissions ram root virt write := by
  have otherIndices := @same_indices other 0 (by omega)
  have indices := @same_indices virt 0 (by omega)
  simp only [Nat.add_zero] at indices otherIndices
  simp only [checkPagePermissions, indices, otherIndices, same]

theorem verifyPages_allows {endPage turns page : Nat} (aligned : page % pageSize = 0)
    (enough : endPage < page + turns * pageSize) :
    verifyPages ram root endPage write turns page = 0 ↔
      ∀ address, page ≤ address → alignDown address ≤ endPage →
        checkPagePermissions ram root address write = true := by
  induction turns generalizing page with
  | zero =>
      rw [verifyPages]
      refine iff_of_true rfl fun address lower upper => ?_
      simp only [alignDown, pageSize] at aligned upper enough
      omega
  | succ turns ih =>
      rw [verifyPages]
      by_cases more : page ≤ endPage
      · rw [if_pos more]
        cases checked : checkPagePermissions ram root page write with
        | false =>
            refine iff_of_false (by simp [efault]) fun every => ?_
            have here := every page (Nat.le_refl _) (by rwa [alignDown_of_aligned aligned])
            rw [checked] at here
            cases here
        | true =>
            simp only [Bool.not_true, Bool.false_eq_true, if_false]
            have step : (page + pageSize) % pageSize = 0 := by rw [Nat.add_mod_right, aligned]
            rw [ih step (by rw [Nat.succ_mul] at enough; omega)]
            constructor
            · intro later address lower upper
              by_cases here : alignDown address = page
              · rw [← checked]
                exact checkPagePermissions_page (here.trans (alignDown_of_aligned aligned).symm)
              · refine later address ?_ upper
                simp only [alignDown, pageSize] at aligned here ⊢
                omega
            · intro every address lower upper
              exact every address (by omega) upper
      · rw [if_neg more]
        refine iff_of_true rfl fun address lower upper => ?_
        simp only [alignDown, pageSize] at aligned upper
        omega

theorem verifyUser_allows {dir : Option Nat} {ptr size : UInt64} :
    verifyUser write ram dir ptr size = 0 ↔
      (ptr ≠ 0 ∧ size ≠ 0) ∧ validateUserRange ptr.toNat size.toNat = 0 ∧
        ∃ root, dir = some root ∧ RangeAllows ram root ptr.toNat size.toNat write := by
  unfold verifyUser
  by_cases empty : ptr = 0 ∨ size = 0
  · rw [if_pos empty]
    exact iff_of_false (by simp [einval]) fun holds => (not_or.mpr holds.1) empty
  rw [if_neg empty]
  dsimp only
  by_cases valid : validateUserRange ptr.toNat size.toNat = 0
  · rw [if_neg (not_not.mpr valid)]
    cases dir with
    | none => exact iff_of_false (by simp [efault]) fun holds => by simp at holds
    | some root =>
        have positive : 0 < size.toNat := by
          refine Nat.pos_of_ne_zero fun zero => empty (Or.inr ?_)
          exact UInt64.toNat_inj.mp zero
        have enough : alignDown (ptr.toNat + size.toNat - 1) < alignDown ptr.toNat +
            ((alignDown (ptr.toNat + size.toNat - 1) - alignDown ptr.toNat) / pageSize + 1) * pageSize := by
          simp only [alignDown, pageSize]
          omega
        rw [verifyPages_allows (alignDown_aligned _) enough]
        have pages : (∀ address, alignDown ptr.toNat ≤ address →
            alignDown address ≤ alignDown (ptr.toNat + size.toNat - 1) →
            checkPagePermissions ram root address write = true) ↔
            RangeAllows ram root ptr.toNat size.toNat write := by
          constructor
          · intro every offset bound
            refine every (ptr.toNat + offset) ?_ ?_
            · exact Nat.le_trans (alignDown_le _) (Nat.le_add_right _ _)
            · simp only [alignDown, pageSize]
              omega
          · intro every address lower upper
            by_cases early : address < ptr.toNat
            · have same : alignDown address = alignDown (ptr.toNat + 0) := by
                simp only [alignDown, pageSize] at lower ⊢
                omega
              rw [checkPagePermissions_page same]
              exact every 0 positive
            · by_cases inside : address < ptr.toNat + size.toNat
              · have here := every (address - ptr.toNat) (by omega)
                rwa [Nat.add_sub_cancel' (by omega)] at here
              · have same : alignDown address = alignDown (ptr.toNat + (size.toNat - 1)) := by
                  rw [← Nat.add_sub_assoc positive]
                  simp only [alignDown, pageSize] at upper ⊢
                  omega
                rw [checkPagePermissions_page same]
                exact every (size.toNat - 1) (by omega)
        rw [pages]
        constructor
        · intro every
          exact ⟨not_or.mp empty, valid, root, rfl, every⟩
        · rintro ⟨_, _, other, same, every⟩
          cases same
          exact every
  · rw [if_pos valid]
    exact iff_of_false valid fun holds => valid holds.2.1

end Pages

def FramesNonzero (ram : Mem) (root : Nat) : Prop :=
  ∀ write virt phys, UserByte ram root write virt phys → alignDown phys ≠ 0

/-- The byte at `phys` lies in no table that a translation of the range reads. -/
def OutsideTables (ram : Mem) (root addr size phys : Nat) : Prop :=
  ∀ other < size, ∀ entry ∈ walkEntries ram root (addr + other), entry.1 ≠ alignDown phys

def TablesApart (ram : Mem) (root addr size : Nat) : Prop :=
  ∀ offset < size, ∀ phys, UserByte ram root true (addr + offset) phys →
    OutsideTables ram root addr size phys

def KernelBuffer.Apart (buffer : KernelBuffer) (ram : Mem) (root addr size : Nat) : Prop :=
  ∀ offset < size, OutsideTables ram root addr size (buffer.phys offset)

section Loop

variable {addr size : Nat} {locate : Mem → Nat → Option Nat}
  {body : Nat → Nat → Nat → UserState → UserState} {kept : Mem → Prop} {allows : Nat → Prop}

/-- The page loop succeeds exactly where every byte may be accessed, when the turns before a page
leave that as it was. -/
theorem userPages_allows
    (pages : ∀ address other, alignDown address = alignDown other → (allows address ↔ allows other))
    (located : ∀ ram address, kept ram → addr ≤ address → address < addr + size →
      ((locate ram address).isSome ↔ allows address))
    (keeps : ∀ done chunk base state, done + chunk ≤ size → (addr + done) % 4096 + chunk ≤ 4096 →
      kept state.ram → locate state.ram (addr + done) = some base → kept (body base done chunk state).ram)
    {fuel done : Nat} {state : UserState} (enough : size - done ≤ fuel) (initial : kept state.ram) :
    (userPages addr size locate body fuel done state).1 = 0 ↔
      ∀ offset, done ≤ offset → offset < size → allows (addr + offset) := by
  induction fuel generalizing done state with
  | zero =>
      rw [userPages]
      exact iff_of_true rfl fun offset lower upper => by omega
  | succ fuel ih =>
      rw [userPages]
      by_cases more : done < size
      · rw [if_pos more]
        have here := located state.ram (addr + done) initial (by omega) (by omega)
        cases found : locate state.ram (addr + done) with
        | none =>
            rw [found] at here
            refine iff_of_false (by simp [efault]) fun every => ?_
            exact absurd (here.mpr (every done (Nat.le_refl _) more)) (by simp)
        | some base =>
            rw [found] at here
            have allowed := here.mp rfl
            dsimp only
            generalize chunkEq : (if pageSize - (addr + done) % pageSize > size - done then
              size - done else pageSize - (addr + done) % pageSize) = chunk
            have bounds := chunk_bounds more chunkEq
            rw [ih (by omega) (keeps done chunk base state bounds.2.1 bounds.2.2 initial found)]
            constructor
            · intro later offset lower upper
              by_cases inChunk : offset < done + chunk
              · refine (pages _ _ ?_).mpr allowed
                simp only [alignDown, pageSize]
                omega
              · exact later offset (by omega) upper
            · intro every offset lower upper
              exact every offset (by omega) upper
      · rw [if_neg more]
        exact iff_of_true rfl fun offset lower upper => by omega

end Loop

section Copies

variable {ram changed : Mem} {root addr size virt : Nat} {write : Bool}

theorem checked_mapped (nonzero : FramesNonzero ram root) (small : virt < 2 ^ 64)
    (checked : checkPagePermissions ram root virt write = true) :
    vmmGetPhysical ram root (UInt64.ofNat virt) ≠ 0 := by
  have byte := checked_byte checked small (show virt % 4096 + 0 < 4096 by omega)
  intro zero
  rw [zero] at byte
  refine nonzero write _ _ byte ?_
  simp only [alignDown, pageSize]
  omega

theorem locateFromUser_isSome (nonzero : FramesNonzero ram root) (small : virt < 2 ^ 64) :
    (locateFromUser root ram virt).isSome ↔ checkPagePermissions ram root virt false = true := by
  rw [locateFromUser]
  cases checked : checkPagePermissions ram root virt false with
  | false => simp
  | true => simp [checked_mapped nonzero small checked]

theorem locateToUser_isSome (nonzero : FramesNonzero ram root) (small : virt < 2 ^ 64) :
    (locateToUser root ram virt).isSome ↔ checkPagePermissions ram root virt true = true := by
  rw [locateToUser]
  cases checked : checkPagePermissions ram root virt true with
  | false => by_cases mapped : vmmGetPhysical ram root (UInt64.ofNat virt) = 0 <;> simp [mapped]
  | true => simp [checked_mapped nonzero small checked]

theorem lookup_sameWalk (small : virt < 2 ^ 64) (same : SameWalk ram changed root virt) :
    vmmGetPhysical changed root (UInt64.ofNat virt) = vmmGetPhysical ram root (UInt64.ofNat virt) := by
  have whole : (UInt64.ofNat virt).toNat = virt := UInt64.toNat_ofNat_of_lt' small
  exact vmmGetPhysical_sameWalk (by rwa [whole])

theorem locateFromUser_sameWalk (small : virt < 2 ^ 64) (same : SameWalk ram changed root virt) :
    locateFromUser root changed virt = locateFromUser root ram virt := by
  rw [locateFromUser, locateFromUser, lookup_sameWalk small same, checkPagePermissions_sameWalk same]

theorem locateToUser_sameWalk (small : virt < 2 ^ 64) (same : SameWalk ram changed root virt) :
    locateToUser root changed virt = locateToUser root ram virt := by
  rw [locateToUser, locateToUser, lookup_sameWalk small same, checkPagePermissions_sameWalk same]

theorem checked_aligned (checked : checkPagePermissions ram root virt write = true) :
    root % pageSize = 0 := by
  by_contra unaligned
  have unmapped : pml4Mapped root = false := by
    simp only [pml4Mapped, Bool.and_eq_false_iff, decide_eq_false_iff_not]
    exact Or.inl unaligned
  simp [checkPagePermissions, unmapped] at checked

theorem fromLocated_aligned {base : Nat} (located : locateFromUser root ram virt = some base) :
    root % pageSize = 0 := by
  refine @checked_aligned ram root virt false ?_
  cases checked : checkPagePermissions ram root virt false with
  | true => rfl
  | false => simp [locateFromUser, checked] at located

theorem toLocated_aligned {base : Nat} (located : locateToUser root ram virt = some base) :
    root % pageSize = 0 := by
  refine @checked_aligned ram root virt true ?_
  cases checked : checkPagePermissions ram root virt true with
  | true => rfl
  | false => simp [locateToUser, checked] at located

theorem SameWalk.store {middle : Mem} {base chunk : Nat} (same : SameWalk ram middle root virt)
    (aligned : root % pageSize = 0) (inPage : base % 4096 + chunk ≤ 4096)
    (outside : ∀ address, address < base ∨ base + chunk ≤ address → changed address =
    middle address) (apart : ∀ entry ∈ walkEntries ram root virt, entry.1 ≠ alignDown base) :
    SameWalk ram changed root virt := by
  intro entry member
  have valid := walkEntries_valid aligned entry member
  have other := apart entry member
  rw [← same entry member]
  apply Mem.readU64_congr
  intro offset bound
  refine outside _ ?_
  simp only [pageSize, alignDown] at valid other
  omega

variable {buffer : KernelBuffer}

theorem writeBytes_outside {tables : Mem} {done base chunk : Nat}
    {state : UserState} {address : Nat} (outside : address < base ∨ base + chunk ≤ address) :
    ((List.range chunk).foldl (writeByteFrom buffer tables addr done base) state).ram address =
      state.ram address := by
  refine @foldl_range_invariant _ _
    (fun _ (after : UserState) => after.ram address = state.ram address) chunk state ?_ rfl
  intro index before bound same
  rw [← same]
  exact Mem.set_other _ _ (by omega)

theorem readBytes_sameWalk {tables : Mem} {done base chunk : Nat}
    {state : UserState} (aligned : root % pageSize = 0) (same : SameWalk ram state.ram root virt)
    (apart : ∀ index < chunk, ∀ entry ∈ walkEntries ram root virt,
      entry.1 ≠ alignDown (buffer.phys (done + index))) :
    SameWalk ram ((List.range chunk).foldl (readByteInto buffer tables addr done base) state).ram
      root virt := by
  refine @foldl_range_invariant _ _ (fun _ (after : UserState) => SameWalk ram after.ram root virt)
    chunk state ?_ same
  intro index before bound kept
  refine @SameWalk.store _ _ _ _ _ (buffer.phys (done + index)) 1 kept aligned (by omega) ?_
    (apart index bound)
  intro address outside
  exact Mem.set_other _ _ (by omega)

end Copies

section Calls

variable {start : UserState} {dir : Option Nat}

theorem guardedCall_allows {null : Prop} [Decidable null] {addr size : Nat}
    {loop : Nat → Int × UserState}
    (write : Bool) (looped : ∀ root, dir = some root → addr + size ≤ userSpaceEnd → ((loop root).1 = 0 ↔
      ∀ offset, 0 ≤ offset → offset < size →
      checkPagePermissions start.ram root (addr + offset) write = true)) :
    (guardedCall null addr size start dir loop).1 = 0 ↔ ¬null ∧ validateUserRange addr size = 0 ∧
      ∃ root, dir = some root ∧ RangeAllows start.ram root addr size write := by
  rw [guardedCall_success]
  refine and_congr_right fun _ => and_congr_right fun valid => exists_congr fun root =>
    and_congr_right fun same => ?_
  rw [looped root same (validateUserRange_ok valid).2]
  constructor
  · intro every offset bound
    exact every offset (Nat.zero_le _) bound
  · intro every offset _ bound
    exact every offset bound

theorem copyFromUserInto_allows {src size : UInt64}
    (given : buffer.pointer ≠ 0) (nonzero : ∀ root, dir = some root → FramesNonzero start.ram root)
    (apart : ∀ root, dir = some root → buffer.Apart start.ram root src.toNat size.toNat) :
    (copyFromUserInto start dir buffer src size).1 = 0 ↔
      (src ≠ 0 ∧ size ≠ 0) ∧ validateUserRange src.toNat size.toNat = 0 ∧
        ∃ root, dir = some root ∧ RangeAllows start.ram root src.toNat size.toNat false := by
  have small : userSpaceEnd < 2 ^ 64 := by decide
  rw [copyFromUserInto, guardedCall_allows false]
  · simp only [given, false_or, not_or, ne_eq]
  · intro root same bounds
    exact @userPages_allows src.toNat size.toNat (locateFromUser root)
      (fun base done chunk state => (List.range chunk).foldl
        (readByteInto buffer state.ram src.toNat done base) state)
      (fun ram => ∀ other < size.toNat, SameWalk start.ram ram root (src.toNat + other))
      (fun address => checkPagePermissions start.ram root address false = true)
      (fun address other same => by rw [checkPagePermissions_page same])
      (fun ram address kept lower upper => by
        have walk := kept (address - src.toNat) (by omega)
        rw [Nat.add_sub_cancel' lower] at walk
        rw [locateFromUser_sameWalk (by omega) walk]
        exact locateFromUser_isSome (nonzero root same) (by omega))
      (fun done chunk base state within inPage kept located other bound =>
        readBytes_sameWalk (fromLocated_aligned located) (kept other bound)
          fun index inChunk => apart root same (done + index) (by omega) other bound)
      size.toNat 0 start (Nat.le_refl _) (fun _ _ _ _ => rfl)

theorem writeBytes_sameWalk {root addr size done chunk base : Nat}
    {state : UserState} (small : addr + size < 2 ^ 64)
    (apart : TablesApart start.ram root addr size) (within : done + chunk ≤ size)
    (inPage : (addr + done) % 4096 + chunk ≤ 4096)
    (kept : ∀ other < size, SameWalk start.ram state.ram root (addr + other))
    (located : locateToUser root state.ram (addr + done) = some base) :
    ∀ other < size, SameWalk start.ram ((List.range chunk).foldl
      (writeByteFrom buffer state.ram addr done base) state).ram root (addr + other) := by
  intro other bound
  rcases Nat.eq_zero_or_pos chunk with none | some
  · subst none
    exact kept other bound
  rw [locateToUser_sameWalk (by omega) (kept done (by omega))] at located
  have byte := locateToUser_page root start.ram _ base 0 (by omega) located (by omega)
  have offset : base % 4096 = (addr + done) % 4096 := by
    simp only [locateToUser] at located
    split at located
    · cases located
    · split at located
      · cases located
      · cases located
        simp only [alignDown, pageSize]
        omega
  exact (kept other bound).store (toLocated_aligned located) (by omega)
    (fun address outside => writeBytes_outside outside)
    (apart done (by omega) base byte other bound)

theorem copyToUserFrom_allows {dst size : UInt64}
    (given : buffer.pointer ≠ 0) (nonzero : ∀ root, dir = some root → FramesNonzero start.ram root)
    (apart : ∀ root, dir = some root → TablesApart start.ram root dst.toNat size.toNat) :
    (copyToUserFrom start dir dst buffer size).1 = 0 ↔
      (dst ≠ 0 ∧ size ≠ 0) ∧ validateUserRange dst.toNat size.toNat = 0 ∧
        ∃ root, dir = some root ∧ RangeAllows start.ram root dst.toNat size.toNat true := by
  have small : userSpaceEnd < 2 ^ 64 := by decide
  rw [copyToUserFrom, guardedCall_allows true]
  · simp only [given, false_or, not_or, ne_eq]
  · intro root same bounds
    exact @userPages_allows dst.toNat size.toNat (locateToUser root)
      (fun base done chunk state => (List.range chunk).foldl
        (writeByteFrom buffer state.ram dst.toNat done base) state)
      (fun ram => ∀ other < size.toNat, SameWalk start.ram ram root (dst.toNat + other))
      (fun address => checkPagePermissions start.ram root address true = true)
      (fun address other same => by rw [checkPagePermissions_page same])
      (fun ram address kept lower upper => by
        have walk := kept (address - dst.toNat) (by omega)
        rw [Nat.add_sub_cancel' lower] at walk
        rw [locateToUser_sameWalk (by omega) walk]
        exact locateToUser_isSome (nonzero root same) (by omega))
      (fun done chunk base state within inPage kept located =>
        writeBytes_sameWalk (by omega) (apart root same) within inPage kept located)
      size.toNat 0 start (Nat.le_refl _) (fun _ _ _ _ => rfl)

end Calls

/-- A verified range is a range that the copy calls accept, where the copied bytes leave the tables
of the range alone. -/
theorem verify_agrees_with_copy (start : UserState) (dir : Option Nat) (buffer : KernelBuffer)
    (given : buffer.pointer ≠ 0)
    (nonzero : ∀ root, dir = some root → FramesNonzero start.ram root) (ptr size : UInt64) :
    ((∀ root, dir = some root → buffer.Apart start.ram root ptr.toNat size.toNat) →
      (verifyUserRead start.ram dir ptr size = 0 ↔
        (copyFromUserInto start dir buffer ptr size).1 = 0)) ∧
    ((∀ root, dir = some root → TablesApart start.ram root ptr.toNat size.toNat) →
      (verifyUserWrite start.ram dir ptr size = 0 ↔
        (copyToUserFrom start dir ptr buffer size).1 = 0)) := by
  refine ⟨fun apart => ?_, fun apart => ?_⟩
  · rw [verifyUserRead, verifyUser_allows, copyFromUserInto_allows given nonzero apart]
  · rw [verifyUserWrite, verifyUser_allows, copyToUserFrom_allows given nonzero apart]

/-- The last two pages below 0x8000200000 are user pages; the first of them is the last-level table
itself. -/
def selfMapped : Mem :=
  let first := setEntry (setEntry (fun _ => 0) 0x1000 1 0x2007) 0x2000 0 0x3007
  setEntry (setEntry (setEntry first 0x3000 0 0x4007) 0x4000 510 0x4007) 0x4000 511 0x5007

theorem selfMapped_entry {table index : Nat} (aligned : table % pageSize = 0)
    (bound : index < 512) : entryAt selfMapped table index =
      if table = 0x4000 ∧ index = 511 then 0x5007 else if table = 0x4000 ∧ index = 510 then 0x4007
      else if table = 0x3000 ∧ index = 0 then 0x4007 else if table = 0x2000 ∧ index = 0 then 0x3007
      else if table = 0x1000 ∧ index = 1 then 0x2007 else 0 := by
  have blank : entryAt (fun _ => 0) table index = 0 := Mem.readLE_zero fun _ _ => rfl
  rw [selfMapped, entryAt_setEntry (by decide) aligned (by decide) bound,
    entryAt_setEntry (by decide) aligned (by decide) bound,
    entryAt_setEntry (by decide) aligned (by decide) bound,
    entryAt_setEntry (by decide) aligned (by decide) bound,
    entryAt_setEntry (by decide) aligned (by decide) bound, blank]
  norm_num

def OnlyEntry (ram : Mem) (table value : Nat) : Prop :=
  ∀ write, ∀ index < 512, entryAllows (entryAt ram table index) write = true →
    entryAt ram table index = value

theorem selfMapped_only {table value position : Nat}
    (only : ∀ index < 512, index ≠ position → entryAt selfMapped table index = 0)
    (here : entryAt selfMapped table position = value) : OnlyEntry selfMapped table value := by
  intro write index bound allows
  by_cases same : index = position
  · rw [same, here]
  · rw [only index bound same] at allows
    simp [entryAllows] at allows

theorem UserByte.leaf {ram : Mem} {virt phys : Nat} (top : OnlyEntry ram 0x1000 0x2007)
    (second : OnlyEntry ram 0x2000 0x3007) (third : OnlyEntry ram 0x3000 0x4007)
    (byte : UserByte ram 0x1000 write virt phys) :
    entryAllows (entryAt ram 0x4000 (ptIndex virt)) write = true ∧
      alignDown phys = alignDown (entryAt ram 0x4000 (ptIndex virt)) := by
  have toPdp : alignDown 0x2007 = 0x2000 := by decide
  have toPd : alignDown 0x3007 = 0x3000 := by decide
  have toPt : alignDown 0x4007 = 0x4000 := by decide
  have below : ∀ pml4Entry, pml4Entry = entryAt ram 0x1000 (pml4Index virt) →
      entryAllows pml4Entry write = true → alignDown pml4Entry = 0x2000 := by
    intro pml4Entry first allows
    rw [first] at allows ⊢
    rw [top write (pml4Index virt) (Nat.mod_lt _ (by decide)) allows, toPdp]
  have middle : ∀ pdpEntry, pdpEntry = entryAt ram 0x2000 (pdpIndex virt) →
      entryAllows pdpEntry write = true → pdpEntry = 0x3007 := by
    intro pdpEntry next allows
    rw [next] at allows ⊢
    exact second write _ (Nat.mod_lt _ (by decide)) allows
  have last : ∀ pdEntry, pdEntry = entryAt ram 0x3000 (pdIndex virt) →
      entryAllows pdEntry write = true → pdEntry = 0x4007 := by
    intro pdEntry next allows
    rw [next] at allows ⊢
    exact third write _ (Nat.mod_lt _ (by decide)) allows
  cases byte with
  | giant first next firstAllows nextAllows huge =>
      rw [below _ first firstAllows] at next
      rw [middle _ next nextAllows] at huge
      exact absurd huge (by decide)
  | large first next final firstAllows nextAllows finalAllows small huge =>
      rw [below _ first firstAllows] at next
      rw [middle _ next nextAllows, toPd] at final
      rw [last _ final finalAllows] at huge
      exact absurd huge (by decide)
  | page first next final leaf firstAllows nextAllows finalAllows leafAllows small finalSmall =>
      rw [below _ first firstAllows] at next
      rw [middle _ next nextAllows, toPd] at final
      rw [last _ final finalAllows, toPt] at leaf
      rw [leaf] at leafAllows ⊢
      refine ⟨leafAllows, ?_⟩
      simp only [alignDown, pageSize]
      omega

theorem selfMapped_byte {virt phys : Nat} (byte : UserByte selfMapped 0x1000 write virt phys) :
    alignDown phys = if ptIndex virt = 511 then 0x5000 else 0x4000 := by
  have index : ptIndex virt < 512 := Nat.mod_lt _ (by decide)
  have top := @selfMapped_only 0x1000 0x2007 1
    (fun index bound other => by rw [selfMapped_entry (by decide) bound]; simp [other])
    (by rw [selfMapped_entry (by decide) (by decide)]; decide)
  have second := @selfMapped_only 0x2000 0x3007 0
    (fun index bound other => by rw [selfMapped_entry (by decide) bound]; simp [other])
    (by rw [selfMapped_entry (by decide) (by decide)]; decide)
  have third := @selfMapped_only 0x3000 0x4007 0
    (fun index bound other => by rw [selfMapped_entry (by decide) bound]; simp [other])
    (by rw [selfMapped_entry (by decide) (by decide)]; decide)
  obtain ⟨allows, frame⟩ := byte.leaf top second third
  rw [selfMapped_entry (by decide) index] at allows frame
  rw [frame]
  by_cases high : ptIndex virt = 511
  · simp only [high]
    decide
  · by_cases low : ptIndex virt = 510
    · simp only [low]
      decide
    · simp [high, low, entryAllows] at allows

theorem selfMapped_nonzero : FramesNonzero selfMapped 0x1000 := by
  intro write virt phys byte
  rw [selfMapped_byte byte]
  split <;> decide

def bufferAt (first : Nat) : KernelBuffer := ⟨0xFFFF800000000000 + UInt64.ofNat first, (first + ·)⟩

theorem verify_agrees_with_copy_page :
    (verifyUserRead selfMapped (some 0x1000) 0x80001FF008 9 = 0 ↔
      (copyFromUserInto ⟨selfMapped, fun _ => 0, []⟩ (some 0x1000) (bufferAt 0x9000)
        0x80001FF008 9).1 = 0) ∧
    (verifyUserWrite selfMapped (some 0x1000) 0x80001FF008 9 = 0 ↔
      (copyToUserFrom ⟨selfMapped, fun _ => 0, []⟩ (some 0x1000) 0x80001FF008 (bufferAt 0x9000)
        9).1 = 0) := by
  have agrees := verify_agrees_with_copy ⟨selfMapped, fun _ => 0, []⟩ (some 0x1000)
    (bufferAt 0x9000) (by decide) (fun root same => by cases same; exact selfMapped_nonzero)
    0x80001FF008 9
  have size : UInt64.toNat 9 = 9 := rfl
  have place : UInt64.toNat 0x80001FF008 = 0x80001FF008 := rfl
  have tables : ∀ other < 9, ∀ entry ∈ walkEntries selfMapped 0x1000 (0x80001FF008 + other),
      entry.1 ≠ 0x5000 ∧ entry.1 ≠ 0x9000 := by
    decide +kernel
  refine ⟨agrees.1 fun root same => ?_, agrees.2 fun root same => ?_⟩
  · cases same
    rw [size, place]
    intro offset bound other otherBound entry member
    have behind : alignDown (0x9000 + offset) = 0x9000 := by
      simp only [alignDown, pageSize]
      omega
    rw [bufferAt, behind]
    exact (tables other otherBound entry member).2
  · cases same
    rw [size, place]
    intro offset bound phys byte other otherBound entry member
    have last : ∀ offset < 9, ptIndex (0x80001FF008 + offset) = 511 := by decide
    rw [selfMapped_byte byte, if_pos (last offset bound)]
    exact (tables other otherBound entry member).1

/-- Bytes that overwrite the entry of the next page, in the copy to the table as in the copy from it
to a buffer over that entry: what follows is not copied. -/
theorem copy_over_own_table : FramesNonzero selfMapped 0x1000 ∧
    (verifyUserRead selfMapped (some 0x1000) 0x80001FEFE0 33 = 0 ∧
      (copyFromUserInto ⟨selfMapped, fun _ => 0, []⟩ (some 0x1000) (bufferAt 0x4FF8)
        0x80001FEFE0 33).1 = -efault) ∧
    verifyUserWrite selfMapped (some 0x1000) 0x80001FEFF8 9 = 0 ∧
      (copyToUserFrom ⟨selfMapped, fun _ => 0, []⟩ (some 0x1000) 0x80001FEFF8 (bufferAt 0x9000)
        9).1 = -efault :=
  ⟨selfMapped_nonzero, ⟨by decide +kernel, by decide +kernel⟩, by decide +kernel, by decide +kernel⟩

end Szczupak
