import Szczupak.Mm.UaccessCore
import Szczupak.Mm.PageTree

/-!
What the user copies touch.  `UserByte` is the page walk of the processor with its
permission bits; the two walks of the kernel agree with it on whole pages, and the page
loops therefore touch exactly the requested bytes in order.
-/

namespace Szczupak

/-- `virt` is reached at a physical byte through entries that all allow the access. -/
inductive UserByte (ram : Mem) (root : Nat) (write : Bool) (virt : Nat) : Nat → Prop where
  | giant {pml4Entry pdpEntry : Nat}
      (first : pml4Entry = entryAt ram root (pml4Index virt))
      (second : pdpEntry = entryAt ram (alignDown pml4Entry) (pdpIndex virt))
      (firstAllows : entryAllows pml4Entry write = true)
      (secondAllows : entryAllows pdpEntry write = true)
      (huge : pdpEntry.testBit hugeBit = true) :
      UserByte ram root write virt (pdpEntry / 2 ^ 30 * 2 ^ 30 + virt % 2 ^ 30)
  | large {pml4Entry pdpEntry pdEntry : Nat}
      (first : pml4Entry = entryAt ram root (pml4Index virt))
      (second : pdpEntry = entryAt ram (alignDown pml4Entry) (pdpIndex virt))
      (third : pdEntry = entryAt ram (alignDown pdpEntry) (pdIndex virt))
      (firstAllows : entryAllows pml4Entry write = true)
      (secondAllows : entryAllows pdpEntry write = true)
      (thirdAllows : entryAllows pdEntry write = true)
      (secondSmall : pdpEntry.testBit hugeBit = false)
      (huge : pdEntry.testBit hugeBit = true) :
      UserByte ram root write virt (pdEntry / 2 ^ 21 * 2 ^ 21 + virt % 2 ^ 21)
  | page {pml4Entry pdpEntry pdEntry ptEntry : Nat}
      (first : pml4Entry = entryAt ram root (pml4Index virt))
      (second : pdpEntry = entryAt ram (alignDown pml4Entry) (pdpIndex virt))
      (third : pdEntry = entryAt ram (alignDown pdpEntry) (pdIndex virt))
      (fourth : ptEntry = entryAt ram (alignDown pdEntry) (ptIndex virt))
      (firstAllows : entryAllows pml4Entry write = true)
      (secondAllows : entryAllows pdpEntry write = true)
      (thirdAllows : entryAllows pdEntry write = true)
      (fourthAllows : entryAllows ptEntry write = true)
      (secondSmall : pdpEntry.testBit hugeBit = false)
      (thirdSmall : pdEntry.testBit hugeBit = false) :
      UserByte ram root write virt (alignDown ptEntry + virt % 4096)

variable {write : Bool}

theorem entryAllows_present {entry : Nat} (allows : entryAllows entry write = true) :
    entry.testBit presentBit = true := by
  simp only [entryAllows, Bool.and_eq_true] at allows
  exact allows.1.1

section Walks

variable {ram : Mem} {root virt phys : Nat} {write : Bool}

theorem same_indices {offset : Nat} (inside : virt % 4096 + offset < 4096) :
    pml4Index (virt + offset) = pml4Index (alignDown virt) ∧
      pdpIndex (virt + offset) = pdpIndex (alignDown virt) ∧
      pdIndex (virt + offset) = pdIndex (alignDown virt) ∧
      ptIndex (virt + offset) = ptIndex (alignDown virt) := by
  simp only [pml4Index, pdpIndex, pdIndex, ptIndex, alignDown, pageSize]
  omega

theorem checked_byte (checked : checkPagePermissions ram root virt write = true)
    (small : virt < 2 ^ 64) {offset : Nat} (inside : virt % 4096 + offset < 4096) :
    UserByte ram root write (virt + offset)
      (alignDown (vmmGetPhysical ram root (UInt64.ofNat virt)) + virt % 4096 + offset) := by
  have whole : (UInt64.ofNat virt).toNat = virt := UInt64.toNat_ofNat_of_lt' small
  have indices := same_indices inside
  have pageIndices := @same_indices virt 0 (by omega)
  simp only [Nat.add_zero] at pageIndices
  simp only [vmmGetPhysical, whole]
  simp only [checkPagePermissions, pageIndices] at checked
  generalize firstEq : entryAt ram root (pml4Index (alignDown virt)) = pml4Entry at checked ⊢
  generalize secondEq : entryAt ram (alignDown pml4Entry) (pdpIndex (alignDown virt)) = pdpEntry
    at checked ⊢
  generalize thirdEq : entryAt ram (alignDown pdpEntry) (pdIndex (alignDown virt)) = pdEntry
    at checked ⊢
  generalize fourthEq : entryAt ram (alignDown pdEntry) (ptIndex (alignDown virt)) = ptEntry
    at checked ⊢
  have first : pml4Entry = entryAt ram root (pml4Index (virt + offset)) := by
    rw [indices.1, firstEq]
  have second : pdpEntry = entryAt ram (alignDown pml4Entry) (pdpIndex (virt + offset)) := by
    rw [indices.2.1, secondEq]
  have third : pdEntry = entryAt ram (alignDown pdpEntry) (pdIndex (virt + offset)) := by
    rw [indices.2.2.1, thirdEq]
  have fourth : ptEntry = entryAt ram (alignDown pdEntry) (ptIndex (virt + offset)) := by
    rw [indices.2.2.2, fourthEq]
  clear firstEq secondEq thirdEq fourthEq indices pageIndices whole
  cases mapped : pml4Mapped root with
  | false => simp [mapped] at checked
  | true =>
      cases firstAllows : entryAllows pml4Entry write with
      | false => simp [mapped, firstAllows] at checked
      | true =>
          cases secondAllows : entryAllows pdpEntry write with
          | false => simp [mapped, firstAllows, secondAllows] at checked
          | true =>
              simp only [entryAllows_present firstAllows, entryAllows_present secondAllows]
              cases giant : pdpEntry.testBit hugeBit with
              | true =>
                  have byte := UserByte.giant first second firstAllows secondAllows giant
                  have place : alignDown (pdpEntry / 2 ^ 30 * 2 ^ 30 + virt % 2 ^ 30) +
                      virt % 4096 + offset =
                      pdpEntry / 2 ^ 30 * 2 ^ 30 + (virt + offset) % 2 ^ 30 := by
                    simp only [alignDown, pageSize]
                    omega
                  simp only [Bool.not_true, Bool.false_eq_true, if_false, if_true]
                  rw [place]
                  exact byte
              | false =>
                  cases thirdAllows : entryAllows pdEntry write with
                  | false => simp [mapped, firstAllows, secondAllows, giant, thirdAllows] at checked
                  | true =>
                      simp only [entryAllows_present thirdAllows]
                      cases large : pdEntry.testBit hugeBit with
                      | true =>
                          have byte := UserByte.large first second third firstAllows secondAllows
                            thirdAllows giant large
                          have place : alignDown (pdEntry / 2 ^ 21 * 2 ^ 21 + virt % 2 ^ 21) +
                              virt % 4096 + offset =
                              pdEntry / 2 ^ 21 * 2 ^ 21 + (virt + offset) % 2 ^ 21 := by
                            simp only [alignDown, pageSize]
                            omega
                          simp only [Bool.not_true, Bool.false_eq_true, if_false, if_true]
                          rw [place]
                          exact byte
                      | false =>
                          have fourthAllows : entryAllows ptEntry write = true := by
                            simpa [mapped, firstAllows, secondAllows, giant, thirdAllows, large]
                              using checked
                          simp only [entryAllows_present fourthAllows]
                          have byte := UserByte.page first second third fourth firstAllows
                            secondAllows thirdAllows fourthAllows giant large
                          have place : alignDown (alignDown ptEntry + virt % 4096) +
                              virt % 4096 + offset =
                              alignDown ptEntry + (virt + offset) % 4096 := by
                            simp only [alignDown, pageSize]
                            omega
                          simp only [Bool.not_true, Bool.false_eq_true, if_false]
                          rw [place]
                          exact byte

def LocatesPage (locate : Mem → Nat → Option Nat) (root : Nat) (write : Bool) : Prop :=
  ∀ ram virt base offset, virt < 2 ^ 64 → locate ram virt = some base →
    virt % 4096 + offset < 4096 → UserByte ram root write (virt + offset) (base + offset)

theorem locateFromUser_page (root : Nat) : LocatesPage (locateFromUser root) root false := by
  intro ram virt base offset small located inside
  unfold locateFromUser at located
  split at located
  · contradiction
  · rename_i checked
    dsimp only at located
    split at located
    · contradiction
    · simp only [Option.some.injEq] at located
      rw [← located]
      exact checked_byte (by simpa using checked) small inside

theorem locateToUser_page (root : Nat) : LocatesPage (locateToUser root) root true := by
  intro ram virt base offset small located inside
  unfold locateToUser at located
  dsimp only at located
  split at located
  · contradiction
  · split at located
    · contradiction
    · rename_i checked
      simp only [Option.some.injEq] at located
      rw [← located]
      exact checked_byte (by simpa using checked) small inside

theorem locateClear_page (root : Nat) : LocatesPage (locateClear root) root true := by
  intro ram virt base offset small located inside
  unfold locateClear at located
  split at located
  · contradiction
  · rename_i checked
    dsimp only at located
    split at located
    · contradiction
    · simp only [Option.some.injEq] at located
      have start : alignDown virt % 4096 = 0 := alignDown_aligned virt
      have lower := alignDown_le virt
      have byte := @checked_byte ram root (alignDown virt) true (by simpa using checked) (by omega)
        (virt % 4096 + offset) (by omega)
      have whole : alignDown virt + (virt % 4096 + offset) = virt + offset := by
        simp only [alignDown, pageSize]
        omega
      rw [← located]
      rw [whole, start, Nat.add_zero, ← Nat.add_assoc] at byte
      exact byte

end Walks

def stores (mem : Mem) (writes : List (Nat × UInt8)) : Mem :=
  writes.foldl (fun mem write => mem.set write.1 write.2) mem

theorem stores_append (mem : Mem) (first second : List (Nat × UInt8)) :
    stores mem (first ++ second) = stores (stores mem first) second := List.foldl_append

structure Progress (root : Nat) (write : Bool) (addr count : Nat) (state : UserState) : Prop where
  inOrder : state.touched.map UserAccess.virt = (List.range count).map (addr + ·)
  allowed : ∀ access ∈ state.touched,
    UserByte access.tables root write access.virt access.phys

variable {state : UserState} {addr size : UInt64}

theorem Progress.length {root addr count : Nat}
    (progress : Progress root write addr count state) : state.touched.length = count := by
  have lengths := congrArg List.length progress.inOrder
  simpa using lengths

theorem Progress.touch {root addr count phys : Nat} {state next : UserState}
    {tables : Mem} (progress : Progress root write addr count state)
    (grown : next.touched = state.touched ++ [⟨addr + count, phys, tables⟩])
    (byte : UserByte tables root write (addr + count) phys) :
    Progress root write addr (count + 1) next := by
  constructor
  · rw [grown, List.map_append, progress.inOrder, List.range_succ, List.map_append]
    rfl
  · intro access member
    rw [grown] at member
    rcases List.mem_append.mp member with earlier | last
    · exact progress.allowed access earlier
    · rw [List.mem_singleton.mp last]
      exact byte

/-- What `body` must do to one page part for the loop to carry an invariant. -/
def PageStep (locate : Mem → Nat → Option Nat) (body : Nat → Nat → Nat → UserState → UserState)
    (addr size : Nat) (invariant : Nat → UserState → Prop) : Prop :=
  ∀ done state base chunk, done + chunk ≤ size → (addr + done) % 4096 + chunk ≤ 4096 →
    locate state.ram (addr + done) = some base → invariant done state →
    invariant (done + chunk) (body base done chunk state)

theorem chunk_bounds {addr size done chunk : Nat} (more : done < size)
    (is : (if pageSize - (addr + done) % pageSize > size - done then size - done
      else pageSize - (addr + done) % pageSize) = chunk) :
    0 < chunk ∧ done + chunk ≤ size ∧ (addr + done) % 4096 + chunk ≤ 4096 := by
  by_cases short : pageSize - (addr + done) % pageSize > size - done
  · rw [if_pos short] at is
    simp only [pageSize] at short
    omega
  · rw [if_neg short] at is
    simp only [pageSize] at is short
    omega

theorem userPages_invariant {locate : Mem → Nat → Option Nat}
    {body : Nat → Nat → Nat → UserState → UserState} {addr size fuel done : Nat}
    {invariant : Nat → UserState → Prop}
    (step : PageStep locate body addr size invariant) (enough : size - done ≤ fuel)
    (within : done ≤ size) (initial : invariant done state) :
    ∃ reached ≤ size, invariant reached (userPages addr size locate body fuel done state).2 ∧
      ((userPages addr size locate body fuel done state).1 = 0 → reached = size) := by
  induction fuel generalizing done state with
  | zero => exact ⟨done, within, initial, fun _ => by omega⟩
  | succ fuel ih =>
      rw [userPages]
      by_cases more : done < size
      · rw [if_pos more]
        cases located : locate state.ram (addr + done) with
        | none => exact ⟨done, within, initial, by simp [efault]⟩
        | some base =>
            dsimp only
            generalize chunkEq : (if pageSize - (addr + done) % pageSize > size - done then
              size - done else pageSize - (addr + done) % pageSize) = chunk
            have bounds := chunk_bounds more chunkEq
            exact ih (by omega) bounds.2.1
              (step done state base chunk bounds.2.1 bounds.2.2 located initial)
      · rw [if_neg more]
        exact ⟨done, within, initial, fun _ => by omega⟩

def readStores (ram : Mem) (dst : Nat) (touched : List UserAccess) : List (Nat × UInt8) :=
  touched.zipIdx.map fun access => (dst + access.2, ram access.1.phys)

def writeStores (kernel : Mem) (src : Nat) (touched : List UserAccess) : List (Nat × UInt8) :=
  touched.zipIdx.map fun access => (access.1.phys, kernel (src + access.2))

def clearStores (touched : List UserAccess) : List (Nat × UInt8) :=
  touched.map fun access => (access.phys, 0)

section Bodies

variable {ram kernel : Mem} {root addr size other : Nat}

theorem zipIdx_concat (touched : List UserAccess) (access : UserAccess) :
    (touched ++ [access]).zipIdx = touched.zipIdx ++ [(access, touched.length)] := by
  simp [List.zipIdx_append]

structure FromUser (ram kernel : Mem) (root addr dst count : Nat) (state : UserState) : Prop where
  progress : Progress root false addr count state
  ramKept : state.ram = ram
  copied : state.kernel = stores kernel (readStores ram dst state.touched)

theorem fromUser_step (fits : addr + size < 2 ^ 64) :
    PageStep (locateFromUser root) (fun base done chunk state => (List.range chunk).foldl
      (readByte state.ram other addr done base) state) addr size
      (FromUser ram kernel root addr other) := by
  intro done state base chunk within inPage located initial
  refine @foldl_range_invariant _ _ (fun index => FromUser ram kernel root addr other
    (done + index)) chunk state ?_ initial
  intro index before bound inv
  have byte := locateFromUser_page root state.ram (addr + done) base index (by omega) located
    (by omega)
  rw [Nat.add_assoc] at byte
  refine ⟨inv.progress.touch rfl byte, inv.ramKept, ?_⟩
  simp only [readByte, readStores, zipIdx_concat, List.map_append, stores_append,
    inv.progress.length, inv.ramKept]
  rw [inv.copied]
  rfl

structure ToUser (ram kernel : Mem) (root addr src count : Nat) (state : UserState) : Prop where
  progress : Progress root true addr count state
  kernelKept : state.kernel = kernel
  copied : state.ram = stores ram (writeStores kernel src state.touched)

theorem toUser_step (fits : addr + size < 2 ^ 64) :
    PageStep (locateToUser root) (fun base done chunk state => (List.range chunk).foldl
      (writeByte state.ram other addr done base) state) addr size
      (ToUser ram kernel root addr other) := by
  intro done state base chunk within inPage located initial
  refine @foldl_range_invariant _ _ (fun index => ToUser ram kernel root addr other (done + index))
    chunk state ?_ initial
  intro index before bound inv
  have byte := locateToUser_page root state.ram (addr + done) base index (by omega) located
    (by omega)
  rw [Nat.add_assoc] at byte
  refine ⟨inv.progress.touch rfl byte, inv.kernelKept, ?_⟩
  simp only [writeByte, writeStores, zipIdx_concat, List.map_append, stores_append,
    inv.progress.length, inv.kernelKept]
  rw [inv.copied]
  rfl

structure Clears (ram kernel : Mem) (root addr count : Nat) (state : UserState) : Prop where
  progress : Progress root true addr count state
  kernelKept : state.kernel = kernel
  cleared : state.ram = stores ram (clearStores state.touched)

theorem Clears.byte {tables : Mem} {done base index : Nat}
    (inv : Clears ram kernel root addr (done + index) state)
    (byte : UserByte tables root true (addr + (done + index)) (base + index)) :
    Clears ram kernel root addr (done + index + 1) (clearByte tables addr done base state index) := by
  refine ⟨inv.progress.touch rfl byte, inv.kernelKept, ?_⟩
  simp only [clearByte, clearStores, List.map_append, stores_append]
  rw [inv.cleared]
  rfl

theorem clearQword_eq (tables : Mem) (done base index : Nat) (state : UserState) :
    clearQword tables addr done base state index =
      (List.range 8).foldl (clearByte tables addr (done + 8 * index) (base + 8 * index)) state := by
  have eight : List.range 8 = [0, 1, 2, 3, 4, 5, 6, 7] := rfl
  simp only [clearQword, eight, List.foldl_cons, List.foldl_nil, clearByte, List.map_cons,
    List.map_nil, List.append_assoc, List.cons_append, List.nil_append]
  rfl

theorem clears_bytes {tables : Mem} {done base count : Nat}
    (bytes : ∀ index < count, UserByte tables root true (addr + (done + index)) (base + index))
    (initial : Clears ram kernel root addr done state) :
    Clears ram kernel root addr (done + count)
      ((List.range count).foldl (clearByte tables addr done base) state) := by
  refine @foldl_range_invariant _ _ (fun index => Clears ram kernel root addr (done + index))
    count state ?_ initial
  intro index before bound inv
  exact inv.byte (bytes index bound)

theorem clearUser_step (fits : addr + size < 2 ^ 64) :
    PageStep (locateClear root) (clearChunk addr) addr size (Clears ram kernel root addr) := by
  intro done state base chunk within inPage located initial
  have byte : ∀ index < chunk,
      UserByte state.ram root true (addr + (done + index)) (base + index) := by
    intro index bound
    have located := locateClear_page root state.ram (addr + done) base index (by omega) located
      (by omega)
    rwa [Nat.add_assoc] at located
  unfold clearChunk
  dsimp only
  generalize fastEq : (if chunk ≥ fastCopyThreshold ∧ base % 8 = 0 then chunk / 8 * 8 else 0) = fast
  have fastBounds : fast ≤ chunk ∧ 8 * (fast / 8) = fast := by
    split at fastEq
    · omega
    · omega
  have quick : Clears ram kernel root addr (done + 8 * (fast / 8))
      ((List.range (fast / 8)).foldl (clearQword state.ram addr done base) state) := by
    refine @foldl_range_invariant _ _
      (fun index => Clears ram kernel root addr (done + 8 * index)) (fast / 8) state ?_ initial
    intro index before bound inv
    rw [clearQword_eq]
    have eight : ∀ offset < 8, UserByte state.ram root true
        (addr + (done + 8 * index + offset)) (base + 8 * index + offset) := by
      intro offset small
      have inside := byte (8 * index + offset) (by omega)
      rwa [← Nat.add_assoc done, ← Nat.add_assoc base] at inside
    rw [show done + 8 * (index + 1) = done + 8 * index + 8 by omega]
    exact clears_bytes eight inv
  rw [fastBounds.2] at quick
  have rest : ∀ index < chunk - fast, UserByte state.ram root true
      (addr + (done + fast + index)) (base + fast + index) := by
    intro index bound
    have inside := byte (fast + index) (by omega)
    rwa [← Nat.add_assoc done, ← Nat.add_assoc base] at inside
  rw [show done + chunk = done + fast + (chunk - fast) by omega]
  exact clears_bytes rest quick

end Bodies

theorem validateUserRange_ok {addr size : Nat} (valid : validateUserRange addr size = 0) :
    userSpaceStart ≤ addr ∧ addr + size ≤ userSpaceEnd := by
  unfold validateUserRange at valid
  split at valid
  · simp [efault] at valid
  · split at valid
    · simp [efault] at valid
    · rename_i lower
      split at valid
      · simp [efault] at valid
      · split at valid
        · simp [einval] at valid
        · split at valid
          · simp [efault] at valid
          · omega

def TouchesUser (dir : Option Nat) (write : Bool) (touched : List UserAccess) : Prop :=
  ∀ access ∈ touched, ∃ root, dir = some root ∧
    userSpaceStart ≤ access.virt ∧ access.virt < userSpaceEnd ∧
    UserByte access.tables root write access.virt access.phys

/-- The bytes from `addr` on were touched one after another, all `size` of them when the
call reports success. -/
def TouchesRange (addr size : UInt64) (code : Int) (touched : List UserAccess) : Prop :=
  ∃ count ≤ size.toNat,
    touched.map UserAccess.virt = (List.range count).map (addr.toNat + ·) ∧
      (code = 0 → count = size.toNat)

theorem Progress.touches {root count : Nat}
    (valid : validateUserRange addr.toNat size.toNat = 0) (within : count ≤ size.toNat)
    (progress : Progress root write addr.toNat count state) :
    TouchesUser (some root) write state.touched := by
  intro access member
  have bounds := validateUserRange_ok valid
  have virt : access.virt ∈ (List.range count).map (addr.toNat + ·) := by
    rw [← progress.inOrder]
    exact List.mem_map.mpr ⟨access, member, rfl⟩
  obtain ⟨index, inside, place⟩ := List.mem_map.mp virt
  have bound := List.mem_range.mp inside
  exact ⟨root, rfl, by omega, by omega, progress.allowed access member⟩

theorem not_touched {dir : Option Nat} {code : Int}
    (failed : code ≠ 0) : TouchesUser dir write [] ∧ TouchesRange addr size code [] :=
  ⟨by simp [TouchesUser], 0, Nat.zero_le _, rfl, fun success => absurd success failed⟩

theorem no_progress (root addr : Nat) (write : Bool) (ram kernel : Mem) :
    Progress root write addr 0 ⟨ram, kernel, []⟩ := ⟨rfl, by simp⟩

def guardedCall (null : Prop) [Decidable null] (addr size : Nat) (start : UserState)
    (dir : Option Nat) (loop : Nat → Int × UserState) : Int × UserState :=
  if null then (-einval, start)
  else
    let ret := validateUserRange addr size
    if ret ≠ 0 then (ret, start)
    else
      match dir with
      | none => (-efault, start)
      | some root => loop root

section Guard

variable {null : Prop} [Decidable null] {addr size : Nat} {start : UserState} {dir : Option Nat}
  {loop : Nat → Int × UserState}

theorem guardedCall_cases (call : Int × UserState)
    (is : call = guardedCall null addr size start dir loop) :
    (∃ code, code ≠ 0 ∧ call = (code, start)) ∨
      ∃ root, dir = some root ∧ ¬null ∧ validateUserRange addr size = 0 ∧ call = loop root := by
  rw [is]
  unfold guardedCall
  by_cases refused : null
  · exact Or.inl ⟨-einval, by decide, if_pos refused⟩
  · rw [if_neg refused]
    by_cases valid : validateUserRange addr size = 0
    · rw [if_neg (not_not.mpr valid)]
      cases dir with
      | none => exact Or.inl ⟨-efault, by decide, rfl⟩
      | some root => exact Or.inr ⟨root, rfl, refused, valid, rfl⟩
    · exact Or.inl ⟨_, valid, if_pos valid⟩

theorem guardedCall_success : (guardedCall null addr size start dir loop).1 = 0 ↔
    ¬null ∧ validateUserRange addr size = 0 ∧ ∃ root, dir = some root ∧ (loop root).1 = 0 := by
  constructor
  · intro success
    rcases @guardedCall_cases null _ addr size start dir loop _ rfl
      with ⟨code, failed, is⟩ | ⟨root, same, given, valid, is⟩
    · rw [is] at success
      exact absurd success failed
    · exact ⟨given, valid, root, same, is ▸ success⟩
  · rintro ⟨given, valid, root, rfl, success⟩
    unfold guardedCall
    rw [if_neg given]
    simpa [valid] using success

end Guard

section Calls

variable (ram kernel : Mem) (dir : Option Nat)

theorem copyFromUser_guarded (start : UserState) (dst src size : UInt64) :
    copyFromUser start dir dst src size =
    guardedCall (dst = 0 ∨ src = 0 ∨ size = 0) src.toNat size.toNat start dir fun root =>
      userPages src.toNat size.toNat (locateFromUser root) (fun base done chunk state =>
        (List.range chunk).foldl
        (readByte state.ram dst.toNat src.toNat done base) state) size.toNat 0 start := rfl

theorem copyToUser_guarded (start : UserState) (dst src size : UInt64) :
    copyToUser start dir dst src size =
    guardedCall (dst = 0 ∨ src = 0 ∨ size = 0) dst.toNat size.toNat start dir fun root =>
      userPages dst.toNat size.toNat (locateToUser root) (fun base done chunk state => (List.range chunk).foldl
        (writeByte state.ram src.toNat dst.toNat done base) state) size.toNat 0 start := rfl

theorem clearUser_guarded (start : UserState) (dst size : UInt64) : clearUser start dir dst size =
    guardedCall (dst = 0 ∨ size = 0) dst.toNat size.toNat start dir fun root =>
      userPages dst.toNat size.toNat (locateClear root) (clearChunk dst.toNat) size.toNat 0 start := rfl

theorem guardedCall_exact {null : Prop} [Decidable null]
    {locate : Nat → Mem → Nat → Option Nat} {body : Nat → Nat → Nat → UserState → UserState}
    (account : Nat → Nat → UserState → Prop) (ensures : UserState → Prop) {call : Int × UserState}
    (is : call = guardedCall null addr.toNat size.toNat ⟨ram, kernel, []⟩ dir fun root =>
      userPages addr.toNat size.toNat (locate root) body size.toNat 0 ⟨ram, kernel, []⟩)
    (step : ∀ root, addr.toNat + size.toNat < 2 ^ 64 →
      PageStep (locate root) body addr.toNat size.toNat (account root))
    (initial : ∀ root, account root 0 ⟨ram, kernel, []⟩)
    (progress : ∀ root count state, account root count state → Progress root write addr.toNat count state)
    (ensured : ∀ root count state, account root count state → ensures state)
    (untouched : ensures ⟨ram, kernel, []⟩) :
    (TouchesUser dir write call.2.touched ∧ TouchesRange addr size call.1 call.2.touched) ∧
    ensures call.2 := by
  rcases guardedCall_cases call is with ⟨code, failed, refused⟩ | ⟨root, rfl, -, valid, looped⟩
  · rw [refused]
    exact ⟨not_touched failed, untouched⟩
  · have bounds := validateUserRange_ok valid
    have small : addr.toNat + size.toNat < 2 ^ 64 := by
      simp only [userSpaceEnd] at bounds
      omega
    obtain ⟨count, within, inv, success⟩ :=
      userPages_invariant (step root small) (Nat.le_refl size.toNat) (Nat.zero_le _) (initial root)
    rw [looped]
    have account := progress root count _ inv
    exact ⟨⟨account.touches valid within, count, within, account.inOrder, success⟩, ensured root count _ inv⟩

theorem copyFromUser_exact (dst src size : UInt64) :
    let result := copyFromUser ⟨ram, kernel, []⟩ dir dst src size
    (TouchesUser dir false result.2.touched ∧
      TouchesRange src size result.1 result.2.touched) ∧
    result.2.ram = ram ∧
    result.2.kernel = stores kernel (readStores ram dst.toNat result.2.touched) := by
  apply guardedCall_exact ram kernel dir (fun root => FromUser ram kernel root src.toNat dst.toNat)
    (fun state => state.ram = ram ∧ state.kernel = stores kernel
    (readStores ram dst.toNat state.touched)) (copyFromUser_guarded dir _ dst src size)
  · exact fun root small => fromUser_step small
  · exact fun root => ⟨no_progress root src.toNat false ram kernel, rfl, rfl⟩
  · exact fun root count state inv => inv.progress
  · exact fun root count state inv => ⟨inv.ramKept, inv.copied⟩
  · exact ⟨rfl, rfl⟩

theorem copyToUser_exact (dst src size : UInt64) :
    let result := copyToUser ⟨ram, kernel, []⟩ dir dst src size
    (TouchesUser dir true result.2.touched ∧
      TouchesRange dst size result.1 result.2.touched) ∧
    result.2.kernel = kernel ∧
    result.2.ram = stores ram (writeStores kernel src.toNat result.2.touched) := by
  apply guardedCall_exact ram kernel dir (fun root => ToUser ram kernel root dst.toNat src.toNat)
    (fun state => state.kernel = kernel ∧ state.ram =
    stores ram (writeStores kernel src.toNat state.touched)) (copyToUser_guarded dir _ dst src size)
  · exact fun root small => toUser_step small
  · exact fun root => ⟨no_progress root dst.toNat true ram kernel, rfl, rfl⟩
  · exact fun root count state inv => inv.progress
  · exact fun root count state inv => ⟨inv.kernelKept, inv.copied⟩
  · exact ⟨rfl, rfl⟩

theorem clearUser_exact (dst size : UInt64) :
    let result := clearUser ⟨ram, kernel, []⟩ dir dst size
    (TouchesUser dir true result.2.touched ∧
      TouchesRange dst size result.1 result.2.touched) ∧
    result.2.kernel = kernel ∧
    result.2.ram = stores ram (clearStores result.2.touched) := by
  apply guardedCall_exact ram kernel dir (fun root => Clears ram kernel root dst.toNat)
    (fun state => state.kernel = kernel ∧ state.ram = stores ram (clearStores state.touched))
    (clearUser_guarded dir _ dst size)
  · exact fun root small => clearUser_step small
  · exact fun root => ⟨no_progress root dst.toNat true ram kernel, rfl, rfl⟩
  · exact fun root count state inv => inv.progress
  · exact fun root count state inv => ⟨inv.kernelKept, inv.cleared⟩
  · exact ⟨rfl, rfl⟩

/-- The three calls touch only user bytes their entries allow; on success these are the
bytes of the requested range in order, and what is stored is what was asked for. -/
theorem user_copies_safe_and_exact :
    (∀ dst src size,
      let result := copyFromUser ⟨ram, kernel, []⟩ dir dst src size
      (TouchesUser dir false result.2.touched ∧
        TouchesRange src size result.1 result.2.touched) ∧
      result.2.ram = ram ∧
      result.2.kernel = stores kernel (readStores ram dst.toNat result.2.touched)) ∧
    (∀ dst src size,
      let result := copyToUser ⟨ram, kernel, []⟩ dir dst src size
      (TouchesUser dir true result.2.touched ∧
        TouchesRange dst size result.1 result.2.touched) ∧
      result.2.kernel = kernel ∧
      result.2.ram = stores ram (writeStores kernel src.toNat result.2.touched)) ∧
    (∀ dst size,
      let result := clearUser ⟨ram, kernel, []⟩ dir dst size
      (TouchesUser dir true result.2.touched ∧
        TouchesRange dst size result.1 result.2.touched) ∧
      result.2.kernel = kernel ∧
      result.2.ram = stores ram (clearStores result.2.touched)) :=
  ⟨copyFromUser_exact ram kernel dir, copyToUser_exact ram kernel dir,
    clearUser_exact ram kernel dir⟩

end Calls

/-- The first two user pages in frames that are apart, with the bytes 1 to 6 around the border. -/
def twoPages : Mem :=
  ((setEntry (setEntry (setEntry (setEntry (setEntry (fun _ => 0) 0x1000 1 0x2007) 0x2000 0 0x3007)
    0x3000 0 0x4007)
    0x4000 0 0x5007) 0x4000 1 0x8007).store 0x5FFC [1, 2, 3, 4]).store 0x8000 [5, 6]

theorem twoPages_copied :
    let result := copyFromUser ⟨twoPages, fun _ => 0, []⟩ (some 0x1000) 0x9000 0x8000000FFC 6
    result.1 = 0 ∧ result.2.kernel.read 0x9000 6 = [1, 2, 3, 4, 5, 6] ∧
      TouchesUser (some 0x1000) false result.2.touched ∧
      result.2.touched.map UserAccess.virt = (List.range 6).map (0x8000000FFC + ·) := by
  intro result
  have succeeds : result.1 = 0 := by decide +kernel
  obtain ⟨⟨⟨user, count, -, touched, whole⟩, -, -⟩, -⟩ :=
    (user_copies_safe_and_exact twoPages (fun _ => 0) (some 0x1000)).imp_left fun copies =>
      copies 0x9000 0x8000000FFC 6
  refine ⟨succeeds, by decide +kernel, user, ?_⟩
  rw [whole succeeds] at touched
  exact touched

end Szczupak
