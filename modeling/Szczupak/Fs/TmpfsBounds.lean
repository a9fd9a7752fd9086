import Szczupak.Fs.TmpfsFile
import Szczupak.Mm.HeapSizes

/-!
The places of its buffer that a tmpfs file looks at, for any 64-bit offset and size.  The sums
and the doubling of `fs/tmpfs.c` wrap, and so does the round-up of the `kmalloc` below it.
-/

namespace Szczupak

/-- What the file has: the bytes it counts on, as far as they are there. -/
def bufferBytes (mem : Mem) (file : TmpfsFile) : Nat :=
  min file.allocatedSize (payloadSize mem file.data)

def readPlaces (file : TmpfsFile) (offset size : UInt64) : List Nat :=
  if file.data = 0 ∨ offset.toNat ≥ file.size then []
  else
    let readSize := if (offset.toNat + size.toNat) % 2 ^ 64 > file.size then
      file.size - offset.toNat else size.toNat
    (List.range readSize).map fun index => (offset.toNat + index) % 2 ^ 64

def copiedPlaces (storage : Nat) (heap : HeapState) (file : TmpfsFile) (neededSize : Nat) : List Nat :=
  if neededSize > file.allocatedSize ∧ (kmalloc storage heap.mem (growRequest neededSize)).1 ≠ 0 ∧
    file.data ≠ 0 then
    List.range file.size
  else []

def storedPlaces (offset : UInt64) (bytes : List UInt8) : List Nat :=
  (List.range bytes.length).map fun index => (offset.toNat + index) % 2 ^ 64

structure TmpfsUse where
  heap : HeapState
  file : TmpfsFile

inductive TmpfsUseCall where
  | write (offset : UInt64) (bytes : List UInt8)
  | other (call : HeapCall)

def tmpfsUse (storage : Nat) (s : TmpfsUse) : TmpfsUseCall → Option TmpfsUse
  | .write offset bytes =>
      let (_, heap, file) := tmpfsWrite storage s.heap s.file offset.toNat bytes
      some ⟨heap, file⟩
  | .other call =>
      if call.target = 0 ∨ call.target ≠ s.file.data then
        (heapCall storage s.heap call).map fun heap => { s with heap }
      else none

def tmpfsUseStart (storage : Nat) (mem : Mem) : TmpfsUse := ⟨heapStart storage mem, .created⟩

structure WriteInBounds (storage : Nat) (s : TmpfsUse) (offset : UInt64)
    (bytes : List UInt8) : Prop where
  copied : ∀ place ∈ copiedPlaces storage s.heap s.file ((offset.toNat + bytes.length) % 2 ^ 64),
    place < bufferBytes s.heap.mem s.file ∧
    place < bufferBytes (tmpfsWrite storage s.heap s.file offset.toNat bytes).2.1.mem
      (tmpfsWrite storage s.heap s.file offset.toNat bytes).2.2
  stored : (tmpfsWrite storage s.heap s.file offset.toNat bytes).1 = true →
    ∀ place ∈ storedPlaces offset bytes,
    place < bufferBytes (tmpfsWrite storage s.heap s.file offset.toNat bytes).2.1.mem
      (tmpfsWrite storage s.heap s.file offset.toNat bytes).2.2
  refused : (tmpfsWrite storage s.heap s.file offset.toNat bytes).1 = false →
    (tmpfsWrite storage s.heap s.file offset.toNat bytes).2 = (s.heap, s.file)
  done : (tmpfsWrite storage s.heap s.file offset.toNat bytes).1 = true →
    offset.toNat + bytes.length ≤ (tmpfsWrite storage s.heap s.file offset.toNat bytes).2.2.size

/-- The end of the write lies in the buffer, or twice the end survives the round-up of
`kmalloc`, or a larger buffer is asked for in vain. -/
def WriteFits (storage : Nat) (s : TmpfsUse) (offset : UInt64) (bytes : List UInt8) : Prop :=
  offset.toNat + bytes.length ≤ s.file.allocatedSize ∨ (offset.toNat + bytes.length) *
    2 ≤ maxRequest ∨ (offset.toNat + bytes.length) % 2 ^ 64 > s.file.allocatedSize ∧
      (kmalloc storage s.heap.mem (growRequest ((offset.toNat + bytes.length) % 2 ^ 64))).1 = 0

def UseFits (storage : HeapStorage) (s : TmpfsUse) : TmpfsUseCall → Prop
  | .write offset bytes => WriteFits storage.address s offset bytes
  | .other call => RequestFits storage s.heap call

section Bounds

variable {storage : HeapStorage} {s : TmpfsUse} {blocks : List HeapBlock}

theorem HoldsBuffer.bytes (holds : HoldsBuffer storage s.heap s.file blocks) :
    bufferBytes s.heap.mem s.file = s.file.allocatedSize ∧ s.file.allocatedSize ≤ heapBytes := by
  by_cases null : s.file.data = 0
  · rw [bufferBytes, holds.empty null]
    exact ⟨Nat.zero_min _, Nat.zero_le _⟩
  · obtain ⟨granted, large, live⟩ := holds.granted null
    obtain ⟨_, _, header⟩ := holds.intact.heap.tiled.live_header live
    have same : payloadSize s.heap.mem s.file.data = granted := header.size
    have inside := holds.intact.heap.tiled.live_end live
    have lower := livePayloads_lower live
    rw [HeapStorage.stop] at inside
    rw [bufferBytes, same]
    exact ⟨Nat.min_eq_left large, by omega⟩

structure WriteDone (storage : HeapStorage) (s : TmpfsUse) (offset : Nat) (bytes : List UInt8)
    (after : TmpfsUse) : Prop where
  result : tmpfsWrite storage.address s.heap s.file offset bytes = (true, after.heap, after.file)
  holds : ∃ blocks, HoldsBuffer storage after.heap after.file blocks
  size : after.file.size = max s.file.size (offset + bytes.length)

theorem WriteDone.of_ready {offset : Nat} {bytes : List UInt8} {heap : HeapState}
    {file : TmpfsFile} {mem : Mem} (small : offset + bytes.length < 2 ^ 64)
    (stage : (if offset + bytes.length > s.file.allocatedSize then
      tmpfsGrow storage.address s.heap s.file (offset + bytes.length) else (true, s.heap, s.file)) =
        (true, heap, file))
    (ready : Ready storage s.heap heap s.file file mem (offset + bytes.length)) :
    ∃ after, WriteDone storage s offset bytes after ∧ after.file.allocatedSize =
    file.allocatedSize := by
  obtain ⟨blocks, holds⟩ := ready.holds
  have stored := holds.store ready.room
  have within := holds.within
  have room := ready.room
  have sameSize := ready.size
  have needed : (offset + bytes.length) % 2 ^ 64 = offset + bytes.length := Nat.mod_eq_of_lt small
  have size : (if offset + bytes.length > file.size then offset + bytes.length else file.size) =
      max s.file.size (offset + bytes.length) := by
    rw [sameSize]
    split
    · omega
    · omega
  refine ⟨⟨⟨heap.mem.store (file.data + offset) bytes, heap.live⟩,
    { file with size := max s.file.size (offset + bytes.length) }⟩, ⟨?_, ?_, rfl⟩, rfl⟩
  · rw [tmpfsWrite, needed, stage]
    dsimp only
    rw [if_pos rfl, size]
  · refine ⟨blocks, stored.intact, stored.granted, stored.empty, ?_⟩
    change max s.file.size (offset + bytes.length) ≤ file.allocatedSize
    omega

section

variable (holds : HoldsBuffer storage s.heap s.file blocks)
include holds

theorem tmpfsWrite_fits {offset : UInt64} {bytes : List UInt8}
    (fits : WriteFits storage.address s offset bytes) :
    (tmpfsWrite storage.address s.heap s.file offset.toNat bytes = (false, s.heap, s.file) ∧
      copiedPlaces storage.address s.heap s.file ((offset.toNat + bytes.length) % 2 ^ 64) = []) ∨
    offset.toNat + bytes.length < 2 ^ 64 ∧ ∃ after, WriteDone storage s offset.toNat bytes after ∧
      ∀ place ∈ copiedPlaces storage.address s.heap s.file ((offset.toNat + bytes.length) % 2 ^ 64),
        place < s.file.size := by
  have copies :
    ∀ place ∈ copiedPlaces storage.address s.heap s.file ((offset.toNat + bytes.length) % 2 ^ 64),
      place < s.file.size := by
    intro place member
    rw [copiedPlaces] at member
    split at member
    next => exact List.mem_range.mp member
    next => cases member
  have refused : ∀ neededSize, (kmalloc storage.address s.heap.mem (growRequest neededSize)).1 = 0 →
      copiedPlaces storage.address s.heap s.file neededSize = [] :=
    fun neededSize null => if_neg fun grows => grows.2.1 null
  obtain ⟨_, few⟩ := holds.bytes
  have little : heapBytes < 2 ^ 62 := by decide
  rcases fits with inside | small | ⟨large, null⟩
  · have bounded : offset.toNat + bytes.length < 2 ^ 64 := by omega
    have ready : Ready storage s.heap s.heap s.file s.file s.heap.mem (offset.toNat + bytes.length) :=
      { holds := ⟨blocks, holds⟩, size := rfl, room := inside, old := fun _ _ => rfl, new := fun _ _ _ => rfl }
    obtain ⟨after, done, _⟩ := WriteDone.of_ready bounded (if_neg (Nat.not_lt.mpr inside)) ready
    exact Or.inr ⟨bounded, after, done, copies⟩
  · have bounded : offset.toNat + bytes.length < 2 ^ 64 := by
      rw [maxRequest] at small
      omega
    by_cases large : offset.toNat + bytes.length > s.file.allocatedSize
    · rcases tmpfsGrow_spec holds large small with ⟨failed, null⟩ | ⟨after, grown, grows, _, _, ready⟩
      · refine Or.inl ⟨?_, ?_⟩
        · rw [tmpfsWrite, Nat.mod_eq_of_lt bounded, if_pos large, failed]
          rfl
        · rw [Nat.mod_eq_of_lt bounded]
          exact refused _ null
      · obtain ⟨after, done, _⟩ := WriteDone.of_ready bounded ((if_pos large).trans grows) ready
        exact Or.inr ⟨bounded, after, done, copies⟩
    · have ready : Ready storage s.heap s.heap s.file s.file s.heap.mem (offset.toNat + bytes.length) :=
        { holds := ⟨blocks, holds⟩, size := rfl, room := Nat.le_of_not_lt large, old := fun _ _ => rfl
          new := fun _ _ _ => rfl }
      obtain ⟨after, done, _⟩ := WriteDone.of_ready bounded (if_neg large) ready
      exact Or.inr ⟨bounded, after, done, copies⟩
  · refine Or.inl ⟨?_, refused _ null⟩
    have unchanged := kmalloc_refused holds.intact.heap null
    rw [tmpfsWrite, if_pos large, tmpfsGrow, ← growRequest, unchanged]
    rfl

theorem write_inBounds {offset : UInt64} {bytes : List UInt8}
    (fits : WriteFits storage.address s offset bytes) :
    WriteInBounds storage.address s offset bytes := by
  obtain ⟨oldBytes, _⟩ := holds.bytes
  have oldWithin := holds.within
  rcases tmpfsWrite_fits holds fits with ⟨failed, nothing⟩ | ⟨bounded, after, done, copies⟩
  · refine { copied := ?_, stored := ?_, refused := ?_, done := ?_ }
    · intro place member
      rw [nothing] at member
      cases member
    · intro succeeds
      rw [failed] at succeeds
      cases succeeds
    · intro _
      rw [failed]
    · intro succeeds
      rw [failed] at succeeds
      cases succeeds
  · obtain ⟨afterBlocks, afterHolds⟩ := done.holds
    obtain ⟨newBytes, _⟩ := afterHolds.bytes
    have newWithin := afterHolds.within
    have size := done.size
    refine { copied := ?_, stored := ?_, refused := ?_, done := ?_ }
    · intro place member
      have inside := copies place member
      rw [done.result, oldBytes]
      dsimp only
      rw [newBytes]
      omega
    · intro _ place member
      obtain ⟨index, lower, same⟩ := List.mem_map.mp member
      have index := List.mem_range.mp lower
      rw [Nat.mod_eq_of_lt (by omega)] at same
      rw [done.result]
      dsimp only
      rw [newBytes]
      omega
    · intro fails
      rw [done.result] at fails
      cases fails
    · intro _
      rw [done.result]
      dsimp only
      omega

theorem read_inBounds (offset size : UInt64) :
    (∀ place ∈ readPlaces s.file offset size, place < bufferBytes s.heap.mem s.file) ↔
      s.file.data = 0 ∨ offset.toNat ≥ s.file.size ∨ offset.toNat + size.toNat < 2 ^ 64 := by
  obtain ⟨oldBytes, few⟩ := holds.bytes
  have within := holds.within
  have little : heapBytes < 2 ^ 62 := by decide
  have wide := offset.toNat_lt
  have large := size.toNat_lt
  rw [oldBytes, readPlaces]
  split
  next nothing =>
    refine iff_of_true (fun place member => by cases member) ?_
    rcases nothing with null | beyond
    · exact Or.inl null
    · exact Or.inr (Or.inl beyond)
  next held =>
    rw [not_or, Nat.not_le] at held
    obtain ⟨held, inside⟩ := held
    by_cases bounded : offset.toNat + size.toNat < 2 ^ 64
    · refine iff_of_true (fun place member => ?_) (Or.inr (Or.inr bounded))
      obtain ⟨index, lower, same⟩ := List.mem_map.mp member
      have count := List.mem_range.mp lower
      rw [Nat.mod_eq_of_lt bounded] at count
      split at count
      next =>
        rw [Nat.mod_eq_of_lt (by omega)] at same
        omega
      next =>
        rw [Nat.mod_eq_of_lt (by omega)] at same
        omega
    · have wraps : (offset.toNat + size.toNat) % 2 ^ 64 = offset.toNat + size.toNat - 2 ^ 64 := by
        rw [Nat.mod_eq_sub_mod (Nat.le_of_not_lt bounded)]
        exact Nat.mod_eq_of_lt (by omega)
      refine iff_of_false (fun every => ?_) (not_or.mpr ⟨held, not_or.mpr ⟨Nat.not_le.mpr inside, bounded⟩⟩)
      refine absurd (every s.file.allocatedSize
        (List.mem_map.mpr ⟨s.file.allocatedSize - offset.toNat, ?_, ?_⟩)) (Nat.lt_irrefl _)
      · rw [List.mem_range, wraps, if_neg (by omega)]
        omega
      · rw [Nat.add_sub_cancel' (by omega)]
        exact Nat.mod_eq_of_lt (by omega)

theorem tmpfsUse_holds {next : TmpfsUse} {call : TmpfsUseCall}
    (fits : UseFits storage s call) (stepped : tmpfsUse storage.address s call = some next) :
    ∃ after, HoldsBuffer storage next.heap next.file after := by
  cases call with
  | write offset bytes =>
      rw [tmpfsUse] at stepped
      rcases tmpfsWrite_fits holds fits with ⟨failed, _⟩ | ⟨_, after, done, _⟩
      · rw [failed] at stepped
        cases stepped
        exact ⟨blocks, holds⟩
      · rw [done.result] at stepped
        cases stepped
        exact done.holds
  | other call =>
      rw [tmpfsUse] at stepped
      split at stepped
      next apart =>
        obtain ⟨heap, called, same⟩ := Option.map_eq_some_iff.mp stepped
        subst same
        obtain ⟨after, kept, _⟩ := holds.others apart (heapCall_effect holds.intact fits called)
        exact ⟨after, kept⟩
      next => cases stepped

end

end Bounds

theorem tmpfsUseStart_holds (storage : HeapStorage) (mem : Mem) :
    ∃ blocks, HoldsBuffer storage (tmpfsUseStart storage.address mem).heap
      (tmpfsUseStart storage.address mem).file blocks :=
  ⟨_, heapStart_intact storage mem, fun held => absurd rfl held, fun _ => rfl, Nat.le_refl _⟩

theorem tmpfs_accesses (storage : HeapStorage) (mem : Mem) (calls : List TmpfsUseCall) (s : TmpfsUse)
    (reached : runActions (tmpfsUse storage.address) (tmpfsUseStart storage.address mem) calls = some s)
    (fits : RunMeets (tmpfsUse storage.address) (UseFits storage)
      (tmpfsUseStart storage.address mem) calls) :
    (∀ offset bytes, WriteFits storage.address s offset bytes →
      WriteInBounds storage.address s offset bytes) ∧
    ∀ offset size, (∀ place ∈ readPlaces s.file offset size, place < bufferBytes s.heap.mem s.file) ↔
      s.file.data = 0 ∨ offset.toNat ≥ s.file.size ∨ offset.toNat + size.toNat < 2 ^ 64 := by
  obtain ⟨blocks, holds⟩ : ∃ blocks, HoldsBuffer storage s.heap s.file blocks := by
    refine @runActions_guarded _ _ _ _ (fun s => ∃ blocks, HoldsBuffer storage s.heap s.file blocks)
      ?_ _ _ _ (tmpfsUseStart_holds storage mem) fits reached
    rintro before call after ⟨blocks, holds⟩ fits stepped
    exact tmpfsUse_holds holds fits stepped
  exact ⟨fun offset bytes fits => write_inBounds holds fits, fun offset size =>
    read_inBounds holds offset size⟩

theorem tmpfs_accesses_threeBytes : ∃ s,
    runActions (tmpfsUse lowStorage.address) (tmpfsUseStart lowStorage.address fun _ => 0)
    [.write 0 [1, 2, 3]] = some s ∧ WriteInBounds lowStorage.address s 5 [9] := by
  refine ⟨_, rfl, (tmpfs_accesses lowStorage (fun _ => 0) [.write 0 [1, 2, 3]] _ rfl ?_).1 5 [9] ?_⟩
  · exact ⟨Or.inr (Or.inl (by decide)), fun _ _ => trivial⟩
  · exact Or.inr (Or.inl (by decide))

/-- One byte at the last offset of all: the end wraps to zero, and the write reports success. -/
theorem lastOffset_outside :
    ¬ ∀ (storage : HeapStorage) (mem : Mem) (calls : List TmpfsUseCall) (s : TmpfsUse)
    (offset : UInt64) (bytes : List UInt8),
    runActions (tmpfsUse storage.address) (tmpfsUseStart storage.address mem) calls = some s →
      bytes.length ≤ 4096 → WriteInBounds storage.address s offset bytes := by
  intro every
  have done := (every lowStorage (fun _ => 0) [] _ 0xFFFFFFFFFFFFFFFF [7] rfl (by decide)).done rfl
  exact absurd done (by decide)

end Szczupak
