import Szczupak.Mm.HeapCalls

/-!
The contents of tmpfs files: `tmpfs_read` and `tmpfs_write` on the buffers they get from the
kernel heap.  `tmpfs_data_t` and the node's size are records; the buffer is memory, with what
its earlier holders left in it.
-/

namespace Szczupak

/-- `data` and `allocated_size` of `tmpfs_data_t` and the `size` of the node. -/
structure TmpfsFile where
  data : Nat
  allocatedSize : Nat
  size : Nat

def TmpfsFile.created : TmpfsFile := { data := 0, allocatedSize := 0, size := 0 }

def tmpfsRead (mem : Mem) (file : TmpfsFile) (offset size : Nat) : Option (List UInt8) :=
  if file.data = 0 ∨ offset ≥ file.size then none
  else
    let readSize := if (offset + size) % 2 ^ 64 > file.size then file.size - offset else size
    some (mem.read (file.data + offset) readSize)

def copyBytes (target source count : Nat) (mem : Mem) : Mem :=
  (List.range count).foldl (fun mem index => mem.set (target + index) (mem (source + index))) mem

/-- The branch of `tmpfs_write` for a buffer that is too small. -/
def tmpfsGrow (storage : Nat) (heap : HeapState) (file : TmpfsFile) (neededSize : Nat) :
    Bool × HeapState × TmpfsFile :=
  let newSize := neededSize * 2 % 2 ^ 64
  let (newData, mem) := kmalloc storage heap.mem (UInt64.ofNat newSize)
  if newData = 0 then (false, ⟨mem, heap.live⟩, file)
  else
    let grown := { file with data := newData, allocatedSize := newSize }
    if file.data = 0 then (true, ⟨mem, newData :: heap.live⟩, grown)
    else
      let copied := copyBytes newData file.data file.size mem
      (true, ⟨kfree storage copied file.data, newData :: heap.live.erase file.data⟩, grown)

def tmpfsWrite (storage : Nat) (heap : HeapState) (file : TmpfsFile) (offset : Nat)
    (bytes : List UInt8) : Bool × HeapState × TmpfsFile :=
  let neededSize := (offset + bytes.length) % 2 ^ 64
  let (ok, heap, file) :=
    if neededSize > file.allocatedSize then tmpfsGrow storage heap file neededSize
    else (true, heap, file)
  if ok then
    let size := if neededSize > file.size then neededSize else file.size
    (true, ⟨heap.mem.store (file.data + offset) bytes, heap.live⟩, { file with size })
  else (false, heap, file)

/-- `written` records the last byte written to each place; no routine reads it. -/
structure TmpfsState where
  heap : HeapState
  file : TmpfsFile
  written : Nat → Option UInt8

inductive TmpfsCall where
  | write (offset : Nat) (bytes : List UInt8)
  | other (call : HeapCall)

def overwrite (written : Nat → Option UInt8) (offset : Nat) (bytes : List UInt8) :
    Nat → Option UInt8 :=
  fun place =>
    if offset ≤ place ∧ place < offset + bytes.length then some (bytes.getD (place - offset) 0)
    else written place

/-- A write to the file, or a call of the rest of the kernel on the heap, which does not hold
the buffer of the file. -/
def tmpfsStep (storage : Nat) (s : TmpfsState) : TmpfsCall → Option TmpfsState
  | .write offset bytes =>
      if offset + bytes.length < 2 ^ 62 then
        let (ok, heap, file) := tmpfsWrite storage s.heap s.file offset bytes
        some { heap, file, written := if ok then overwrite s.written offset bytes else s.written }
      else none
  | .other call =>
      if call.target = 0 ∨ call.target ≠ s.file.data then
        (heapStep storage s.heap call).map fun heap => { s with heap }
      else none

def tmpfsStart (storage : Nat) (mem : Mem) : TmpfsState where
  heap := heapStart storage mem
  file := .created
  written _ := none

/-- Every range below the file's size reads as the bytes last written there, and as zero where
nothing was written. -/
def ReadsZeroFilled (s : TmpfsState) : Prop :=
  ∀ offset size, 0 < size → offset + size ≤ s.file.size →
    tmpfsRead s.heap.mem s.file offset size =
      some ((List.range size).map fun index => (s.written (offset + index)).getD 0)

def nextBuffer (storage : Nat) (s : TmpfsState) (neededSize : Nat) : Mem × Nat :=
  if neededSize > s.file.allocatedSize then
    let (newData, mem) := kmalloc storage s.heap.mem (UInt64.ofNat (neededSize * 2 % 2 ^ 64))
    (mem, newData)
  else (s.heap.mem, s.file.data)

/-- The write leaves no gap behind the end of the file, or what the heap left there is zero. -/
def GapIsZero (storage : Nat) (s : TmpfsState) : TmpfsCall → Prop
  | .write offset bytes =>
      let buffer := nextBuffer storage s (offset + bytes.length)
      buffer.2 = 0 ∨ ∀ place < offset, s.file.size ≤ place → buffer.1 (buffer.2 + place) = 0
  | .other _ => True

instance (storage : Nat) (s : TmpfsState) (call : TmpfsCall) : Decidable (GapIsZero storage s call) :=
  match call with
  | .write _ _ => inferInstanceAs (Decidable (_ ∨ _))
  | .other _ => .isTrue trivial

section Copy

variable {mem : Mem} {target source count : Nat}

theorem copyBytes_succ : copyBytes target source (count + 1) mem =
    (copyBytes target source count mem).set (target + count)
      (copyBytes target source count mem (source + count)) := by
  rw [copyBytes, List.range_succ, List.foldl_append]
  rfl

theorem copyBytes_outside {place : Nat} (outside : place < target ∨ target + count ≤ place) :
    copyBytes target source count mem place = mem place := by
  induction count with
  | zero => rfl
  | succ count ih =>
      rw [copyBytes_succ, Mem.set_other _ _ (by omega)]
      exact ih (by omega)

theorem copyBytes_inside (apart : source + count ≤ target ∨ target + count ≤ source) {index : Nat}
    (bound : index < count) : copyBytes target source count mem (target + index) =
    mem (source + index) := by
  induction count with
  | zero => exact absurd bound (Nat.not_lt_zero index)
  | succ count ih =>
      rw [copyBytes_succ]
      by_cases last : index = count
      · rw [last, Mem.set_same]
        exact copyBytes_outside (by omega)
      · rw [Mem.set_other _ _ (by omega)]
        exact ih (by omega) (by omega)

end Copy

section Buffers

variable {storage : HeapStorage} {heap : HeapState} {file : TmpfsFile}

structure HoldsBuffer (storage : HeapStorage) (heap : HeapState) (file : TmpfsFile)
    (blocks : List HeapBlock) : Prop where
  intact : HeapIntact storage heap blocks
  granted : file.data ≠ 0 → ∃ granted, file.allocatedSize ≤ granted ∧
    (file.data, granted) ∈ livePayloads storage.address blocks
  empty : file.data = 0 → file.allocatedSize = 0
  within : file.size ≤ file.allocatedSize

variable {bytes : List UInt8} {blocks : List HeapBlock}

theorem HoldsBuffer.store (holds : HoldsBuffer storage heap file blocks)
    {offset : Nat} (inside : offset + bytes.length ≤ file.allocatedSize) :
    HoldsBuffer storage ⟨heap.mem.store (file.data + offset) bytes, heap.live⟩ file blocks := by
  by_cases null : file.data = 0
  · have noBytes : bytes = [] := by
      have noSize := holds.empty null
      exact List.length_eq_zero_iff.mp (by omega)
    rw [noBytes, Mem.store_nil]
    exact holds
  · obtain ⟨granted, large, live⟩ := holds.granted null
    have outside : ∀ byte, byte < file.data ∨ file.data + granted ≤ byte →
        heap.mem.store (file.data + offset) bytes byte = heap.mem byte :=
      fun byte apart => Mem.store_outside _ (by omega)
    have heapAfter := (payload_write holds.intact.heap live outside).1
    exact ⟨⟨heapAfter, holds.intact.live⟩, holds.granted, holds.empty, holds.within⟩

theorem HoldsBuffer.others (holds : HoldsBuffer storage heap file blocks) {next : HeapState}
    {target : Nat} (apart : target = 0 ∨ target ≠ file.data) (effect :
    StepEffect storage heap next blocks target) : ∃ after, HoldsBuffer storage next file after ∧
      ∀ place < file.size, next.mem (file.data + place) = heap.mem (file.data + place) := by
  obtain ⟨after, intact, kept⟩ := effect
  have within := holds.within
  have stays : file.data ≠ 0 → ∃ granted, file.allocatedSize ≤ granted ∧
      (file.data, granted) ∈ livePayloads storage.address after ∧
      ∀ place < granted, next.mem (file.data + place) = heap.mem (file.data + place) := by
    intro held
    obtain ⟨granted, large, live⟩ := holds.granted held
    have different : file.data ≠ target := by
      rcases apart with null | different
      · exact null ▸ held
      · exact different.symm
    obtain ⟨stays, same⟩ := kept file.data granted live different
    exact ⟨granted, large, stays, fun place bound => same _ (by omega) (by omega)⟩
  refine ⟨after, ⟨intact, fun held => ?_, holds.empty, holds.within⟩, fun place bound => ?_⟩
  · obtain ⟨granted, large, live, _⟩ := stays held
    exact ⟨granted, large, live⟩
  · by_cases null : file.data = 0
    · have noRoom := holds.empty null
      omega
    · obtain ⟨granted, large, _, same⟩ := stays null
      exact same place (by omega)

structure Ready (storage : HeapStorage) (heap after : HeapState)
    (file grown : TmpfsFile) (mem : Mem) (neededSize : Nat) : Prop where
  holds : ∃ blocks, HoldsBuffer storage after grown blocks
  size : grown.size = file.size
  room : neededSize ≤ grown.allocatedSize
  old : ∀ place < file.size, after.mem (grown.data + place) = heap.mem (file.data + place)
  new : ∀ place, file.size ≤ place → place < neededSize →
    after.mem (grown.data + place) = mem (grown.data + place)

def growRequest (neededSize : Nat) : UInt64 := UInt64.ofNat (neededSize * 2 % 2 ^ 64)

theorem growRequest_toNat {neededSize : Nat} (bounded : neededSize * 2 ≤ maxRequest) :
    (growRequest neededSize).toNat = neededSize * 2 := by
  rw [maxRequest] at bounded
  rw [growRequest, UInt64.toNat_ofNat', Nat.mod_mod]
  exact Nat.mod_eq_of_lt (by omega)

theorem Ready.fresh {blocks after : List HeapBlock} {mem : Mem} {newData granted neededSize : Nat}
    (holds : HoldsBuffer storage heap file blocks) (null : file.data = 0) (nonNull : 0 < newData)
    (large : neededSize * 2 ≤ granted) (needed : file.allocatedSize < neededSize)
    (grants : Allocates storage heap.mem mem blocks after newData granted) :
    Ready storage heap ⟨mem, newData :: heap.live⟩ file
      { file with data := newData, allocatedSize := neededSize * 2 } mem neededSize := by
  have live : (newData :: heap.live).Perm (livePointers storage after) :=
    (holds.intact.live.cons newData).trans (grants.live.map Prod.fst).symm
  have within := holds.within
  have noSize := holds.empty null
  refine { holds := ⟨after, ?_⟩, size := rfl, room := ?_, old := ?_, new := ?_ }
  · refine { intact := ⟨grants.heap, live⟩, granted := ?_, empty := ?_, within := ?_ }
    · exact fun _ => ⟨granted, large, grants.member⟩
    · intro isNull
      exact absurd isNull (Nat.ne_of_gt nonNull)
    · change file.size ≤ neededSize * 2
      omega
  · change neededSize ≤ neededSize * 2
    omega
  · intro place bound
    omega
  · intro place _ _
    rfl

theorem Ready.copied {blocks after : List HeapBlock} {mem : Mem} {newData granted neededSize : Nat}
    (holds : HoldsBuffer storage heap file blocks) (held : file.data ≠ 0) (nonNull : 0 < newData)
    (large : neededSize * 2 ≤ granted) (needed : file.allocatedSize < neededSize)
    (grants : Allocates storage heap.mem mem blocks after newData granted) :
    Ready storage heap
      ⟨kfree storage.address (copyBytes newData file.data file.size mem) file.data,
        newData :: heap.live.erase file.data⟩
      file { file with data := newData, allocatedSize := neededSize * 2 } mem neededSize := by
  obtain ⟨oldGranted, oldLarge, oldLive⟩ := holds.granted held
  have within := holds.within
  have different : file.data ≠ newData := grants.fresh oldLive
  obtain ⟨oldStays, oldSame⟩ := grants.kept 0 file.data oldGranted oldLive held
  have apart := live_disjoint oldStays grants.member different.symm
  generalize copying : copyBytes newData file.data file.size mem = copied
  have outside : ∀ byte, byte < newData ∨ newData + granted ≤ byte → copied byte = mem byte := by
    intro byte away
    rw [← copying]
    exact copyBytes_outside (by omega)
  have filled := grants.write outside
  obtain ⟨_, stays⟩ := payload_write grants.heap grants.member outside
  obtain ⟨final, releases⟩ :=
    kfree_releases filled.heap (stays file.data oldGranted oldStays different).1
  obtain ⟨newStays, newSame⟩ := releases.kept newData granted filled.member different.symm
  have intact := filled.moved_intact holds.intact oldLive releases
  have inNew : ∀ place < neededSize,
      kfree storage.address copied file.data (newData + place) = copied (newData + place) :=
    fun place bound => newSame _ (by omega) (by omega)
  refine { holds := ⟨final, ?_⟩, size := rfl, room := ?_, old := ?_, new := ?_ }
  · refine { intact := intact, granted := ?_, empty := ?_, within := ?_ }
    · exact fun _ => ⟨granted, large, newStays⟩
    · intro isNull
      exact absurd isNull (Nat.ne_of_gt nonNull)
    · change file.size ≤ neededSize * 2
      omega
  · change neededSize ≤ neededSize * 2
    omega
  · intro place bound
    refine (inNew place (by omega)).trans ?_
    rw [← copying, copyBytes_inside (by omega) bound]
    exact oldSame _ (by omega) (by omega)
  · intro place lower upper
    refine (inNew place upper).trans ?_
    rw [← copying]
    exact copyBytes_outside (by omega)

theorem tmpfsGrow_spec {neededSize : Nat}
    (holds : HoldsBuffer storage heap file blocks) (needed : file.allocatedSize < neededSize)
    (bounded : neededSize * 2 ≤ maxRequest) :
    (tmpfsGrow storage.address heap file neededSize = (false, heap, file) ∧
      (kmalloc storage.address heap.mem (growRequest neededSize)).1 = 0) ∨
    ∃ after grown, tmpfsGrow storage.address heap file neededSize = (true, after, grown) ∧
      grown.data = (kmalloc storage.address heap.mem (growRequest neededSize)).1 ∧ grown.data ≠ 0 ∧
      Ready storage heap after file grown
        (kmalloc storage.address heap.mem (growRequest neededSize)).2 neededSize := by
  have request := growRequest_toNat bounded
  rw [maxRequest] at bounded
  have newSize : neededSize * 2 % 2 ^ 64 = neededSize * 2 := Nat.mod_eq_of_lt (by omega)
  rw [tmpfsGrow]
  rw [← growRequest, newSize]
  rcases kmalloc_allocates holds.intact.heap (by omega : (growRequest neededSize).toNat ≤ 2 ^ 64 - 8)
    with failed | ⟨nonNull, blocksAfter, granted, large, grants⟩
  · rw [failed]
    exact Or.inl ⟨rfl, rfl⟩
  · rw [request] at large
    generalize kmalloc storage.address heap.mem (growRequest neededSize) = allocation at *
    obtain ⟨newData, mem⟩ := allocation
    dsimp only at *
    rw [if_neg (Nat.ne_of_gt nonNull)]
    refine Or.inr ?_
    by_cases null : file.data = 0
    · rw [if_pos null]
      exact ⟨_, _, rfl, rfl, Nat.ne_of_gt nonNull, Ready.fresh holds null nonNull large needed grants⟩
    · rw [if_neg null]
      exact ⟨_, _, rfl, rfl, Nat.ne_of_gt nonNull, Ready.copied holds null nonNull large needed grants⟩

end Buffers

section Writes

variable {storage : HeapStorage} {s next : TmpfsState}

structure TmpfsIntact (storage : HeapStorage) (s : TmpfsState) : Prop where
  holds : ∃ blocks, HoldsBuffer storage s.heap s.file blocks
  unwritten : ∀ place, s.file.size ≤ place → s.written place = none

def ZeroFilled (s : TmpfsState) : Prop :=
  ∀ place < s.file.size, s.heap.mem (s.file.data + place) = (s.written place).getD 0

structure Written (storage : Nat) (s next : TmpfsState) (offset : Nat) (bytes : List UInt8) :
    Prop where
  buffer : (nextBuffer storage s (offset + bytes.length)).2 = next.file.data
  held : next.file.data = 0 → next.file.size = 0
  size : next.file.size = max s.file.size (offset + bytes.length)
  written : next.written = overwrite s.written offset bytes
  inside : ∀ index < bytes.length, next.heap.mem (next.file.data + (offset + index)) =
    bytes.getD index 0
  old : ∀ place < s.file.size, (place < offset ∨ offset + bytes.length ≤ place) →
    next.heap.mem (next.file.data + place) = s.heap.mem (s.file.data + place)
  gap : ∀ place < offset, s.file.size ≤ place → next.heap.mem (next.file.data + place) =
    (nextBuffer storage s (offset + bytes.length)).1 (next.file.data + place)

theorem nextBuffer_ready (intact : TmpfsIntact storage s) {neededSize : Nat}
    (bounded : neededSize < 2 ^ 62) :
    ∃ ok after file, (if neededSize > s.file.allocatedSize then
        tmpfsGrow storage.address s.heap s.file neededSize else (true, s.heap, s.file)) =
      (ok, after, file) ∧
    ((ok = false ∧ after = s.heap ∧ file = s.file ∧ (nextBuffer storage.address s neededSize).2 =
      0) ∨ (ok = true ∧ (nextBuffer storage.address s neededSize).2 = file.data ∧
        Ready storage s.heap after s.file file (nextBuffer storage.address s neededSize).1 neededSize)) := by
  obtain ⟨blocks, holds⟩ := intact.holds
  rw [nextBuffer]
  by_cases large : neededSize > s.file.allocatedSize
  · rw [if_pos large, if_pos large]
    rcases tmpfsGrow_spec holds large (by rw [maxRequest]; omega) with
      ⟨failed, null⟩ | ⟨after, grown, grows, sameData, _, ready⟩
    · exact ⟨_, _, _, failed, Or.inl ⟨rfl, rfl, rfl, null⟩⟩
    · exact ⟨_, _, _, grows, Or.inr ⟨rfl, sameData.symm, ready⟩⟩
  · rw [if_neg large, if_neg large]
    refine ⟨_, _, _, rfl, Or.inr ⟨rfl, rfl, ?_⟩⟩
    exact { holds := ⟨blocks, holds⟩, size := rfl, room := Nat.le_of_not_lt large
            old := fun _ _ => rfl, new := fun _ _ _ => rfl }

theorem store_inside {mem : Mem} {data offset index : Nat} (bound : index < bytes.length) :
    mem.store (data + offset) bytes (data + (offset + index)) = bytes.getD index 0 := by
  rw [Mem.store, if_pos (by omega)]
  congr 1
  omega

section

variable (intact : TmpfsIntact storage s)
include intact

theorem tmpfsWrite_spec {offset : Nat}
    (stepped : tmpfsStep storage.address s (.write offset bytes) = some next) :
    TmpfsIntact storage next ∧
      ((next = s ∧ (nextBuffer storage.address s (offset + bytes.length)).2 = 0) ∨
        Written storage.address s next offset bytes) := by
  rw [tmpfsStep] at stepped
  split at stepped
  swap
  · cases stepped
  next bounded =>
    have needed : (offset + bytes.length) % 2 ^ 64 = offset + bytes.length :=
      Nat.mod_eq_of_lt (by omega)
    obtain ⟨ok, after, file, stage, outcome⟩ := nextBuffer_ready intact bounded
    rw [tmpfsWrite, needed, stage] at stepped
    rcases outcome with ⟨rfl, rfl, rfl, null⟩ | ⟨rfl, sameData, ready⟩
    · cases stepped
      exact ⟨intact, Or.inl ⟨rfl, null⟩⟩
    · obtain ⟨blocks, holds⟩ := ready.holds
      have stored := holds.store ready.room
      have within := holds.within
      have room := ready.room
      have sameSize := ready.size
      have size : (if offset + bytes.length > file.size then offset + bytes.length else file.size) =
          max s.file.size (offset + bytes.length) := by
        rw [sameSize]
        split
        · omega
        · omega
      dsimp only at stepped
      rw [if_pos rfl, size] at stepped
      dsimp only at stepped
      rw [if_pos rfl] at stepped
      cases stepped
      refine ⟨⟨⟨blocks, stored.intact, stored.granted, stored.empty, ?_⟩, ?_⟩, Or.inr ?_⟩
      · change max s.file.size (offset + bytes.length) ≤ file.allocatedSize
        omega
      · intro place beyond
        change max s.file.size (offset + bytes.length) ≤ place at beyond
        change overwrite s.written offset bytes place = none
        rw [overwrite, if_neg (by omega)]
        exact intact.unwritten place (by omega)
      · refine { buffer := sameData, held := ?_, size := rfl, written := rfl
                 inside := fun _ bound => store_inside bound, old := ?_, gap := ?_ }
        · intro null
          have noRoom := holds.empty null
          change max s.file.size (offset + bytes.length) = 0
          omega
        · intro place bound outside
          refine (Mem.store_outside _ ?_).trans (ready.old place bound)
          change file.data + place < file.data + offset ∨
            file.data + offset + bytes.length ≤ file.data + place
          omega
        · intro place bound beyond
          refine (Mem.store_outside _ ?_).trans (ready.new place beyond (by omega))
          exact Or.inl (Nat.add_lt_add_left bound file.data)

theorem otherCall_spec {call : HeapCall}
    (stepped : tmpfsStep storage.address s (.other call) = some next) :
    TmpfsIntact storage next ∧ next.file = s.file ∧ next.written = s.written ∧
      ∀ place < s.file.size, next.heap.mem (s.file.data + place) = s.heap.mem (s.file.data + place) := by
  rw [tmpfsStep] at stepped
  split at stepped
  swap
  · cases stepped
  next apart =>
    obtain ⟨heap, called, rfl⟩ := Option.map_eq_some_iff.mp stepped
    obtain ⟨blocks, holds⟩ := intact.holds
    obtain ⟨after, kept, same⟩ := holds.others apart (heapStep_effect holds.intact called)
    exact ⟨⟨⟨after, kept⟩, intact.unwritten⟩, rfl, rfl, same⟩

theorem TmpfsIntact.step {call : TmpfsCall}
    (stepped : tmpfsStep storage.address s call = some next) : TmpfsIntact storage next := by
  cases call with
  | write offset bytes => exact (tmpfsWrite_spec intact stepped).1
  | other call => exact (otherCall_spec intact stepped).1

theorem Written.zeroFilled_iff (filled : ZeroFilled s)
    {offset : Nat} (wrote : Written storage.address s next offset bytes) :
    ZeroFilled next ↔ GapIsZero storage.address s (.write offset bytes) := by
  have size := wrote.size
  have inGap : ∀ place < offset, s.file.size ≤ place → next.written place = none := by
    intro place bound beyond
    rw [wrote.written, overwrite, if_neg (by omega)]
    exact intact.unwritten place beyond
  rw [GapIsZero]
  rw [wrote.buffer]
  constructor
  · intro zero
    by_cases null : next.file.data = 0
    · exact Or.inl null
    · refine Or.inr fun place bound beyond => ?_
      rw [← wrote.gap place bound beyond, zero place (by omega), inGap place bound beyond]
      rfl
  · intro gap place bound
    by_cases inside : offset ≤ place ∧ place < offset + bytes.length
    · have stored := wrote.inside (place - offset) (by omega)
      rw [Nat.add_sub_of_le inside.1] at stored
      rw [stored, wrote.written, overwrite, if_pos inside, Option.getD_some]
    · by_cases wasInside : place < s.file.size
      · rw [wrote.old place wasInside (by omega), wrote.written, overwrite, if_neg inside]
        exact filled place wasInside
      · have isGap : place < offset := by omega
        rw [wrote.gap place isGap (by omega), inGap place isGap (by omega)]
        rcases gap with null | zero
        · exact absurd bound (by rw [wrote.held null]; exact Nat.not_lt_zero place)
        · exact zero place isGap (by omega)

theorem ZeroFilled.step_iff (filled : ZeroFilled s)
    {call : TmpfsCall} (stepped : tmpfsStep storage.address s call = some next) :
    ZeroFilled next ↔ GapIsZero storage.address s call := by
  cases call with
  | write offset bytes =>
      obtain ⟨_, ⟨same, null⟩ | wrote⟩ := tmpfsWrite_spec intact stepped
      · rw [same]
        exact iff_of_true filled (Or.inl null)
      · exact wrote.zeroFilled_iff intact filled
  | other call =>
      obtain ⟨_, file, written, kept⟩ := otherCall_spec intact stepped
      refine iff_of_true ?_ trivial
      intro place bound
      rw [file] at bound ⊢
      rw [kept place bound, written]
      exact filled place bound

theorem TmpfsIntact.small : s.file.size < 2 ^ 64 := by
  obtain ⟨blocks, holds⟩ := intact.holds
  have within := holds.within
  by_cases null : s.file.data = 0
  · have noRoom := holds.empty null
    omega
  · obtain ⟨granted, large, live⟩ := holds.granted null
    have bounds := holds.intact.heap.live_bounds live
    have stop := storage.fits
    rw [HeapStorage.stop] at bounds
    omega

theorem tmpfsRead_inside {offset size : Nat} (positive : 0 < size)
    (inside : offset + size ≤ s.file.size) :
    tmpfsRead s.heap.mem s.file offset size = some (s.heap.mem.read (s.file.data + offset) size) := by
  obtain ⟨blocks, holds⟩ := intact.holds
  have within := holds.within
  have small := intact.small
  have held : ¬ (s.file.data = 0 ∨ offset ≥ s.file.size) := by
    rintro (null | beyond)
    · have noRoom := holds.empty null
      omega
    · omega
  have noWrap : (offset + size) % 2 ^ 64 = offset + size := Nat.mod_eq_of_lt (by omega)
  rw [tmpfsRead, if_neg held, noWrap]
  dsimp only
  rw [if_neg (Nat.not_lt_of_le inside)]

theorem readsZeroFilled_iff : ReadsZeroFilled s ↔ ZeroFilled s := by
  constructor
  · intro reads place bound
    have inside : place + 1 ≤ s.file.size := bound
    have one := reads place 1 Nat.one_pos inside
    rw [tmpfsRead_inside intact Nat.one_pos inside, Option.some.injEq] at one
    exact (List.cons.inj one).1
  · intro filled offset size positive inside
    rw [tmpfsRead_inside intact positive inside, Option.some.injEq]
    refine List.map_congr_left fun index member => ?_
    have bound := List.mem_range.mp member
    rw [Nat.add_assoc]
    exact filled (offset + index) (by omega)

end

theorem tmpfsStart_intact (storage : HeapStorage) (mem : Mem) :
    TmpfsIntact storage (tmpfsStart storage.address mem) where
  holds := ⟨_, heapStart_intact storage mem, fun held => absurd rfl held, fun _ => rfl, Nat.le_refl 0⟩
  unwritten _ _ := rfl

theorem tmpfsRun_intact {storage : HeapStorage} {mem : Mem} {calls : List TmpfsCall}
    {s : TmpfsState}
    (reached : runActions (tmpfsStep storage.address) (tmpfsStart storage.address mem) calls =
    some s) : TmpfsIntact storage s :=
  runActions_invariant (fun _ _ _ inv stepped => TmpfsIntact.step inv stepped)
    (tmpfsStart_intact storage mem) reached

end Writes

/-- Whatever the heap holds, the file reads as it should after every step of a run exactly when
no write leaves a gap that the buffer does not show as zero. -/
theorem tmpfs_files_read_zero_filled {storage : HeapStorage} {mem : Mem} {calls : List TmpfsCall}
    {final : TmpfsState}
    (reached : runActions (tmpfsStep storage.address) (tmpfsStart storage.address mem) calls =
      some final) :
    (∀ begun rest middle, calls = begun ++ rest →
      runActions (tmpfsStep storage.address) (tmpfsStart storage.address mem) begun = some middle →
      ReadsZeroFilled middle) ↔
    RunMeets (tmpfsStep storage.address) (GapIsZero storage.address)
      (tmpfsStart storage.address mem) calls := by
  rw [← runActions_exact_reached (fun _ _ _ inv stepped => TmpfsIntact.step inv stepped)
    (fun _ _ _ inv filled stepped => ZeroFilled.step_iff inv filled stepped)
    (tmpfsStart_intact storage mem) (fun _ bound => absurd bound (Nat.not_lt_zero _)) reached]
  refine forall₄_congr fun begun rest middle _ => forall_congr' fun taken => ?_
  exact readsZeroFilled_iff (tmpfsRun_intact taken)

def writtenFromStart : List TmpfsCall := [
  .other (.kmalloc 16), .other (.write 0x100028 0 0xAA), .other (.kfree 0x100028),
  .write 0 [1, 2], .other (.kmalloc 32), .write 2 [3, 4, 5], .write 1 [6]]

theorem writtenFromStart_reads : ∃ final,
    runActions (tmpfsStep lowStorage.address) (tmpfsStart lowStorage.address fun _ => 0)
      writtenFromStart = some final ∧
    tmpfsRead final.heap.mem final.file 0 5 = some [1, 6, 3, 4, 5] ∧ ReadsZeroFilled final := by
  have runs : (runActions (tmpfsStep lowStorage.address)
      (tmpfsStart lowStorage.address fun _ => 0) writtenFromStart).map
      (fun s => tmpfsRead s.heap.mem s.file 0 5) = some (some [1, 6, 3, 4, 5]) := by
    decide +kernel
  obtain ⟨final, reached, reads⟩ := Option.map_eq_some_iff.mp runs
  have filled := (tmpfs_files_read_zero_filled reached).mpr (by decide +kernel)
  exact ⟨final, reached, reads, filled writtenFromStart [] final (List.append_nil _).symm reached⟩

/-- The same block is used for a file of which only the fourth byte is written. -/
def writtenPastEnd : List TmpfsCall := [
  .other (.kmalloc 16), .other (.write 0x100028 0 0xAA), .other (.kfree 0x100028), .write 3 [1]]

/-- The first byte of the file is what the other code left there. -/
theorem gap_shows_heap : ¬ ∀ (storage : HeapStorage) (mem : Mem) (calls : List TmpfsCall)
    (final : TmpfsState),
    runActions (tmpfsStep storage.address) (tmpfsStart storage.address mem) calls = some final →
      ReadsZeroFilled final := by
  intro filled
  have runs : (runActions (tmpfsStep lowStorage.address)
      (tmpfsStart lowStorage.address fun _ => 0) writtenPastEnd).map
      (fun s => (s.file.size, tmpfsRead s.heap.mem s.file 0 1, s.written 0)) =
        some (4, some [0xAA], none) := by
    decide +kernel
  obtain ⟨final, reached, shown⟩ := Option.map_eq_some_iff.mp runs
  simp only [Prod.mk.injEq] at shown
  obtain ⟨size, reads, unwritten⟩ := shown
  have zero := filled lowStorage (fun _ => 0) writtenPastEnd final reached 0 1 Nat.one_pos (by omega)
  rw [reads, Option.some.injEq] at zero
  have first : (0xAA : UInt8) = (final.written 0).getD 0 := (List.cons.inj zero).1
  rw [unwritten] at first
  exact absurd first (by decide)

end Szczupak
