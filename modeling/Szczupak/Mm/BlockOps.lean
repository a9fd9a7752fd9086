import Szczupak.Mm.BlockOpsCore

/-!
The block operations against their definitions byte by
byte.  Every loop leaves what has been done so far in one piece.
-/

namespace Szczupak.KernelString

structure Filled (base count : Nat) (val : UInt8) (mem : Mem) (st : FillState) (done : Nat) : Prop where
  p : st.p = base + done
  n : st.n + done = count
  mem : st.mem = mem.fill base done val

section Fill

variable {base count done : Nat} {val : UInt8} {mem : Mem} {st : FillState}

theorem repeatByte_bytes (val : UInt8) : Mem.leBytes 8 (repeatByte val).toNat =
    List.replicate 8 val := by
  have every : ∀ n : Fin 256, Mem.leBytes 8 (repeatByte (UInt8.ofNat n)).toNat =
    List.replicate 8 (UInt8.ofNat n) := by
    decide +kernel
  have here := every ⟨val.toNat, val.toNat_lt⟩
  rwa [UInt8.ofNat_toNat] at here

theorem fill_eq_store (mem : Mem) (base count : Nat) (val : UInt8) :
    mem.fill base count val = mem.store base (List.replicate count val) := by
  funext other
  by_cases inside : base ≤ other ∧ other < base + count
  · rw [Mem.fill_inside _ _ inside.1 inside.2, Mem.store,
      if_pos (by rw [List.length_replicate]; exact inside), List.getD_replicate _ (by omega)]
  · rw [Mem.fill_outside _ _ (by omega), Mem.store_outside _ (by rw [List.length_replicate]; omega)]

section

variable (filled : Filled base count val mem st done)
include filled

theorem Filled.byte (some : 1 ≤ st.n) :
    Filled base count val mem (st.putByte val) (done + 1) := by
  refine ⟨?_, ?_, ?_⟩
  · rw [FillState.putByte, filled.p, Nat.add_assoc]
  · have left := filled.n
    dsimp only [FillState.putByte]
    omega
  · rw [FillState.putByte, filled.p, filled.mem, ← Mem.fill_append mem base done 1, fill_eq_store _ _ 1]
    exact (Mem.store_singleton _ _ _).symm

theorem Filled.word (enough : 8 ≤ st.n) :
    Filled base count val mem (st.putWord (repeatByte val)) (done + 8) := by
  refine ⟨?_, ?_, ?_⟩
  · rw [FillState.putWord, filled.p, Nat.add_assoc]
  · have left := filled.n
    dsimp only [FillState.putWord]
    omega
  · rw [FillState.putWord, filled.p, filled.mem, ← Mem.fill_append mem base done 8,
      fill_eq_store _ _ 8, ← repeatByte_bytes, Mem.writeU64, Mem.writeLE_eq_store]

theorem memsetHead_filled :
    ∃ done, Filled base count val mem (memsetHead val st) done := by
  fun_induction memsetHead val st generalizing done with
  | case1 st more ih => exact ih (filled.byte (by omega))
  | case2 => exact ⟨done, filled⟩

theorem memsetWords_filled :
    ∃ done, Filled base count val mem (memsetWords (repeatByte val) st) done := by
  fun_induction memsetWords (repeatByte val) st generalizing done with
  | case1 st more ih => exact ih (filled.word more)
  | case2 => exact ⟨done, filled⟩

theorem memsetTail_filled :
    Filled base count val mem (memsetTail val st) count := by
  fun_induction memsetTail val st generalizing done with
  | case1 st more ih => exact ih (filled.byte (by omega))
  | case2 st ended =>
      have all : done = count := by
        have left := filled.n
        omega
      exact all ▸ filled

end

theorem memset_fill (s : Nat) (c : Int32) (n : Nat) (mem : Mem) :
    memset s c n mem = (s, mem.fill s n c.toUInt32.toUInt8) := by
  have start : Filled s n c.toUInt32.toUInt8 mem ⟨s, n, mem⟩ 0 := by
    refine ⟨rfl, rfl, ?_⟩
    rw [fill_eq_store]
    exact (Mem.store_nil mem s).symm
  obtain ⟨first, head⟩ := memsetHead_filled start
  rw [memset]
  split
  next =>
    obtain ⟨second, words⟩ := memsetWords_filled head
    rw [(memsetTail_filled words).mem]
  next => rw [(memsetTail_filled head).mem]

end Fill

/-- A range that is copied from its start on is not overwritten before it is read. -/
def Forward (dest src count : Nat) : Prop := dest ≤ src ∨ src + count ≤ dest

structure Copied (dest src count : Nat) (mem : Mem) (st : CopyState) (done : Nat) : Prop where
  d : st.d = dest + done
  s : st.s = src + done
  n : st.n + done = count
  mem : st.mem = mem.store dest (mem.read src done)

section Copy

variable {dest src count done : Nat} {mem : Mem} {st : CopyState}

theorem copy_next (forward : Forward dest src count) {width : Nat} (fits : done + width ≤ count) :
    (mem.store dest (mem.read src done)).store (dest + done)
        ((mem.store dest (mem.read src done)).read (src + done) width) =
      mem.store dest (mem.read src (done + width)) := by
  have fresh : (mem.store dest (mem.read src done)).read (src + done) width =
    mem.read (src + done) width := by
    refine Mem.read_congr fun index inside => Mem.store_outside _ ?_
    rw [Mem.read_length]
    rw [Forward] at forward
    omega
  have placed := Mem.store_append mem dest (mem.read src done) (mem.read (src + done) width)
  rw [Mem.read_length] at placed
  rw [fresh, placed, ← Mem.read_add]

section

variable (copied : Copied dest src count mem st done)
include copied

theorem Copied.byte (forward : Forward dest src count) (some : 1 ≤ st.n) :
    Copied dest src count mem st.copyByte (done + 1) := by
  have left := copied.n
  refine ⟨?_, ?_, ?_, ?_⟩
  · rw [CopyState.copyByte, copied.d, Nat.add_assoc]
  · rw [CopyState.copyByte, copied.s, Nat.add_assoc]
  · dsimp only [CopyState.copyByte]
    omega
  · rw [CopyState.copyByte, copied.d, copied.s, copied.mem, ← copy_next forward
      (show done + 1 ≤ count by omega)]
    exact (Mem.store_singleton _ _ _).symm

theorem Copied.word (forward : Forward dest src count) (enough : 8 ≤ st.n) :
    Copied dest src count mem st.copyWord (done + 8) := by
  have left := copied.n
  refine ⟨?_, ?_, ?_, ?_⟩
  · rw [CopyState.copyWord, copied.d, Nat.add_assoc]
  · rw [CopyState.copyWord, copied.s, Nat.add_assoc]
  · dsimp only [CopyState.copyWord]
    omega
  · rw [CopyState.copyWord, copied.d, copied.s, copied.mem, ← copy_next forward
      (show done + 8 ≤ count by omega),
      Mem.writeU64, Mem.writeLE_eq_store, Mem.readU64, Mem.leBytes_readLE]

theorem Copied.block (forward : Forward dest src count) (enough : 64 ≤ st.n) :
    Copied dest src count mem st.copyBlock (done + 64) := by
  have left : ∀ words < 8, 8 ≤ st.n - 8 * words := fun words few => by omega
  have one := copied.word forward (left 0 (by decide))
  have two := one.word forward (left 1 (by decide))
  have three := two.word forward (left 2 (by decide))
  have four := three.word forward (left 3 (by decide))
  have five := four.word forward (left 4 (by decide))
  have six := five.word forward (left 5 (by decide))
  have seven := six.word forward (left 6 (by decide))
  exact seven.word forward (left 7 (by decide))

end

section

variable (forward : Forward dest src count)
include forward

section

variable (copied : Copied dest src count mem st done)
include copied

theorem memcpyHead_copied :
    ∃ done, Copied dest src count mem (memcpyHead st) done := by
  fun_induction memcpyHead st generalizing done with
  | case1 st more ih => exact ih (copied.byte forward (by omega))
  | case2 => exact ⟨done, copied⟩

theorem memcpyBlocks_copied :
    ∃ done, Copied dest src count mem (memcpyBlocks st) done := by
  fun_induction memcpyBlocks st generalizing done with
  | case1 st more ih => exact ih (copied.block forward more)
  | case2 => exact ⟨done, copied⟩

theorem memcpyWords_copied :
    ∃ done, Copied dest src count mem (memcpyWords st) done := by
  fun_induction memcpyWords st generalizing done with
  | case1 st more ih => exact ih (copied.word forward more)
  | case2 => exact ⟨done, copied⟩

theorem memcpyTail_copied :
    Copied dest src count mem (memcpyTail st) count := by
  fun_induction memcpyTail st generalizing done with
  | case1 st more ih => exact ih (copied.byte forward (by omega))
  | case2 st ended =>
      have all : done = count := by
        have left := copied.n
        omega
      exact all ▸ copied

end

theorem memcpy_forward (mem : Mem) :
    memcpy dest src count mem = (dest, mem.store dest (mem.read src count)) := by
  have start : Copied dest src count mem ⟨dest, src, count, mem⟩ 0 :=
    ⟨rfl, rfl, rfl, (Mem.store_nil mem dest).symm⟩
  obtain ⟨first, head⟩ := memcpyHead_copied forward start
  rw [memcpy]
  split
  next =>
    obtain ⟨second, blocks⟩ := memcpyBlocks_copied forward head
    obtain ⟨third, words⟩ := memcpyWords_copied forward blocks
    rw [(memcpyTail_copied forward words).mem]
  next => rw [(memcpyTail_copied forward head).mem]

end

end Copy

theorem memmoveDown_store {dest src : Nat} (above : src < dest) (n : Nat) (mem : Mem) :
    memmoveDown n (dest + n) (src + n) mem = mem.store dest (mem.read src n) := by
  induction n generalizing mem with
  | zero => exact (Mem.store_nil mem dest).symm
  | succ n ih =>
      have kept : (mem.set (dest + n) (mem (src + n))).read src n = mem.read src n := by
        refine Mem.read_congr fun index inside => Mem.set_other _ _ ?_
        omega
      rw [memmoveDown, Nat.add_succ_sub_one, Nat.add_succ_sub_one, ih, kept, Mem.read_add]
      have last : mem.read (src + n) 1 = [mem (src + n)] := rfl
      have placed := Mem.store_concat mem dest (mem.read src n) (mem (src + n))
      rw [Mem.read_length] at placed
      rw [last, ← placed]
      funext other
      by_cases here : other = dest + n
      · rw [here, Mem.set_same, Mem.store_outside _ (by rw [Mem.read_length]; omega), Mem.set_same]
      · rw [Mem.set_other _ _ here, Mem.store, Mem.store, Mem.set_other _ _ here]

theorem store_read_same (mem : Mem) (base count : Nat) :
    mem.store base (mem.read base count) = mem := by
  funext other
  rw [Mem.store, Mem.read_length]
  split
  next inside =>
    have place : base + (other - base) = other := by omega
    rw [Mem.read, List.getD_eq_getElem?_getD, List.getElem?_map, List.getElem?_range (by omega),
      Option.map_some, Option.getD_some, place]
  next => rfl

theorem memmove_store (dest src n : Nat) (mem : Mem) :
    memmove dest src n mem = (dest, mem.store dest (mem.read src n)) := by
  rw [memmove]
  split
  next below => exact memcpy_forward (.inl (Nat.le_of_lt below)) mem
  next =>
    split
    next above => rw [memmoveDown_store above]
    next =>
      have same : dest = src := by omega
      rw [same, store_read_same]

/-- Whatever the alignments: `memset` fills its range, `memcpy` copies ranges that are apart, and
`memmove` any. -/
theorem block_operations (dest src n : Nat) (c : Int32) (mem : Mem) :
    memset dest c n mem = (dest, mem.fill dest n c.toUInt32.toUInt8) ∧
    (dest + n ≤ src ∨ src + n ≤ dest → memcpy dest src n mem = (dest, mem.store dest (mem.read src n))) ∧
    memmove dest src n mem = (dest, mem.store dest (mem.read src n)) := by
  refine ⟨memset_fill dest c n mem, fun apart => memcpy_forward ?_ mem, memmove_store dest src n mem⟩
  rw [Forward]
  omega

end Szczupak.KernelString
