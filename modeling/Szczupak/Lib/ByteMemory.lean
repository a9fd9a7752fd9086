import Mathlib.Data.Nat.Bitwise
import Mathlib.Tactic.Ring

/-!
Byte-addressed memory with little-endian words.  A word access is a run of byte
accesses, so two accesses interfere exactly when their byte ranges overlap.
-/

namespace Szczupak

abbrev Mem := Nat → UInt8

namespace Mem

def set (mem : Mem) (address : Nat) (value : UInt8) : Mem :=
  fun other => if other = address then value else mem other

def fill (mem : Mem) (base length : Nat) (value : UInt8) : Mem :=
  fun other => if base ≤ other ∧ other < base + length then value else mem other

def store (mem : Mem) (base : Nat) (bytes : List UInt8) : Mem :=
  fun other => if base ≤ other ∧ other < base + bytes.length then bytes.getD (other - base) 0
    else mem other

def read (mem : Mem) (base count : Nat) : List UInt8 := (List.range count).map fun index =>
    mem (base + index)

def readLE (mem : Mem) (address : Nat) : Nat → Nat
  | 0 => 0
  | width + 1 => (mem address).toNat + 256 * readLE mem (address + 1) width

def writeLE (mem : Mem) (address : Nat) : Nat → Nat → Mem
  | 0, _ => mem
  | width + 1, value =>
      writeLE (mem.set address (UInt8.ofNat (value % 256))) (address + 1) width (value / 256)

def leBytes : Nat → Nat → List UInt8
  | 0, _ => []
  | width + 1, value => UInt8.ofNat (value % 256) :: leBytes width (value / 256)

def readU64 (mem : Mem) (address : Nat) : Nat := mem.readLE address 8
def writeU64 (mem : Mem) (address value : Nat) : Mem := mem.writeLE address 8 value
def readU32 (mem : Mem) (address : Nat) : Nat := mem.readLE address 4
def writeU32 (mem : Mem) (address value : Nat) : Mem := mem.writeLE address 4 value
def readU16 (mem : Mem) (address : Nat) : Nat := mem.readLE address 2
def writeU16 (mem : Mem) (address value : Nat) : Mem := mem.writeLE address 2 value

section

variable (mem : Mem)
include mem

@[simp] theorem set_same (address : Nat) (value : UInt8) :
    mem.set address value address = value := by
  simp [set]

theorem set_other {address other : Nat} (value : UInt8) (different : other ≠ address) :
    mem.set address value other = mem other := by
  simp [set, different]

theorem fill_inside {base length other : Nat} (value : UInt8)
    (lower : base ≤ other) (upper : other < base + length) :
    mem.fill base length value other = value := by
  simp [fill, lower, upper]

theorem fill_outside {base length other : Nat} (value : UInt8)
    (outside : other < base ∨ base + length ≤ other) :
    mem.fill base length value other = mem other := by
  unfold fill
  rw [if_neg]
  omega

theorem fill_fill (base length : Nat) (value : UInt8) :
    (mem.fill base length value).fill base length value = mem.fill base length value := by
  funext other
  simp only [fill]
  split
  · rfl
  · rfl

theorem fill_append (base first second : Nat) (value : UInt8) :
    (mem.fill base first value).fill (base + first) second value =
    mem.fill base (first + second) value := by
  funext other
  simp only [fill]
  by_cases inFirst : base ≤ other ∧ other < base + first
  · rw [if_neg (by omega), if_pos inFirst, if_pos ⟨inFirst.1, by omega⟩]
  · rw [if_neg inFirst]
    by_cases inSecond : base + first ≤ other ∧ other < base + first + second
    · rw [if_pos inSecond, if_pos ⟨by omega, by omega⟩]
    · rw [if_neg inSecond, if_neg (by omega)]

theorem store_append (base : Nat) (first second : List UInt8) :
    (mem.store base first).store (base + first.length) second = mem.store base (first ++ second) := by
  funext other
  simp only [store, List.length_append]
  by_cases inFirst : base ≤ other ∧ other < base + first.length
  · rw [if_neg (by omega), if_pos inFirst, if_pos ⟨inFirst.1, by omega⟩,
      List.getD_append _ _ _ _ (by omega)]
  · rw [if_neg inFirst]
    by_cases inSecond : base + first.length ≤ other ∧ other < base + first.length + second.length
    · rw [if_pos inSecond, if_pos ⟨by omega, by omega⟩, List.getD_append_right _ _ _ _ (by omega)]
      congr 1
      omega
    · rw [if_neg inSecond, if_neg (by omega)]

theorem store_outside {base other : Nat} {bytes : List UInt8}
    (outside : other < base ∨ base + bytes.length ≤ other) :
    mem.store base bytes other = mem other := by
  unfold store
  rw [if_neg]
  omega

@[simp] theorem read_length (base count : Nat) : (mem.read base count).length = count := by
  simp [read]

theorem store_nil (base : Nat) : mem.store base [] = mem := by
  funext other
  exact store_outside mem (by simp only [List.length_nil]; omega)

theorem store_concat (base : Nat) (bytes : List UInt8) (value : UInt8) :
    (mem.store base bytes).set (base + bytes.length) value = mem.store base (bytes ++ [value]) := by
  rw [← store_append]
  funext other
  by_cases here : other = base + bytes.length
  · simp [here, store]
  · refine (set_other _ _ here).trans (store_outside _ ?_).symm
    simp only [List.length_singleton]
    omega

theorem store_singleton (base : Nat) (value : UInt8) : mem.store base [value] = mem.set base value := by
  have appended := store_concat mem base [] value
  rwa [store_nil, List.length_nil, Nat.add_zero, List.nil_append, eq_comm] at appended

theorem read_add (base first second : Nat) :
    mem.read base (first + second) = mem.read base first ++ mem.read (base + first) second := by
  simp only [read, List.range_add, List.map_append, List.map_map]
  congr 2
  funext index
  simp only [Function.comp, Nat.add_assoc]

theorem read_slice {base count offset : Nat} (inside : offset ≤ count) (part : Nat) :
    ((mem.read base count).drop offset).take part = mem.read (base + offset)
    (min part (count - offset)) := by
  obtain ⟨rest, rfl⟩ := Nat.exists_eq_add_of_le inside
  rw [read_add, Nat.add_sub_cancel_left]
  rw [List.drop_left' (read_length mem base offset)]
  by_cases short : part ≤ rest
  · obtain ⟨left, rfl⟩ := Nat.exists_eq_add_of_le short
    rw [read_add, Nat.min_eq_left short, List.take_left' (read_length mem _ part)]
  · rw [Nat.min_eq_right (by omega), List.take_of_length_le (by rw [read_length]; omega)]

end

variable {left right : Mem} {address value other : Nat}

theorem read_congr {base count : Nat}
    (agree : ∀ index < count, left (base + index) = right (base + index)) :
    left.read base count = right.read base count := by
  apply List.map_congr_left
  intro index member
  exact agree index (List.mem_range.mp member)

theorem read_store_same (mem : Mem) (base : Nat) (bytes : List UInt8) :
    (mem.store base bytes).read base bytes.length = bytes := by
  apply List.ext_getElem
  · simp
  · intro index bound _
    rw [read_length] at bound
    simp [read, store, bound]

theorem readLE_congr {address width : Nat}
    (agree : ∀ offset < width, left (address + offset) = right (address + offset)) :
    left.readLE address width = right.readLE address width := by
  induction width generalizing address with
  | zero => rfl
  | succ width ih =>
      have first := agree 0 (by omega)
      simp only [Nat.add_zero] at first
      have rest := @ih (address + 1) (by
        intro offset bound
        have later := agree (offset + 1) (by omega)
        rwa [show address + (offset + 1) = address + 1 + offset by omega] at later)
      simp only [readLE, first, rest]

@[simp] theorem leBytes_length (width value : Nat) : (leBytes width value).length = width := by
  induction width generalizing value with
  | zero => rfl
  | succ width ih => simp [leBytes, ih]

theorem writeLE_eq_store (mem : Mem) (address width value : Nat) :
    mem.writeLE address width value = mem.store address (leBytes width value) := by
  induction width generalizing mem address value with
  | zero => exact (store_nil mem address).symm
  | succ width ih =>
      rw [writeLE, ih, leBytes, ← store_singleton]
      exact store_append mem address [UInt8.ofNat (value % 256)] _

theorem leBytes_succ (width value : Nat) :
    leBytes (width + 1) value = leBytes width value ++ [UInt8.ofNat (value / 256 ^ width % 256)] := by
  induction width generalizing value with
  | zero => simp [leBytes]
  | succ width ih =>
      rw [leBytes, ih, leBytes, List.cons_append, Nat.div_div_eq_div_mul, Nat.pow_succ']

theorem leBytes_mod (width value : Nat) : leBytes width (value % 256 ^ width) =
    leBytes width value := by
  induction width generalizing value with
  | zero => rfl
  | succ width ih =>
      have low : value % 256 ^ (width + 1) % 256 = value % 256 :=
        Nat.mod_mod_of_dvd value (Dvd.intro_left (256 ^ width) rfl)
      have high : value % 256 ^ (width + 1) / 256 = value / 256 % 256 ^ width := by
        rw [Nat.pow_succ', Nat.mod_mul_right_div_self]
      rw [leBytes, leBytes, low, high, ih]

theorem readLE_leBytes {mem : Mem} {address width value : Nat}
    (bytes : mem.read address width = leBytes width value) :
    mem.readLE address width = value % 256 ^ width := by
  induction width generalizing address value with
  | zero => simp [readLE, Nat.mod_one]
  | succ width ih =>
      rw [Nat.add_comm width 1, read_add, leBytes.eq_def] at bytes
      simp only [Nat.add_comm 1 width] at bytes
      simp only [read, List.range_one, List.map_cons, List.map_nil, Nat.add_zero, List.cons_append,
        List.nil_append, List.cons.injEq] at bytes
      have low : (UInt8.ofNat (value % 256)).toNat = value % 256 := by simp
      rw [readLE, bytes.1, ih bytes.2, low, Nat.pow_succ, Nat.mul_comm (256 ^ width) 256, Nat.mod_mul]

theorem leBytes_readLE (mem : Mem) (address width : Nat) :
    leBytes width (mem.readLE address width) = mem.read address width := by
  induction width generalizing address with
  | zero => rfl
  | succ width ih =>
      have byte := (mem address).toNat_lt
      have low : ((mem address).toNat + 256 * mem.readLE (address + 1) width) % 256 =
        (mem address).toNat := by omega
      have high : ((mem address).toNat + 256 * mem.readLE (address + 1) width) / 256 =
        mem.readLE (address + 1) width := by
        omega
      rw [readLE, leBytes, low, high, ih, UInt8.ofNat_toNat, Nat.add_comm width 1, read_add]
      rfl

theorem readLE_window (mem : Mem) (base address width : Nat) :
    Mem.readLE (fun index => mem (base + index)) address width = mem.readLE (base + address) width := by
  induction width generalizing address with
  | zero => rfl
  | succ width ih => rw [readLE, readLE, ih, Nat.add_assoc]

theorem readLE_lt (mem : Mem) (address width : Nat) :
    mem.readLE address width < 256 ^ width := by
  induction width generalizing address with
  | zero => simp [readLE]
  | succ width ih =>
      have tail := ih (address + 1)
      have head := (mem address).toNat_lt
      simp only [readLE, Nat.pow_succ]
      omega

theorem readLE_zero {mem : Mem} {address width : Nat}
    (zero : ∀ offset < width, mem (address + offset) = 0) :
    mem.readLE address width = 0 := by
  induction width generalizing address with
  | zero => rfl
  | succ width ih =>
      have first := zero 0 (by omega)
      simp only [Nat.add_zero] at first
      have rest := @ih (address + 1) (by
        intro offset bound
        have later := zero (offset + 1) (by omega)
        rwa [show address + (offset + 1) = address + 1 + offset by omega] at later)
      simp [readLE, first, rest]

section

variable (mem : Mem)
include mem

theorem writeLE_window (base address width value : Nat) :
    Mem.writeLE (fun index => mem (base + index)) address width value =
      fun index => mem.writeLE (base + address) width value (base + index) := by
  induction width generalizing mem address value with
  | zero => rfl
  | succ width ih =>
      have first : Mem.set (fun index => mem (base + index)) address (UInt8.ofNat (value % 256)) =
          fun index => mem.set (base + address) (UInt8.ofNat (value % 256)) (base + index) := by
        funext index
        simp only [set, Nat.add_left_cancel_iff]
      rw [writeLE, first, ih, writeLE, Nat.add_assoc]

theorem writeLE_outside {address width value other : Nat}
    (outside : other < address ∨ address + width ≤ other) :
    mem.writeLE address width value other = mem other := by
  induction width generalizing mem address value with
  | zero => rfl
  | succ width ih =>
      simp only [writeLE]
      rw [ih _ (by omega), set_other _ _ (by omega)]

theorem readLE_writeLE_same (address width value : Nat) :
    (mem.writeLE address width value).readLE address width = value % 256 ^ width := by
  induction width generalizing mem address value with
  | zero => simp [readLE, Nat.mod_one]
  | succ width ih =>
      simp only [writeLE, readLE]
      rw [writeLE_outside _ (by omega), set_same, ih]
      have low : (UInt8.ofNat (value % 256)).toNat = value % 256 := by simp
      rw [low, Nat.pow_succ, Nat.mul_comm (256 ^ width) 256, Nat.mod_mul]

theorem readLE_writeLE_disjoint {address width value other count : Nat}
    (disjoint : other + count ≤ address ∨ address + width ≤ other) :
    (mem.writeLE address width value).readLE other count = mem.readLE other count := by
  apply readLE_congr
  intro offset bound
  apply writeLE_outside
  omega

theorem readU64_lt (address : Nat) : mem.readU64 address < 2 ^ 64 :=
  Nat.lt_of_lt_of_le (mem.readLE_lt address 8) (by norm_num)

@[simp] theorem readU64_writeU64_same (address value : Nat) :
    (mem.writeU64 address value).readU64 address = value % 2 ^ 64 := by
  rw [readU64, writeU64, readLE_writeLE_same]
  norm_num

theorem readU64_writeU64_disjoint (disjoint : other + 8 ≤ address ∨ address + 8 ≤ other) :
    (mem.writeU64 address value).readU64 other = mem.readU64 other :=
  mem.readLE_writeLE_disjoint disjoint

theorem readU64_writeU64_aligned (addressAligned : address % 8 = 0) (otherAligned : other % 8 = 0) :
    (mem.writeU64 address value).readU64 other =
      if other = address then value % 2 ^ 64 else mem.readU64 other := by
  split
  · rename_i same
    rw [same, readU64_writeU64_same]
  · rename_i different
    exact mem.readU64_writeU64_disjoint (by omega)

theorem writeU64_outside (outside : other < address ∨ address + 8 ≤ other) :
    mem.writeU64 address value other = mem other :=
  mem.writeLE_outside outside

end

theorem readU64_congr {address : Nat}
    (agree : ∀ offset < 8, left (address + offset) = right (address + offset)) :
    left.readU64 address = right.readU64 address :=
  readLE_congr agree

theorem readLE_byte (mem : Mem) {address width offset : Nat} (inside : offset < width) :
    mem.readLE address width / 256 ^ offset % 256 = (mem (address + offset)).toNat := by
  induction width generalizing address offset with
  | zero => omega
  | succ width ih =>
      have head := (mem address).toNat_lt
      cases offset with
      | zero =>
          simp only [readLE, Nat.pow_zero, Nat.div_one, Nat.add_zero]
          omega
      | succ offset =>
          have tail := @ih (address + 1) offset (by omega)
          have cut : ((mem address).toNat + 256 * mem.readLE (address + 1) width) / 256 =
              mem.readLE (address + 1) width := by omega
          rw [readLE, Nat.pow_succ', ← Nat.div_div_eq_div_mul, cut, tail]
          congr 2
          omega

theorem byte_of_readU64 {address : Nat}
    (same : left.readU64 (address - address % 8) = right.readU64 (address - address % 8)) :
    left address = right address := by
  have bound : address % 8 < 8 := Nat.mod_lt _ (by decide)
  have place : address - address % 8 + address % 8 = address := by omega
  have leftByte := @readLE_byte left (address - address % 8) 8 (address % 8) bound
  have rightByte := @readLE_byte right (address - address % 8) 8 (address % 8) bound
  rw [place] at leftByte rightByte
  apply UInt8.toNat_inj.mp
  rw [← leftByte, ← rightByte]
  simp only [readU64] at same
  rw [same]

theorem eq_of_readU64
    (same : ∀ address, address % 8 = 0 → left.readU64 address = right.readU64 address) :
    left = right := by
  funext address
  exact byte_of_readU64 (same (address - address % 8) (by omega))

end Mem

end Szczupak
