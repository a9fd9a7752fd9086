import Szczupak.Lib.ByteMemory
import Szczupak.Lib.Transition

/-!
A ring of descriptors in memory that a device reads and writes.  A descriptor has 16 bytes, the
address of its buffer in the first 8; the rest of it and the buffer are its slot.
-/

namespace Szczupak

structure DescriptorRing where
  desc : Nat
  buf : Nat
  count : Nat
  size : Nat

namespace DescriptorRing

def descAt (ring : DescriptorRing) (index : Nat) : Nat := ring.desc + 16 * index

def bufAt (ring : DescriptorRing) (index : Nat) : Nat := ring.buf + ring.size * index

def InSlot (ring : DescriptorRing) (index address : Nat) : Prop :=
  ring.descAt index + 8 ≤ address ∧ address < ring.descAt index + 16 ∨
    ring.bufAt index ≤ address ∧ address < ring.bufAt index + ring.size

def Inside (ring : DescriptorRing) (address : Nat) : Prop :=
  ring.desc ≤ address ∧ address < ring.desc + 16 * ring.count ∨
    ring.buf ≤ address ∧ address < ring.buf + ring.size * ring.count

def Separate (ring : DescriptorRing) : Prop :=
  ring.desc + 16 * ring.count ≤ ring.buf ∨ ring.buf + ring.size * ring.count ≤ ring.desc

def OnlySlot (ring : DescriptorRing) (index : Nat) (mem after : Mem) : Prop :=
  ∀ address, ¬ring.InSlot index address → after address = mem address

def SameSlot (ring : DescriptorRing) (index : Nat) (mem after : Mem) : Prop :=
  ∀ address, ring.InSlot index address → after address = mem address

def Kept (ring : DescriptorRing) (mem after : Mem) : Prop :=
  ∀ address, ring.Inside address → after address = mem address

def setupDesc (ring : DescriptorRing) (status : UInt8) (mem : Mem) (index : Nat) : Mem :=
  (mem.writeU64 (ring.descAt index) (ring.bufAt index)).set (ring.descAt index + 12) status

section Places

variable {ring : DescriptorRing} {index other address : Nat}

theorem buffer_end (bound : index < ring.count) :
    ring.size * index + ring.size ≤ ring.size * ring.count := by
  have whole := Nat.mul_le_mul_left ring.size (Nat.succ_le_of_lt bound)
  rwa [Nat.mul_succ] at whole

theorem inside_of_inSlot (bound : index < ring.count) (inSlot : ring.InSlot index address) :
    ring.Inside address := by
  have last := buffer_end bound
  rcases inSlot with ⟨lower, upper⟩ | ⟨lower, upper⟩
  · left
    simp only [descAt] at lower upper
    omega
  · right
    simp only [bufAt] at lower upper
    omega

variable {offset : Nat}

theorem inside_of_address (bound : index < ring.count) (small : offset < 16) :
    ring.Inside (ring.descAt index + offset) := by
  left
  simp only [descAt]
  omega

theorem slots_apart (separate : ring.Separate) (bound : index < ring.count)
    (otherBound : other < ring.count)
    (different : index ≠ other) (inSlot : ring.InSlot index address) : ¬ring.InSlot other address := by
  have last := buffer_end bound
  have otherLast := buffer_end otherBound
  have buffers : index < other ∧ ring.size * index + ring.size ≤ ring.size * other ∨
      other < index ∧ ring.size * other + ring.size ≤ ring.size * index := by
    rcases Nat.lt_or_gt_of_ne different with less | less
    · have step := Nat.mul_le_mul_left ring.size (Nat.succ_le_of_lt less)
      exact Or.inl ⟨less, by rwa [Nat.mul_succ] at step⟩
    · have step := Nat.mul_le_mul_left ring.size (Nat.succ_le_of_lt less)
      exact Or.inr ⟨less, by rwa [Nat.mul_succ] at step⟩
  simp only [InSlot, descAt, bufAt, Separate] at *
  omega

theorem address_not_inSlot (separate : ring.Separate) (bound : index < ring.count)
    (otherBound : other < ring.count)
    (small : offset < 8) : ¬ring.InSlot index (ring.descAt other + offset) := by
  have last := buffer_end bound
  simp only [InSlot, descAt, bufAt, Separate] at *
  omega

end Places

section Changes

variable {ring : DescriptorRing} {index other : Nat} {mem middle after : Mem}

theorem OnlySlot.sameSlot (only : ring.OnlySlot index mem after) (separate : ring.Separate)
    (bound : index < ring.count) (otherBound : other < ring.count) (different : other ≠ index) :
    ring.SameSlot other mem after :=
  fun address inSlot => only address (slots_apart separate otherBound bound different inSlot)

theorem OnlySlot.address (only : ring.OnlySlot index mem after) (separate : ring.Separate)
    (bound : index < ring.count) (otherBound : other < ring.count) :
    after.readU64 (ring.descAt other) = mem.readU64 (ring.descAt other) :=
  Mem.readU64_congr fun _ small => only _ (address_not_inSlot separate bound otherBound small)

theorem Kept.sameSlot (kept : ring.Kept mem after) (bound : index < ring.count) :
    ring.SameSlot index mem after :=
  fun address inSlot => kept address (inside_of_inSlot bound inSlot)

theorem Kept.address (kept : ring.Kept mem after) (bound : index < ring.count) :
    after.readU64 (ring.descAt index) = mem.readU64 (ring.descAt index) :=
  Mem.readU64_congr fun _ small => kept _ (inside_of_address bound (by omega))

theorem SameSlot.byte (same : ring.SameSlot index mem after) (lower : 8 ≤ offset)
    (upper : offset < 16) : after (ring.descAt index + offset) = mem (ring.descAt index + offset) :=
  same _ (Or.inl ⟨by omega, by omega⟩)

theorem SameSlot.length (same : ring.SameSlot index mem after) :
    after.readU16 (ring.descAt index + 8) = mem.readU16 (ring.descAt index + 8) :=
  Mem.readLE_congr fun offset small => same _ (Or.inl ⟨by omega, by omega⟩)

theorem SameSlot.buffer (same : ring.SameSlot index mem after) {length : Nat}
    (small : length ≤ ring.size) :
    after.read (ring.bufAt index) length = mem.read (ring.bufAt index) length :=
  Mem.read_congr fun offset bound => same _ (Or.inr ⟨by omega, by omega⟩)

theorem OnlySlot.kept {apart : DescriptorRing} (only : ring.OnlySlot index mem after)
    (bound : index < ring.count)
    (disjoint : ∀ address, ring.Inside address → ¬apart.Inside address) : apart.Kept mem after :=
  fun address inside => only address fun inSlot =>
    disjoint address (inside_of_inSlot bound inSlot) inside

end Changes

section Stores

variable {ring : DescriptorRing} {index : Nat} {mem : Mem} {bytes : List UInt8}

theorem onlySlot_buffer (small : offset + bytes.length ≤ ring.size) :
    ring.OnlySlot index mem (mem.store (ring.bufAt index + offset) bytes) := by
  intro address outside
  apply Mem.store_outside
  by_contra touched
  exact outside (Or.inr ⟨by omega, by omega⟩)

theorem onlySlot_desc (lower : 8 ≤ offset) (upper : offset + bytes.length ≤ 16) :
    ring.OnlySlot index mem (mem.store (ring.descAt index + offset) bytes) := by
  intro address outside
  apply Mem.store_outside
  by_contra touched
  exact outside (Or.inl ⟨by omega, by omega⟩)

theorem onlySlot_set {value : UInt8} (lower : 8 ≤ offset) (upper : offset < 16) :
    ring.OnlySlot index mem (mem.set (ring.descAt index + offset) value) := by
  rw [← Mem.store_singleton]
  exact onlySlot_desc lower (by rw [List.length_singleton]; omega)

theorem bufferStore_desc {other offset : Nat} (separate : ring.Separate) (bound : index < ring.count)
    (otherBound : other < ring.count) (small : bytes.length ≤ ring.size) (inside : offset < 16) :
    mem.store (ring.bufAt index) bytes (ring.descAt other + offset) =
    mem (ring.descAt other + offset) := by
  have last := buffer_end bound
  apply Mem.store_outside
  simp only [Separate, descAt, bufAt] at *
  omega

theorem descStore_buffer {other offset length : Nat} (separate : ring.Separate)
    (bound : index < ring.count) (otherBound : other < ring.count)
    (inside : offset + bytes.length ≤ 16) (small : length ≤ ring.size) :
    (mem.store (ring.descAt index + offset) bytes).read (ring.bufAt other) length =
    mem.read (ring.bufAt other) length := by
  have last := buffer_end otherBound
  refine Mem.read_congr fun place below => Mem.store_outside _ ?_
  simp only [Separate, descAt, bufAt] at *
  omega

end Stores

section Setup

variable {ring : DescriptorRing} {mem : Mem} {status : UInt8} {index other : Nat}

theorem setupDesc_outside {address : Nat} (bound : index < ring.count)
    (outside : ¬ring.Inside address) : ring.setupDesc status mem index address = mem address := by
  have apart : address < ring.descAt index ∨ ring.descAt index + 16 ≤ address := by
    by_contra inside
    refine outside (Or.inl ?_)
    simp only [descAt] at inside
    omega
  rw [setupDesc, Mem.set_other _ _ (by omega), Mem.writeU64_outside _ (by omega)]

theorem setupDesc_same (small : ring.bufAt index < 2 ^ 64) :
    (ring.setupDesc status mem index).readU64 (ring.descAt index) = ring.bufAt index ∧
      ring.setupDesc status mem index (ring.descAt index + 12) = status := by
  refine ⟨?_, Mem.set_same _ _ _⟩
  have word : (ring.setupDesc status mem index).readU64 (ring.descAt index) =
      (mem.writeU64 (ring.descAt index) (ring.bufAt index)).readU64 (ring.descAt index) :=
    Mem.readU64_congr fun offset below => Mem.set_other _ _ (by omega)
  rw [word, Mem.readU64_writeU64_same, Nat.mod_eq_of_lt small]

theorem setupDesc_other (different : other ≠ index) :
    (ring.setupDesc status mem index).readU64 (ring.descAt other) = mem.readU64 (ring.descAt other) ∧
      ring.setupDesc status mem index (ring.descAt other + 12) = mem (ring.descAt other + 12) := by
  have apart : ∀ offset < 16, ring.setupDesc status mem index (ring.descAt other + offset) =
      mem (ring.descAt other + offset) := by
    intro offset below
    simp only [setupDesc, descAt]
    rw [Mem.set_other _ _ (by omega), Mem.writeU64_outside _ (by omega)]
  exact ⟨Mem.readU64_congr fun offset below => apart offset (by omega), apart 12 (by omega)⟩

theorem setup_spec (small : ring.buf + ring.size * ring.count ≤ 2 ^ 64) (positive : 0 < ring.size) :
    (∀ index < ring.count, ((List.range ring.count).foldl (ring.setupDesc status) mem).readU64
        (ring.descAt index) = ring.bufAt index ∧
      (List.range ring.count).foldl (ring.setupDesc status) mem (ring.descAt index + 12) = status) ∧
    ∀ address, ¬ring.Inside address →
    (List.range ring.count).foldl (ring.setupDesc status) mem address = mem address := by
  refine @foldl_range_invariant Mem (ring.setupDesc status) (fun turns after =>
    (∀ index < turns, after.readU64 (ring.descAt index) = ring.bufAt index ∧
      after (ring.descAt index + 12) = status) ∧
      ∀ address, ¬ring.Inside address → after address = mem address) ring.count mem ?_ ?_
  · rintro turns middle bound ⟨set, outside⟩
    have inside := buffer_end bound
    refine ⟨fun index below => ?_, fun address out =>
      (setupDesc_outside bound out).trans (outside address out)⟩
    by_cases last : index = turns
    · rw [last]
      exact setupDesc_same (by rw [bufAt]; omega)
    · have other := @setupDesc_other ring middle status turns index last
      rw [other.1, other.2]
      exact set index (by omega)
  · exact ⟨fun index below => absurd below (Nat.not_lt_zero _), fun _ _ => rfl⟩

end Setup

end DescriptorRing

end Szczupak
