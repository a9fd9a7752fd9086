import Mathlib.Tactic.Common
import Mathlib.Data.Nat.Bitwise

/-!
The bits of a word under a mask, and what is left of it without them.
-/

namespace Szczupak

theorem and_mask_add (word mask : UInt64) : word = (word &&& mask) + (word &&& ~~~mask) := by
  apply UInt64.toBitVec_inj.mp
  have disjoint : (word.toBitVec &&& mask.toBitVec) &&& (word.toBitVec &&& ~~~mask.toBitVec) =
    0#64 := by
    ext index bound
    simp only [BitVec.getElem_and, BitVec.getElem_not, BitVec.getElem_zero]
    cases word.toBitVec[index] <;> cases mask.toBitVec[index] <;> rfl
  rw [UInt64.toBitVec_add, UInt64.toBitVec_and, UInt64.toBitVec_and, UInt64.toBitVec_not,
    BitVec.add_eq_or_of_and_eq_zero _ _ disjoint]
  ext index bound
  simp only [BitVec.getElem_and, BitVec.getElem_not, BitVec.getElem_or]
  cases word.toBitVec[index] <;> cases mask.toBitVec[index] <;> rfl

theorem toNat_sub_page (word mask : UInt64) : (word - (word &&& ~~~mask)).toNat ≤ mask.toNat := by
  have rest : word - (word &&& ~~~mask) = word &&& mask :=
    UInt64.sub_eq_iff_eq_add.mpr (and_mask_add word mask)
  rw [rest, UInt64.toNat_and]
  exact Nat.and_le_right

theorem toNat_masked (word : UInt64) {mask : UInt64} {bits : Nat} (low : mask.toNat = 2 ^ bits - 1) :
    (word &&& ~~~mask).toNat = word.toNat / 2 ^ bits * 2 ^ bits := by
  have rest : word &&& ~~~mask = word - (word &&& mask) := by
    rw [eq_comm, UInt64.sub_eq_iff_eq_add, UInt64.add_comm]
    exact and_mask_add word mask
  have part : (word &&& mask).toNat = word.toNat % 2 ^ bits := by
    rw [UInt64.toNat_and, low, Nat.and_two_pow_sub_one_eq_mod]
  have below : word &&& mask ≤ word := by
    rw [UInt64.le_iff_toNat_le, part]
    exact Nat.mod_le _ _
  rw [rest, UInt64.toNat_sub_of_le _ _ below, part]
  have divided := Nat.div_add_mod word.toNat (2 ^ bits)
  rw [Nat.mul_comm] at divided
  omega

end Szczupak
