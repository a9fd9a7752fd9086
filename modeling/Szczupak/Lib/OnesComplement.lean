import Mathlib.Data.List.Basic
import Mathlib.Tactic.Ring

/-!
Sums of 16-bit big-endian words with end-around carry, the arithmetic of Internet checksums.
A packet that carries the complement of its own sum adds up to all ones.
-/

namespace Szczupak

/-- The sum of the words of a byte string; an odd last byte is the upper half of a word. -/
def wordSum : List UInt8 → Nat
  | high :: low :: rest => high.toNat * 256 + low.toNat + wordSum rest
  | [last] => last.toNat * 256
  | [] => 0

theorem wordSum_append (front rest : List UInt8) (even : front.length % 2 = 0) :
    wordSum (front ++ rest) = wordSum front + wordSum rest := by
  induction front using wordSum.induct with
  | case1 high low front ih =>
      simp only [List.length_cons] at even
      simp only [List.cons_append, wordSum]
      rw [ih (by omega)]
      omega
  | case2 last => simp at even
  | case3 => simp [wordSum]

theorem wordSum_le (data : List UInt8) : wordSum data ≤ 65535 * ((data.length + 1) / 2) := by
  induction data using wordSum.induct with
  | case1 high low rest ih =>
      have highBound := high.toNat_lt
      have lowBound := low.toNat_lt
      simp only [wordSum, List.length_cons]
      omega
  | case2 last =>
      have bound := last.toNat_lt
      simp only [wordSum, List.length_cons, List.length_nil]
      omega
  | case3 => simp [wordSum]

def endAround (sum : Nat) : Nat := sum % 65536 + sum / 65536

theorem endAround_twice {sum : Nat} (bound : sum < 2 ^ 32) :
    endAround (endAround sum) ≤ 65535 ∧ endAround (endAround sum) % 65535 = sum % 65535 ∧
      (0 < sum → 0 < endAround (endAround sum)) := by
  unfold endAround
  omega

theorem endAround_complement {sum complement : Nat} (bound : sum + complement < 2 ^ 32)
    (completes : complement = 65535 - endAround (endAround sum)) :
    endAround (endAround (sum + complement)) = 65535 := by
  unfold endAround at completes ⊢
  omega

theorem endAround_ones {sum : Nat} (bound : sum + 65535 < 2 ^ 32)
    (zero : 65535 - endAround (endAround sum) = 0) : endAround (endAround (sum + 65535)) = 65535 := by
  unfold endAround at zero ⊢
  omega

end Szczupak
