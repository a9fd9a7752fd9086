import Mathlib.Data.Nat.Digits.Defs
import Mathlib.Data.Nat.Digits.Lemmas

/-!
Texts as bytes: constants, and numbers in a base with the loop that takes the digits
off from the lowest on.
-/

namespace Szczupak

def cText (text : String) : List UInt8 := text.toList.map fun c => UInt8.ofNat c.toNat

/-- The digits from the highest on, without leading zeros; zero is one digit. -/
def numeral (digit : Nat → UInt8) (base n : Nat) : List UInt8 :=
  if n = 0 then [digit 0] else ((Nat.digits base n).map digit).reverse

def lowDigits (digit : Nat → UInt8) (base : Nat) : Nat → Nat → List UInt8 × Nat
  | 0, n => ([], n)
  | turns + 1, n =>
      if n = 0 then ([], 0)
      else
        let rest := lowDigits digit base turns (n / base)
        (digit (n % base) :: rest.1, rest.2)

def decimalDigit (digit : Nat) : UInt8 := UInt8.ofNat (48 + digit)

def decimal (n : Nat) : List UInt8 := numeral decimalDigit 10 n

def isDigit (c : UInt8) : Bool := 48 ≤ c ∧ c ≤ 57

def digitOf (c : UInt8) : Nat := c.toNat - 48

def digitsValue (text : List UInt8) : Nat := text.foldl (fun n c => n * 10 + digitOf c) 0

section Numeral

variable {digit : Nat → UInt8} {base n : Nat}

theorem lowDigits_all (large : 1 < base) {turns : Nat} (bound : n < base ^ turns) :
    lowDigits digit base turns n = ((Nat.digits base n).map digit, 0) := by
  induction turns generalizing n with
  | zero =>
      rw [Nat.pow_zero] at bound
      have zero : n = 0 := by omega
      simp [lowDigits, zero]
  | succ turns ih =>
      rw [lowDigits]
      split
      next zero => simp [zero]
      next some =>
        have smaller : n / base < base ^ turns := Nat.div_lt_of_lt_mul (by rwa [Nat.pow_succ'] at bound)
        rw [ih smaller, @Nat.digits_def' base large n (by omega)]
        rfl

theorem numeral_pos (some : n ≠ 0) : numeral digit base n =
    ((Nat.digits base n).map digit).reverse := if_neg some

theorem numeral_mem (large : 1 < base) {byte : UInt8} (member : byte ∈ numeral digit base n) :
    ∃ value < base, byte = digit value := by
  unfold numeral at member
  split at member
  · exact ⟨0, by omega, List.mem_singleton.mp member⟩
  · obtain ⟨value, found, same⟩ := List.mem_map.mp (List.mem_reverse.mp member)
    exact ⟨value, Nat.digits_lt_base large found, same.symm⟩

theorem numeral_foldl (large : 1 < base) {value : UInt8 → Nat}
    (reads : ∀ d < base, value (digit d) = d) :
    (numeral digit base n).foldl (fun n c => n * base + value c) 0 = n := by
  have zero : value (digit 0) = 0 := reads 0 (by omega)
  unfold numeral
  split
  next none => simp [none, zero]
  next =>
    have folds : ∀ digits : List Nat, (∀ d ∈ digits, d < base) →
        (digits.map digit).foldr (fun c n => n * base + value c) 0 = Nat.ofDigits base digits := by
      intro digits small
      induction digits with
      | nil => rfl
      | cons d digits ih =>
          rw [List.forall_mem_cons] at small
          rw [List.map_cons, List.foldr_cons, ih small.2, reads d small.1, Nat.ofDigits_cons]
          ring
    rw [List.foldl_reverse, folds _ fun d member => Nat.digits_lt_base large member, Nat.ofDigits_digits]

theorem numeral_length_le (large : 1 < base) {width : Nat} (some : 0 < width)
    (bound : n < base ^ width) : (numeral digit base n).length ≤ width := by
  unfold numeral
  split
  · exact some
  · rw [List.length_reverse, List.length_map]
    exact (Nat.digits_length_le_iff large n).mpr bound

theorem numeral_first (large : 1 < base) (some : n ≠ 0) :
    ∃ first rest, numeral digit base n = digit first :: rest ∧ 0 < first ∧ first < base := by
  have present : Nat.digits base n ≠ [] := Nat.digits_ne_nil_iff_ne_zero.mpr some
  have nonzero := Nat.getLast_digit_ne_zero base some
  have small := Nat.digits_lt_base large (List.getLast_mem present)
  refine ⟨(Nat.digits base n).getLast present, ((Nat.digits base n).dropLast.map digit).reverse, ?_,
    Nat.pos_of_ne_zero nonzero, small⟩
  rw [numeral_pos some]
  conv_lhs => rw [← List.dropLast_append_getLast present]
  rw [List.map_append, List.reverse_append]
  rfl

theorem decimalDigit_toNat {value : Nat} (small : value < 10) :
    (decimalDigit value).toNat = 48 + value :=
  UInt8.toNat_ofNat_of_lt' (by
    have limit : UInt8.size = 256 := rfl
    omega)

theorem isDigit_iff {c : UInt8} : isDigit c = true ↔ 48 ≤ c.toNat ∧ c.toNat ≤ 57 := by
  rw [isDigit, decide_eq_true_eq]
  exact Iff.rfl

theorem decimal_mem {byte : UInt8} (member : byte ∈ decimal n) : 48 ≤ byte ∧ byte ≤ 57 := by
  obtain ⟨value, small, rfl⟩ := numeral_mem (by decide) member
  have code := decimalDigit_toNat small
  have first : UInt8.toNat 48 = 48 := rfl
  have last : UInt8.toNat 57 = 57 := rfl
  rw [UInt8.le_iff_toNat_le, UInt8.le_iff_toNat_le]
  omega

theorem decimal_digits (n : Nat) : ∀ byte ∈ decimal n, isDigit byte = true := by
  intro byte member
  rw [isDigit, decide_eq_true_eq]
  exact decimal_mem member

theorem digitsValue_decimal (n : Nat) : digitsValue (decimal n) = n := by
  refine numeral_foldl (by decide) fun d small => ?_
  rw [digitOf, decimalDigit_toNat small]
  omega

end Numeral

end Szczupak
