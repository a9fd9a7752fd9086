import Szczupak.User.StdlibCore

/-!
The texts of numbers.
-/

namespace Szczupak.User

def signedText (n : Int) : List UInt8 := if n < 0 then 45 :: decimal n.natAbs else decimal n.natAbs

theorem bufferText_append {text : List UInt8} (plain : ∀ byte ∈ text, byte ≠ 0) :
    bufferText (text ++ [0]) = text := by
  rw [bufferText, List.takeWhile_append_of_pos (by simpa using plain)]
  simp

theorem bufferText_plain {text : List UInt8} (plain : ∀ byte ∈ text, byte ≠ 0) :
    bufferText text = text := by
  have whole := @List.takeWhile_append_of_pos _ (· != 0) text [] (by simpa using plain)
  rwa [List.append_nil, List.takeWhile_nil, List.append_nil] at whole

theorem tmpDigits_all {digit : Nat → UInt8} {base : Nat} (large : 1 < base) (val : UInt64) :
    tmpDigits digit base val = (Nat.digits base val.toNat).map digit := by
  rw [tmpDigits, lowDigits_all large]
  exact Nat.lt_of_lt_of_le val.toNat_lt (Nat.pow_le_pow_left large 64)

theorem tmpDigits_numeral {digit : Nat → UInt8} {base : Nat} (large : 1 < base) {val : UInt64}
    (some : val ≠ 0) : (tmpDigits digit base val).reverse = numeral digit base val.toNat := by
  rw [tmpDigits_all large, numeral_pos]
  exact fun zero => some (UInt64.toNat_inj.mp zero)

theorem decimal_plain (n : Nat) : ∀ byte ∈ decimal n, byte ≠ 0 := by
  rintro byte member rfl
  exact absurd (decimal_mem member).1 (by decide)

theorem uitoa_eq (val : UInt64) : uitoa val =
    ((decimal val.toNat).length, decimal val.toNat ++ [0]) := by
  rw [uitoa]
  split
  next zero =>
    rw [zero]
    rfl
  next some => rw [tmpDigits_numeral (by decide) some, ← decimal]

theorem toInt_word (val : Int64) : val.toInt =
    if 2 * val.toUInt64.toNat < 2 ^ 64 then (val.toUInt64.toNat : Int) else val.toUInt64.toNat - 2 ^ 64 := by
  have signed : val.toInt = val.toBitVec.toInt := rfl
  have natural : val.toUInt64.toNat = val.toBitVec.toNat := rfl
  rw [signed, natural, BitVec.toInt_eq_toNat_cond]
  rfl

theorem toNat_magnitude (val : Int64) :
    (if val < 0 then -val.toUInt64 else val.toUInt64).toNat = val.toInt.natAbs := by
  have word := toInt_word val
  have bound := val.toUInt64.toNat_lt
  have zero : (0 : Int64).toInt = 0 := rfl
  have size : UInt64.size = 2 ^ 64 := rfl
  split at word
  next small =>
    rw [if_neg]
    · omega
    · rw [Int64.lt_iff_toInt_lt]
      omega
  next large =>
    rw [if_pos, UInt64.toNat_neg, size]
    · omega
    · rw [Int64.lt_iff_toInt_lt]
      omega

theorem itoa_eq (val : Int64) : itoa val = ((signedText val.toInt).length, signedText val.toInt ++ [0]) := by
  have magnitude := toNat_magnitude val
  have zero : (0 : Int64).toInt = 0 := rfl
  have sign : val < 0 ↔ val.toInt < 0 := by rw [Int64.lt_iff_toInt_lt, zero]
  rw [itoa]
  split
  next none =>
    rw [none]
    rfl
  next some =>
    have different : val.toInt ≠ 0 := fun same => some (Int64.toInt_inj.mp same)
    have counted : (if val < 0 then -val.toUInt64 else val.toUInt64) ≠ 0 := by
      intro same
      rw [same] at magnitude
      have none : (0 : UInt64).toNat = 0 := rfl
      omega
    dsimp only
    rw [tmpDigits_numeral (by decide) counted, magnitude, ← decimal, signedText]
    by_cases negative : val < 0
    · rw [if_pos negative, if_pos (sign.mp negative)]
      rfl
    · rw [if_neg negative, if_neg (mt sign.mpr negative)]
      rfl

theorem uitoa_text (val : UInt64) : bufferText (uitoa val).2 = decimal val.toNat := by
  rw [uitoa_eq]
  exact bufferText_append (decimal_plain _)

theorem itoa_text (val : Int64) : bufferText (itoa val).2 = signedText val.toInt := by
  rw [itoa_eq]
  refine bufferText_append ?_
  rw [signedText]
  split
  · rw [List.forall_mem_cons]
    exact ⟨by decide, decimal_plain _⟩
  · exact decimal_plain _

theorem takeWhile_digits {digits : List UInt8} (all : ∀ c ∈ digits, isDigit c = true) (rest : List UInt8)
    (stops : ∀ c ∈ rest.head?, isDigit c = false) : (digits ++ rest).takeWhile isDigit = digits := by
  rw [List.takeWhile_append_of_pos all]
  cases rest with
  | nil => exact List.append_nil _
  | cons c rest => rw [List.takeWhile_cons_of_neg (by simpa using stops c rfl), List.append_nil]

theorem skipSpaces_plain {c : UInt8} (plain : c ≠ 32) (rest : List UInt8) :
    skipSpaces (c :: rest) = c :: rest :=
  List.dropWhile_cons_of_neg (by simpa using plain)

theorem atoiDigits_value (s : List UInt8) :
    atoiDigits s = Int64.ofNat (digitsValue (s.takeWhile isDigit)) := by
  rw [atoiDigits, digitsValue]
  refine List.foldl_hom Int64.ofNat fun n c => ?_
  rw [Int64.ofNat_add, Int64.ofNat_mul]
  rfl

theorem atoul_value (s : List UInt8) :
    atoul s = UInt64.ofNat (digitsValue ((skipSpaces s).takeWhile isDigit)) := by
  rw [atoul, digitsValue]
  refine List.foldl_hom UInt64.ofNat fun n c => ?_
  rw [UInt64.ofNat_add, UInt64.ofNat_mul]
  rfl

theorem atoi_unsigned {s : List UInt8} {c : UInt8} (first : s.head? = some c)
    (digit : isDigit c = true) : atoi s = Int64.ofNat (digitsValue (s.takeWhile isDigit)) := by
  obtain ⟨rest, rfl⟩ : ∃ rest, s = c :: rest := by
    cases s with
    | nil => cases first
    | cons head rest =>
        cases first
        exact ⟨rest, rfl⟩
  rw [isDigit_iff] at digit
  have different : ∀ other : UInt8, other.toNat < 48 → c ≠ other := by
    rintro other small rfl
    omega
  rw [atoi, skipSpaces_plain (different 32 (by decide))]
  split
  next same => exact absurd (List.head_eq_of_cons_eq same) (different 45 (by decide))
  next same => exact absurd (List.head_eq_of_cons_eq same) (different 43 (by decide))
  next => rw [Int64.mul_one, atoiDigits_value]

theorem atoi_negative (s : List UInt8) : atoi (45 :: s) =
    -Int64.ofNat (digitsValue (s.takeWhile isDigit)) := by
  have split : atoi (45 :: s) = atoiDigits s * -1 := rfl
  rw [split, atoiDigits_value, Int64.mul_neg, Int64.mul_one]

structure NumberText (result : Nat × List UInt8) : Prop where
  ended : result.2 = bufferText result.2 ++ [0]
  length : result.1 = (bufferText result.2).length
  fits : result.2.length ≤ 21
  shortest : ∀ rest, (bufferText result.2 = 48 :: rest → rest = []) ∧
    bufferText result.2 ≠ 45 :: 48 :: rest

theorem decimal_length_le {n width : Nat} (some : 0 < width) (bound : n < 10 ^ width) :
    (decimal n).length ≤ width :=
  numeral_length_le (by decide) some bound

theorem decimal_first {n : Nat} {rest : List UInt8} (leads : decimal n = 48 :: rest) : rest = [] := by
  by_cases none : n = 0
  · subst none
    exact (List.tail_eq_of_cons_eq leads).symm
  · obtain ⟨first, others, text, positive, small⟩ := @numeral_first decimalDigit 10 n (by decide) none
    have same : decimalDigit first = 48 := List.head_eq_of_cons_eq (text.symm.trans leads)
    have code := decimalDigit_toNat small
    rw [same] at code
    have zero : (48 : UInt8).toNat = 48 := rfl
    omega

theorem decimal_head (n : Nat) : ∃ c ∈ (decimal n).head?, isDigit c = true := by
  have all := decimal_digits n
  by_cases none : n = 0
  · subst none
    exact ⟨48, rfl, rfl⟩
  · obtain ⟨first, others, text, _, _⟩ := @numeral_first decimalDigit 10 n (by decide) none
    have text : decimal n = decimalDigit first :: others := text
    rw [text] at all ⊢
    exact ⟨decimalDigit first, rfl, all _ List.mem_cons_self⟩

theorem digitsValue_text (n : Nat) : digitsValue ((decimal n ++ [0]).takeWhile isDigit) = n := by
  rw [takeWhile_digits (decimal_digits n) [0] (by rintro c ⟨rfl⟩; rfl), digitsValue_decimal]

theorem atoi_itoa (v : Int64) : atoi (itoa v).2 = v := by
  rw [itoa_eq]
  dsimp only
  rw [signedText]
  split
  next negative =>
    rw [List.cons_append, atoi_negative, digitsValue_text, Int64.neg_ofNat]
    have same : -((v.toInt.natAbs : Nat) : Int) = v.toInt := by omega
    rw [same, Int64.ofInt_toInt]
  next positive =>
    obtain ⟨c, first, digit⟩ := decimal_head v.toInt.natAbs
    have head : (decimal v.toInt.natAbs ++ [0]).head? = some c := by
      rw [List.head?_append, Option.mem_def.mp first]
      rfl
    rw [atoi_unsigned head digit, digitsValue_text, ← Int64.ofInt_eq_ofNat]
    have same : ((v.toInt.natAbs : Nat) : Int) = v.toInt := by omega
    rw [same, Int64.ofInt_toInt]

theorem atoul_uitoa (v : UInt64) : atoul (uitoa v).2 = v := by
  obtain ⟨c, first, digit⟩ := decimal_head v.toNat
  have plain : skipSpaces (decimal v.toNat ++ [0]) = decimal v.toNat ++ [0] := by
    cases text : decimal v.toNat with
    | nil =>
        rw [text] at first
        cases first
    | cons head rest =>
        rw [text] at first
        cases first
        refine skipSpaces_plain ?_ _
        rintro rfl
        exact absurd digit (by decide)
  rw [uitoa_eq, atoul_value]
  dsimp only
  rw [plain, digitsValue_text, UInt64.ofNat_toNat]

theorem itoa_numberText (v : Int64) : NumberText (itoa v) := by
  have text := itoa_text v
  have low := v.le_toInt
  have high := v.toInt_lt
  have digits := @decimal_length_le v.toInt.natAbs 19 (by decide) (by omega)
  refine ⟨?_, ?_, ?_, fun rest => ?_⟩
  · rw [text, itoa_eq]
  · rw [text, itoa_eq]
  · rw [itoa_eq]
    dsimp only
    rw [List.length_append, List.length_singleton, signedText]
    split
    · rw [List.length_cons]
      omega
    · omega
  · rw [text, signedText]
    split
    next negative =>
      refine ⟨fun leads => absurd (List.head_eq_of_cons_eq leads) (by decide), fun leads => ?_⟩
      have zero := decimal_first (List.tail_eq_of_cons_eq leads)
      have value := digitsValue_decimal v.toInt.natAbs
      rw [List.tail_eq_of_cons_eq leads, zero] at value
      have none : digitsValue [48] = 0 := rfl
      omega
    next =>
      refine ⟨decimal_first, fun leads => ?_⟩
      exact absurd (decimal_digits v.toInt.natAbs 45 (leads ▸ List.mem_cons_self)) (by decide)

theorem uitoa_numberText (v : UInt64) : NumberText (uitoa v) := by
  have text := uitoa_text v
  have bound := v.toNat_lt
  have digits := @decimal_length_le v.toNat 20 (by decide) (by omega)
  refine ⟨?_, ?_, ?_, fun rest => ?_⟩
  · rw [text, uitoa_eq]
  · rw [text, uitoa_eq]
  · rw [uitoa_eq]
    dsimp only
    rw [List.length_append, List.length_singleton]
    omega
  · rw [text]
    refine ⟨decimal_first, fun leads => ?_⟩
    exact absurd (decimal_digits v.toNat 45 (leads ▸ List.mem_cons_self)) (by decide)

/-- Every number is read back from its text. -/
theorem numbers_round_trip (v : Int64) (u : UInt64) :
    (atoi (itoa v).2 = v ∧ NumberText (itoa v)) ∧ atoul (uitoa u).2 = u ∧ NumberText (uitoa u) :=
  ⟨⟨atoi_itoa v, itoa_numberText v⟩, atoul_uitoa u, uitoa_numberText u⟩

end Szczupak.User
