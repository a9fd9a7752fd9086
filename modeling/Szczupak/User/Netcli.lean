import Szczupak.User.NetcliCore
import Szczupak.User.Printf

/-!
The texts that `netcli_parse_ipv4` accepts, and that it reads what `netcli_print_ip4` writes.
-/

namespace Szczupak.User

structure IpPart (text : List UInt8) (value : UInt8) : Prop where
  some : text ≠ []
  digits : ∀ c ∈ text, isDigit c = true
  value : digitsValue text = value.toNat

def Dotted : List UInt8 → List UInt8 → Prop
  | [], text => text = []
  | [value], text => IpPart text value
  | value :: next :: ip, text => ∃ front rest, text = front ++ 46 :: rest ∧ IpPart front value ∧
    Dotted (next :: ip) rest

section Part

variable {p : List UInt8}

theorem digit_plain {c : UInt8} (digit : isDigit c = true) : c ≠ 0 := by
  rintro rfl
  exact absurd digit (by decide)

theorem digitsFrom_grows (digits : List UInt8) (value : Nat) :
    value ≤ digits.foldl (fun n c => n * 10 + digitOf c) value := by
  induction digits generalizing value with
  | nil => exact Nat.le_refl _
  | cons c digits ih =>
      rw [List.foldl_cons]
      have more := ih (value * 10 + digitOf c)
      omega

theorem readPart_eq (value digits : Nat) (fits : value ≤ 255) (p : List UInt8) :
    readPart value digits p =
      if (p.takeWhile isDigit).foldl (fun n c => n * 10 + digitOf c) value ≤ 255 then
        some ((p.takeWhile isDigit).foldl (fun n c => n * 10 + digitOf c) value,
          digits + (p.takeWhile isDigit).length, p.dropWhile isDigit)
      else none := by
  induction p generalizing value digits with
  | nil =>
      rw [List.takeWhile_nil, List.foldl_nil, if_pos fits]
      rfl
  | cons c p ih =>
      rw [readPart]
      by_cases digit : isDigit c = true
      · rw [if_pos digit, List.takeWhile_cons_of_pos digit, List.dropWhile_cons_of_pos digit, List.foldl_cons]
        dsimp only
        split
        next large =>
          have more := digitsFrom_grows (p.takeWhile isDigit) (value * 10 + digitOf c)
          rw [if_neg (by omega)]
        next small =>
          rw [ih _ _ (by omega), List.length_cons, Nat.add_assoc, Nat.add_comm 1]
      · rw [if_neg digit, List.takeWhile_cons_of_neg digit, List.dropWhile_cons_of_neg digit,
          List.foldl_nil, if_pos fits]
        rfl

theorem bufferText_digits (p : List UInt8) :
    bufferText p = p.takeWhile isDigit ++ bufferText (p.dropWhile isDigit) := by
  conv_lhs => rw [← @List.takeWhile_append_dropWhile _ isDigit p]
  rw [bufferText, List.takeWhile_append_of_pos]
  · rfl
  · intro c member
    have digit := List.all_eq_true.mp List.all_takeWhile c member
    exact bne_iff_ne.mpr (digit_plain digit)

theorem bufferText_nil : bufferText p = [] ↔ p.headD 0 = 0 := by
  cases p with
  | nil => simp [bufferText]
  | cons c p => simp [bufferText, List.takeWhile_cons]

theorem bufferText_cons {c : UInt8} (plain : c ≠ 0) (head : p.headD 0 = c) :
    bufferText p = c :: bufferText p.tail := by
  cases p with
  | nil => exact absurd head.symm plain
  | cons first p =>
      cases head
      exact List.takeWhile_cons_of_pos (bne_iff_ne.mpr plain)

theorem part_unique {front rest : List UInt8} (all : ∀ c ∈ front, isDigit c = true)
    (stops : ∀ c ∈ rest.head?, isDigit c = false) (same : bufferText p = front ++ rest) :
    front = p.takeWhile isDigit ∧ rest = bufferText (p.dropWhile isDigit) := by
  have leftover : ∀ c ∈ (bufferText (p.dropWhile isDigit)).head?, isDigit c = false := by
    intro c first
    cases left : p.dropWhile isDigit with
    | nil =>
        rw [left] at first
        cases first
    | cons head others =>
        have stopped := List.head?_dropWhile_not isDigit p
        rw [left] at first stopped
        by_cases ended : head = 0
        · rw [bufferText, List.takeWhile_cons_of_neg (by simpa using ended)] at first
          cases first
        · rw [bufferText_cons ended rfl] at first
          cases first
          simpa using stopped
  have digits : front = p.takeWhile isDigit := by
    have read := congrArg (List.takeWhile isDigit) same
    rw [takeWhile_digits all rest stops, bufferText_digits,
      takeWhile_digits (fun c member => List.all_eq_true.mp List.all_takeWhile c member) _ leftover] at read
    exact read.symm
  refine ⟨digits, ?_⟩
  rw [bufferText_digits, ← digits] at same
  exact (List.append_cancel_left same).symm

theorem readPart_text (digit : isDigit (p.headD 0) = true) :
    (∃ value : UInt8, IpPart (p.takeWhile isDigit) value ∧
      ∃ digits, 0 < digits ∧ readPart 0 0 p = some (value.toNat, digits, p.dropWhile isDigit)) ∨
    readPart 0 0 p = none ∧ ∀ value, ¬IpPart (p.takeWhile isDigit) value := by
  have some' : p.takeWhile isDigit ≠ [] := by
    cases p with
    | nil => exact absurd digit (by decide)
    | cons c p =>
        have first : isDigit c = true := digit
        rw [List.takeWhile_cons_of_pos first]
        exact List.cons_ne_nil _ _
  have read := readPart_eq 0 0 (by decide) p
  rw [← digitsValue] at read
  by_cases fits : digitsValue (p.takeWhile isDigit) ≤ 255
  · have small : digitsValue (p.takeWhile isDigit) < UInt8.size := Nat.lt_succ_of_le fits
    have value := UInt8.toNat_ofNat_of_lt' small
    rw [if_pos fits] at read
    have long := List.length_pos_of_ne_nil some'
    refine .inl ⟨UInt8.ofNat (digitsValue (p.takeWhile isDigit)),
      ⟨some', fun c member => List.all_eq_true.mp List.all_takeWhile c member, value.symm⟩,
      0 + (p.takeWhile isDigit).length, by omega, ?_⟩
    rw [read, value]
  · rw [if_neg fits] at read
    refine .inr ⟨read, fun value part => fits ?_⟩
    have byte := value.toNat_lt
    rw [part.value]
    omega

end Part

variable {value other : UInt8}

theorem IpPart.unique {text : List UInt8} (first : IpPart text value) (second : IpPart text other) :
    value = other :=
  UInt8.toNat_inj.mp (first.value.symm.trans second.value)

theorem IpPart.first {p front rest : List UInt8} {value : UInt8} (part : IpPart front value)
    (same : bufferText p = front ++ rest) : isDigit (p.headD 0) = true := by
  cases text : front with
  | nil => exact absurd text part.some
  | cons c others =>
      rw [text] at same
      have digit := part.digits c (by rw [text]; exact List.mem_cons_self)
      cases p with
      | nil => cases same
      | cons head p =>
          have plain : head ≠ 0 := by
            rintro rfl
            rw [bufferText, List.takeWhile_cons_of_neg (by decide)] at same
            cases same
          rw [bufferText_cons plain rfl] at same
          exact (List.head_eq_of_cons_eq same) ▸ digit

theorem Dotted.front {p : List UInt8} {value : UInt8} {ip : List UInt8}
    (dotted : Dotted (value :: ip) (bufferText p)) :
    ∃ front rest, bufferText p = front ++ rest ∧ IpPart front value ∧
    (∀ c ∈ rest.head?, isDigit c = false) ∧
      ((ip = [] ∧ rest = []) ∨ ∃ more, rest = 46 :: more ∧ ip ≠ [] ∧ Dotted ip more) := by
  cases ip with
  | nil => exact ⟨bufferText p, [], (List.append_nil _).symm, dotted, nofun, .inl ⟨rfl, rfl⟩⟩
  | cons next ip =>
      obtain ⟨front, more, same, part, later⟩ := dotted
      refine ⟨front, 46 :: more, same, part, ?_, .inr ⟨more, rfl, List.cons_ne_nil _ _, later⟩⟩
      rintro c ⟨rfl⟩
      rfl

theorem failed_ne {out ip : List UInt8} : ((-1 : Int), out) ≠ (0, ip) :=
  fun same => absurd (Prod.mk.inj same).1 (by decide)

theorem IpPart.last {p : List UInt8} (part : IpPart (p.takeWhile isDigit) value) :
    Dotted [other] (bufferText p) ↔ other = value ∧ bufferText (p.dropWhile isDigit) = [] := by
  constructor
  · intro dotted
    obtain ⟨text, rest, same, otherPart, stops, ⟨_, rfl⟩ | ⟨_, _, impossible, _⟩⟩ := dotted.front
    · obtain ⟨rfl, ended⟩ := part_unique otherPart.digits stops same
      exact ⟨otherPart.unique part, ended.symm⟩
    · exact absurd rfl impossible
  · rintro ⟨rfl, ended⟩
    rw [bufferText_digits p, ended, List.append_nil]
    exact part

theorem IpPart.next {p ip : List UInt8} (part : IpPart (p.takeWhile isDigit) value)
    (dot : (p.dropWhile isDigit).headD 0 = 46) (some : ip ≠ []) :
    Dotted (other :: ip) (bufferText p) ↔ other = value ∧
    Dotted ip (bufferText (p.dropWhile isDigit).tail) := by
  have behind := bufferText_cons (by decide) dot
  constructor
  · intro dotted
    obtain ⟨text, rest, same, otherPart, stops, ⟨rfl, _⟩ | ⟨later, rfl, _, dotted⟩⟩ := dotted.front
    · exact absurd rfl some
    · obtain ⟨rfl, ended⟩ := part_unique otherPart.digits stops same
      rw [behind] at ended
      exact ⟨otherPart.unique part, List.tail_eq_of_cons_eq ended ▸ dotted⟩
  · rintro ⟨rfl, dotted⟩
    cases ip with
    | nil => exact absurd rfl some
    | cons next ip => exact ⟨_, _, (bufferText_digits p).trans (by rw [behind]), part, dotted⟩

theorem no_more_parts {left : Nat} {p out written ip : List UInt8}
    (none : ∀ value more, Dotted (value :: more) (bufferText p) → more.length = left → False) :
    ((-1 : Int), written) = (0, ip) ↔ ∃ more, ip = out ++ more ∧ more.length = left + 1 ∧
    Dotted more (bufferText p) := by
  refine iff_of_false failed_ne ?_
  rintro ⟨more, rfl, count, dotted⟩
  cases more with
  | nil => cases count
  | cons value more => exact none value more dotted (Nat.succ.inj count)

theorem Dotted.dot {p : List UInt8} {value : UInt8} {ip : List UInt8}
    (dotted : Dotted (value :: ip) (bufferText p))
    (some : ip ≠ []) : (p.dropWhile isDigit).headD 0 = 46 := by
  obtain ⟨text, rest, same, part, stops, ⟨rfl, _⟩ | ⟨later, rfl, _, _⟩⟩ := dotted.front
  · exact absurd rfl some
  obtain ⟨_, ended⟩ := part_unique part.digits stops same
  cases leftover : p.dropWhile isDigit with
  | nil =>
      rw [leftover] at ended
      cases ended
  | cons c others =>
      rw [leftover] at ended
      by_cases none : c = 0
      · rw [(@bufferText_nil (c :: others)).mpr none] at ended
        cases ended
      · rw [bufferText_cons none rfl] at ended
        exact (List.head_eq_of_cons_eq ended).symm

theorem readParts_iff (left : Nat) (p out ip : List UInt8) : readParts left p out = (0, ip) ↔
    ∃ more, ip = out ++ more ∧ more.length = left ∧ Dotted more (bufferText p) := by
  induction left generalizing p out with
  | zero =>
      rw [readParts, Prod.mk.injEq]
      constructor
      · rintro ⟨ended, rfl⟩
        refine ⟨[], (List.append_nil _).symm, rfl, ?_⟩
        by_contra some
        rw [if_neg (mt bufferText_nil.mpr some)] at ended
        exact absurd ended (by decide)
      · rintro ⟨more, rfl, none, ended⟩
        rw [List.length_eq_zero_iff.mp none] at ended ⊢
        exact ⟨if_pos (bufferText_nil.mp ended), (List.append_nil _).symm⟩
  | succ left ih =>
      rw [readParts]
      by_cases digit : isDigit (p.headD 0) = true
      · rw [digit, Bool.not_true, if_neg Bool.false_ne_true]
        rcases readPart_text digit with ⟨value, part, digits, some, read⟩ | ⟨read, noPart⟩
        · rw [read]
          dsimp only
          rw [if_neg (Nat.ne_of_gt some), UInt8.ofNat_toNat]
          cases left with
          | zero =>
              rw [if_neg (Nat.lt_irrefl 0), ih]
              constructor
              · rintro ⟨more, rfl, none, ended⟩
                rw [List.length_eq_zero_iff.mp none] at ended ⊢
                exact ⟨[value], by rw [List.append_nil], rfl, part.last.mpr ⟨rfl, ended⟩⟩
              · rintro ⟨more, rfl, one, dotted⟩
                obtain ⟨other, rfl⟩ := List.length_eq_one_iff.mp one
                obtain ⟨rfl, ended⟩ := part.last.mp dotted
                exact ⟨[], by rw [List.append_nil], rfl, ended⟩
          | succ left =>
              rw [if_pos (Nat.succ_pos left)]
              by_cases dot : (p.dropWhile isDigit).headD 0 = 46
              · rw [if_neg (not_not.mpr dot), ih]
                constructor
                · rintro ⟨more, rfl, count, dotted⟩
                  have some : more ≠ [] := List.ne_nil_of_length_pos (count ▸ Nat.succ_pos left)
                  exact ⟨value :: more, by rw [List.append_assoc, List.singleton_append], by
                    rw [List.length_cons, count], (part.next dot some).mpr ⟨rfl, dotted⟩⟩
                · rintro ⟨more, rfl, count, dotted⟩
                  cases more with
                  | nil => cases count
                  | cons other more =>
                      have length : more.length = left + 1 := Nat.succ.inj count
                      have some : more ≠ [] := List.ne_nil_of_length_pos (length ▸ Nat.succ_pos left)
                      obtain ⟨rfl, dotted⟩ := (part.next dot some).mp dotted
                      exact ⟨more, by rw [List.append_assoc, List.singleton_append], length, dotted⟩
              · rw [if_pos dot]
                refine no_more_parts fun other more dotted count => dot (dotted.dot ?_)
                exact List.ne_nil_of_length_pos (count ▸ Nat.succ_pos left)
        · rw [read]
          dsimp only
          refine no_more_parts fun other more dotted _ => ?_
          obtain ⟨text, rest, same, otherPart, stops, _⟩ := dotted.front
          obtain ⟨rfl, _⟩ := part_unique otherPart.digits stops same
          exact noPart other otherPart
      · rw [Bool.eq_false_of_not_eq_true digit, Bool.not_false, if_pos rfl]
        refine no_more_parts fun other more dotted _ => ?_
        obtain ⟨text, rest, same, otherPart, _⟩ := dotted.front
        exact digit (otherPart.first same)

def ipText (a b c d : UInt8) : List UInt8 :=
  decimal a.toNat ++ 46 :: (decimal b.toNat ++ 46 :: (decimal c.toNat ++ 46 :: decimal d.toNat))

theorem decimal_ipPart (value : UInt8) : IpPart (decimal value.toNat) value := by
  obtain ⟨c, first, _⟩ := decimal_head value.toNat
  refine ⟨?_, decimal_digits value.toNat, digitsValue_decimal value.toNat⟩
  intro none
  rw [none] at first
  cases first

theorem ipText_dotted (a b c d : UInt8) : Dotted [a, b, c, d] (ipText a b c d) :=
  ⟨_, _, rfl, decimal_ipPart a, _, _, rfl, decimal_ipPart b, _, _, rfl, decimal_ipPart c,
    decimal_ipPart d⟩

theorem ipText_plain (a b c d : UInt8) : bufferText (ipText a b c d) = ipText a b c d := by
  refine bufferText_plain fun byte member => ?_
  simp only [ipText, List.mem_append, List.mem_cons] at member
  rcases member with first | rfl | second | rfl | third | rfl | last
  · exact decimal_plain _ _ first
  · decide
  · exact decimal_plain _ _ second
  · decide
  · exact decimal_plain _ _ third
  · decide
  · exact decimal_plain _ _ last

theorem netcliPrintIp4_text (a b c d : UInt8) :
    ∃ turns outcome, netcliPrintIp4 a b c d turns = some outcome ∧
    outcome.written.flatten = ipText a b c d := by
  have whole : Piece.cut ∉ pieces ipFormat.text := by decide
  have fits : StringsFit (ipArgs a b c d) 0 0 (pieces ipFormat.text) := by
    have text : pieces ipFormat.text = [.conversion false 117, .literal 46, .conversion false 117,
      .literal 46, .conversion false 117, .literal 46, .conversion false 117] := by decide
    rw [text]
    have other : (117 : UInt8) ≠ 115 := by decide
    exact ⟨fun same => absurd same other, trivial, fun same => absurd same other, trivial,
      fun same => absurd same other, trivial, fun same => absurd same other, trivial⟩
  obtain ⟨turns, outcome, ended, written, _⟩ := PrintfExact.of_fits whole fits
  refine ⟨turns, outcome, ended, ?_⟩
  have byte : ∀ value : UInt8, (unsignedArg false value.toUInt64).toNat = value.toNat := by
    intro value
    have small := value.toNat_lt
    rw [unsignedArg, if_neg Bool.false_ne_true, UInt32.toNat_toUInt64, UInt64.toNat_toUInt32,
      UInt8.toNat_toUInt64]
    omega
  have text : fullText (ipArgs a b c d) 0 (pieces ipFormat.text) = ipText a b c d := by
    have parts : fullText (ipArgs a b c d) 0 (pieces ipFormat.text) =
        decimal (unsignedArg false a.toUInt64).toNat ++ 46 :: (decimal (unsignedArg false b.toUInt64).toNat ++
          46 :: (decimal (unsignedArg false c.toUInt64).toNat ++
            46 :: (decimal (unsignedArg false d.toUInt64).toNat ++ []))) := rfl
    rw [parts, byte, byte, byte, byte, List.append_nil]
    rfl
  have short : ∀ value : UInt8, (decimal value.toNat).length ≤ 3 := by
    intro value
    have small := value.toNat_lt
    exact decimal_length_le (by decide) (by omega)
  rw [written, text, List.take_of_length_le]
  have first := short a
  have second := short b
  have third := short c
  have last := short d
  have limit : printfLimit = 1023 := rfl
  rw [limit, ipText]
  simp only [List.length_append, List.length_cons]
  omega

theorem netcliParseIpv4_iff (s ip : List UInt8) :
    netcliParseIpv4 s = (0, ip) ↔ ip.length = 4 ∧ Dotted ip (bufferText s) := by
  rw [netcliParseIpv4, readParts_iff]
  constructor
  · rintro ⟨more, rfl, count, dotted⟩
    exact ⟨count, dotted⟩
  · rintro ⟨count, dotted⟩
    exact ⟨ip, rfl, count, dotted⟩

theorem readParts_result (left : Nat) (p out : List UInt8) :
    (readParts left p out).1 = 0 ∨ (readParts left p out).1 = -1 := by
  induction left generalizing p out with
  | zero =>
      rw [readParts]
      dsimp only
      split
      · exact .inl rfl
      · exact .inr rfl
  | succ left ih =>
      rw [readParts]
      split
      next => exact .inr rfl
      next =>
        split
        next => exact .inr rfl
        next value digits p read =>
          split
          next => exact .inr rfl
          next =>
            dsimp only
            split
            next =>
              split
              next => exact .inr rfl
              next => exact ih p.tail _
            next => exact ih p _

/-- Exactly the dotted addresses are read, and what is printed among them. -/
theorem netcli_ipv4 (s : List UInt8) (a b c d : UInt8) :
    (∀ ip, netcliParseIpv4 s = (0, ip) ↔ ip.length = 4 ∧ Dotted ip (bufferText s)) ∧
    ((netcliParseIpv4 s).1 = 0 ∨ (netcliParseIpv4 s).1 = -1) ∧
    ∃ turns outcome, netcliPrintIp4 a b c d turns = some outcome ∧
      netcliParseIpv4 outcome.written.flatten = (0, [a, b, c, d]) := by
  refine ⟨netcliParseIpv4_iff s, readParts_result 4 s [], ?_⟩
  obtain ⟨turns, outcome, printed, text⟩ := netcliPrintIp4_text a b c d
  refine ⟨turns, outcome, printed, ?_⟩
  rw [text, netcliParseIpv4_iff, ipText_plain]
  exact ⟨rfl, ipText_dotted a b c d⟩

end Szczupak.User
