import Szczupak.User.PrintfCore
import Szczupak.User.Stdlib

/-!
What `printf` should print, piece by piece of the format, and when it does.
-/

namespace Szczupak.User

/-- A format in pieces; `cut` is a conversion without its last character. -/
inductive Piece where
  | literal (c : UInt8)
  | conversion (isLong : Bool) (c : UInt8)
  | cut
deriving DecidableEq

def pieces : List UInt8 → List Piece
  | [] => []
  | c :: rest =>
      if c = 37 then
        match rest with
        | [] => [.cut]
        | d :: rest =>
            if d = 108 then
              match rest with
              | [] => [.cut]
              | e :: rest => .conversion true e :: pieces rest
            else .conversion false d :: pieces rest
      else .literal c :: pieces rest

def conversionText (args : PrintfArgs) (isLong : Bool) (c : UInt8) (slot : UInt64) : List UInt8 :=
  if c = 100 then signedText (signedArg isLong slot).toInt
  else if c = 117 then decimal (unsignedArg isLong slot).toNat
  else if c = 120 ∨ c = 88 then numeral (hexDigit (c = 88)) 16 (unsignedArg isLong slot).toNat
  else if c = 99 then [slot.toUInt8]
  else if c = 115 then stringArg args slot
  else if c = 37 then [37]
  else []

def Piece.text (args : PrintfArgs) (taken : Nat) : Piece → List UInt8
  | .literal c => [c]
  | .conversion isLong c => conversionText args isLong c (args.slot taken)
  | .cut => []

def Piece.takes : Piece → Nat
  | .conversion _ c => if c ∈ [100, 117, 120, 88, 99, 115] then 1 else 0
  | _ => 0

def fullText (args : PrintfArgs) : Nat → List Piece → List UInt8
  | _, [] => []
  | taken, piece :: rest => piece.text args taken ++ fullText args (taken + piece.takes) rest

def Piece.Fits (args : PrintfArgs) (taken before : Nat) : Piece → Prop
  | .conversion isLong c => c = 115 →
      conversionText args isLong c (args.slot taken) = [] ∨
        before + (conversionText args isLong c (args.slot taken)).length ≤ printfLimit
  | _ => True

def StringsFit (args : PrintfArgs) : Nat → Nat → List Piece → Prop
  | _, _, [] => True
  | taken, before, piece :: rest =>
      piece.Fits args taken before ∧
        StringsFit args (taken + piece.takes) (before + (piece.text args taken).length) rest

/-- It ends, reads no further than the NUL, and writes and returns what fits of the text. -/
def PrintfExact (fmt : CString) (args : PrintfArgs) : Prop :=
  ∃ turns outcome, (printf fmt.byte args turns).result = some outcome ∧
    outcome.written.flatten = (fullText args 0 (pieces fmt.text)).take printfLimit ∧
    outcome.returned = ((fullText args 0 (pieces fmt.text)).take printfLimit).length ∧
    Recorded.Always (· ≤ fmt.length) (printf fmt.byte args turns)

section Buffer

variable {before text buffer : List UInt8} {turns : Nat}

theorem putByte_take (before : List UInt8) (c : UInt8) :
    putByte (before.take printfLimit) c = (before ++ [c]).take printfLimit := by
  rw [putByte, List.length_take]
  split
  next room =>
    rw [List.take_of_length_le (by omega),
      List.take_of_length_le (by rw [List.length_append, List.length_singleton]; omega)]
  next full => rw [List.take_append_of_le_length (by omega)]

theorem putBytes_take (before text : List UInt8) :
    putBytes (before.take printfLimit) text = (before ++ text).take printfLimit := by
  induction text generalizing before with
  | nil => rw [List.append_nil]; rfl
  | cons c text ih =>
      rw [putBytes, List.foldl_cons, ← putBytes, putByte_take, ih, List.append_assoc, List.singleton_append]

theorem copyString_fits (enough : text.length ≤ turns)
    (fits : buffer.length + text.length ≤ printfLimit) :
    copyString turns text buffer = some (buffer ++ text) := by
  induction text generalizing turns buffer with
  | nil =>
      rw [List.append_nil]
      cases turns <;> rfl
  | cons c text ih =>
      rw [List.length_cons] at enough fits
      cases turns with
      | zero => omega
      | succ turns =>
          rw [copyString, if_pos (by omega), ih (by omega), List.append_assoc, List.singleton_append]
          rw [List.length_append, List.length_singleton]
          omega

theorem copyString_full {c : UInt8} (full : printfLimit ≤ buffer.length) :
    copyString turns (c :: text) buffer = none := by
  induction turns with
  | zero => rfl
  | succ turns ih => rw [copyString, if_neg (by omega), ih]

theorem copyString_some {result : List UInt8} (ended : copyString turns text buffer = some result) :
    (text = [] ∨ buffer.length + text.length ≤ printfLimit) ∧ result = buffer ++ text := by
  induction text generalizing turns buffer with
  | nil =>
      refine ⟨Or.inl rfl, ?_⟩
      cases turns <;> exact (Option.some.inj ended).symm.trans (List.append_nil _).symm
  | cons c text ih =>
      cases turns with
      | zero => exact absurd ended (by simp [copyString])
      | succ turns =>
          by_cases room : buffer.length < printfLimit
          · rw [copyString, if_pos room] at ended
            obtain ⟨fits, rfl⟩ := ih ended
            rw [List.length_append, List.length_singleton] at fits
            refine ⟨Or.inr ?_, by simp⟩
            rcases fits with rfl | fits
            · exact room
            · rw [List.length_cons]
              omega
          · rw [copyString_full (by omega)] at ended
            exact absurd ended (by simp)

theorem copyString_take (room : text = [] ∨ before.length + text.length ≤ printfLimit)
    (enough : text.length ≤ turns) :
    copyString turns text (before.take printfLimit) = some ((before ++ text).take printfLimit) := by
  rcases room with rfl | room
  · rw [List.append_nil]
    cases turns <;> rfl
  · rw [List.take_of_length_le (by omega), copyString_fits enough room,
      List.take_of_length_le (by rw [List.length_append]; exact room)]

theorem copyString_take_some {result : List UInt8}
    (ended : copyString turns text (before.take printfLimit) = some result) :
    (text = [] ∨ before.length + text.length ≤ printfLimit) ∧
    result = (before ++ text).take printfLimit := by
  obtain ⟨room, rfl⟩ := copyString_some ended
  rcases room with rfl | room
  · exact ⟨Or.inl rfl, by rw [List.append_nil, List.append_nil]⟩
  · by_cases empty : text = []
    · exact ⟨Or.inl empty, by rw [empty, List.append_nil, List.append_nil]⟩
    have some' := List.length_pos_of_ne_nil empty
    rw [List.length_take] at room
    refine ⟨Or.inr (by omega), ?_⟩
    rw [List.take_of_length_le (by omega), List.take_of_length_le (by rw [List.length_append]; omega)]

end Buffer

section Conversions

variable {args : PrintfArgs} {isLong : Bool} {c : UInt8} {before : List UInt8} {taken turns : Nat}

theorem hexText_numeral (upper : Bool) (val : UInt64) : hexText upper val =
    numeral (hexDigit upper) 16 val.toNat := by
  rw [hexText]
  split
  next zero =>
    rw [zero]
    rfl
  next some => exact tmpDigits_numeral (by decide) some

theorem convert_plain (other : c ≠ 115) : convert args turns isLong c ⟨before.take printfLimit,
    taken⟩ = some ⟨(before ++ (Piece.conversion isLong c).text args taken).take printfLimit,
      taken + (Piece.conversion isLong c).takes⟩ := by
  rw [convert, Piece.text, conversionText, Piece.takes]
  dsimp only
  by_cases signed : c = 100
  · simp only [signed, ↓reduceIte, List.mem_cons, true_or, putBytes_take, itoa_text]
  by_cases unsigned : c = 117
  · simp [unsigned, putBytes_take, uitoa_text]
  by_cases hex : c = 120 ∨ c = 88
  · have listed : c ∈ [100, 117, 120, 88, 99, 115] := by
      rcases hex with rfl | rfl <;> decide
    simp only [signed, unsigned, hex, listed, ↓reduceIte, putBytes_take, hexText_numeral]
  by_cases char : c = 99
  · simp [char, putByte_take]
  have unlisted : c ∉ [100, 117, 120, 88, 99, 115] := by
    simp only [List.mem_cons, List.not_mem_nil, or_false]
    tauto
  simp only [signed, unsigned, hex, char, other, unlisted, ↓reduceIte, Nat.add_zero]
  split
  · rw [putByte_take]
  · rw [List.append_nil]

theorem convert_string : convert args turns isLong 115 ⟨before.take printfLimit, taken⟩ =
    (copyString turns (stringArg args (args.slot taken)) (before.take printfLimit)).map
    fun buffer => ⟨buffer, taken + 1⟩ :=
  rfl

theorem convert_fits (fits : (Piece.conversion isLong c).Fits args taken before.length)
    (enough : ((Piece.conversion isLong c).text args taken).length ≤ turns) :
    convert args turns isLong c ⟨before.take printfLimit, taken⟩ =
      some ⟨(before ++ (Piece.conversion isLong c).text args taken).take printfLimit,
        taken + (Piece.conversion isLong c).takes⟩ := by
  by_cases string : c = 115
  · subst string
    have copied : copyString turns (stringArg args (args.slot taken)) (before.take printfLimit) =
        some ((before ++ stringArg args (args.slot taken)).take printfLimit) :=
        copyString_take (fits rfl) enough
    rw [convert_string, copied]
    rfl
  · exact convert_plain string

theorem convert_some {st : PrintState}
    (ended : convert args turns isLong c ⟨before.take printfLimit, taken⟩ = some st) :
    (Piece.conversion isLong c).Fits args taken before.length ∧
      st = ⟨(before ++ (Piece.conversion isLong c).text args taken).take printfLimit,
        taken + (Piece.conversion isLong c).takes⟩ := by
  by_cases string : c = 115
  · subst string
    rw [convert_string] at ended
    obtain ⟨buffer, copied, rfl⟩ := Option.map_eq_some_iff.mp ended
    obtain ⟨room, rfl⟩ := copyString_take_some copied
    exact ⟨fun _ => room, rfl⟩
  · rw [convert_plain string] at ended
    exact ⟨fun same => absurd same string, (Option.some.inj ended).symm⟩

end Conversions

section Format

variable {fmt : CString} {p : Nat}

def CString.rest (string : CString) (p : Nat) : List UInt8 :=
  (List.range' p (string.length - p)).map string.byte

theorem CString.rest_cons (inside : p < fmt.length) : fmt.rest p = fmt.byte p :: fmt.rest (p + 1) := by
  obtain ⟨more, count⟩ := Nat.exists_eq_add_of_lt inside
  have here : fmt.length - p = more + 1 := by omega
  have later : fmt.length - (p + 1) = more := by omega
  rw [CString.rest, here, List.range'_succ, List.map_cons, CString.rest, later]

theorem CString.rest_end (string : CString) : string.rest string.length = [] := by
  rw [CString.rest, Nat.sub_self]
  rfl

theorem CString.rest_zero (string : CString) : string.rest 0 = string.text := by
  rw [CString.rest, CString.text, Nat.sub_zero, List.range_eq_range']

def conversionEnd (fmt : CString) (p : Nat) : Nat :=
  if fmt.byte (p + 1) == 108 then p + 2 else p + 1

theorem pieces_plain {d : UInt8} (plain : d ≠ 108) (rest : List UInt8) :
    pieces (37 :: d :: rest) = .conversion false d :: pieces rest := by
  rw [pieces.eq_def]
  dsimp only
  rw [if_pos rfl, if_neg plain]

theorem pieces_literal (inside : p < fmt.length) (literal : fmt.byte p ≠ 37) :
    pieces (fmt.rest p) = .literal (fmt.byte p) :: pieces (fmt.rest (p + 1)) := by
  rw [CString.rest_cons inside, pieces.eq_def]
  exact if_neg literal

theorem conversionEnd_le (inside : p < fmt.length) : p < conversionEnd fmt p ∧
    conversionEnd fmt p ≤ fmt.length := by
  rw [conversionEnd]
  split
  next long =>
    rw [beq_iff_eq] at long
    have more : p + 1 ≠ fmt.length := by
      intro last
      rw [last, fmt.ended] at long
      exact absurd long (by decide)
    omega
  next => omega

theorem pieces_percent (inside : p < fmt.length) (percent : fmt.byte p = 37) :
    pieces (fmt.rest p) =
      if conversionEnd fmt p = fmt.length then [.cut]
      else .conversion (fmt.byte (p + 1) == 108) (fmt.byte (conversionEnd fmt p)) ::
        pieces (fmt.rest (conversionEnd fmt p + 1)) := by
  have bound := conversionEnd_le inside
  rw [CString.rest_cons inside]
  rw [conversionEnd] at bound ⊢
  by_cases last : p + 1 = fmt.length
  · have plain : ¬(fmt.byte (p + 1) == 108) = true := by
      rw [last, fmt.ended]
      decide
    rw [if_neg plain, if_pos last, last, CString.rest_end, percent]
    rfl
  · rw [CString.rest_cons (show p + 1 < fmt.length by omega)]
    by_cases long : fmt.byte (p + 1) = 108
    · rw [if_pos (beq_iff_eq.mpr long)] at bound ⊢
      by_cases short : p + 2 = fmt.length
      · rw [if_pos short, show p + 1 + 1 = fmt.length from short, CString.rest_end, percent, long]
        rfl
      · rw [if_neg short, CString.rest_cons (show p + 1 + 1 < fmt.length by omega), percent, long]
        rfl
    · have plain : ¬(fmt.byte (p + 1) == 108) = true := by
        rw [beq_iff_eq]
        exact long
      rw [if_neg plain, if_neg last, percent, pieces_plain long, beq_eq_false_iff_ne.mpr long]

end Format

section Loop

variable {fmt : CString} {args : PrintfArgs} {p taken turns : Nat} {before : List UInt8}

theorem printfLoop_literal (some' : fmt.byte p ≠ 0) (literal : fmt.byte p ≠ 37) (turns : Nat)
    (st : PrintState) : printfLoop fmt.byte args (turns + 1) p st =
      (do
        Recorded.tell p
        printfLoop fmt.byte args turns (p + 1) { st with buffer := putByte st.buffer (fmt.byte p) }) := by
  rw [printfLoop, if_neg some', if_neg literal]

theorem printfLoop_percent (percent : fmt.byte p = 37) (turns : Nat) (st : PrintState) :
    printfLoop fmt.byte args (turns + 1) p st =
      (do
        Recorded.tell p
        Recorded.tell (p + 1)
        Recorded.tell (conversionEnd fmt p)
        match convert args turns (fmt.byte (p + 1) == 108) (fmt.byte (conversionEnd fmt p)) st with
        | none => return none
        | some st => printfLoop fmt.byte args turns (conversionEnd fmt p + 1) st) := by
  rw [printfLoop, if_neg (by rw [percent]; decide), if_pos percent]
  rfl

theorem printfLoop_fits (inside : p ≤ fmt.length) (whole : Piece.cut ∉ pieces (fmt.rest p))
    (fits : StringsFit args taken before.length (pieces (fmt.rest p))) :
    ∃ least, ∀ turns, least ≤ turns →
      Recorded.Always (· ≤ fmt.length) (printfLoop fmt.byte args turns p ⟨before.take printfLimit, taken⟩) ∧
      ∃ st, (printfLoop fmt.byte args turns p ⟨before.take printfLimit, taken⟩).result = some st ∧
        st.buffer = (before ++ fullText args taken (pieces (fmt.rest p))).take printfLimit := by
  generalize size : fmt.length - p = left
  induction left using Nat.strongRecOn generalizing p taken before with
  | ind left ih =>
      by_cases last : p = fmt.length
      · refine ⟨1, fun turns enough => ?_⟩
        obtain ⟨turns, rfl⟩ := Nat.exists_eq_add_of_le' enough
        rw [last, CString.rest_end, printfLoop, if_pos fmt.ended]
        refine ⟨.bind (.tell (Nat.le_refl _)) (.pure _), _, rfl, ?_⟩
        dsimp only
        rw [pieces, fullText, List.append_nil]
      have within : p < fmt.length := by omega
      by_cases percent : fmt.byte p = 37
      · have bound := conversionEnd_le within
        rw [pieces_percent within percent] at whole fits ⊢
        by_cases cut : conversionEnd fmt p = fmt.length
        · rw [if_pos cut] at whole
          exact absurd (List.mem_singleton.mpr rfl) whole
        rw [if_neg cut] at whole fits ⊢
        rw [List.mem_cons, not_or] at whole
        obtain ⟨fitsHere, fitsLater⟩ := fits
        rw [← List.length_append] at fitsLater
        obtain ⟨least, later⟩ := ih (fmt.length - (conversionEnd fmt p + 1)) (by omega)
          (by omega) whole.2 fitsLater rfl
        rw [fullText, ← List.append_assoc]
        refine ⟨max least (Piece.text args taken
          (.conversion (fmt.byte (p + 1) == 108) (fmt.byte (conversionEnd fmt p)))).length + 1,
          fun turns enough => ?_⟩
        obtain ⟨turns, rfl⟩ := Nat.exists_eq_add_of_le' (Nat.le_trans (Nat.le_add_left 1 _) enough)
        obtain ⟨reads, ended⟩ := later turns (by omega)
        rw [printfLoop_percent percent, convert_fits fitsHere (by omega)]
        refine ⟨.bind (.tell (by omega)) (.bind (.tell (by omega)) (.bind (.tell (by omega)) reads)), ?_⟩
        simp only [Recorded.bind_result]
        exact ended
      · have some' := fmt.plain p within
        rw [pieces_literal within percent] at whole fits ⊢
        rw [List.mem_cons, not_or] at whole
        obtain ⟨_, fitsLater⟩ := fits
        rw [← List.length_append] at fitsLater
        obtain ⟨least, later⟩ := ih (fmt.length - (p + 1)) (by omega) (by omega) whole.2 fitsLater rfl
        rw [fullText, ← List.append_assoc]
        refine ⟨least + 1, fun turns enough => ?_⟩
        obtain ⟨turns, rfl⟩ := Nat.exists_eq_add_of_le' (Nat.le_trans (Nat.le_add_left 1 _) enough)
        obtain ⟨reads, ended⟩ := later turns (by omega)
        rw [printfLoop_literal some' percent]
        dsimp only
        rw [putByte_take]
        refine ⟨.bind (.tell (by omega)) reads, ?_⟩
        simp only [Recorded.bind_result]
        exact ended

theorem printfLoop_needs {st : PrintState} (inside : p ≤ fmt.length)
    (ended : (printfLoop fmt.byte args turns p ⟨before.take printfLimit, taken⟩).result = some st)
    (reads : Recorded.Always (· ≤ fmt.length)
      (printfLoop fmt.byte args turns p ⟨before.take printfLimit, taken⟩)) :
    Piece.cut ∉ pieces (fmt.rest p) ∧ StringsFit args taken before.length (pieces (fmt.rest p)) := by
  induction turns generalizing p taken before with
  | zero => exact absurd ended (by simp [printfLoop])
  | succ turns ih =>
      by_cases last : p = fmt.length
      · rw [last, CString.rest_end, pieces]
        exact ⟨List.not_mem_nil, trivial⟩
      have within : p < fmt.length := by omega
      by_cases percent : fmt.byte p = 37
      · have bound := conversionEnd_le within
        rw [printfLoop_percent percent] at ended reads
        simp only [Recorded.bind_result] at ended
        cases converted : convert args turns (fmt.byte (p + 1) == 108)
            (fmt.byte (conversionEnd fmt p)) ⟨before.take printfLimit, taken⟩ with
        | none =>
            rw [converted] at ended
            exact absurd ended (by simp)
        | some next =>
            obtain ⟨fitsHere, same⟩ := convert_some converted
            rw [converted, same] at ended reads
            dsimp only at ended
            have readsLater : Recorded.Always (· ≤ fmt.length) (printfLoop fmt.byte args turns
                (conversionEnd fmt p + 1) ⟨(before ++ Piece.text args taken
                    (.conversion (fmt.byte (p + 1) == 108) (fmt.byte (conversionEnd fmt p)))).take printfLimit,
                  taken + Piece.takes (.conversion (fmt.byte (p + 1) == 108) (fmt.byte
                    (conversionEnd fmt p)))⟩) := by
              intro event member
              refine reads event ?_
              simp only [Recorded.bind_events, Recorded.tell_events, List.mem_append]
              exact Or.inr (Or.inr (Or.inr member))
            rw [pieces_percent within percent]
            by_cases cut : conversionEnd fmt p = fmt.length
            · cases turns with
              | zero => exact absurd ended (by simp [printfLoop])
              | succ turns =>
                  have beyond := readsLater (conversionEnd fmt p + 1) (by
                    rw [printfLoop]
                    exact List.mem_append_left _ (List.mem_singleton.mpr rfl))
                  omega
            · rw [if_neg cut]
              obtain ⟨whole, fitsLater⟩ := ih (by omega) ended readsLater
              rw [List.length_append] at fitsLater
              exact ⟨by simp [whole], fitsHere, fitsLater⟩
      · have some' := fmt.plain p within
        rw [printfLoop_literal some' percent] at ended reads
        dsimp only at ended reads
        rw [putByte_take] at ended reads
        rw [pieces_literal within percent]
        have readsLater : Recorded.Always (· ≤ fmt.length) (printfLoop fmt.byte args turns (p + 1)
            ⟨(before ++ [fmt.byte p]).take printfLimit, taken⟩) :=
          fun event member => reads event (List.mem_append_right _ member)
        obtain ⟨whole, fitsLater⟩ := ih (by omega) ended readsLater
        rw [List.length_append] at fitsLater
        exact ⟨by simp [whole], trivial, fitsLater⟩

theorem PrintfExact.needs {fmt : CString} (exact : PrintfExact fmt args) :
    Piece.cut ∉ pieces fmt.text ∧ StringsFit args 0 0 (pieces fmt.text) := by
  obtain ⟨turns, outcome, ended, _, _, reads⟩ := exact
  rw [printf, Recorded.bind_result] at ended
  obtain ⟨st, loopEnded, _⟩ := Option.map_eq_some_iff.mp ended
  rw [← CString.rest_zero]
  refine @printfLoop_needs fmt args 0 0 turns [] st (Nat.zero_le _) loopEnded fun event member => ?_
  exact reads event (List.mem_append_left _ member)

end Loop

theorem PrintfExact.of_fits {fmt : CString} {args : PrintfArgs} (whole : Piece.cut ∉ pieces fmt.text)
    (fits : StringsFit args 0 0 (pieces fmt.text)) : PrintfExact fmt args := by
  rw [← CString.rest_zero] at whole fits
  obtain ⟨least, ended⟩ := @printfLoop_fits fmt args 0 0 [] (Nat.zero_le _) whole fits
  obtain ⟨reads, st, result, buffer⟩ := ended least (Nat.le_refl _)
  rw [List.nil_append, CString.rest_zero] at buffer
  refine ⟨least, { written := if st.buffer.length > 0 then [st.buffer] else [], returned :=
    st.buffer.length }, ?_, ?_, ?_, .bind reads (.pure _)⟩
  · rw [printf, Recorded.bind_result]
    exact congrArg (Option.map _) result
  · rw [← buffer]
    dsimp only
    split
    next => exact List.append_nil _
    next empty =>
      have empty := List.length_eq_zero_iff.mp (Nat.eq_zero_of_not_pos empty)
      rw [empty]
      rfl
  · rw [← buffer]

/-- `printf` is exact where the format does not end inside a conversion and every string that is not
empty ends within the first 1023 bytes. -/
theorem printf_exact_iff (fmt : CString) (args : PrintfArgs) :
    PrintfExact fmt args ↔ Piece.cut ∉ pieces fmt.text ∧ StringsFit args 0 0 (pieces fmt.text) :=
  ⟨PrintfExact.needs, fun ⟨whole, fits⟩ => .of_fits whole fits⟩

def stringFormat : CString where
  byte := fun index => if index = 0 then 37 else if index = 1 then 115 else 0
  length := 2
  ended := rfl
  plain := by decide

def longString : CString where
  byte := fun index => if index < 1024 then 97 else 0
  length := 1024
  ended := rfl
  plain := by
    intro index inside
    rw [if_pos inside]
    decide

def longArgs : PrintfArgs where
  slot := fun _ => 0x500000
  string := fun _ => longString

theorem longString_endless : ¬PrintfExact stringFormat longArgs := by
  intro exact
  have fits : StringsFit longArgs 0 0 [.conversion false 115] := exact.needs.2
  have text : conversionText longArgs false 115 (longArgs.slot 0) = longString.text := rfl
  have length : longString.text.length = 1024 := by
    rw [CString.text, List.length_map, List.length_range]
    rfl
  rcases fits.1 rfl with empty | short
  · rw [text] at empty
    rw [empty] at length
    exact absurd length (by decide)
  · rw [text, length] at short
    exact absurd short (by decide)

end Szczupak.User
