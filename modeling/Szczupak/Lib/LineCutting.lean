import Mathlib.Data.List.Basic
import Mathlib.Data.List.Induction
import Mathlib.Data.List.Chain

/-!
Texts cut into lines of at most `width` characters, and which texts may be cut piece by
piece: where each piece is
closed with a line of its own, the pieces give the lines of the whole text exactly when every cut
is a clean one.
-/

namespace Szczupak

inductive LineSymbol (α : Type) where
  | stop
  | char (c : α)
deriving DecidableEq

section LineCutting

variable {α : Type} {width : Nat} {line : List α} {text next : List (LineSymbol α)}
  {pieces : List (List (LineSymbol α))}

/-- The lines that are ended, and the one that is not; `line` is what has been begun. -/
def cutLines (width : Nat) : List α → List (LineSymbol α) → List (List α) × List α
  | line, [] => ([], line)
  | line, .stop :: text =>
      let cut := cutLines width [] text
      (line :: cut.1, cut.2)
  | line, .char c :: text =>
      if line.length < width then cutLines width (line ++ [c]) text
      else
        let cut := cutLines width [c] text
        (line :: cut.1, cut.2)

/-- What is left at the end is a line too; without any line there is an empty one. -/
def closeLines (cut : List (List α) × List α) : List (List α) :=
  if cut.2 ≠ [] ∨ cut.1 = [] then cut.1 ++ [cut.2] else cut.1

def textLines (width : Nat) (text : List (LineSymbol α)) : List (List α) :=
  closeLines (cutLines width [] text)

def openChars (text : List (LineSymbol α)) : Nat :=
  text.foldl (fun n symbol => match symbol with | .stop => 0 | .char _ => n + 1) 0

/-- Behind a stop, or behind full lines with a character to come. -/
def CleanCut (width : Nat) (text next : List (LineSymbol α)) : Prop :=
  ∃ symbol rest, next = symbol :: rest ∧
    (text.getLast? = some .stop ∨ symbol ≠ .stop ∧ 0 < openChars text ∧ width ∣ openChars text)

theorem cutLines_append (line : List α) (text next : List (LineSymbol α)) :
    cutLines width line (text ++ next) =
      ((cutLines width line text).1 ++ (cutLines width (cutLines width line text).2 next).1,
        (cutLines width (cutLines width line text).2 next).2) := by
  induction text generalizing line with
  | nil => rfl
  | cons symbol text ih =>
      rw [List.cons_append]
      cases symbol with
      | stop =>
          rw [cutLines, cutLines, ih]
          rfl
      | char c =>
          rw [cutLines, cutLines]
          split
          · exact ih _
          · rw [ih]
            rfl

theorem cutLines_stop (line : List α) (text : List (LineSymbol α)) :
    cutLines width line (text ++ [.stop]) =
    ((cutLines width line text).1 ++ [(cutLines width line text).2], []) :=
  cutLines_append line text [.stop]

theorem cutLines_char (line : List α) (text : List (LineSymbol α)) (c : α) :
    cutLines width line (text ++ [.char c]) =
      if (cutLines width line text).2.length < width then
        ((cutLines width line text).1, (cutLines width line text).2 ++ [c])
      else ((cutLines width line text).1 ++ [(cutLines width line text).2], [c]) := by
  rw [cutLines_append, cutLines]
  split
  · rw [cutLines, List.append_nil]
  · rw [cutLines]

def lastLine (line : List α) : List (List α) := if line = [] then [] else [line]

theorem lastLine_nil : lastLine ([] : List α) = [] := rfl

theorem lastLine_some (some : line ≠ []) : lastLine line = [line] := if_neg some

theorem closeLines_some {cut : List (List α) × List α} (some : cut.1 ≠ [] ∨ cut.2 ≠ []) :
    closeLines cut = cut.1 ++ lastLine cut.2 := by
  rw [closeLines, lastLine]
  by_cases empty : cut.2 = []
  · rw [if_pos empty, List.append_nil, if_neg]
    rintro (other | none)
    · exact other empty
    · exact some.elim (· none) (· empty)
  · rw [if_neg empty, if_pos (.inl empty)]

theorem closeLines_front (front : List (List α)) {cut : List (List α) × List α} (some :
    cut.1 ≠ [] ∨ cut.2 ≠ []) : closeLines (front ++ cut.1, cut.2) = front ++ closeLines cut := by
  have both : (front ++ cut.1, cut.2).1 ≠ [] ∨ (front ++ cut.1, cut.2).2 ≠ [] :=
    some.imp_left (List.append_ne_nil_of_right_ne_nil _)
  rw [closeLines_some some, closeLines_some both, List.append_assoc]

theorem closeLines_cons (line : List α) (cut : List (List α) × List α) :
    closeLines (line :: cut.1, cut.2) = line :: (cut.1 ++ lastLine cut.2) :=
  closeLines_some (.inl (List.cons_ne_nil _ _))

theorem closeLines_begun (begun : line ≠ []) (text : List (LineSymbol α)) :
    ∃ more rest, closeLines (cutLines width line text) = (line ++ more) :: rest := by
  have ended (cut : List (List α) × List α) :
      ∃ more rest, closeLines (line :: cut.1, cut.2) = (line ++ more) :: rest :=
    ⟨[], _, by rw [closeLines_cons, List.append_nil]⟩
  induction text generalizing line with
  | nil => exact ⟨[], [], by rw [cutLines, closeLines_some (.inr begun),
    lastLine_some begun, List.append_nil]; rfl⟩
  | cons symbol text ih =>
      cases symbol with
      | stop => exact ended _
      | char c =>
          rw [cutLines]
          split
          next =>
            have longer : line ++ [c] ≠ [] := by simp
            obtain ⟨more, rest, same⟩ := ih longer fun cut => ⟨[], _, by rw [closeLines_cons, List.append_nil]⟩
            exact ⟨c :: more, rest, by rw [same, List.append_assoc]; rfl⟩
          next => exact ended _

/-- A cut that begins with more is at most one line ahead, and then with no more behind its last
line. -/
theorem cutLines_ahead {line other : List α} {ended ended' : Nat}
    (ahead : ended ≤ ended' ∨ ended = ended' + 1 ∧ line.length ≤ other.length)
    (text : List (LineSymbol α)) :
    ended + (cutLines width line text).1.length ≤ ended' + (cutLines width other text).1.length ∨
      ended + (cutLines width line text).1.length = ended' + (cutLines width other text).1.length +
        1 ∧ (cutLines width line text).2.length ≤ (cutLines width other text).2.length := by
  induction text generalizing line other ended ended' with
  | nil => exact ahead
  | cons symbol text ih =>
      cases symbol with
      | stop =>
          have both := @ih [] [] (ended + 1) (ended' + 1) (by rw [List.length_nil]; omega)
          rw [cutLines, cutLines]
          dsimp only
          rw [List.length_cons, List.length_cons]
          omega
      | char c =>
          rw [cutLines, cutLines]
          by_cases room : line.length < width <;> by_cases room' : other.length < width
          · rw [if_pos room, if_pos room']
            refine ih ?_
            rw [List.length_append, List.length_append]
            omega
          · have both := @ih (line ++ [c]) [c] ended (ended' + 1) (.inl (by omega))
            rw [if_pos room, if_neg room']
            dsimp only
            rw [List.length_cons]
            omega
          · have both := @ih [c] (other ++ [c]) (ended + 1) ended' (by rw [List.length_append]; simp; omega)
            rw [if_neg room, if_pos room']
            dsimp only
            rw [List.length_cons]
            omega
          · have both := @ih [c] [c] (ended + 1) (ended' + 1) (by omega)
            rw [if_neg room, if_neg room']
            dsimp only
            rw [List.length_cons, List.length_cons]
            omega

theorem mod_of_pred {n width : Nat} (some : n ≠ 0) : n % width = ((n - 1) % width + 1) % width := by
  rw [Nat.mod_add_mod, Nat.sub_add_cancel (Nat.pos_of_ne_zero some)]

theorem cutLines_left (positive : 0 < width) (text : List (LineSymbol α)) :
    (cutLines width [] text).2.length = if openChars text = 0 then 0
    else (openChars text - 1) % width + 1 := by
  induction text using List.reverseRecOn with
  | nil => rfl
  | append_singleton text symbol ih =>
      cases symbol with
      | stop =>
          have stopped : openChars (text ++ [.stop]) = 0 := by rw [openChars, List.foldl_append]; rfl
          rw [cutLines_stop, stopped, if_pos rfl, List.length_nil]
      | char c =>
          have longer : openChars (text ++ [.char c]) = openChars text + 1 := by
            rw [openChars, List.foldl_append]; rfl
          rw [cutLines_char, longer, if_neg (Nat.succ_ne_zero _), Nat.add_sub_cancel, ih]
          by_cases none : openChars text = 0
          · rw [if_pos none] at ih ⊢
            rw [if_pos positive, List.length_append, ih, none, Nat.zero_mod]
            rfl
          · rw [if_neg none] at ih ⊢
            have next := @mod_of_pred _ width none
            have below := Nat.mod_lt (openChars text - 1) positive
            split
            next room =>
              rw [List.length_append, ih, next, Nat.mod_eq_of_lt room]
              rfl
            next full =>
              have whole : (openChars text - 1) % width + 1 = width := by omega
              rw [next, whole, Nat.mod_self]
              rfl

theorem openChars_full (positive : 0 < width) (text : List (LineSymbol α)) :
    (cutLines width [] text).2.length = width ↔ 0 < openChars text ∧ width ∣ openChars text := by
  rw [cutLines_left positive]
  by_cases none : openChars text = 0
  · rw [if_pos none, none]
    exact iff_of_false (by omega) (by omega)
  · rw [if_neg none, Nat.dvd_iff_mod_eq_zero]
    have below := Nat.mod_lt (openChars text - 1) positive
    rw [mod_of_pred none]
    constructor
    · rintro whole
      rw [whole, Nat.mod_self]
      omega
    · rintro ⟨-, zero⟩
      by_contra other
      rw [Nat.mod_eq_of_lt (by omega)] at zero
      omega

theorem cutLines_ended (text : List (LineSymbol α)) :
    (cutLines width [] text).2 = [] ∧ text ≠ [] ↔ text.getLast? = some .stop := by
  induction text using List.reverseRecOn with
  | nil => exact iff_of_false (fun both => both.2 rfl) nofun
  | append_singleton text symbol =>
      rw [List.getLast?_append_of_ne_nil _ (List.cons_ne_nil symbol [])]
      cases symbol with
      | stop =>
          rw [cutLines_stop]
          exact iff_of_true ⟨rfl, by simp⟩ rfl
      | char c =>
          rw [cutLines_char]
          refine iff_of_false ?_ nofun
          split <;> simp

theorem cutLines_ended_some (ended : text.getLast? = some .stop) : (cutLines width [] text).1 ≠ [] := by
  obtain ⟨front, rfl⟩ := List.getLast?_eq_some_iff.mp ended
  rw [cutLines_stop]
  simp

theorem cutLines_some (some : line ≠ [] ∨ text ≠ []) :
    (cutLines width line text).1 ≠ [] ∨ (cutLines width line text).2 ≠ [] := by
  induction text using List.reverseRecOn with
  | nil => exact .inr (some.resolve_right (not_not.mpr rfl))
  | append_singleton text symbol =>
      cases symbol with
      | stop =>
          rw [cutLines_stop]
          simp
      | char c =>
          rw [cutLines_char]
          split <;> simp

theorem cutLines_each {kind : List α → Prop} (empty : kind []) (begun : kind line)
    (grows : ∀ c, .char c ∈ text → kind [c] ∧ ∀ line, kind line → line.length < width → kind (line ++ [c])) :
    (∀ found ∈ (cutLines width line text).1, kind found) ∧ kind (cutLines width line text).2 := by
  induction text generalizing line with
  | nil => exact ⟨fun _ member => absurd member List.not_mem_nil, begun⟩
  | cons symbol text ih =>
      have later : ∀ c, .char c ∈ text → kind [c] ∧ ∀ line, kind line → line.length < width →
        kind (line ++ [c]) :=
        fun c member => grows c (List.mem_cons_of_mem _ member)
      cases symbol with
      | stop =>
          rw [cutLines]
          exact ⟨List.forall_mem_cons.mpr ⟨begun, (ih empty later).1⟩, (ih empty later).2⟩
      | char c =>
          obtain ⟨single, longer⟩ := grows c List.mem_cons_self
          rw [cutLines]
          split
          next room => exact ih (longer line begun room) later
          next => exact ⟨List.forall_mem_cons.mpr ⟨begun, (ih single later).1⟩, (ih single later).2⟩

theorem textLines_each {kind : List α → Prop} (empty : kind [])
    (grows : ∀ c, .char c ∈ text → kind [c] ∧ ∀ line, kind line → line.length < width →
    kind (line ++ [c])) : ∀ found ∈ textLines width text, kind found := by
  obtain ⟨ended, left⟩ := cutLines_each empty empty grows
  rw [textLines, closeLines]
  split
  · rw [List.forall_mem_append, List.forall_mem_singleton]
    exact ⟨ended, left⟩
  · exact ended

theorem textLines_some (text : List (LineSymbol α)) : textLines width text ≠ [] := by
  rw [textLines, closeLines]
  split
  · simp
  next some => exact (not_or.mp some).2

theorem textLines_begun (some : text ≠ []) :
    textLines width text = (cutLines width [] text).1 ++ lastLine (cutLines width [] text).2 :=
  closeLines_some (cutLines_some (.inr some))

theorem textLines_append (text next : List (LineSymbol α)) :
    textLines width (text ++ next) =
      closeLines ((cutLines width [] text).1 ++ (cutLines width (cutLines width [] text).2 next).1,
        (cutLines width (cutLines width [] text).2 next).2) := by
  rw [textLines, cutLines_append]

theorem CleanCut.append (positive : 0 < width) (clean : CleanCut width text next) :
    textLines width (text ++ next) = textLines width text ++ textLines width next := by
  obtain ⟨symbol, rest, rfl, stop | ⟨char, full⟩⟩ := clean
  · obtain ⟨nothing, some⟩ := (@cutLines_ended _ width text).mpr stop
    rw [textLines_append,
      closeLines_some (.inl (List.append_ne_nil_of_left_ne_nil (cutLines_ended_some stop) _)),
      textLines_begun some, textLines_begun (List.cons_ne_nil symbol rest), nothing, lastLine_nil,
      List.append_nil, List.append_assoc]
  · cases symbol with
    | stop => exact absurd rfl char
    | char c =>
        have whole := (openChars_full positive text).mpr full
        have left : (cutLines width [] text).2 ≠ [] := List.ne_nil_of_length_pos (by omega)
        have fresh : cutLines width [] (.char c :: rest) = cutLines width [c] rest := by
          rw [cutLines, if_pos (by simpa using positive)]
          rfl
        have ended : cutLines width (cutLines width [] text).2 (.char c :: rest) =
            ((cutLines width [] text).2 :: (cutLines width [c] rest).1, (cutLines width [c] rest).2) := by
          rw [cutLines, if_neg (by omega)]
        have some : text ≠ [] := by
          rintro rfl
          exact left rfl
        rw [textLines_append, ended, closeLines_some (.inl (by simp)), textLines_begun some,
          textLines_begun (List.cons_ne_nil _ rest), fresh, lastLine_some left, List.append_assoc,
          List.append_assoc]
        rfl

theorem closeLines_length (cut : List (List α) × List α) :
    (closeLines cut).length = cut.1.length + if cut.2 ≠ [] ∨ cut.1 = [] then 1 else 0 := by
  rw [closeLines]
  split
  · rw [List.length_append]
    rfl
  · rfl

theorem textLines_append_length (text next : List (LineSymbol α)) :
    (textLines width (text ++ next)).length ≤ (textLines width text).length +
    (textLines width next).length := by
  have ahead := @cutLines_ahead _ width (cutLines width [] text).2 [] 0 0 (.inl (Nat.le_refl 0)) next
  rw [textLines_append, textLines, textLines, closeLines_length, closeLines_length, closeLines_length]
  dsimp only
  rw [List.length_append]
  by_cases nothing : (cutLines width [] text).2 = []
  · rw [nothing]
    by_cases fresh : (cutLines width [] next).2 ≠ [] ∨ (cutLines width [] next).1 = []
    · rw [if_pos fresh]
      split <;> omega
    · have some := (not_or.mp fresh).2
      rw [if_neg fresh, if_neg]
      · omega
      · rintro (left | none)
        · exact fresh (.inl left)
        · exact some (List.append_eq_nil_iff.mp none).2
  · have closed : (if (cutLines width [] text).2 ≠ [] ∨ (cutLines width [] text).1 = [] then 1 else 0) = 1 :=
      if_pos (.inl nothing)
    rw [closed]
    obtain behind | ⟨first, left⟩ := ahead
    · split <;> split <;> omega
    · have some : (cutLines width [] text).1 ++ (cutLines width (cutLines width [] text).2 next).1 ≠ [] :=
        List.append_ne_nil_of_right_ne_nil _ (List.ne_nil_of_length_pos (by omega))
      by_cases more : (cutLines width (cutLines width [] text).2 next).2 = []
      · rw [if_neg (not_or.mpr ⟨not_not.mpr more, some⟩)]
        omega
      · have more' : (cutLines width [] next).2 ≠ [] := by
          refine List.ne_nil_of_length_pos (Nat.lt_of_lt_of_le (List.length_pos_of_ne_nil more) left)
        rw [if_pos (.inl more), if_pos (.inl more')]
        omega

theorem CleanCut.of_append (positive : 0 < width) {lines : List (List α)}
    (long : (textLines width next).length ≤ lines.length)
    (same : textLines width text ++ lines = textLines width (text ++ next)) :
    CleanCut width text next := by
  have lengths := congrArg List.length same
  rw [List.length_append] at lengths
  have some := List.length_pos_of_ne_nil (@textLines_some _ width next)
  cases next with
  | nil =>
      rw [List.append_nil] at lengths
      omega
  | cons symbol rest =>
      refine ⟨symbol, rest, rfl, ?_⟩
      by_cases empty : text = []
      · subst empty
        have one : (textLines width ([] : List (LineSymbol α))).length = 1 := rfl
        rw [List.nil_append] at lengths
        omega
      by_cases nothing : (cutLines width [] text).2 = []
      · exact .inl ((cutLines_ended text).mp ⟨nothing, empty⟩)
      rw [textLines_begun empty, lastLine_some nothing] at same lengths
      rw [textLines_append] at same lengths
      cases symbol with
      | stop =>
          have line : textLines width (.stop :: rest) =
              [] :: ((cutLines width [] rest).1 ++ lastLine (cutLines width [] rest).2) := closeLines_cons [] _
          rw [line, List.length_cons] at long
          rw [cutLines, closeLines_some (.inl (by simp))] at lengths
          simp only [List.length_append, List.length_cons, List.length_nil] at lengths long
          omega
      | char c =>
          refine .inr ⟨nofun, (openChars_full positive text).mp ?_⟩
          have fits : (cutLines width [] text).2.length ≤ width := by
            have below := Nat.mod_lt (openChars text - 1) positive
            rw [cutLines_left positive]
            split <;> omega
          by_contra short
          rw [cutLines, if_pos (by omega)] at same
          have longer : (cutLines width [] text).2 ++ [c] ≠ [] := by simp
          obtain ⟨more, others, first⟩ := @closeLines_begun _ width _ longer rest
          rw [closeLines_front _ (cutLines_some (.inl longer)), first, List.append_assoc,
            List.append_cancel_left_eq] at same
          have begins := congrArg List.length (List.head_eq_of_cons_eq same)
          simp at begins

def pieceLines (width : Nat) (pieces : List (List (LineSymbol α))) : List (List α) :=
  pieces.flatMap (textLines width)

theorem pieceLines_length (some : pieces ≠ []) :
    (textLines width pieces.flatten).length ≤ (pieceLines width pieces).length := by
  induction pieces with
  | nil => exact absurd rfl some
  | cons piece pieces ih =>
      cases pieces with
      | nil => rw [pieceLines, List.flatMap_singleton, List.flatten_singleton]
      | cons other pieces =>
          have rest := ih (List.cons_ne_nil _ _)
          have cut := @textLines_append_length _ width piece (other :: pieces).flatten
          rw [pieceLines] at rest ⊢
          rw [List.flatten_cons, List.flatMap_cons, List.length_append]
          omega

theorem CleanCut.flatten :
    CleanCut width text (next :: pieces).flatten ∧ (next :: pieces).IsChain (CleanCut width) ↔
      CleanCut width text next ∧ (next :: pieces).IsChain (CleanCut width) := by
  refine and_congr_left fun chain => ?_
  cases next with
  | nil =>
      cases pieces with
      | nil => rfl
      | cons piece pieces =>
          obtain ⟨symbol, rest, -, stop | ⟨-, some, -⟩⟩ := (List.isChain_cons_cons.mp chain).1
          · cases stop
          · cases some
  | cons symbol next =>
      constructor
      · rintro ⟨first, rest, same, ends⟩
        obtain ⟨rfl, -⟩ := List.cons_eq_cons.mp same
        exact ⟨symbol, next, rfl, ends⟩
      · rintro ⟨first, rest, same, ends⟩
        obtain ⟨rfl, -⟩ := List.cons_eq_cons.mp same
        exact ⟨symbol, _, rfl, ends⟩

theorem pieceLines_exact (positive : 0 < width) (some : pieces ≠ []) :
    pieceLines width pieces = textLines width pieces.flatten ↔ pieces.IsChain (CleanCut width) := by
  induction pieces with
  | nil => exact absurd rfl some
  | cons piece pieces ih =>
      cases pieces with
      | nil =>
          rw [pieceLines, List.flatMap_singleton, List.flatten_singleton]
          exact iff_of_true rfl (.singleton piece)
      | cons other pieces =>
          have rest := ih (List.cons_ne_nil _ _)
          have split : pieceLines width (piece :: other :: pieces) =
              textLines width piece ++ pieceLines width (other :: pieces) := List.flatMap_cons
          rw [split, List.flatten_cons, List.isChain_cons_cons, ← CleanCut.flatten]
          constructor
          · intro same
            have clean := CleanCut.of_append positive (pieceLines_length (List.cons_ne_nil _ _)) same
            rw [clean.append positive, List.append_cancel_left_eq] at same
            exact ⟨clean, rest.mp same⟩
          · rintro ⟨clean, chain⟩
            rw [clean.append positive, rest.mpr chain]

end LineCutting

end Szczupak
