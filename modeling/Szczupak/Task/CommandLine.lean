import Mathlib.Data.List.TakeWhile
import Szczupak.Task.UserArgsCore

/-!
The arguments cut from a command line.  The loops over the buffer are compared
with the words of the line.
-/

namespace Szczupak

/-- The longest runs of bytes without white space. -/
def words (source : List UInt8) : List (List UInt8) := (source.splitOnP taskIsSpace).filter (· ≠ [])

/-- What a program is given for a command line and a fallback name. -/
def argumentStrings (fallbackName cmdline : List UInt8) : List (List UInt8) :=
  let source := if cmdline = [] then fallbackName else cmdline
  let tokens := (words (source.take (userCmdlineMax - 1))).take userArgMax
  if tokens = [] then [fallbackName.take (userCmdlineMax - 1)] else tokens

section Words

variable {front rest spaces token : List UInt8} {c : UInt8}

theorem words_spaces (blank : ∀ c ∈ spaces, taskIsSpace c = true) :
    words (spaces ++ rest) = words rest := by
  induction spaces with
  | nil => rfl
  | cons c spaces ih =>
      rw [List.forall_mem_cons] at blank
      have split := List.splitOnP_append_cons [] (spaces ++ rest) blank.1
      rw [← ih blank.2, List.cons_append, words, words]
      simp only [List.nil_append, List.splitOnP_nil] at split
      rw [split, List.filter_append]
      rfl

theorem words_token (solid : ∀ c ∈ token, taskIsSpace c = false) (some : token ≠ []) :
    words token = [token] := by
  rw [words, List.splitOnP_eq_singleton solid]
  simp [some]

theorem words_cons (solid : ∀ c ∈ token, taskIsSpace c = false) (some : token ≠ [])
    (separator : taskIsSpace c = true) : words (token ++ c :: rest) = token :: words rest := by
  rw [words, List.splitOnP_append_cons_of_forall_mem solid c separator, words]
  simp [some]

theorem words_induction {motive : List UInt8 → Prop} (source : List UInt8)
    (blank : ∀ spaces, (∀ c ∈ spaces, taskIsSpace c = true) → motive spaces)
    (last : ∀ spaces token, (∀ c ∈ spaces, taskIsSpace c = true) →
      (∀ c ∈ token, taskIsSpace c = false) → token ≠ [] → motive (spaces ++ token))
    (next : ∀ spaces token c rest, (∀ c ∈ spaces, taskIsSpace c = true) →
      (∀ c ∈ token, taskIsSpace c = false) → token ≠ [] →
      taskIsSpace c = true → motive rest → motive (spaces ++ (token ++ c :: rest))) : motive source := by
  induction size : source.length using Nat.strongRecOn generalizing source with
  | ind length ih =>
      have cut : ∀ test : UInt8 → Bool, ∀ list : List UInt8, ∃ front rest, list = front ++ rest ∧
          (∀ c ∈ front, test c = true) ∧ ∀ c more, rest = c :: more → test c = false := by
        intro test list
        refine ⟨list.takeWhile test, list.dropWhile test, List.takeWhile_append_dropWhile.symm, ?_, ?_⟩
        · exact fun c member => List.mem_takeWhile_imp member
        · intro c more same
          have first := List.head?_dropWhile_not test list
          rw [same] at first
          simpa using first
      obtain ⟨spaces, solid, rfl, isBlank, first⟩ := cut taskIsSpace source
      cases solid with
      | nil =>
          rw [List.append_nil]
          exact blank spaces isBlank
      | cons c solid =>
          obtain ⟨token, rest, same, inside, stops⟩ := cut (fun c => !taskIsSpace c) (c :: solid)
          have isSolid : ∀ c ∈ token, taskIsSpace c = false := fun c member => by simpa using inside c member
          have begins := first c solid rfl
          have some : token ≠ [] := by
            rintro rfl
            have blankHere := stops c solid same.symm
            simp [begins] at blankHere
          rw [same] at size ⊢
          cases rest with
          | nil =>
              rw [List.append_nil]
              exact last spaces token isBlank isSolid some
          | cons separator rest =>
              have blankHere : taskIsSpace separator = true := by simpa using stops separator rest rfl
              simp only [List.length_append, List.length_cons] at size
              exact next spaces token separator rest isBlank isSolid some blankHere
                (ih rest.length (by omega) rest rfl)

theorem words_blank (blank : ∀ c ∈ spaces, taskIsSpace c = true) : words spaces = [] := by
  have trimmed := @words_spaces [] spaces blank
  rwa [List.append_nil] at trimmed

theorem words_size (source : List UInt8) :
    ((words source).map (·.length + 1)).sum ≤ source.length + 1 := by
  induction source using words_induction with
  | blank spaces blank => simp [words_blank blank]
  | last spaces token blank solid some =>
      rw [words_spaces blank, words_token solid some]
      simp only [List.map_cons, List.map_nil, List.sum_cons, List.sum_nil, List.length_append]
      omega
  | next spaces token c rest blank solid some separator ih =>
      rw [words_spaces blank, words_cons solid some separator]
      simp only [List.map_cons, List.sum_cons, List.length_append, List.length_cons]
      omega

theorem words_mem (source : List UInt8) : ∀ word ∈ words source, word ≠ [] ∧
    ∀ c ∈ word, c ∈ source := by
  induction source using words_induction with
  | blank spaces blank => simp [words_blank blank]
  | last spaces token blank solid some =>
      rw [words_spaces blank, words_token solid some]
      intro word member
      rw [List.mem_singleton] at member
      subst member
      exact ⟨some, fun c inside => List.mem_append_right _ inside⟩
  | next spaces token c rest blank solid some separator ih =>
      rw [words_spaces blank, words_cons solid some separator]
      intro word member
      rcases List.mem_cons.mp member with rfl | later
      · exact ⟨some, fun c inside => by simp [inside]⟩
      · obtain ⟨wordSome, wordIn⟩ := ih word later
        exact ⟨wordSome, fun c inside => by simp [wordIn c inside]⟩

end Words

section Buffer

variable {front rest back spaces token : List UInt8} {c : UInt8} {test : UInt8 → Bool}
  {buffer : List UInt8}

theorem getD_front (front back : List UInt8) (offset : Nat) :
    (front ++ back).getD (front.length + offset) 0 = back.getD offset 0 := by
  rw [List.getD_append_right _ _ _ _ (Nat.le_add_right ..), Nat.add_sub_cancel_left]

theorem skipWhile_front {turns : Nat} (passes : ∀ c ∈ token, test c = true)
    (stops : test (back.getD 0 0) = false) (enough : token.length ≤ turns) :
    skipWhile test (front ++ (token ++ back)) turns front.length = front.length + token.length := by
  induction token generalizing front turns with
  | nil =>
      cases turns with
      | zero => rfl
      | succ turns =>
          have here := getD_front front back 0
          rw [Nat.add_zero] at here
          rw [skipWhile, List.nil_append, here, stops, if_neg Bool.false_ne_true]
          rfl
  | cons c token ih =>
      rw [List.forall_mem_cons] at passes
      cases turns with
      | zero => simp at enough
      | succ turns =>
          have here := getD_front front (c :: token ++ back) 0
          rw [Nat.add_zero] at here
          have later := @ih (front ++ [c]) turns passes.2 (Nat.le_of_succ_le_succ enough)
          simp only [List.append_assoc, List.singleton_append, List.length_append,
            List.length_singleton] at later
          rw [skipWhile, here, if_pos (by simpa using passes.1), List.cons_append, later, List.length_cons]
          omega

theorem stringAt_front (solid : 0 ∉ token) (back : List UInt8) :
    stringAt (front ++ (token ++ 0 :: back)) front.length = token := by
  rw [stringAt, List.drop_left, List.takeWhile_append_of_pos]
  · simp
  · intro c member
    have nonzero : c ≠ 0 := fun zero => solid (zero ▸ member)
    simpa using nonzero

theorem space_nonzero (blank : taskIsSpace c = true) : c ≠ 0 := by
  rintro rfl
  revert blank
  decide

theorem tokenLoop_end {turns p : Nat} {args : List Nat} (ends : buffer.getD p 0 = 0) :
    tokenLoop turns p args buffer = (args, buffer) := by
  cases turns with
  | zero => rfl
  | succ turns => rw [tokenLoop, if_neg (fun more => more.1 ends)]

theorem getD_nonzero (noNul : 0 ∉ token) (some : token ≠ []) (back : List UInt8) :
    (front ++ (token ++ back)).getD front.length 0 ≠ 0 := by
  have here := getD_front front (token ++ back) 0
  rw [Nat.add_zero] at here
  rw [here]
  cases token with
  | nil => contradiction
  | cons c token =>
      intro zero
      exact noNul (List.mem_cons.mpr (Or.inl zero.symm))

theorem tokenLoop_full {turns p : Nat} {args : List Nat} (full : ¬args.length < userArgMax) :
    tokenLoop turns p args buffer = (args, buffer) := by
  cases turns with
  | zero => rfl
  | succ turns => rw [tokenLoop, if_neg (fun more => full more.2)]

theorem token_found {start : Nat} (noNul : 0 ∉ token) (blank : ∀ c ∈ spaces, taskIsSpace c = true)
    (solid : ∀ c ∈ token, taskIsSpace c = false) (some : token ≠ []) (stops : inToken c = false)
    (startEq : start = front.length + spaces.length)
    (bufferEq : buffer = front ++ (spaces ++ (token ++ c :: back))) :
    skipWhile taskIsSpace buffer buffer.length front.length = start ∧ buffer.getD start 0 ≠ 0 ∧
      skipWhile inToken buffer buffer.length start = start + token.length ∧
      buffer.getD (start + token.length) 0 = c ∧
      buffer.set (start + token.length) 0 = front ++ (spaces ++ (token ++ 0 :: back)) := by
  have inside : ∀ c ∈ token, inToken c = true := by
    intro c member
    have nonzero : c ≠ 0 := fun zero => noNul (zero ▸ member)
    simp [inToken, nonzero, solid c member]
  have first : taskIsSpace ((token ++ c :: back).getD 0 0) = false := by
    cases token with
    | nil => exact absurd rfl some
    | cons head token => exact solid head List.mem_cons_self
  have long : spaces.length + token.length ≤ buffer.length := by
    rw [bufferEq]
    simp
    omega
  refine ⟨?_, ?_, ?_, ?_, ?_⟩
  · have skipped := @skipWhile_front front (token ++ c :: back) spaces taskIsSpace buffer.length
      blank first (by omega)
    rwa [← bufferEq, ← startEq] at skipped
  · have nonzero := @getD_nonzero (front ++ spaces) token noNul some (c :: back)
    rwa [List.append_assoc, List.length_append, ← bufferEq, ← startEq] at nonzero
  · have skipped := @skipWhile_front (front ++ spaces) (c :: back) token inToken buffer.length
      inside stops (by omega)
    rwa [List.append_assoc, List.length_append, ← bufferEq, ← startEq] at skipped
  · have here := getD_front (front ++ (spaces ++ token)) (c :: back) 0
    simp only [List.append_assoc, List.length_append, Nat.add_zero] at here
    rw [startEq, Nat.add_assoc, bufferEq, here]
    rfl
  · rw [startEq, Nat.add_assoc, bufferEq]
    simp

theorem tokenLoop_token {turns start : Nat} {args : List Nat} (room : args.length < userArgMax)
    (noNul : 0 ∉ spaces ++ token) (blank : ∀ c ∈ spaces, taskIsSpace c = true)
    (solid : ∀ c ∈ token, taskIsSpace c = false) (some : token ≠ []) (stops : inToken c = false)
    (startEq : start = front.length + spaces.length) :
    tokenLoop (turns + 1) front.length args (front ++ (spaces ++ (token ++ c :: back))) =
      if c ≠ 0 then
        tokenLoop turns (start + token.length + 1) (args ++ [start]) (front ++ (spaces ++ (token ++ 0 :: back)))
      else tokenLoop turns (start + token.length) (args ++ [start])
        (front ++ (spaces ++ (token ++ c :: back))) := by
  have begins : (front ++ (spaces ++ (token ++ c :: back))).getD front.length 0 ≠ 0 := by
    rw [← List.append_assoc spaces]
    exact getD_nonzero noNul (by simp [some]) _
  rw [List.mem_append, not_or] at noNul
  generalize bufferEq : front ++ (spaces ++ (token ++ c :: back)) = buffer at *
  obtain ⟨startAt, atStart, stopAt, atStop, written⟩ :=
    token_found noNul.2 blank solid some stops startEq bufferEq.symm
  rw [tokenLoop, if_pos ⟨begins, room⟩]
  simp only [startAt, if_neg atStart, stopAt, atStop, written]

theorem tokenLoop_blank {turns : Nat} {args : List Nat} (blank : ∀ c ∈ spaces, taskIsSpace c = true) :
    tokenLoop turns front.length args (front ++ (spaces ++ [0])) =
    (args, front ++ (spaces ++ [0])) := by
  cases turns with
  | zero => rfl
  | succ turns =>
      have skipped := @skipWhile_front front [0] spaces taskIsSpace
        (front ++ (spaces ++ [0])).length blank rfl (by simp; omega)
      have here := getD_front (front ++ spaces) [0] 0
      rw [List.append_assoc, List.length_append, Nat.add_zero] at here
      rw [tokenLoop]
      split
      · simp only [skipped, here]
        rfl
      · rfl

/-- A loop that has found `args` finds the words of `rest` up to the limit, and overwrites only what
is behind `front`. -/
def FindsWords (limit : Nat) (front rest : List UInt8) (args : List Nat)
    (result : List Nat × List UInt8) : Prop :=
  ∃ offsets back, result = (args ++ offsets, front ++ back) ∧
    offsets.map (stringAt (front ++ back)) = (words rest).take (limit - args.length)

section Finds

variable {limit : Nat} {args : List Nat} {result : List Nat × List UInt8}

theorem FindsWords.full (full : ¬args.length < limit) (buffer : List UInt8) :
    FindsWords limit front rest args (args, front ++ buffer) := by
  refine ⟨[], buffer, by rw [List.append_nil], ?_⟩
  rw [Nat.sub_eq_zero_of_le (Nat.le_of_not_lt full)]
  rfl

theorem FindsWords.blank (blank : ∀ c ∈ spaces, taskIsSpace c = true) :
    FindsWords limit front spaces args (args, front ++ (spaces ++ [0])) :=
  ⟨[], spaces ++ [0], by rw [List.append_nil], by simp [words_blank blank]⟩

theorem FindsWords.last (room : args.length < limit) (noNul : 0 ∉ token)
    (blank : ∀ c ∈ spaces, taskIsSpace c = true)
    (solid : ∀ c ∈ token, taskIsSpace c = false) (some : token ≠ []) :
    FindsWords limit front (spaces ++ token) args
      (args ++ [front.length + spaces.length], front ++ (spaces ++ (token ++ [0]))) := by
  have string := @stringAt_front (front ++ spaces) token noNul []
  rw [List.append_assoc, List.length_append] at string
  refine ⟨[front.length + spaces.length], spaces ++ (token ++ [0]), rfl, ?_⟩
  rw [words_spaces blank, words_token solid some, List.map_singleton, string,
    List.take_of_length_le (by rw [List.length_singleton]; omega)]

theorem FindsWords.next (room : args.length < limit) (noNul : 0 ∉ token)
    (blank : ∀ c ∈ spaces, taskIsSpace c = true)
    (solid : ∀ c ∈ token, taskIsSpace c = false) (some : token ≠ []) (separator : taskIsSpace c = true)
    (later : FindsWords limit (front ++ (spaces ++ (token ++ [0]))) rest
      (args ++ [front.length + spaces.length]) result) :
    FindsWords limit front (spaces ++ (token ++ c :: rest)) args result := by
  obtain ⟨offsets, back, found, strings⟩ := later
  have layout : front ++ (spaces ++ (token ++ [0])) ++ back = front ++
    (spaces ++ (token ++ 0 :: back)) := by simp
  rw [layout] at found strings
  refine ⟨(front.length + spaces.length) :: offsets, spaces ++ (token ++ 0 :: back), ?_, ?_⟩
  · rw [found, ← List.append_cons]
  · have string := @stringAt_front (front ++ spaces) token noNul back
    rw [List.append_assoc, List.length_append] at string
    have left : limit - args.length = limit - (args ++ [front.length + spaces.length]).length + 1 := by
      rw [List.length_append, List.length_singleton]
      omega
    rw [words_spaces blank, words_cons solid some separator, left, List.take_succ_cons,
      List.map_cons, string, strings]

end Finds

theorem tokenLoop_words {turns : Nat} (args : List Nat) (noNul : 0 ∉ rest)
    (enough : rest.length < turns) :
    FindsWords userArgMax front rest args
    (tokenLoop turns front.length args (front ++ (rest ++ [0]))) := by
  by_cases room : args.length < userArgMax
  case neg =>
    rw [tokenLoop_full room]
    exact .full room _
  induction rest using words_induction generalizing front args turns with
  | blank spaces blank =>
      rw [tokenLoop_blank blank]
      exact .blank blank
  | last spaces token blank solid some =>
      obtain ⟨limit, rfl⟩ : ∃ limit, turns = limit + 1 := ⟨turns - 1, by omega⟩
      have ends : (front ++ (spaces ++ (token ++ [0]))).getD
        (front.length + spaces.length + token.length) 0 = 0 := by
        simp [Nat.add_assoc]
      rw [List.append_assoc, tokenLoop_token room noNul blank solid some rfl rfl, if_neg (by simp),
        tokenLoop_end ends]
      exact .last room (fun zero => noNul (List.mem_append_right _ zero)) blank solid some
  | next spaces token c rest blank solid some separator ih =>
      obtain ⟨limit, rfl⟩ : ∃ limit, turns = limit + 1 := ⟨turns - 1, by omega⟩
      simp only [List.mem_append, List.mem_cons, not_or, List.length_append, List.length_cons] at noNul enough
      have turn := @tokenLoop_token front (rest ++ [0]) spaces token c limit
        (front.length + spaces.length) args room
        (by simp [noNul]) blank solid some (by simp [inToken, separator]) rfl
      rw [if_pos (space_nonzero separator)] at turn
      have layout : front ++ (spaces ++ (token ++ c :: rest) ++ [0]) =
        front ++ (spaces ++ (token ++ c :: (rest ++ [0]))) := by
        simp
      refine .next room noNul.2.1 blank solid some separator ?_
      rw [layout, turn]
      have place : front.length + spaces.length + token.length + 1 =
        (front ++ (spaces ++ (token ++ [0]))).length := by
        simp
        omega
      have cut : front ++ (spaces ++ (token ++ 0 :: (rest ++ [0]))) =
        front ++ (spaces ++ (token ++ [0])) ++ (rest ++ [0]) := by
        simp
      rw [place, cut]
      by_cases more : (args ++ [front.length + spaces.length]).length < userArgMax
      · exact ih _ noNul.2.2.2 (by omega) more
      · rw [tokenLoop_full more]
        exact .full more _

theorem commandArgs_strings {fallbackName cmdline : List UInt8} (fallbackNul : 0 ∉ fallbackName)
    (cmdlineNul : 0 ∉ cmdline) :
    (commandArgs fallbackName cmdline).1.map (stringAt (commandArgs fallbackName cmdline).2) =
      argumentStrings fallbackName cmdline := by
  rw [commandArgs, argumentStrings]
  have sourceNul : 0 ∉ if cmdline = [] then fallbackName else cmdline := by
    split
    · exact fallbackNul
    · exact cmdlineNul
  generalize (if cmdline = [] then fallbackName else cmdline) = source at *
  obtain ⟨offsets, back, found, strings⟩ := @tokenLoop_words [] (source.take (userCmdlineMax - 1))
    (cmdBuffer source).length [] (fun member => sourceNul (List.mem_of_mem_take member))
    (by simp [cmdBuffer])
  simp only [List.nil_append, List.length_nil, Nat.sub_zero] at found strings
  have cut : tokenLoop (cmdBuffer source).length 0 [] (cmdBuffer source) = (offsets, back) := found
  simp only [cut, ← strings, List.map_eq_nil_iff]
  split
  · have noNul : 0 ∉ fallbackName.take (userCmdlineMax - 1) := fun member =>
      fallbackNul (List.mem_of_mem_take member)
    have string := @stringAt_front [] _ noNul []
    simpa [cmdBuffer] using string
  · rfl

end Buffer

section Strings

variable {fallbackName cmdline : List UInt8}

theorem argumentStrings_length : 0 < (argumentStrings fallbackName cmdline).length ∧
    (argumentStrings fallbackName cmdline).length ≤ userArgMax := by
  rw [argumentStrings]
  generalize (if cmdline = [] then fallbackName else cmdline) = source
  split
  · simp [userArgMax]
  · rename_i some
    exact ⟨List.length_pos_iff.mpr some, by simp⟩

theorem argumentStrings_size : ((argumentStrings fallbackName cmdline).map (·.length + 1)).sum ≤
    userCmdlineMax := by
  have short : ∀ source : List UInt8, (source.take (userCmdlineMax - 1)).length + 1 ≤
    userCmdlineMax := by
    intro source
    rw [List.length_take, userCmdlineMax]
    omega
  rw [argumentStrings]
  generalize (if cmdline = [] then fallbackName else cmdline) = source
  split
  · have one := short fallbackName
    simpa using one
  · have whole := congrArg (fun list => (list.map (·.length + 1)).sum)
      (List.take_append_drop userArgMax (words (source.take (userCmdlineMax - 1))))
    simp only [List.map_append, List.sum_append] at whole
    have all := words_size (source.take (userCmdlineMax - 1))
    have part := short source
    omega

end Strings

end Szczupak
