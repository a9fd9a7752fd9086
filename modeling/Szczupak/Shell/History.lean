import Mathlib.Data.List.Destutter
import Mathlib.Data.List.DropRight
import Szczupak.Shell.Command

/-!
What `history` prints.  The ring holds the latest of the lines that were typed, each once where it
was typed several times in a row.
-/

namespace Szczupak

/-- The lines that were typed, without empty ones and without a line that repeats the one before. -/
def typedLines (inputs : List ShellInput) : List (List UInt8) :=
  ((inputs.map fun input => readLine input.line.bytes).filter (· ≠ [])).destutter (· ≠ ·)

section Lines

variable {α : Type} [DecidableEq α] {first value : α} {values : List α} {inputs : List ShellInput}
    {input : ShellInput}

theorem destutter'_concat : (values ++ [value]).destutter' (· ≠ ·) first =
    if (values.destutter' (· ≠ ·) first).getLast? = some value then values.destutter' (· ≠ ·) first
    else values.destutter' (· ≠ ·) first ++ [value] := by
  induction values generalizing first with
  | nil =>
      rw [List.nil_append, List.destutter'_singleton, List.destutter'_nil, List.getLast?_singleton]
      by_cases same : first = value
      · rw [if_neg (not_not_intro same), if_pos (congrArg some same)]
      · rw [if_pos same, if_neg fun equal => same (Option.some.inj equal)]
        rfl
  | cons head values ih =>
      rw [List.cons_append]
      by_cases same : first = head
      · rw [List.destutter'_cons_neg _ (not_not_intro same), List.destutter'_cons_neg _ (not_not_intro same)]
        exact ih
      · rw [List.destutter'_cons_pos _ same, List.destutter'_cons_pos _ same, ih]
        have last : (first :: values.destutter' (· ≠ ·) head).getLast? =
          (values.destutter' (· ≠ ·) head).getLast? :=
          List.getLast?_cons_of_ne_nil (List.destutter'_ne_nil _ _)
        rw [last, apply_ite (List.cons first)]
        rfl

theorem destutter_concat : (values ++ [value]).destutter (· ≠ ·) =
    if (values.destutter (· ≠ ·)).getLast? = some value then values.destutter (· ≠ ·)
    else values.destutter (· ≠ ·) ++ [value] := by
  cases values with
  | nil => rfl
  | cons head values => exact destutter'_concat

theorem typedLines_concat : typedLines (inputs ++ [input]) =
    if readLine input.line.bytes = [] ∨ (typedLines inputs).getLast? =
      some (readLine input.line.bytes) then typedLines inputs
    else typedLines inputs ++ [readLine input.line.bytes] := by
  rw [typedLines, List.map_append, List.filter_append, List.map_singleton]
  by_cases empty : readLine input.line.bytes = []
  · rw [if_pos (Or.inl empty), List.filter_singleton, empty]
    simp [typedLines]
  · rw [List.filter_singleton, decide_eq_true empty, cond_true, destutter_concat, ← typedLines]
    exact if_congr (or_iff_right empty).symm rfl rfl

end Lines

section Sessions

variable {s next : Shell} {input : ShellInput} {line : List UInt8} {values : List (List UInt8)}
    {ring : RecentRing (List UInt8)}

theorem historyAdd_holds (holds : ring.Holds maxHistory values) (short : line.length < maxCmdLen) :
    (historyAdd ring line).Holds maxHistory
      (if line = [] ∨ values.getLast? = some line then values else values ++ [line]) := by
  rw [historyAdd]
  by_cases empty : line = []
  · rw [if_pos empty, if_pos (Or.inl empty)]
    exact holds
  · have whole : line.take (maxCmdLen - 1) = line := List.take_of_length_le (by omega)
    have same : (ring.count > 0 ∧ ring.data ((ring.next + maxHistory - 1) % maxHistory) = line) ↔
        values.getLast? = some line := holds.latest (by decide)
    rw [if_neg empty, if_congr same rfl rfl, if_congr (or_iff_right empty) rfl rfl, whole]
    split
    next => exact holds
    next => exact holds.push line

theorem cmdHistory_latest (holds : ring.Holds maxHistory values) :
    cmdHistory ring = values.rtake maxHistory := by
  have count := holds.count
  have next := holds.next
  rw [cmdHistory, List.rtake]
  rw [holds.cellsFrom le_rfl]
  · congr 1
    omega
  · split
    next few =>
      congr 1
      omega
    next => rw [next, Nat.mod_mod, count, Nat.min_eq_right (by omega),
      Nat.mod_eq_sub_mod (a := values.length) (by omega)]

theorem cmdCd_history {listdir : List UInt8 → Bool} {args : List (List UInt8)} :
    (cmdCd listdir s args).history = s.history := by
  rw [cmdCd]
  split
  next => rfl
  next =>
    split
    next => rfl
    next => rw [apply_ite Shell.history, ite_self]

theorem executeCommand_history : (executeCommand input s line).1.history = s.history := by
  rw [executeCommand]
  generalize parseLine line = parsed
  obtain ⟨argv, buffer⟩ := parsed
  dsimp only
  repeat' split
  all_goals first | rfl | exact cmdCd_history

theorem shellStep_history (holds : s.history.Holds maxHistory values)
    (stepped : shellStep s input = some next) :
    next.history.Holds maxHistory (if readLine input.line.bytes = [] ∨
      values.getLast? = some (readLine input.line.bytes)
      then values else values ++ [readLine input.line.bytes]) := by
  have short : (readLine input.line.bytes).length < maxCmdLen := by
    have := input.short
    rw [readLine]
    split
    next => rw [List.length_dropLast]; omega
    next => exact this
  rw [shellStep] at stepped
  split at stepped
  next =>
    cases stepped
    rw [shellTurn]
    split
    next nothing =>
      rw [if_pos (Or.inl (by rw [nothing]; rfl))]
      exact holds
    next =>
      rw [executeCommand_history]
      exact historyAdd_holds holds short
  next => cases stepped

/-- In any session `history` prints the latest sixteen of the lines typed so far. -/
theorem history_shows_typed {history : RecentRing (List UInt8)} {inputs : List ShellInput}
    (reached : runActions shellStep (shellStart history) inputs = some s) :
    cmdHistory s.history = (typedLines inputs).rtake maxHistory := by
  apply cmdHistory_latest
  induction inputs using List.reverseRecOn generalizing s with
  | nil =>
      cases reached
      exact RecentRing.holds_clear
  | append_singleton inputs input ih =>
      obtain ⟨before, earlier, stepped⟩ := runActions_concat reached
      rw [typedLines_concat]
      exact shellStep_history (ih earlier) stepped

end Sessions

theorem cdBin_shown : ∃ s, runActions shellStep (shellStart ⟨fun _ => [], 0, 0⟩)
    [cdBin, cdBin, catInput] = some s ∧
    cmdHistory s.history = (typedLines [cdBin, cdBin, catInput]).rtake maxHistory ∧
    cmdHistory s.history = [cText "cd BIN", cText " cat  a\tb"] := by
  have runs : (runActions shellStep (shellStart ⟨fun _ => [], 0, 0⟩) [cdBin, cdBin, catInput]).map
      (fun s => cmdHistory s.history) = some [cText "cd BIN", cText " cat  a\tb"] := by
    decide +kernel
  obtain ⟨s, reached, shown⟩ := Option.map_eq_some_iff.mp runs
  exact ⟨s, reached, history_shows_typed reached, shown⟩

end Szczupak
