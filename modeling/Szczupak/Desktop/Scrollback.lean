import Mathlib.Data.List.TakeWhile
import Szczupak.Desktop.ScrollbackCore

/-!
Which divisions of the output into reads the scrollback does not show: those
with every read but the last ending at the
end of a line.
-/

namespace Szczupak

def charSymbol (c : UInt8) : Option (LineSymbol UInt8) :=
  if c = 13 then none
  else if c = 10 then some .stop
  else
    let c := if c = 9 then 32 else c
    if c < 32 ∨ c > 126 then none else some (.char c)

def textSymbols (text : List UInt8) : List (LineSymbol UInt8) :=
  (text.map drainedChar).filterMap charSymbol

def lineWidth : Nat := shellLineMax - 1

def pushLines (shell : DesktopShell) (lines : List (List UInt8)) : DesktopShell :=
  lines.foldl shellPushScrollbackLine shell

def readLines (reads : List (List UInt8)) : List (List UInt8) :=
  pieceLines lineWidth (reads.map textSymbols)

theorem pushChar_symbol (s : PushText) (c : UInt8) :
    pushChar s c =
      match charSymbol c with
      | none => s
      | some .stop => s.endLine
      | some (.char d) =>
          if s.line.length < lineWidth then { s with line := s.line ++ [d] }
            else { s.endLine with line := [d] } := by
  have wraps : s.line.length + 1 ≥ shellLineMax ↔ ¬ s.line.length < lineWidth := by
    rw [lineWidth, shellLineMax]
    omega
  rw [pushChar, charSymbol]
  by_cases carriage : c = 13
  · rw [if_pos carriage, if_pos carriage]
  rw [if_neg carriage, if_neg carriage]
  by_cases feed : c = 10
  · rw [if_pos feed, if_pos feed]
  rw [if_neg feed, if_neg feed]
  dsimp only
  generalize (if c = 9 then 32 else c) = d
  by_cases control : d < 32 ∨ d > 126
  · rw [if_pos control, if_pos control]
  rw [if_neg control, if_neg control]
  dsimp only
  by_cases room : s.line.length < lineWidth
  · rw [if_pos room, if_neg (mt wraps.mp (not_not.mpr room))]
  · rw [if_neg room, if_pos (wraps.mpr room)]
    rfl

theorem pushChars_lines (text : List UInt8) (s : PushText) :
    text.foldl pushChar s =
      ⟨pushLines s.shell (cutLines lineWidth s.line (text.filterMap charSymbol)).1,
        (cutLines lineWidth s.line (text.filterMap charSymbol)).2,
        s.wroteLine || !(cutLines lineWidth s.line (text.filterMap charSymbol)).1.isEmpty⟩ := by
  induction text generalizing s with
  | nil =>
      rw [List.foldl_nil, List.filterMap_nil, cutLines]
      dsimp only
      rw [List.isEmpty_nil, Bool.not_true, Bool.or_false]
      rfl
  | cons c text ih =>
      rw [List.foldl_cons, ih, pushChar_symbol]
      cases symbol : charSymbol c with
      | none => rw [List.filterMap_cons_none symbol]
      | some symbol' =>
          rw [List.filterMap_cons_some symbol]
          cases symbol' with
          | stop =>
              rw [cutLines]
              simp [PushText.endLine, pushLines]
          | char d =>
              rw [cutLines]
              dsimp only
              split
              next => rfl
              next => simp [PushText.endLine, pushLines]

theorem shellPushText_lines {text : List UInt8} (plain : ∀ c ∈ text, c ≠ 0) (shell : DesktopShell) :
    shellPushText shell text = pushLines shell (textLines lineWidth (text.filterMap charSymbol)) := by
  have whole : text.takeWhile (· ≠ 0) = text := by
    rw [List.takeWhile_eq_self_iff]
    simpa using plain
  rw [shellPushText, whole, pushChars_lines, textLines, closeLines]
  generalize cutLines lineWidth [] (text.filterMap charSymbol) = cut
  obtain ⟨lines, left⟩ := cut
  dsimp only
  have closes : (left.length > 0 ∨ (false || !lines.isEmpty) = false) ↔ (left ≠ [] ∨ lines = []) := by
    rw [gt_iff_lt, List.length_pos_iff, Bool.false_or, Bool.not_eq_false', List.isEmpty_iff]
  by_cases close : left ≠ [] ∨ lines = []
  · rw [if_pos (closes.mpr close), if_pos close, pushLines, pushLines, List.foldl_append]
    rfl
  · rw [if_neg (mt closes.mp close), if_neg close]

theorem drainedChar_plain (c : UInt8) : drainedChar c ≠ 0 := by
  rw [drainedChar]
  by_cases zero : c = 0
  · rw [if_pos zero]
    decide
  · rw [if_neg zero]
    split
    · decide
    · exact zero

theorem shellPushText_drained (shell : DesktopShell) (text : List UInt8) :
    shellPushText shell (text.map drainedChar) = pushLines shell
    (textLines lineWidth (textSymbols text)) := by
  refine shellPushText_lines ?_ shell
  rw [List.forall_mem_map]
  exact fun c _ => drainedChar_plain c

theorem textSymbols_flatten (reads : List (List UInt8)) : textSymbols reads.flatten =
    (reads.map textSymbols).flatten := by
  rw [textSymbols, List.map_flatten, List.filterMap_flatten, List.map_map]
  rfl

def rowOf (shell : DesktopShell) (index : Nat) : Fin shellScrollback :=
  ⟨(shell.scrollHead + index) % shellScrollback, Nat.mod_lt _ shellScrollback_pos⟩

theorem charSymbol_plain {c d : UInt8} (kept : charSymbol c = some (.char d)) : d ≠ 0 := by
  rw [charSymbol] at kept
  split at kept
  · cases kept
  split at kept
  · cases kept
  dsimp only at kept
  generalize (if c = 9 then 32 else c) = shown at kept
  split at kept
  next => cases kept
  next plain =>
    cases kept
    rintro rfl
    exact plain (.inl (by decide))

theorem textLines_kept (text : List UInt8) :
    ∀ line ∈ textLines lineWidth (textSymbols text), shellCopyCstr shellLineMax line = line := by
  have each : ∀ line ∈ textLines lineWidth (textSymbols text), line.length ≤ lineWidth ∧
    ∀ c ∈ line, c ≠ 0 := by
    refine textLines_each ⟨Nat.zero_le _, nofun⟩ fun c member => ?_
    obtain ⟨from', _, kept⟩ := List.mem_filterMap.mp member
    have plain := charSymbol_plain kept
    have single : [c].length ≤ lineWidth := Nat.le_of_lt (show 1 < lineWidth by decide)
    refine ⟨⟨single, List.forall_mem_singleton.mpr plain⟩, fun line kind room => ⟨?_, ?_⟩⟩
    · rw [List.length_append]
      exact room
    · rw [List.forall_mem_append, List.forall_mem_singleton]
      exact ⟨kind.2, plain⟩
  intro line member
  obtain ⟨short, plain⟩ := each line member
  rw [shellCopyCstr, List.takeWhile_eq_self_iff.mpr (by simpa using plain)]
  exact List.take_of_length_le short

section

variable (shell : DesktopShell)
include shell

theorem pushLines_concat (lines : List (List UInt8)) (line : List UInt8) :
    pushLines shell (lines ++ [line]) = shellPushScrollbackLine (pushLines shell lines) line :=
  List.foldl_append

theorem pushLines_head (lines : List (List UInt8)) :
    (pushLines shell lines).scrollHead = rowOf shell lines.length := by
  induction lines using List.reverseRecOn with
  | nil => exact Fin.ext (Nat.mod_eq_of_lt shell.scrollHead.isLt).symm
  | append_singleton lines line ih =>
      refine Fin.ext ?_
      have head : ((pushLines shell lines).scrollHead : Nat) =
        (shell.scrollHead + lines.length) % shellScrollback :=
        congrArg Fin.val ih
      have next : ((pushLines shell (lines ++ [line])).scrollHead : Nat) =
          ((pushLines shell lines).scrollHead + 1) % shellScrollback := by
        rw [pushLines_concat]
        rfl
      rw [next, head, Nat.mod_add_mod, List.length_append]
      rfl

theorem rowOf_ne {first second : Nat} (less : first < second)
    (near : second - first < shellScrollback) : (rowOf shell second : Nat) ≠ rowOf shell first := by
  have apart : (shell.scrollHead + first + 0) % shellScrollback ≠
      (shell.scrollHead + first + (second - first)) % shellScrollback :=
      Ring.cell_ne (Nat.sub_pos_of_lt less) near
  rw [Nat.add_zero, Nat.add_assoc, Nat.add_sub_cancel' less.le] at apart
  exact Ne.symm apart

theorem pushLines_row {lines : List (List UInt8)} (few : lines.length ≤ shellScrollback)
    {index : Nat} (bound : index < lines.length) :
    (pushLines shell lines).scrollback.get (rowOf shell index) =
    shellCopyCstr shellLineMax lines[index] := by
  induction lines using List.reverseRecOn with
  | nil => cases bound
  | append_singleton lines line ih =>
      rw [List.length_append] at few bound
      have stored : (pushLines shell (lines ++ [line])).scrollback =
          (pushLines shell lines).scrollback.set (rowOf shell lines.length)
          (shellCopyCstr shellLineMax line) := by
        rw [pushLines_concat]
        exact congrArg (fun row : Fin shellScrollback =>
          (pushLines shell lines).scrollback.set row (shellCopyCstr shellLineMax line))
            (pushLines_head shell lines)
      rw [stored]
      by_cases last : index = lines.length
      · subst last
        rw [List.getElem_concat_length rfl]
        exact Vector.getElem_set_self _
      · have before : index < lines.length := by
          rw [List.length_singleton] at bound
          omega
        rw [List.length_singleton] at few
        rw [List.getElem_append_left before, ← ih (by omega) before]
        exact Vector.getElem_set_ne _ _ (rowOf_ne shell before (by omega))

theorem pushLines_inj {lines other : List (List UInt8)} (few : lines.length ≤ shellScrollback)
    (some : other ≠ []) (fewer : other.length ≤ lines.length)
    (kept : ∀ line ∈ lines, shellCopyCstr shellLineMax line = line)
    (kept' : ∀ line ∈ other, shellCopyCstr shellLineMax line = line)
    (same : pushLines shell lines = pushLines shell other) : lines = other := by
  have length : lines.length = other.length := by
    by_contra different
    have positive := List.length_pos_of_ne_nil some
    refine rowOf_ne shell (Nat.lt_of_le_of_ne fewer (Ne.symm different)) (by omega) ?_
    rw [← pushLines_head, ← pushLines_head, same]
  refine List.ext_getElem length fun index bound bound' => ?_
  rw [← kept _ (List.getElem_mem bound), ← kept' _ (List.getElem_mem bound'), ← pushLines_row
    shell few bound, ← pushLines_row shell (length ▸ few) bound', same]

end

section Session

variable {task : PtyTask} {start s after final : ScrollSession} {move : PumpMove}
    {moves : List PumpMove}

structure Scrolled (start s : ScrollSession) : Prop where
  shell : s.shell = pushLines start.shell (readLines s.reads)
  drained : s.pump.drained = s.reads.flatten
  texts : [] ∉ s.reads

structure FreshSession (s : ScrollSession) : Prop where
  reads : s.reads = []
  drained : s.pump.drained = []

/-- A read that is not the first meets the end of a line: behind a line feed, or behind full lines
and before a character. -/
def CleanRead (task : PtyTask) (s : ScrollSession) (move : PumpMove) : Prop :=
  ∀ last ∈ s.reads.getLast?, move = .host → hostText task.ptyId s.pump ≠ [] →
    CleanCut lineWidth (textSymbols last) (textSymbols (hostText task.ptyId s.pump))

/-- The lines that entered the scrollback are those of the undivided output. -/
def LinesWhole (s : ScrollSession) : Prop :=
  s.reads ≠ [] → readLines s.reads = textLines lineWidth (textSymbols s.reads.flatten)

def ScrollsWhole (shell : DesktopShell) (s : ScrollSession) : Prop :=
  s.shell = if s.pump.drained = [] then shell else shellPushText shell (s.pump.drained.map drainedChar)

theorem hostTurn_drained (id : Int) (s : PumpState) :
    (hostTurn id s).drained = s.drained ++ hostText id s := by
  rw [hostTurn, hostText]
  cases s.stage with
  | asking pumps =>
      dsimp only
      split <;> exact (List.append_nil _).symm
  | reading pumps avail =>
      dsimp only
      split <;> rfl
  | _ => exact (List.append_nil _).symm

theorem pumpStep_drained {pump : PumpState} (stepped : pumpStep task s.pump move = some pump) :
    pump.drained = s.pump.drained ++ if move = .host then hostText task.ptyId s.pump else [] := by
  cases move with
  | write bytes =>
      rw [pumpStep] at stepped
      split at stepped
      · cases stepped
      · cases stepped
        exact (List.append_nil _).symm
  | exit =>
      rw [pumpStep] at stepped
      split at stepped
      · cases stepped
      · cases stepped
        exact (List.append_nil _).symm
  | host =>
      cases stepped
      rw [if_pos rfl, hostTurn_drained]

theorem scrollStep_cases (stepped : scrollStep task s move = some after) :
    (after.shell = s.shell ∧ after.reads = s.reads ∧ after.pump.drained = s.pump.drained ∧
        (move = .host → hostText task.ptyId s.pump = [])) ∨
      ∃ text, text ≠ [] ∧ move = .host ∧ text = hostText task.ptyId s.pump ∧
        after.shell = shellPushText s.shell (text.map drainedChar) ∧
        after.reads = s.reads ++ [text] ∧ after.pump.drained = s.pump.drained ++ text := by
  obtain ⟨pump, pumped, rfl⟩ := Option.map_eq_some_iff.mp stepped
  have drained := pumpStep_drained pumped
  generalize textEq : (if move = .host then hostText task.ptyId s.pump else []) = text at drained
  rw [scrollRead]
  by_cases nothing : text = []
  · subst nothing
    refine .inl ⟨rfl, rfl, by rw [drained, List.append_nil], fun host => ?_⟩
    rwa [if_pos host] at textEq
  · have host : move = .host := by
      by_contra other
      rw [if_neg other] at textEq
      exact nothing textEq.symm
    rw [if_pos host] at textEq
    rw [if_neg (mt List.length_eq_zero_iff.mp nothing)]
    exact .inr ⟨text, nothing, host, textEq.symm, rfl, rfl, drained⟩

theorem FreshSession.scrolled (fresh : FreshSession start) : Scrolled start start := by
  refine ⟨?_, ?_, ?_⟩
  · rw [fresh.reads]
    rfl
  · rw [fresh.reads, fresh.drained]
    rfl
  · rw [fresh.reads]
    exact List.not_mem_nil

theorem readLines_append (reads : List (List UInt8)) (text : List UInt8) :
    readLines (reads ++ [text]) = readLines reads ++ textLines lineWidth (textSymbols text) := by
  rw [readLines, readLines, pieceLines, pieceLines, List.map_append, List.flatMap_append,
    List.map_singleton, List.flatMap_singleton]

theorem Scrolled.step (scrolled : Scrolled start s)
    (stepped : scrollStep task s move = some after) : Scrolled start after := by
  obtain ⟨shell, reads, drained, -⟩ | ⟨text, some, -, -, shell, reads, drained⟩ :=
    scrollStep_cases stepped
  · refine ⟨?_, ?_, ?_⟩
    · rw [shell, reads, scrolled.shell]
    · rw [drained, reads, scrolled.drained]
    · rw [reads]
      exact scrolled.texts
  · refine ⟨?_, ?_, ?_⟩
    · rw [shell, reads, shellPushText_drained, scrolled.shell, readLines_append, pushLines,
        pushLines, pushLines, List.foldl_append]
    · rw [drained, reads, scrolled.drained, List.flatten_append, List.flatten_singleton]
    · rw [reads, List.mem_append, not_or]
      exact ⟨scrolled.texts, by simpa using Ne.symm some⟩

theorem LinesWhole.chain : LinesWhole s ↔ (s.reads.map textSymbols).IsChain (CleanCut lineWidth) := by
  by_cases nothing : s.reads = []
  · rw [LinesWhole, nothing]
    exact iff_of_true (fun some => absurd rfl some) .nil
  · have pieces : s.reads.map textSymbols ≠ [] := by simpa using nothing
    rw [LinesWhole, ← pieceLines_exact (by decide) pieces, textSymbols_flatten]
    exact ⟨fun whole => whole nothing, fun whole _ => whole⟩

theorem LinesWhole.step (stepped : scrollStep task s move = some after) :
    LinesWhole after ↔ LinesWhole s ∧ CleanRead task s move := by
  rw [LinesWhole.chain, LinesWhole.chain]
  obtain ⟨-, reads, -, nothing⟩ | ⟨text, some, host, read, -, reads, -⟩ := scrollStep_cases stepped
  · rw [reads]
    exact (and_iff_left fun last _ host some => absurd (nothing host) some).symm
  · rw [reads, List.map_append, List.map_singleton, List.isChain_append]
    refine and_congr_right fun _ => ?_
    rw [CleanRead, ← read]
    constructor
    · rintro ⟨-, clean⟩ last member - -
      exact clean _ (List.getLast?_map ▸ Option.mem_map_of_mem textSymbols member) _ rfl
    · intro clean
      refine ⟨.singleton _, ?_⟩
      rintro _ mapped _ ⟨⟩
      rw [List.getLast?_map] at mapped
      obtain ⟨last, member, rfl⟩ := Option.mem_map.mp mapped
      exact clean last member host some

theorem Scrolled.output (scrolled : Scrolled start s) (some : s.reads ≠ []) : s.reads.flatten ≠ [] := by
  rintro empty
  obtain ⟨text, rest, reads⟩ := List.exists_cons_of_ne_nil some
  have member : text ∈ s.reads := reads ▸ List.mem_cons_self
  exact scrolled.texts (List.flatten_eq_nil_iff.mp empty text member ▸ member)

theorem LinesWhole.scrolls (whole : LinesWhole s) (scrolled : Scrolled start s) :
    ScrollsWhole start.shell s := by
  rw [ScrollsWhole, scrolled.shell, scrolled.drained]
  by_cases nothing : s.reads = []
  · rw [nothing]
    rfl
  · rw [if_neg (scrolled.output nothing), shellPushText_drained, whole nothing]

section

variable (fresh : FreshSession start)
include fresh

theorem FreshSession.whole : LinesWhole start := fun some => absurd fresh.reads some

section

variable (ran : runActions (scrollStep task) start moves = some final)
include ran

theorem FreshSession.run :
    Scrolled start final :=
  runActions_invariant (fun _ _ _ => Scrolled.step) fresh.scrolled ran

theorem FreshSession.pieces :
    (∀ began rest middle, moves = began ++ rest → runActions (scrollStep task) start began = some
      middle → LinesWhole middle) ↔ RunMeets (scrollStep task) (CleanRead task) start moves := by
  refine runActions_exact_kept (fun _ whole => whole) ?_ ?_ fresh.whole ran
  · intro s move after whole clean stepped
    exact (LinesWhole.step stepped).mpr ⟨whole, clean⟩
  · intro s move after _ broken stepped whole
    exact broken ((LinesWhole.step stepped).mp whole).2

theorem FreshSession.whole_iff :
    LinesWhole final ↔ RunMeets (scrollStep task) (CleanRead task) start moves := by
  have exact := @runActions_exact _ _ (scrollStep task) (CleanRead task) (fun _ => True) LinesWhole
    (fun _ _ _ _ _ => trivial) (fun _ _ _ _ => LinesWhole.step) _ _ _ trivial ran
  rw [exact]
  exact and_iff_right fresh.whole

end

end

theorem readLines_kept (reads : List (List UInt8)) : ∀ line ∈ readLines reads,
    shellCopyCstr shellLineMax line = line := by
  intro line member
  obtain ⟨text, piece, inside⟩ := List.mem_flatMap.mp member
  obtain ⟨read, -, rfl⟩ := List.mem_map.mp piece
  exact textLines_kept read line inside

theorem LinesWhole.of_scrolls (scrolled : Scrolled start s)
    (few : (readLines s.reads).length ≤ shellScrollback)
    (scrolls : ScrollsWhole start.shell s) : LinesWhole s := by
  intro some
  have pieces : s.reads.map textSymbols ≠ [] := by simpa using some
  have output := scrolled.output some
  rw [ScrollsWhole, scrolled.shell, scrolled.drained, if_neg output, shellPushText_drained] at scrolls
  refine pushLines_inj start.shell few (textLines_some _) ?_ (readLines_kept _)
    (textLines_kept _) scrolls
  rw [textSymbols_flatten]
  exact pieceLines_length pieces

/-- In a run of clean reads the scrollback is that of the output read at once, and so that of every
other such run with the same output. The lines that enter it are then those of the undivided output,
and only then; and only then, while no line has scrolled off, the scrollback is that of the
undivided output. -/
theorem scrollback_chunking (fresh : FreshSession start)
    (ran : runActions (scrollStep task) start moves = some final) :
    (LinesWhole final ↔ RunMeets (scrollStep task) (CleanRead task) start moves) ∧
      ((readLines final.reads).length ≤ shellScrollback →
        (ScrollsWhole start.shell final ↔ RunMeets (scrollStep task) (CleanRead task) start moves)) ∧
      (RunMeets (scrollStep task) (CleanRead task) start moves →
        (∀ began rest middle, moves = began ++ rest → runActions (scrollStep task) start began =
          some middle → ScrollsWhole start.shell middle) ∧
        ∀ task' start' moves' final', FreshSession start' → start'.shell = start.shell →
          runActions (scrollStep task') start' moves' = some final' → final'.pump.drained = final.pump.drained →
          RunMeets (scrollStep task') (CleanRead task') start' moves' → final'.shell = final.shell) := by
  refine ⟨fresh.whole_iff ran, fun few => ?_, fun clean => ⟨?_, ?_⟩⟩
  · rw [← fresh.whole_iff ran]
    exact ⟨LinesWhole.of_scrolls (fresh.run ran) few, fun whole => whole.scrolls (fresh.run ran)⟩
  · intro began rest middle split reached
    exact ((fresh.pieces ran).mpr clean began rest middle split reached).scrolls (fresh.run reached)
  · intro task' start' moves' final' fresh' shell ran' drained clean'
    have this := ((fresh.whole_iff ran).mpr clean).scrolls (fresh.run ran)
    have other := ((fresh'.whole_iff ran').mpr clean').scrolls (fresh'.run ran')
    rw [ScrollsWhole] at this other
    rw [this, other, shell, drained]

end Session

def shellTask : PtyTask := ⟨1, 0, fun _ => by decide⟩

def shellSession : ScrollSession where
  pump := pumpStart ptyInit shellTask
  shell := ⟨Vector.replicate shellScrollback [], ⟨0, shellScrollback_pos⟩, 0⟩
  reads := []

def drainMoves : List PumpMove := [.host, .host, .host]

def drainedRows (moves : List PumpMove) : Option (List UInt8 × List (List UInt8)) :=
  (runActions (scrollStep shellTask) shellSession moves).map fun s =>
    (s.pump.drained, s.shell.scrollback.toList.take 2)

def lineByLine : List PumpMove := .write [97, 10] :: drainMoves ++ .write [98] :: .host :: drainMoves

theorem lineByLine_chunks : ∃ final, runActions (scrollStep shellTask) shellSession lineByLine =
    some final ∧
    final.reads = [[97, 10], [98]] ∧ LinesWhole final ∧ ScrollsWhole shellSession.shell final := by
  obtain ⟨final, ran, reads⟩ : ∃ final, runActions (scrollStep shellTask) shellSession lineByLine =
      some final ∧ final.reads = [[97, 10], [98]] := ⟨_, rfl, by decide⟩
  have whole : LinesWhole final := by
    rw [LinesWhole, reads]
    decide
  obtain ⟨lines, -, clean⟩ := scrollback_chunking ⟨rfl, rfl⟩ ran
  exact ⟨final, ran, reads, whole, (clean (lines.mp whole)).1 lineByLine [] final
    (List.append_nil _).symm ran⟩

/-- The same output is two lines when the window drains between its two characters, and one when it
drains behind them. -/
theorem drain_between_breaks_line :
    drainedRows (.write [97] :: drainMoves ++ .write [98] :: .host :: drainMoves) =
    some ([97, 98], [[97], [98]]) ∧
      drainedRows (.write [97] :: .write [98] :: drainMoves) = some ([97, 98], [[97, 98], []]) :=
  ⟨by decide, by decide⟩

end Szczupak
