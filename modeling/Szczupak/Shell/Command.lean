import Szczupak.Shell.CommandCore
import Szczupak.Shell.Path
import Szczupak.Task.UserArgs

/-!
From the line that is typed to the arguments of the program.  The shell cuts the line and puts its
words behind a path; the kernel cuts the command line again.  Between them nothing is lost as long
as the path is one word, and that is why the current directory must stay one.
-/

namespace Szczupak

section Tokens

variable {front rest back spaces token : List UInt8} {c : UInt8}

theorem lineDelims_space : lineDelims.contains c = taskIsSpace c := by
  rw [Bool.eq_iff_iff, List.contains_iff_mem]
  simp [lineDelims, taskIsSpace, or_assoc]

theorem strtok_skips : (fun c : UInt8 => decide (c ≠ 0) && lineDelims.contains c) = taskIsSpace := by
  funext c
  rw [lineDelims_space]
  cases blank : taskIsSpace c with
  | false => exact Bool.and_false _
  | true => simp [space_nonzero blank]

theorem strtok_takes : (fun c : UInt8 => decide (c ≠ 0) && !lineDelims.contains c) = inToken := by
  funext c
  rw [lineDelims_space]
  rfl

theorem strtok_blank (blank : ∀ c ∈ spaces, taskIsSpace c = true) :
    ∃ p, strtok lineDelims (front ++ (spaces ++ [0])) front.length =
    (none, front ++ (spaces ++ [0]), p) := by
  have skipped := @skipWhile_front front [0] spaces taskIsSpace (front ++ (spaces ++ [0])).length
    blank rfl (by simp; omega)
  have ends := getD_front (front ++ spaces) [0] 0
  rw [List.append_assoc, List.length_append, Nat.add_zero] at ends
  refine ⟨front.length + spaces.length, ?_⟩
  rw [strtok, strtok_skips, skipped, ends]
  rfl

theorem strtok_token {start : Nat} (noNul : 0 ∉ token) (blank : ∀ c ∈ spaces, taskIsSpace c = true)
    (solid : ∀ c ∈ token, taskIsSpace c = false) (some' : token ≠ []) (stops : inToken c = false)
    (startEq : start = front.length + spaces.length) :
    strtok lineDelims (front ++ (spaces ++ (token ++ c :: back))) front.length =
      if c ≠ 0 then (some start, front ++ (spaces ++ (token ++ 0 :: back)), start + token.length + 1)
      else (some start, front ++ (spaces ++ (token ++ c :: back)), start + token.length) := by
  generalize bufferEq : front ++ (spaces ++ (token ++ c :: back)) = buffer
  obtain ⟨startAt, atStart, stopAt, atStop, written⟩ :=
    token_found noNul blank solid some' stops startEq bufferEq.symm
  rw [strtok, strtok_skips, strtok_takes]
  simp only [startAt, if_neg atStart, stopAt, atStop, written]

def parseFrom (turns : Nat) (argv : List Nat) (buffer : List UInt8) (p : Nat) : List Nat × List UInt8 :=
  let (token, buffer, p) := strtok lineDelims buffer p
  parseLoop turns token argv buffer p

theorem parseFrom_words {turns : Nat} (argv : List Nat) (noNul : 0 ∉ rest)
    (enough : rest.length < turns) :
    FindsWords (maxArgs - 1) front rest argv
    (parseFrom turns argv (front ++ (rest ++ [0])) front.length) := by
  induction rest using words_induction generalizing front argv turns with
  | blank spaces blank =>
      obtain ⟨limit, rfl⟩ : ∃ limit, turns = limit + 1 := ⟨turns - 1, by omega⟩
      obtain ⟨p, found⟩ := @strtok_blank front spaces blank
      rw [parseFrom, found]
      exact .blank blank
  | last spaces token blank solid some =>
      obtain ⟨limit, rfl⟩ : ∃ limit, turns = limit + 1 := ⟨turns - 1, by omega⟩
      rw [List.mem_append, not_or] at noNul
      have found := @strtok_token front [] spaces token 0 _ noNul.2 blank solid some rfl rfl
      rw [if_neg (fun nonzero => nonzero rfl)] at found
      rw [parseFrom, List.append_assoc, found]
      dsimp only
      rw [parseLoop]
      by_cases room : argv.length < maxArgs - 1
      · have ends : (front ++ (spaces ++ token)).length = front.length + spaces.length + token.length := by
          simp [Nat.add_assoc]
        obtain ⟨p, none⟩ := @strtok_blank (front ++ (spaces ++ token)) [] (by simp)
        rw [ends] at none
        simp only [List.nil_append, List.append_assoc] at none
        rw [if_pos room, none]
        have finds := @FindsWords.last front spaces token (maxArgs - 1) argv room noNul.2 blank solid some
        cases limit <;> exact finds
      · rw [if_neg room]
        exact .full room _
  | next spaces token c rest blank solid some separator ih =>
      obtain ⟨limit, rfl⟩ : ∃ limit, turns = limit + 1 := ⟨turns - 1, by omega⟩
      simp only [List.mem_append, List.mem_cons, not_or, List.length_append, List.length_cons] at noNul enough
      have found := @strtok_token front (rest ++ [0]) spaces token c _ noNul.2.1 blank solid some
        (by simp [inToken, separator]) rfl
      rw [if_pos (space_nonzero separator)] at found
      have layout : front ++ (spaces ++ (token ++ c :: rest) ++ [0]) =
        front ++ (spaces ++ (token ++ c :: (rest ++ [0]))) := by
        simp
      rw [parseFrom, layout, found]
      dsimp only
      rw [parseLoop]
      by_cases room : argv.length < maxArgs - 1
      · rw [if_pos room]
        have place : (front ++ (spaces ++ (token ++ [0]))).length =
          front.length + spaces.length + token.length + 1 := by
          simp
          omega
        have later := @ih (front ++ (spaces ++ (token ++ [0]))) limit
          (argv ++ [front.length + spaces.length]) noNul.2.2.2 (by omega)
        have cut : front ++ (spaces ++ (token ++ [0])) ++ (rest ++ [0]) =
          front ++ (spaces ++ (token ++ 0 :: (rest ++ [0]))) := by
          simp
        rw [place, cut] at later
        exact .next room noNul.2.1 blank solid some separator later
      · rw [if_neg room]
        exact .full room _

theorem parseLine_words {line : List UInt8} (noNul : 0 ∉ line) :
    (parseLine line).1.map (stringAt (parseLine line).2) = (words line).take (maxArgs - 1) := by
  obtain ⟨offsets, back, isResult, strings⟩ :=
    @parseFrom_words [] line (line.length + 1) [] noNul (by omega)
  have result : parseLine line = ([] ++ offsets, [] ++ back) := isResult
  rw [result]
  exact strings

end Tokens

/-- One word, which `strtok` and the kernel leave whole. -/
structure OneWord (word : List UInt8) : Prop where
  some : word ≠ []
  solid : ∀ c ∈ word, c ≠ 0 ∧ taskIsSpace c = false

section Cmdline

variable {path out cmdline request arg : List UInt8} {args : List (List UInt8)} {outSize : Nat}

theorem words_args (path : List UInt8) (word : OneWord path) (each : ∀ arg ∈ args, OneWord arg) :
    words (path ++ args.flatMap (32 :: ·)) = path :: args := by
  induction args generalizing path with
  | nil => rw [List.flatMap_nil, List.append_nil,
    words_token (fun c member => (word.solid c member).2) word.some]
  | cons arg rest ih =>
      rw [List.forall_mem_cons] at each
      rw [List.flatMap_cons, List.cons_append, words_cons (fun c member => (word.solid c member).2)
        word.some (by decide), ih arg each.1 each.2]

theorem appendArgs (each : ∀ arg ∈ args, arg ≠ [])
    (built : args.foldlM (appendArg outSize) out = some cmdline) :
    cmdline = out ++ args.flatMap (32 :: ·) ∧ (out.length < outSize → cmdline.length < outSize) := by
  induction args generalizing out with
  | nil =>
      cases built
      exact ⟨(List.append_nil _).symm, id⟩
  | cons arg rest ih =>
      rw [List.forall_mem_cons] at each
      rw [List.foldlM_cons, appendArg, if_neg each.1] at built
      split at built
      next => cases built
      next fits =>
        obtain ⟨isCmdline, short⟩ := ih each.2 built
        refine ⟨by rw [isCmdline, List.flatMap_cons, List.append_assoc, List.cons_append], fun _ => short ?_⟩
        rw [List.length_append, List.length_cons]
        omega

theorem buildExecCmdline_words (word : OneWord path) (each : ∀ arg ∈ args, OneWord arg)
    (built : buildExecCmdline path args maxCmdLen = some cmdline) :
    words cmdline = path :: args ∧ 0 ∉ cmdline ∧ cmdline ≠ [] ∧ cmdline.length < maxCmdLen ∧
      cmdline.takeWhile (fun c => !isSpace c) = path ∧ cmdline.dropWhile isSpace = cmdline := by
  rw [buildExecCmdline] at built
  split at built
  next => cases built
  next fits =>
    obtain ⟨isCmdline, short⟩ := appendArgs (fun arg member => (each arg member).some) built
    have noSpace : ∀ c ∈ path, (!isSpace c) = true := by
      intro c member
      have solid := (word.solid c member).2
      simp only [taskIsSpace, Bool.or_eq_false_iff, decide_eq_false_iff_not] at solid
      simp [isSpace, solid]
    rw [isCmdline]
    refine ⟨words_args path word each, fun member => ?_, ?_, ?_, ?_, ?_⟩
    · rcases List.mem_append.mp member with inPath | inArgs
      · exact (word.solid 0 inPath).1 rfl
      · obtain ⟨arg, isArg, inArg⟩ := List.mem_flatMap.mp inArgs
        rcases List.mem_cons.mp inArg with space | inside
        · exact absurd space (by decide)
        · exact ((each arg isArg).solid 0 inside).1 rfl
    · exact fun empty => word.some (List.append_eq_nil_iff.mp empty).1
    · rw [← isCmdline]
      exact short (by omega)
    · rw [List.takeWhile_append_of_pos noSpace]
      cases args with
      | nil => rw [List.flatMap_nil, List.takeWhile_nil, List.append_nil]
      | cons arg rest => rw [List.flatMap_cons, List.cons_append,
        List.takeWhile_cons_of_neg (by decide), List.append_nil]
    · cases path with
      | nil => exact absurd rfl word.some
      | cons c rest =>
          have solid := noSpace c List.mem_cons_self
          rw [List.cons_append, List.dropWhile_cons_of_neg (by simpa using solid)]

theorem buildExecCmdline_read (word : OneWord path) (absolute : path.head? = some 47)
    (short : path.length < execPathMax)
    (each : ∀ arg ∈ args, OneWord arg) (few : args.length < userArgMax)
    (built : buildExecCmdline path args maxCmdLen = some cmdline) (fallbackName : List UInt8) :
    commandPath cmdline = some path ∧ argumentStrings fallbackName cmdline = path :: args := by
  obtain ⟨cut, -, some', fits, takes, drops⟩ := buildExecCmdline_words word each built
  constructor
  · rw [commandPath]
    simp only [drops, takes]
    rw [if_neg (Nat.not_le.mpr short), if_neg (fun notAbsolute => notAbsolute absolute)]
  · rw [argumentStrings, if_neg some']
    rw [maxCmdLen] at fits
    have whole : cmdline.take (userCmdlineMax - 1) = cmdline :=
      List.take_of_length_le (by rw [userCmdlineMax]; omega)
    have all : (path :: args).take userArgMax = path :: args :=
      List.take_of_length_le (by rw [List.length_cons]; exact few)
    simp only [whole, cut, all]
    rw [if_neg (List.cons_ne_nil _ _)]

end Cmdline

section Paths

variable {path cwd cmd out : List UInt8} {segment : List UInt8} {segmentSize outSize : Nat}

def Solid (bytes : List UInt8) : Prop := ∀ c ∈ bytes, c ≠ 0 ∧ taskIsSpace c = false

theorem Solid.append {more : List UInt8} (solid : Solid path) (also : Solid more) :
    Solid (path ++ more) :=
  fun c member => (List.mem_append.mp member).elim (solid c) (also c)

theorem solid_slash : Solid [47] := by
  intro c member
  rw [List.mem_singleton.mp member]
  decide

theorem tokensFrom_solid {token : List UInt8} (solidToken : Solid token) (solid : Solid path) :
    ∀ segment ∈ tokensFrom token path, Solid segment := by
  induction path generalizing token with
  | nil =>
      intro segment member
      rw [tokensFrom] at member
      split at member
      next => cases member
      next => rwa [List.mem_singleton.mp member]
  | cons char rest ih =>
      have rests : Solid rest := fun c member => solid c (List.mem_cons_of_mem _ member)
      have empty : Solid [] := fun c member => absurd member List.not_mem_nil
      intro segment member
      rw [tokensFrom] at member
      split at member
      next =>
        split at member
        next => exact ih empty rests segment member
        next =>
          rcases List.mem_cons.mp member with rfl | later
          · exact solidToken
          · exact ih empty rests segment later
      next =>
        refine ih (solidToken.append fun c inside => ?_) rests segment member
        rw [List.mem_singleton.mp inside]
        exact solid char List.mem_cons_self

theorem pushSegment_solid {next : List UInt8} (solid : Solid out) (also : Solid segment)
    (pushed : pushSegment segmentSize outSize out segment = some next) : Solid next := by
  have appends : ∀ {before next : List UInt8}, Solid before →
    appendSegment outSize before segment = some next → Solid next := by
    intro before next solidBefore appended
    rw [appendSegment] at appended
    split at appended
    next => cases appended
    next =>
      cases appended
      exact solidBefore.append also
  rw [pushSegment] at pushed
  split at pushed
  next => cases pushed
  next =>
    split at pushed
    next =>
      cases pushed
      exact solid
    next =>
      split at pushed
      next =>
        cases pushed
        rw [popSegment]
        split
        next => exact fun c member => solid c (List.mem_of_mem_take member)
        next => exact solid
      next =>
        split at pushed
        next =>
          split at pushed
          next => cases pushed
          next => exact appends (solid.append solid_slash) pushed
        next => exact appends solid pushed

theorem foldlM_solid {segments : List (List UInt8)} (solid : Solid out)
    (each : ∀ segment ∈ segments, Solid segment)
    {next : List UInt8}
    (pushed : segments.foldlM (pushSegment segmentSize outSize) out = some next) : Solid next := by
  induction segments generalizing out with
  | nil =>
      cases pushed
      exact solid
  | cons segment rest ih =>
      rw [List.forall_mem_cons] at each
      obtain ⟨middle, first, later⟩ := Option.bind_eq_some_iff.mp pushed
      exact ih (pushSegment_solid solid each.1 first) each.2 later

theorem normalizePath_solid (solid : Solid cwd) (also : Solid cmd)
    (normalizes : normalizePath cwd cmd outSize = some out) : Solid out := by
  rw [normalizePath, normalizeWith] at normalizes
  split at normalizes
  next => cases normalizes
  next =>
    split at normalizes
    next => cases normalizes
    next combined combines =>
      have solidCombined : Solid combined := by
        rw [combinePath] at combines
        split at combines
        next =>
          split at combines
          next => cases combines
          next =>
            cases combines
            exact also
        next =>
          dsimp only at combines
          generalize (if cwd.length > 0 ∧ cwd.getLast? ≠ some 47 then 1 else 0) = needSlash at combines
          split at combines
          next => cases combines
          next =>
            cases combines
            refine (solid.append fun c member => ?_).append also
            rw [List.eq_of_mem_replicate member]
            decide
      exact foldlM_solid solid_slash
        (tokensFrom_solid (fun c member => absurd member List.not_mem_nil) solidCombined) normalizes

structure ShellPath (path : List UInt8) : Prop where
  absolute : path.head? = some 47
  solid : Solid path
  short : path.length < shellMaxPath

theorem ShellPath.word (shellPath : ShellPath path) : OneWord path := by
  refine ⟨fun empty => ?_, shellPath.solid⟩
  have absolute := shellPath.absolute
  rw [empty] at absolute
  cases absolute

theorem normalizePath_shellPath (here : ShellPath cwd) (also : Solid cmd)
    (normalizes : normalizePath cwd cmd shellMaxPath = some out) : ShellPath out := by
  have holds := (normalizeWith_holds here.absolute normalizes).1
  refine ⟨?_, normalizePath_solid here.solid also normalizes, holds.fits⟩
  rw [holds.rendered]
  exact renderPath_head

theorem upperAscii_solid {c : UInt8} (solid : c ≠ 0 ∧ taskIsSpace c = false) :
    upperAscii c ≠ 0 ∧ taskIsSpace (upperAscii c) = false := by
  rw [upperAscii]
  split
  next letter =>
    have large : ∀ c : UInt8, 97 ≤ c → c ≤ 122 → c - 32 ≠ 0 ∧ taskIsSpace (c - 32) = false := by
      intro c lower upper
      have value : (c - 32).toNat = c.toNat - 32 := UInt8.toNat_sub_of_le _ _ (by
        rw [UInt8.le_iff_toNat_le] at lower ⊢
        exact Nat.le_trans (by decide) lower)
      rw [UInt8.le_iff_toNat_le] at lower upper
      have bounds : 65 ≤ (c - 32).toNat ∧ (c - 32).toNat ≤ 90 := by
        have low : (97 : UInt8).toNat = 97 := rfl
        have high : (122 : UInt8).toNat = 122 := rfl
        omega
      have differs : ∀ other : UInt8, other.toNat < 65 → c - 32 ≠ other := by
        intro other small same
        rw [same] at bounds
        omega
      refine ⟨differs 0 (by decide), ?_⟩
      simp only [taskIsSpace, Bool.or_eq_false_iff, decide_eq_false_iff_not]
      exact ⟨⟨⟨differs 32 (by decide), differs 9 (by decide)⟩, differs 10 (by decide)⟩, differs 13 (by decide)⟩
    exact large c letter.1 letter.2
  next => exact solid

theorem toUpperPath_shellPath (here : ShellPath path) : ShellPath (toUpperPath path) := by
  have short := here.short
  rw [shellMaxPath] at short
  have whole : toUpperPath path = path.map upperAscii := by
    rw [toUpperPath, List.take_of_length_le]
    rw [List.length_map, shellMaxPath]
    omega
  rw [whole]
  refine ⟨?_, fun c member => ?_, ?_⟩
  · rw [List.head?_map, here.absolute]
    rfl
  · obtain ⟨before, inside, rfl⟩ := List.mem_map.mp member
    exact upperAscii_solid (here.solid before inside)
  · rw [List.length_map]
    exact here.short

theorem appendElfExt_shellPath (here : ShellPath path)
    (appended : appendElfExt path shellMaxPath = some out) : ShellPath out := by
  rw [appendElfExt] at appended
  split at appended
  next => cases appended
  next room =>
    cases appended
    have elf : (cText ".ELF").all (fun c => decide (c ≠ 0 ∧ taskIsSpace c = false)) = true := by decide
    refine ⟨?_, here.solid.append fun c member => of_decide_eq_true (List.all_eq_true.mp elf c member), ?_⟩
    · rw [List.head?_append, here.absolute]
      rfl
    · rw [List.length_append, show (cText ".ELF").length = 4 from rfl]
      omega

theorem execPaths_shellPath (here : ShellPath path) : ∀ other ∈ execPaths path, ShellPath other := by
  have uppers : ∀ {path other : List UInt8}, ShellPath path →
      other ∈ (if toUpperPath path ≠ path then [toUpperPath path] else []) → ShellPath other := by
    intro path other here member
    split at member
    next => rw [List.mem_singleton.mp member]; exact toUpperPath_shellPath here
    next => cases member
  intro other member
  rw [execPaths] at member
  dsimp only at member
  rw [List.cons_append, List.mem_cons, List.mem_append] at member
  rcases member with rfl | upper | elf
  · exact here
  · exact uppers here upper
  · split at elf
    next => cases elf
    next =>
      split at elf
      next => cases elf
      next absElf appended =>
        have isElf := appendElfExt_shellPath here appended
        rcases List.mem_cons.mp elf with rfl | upper
        · exact isElf
        · exact uppers isElf upper

end Paths

/-- The words of a line that name a program and its arguments. -/
def typedProgram (line : List UInt8) : List (List UInt8) :=
  let argv := (words line).take (maxArgs - 1)
  if argv.head? = some (cText "run") then argv.tail else argv

/-- The kernel runs `path` for a command line and puts the arguments on the stack of the program. -/
def StartsWith (request path : List UInt8) (args : List (List UInt8)) : Prop :=
  commandPath request = some path ∧
    ∀ (ram : Mem) (root : Nat), PagesMapped ram root (userStackTop - userStackSize) userStackTop →
      ∃ built ptrs after, taskBuildUserArgs root path request userStackTop ram = some (built, after) ∧
        ArgsOnStack (userView after root) (userStackTop - userStackSize) userStackTop (path :: args) built ptrs

structure ShellPlace (s : Shell) : Prop where
  cwd : ShellPath s.cwd
  prevCwd : ShellPath s.prevCwd

section Sessions

variable {s next : Shell} {input : ShellInput} {line request : List UInt8}
  {args : List (List UInt8)} {exec : List UInt8 → Bool}

theorem words_oneWord (noNul : 0 ∉ line) : ∀ word ∈ words line, OneWord word := by
  intro word member
  obtain ⟨some', inside⟩ := words_mem line word member
  have solid : ∀ c ∈ word, taskIsSpace c = false := by
    rw [words, List.mem_filter] at member
    intro c inWord
    by_contra blank
    have isBlank : taskIsSpace c = true := by simpa using blank
    have pieces : ∀ (source : List UInt8), ∀ piece ∈ source.splitOnP taskIsSpace, ∀ c ∈ piece,
      taskIsSpace c = false := by
      intro source
      induction source with
      | nil =>
          intro piece member c inPiece
          rw [List.splitOnP_nil, List.mem_singleton] at member
          rw [member] at inPiece
          cases inPiece
      | cons first rest ih =>
          intro piece member c inPiece
          rw [List.splitOnP_cons_eq_if_modifyHead] at member
          split at member
          next =>
            rcases List.mem_cons.mp member with rfl | later
            · cases inPiece
            · exact ih piece later c inPiece
          next notBlank =>
            have notBlank : taskIsSpace first = false := by simpa using notBlank
            cases split : rest.splitOnP taskIsSpace with
            | nil => exact absurd split (List.splitOnP_ne_nil _ _)
            | cons head tail =>
                rw [split, List.modifyHead_cons, List.mem_cons] at member
                rw [split] at ih
                rcases member with rfl | later
                · rcases List.mem_cons.mp inPiece with rfl | inHead
                  · exact notBlank
                  · exact ih head List.mem_cons_self c inHead
                · exact ih piece (List.mem_cons_of_mem _ later) c inPiece
    exact Bool.false_ne_true ((pieces line word member.1 c inWord).symm.trans isBlank)
  exact ⟨some', fun c inWord => ⟨fun zero => noNul (zero ▸ inside c inWord), solid c inWord⟩⟩

theorem tryExecPaths_request {paths : List (List UInt8)}
    (member : request ∈ tryExecPaths exec args paths) :
    ∃ path ∈ paths, buildExecCmdline path args maxCmdLen = some request := by
  induction paths with
  | nil => cases member
  | cons path rest ih =>
      rw [tryExecPaths] at member
      split at member
      next => cases member
      next cmdline built =>
        have here : request = cmdline → ∃ path' ∈ path :: rest,
          buildExecCmdline path' args maxCmdLen = some request :=
          fun isCmdline => ⟨path, List.mem_cons_self, isCmdline ▸ built⟩
        split at member
        next => exact here (List.mem_singleton.mp member)
        next =>
          rcases List.mem_cons.mp member with isCmdline | later
          · exact here isCmdline
          · obtain ⟨path', inside, built'⟩ := ih later
            exact ⟨path', List.mem_cons_of_mem _ inside, built'⟩

theorem tryExecPaths_last {paths : List (List UInt8)} :
    ∀ earlier ∈ (tryExecPaths exec args paths).dropLast, exec earlier = false := by
  induction paths with
  | nil => simp [tryExecPaths]
  | cons path rest ih =>
      rw [tryExecPaths]
      split
      next => simp
      next cmdline built =>
        split
        next => simp
        next fails =>
          intro earlier member
          cases more : tryExecPaths exec args rest with
          | nil =>
              rw [more] at member
              cases member
          | cons head tail =>
              rw [more, List.dropLast_cons_cons, List.mem_cons] at member
              rcases member with rfl | later
              · simpa using fails
              · rw [more] at ih
                exact ih earlier later

theorem tryExecCommand_request {cwd cmd : List UInt8} (here : ShellPath cwd) (word : OneWord cmd)
    (each : ∀ arg ∈ args, OneWord arg) (few : args.length < userArgMax)
    (member : request ∈ tryExecCommand exec cwd cmd args) :
    ∃ absPath path, normalizePath cwd cmd shellMaxPath = some absPath ∧ path ∈ execPaths absPath ∧
      StartsWith request path args := by
  rw [tryExecCommand] at member
  split at member
  next => cases member
  next absPath normalizes =>
    rw [buildAbsPath] at normalizes
    split at normalizes
    next => cases normalizes
    next =>
      obtain ⟨path, tried, built⟩ := tryExecPaths_request member
      have isPath := execPaths_shellPath (normalizePath_shellPath here word.solid normalizes) path tried
      have read := buildExecCmdline_read isPath.word isPath.absolute isPath.short each few built
      refine ⟨absPath, path, normalizes, tried, (read []).1, fun ram root mapped => ?_⟩
      have noNul : 0 ∉ path := fun zero => (isPath.solid 0 zero).1 rfl
      have lineNul : 0 ∉ request := (buildExecCmdline_words isPath.word each built).2.1
      obtain ⟨made, after, done, -, built⟩ := taskBuildUserArgs_built mapped ⟨path, noNul⟩ ⟨request, lineNul⟩
      obtain ⟨ptrs, laid⟩ := built.onStack
      rw [(read path).2] at laid
      exact ⟨made, ptrs, after, done, laid⟩

theorem cmdCd_place {listdir : List UInt8 → Bool} (place : ShellPlace s)
    (each : ∀ arg ∈ args, OneWord arg) : ShellPlace (cmdCd listdir s args) := by
  have target : Solid (cdTarget s args) := by
    cases args with
    | nil => exact solid_slash
    | cons arg rest =>
        rw [cdTarget]
        split
        next => exact place.prevCwd.solid
        next => exact (each arg List.mem_cons_self).solid
  rw [cmdCd]
  split
  next => exact place
  next =>
    split
    next => exact place
    next normalized normalizes =>
      split
      next => exact place
      next =>
        refine ⟨normalizePath_shellPath place.cwd target normalizes, ?_⟩
        dsimp only
        split
        next => exact place.cwd
        next => exact place.prevCwd

theorem executeCommand_spec (place : ShellPlace s) (noNul : 0 ∉ line) :
    ShellPlace (executeCommand input s line).1 ∧
      (∀ request ∈ (executeCommand input s line).2, ∃ cmd args absPath path,
      typedProgram line = cmd :: args ∧
        normalizePath s.cwd cmd shellMaxPath = some absPath ∧ path ∈ execPaths absPath ∧
          StartsWith request path args) ∧
      ∀ earlier ∈ (executeCommand input s line).2.dropLast, input.exec earlier = false := by
  have cut := parseLine_words noNul
  have each : ∀ word ∈ (words line).take (maxArgs - 1), OneWord word :=
    fun word member => words_oneWord noNul word (List.mem_of_mem_take member)
  have few : ((words line).take (maxArgs - 1)).length ≤ 31 := by
    rw [List.length_take]
    exact Nat.min_le_left _ _
  have quiet : ∀ after : Shell, ShellPlace after → ShellPlace (after, ([] : List (List UInt8))).1 ∧
      (∀ request ∈ (after, ([] : List (List UInt8))).2, ∃ cmd args absPath path,
      typedProgram line = cmd :: args ∧
        normalizePath s.cwd cmd shellMaxPath = some absPath ∧ path ∈ execPaths absPath ∧
          StartsWith request path args) ∧
      ∀ earlier ∈ (after, ([] : List (List UInt8))).2.dropLast, input.exec earlier = false :=
    fun after isPlace => ⟨isPlace, fun _ member => absurd member List.not_mem_nil,
      fun _ member => absurd member List.not_mem_nil⟩
  have runs : ∀ cmd args, typedProgram line = cmd :: args → (∀ word ∈ cmd :: args, OneWord word) →
      args.length < userArgMax → ShellPlace (s, tryExecCommand input.exec s.cwd cmd args).1 ∧
      (∀ request ∈ (s, tryExecCommand input.exec s.cwd cmd args).2, ∃ cmd args absPath path,
        typedProgram line = cmd :: args ∧ normalizePath s.cwd cmd shellMaxPath = some absPath ∧
          path ∈ execPaths absPath ∧ StartsWith request path args) ∧
      ∀ earlier ∈ (s, tryExecCommand input.exec s.cwd cmd args).2.dropLast, input.exec earlier = false := by
    intro cmd args typed oneWord few
    rw [List.forall_mem_cons] at oneWord
    refine ⟨place, fun request member => ?_, ?_⟩
    · obtain ⟨absPath, path, normalizes, tried, starts⟩ :=
        tryExecCommand_request place.cwd oneWord.1 oneWord.2 few member
      exact ⟨cmd, args, absPath, path, typed, normalizes, tried, starts⟩
    · dsimp only
      rw [tryExecCommand]
      split
      next => exact fun _ member => absurd member List.not_mem_nil
      next => exact tryExecPaths_last
  rw [executeCommand]
  generalize parseLine line = parsed at cut
  obtain ⟨argv, buffer⟩ := parsed
  dsimp only at cut ⊢
  split
  next => exact quiet s place
  next first more =>
    split
    next => exact quiet s place
    next =>
      rw [cut]
      split
      next => exact quiet s place
      next cmd args isWords =>
        rw [isWords] at each few
        rw [List.length_cons] at few
        have limit : userArgMax = 32 := rfl
        split
        next => exact quiet s place
        next =>
          split
          next => exact quiet _ (cmdCd_place place (List.forall_mem_cons.mp each).2)
          next =>
            split
            next isRun =>
              have typed : typedProgram line = args := by
                rw [typedProgram, isWords, isRun]
                rfl
              split
              next => exact quiet s place
              next program args' =>
                refine runs program args' typed (List.forall_mem_cons.mp each).2 ?_
                rw [List.length_cons] at few
                omega
            next notRun =>
              split
              next => exact quiet _ ⟨place.cwd, place.prevCwd⟩
              next =>
                refine runs cmd args ?_ each (by omega)
                rw [typedProgram, isWords]
                exact if_neg fun isRun => notRun (Option.some.inj isRun)

theorem readLine_mem {line : List UInt8} (noNul : 0 ∉ line) : 0 ∉ readLine line := by
  rw [readLine]
  split
  next => exact fun member => noNul (List.mem_of_mem_dropLast member)
  next => exact noNul

theorem shellTurn_place (place : ShellPlace s) : ShellPlace (shellTurn s input).1 := by
  rw [shellTurn]
  split
  next => exact place
  next =>
    exact (@executeCommand_spec { s with history := historyAdd s.history (readLine input.line.bytes)
      } input _ ⟨place.cwd, place.prevCwd⟩ (readLine_mem input.line.noNul)).1

theorem root_shellPath : ShellPath [47] := ⟨rfl, solid_slash, by decide⟩

/-- In any session, whatever was typed before and whatever the system calls answered: a command line
that a line makes the shell give to `sys_exec` starts one of the paths of the program that the line
names, seen from the current directory, and the program finds that path and the other words of the
line on its stack; only the last of these command lines can have run. -/
theorem typed_arguments_arrive {history : RecentRing (List UInt8)} {inputs : List ShellInput}
    (reached : runActions shellStep (shellStart history) inputs = some s) (input : ShellInput) :
    (∀ request ∈ (shellTurn s input).2, ∃ cmd args absPath path,
      typedProgram (readLine input.line.bytes) = cmd :: args ∧ normalizePath s.cwd cmd
        shellMaxPath = some absPath ∧ path ∈ execPaths absPath ∧ StartsWith request path args) ∧
      ∀ earlier ∈ (shellTurn s input).2.dropLast, input.exec earlier = false := by
  have place : ShellPlace s := by
    refine runActions_invariant (fun state input next place stepped => ?_)
      ⟨root_shellPath, root_shellPath⟩ reached
    rw [shellStep] at stepped
    split at stepped
    next =>
      cases stepped
      exact shellTurn_place place
    next => cases stepped
  rw [shellTurn]
  split
  next => exact ⟨fun _ member => absurd member List.not_mem_nil, fun _ member =>
    absurd member List.not_mem_nil⟩
  next =>
    have does := @executeCommand_spec
      { s with history := historyAdd s.history (readLine input.line.bytes) } input _
      ⟨place.cwd, place.prevCwd⟩ (readLine_mem input.line.noNul)
    exact does.2

end Sessions

def cdBin : ShellInput := ⟨⟨cText "cd BIN\n", by decide⟩, by decide, fun _ => false, fun _ => true⟩

def catInput : ShellInput :=
  ⟨⟨cText " cat  a\tb\n", by decide⟩, by decide,
    fun request => request.take 12 = cText "/BIN/CAT.ELF", fun _ => true⟩

/-- From /BIN the line "cat a b" is tried under four paths, and CAT.ELF gets the arguments a and b.
-/
theorem catInput_arrives : ∃ s, runActions shellStep (shellStart ⟨fun _ => [], 0, 0⟩) [cdBin] = some s ∧
    (shellTurn s catInput).2 =
      [cText "/BIN/cat a b", cText "/BIN/CAT a b", cText "/BIN/cat.ELF a b", cText "/BIN/CAT.ELF a b"] ∧
    (∀ request ∈ (shellTurn s catInput).2, ∃ cmd args absPath path,
      typedProgram (readLine catInput.line.bytes) = cmd :: args ∧
      normalizePath s.cwd cmd shellMaxPath = some absPath ∧
        path ∈ execPaths absPath ∧ StartsWith request path args) ∧
    ∀ earlier ∈ (shellTurn s catInput).2.dropLast, catInput.exec earlier = false := by
  have runs : (runActions shellStep (shellStart ⟨fun _ => [], 0, 0⟩) [cdBin]).map
    (fun s => (shellTurn s catInput).2) =
      some [cText "/BIN/cat a b", cText "/BIN/CAT a b", cText "/BIN/cat.ELF a b", cText "/BIN/CAT.ELF a b"] := by
    decide +kernel
  obtain ⟨s, reached, requests⟩ := Option.map_eq_some_iff.mp runs
  exact ⟨s, reached, requests, typed_arguments_arrive reached catInput⟩

end Szczupak
