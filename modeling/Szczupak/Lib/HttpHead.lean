import Mathlib.Data.List.DropRight

/-!
The head of an HTTP/1.1 request: a request line and header fields, each ended by
CR LF, then an empty line.  CR
and LF stand nowhere else, the words of the request line are separated by
one space, and blanks around a field's value are not part of it.
-/

namespace Szczupak

/-- The lines up to the first empty one, and what follows it; `line` is what has been read of the
first. -/
def headLines (line : List UInt8) : List UInt8 → Option (List (List UInt8) × List UInt8)
  | 13 :: 10 :: rest =>
      if line = [] then some ([], rest)
      else (headLines [] rest).map fun found => (line :: found.1, found.2)
  | byte :: rest => if byte = 13 ∨ byte = 10 then none else headLines (line ++ [byte]) rest
  | [] => none

def isWordByte (byte : UInt8) : Bool := 33 ≤ byte && byte != 127

def isBlank (byte : UInt8) : Bool := byte == 32 || byte == 9

def isValueByte (byte : UInt8) : Bool := isWordByte byte || isBlank byte

def isWord (word : List UInt8) : Bool := !word.isEmpty && word.all isWordByte

def trimBlanks (value : List UInt8) : List UInt8 := (value.dropWhile isBlank).rdropWhile isBlank

structure RequestHead where
  method : List UInt8
  target : List UInt8
  version : List UInt8
  fields : List (List UInt8 × List UInt8)
deriving DecidableEq

def parseStartLine (line : List UInt8) : Option (List UInt8 × List UInt8 × List UInt8) :=
  let method := line.takeWhile (· != 32)
  let rest := (line.dropWhile (· != 32)).drop 1
  let target := rest.takeWhile (· != 32)
  let version := (rest.dropWhile (· != 32)).drop 1
  if isWord method && isWord target && isWord version then some (method, target, version) else none

def parseField (line : List UInt8) : Option (List UInt8 × List UInt8) :=
  let name := line.takeWhile (· != 58)
  match line.dropWhile (· != 58) with
  | [] => none
  | _ :: rest => if isWord name && rest.all isValueByte then some (name, trimBlanks rest) else none

def parseRequest (bytes : List UInt8) : Option RequestHead :=
  match headLines [] bytes with
  | some (start :: lines, []) =>
      match parseStartLine start, lines.mapM parseField with
      | some (method, target, version), some fields => some ⟨method, target, version, fields⟩
      | _, _ => none
  | _ => none

def lowerByte (byte : UInt8) : UInt8 := if 65 ≤ byte && byte ≤ 90 then byte + 32 else byte

/-- The values of the fields of that name, in order; names are compared without case. -/
def RequestHead.values (request : RequestHead) (name : List UInt8) : List (List UInt8) :=
  (request.fields.filter fun field => field.1.map lowerByte == name.map lowerByte).map Prod.snd

/-- The bytes end a head nowhere but at their end. -/
def BlankLineLast (bytes : List UInt8) : Prop :=
  ∀ front rest, bytes = front ++ [13, 10, 13, 10] ++ rest → rest = []

def NoBlankEnds (value : List UInt8) : Prop :=
  (∀ byte ∈ value.head?, isBlank byte = false) ∧ ∀ byte ∈ value.getLast?, isBlank byte = false

instance (value : List UInt8) : Decidable (NoBlankEnds value) := inferInstanceAs (Decidable (_ ∧ _))

section Lines

variable {line text rest : List UInt8} {lines : List (List UInt8)}

theorem headLines_byte {byte : UInt8} (plain : byte ≠ 13 ∧ byte ≠ 10) :
    headLines line (byte :: rest) = headLines (line ++ [byte]) rest := by
  rw [headLines.eq_def]
  split
  next same =>
    simp only [List.cons.injEq] at same
    exact absurd same.1 plain.1
  next same =>
    simp only [List.cons.injEq] at same
    obtain ⟨rfl, rfl⟩ := same
    rw [if_neg (not_or.mpr plain)]
  next same => cases same

theorem headLines_text (plain : ∀ byte ∈ text, byte ≠ 13 ∧ byte ≠ 10) :
    headLines line (text ++ rest) = headLines (line ++ text) rest := by
  induction text generalizing line with
  | nil => rw [List.nil_append, List.append_nil]
  | cons byte text ih =>
      rw [List.cons_append, headLines_byte (plain byte (List.mem_cons_self ..)),
        ih (fun later member => plain later (List.mem_cons_of_mem _ member)), List.append_assoc,
        List.singleton_append]

theorem headLines_line (plain : ∀ byte ∈ text, byte ≠ 13 ∧ byte ≠ 10) (some : text ≠ []) :
    headLines [] (text ++ (13 :: 10 :: rest)) = (headLines [] rest).map fun found =>
    (text :: found.1, found.2) := by
  rw [headLines_text plain, List.nil_append, headLines, if_neg some]

theorem headLines_blank {bytes front after : List UInt8}
    (read : headLines line bytes = some (lines, after))
    (blank : bytes = front ++ [13, 10, 13, 10] ++ rest) : rest.length ≤ after.length := by
  fun_induction headLines line bytes generalizing front lines with
  | case1 tail =>
      simp only [Option.some.injEq, Prod.mk.injEq] at read
      have lengths := congrArg List.length blank
      simp only [List.length_cons, List.length_append, List.length_nil] at lengths
      rw [← read.2]
      omega
  | case2 line tail open' ih =>
      obtain ⟨⟨found, left⟩, later, same⟩ := Option.map_eq_some_iff.mp read
      simp only [Prod.mk.injEq] at same
      obtain ⟨_, rfl⟩ := same
      match front with
      | [] =>
          simp only [List.nil_append, List.cons_append, List.cons.injEq, true_and] at blank
          rw [blank, headLines, if_pos rfl] at later
          cases later
          exact Nat.le_refl _
      | [only] =>
          simp only [List.cons_append, List.nil_append, List.cons.injEq] at blank
          exact absurd blank.2.1 (by decide)
      | first :: second :: front =>
          simp only [List.cons_append, List.cons.injEq] at blank
          exact ih later (by simpa using blank.2.2)
  | case3 => cases read
  | case4 line byte tail _ plain ih =>
      match front with
      | [] =>
          simp only [List.nil_append, List.cons_append, List.cons.injEq] at blank
          exact absurd (Or.inl blank.1) plain
      | first :: front =>
          simp only [List.cons_append, List.cons.injEq] at blank
          exact ih read (by simpa using blank.2)
  | case5 => cases read

end Lines

section Blanks

variable {value name rest : List UInt8}

theorem trimBlanks_ends (value : List UInt8) : NoBlankEnds (trimBlanks value) := by
  unfold trimBlanks
  generalize kept : value.dropWhile isBlank = tail
  have start : ∀ byte ∈ tail.head?, isBlank byte = false := by
    intro byte first
    rw [← kept] at first
    have notBlank := List.head?_dropWhile_not isBlank value
    rw [Option.mem_def.mp first] at notBlank
    simpa using notBlank
  constructor
  · intro byte first
    obtain ⟨more, split⟩ := List.rdropWhile_prefix isBlank tail
    apply start
    rw [← split, List.head?_append, Option.mem_def.mp first]
    rfl
  · intro byte last
    by_cases empty : tail.rdropWhile isBlank = []
    · rw [empty] at last
      cases last
    · have notBlank := List.rdropWhile_last_not isBlank tail empty
      rw [List.getLast?_eq_some_getLast empty, Option.mem_some_iff] at last
      simpa [last] using notBlank

theorem trimBlanks_mem {byte : UInt8} (member : byte ∈ trimBlanks value) : byte ∈ value :=
  (List.dropWhile_sublist _).mem ((List.rdropWhile_prefix isBlank _).subset member)

theorem trimBlanks_field (some : value ≠ []) (ends : NoBlankEnds value) :
    trimBlanks (32 :: value) = value := by
  have start : value.dropWhile isBlank = value := by
    match value with
    | [] => exact absurd rfl some
    | first :: more => rw [List.dropWhile_cons_of_neg (by simp [ends.1 first rfl])]
  have blank : isBlank 32 = true := rfl
  rw [trimBlanks, List.dropWhile_cons_of_pos blank, start]
  refine (List.rdropWhile_eq_self_iff).mpr fun nonempty => ?_
  have last := ends.2 _ (List.getLast?_eq_some_getLast nonempty)
  simp [last]

theorem mapM_mem {Line Field : Type} {parse : Line → Option Field} {lines : List Line}
    {fields : List Field}
    {field : Field} (mapped : lines.mapM parse = some fields) (member : field ∈ fields) :
    ∃ line ∈ lines, parse line = Option.some field := by
  induction lines generalizing fields with
  | nil =>
      simp only [List.mapM_nil, Option.pure_def, Option.some.injEq] at mapped
      subst mapped
      cases member
  | cons line lines ih =>
      simp only [List.mapM_cons, Option.pure_def, Option.bind_eq_bind, Option.bind_eq_some_iff,
        Option.some.injEq] at mapped
      obtain ⟨first, parsed, later, rest, rfl⟩ := mapped
      rcases List.mem_cons.mp member with rfl | inRest
      · exact ⟨line, List.mem_cons_self .., parsed⟩
      · obtain ⟨found, place, same⟩ := ih rest inRest
        exact ⟨found, List.mem_cons_of_mem _ place, same⟩

theorem parseField_value (field : parseField rest = some (name, value)) :
    NoBlankEnds value ∧ value.all isValueByte = true := by
  unfold parseField at field
  dsimp only at field
  split at field
  · cases field
  · next tail _ =>
    split at field
    · next valid =>
      simp only [Option.some.injEq, Prod.mk.injEq] at field
      simp only [Bool.and_eq_true] at valid
      rw [← field.2]
      refine ⟨trimBlanks_ends tail, List.all_eq_true.mpr fun byte member => ?_⟩
      exact List.all_eq_true.mp valid.2 byte (trimBlanks_mem member)
    · cases field

theorem parseField_plain (word : isWord name = true) (plain : 58 ∉ name) (some : value ≠ [])
    (ends : NoBlankEnds value) (bytes : value.all isValueByte = true) :
    parseField (name ++ 58 :: 32 :: value) = Option.some (name, value) := by
  have before : ∀ byte ∈ name, (byte != 58) = true := by
    intro byte member
    simp only [bne_iff_ne]
    rintro rfl
    exact plain member
  have blank : isValueByte 32 = true := rfl
  unfold parseField
  dsimp only
  rw [List.takeWhile_append_of_pos before, List.dropWhile_append_of_pos before,
    List.takeWhile_cons_of_neg (by simp), List.dropWhile_cons_of_neg (by simp), List.append_nil]
  dsimp only
  rw [if_pos (by simp [word, blank, bytes]), trimBlanks_field some ends]

theorem parseStartLine_target {line method target version : List UInt8}
    (start : parseStartLine line = some (method, target, version)) : isWord target = true := by
  unfold parseStartLine at start
  dsimp only at start
  split at start
  · next words =>
    simp only [Option.some.injEq, Prod.mk.injEq] at start
    simp only [Bool.and_eq_true] at words
    rw [← start.2.1]
    exact words.1.2
  · cases start

theorem isWord_stops {word : List UInt8} (valid : isWord word = true) (rest : List UInt8) :
    (word ++ 32 :: rest).takeWhile (· != 32) = word ∧
    (word ++ 32 :: rest).dropWhile (· != 32) = 32 :: rest := by
  have before : ∀ byte ∈ word, (byte != 32) = true := by
    intro byte member
    simp only [bne_iff_ne]
    rintro rfl
    have wordByte := List.all_eq_true.mp (Bool.and_eq_true_iff.mp valid).2 32 member
    exact absurd wordByte (by decide)
  rw [List.takeWhile_append_of_pos before, List.dropWhile_append_of_pos before,
    List.takeWhile_cons_of_neg (by simp), List.dropWhile_cons_of_neg (by simp), List.append_nil]
  exact ⟨rfl, rfl⟩

theorem parseStartLine_plain {method target version : List UInt8} (first : isWord method = true)
    (second : isWord target = true) (third : isWord version = true) :
    parseStartLine (method ++ 32 :: (target ++ 32 :: version)) = some (method, target, version) := by
  obtain ⟨taken, left⟩ := isWord_stops first (target ++ 32 :: version)
  obtain ⟨takenNext, leftNext⟩ := isWord_stops second version
  unfold parseStartLine
  simp only [taken, left, takenNext, leftNext, List.drop_one, List.tail_cons, first, second, third,
    Bool.and_self, if_true]

theorem isValueByte_plain {byte : UInt8} (valid : isValueByte byte = true) : byte ≠ 13 ∧ byte ≠ 10 := by
  constructor
  · rintro rfl
    exact absurd valid (by decide)
  · rintro rfl
    exact absurd valid (by decide)

end Blanks

variable {request : RequestHead}

theorem parseRequest_values {bytes name value : List UInt8}
    (parsed : parseRequest bytes = some request) (member : value ∈ request.values name) :
    NoBlankEnds value ∧ value.all isValueByte = true := by
  unfold parseRequest at parsed
  split at parsed
  · next start lines _ =>
    split at parsed
    · next method target version fields _ mapped =>
      cases parsed
      obtain ⟨field, found, rfl⟩ := List.mem_map.mp member
      obtain ⟨line, _, same⟩ := mapM_mem mapped (List.mem_of_mem_filter found)
      exact parseField_value same
    · cases parsed
  · cases parsed

theorem parseRequest_target {bytes : List UInt8} (parsed : parseRequest bytes = some request) :
    isWord request.target = true := by
  unfold parseRequest at parsed
  split at parsed
  · split at parsed
    · next start _ =>
      cases parsed
      exact parseStartLine_target start
    · cases parsed
  · cases parsed

theorem parseRequest_blank {bytes : List UInt8} (parsed : parseRequest bytes = some request) :
    BlankLineLast bytes := by
  intro front rest blank
  unfold parseRequest at parsed
  split at parsed
  · next read =>
    exact List.eq_nil_of_length_eq_zero (Nat.le_zero.mp (headLines_blank read blank))
  · cases parsed

end Szczupak
