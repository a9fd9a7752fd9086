import Szczupak.User.HttpUrlCore
import Szczupak.User.Stdlib

/-!
The addresses that `parse_http_url` accepts,
and that printing what it returns gives the same address again.
-/

namespace Szczupak.User

structure HttpTarget where
  host : List UInt8
  port : UInt16
  path : List UInt8

inductive PortPart : List UInt8 → UInt16 → Prop
  | default : PortPart [] 80
  | digits {text : List UInt8} {port : UInt16} (some : text ≠ []) (all : ∀ c ∈ text, isDigit c = true)
      (value : digitsValue text = port.toNat) (positive : 0 < port.toNat) : PortPart (58 :: text) port

inductive PathPart : List UInt8 → List UInt8 → Prop
  | default : PathPart [] (cText "/")
  | given (rest : List UInt8) : PathPart (47 :: rest) (47 :: rest)

structure HostPart (host : List UInt8) : Prop where
  some : host ≠ []
  plain : 47 ∉ host
  fits : host.length < netHttpHostMax

def urlText (host portPart pathPart : List UInt8) : List UInt8 :=
  cText "http://" ++ (host ++ portPart ++ pathPart)

/-- `http://host[:port][/path]`; a colon before the path is the one before a port, and the last one
where there are several. -/
def Denotes (url : List UInt8) (target : HttpTarget) : Prop :=
  ∃ portPart pathPart, url = urlText target.host portPart pathPart ∧ PortPart portPart target.port ∧
    PathPart pathPart target.path ∧ (portPart = [] → 58 ∉ target.host) ∧ HostPart target.host ∧
    target.path.length < netHttpPathMax

def printUrl (target : HttpTarget) : List UInt8 :=
  urlText target.host (58 :: decimal target.port.toNat) target.path

def HttpUrlOut.target (out : HttpUrlOut) : HttpTarget :=
  ⟨bufferText out.host, out.port, bufferText out.path⟩

def parsedUrl (url : List UInt8) (out : HttpUrlOut) : Option HttpTarget :=
  if (parseHttpUrl url out).1 = 0 then some (parseHttpUrl url out).2.target else none

section Number

variable {text tail : List UInt8}

def ReadsNumber (text : List UInt8) (v : Int) : Prop :=
  ∃ spaces sign digits rest, text = spaces ++ (sign ++ (digits ++ rest)) ∧ (∀ c ∈ spaces, c = 32) ∧
    (∀ c ∈ digits, isDigit c = true) ∧ digits ≠ [] ∧ (∀ c ∈ rest.head?, isDigit c = false) ∧
    ((sign = [] ∨ sign = [43]) ∧ v = digitsValue digits ∨ sign = [45] ∧ v = -(digitsValue digits : Int))

theorem skipSpaces_append (stops : ∀ c ∈ tail.head?, c ≠ 32) :
    skipSpaces (text ++ tail) = skipSpaces text ++ tail := by
  have kept : tail.dropWhile (· == 32) = tail := by
    cases tail with
    | nil => rfl
    | cons c tail => exact List.dropWhile_cons_of_neg (by simpa using stops c rfl)
  rw [skipSpaces, skipSpaces, List.dropWhile_append, kept]
  split
  next none => rw [List.isEmpty_iff.mp none, List.nil_append]
  next => rfl

theorem atoiDigits_append (stops : ∀ c ∈ tail.head?, isDigit c = false) :
    atoiDigits (text ++ tail) = atoiDigits text := by
  have kept : tail.takeWhile isDigit = [] := by
    cases tail with
    | nil => rfl
    | cons c tail => exact List.takeWhile_cons_of_neg (by simpa using stops c rfl)
  rw [atoiDigits, atoiDigits, List.takeWhile_append, kept, List.append_nil]
  split
  next whole => rw [(List.takeWhile_prefix isDigit).eq_of_length whole]
  next => rfl

theorem atoi_append (starts : tail = [] ∨ ∃ rest, tail = 47 :: rest) :
    atoi (text ++ tail) = atoi text := by
  have stops : ∀ c ∈ tail.head?, c ≠ 32 ∧ isDigit c = false := by
    obtain rfl | ⟨rest, rfl⟩ := starts
    · rintro c ⟨⟩
    · rintro c ⟨⟩
      decide
  have digits (s : List UInt8) : atoiDigits (s ++ tail) = atoiDigits s :=
    atoiDigits_append fun c first => (stops c first).2
  rw [atoi, atoi, skipSpaces_append fun c first => (stops c first).1]
  cases skipSpaces text with
  | nil =>
      obtain rfl | ⟨rest, rfl⟩ := starts
      · rfl
      · exact congrArg (· * 1) (digits [])
  | cons c s =>
      rw [List.cons_append]
      split
      next same =>
        obtain ⟨rfl, rfl⟩ := List.cons_eq_cons.mp same
        rw [digits]
        rfl
      next same =>
        obtain ⟨rfl, rfl⟩ := List.cons_eq_cons.mp same
        rw [digits]
        rfl
      next negative positive =>
        rw [← List.cons_append, digits]
        split
        next same => exact absurd (congrArg (· ++ tail) same) (negative _)
        next same => exact absurd (congrArg (· ++ tail) same) (positive _)
        next => rfl

theorem ReadsNumber.atoi_eq {v : Int} (reads : ReadsNumber text v) : atoi text = Int64.ofInt v := by
  obtain ⟨spaces, sign, digits, rest, rfl, blank, all, some, stops, value⟩ := reads
  have skipped (s : List UInt8) : atoi (spaces ++ s) = atoi s := by
    rw [atoi, atoi, skipSpaces, skipSpaces, List.dropWhile_append_of_pos (by simpa using blank)]
  have number : digitsValue ((digits ++ rest).takeWhile isDigit) = digitsValue digits := by
    rw [takeWhile_digits all rest stops]
  rw [skipped]
  obtain ⟨rfl | rfl, rfl⟩ | ⟨rfl, rfl⟩ := value
  · obtain ⟨c, more, rfl⟩ := List.exists_cons_of_ne_nil some
    rw [List.nil_append, atoi_unsigned rfl (all c List.mem_cons_self), number, Int64.ofInt_eq_ofNat]
  · have signed : atoi ([43] ++ (digits ++ rest)) = atoiDigits (digits ++ rest) * 1 := rfl
    rw [signed, Int64.mul_one, atoiDigits_value, number, Int64.ofInt_eq_ofNat]
  · rw [List.singleton_append, atoi_negative, number, Int64.neg_ofNat]

theorem ReadsNumber.of_digits {sign s : List UInt8} {v : Int} (same : skipSpaces text = sign ++ s)
    (some : atoiDigits s ≠ 0)
    (value : (sign = [] ∨ sign = [43]) ∧ v = digitsValue (s.takeWhile isDigit) ∨
      sign = [45] ∧ v = -(digitsValue (s.takeWhile isDigit) : Int)) : ReadsNumber text v := by
  refine ⟨text.takeWhile (· == 32), sign, s.takeWhile isDigit, s.dropWhile isDigit, ?_, ?_,
    List.all_eq_true.mp List.all_takeWhile, ?_, ?_, value⟩
  · rw [List.takeWhile_append_dropWhile, ← same]
    exact (List.takeWhile_append_dropWhile).symm
  · intro c member
    simpa using List.all_eq_true.mp List.all_takeWhile c member
  · intro none
    rw [atoiDigits, none] at some
    exact some rfl
  · intro c first
    have stopped := List.head?_dropWhile_not isDigit s
    rw [Option.mem_def.mp first] at stopped
    exact stopped

theorem atoi_reads (some : atoi text ≠ 0) : ∃ v, ReadsNumber text v := by
  rw [atoi] at some
  split at some
  next s same => exact ⟨_, .of_digits same (fun zero => some (by rw [zero]; rfl)) (.inr ⟨rfl, rfl⟩)⟩
  next s same => exact ⟨_, .of_digits same (fun zero => some (by rw [zero]; rfl)) (.inl ⟨.inr rfl, rfl⟩)⟩
  next =>
    have same : skipSpaces text = [] ++ skipSpaces text := rfl
    exact ⟨_, .of_digits same (fun zero => some (by rw [zero]; rfl)) (.inl ⟨.inl rfl, rfl⟩)⟩

theorem portValue_iff (v : Int) :
    (¬ (Int64.ofInt v ≤ 0 ∨ Int64.ofInt v > 65535)) ↔ 1 ≤ v % 2 ^ 64 ∧ v % 2 ^ 64 ≤ 65535 := by
  have low : Int64.ofInt v ≤ 0 ↔ v.bmod (2 ^ 64) ≤ 0 := by
    rw [Int64.le_iff_toInt_le, Int64.toInt_ofInt]
    rfl
  have high : Int64.ofInt v > 65535 ↔ 65535 < v.bmod (2 ^ 64) := by
    rw [gt_iff_lt, Int64.lt_iff_toInt_lt, Int64.toInt_ofInt]
    rfl
  rw [low, high, Int.bmod_eq_emod]
  push_cast
  split <;> omega

theorem portValue_toNat {v : Int} (bound : v % 2 ^ 64 ≤ 65535) :
    (Int64.ofInt v).toUInt64.toUInt16.toNat = (v % 2 ^ 64).toNat := by
  have kept : Int64.ofInt v = Int64.ofNat (v % 2 ^ 64).toNat := by
    refine Int64.toInt_inj.mp ?_
    rw [Int64.toInt_ofInt, Int64.toInt_ofNat', Int.toNat_of_nonneg (Int.emod_nonneg v (by decide))]
    exact (Int.emod_bmod v (2 ^ 64)).symm
  rw [kept, Int64.toUInt64_ofNat', UInt64.toNat_toUInt16, UInt64.toNat_ofNat']
  omega

end Number

section Parse

variable {url authority host text tail path : List UInt8} {port : UInt16} {out : HttpUrlOut}
  {target : HttpTarget}

theorem startsWith_append (front rest : List UInt8) : startsWith (front ++ rest) front = true := by
  induction front with
  | nil => rfl
  | cons c front ih =>
      rw [List.cons_append, startsWith, if_neg (by simp)]
      exact ih

theorem startsWith_split {front : List UInt8} (plain : 0 ∉ front)
    (starts : startsWith url front = true) : ∃ rest, url = front ++ rest := by
  induction front generalizing url with
  | nil => exact ⟨url, rfl⟩
  | cons c front ih =>
      rw [List.mem_cons, not_or] at plain
      rw [startsWith] at starts
      split at starts
      · cases starts
      next same =>
        rw [not_not] at same
        cases url with
        | nil => exact absurd same plain.1
        | cons first url =>
            obtain ⟨rest, rfl⟩ := ih plain.2 starts
            obtain rfl : first = c := same
            exact ⟨rest, rfl⟩

theorem PathPart.starts (part : PathPart tail path) : tail = [] ∨ ∃ rest, tail = 47 :: rest := by
  cases part with
  | default => exact .inl rfl
  | given rest => exact .inr ⟨rest, rfl⟩

theorem PathPart.of_starts (starts : tail = [] ∨ ∃ rest, tail = 47 :: rest) : ∃ path,
    PathPart tail path := by
  obtain rfl | ⟨rest, rfl⟩ := starts
  · exact ⟨_, .default⟩
  · exact ⟨_, .given rest⟩

theorem PathPart.slash (part : PathPart tail path) (without : 47 ∉ authority) :
    ((authority ++ tail).findIdx? (· = 47)).getD (authority ++ tail).length = authority.length ∧
      (((authority ++ tail).findIdx? (· = 47)).map ((authority ++ tail).drop ·)).getD (cText "/") = path := by
  cases part with
  | default =>
      rw [List.append_nil, findIdx?_without without]
      exact ⟨rfl, rfl⟩
  | given rest =>
      rw [findIdx?_split without]
      exact ⟨rfl, List.drop_left⟩

inductive ReadsAs : List UInt8 → List UInt8 → UInt16 → Prop
  | default {host : List UInt8} (without : 58 ∉ host) : ReadsAs host host 80
  | given {host text : List UInt8} {v : Int} (without : 58 ∉ text) (reads : ReadsNumber text v)
      (positive : 1 ≤ v % 2 ^ 64) (bound : v % 2 ^ 64 ≤ 65535) :
      ReadsAs (host ++ 58 :: text) host (Int64.ofInt v).toUInt64.toUInt16

theorem ReadsAs.parts (reads : ReadsAs authority host port) :
    58 ∉ host ∧ authority = host ∧ port = 80 ∨ ∃ text v, 58 ∉ text ∧ authority = host ++ 58 :: text ∧
      ReadsNumber text v ∧ 1 ≤ v % 2 ^ 64 ∧ v % 2 ^ 64 ≤ 65535 ∧
      port = (Int64.ofInt v).toUInt64.toUInt16 := by
  cases reads with
  | default without => exact .inl ⟨without, rfl, rfl⟩
  | given without reads positive bound => exact .inr ⟨_, _, without, rfl, reads, positive, bound, rfl⟩

theorem ReadsAs.colon {host' : List UInt8} (without : 58 ∉ text)
    (reads : ReadsAs (host ++ 58 :: text) host' port) :
    host' = host ∧ ∃ v, ReadsNumber text v ∧ 1 ≤ v % 2 ^ 64 ∧ v % 2 ^ 64 ≤ 65535 := by
  obtain ⟨none, same, _⟩ | ⟨text', v, without', same, number, positive, bound, _⟩ := reads.parts
  · exact absurd (same ▸ List.mem_append_right _ List.mem_cons_self) none
  · obtain ⟨rfl, rfl⟩ := last_separator_unique same without without'
    exact ⟨rfl, _, number, positive, bound⟩

theorem ReadsAs.unique {host' : List UInt8} {port' : UInt16} (reads : ReadsAs authority host port)
    (reads' : ReadsAs authority host' port') : host = host' ∧ port = port' := by
  cases reads with
  | default without =>
      cases reads' with
      | default => exact ⟨rfl, rfl⟩
      | given => exact absurd (List.mem_append_right _ List.mem_cons_self) without
  | given without number =>
      generalize same : host ++ 58 :: _ = authority at reads'
      cases reads' with
      | default without' => exact absurd (same ▸ List.mem_append_right _ List.mem_cons_self) without'
      | given without' number' =>
          obtain ⟨rfl, rfl⟩ := last_separator_unique same without without'
          rw [← number.atoi_eq, ← number'.atoi_eq]
          exact ⟨rfl, rfl⟩

theorem copyText_eq {cap : Nat} (room : cap ≠ 0) (dst src : List UInt8) :
    copyText dst cap src = if src.length < cap then (true, src ++ 0 :: dst.drop (src.length + 1))
    else (false, dst) := by
  rw [copyText, if_neg room]
  split
  next large => rw [if_neg (by omega)]
  next fits => rw [if_pos (by omega)]

theorem copySlice_eq {cap : Nat} (room : cap ≠ 0) (dst start : List UInt8) (len : Nat) :
    copySlice dst cap start len =
      if len < cap then (true, start.take len ++ 0 :: dst.drop (len + 1)) else (false, dst) := by
  rw [copySlice, if_neg room]
  split
  next large => rw [if_neg (by omega)]
  next fits => rw [if_pos (by omega)]

theorem atoi_nul (nul : text.headD 0 = 0) : atoi text = 0 := by
  cases text with
  | nil => rfl
  | cons c text =>
      obtain rfl : c = 0 := nul
      rfl

theorem parsePortValue_eq (starts : tail = [] ∨ ∃ rest, tail = 47 :: rest) :
    (parsePortValue (text ++ tail) 0).1 ≠ 0 ∧ (¬ ∃ v, ReadsNumber text v ∧ 1 ≤ v % 2 ^ 64 ∧
      v % 2 ^ 64 ≤ 65535) ∨ ∃ v, ReadsNumber text v ∧ 1 ≤ v % 2 ^ 64 ∧ v % 2 ^ 64 ≤ 65535 ∧
        parsePortValue (text ++ tail) 0 = (0, (Int64.ofInt v).toUInt64.toUInt16) := by
  have value : parsePortValue (text ++ tail) 0 =
      if atoi text ≤ 0 ∨ atoi text > 65535 then (-1, 0) else (0, (atoi text).toUInt64.toUInt16) := by
    rw [parsePortValue, atoi_append starts]
    split
    next nul =>
      rw [← atoi_append starts, atoi_nul nul]
      rfl
    next => rfl
  rw [value]
  by_cases outside : atoi text ≤ 0 ∨ atoi text > 65535
  · rw [if_pos outside]
    refine .inl ⟨by decide, ?_⟩
    rintro ⟨v, reads, bounds⟩
    rw [reads.atoi_eq] at outside
    exact (portValue_iff v).mpr bounds outside
  · rw [if_neg outside]
    obtain ⟨v, reads⟩ := @atoi_reads text fun zero => outside (.inl (by rw [zero]; decide))
    rw [reads.atoi_eq] at outside ⊢
    obtain ⟨positive, bound⟩ := (portValue_iff v).mp outside
    exact .inr ⟨v, reads, positive, bound, rfl⟩

theorem parseHostPort_eq (starts : tail = [] ∨ ∃ rest, tail = 47 :: rest) :
    (parseHostPort (authority ++ tail) authority.length out).1 ≠ 0 ∧
        (¬ ∃ host port, ReadsAs authority host port ∧ host.length < netHttpHostMax) ∨
      ∃ host port left, ReadsAs authority host port ∧ host.length < netHttpHostMax ∧
        parseHostPort (authority ++ tail) authority.length out =
        (0, { out with host := host ++ 0 :: left, port }) := by
  rw [parseHostPort, List.take_left]
  by_cases colon : 58 ∈ authority
  · obtain ⟨host, text, rfl, without⟩ := last_separator colon
    have behind : (host ++ 58 :: text ++ tail).drop (host.length + 1) = text ++ tail := by
      rw [List.append_assoc, List.cons_append, ← List.drop_drop, List.drop_left]
      rfl
    have before : (host ++ 58 :: text ++ tail).take host.length = host := by
      rw [List.append_assoc, List.take_left]
    rw [lastPlace_split without]
    dsimp only
    rw [copySlice_eq (by decide), behind, before]
    by_cases fits : host.length < netHttpHostMax
    · rw [if_pos fits]
      obtain ⟨failed, none⟩ | ⟨v, number, positive, bound, port⟩ := @parsePortValue_eq text _ starts
      · refine .inl ⟨?_, ?_⟩
        · simp [failed]
        · rintro ⟨_, _, reads, _⟩
          exact none (reads.colon without).2
      · refine .inr ⟨host, _, out.host.drop (host.length + 1), .given without number positive bound, fits, ?_⟩
        rw [port]
        rfl
    · rw [if_neg fits]
      refine .inl ⟨by simp, ?_⟩
      rintro ⟨_, _, reads, short⟩
      rw [(reads.colon without).1] at short
      exact fits short
  · rw [lastPlace_without colon]
    dsimp only
    rw [copySlice_eq (by decide), List.take_left]
    by_cases fits : authority.length < netHttpHostMax
    · rw [if_pos fits]
      exact .inr ⟨authority, 80, out.host.drop (authority.length + 1), .default colon, fits, rfl⟩
    · rw [if_neg fits]
      refine .inl ⟨by simp, ?_⟩
      rintro ⟨host, port, reads, short⟩
      obtain ⟨rfl, rfl⟩ := reads.unique (.default colon)
      exact fits short

theorem bufferText_written (plain : ∀ byte ∈ text, byte ≠ 0) (left : List UInt8) :
    bufferText (text ++ 0 :: left) = text := by
  rw [bufferText, List.takeWhile_append_of_pos (by simpa using plain),
    List.takeWhile_cons_of_neg (by simp), List.append_nil]

theorem headD_plain (plain : ∀ byte ∈ text, byte ≠ 0) (left : List UInt8) :
    (text ++ 0 :: left).headD 0 = 0 ↔ text = [] := by
  cases text with
  | nil => exact iff_of_true rfl rfl
  | cons c text => exact iff_of_false (plain c List.mem_cons_self) (List.cons_ne_nil _ _)

theorem ReadsAs.host_sublist (reads : ReadsAs authority host port) : host ⊆ authority := by
  cases reads with
  | default => exact fun _ member => member
  | given => exact List.subset_append_left _ _

theorem PathPart.plain (part : PathPart tail path) (plain : ∀ byte ∈ tail, byte ≠ 0) :
    ∀ byte ∈ path, byte ≠ 0 := by
  cases part with
  | default => exact List.forall_mem_singleton.mpr (by decide)
  | given => exact plain

theorem parseHttpUrl_parts (part : PathPart tail path) (without : 47 ∉ authority) :
    parseHttpUrl (cText "http://" ++ (authority ++ tail)) out =
      if (authority ++ tail).headD 0 = 0 then (-1, out)
      else
        let parsed := parseHostPort (authority ++ tail) authority.length out
        if parsed.1 ≠ 0 then (-1, parsed.2)
        else if parsed.2.host.headD 0 = 0 then (-1, parsed.2)
        else
          let written := copyText parsed.2.path netHttpPathMax path
          (if written.1 then 0 else -1, { parsed.2 with path := written.2 }) := by
  have behind : (cText "http://" ++ (authority ++ tail)).drop 7 = authority ++ tail :=
    List.drop_left' (by decide)
  rw [parseHttpUrl, startsWith_append, if_neg (by decide), behind]
  dsimp only
  rw [(part.slash without).1, (part.slash without).2]

theorem parsedUrl_parts (part : PathPart tail path) (without : 47 ∉ authority)
    (plain : ∀ byte ∈ authority ++ tail, byte ≠ 0) (target : HttpTarget) :
    parsedUrl (cText "http://" ++ (authority ++ tail)) out = some target ↔
      ReadsAs authority target.host target.port ∧ target.path = path ∧ target.host ≠ [] ∧
        target.host.length < netHttpHostMax ∧ target.path.length < netHttpPathMax := by
  have hostPlain : ∀ byte ∈ authority, byte ≠ 0 := fun byte member =>
    plain byte (List.mem_append_left _ member)
  have pathPlain : ∀ byte ∈ path, byte ≠ 0 := part.plain fun byte member =>
    plain byte (List.mem_append_right _ member)
  have rejected (out : HttpUrlOut) : (if ((-1 : Int), out).1 = 0 then some out.target else none) =
    none := if_neg (by simp)
  rw [parsedUrl, parseHttpUrl_parts part without]
  by_cases nothing : (authority ++ tail).headD 0 = 0
  · rw [if_pos nothing, rejected]
    refine iff_of_false (by simp) ?_
    rintro ⟨reads, -, some, -⟩
    cases authority with
    | nil => exact some (List.subset_nil.mp reads.host_sublist)
    | cons c authority => exact hostPlain c List.mem_cons_self nothing
  rw [if_neg nothing]
  obtain ⟨failed, none⟩ | ⟨host, port, left, reads, fits, parsed⟩ :=
    @parseHostPort_eq _ _ out part.starts
  · dsimp only
    rw [if_pos failed, rejected]
    refine iff_of_false (by simp) ?_
    rintro ⟨reads, -, -, fits, -⟩
    exact none ⟨_, _, reads, fits⟩
  have written : bufferText (host ++ 0 :: left) = host :=
    bufferText_written (fun byte member => hostPlain byte (reads.host_sublist member)) left
  have empty : (host ++ 0 :: left).headD 0 = 0 ↔ host = [] :=
    headD_plain (fun byte member => hostPlain byte (reads.host_sublist member)) left
  rw [parsed]
  dsimp only
  rw [if_neg (not_not.mpr rfl)]
  by_cases some : host = []
  · rw [if_pos (empty.mpr some), rejected]
    refine iff_of_false (by simp) ?_
    rintro ⟨reads', -, some', -⟩
    exact some' ((reads'.unique reads).1.trans some)
  rw [if_neg (mt empty.mp some), copyText_eq (by decide)]
  by_cases short : path.length < netHttpPathMax
  swap
  · rw [if_neg short]
    dsimp only
    rw [if_neg Bool.false_ne_true, rejected]
    refine iff_of_false (by simp) ?_
    rintro ⟨-, rfl, -, -, short'⟩
    exact short short'
  rw [if_pos short]
  dsimp only
  rw [if_pos rfl, if_pos rfl, Option.some_inj, HttpUrlOut.target, written, bufferText_written pathPlain]
  constructor
  · rintro rfl
    exact ⟨reads, rfl, some, fits, short⟩
  · rintro ⟨reads', rfl, -⟩
    obtain ⟨rfl, rfl⟩ := reads.unique reads'
    rfl

theorem parsedUrl_scheme (accepted : parsedUrl url out = some target) :
    ∃ p, url = cText "http://" ++ p := by
  refine startsWith_split (by decide) ?_
  by_contra other
  rw [Bool.not_eq_true] at other
  rw [parsedUrl, parseHttpUrl, other] at accepted
  cases accepted

theorem digits_plain {digits : List UInt8} (all : ∀ c ∈ digits, isDigit c = true) {c : UInt8}
    (other : isDigit c = false) :
    c ∉ digits := fun member => Bool.false_ne_true (other.symm.trans (all c member))

theorem PortPart.plain {part : List UInt8} (given : PortPart part port) : 47 ∉ part ∧
    ∀ byte ∈ part, byte ≠ 0 := by
  cases given with
  | default => exact ⟨List.not_mem_nil, nofun⟩
  | digits some all =>
      have other {c : UInt8} (colon : c ≠ 58) (other : isDigit c = false) : c ∉ 58 :: _ :=
        List.not_mem_cons_of_ne_of_not_mem colon (digits_plain all other)
      exact ⟨other (by decide) (by decide), fun byte member zero =>
        other (by decide) (by decide) (zero ▸ member)⟩

theorem PortPart.positive {part : List UInt8} (given : PortPart part port) : 0 < port.toNat := by
  cases given with
  | default => decide
  | digits _ _ _ positive => exact positive

theorem PathPart.printed (part : PathPart tail path) : PathPart path path := by
  cases part with
  | default => exact .given []
  | given rest => exact .given rest

theorem PortPart.reads {part : List UInt8} (given : PortPart part port)
    (without : part = [] → 58 ∉ host) : ReadsAs (host ++ part) host port := by
  cases given with
  | default =>
      rw [List.append_nil]
      exact .default (without rfl)
  | @digits text _ some all value positive =>
      have small := port.toNat_lt
      have number : ReadsNumber text (port.toNat : Int) :=
        ⟨[], [], text, [], by simp, by simp, all, some, by simp, .inl ⟨.inl rfl, by rw [value]⟩⟩
      have same : (Int64.ofInt (port.toNat : Int)).toUInt64.toUInt16 = port := by
        refine UInt16.toNat_inj.mp ?_
        rw [portValue_toNat (by omega)]
        omega
      have read : ReadsAs (host ++ 58 :: text) host _ :=
        .given (digits_plain all (by decide)) number (by omega) (by omega)
      rwa [same] at read

theorem Denotes.parsed (denotes : Denotes url target) (plain : ∀ byte ∈ url, byte ≠ 0) :
    parsedUrl url out = some target := by
  obtain ⟨portPart, pathPart, rfl, port, path, without, hostPart, short⟩ := denotes
  have slash : 47 ∉ target.host ++ portPart := by
    rw [List.mem_append, not_or]
    exact ⟨hostPart.plain, port.plain.1⟩
  refine (parsedUrl_parts path slash (fun byte member => plain byte ?_) target).mpr
    ⟨port.reads without, rfl, hostPart.some, hostPart.fits, short⟩
  exact List.mem_append_right _ member

theorem Denotes.unique {target other : HttpTarget} (denotes : Denotes url target)
    (plain : ∀ byte ∈ url, byte ≠ 0) (denotes' : Denotes url other) : target = other :=
  Option.some_inj.mp ((@Denotes.parsed url ⟨[], [], 0⟩ target denotes plain).symm.trans
    (denotes'.parsed plain))

theorem Denotes.print (denotes : Denotes url target) : Denotes (printUrl target) target := by
  obtain ⟨portPart, pathPart, rfl, port, path, without, hostPart, short⟩ := denotes
  have some : decimal target.port.toNat ≠ [] := by
    obtain ⟨c, first, -⟩ := decimal_head target.port.toNat
    rintro none
    rw [none] at first
    cases first
  exact ⟨58 :: decimal target.port.toNat, target.path, rfl,
    .digits some (decimal_digits _) (digitsValue_decimal _) port.positive, path.printed, nofun,
    hostPart, short⟩

theorem Denotes.print_plain (denotes : Denotes url target) (plain : ∀ byte ∈ url, byte ≠ 0) :
    ∀ byte ∈ printUrl target, byte ≠ 0 := by
  obtain ⟨portPart, pathPart, rfl, port, path, -⟩ := denotes
  rw [urlText] at plain
  simp only [List.forall_mem_append] at plain
  rw [printUrl, urlText]
  simp only [List.forall_mem_append, List.forall_mem_cons]
  exact ⟨plain.1, ⟨plain.2.1.1, by decide, decimal_plain _⟩, path.plain plain.2.2⟩

/-- A port that is read although its text is no decimal number from 1 to 65535: behind spaces and a
sign there are digits, with a number that is one of these at 64 bits, and other text may follow. -/
def LoosePort (url : List UInt8) : Prop :=
  ∃ host text tail path v, url = urlText host (58 :: text) tail ∧ HostPart host ∧ 58 ∉ text ∧ 47 ∉ text ∧
    PathPart tail path ∧ path.length < netHttpPathMax ∧ ReadsNumber text v ∧ 1 ≤ v % 2 ^ 64 ∧
    v % 2 ^ 64 ≤ 65535 ∧ ¬ ∃ port, PortPart (58 :: text) port

/-- Accepted are the addresses of the form, with the parts that they denote, and the parts printed
denote nothing else. -/
def UrlRead (url : List UInt8) : Prop :=
  ∀ out target, (parsedUrl url out = some target ↔ Denotes url target) ∧
    (parsedUrl url out = some target → ∀ other, Denotes (printUrl target) other ↔ other = target)

theorem UrlRead.strict (plain : ∀ byte ∈ url, byte ≠ 0) (read : UrlRead url) : ¬ LoosePort url := by
  rintro ⟨host, text, tail, path, v, rfl, hostPart, noColon, noSlash, part, short, number,
    positive, bound, loose⟩
  have slash : 47 ∉ host ++ 58 :: text := by
    rw [List.mem_append, List.mem_cons, not_or, not_or]
    exact ⟨hostPart.plain, by decide, noSlash⟩
  have accepted : parsedUrl (urlText host (58 :: text) tail) ⟨[], [], 0⟩ = some _ :=
    (parsedUrl_parts part slash (fun byte member => plain byte (List.mem_append_right _ member))
      ⟨host, (Int64.ofInt v).toUInt64.toUInt16, path⟩).mpr
      ⟨.given noColon number positive bound, rfl, hostPart.some, hostPart.fits, short⟩
  obtain ⟨portPart, pathPart, same, port, path', without, hostPart', -⟩ := ((read _ _).1).mp accepted
  obtain ⟨same, -⟩ := first_separator_unique (List.append_cancel_left same) slash
    (by rw [List.mem_append, not_or]; exact ⟨hostPart'.plain, port.plain.1⟩) part.starts path'.starts
  generalize portEq : (Int64.ofInt v).toUInt64.toUInt16 = number at port
  cases port with
  | default =>
      rw [List.append_nil] at same
      exact without rfl (same ▸ List.mem_append_right _ List.mem_cons_self)
  | digits some all value positive =>
      obtain ⟨-, rfl⟩ := last_separator_unique same noColon (digits_plain all (by decide))
      exact loose ⟨_, .digits some all value positive⟩

theorem UrlRead.of_strict (plain : ∀ byte ∈ url, byte ≠ 0) (strict : ¬ LoosePort url) : UrlRead url := by
  rintro out target
  have sound (accepted : parsedUrl url out = some target) : Denotes url target := by
    obtain ⟨p, rfl⟩ := parsedUrl_scheme accepted
    obtain ⟨authority, tail, rfl, without, starts⟩ := first_separator 47 p
    obtain ⟨path, part⟩ := PathPart.of_starts starts
    obtain ⟨reads, rfl, some, fits, short⟩ := (parsedUrl_parts part without
      (fun byte member => plain byte (List.mem_append_right _ member)) target).mp accepted
    have host : 47 ∉ target.host := fun member => without (reads.host_sublist member)
    obtain ⟨noColon, same, port⟩ | ⟨text, v, noColon, rfl, number, positive, bound, port⟩ := reads.parts
    · refine ⟨[], tail, ?_, port ▸ .default, part, fun _ => noColon, ⟨some, host, fits⟩, short⟩
      rw [urlText, List.append_nil, same]
    · by_cases given : ∃ port, PortPart (58 :: text) port
      · obtain ⟨port, given⟩ := given
        have denotes : Denotes (cText "http://" ++ (target.host ++ 58 :: text ++ tail)) { target with port } :=
          ⟨58 :: text, tail, rfl, given, part, nofun, ⟨some, host, fits⟩, short⟩
        rwa [Option.some_inj.mp (accepted.symm.trans (denotes.parsed plain))]
      · have noSlash : 47 ∉ text := fun member =>
          without (List.mem_append_right _ (List.mem_cons_of_mem _ member))
        exact absurd ⟨target.host, text, tail, target.path, v, rfl, ⟨some, host, fits⟩,
          noColon, noSlash, part, short, number, positive, bound, given⟩ strict
  refine ⟨⟨sound, fun denotes => denotes.parsed plain⟩, fun accepted other => ⟨fun denotes => ?_, ?_⟩⟩
  · exact denotes.unique ((sound accepted).print_plain plain) (sound accepted).print
  · rintro rfl
    exact (sound accepted).print

/-- The parser is right exactly for the texts without a loose port. -/
theorem http_url_grammar (url : List UInt8) (plain : ∀ byte ∈ url, byte ≠ 0) : UrlRead url ↔
    ¬ LoosePort url :=
  ⟨UrlRead.strict plain, UrlRead.of_strict plain⟩

theorem http_url_grammar_plain_host : UrlRead (cText "http://host/docs") := by
  refine (http_url_grammar (cText "http://host/docs") (by decide +kernel)).mpr ?_
  rintro ⟨host, text, tail, path, v, same, _⟩
  have colon : (58 : UInt8) ∈ (cText "http://host/docs").drop 7 := by
    rw [same, urlText, List.drop_left' (by decide +kernel)]
    simp
  exact absurd colon (by decide +kernel)

theorem loose_port_accepted :
    parsedUrl (cText "http://a:80x/") ⟨[], [], 0⟩ = some ⟨cText "a", 80, cText "/"⟩ ∧
      ¬ UrlRead (cText "http://a:80x/") := by
  refine ⟨rfl, fun read => read.strict (by decide +kernel) ?_⟩
  refine ⟨cText "a", cText "80x", cText "/", cText "/", 80, rfl, ⟨by decide, by decide, by decide⟩,
    by decide, by decide, .given [], by decide,
    ⟨[], [], cText "80", cText "x", rfl, nofun, by decide +kernel, by decide, by decide +kernel,
      .inl ⟨.inl rfl, by decide⟩⟩, by decide, by decide, ?_⟩
  rintro ⟨port, given⟩
  generalize same : (58 : UInt8) :: cText "80x" = part at given
  cases given with
  | default => cases same
  | digits _ all =>
      obtain ⟨-, rfl⟩ := List.cons_eq_cons.mp same
      exact absurd (all 120 (by decide)) (by decide)

end Parse

end Szczupak.User
