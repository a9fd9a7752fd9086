import Szczupak.Lib.ByteMemory
import Szczupak.Lib.HttpHead
import Szczupak.Lib.Numeral

/-!
The request of `net_http_get_ipv4`, `tcp_http_build_request` in `net/net_tcp.c`.  Strings are
their bytes without
the NUL, the output buffer is a memory of its own,
and a call that fails leaves a buffer nobody reads.
-/

namespace Szczupak

abbrev RequestBuffer := Mem × Nat

section Append

variable (capacity : Nat)

def tcpAppendBytes (out : RequestBuffer) (src : List UInt8) : Option RequestBuffer :=
  if out.2 + src.length > capacity then none else some (out.1.store out.2 src, out.2 + src.length)

/-- `tmp` holds six digits, and is reversed in place. -/
def tcpAppendU16 (out : RequestBuffer) (value : UInt16) : Option RequestBuffer :=
  let tmp := if value = 0 then [48] else (lowDigits decimalDigit 10 6 value.toNat).1
  if tmp.length = 0 then none else tcpAppendBytes capacity out tmp.reverse

def tcpAppendPort (out : RequestBuffer) (port : UInt16) : Option RequestBuffer :=
  if port ≠ 80 then do
    let out ← tcpAppendBytes capacity out (cText ":")
    tcpAppendU16 capacity out port
  else some out

end Append

def requestPath : Option (List UInt8) → List UInt8
  | some (first :: rest) => first :: rest
  | _ => cText "/"

def tcpHttpBuildRequest (out : Mem) (capacity : Nat) (host : List UInt8)
    (path : Option (List UInt8)) (port : UInt16) : Option RequestBuffer :=
  let reqPath := requestPath path
  if host = [] then none
  else if reqPath.head? ≠ some 47 then none
  else if host.length > 200 ∨ reqPath.length > 300 then none
  else do
    let out ← tcpAppendBytes capacity (out, 0) (cText "GET ")
    let out ← tcpAppendBytes capacity out reqPath
    let out ← tcpAppendBytes capacity out (cText " HTTP/1.1\r\nHost: ")
    let out ← tcpAppendBytes capacity out host
    let out ← tcpAppendPort capacity out port
    tcpAppendBytes capacity out
      (cText "\r\nUser-Agent: SzczupakOS/0.1\r\nAccept: */*\r\nConnection: close\r\n\r\n")

def portText (port : UInt16) : List UInt8 := if port = 80 then [] else 58 :: decimal port.toNat

def requestText (host path : List UInt8) (port : UInt16) : List UInt8 :=
  cText "GET " ++ path ++ cText " HTTP/1.1\r\nHost: " ++ host ++ portText port ++
    cText "\r\nUser-Agent: SzczupakOS/0.1\r\nAccept: */*\r\nConnection: close\r\n\r\n"

def Filled (base : Mem) (capacity : Nat) (text : List UInt8) (out : RequestBuffer) : Prop :=
  out = (base.store 0 text, text.length) ∧ text.length ≤ capacity

section Written

variable {base : Mem} {capacity : Nat} {text src : List UInt8} {out after : RequestBuffer}
    {port : UInt16}

theorem Filled.nothing (base : Mem) (capacity : Nat) : Filled base capacity [] (base, 0) := by
  refine ⟨?_, Nat.zero_le _⟩
  rw [Mem.store_nil]
  rfl

theorem Filled.append (filled : Filled base capacity text out) (appended :
    tcpAppendBytes capacity out src = some after) : Filled base capacity (text ++ src) after := by
  obtain ⟨rfl, _⟩ := filled
  unfold tcpAppendBytes at appended
  split at appended
  · cases appended
  · next fits =>
    cases appended
    refine ⟨?_, by rw [List.length_append]; omega⟩
    have joined := base.store_append 0 text src
    rw [Nat.zero_add] at joined
    rw [joined, List.length_append]

theorem Filled.read (filled : Filled base capacity text out) : out.1.read 0 out.2 = text := by
  rw [filled.1]
  exact Mem.read_store_same base 0 text

theorem tcpAppendU16_eq (out : RequestBuffer) (value : UInt16) :
    tcpAppendU16 capacity out value = tcpAppendBytes capacity out (decimal value.toNat) := by
  have bound := value.toNat_lt
  unfold tcpAppendU16 decimal
  by_cases zero : value = 0
  · rw [zero]
    rfl
  · have some : value.toNat ≠ 0 := fun same => zero (UInt16.toNat.inj same)
    have digits := @lowDigits_all decimalDigit 10 value.toNat (by decide) 6 (by omega)
    have nonempty : (List.map decimalDigit (Nat.digits 10 value.toNat)).length ≠ 0 := by
      rw [List.length_map]
      exact fun none => absurd (List.eq_nil_of_length_eq_zero none) (Nat.digits_ne_nil_iff_ne_zero.mpr some)
    rw [numeral_pos some]
    dsimp only
    rw [if_neg zero, digits, if_neg nonempty]

theorem Filled.appendPort (filled : Filled base capacity text out)
    (appended : tcpAppendPort capacity out port = some after) :
    Filled base capacity (text ++ portText port) after := by
  unfold tcpAppendPort at appended
  unfold portText
  by_cases standard : port = 80
  · rw [if_neg (not_not.mpr standard), Option.some.injEq] at appended
    rw [if_pos standard, List.append_nil, ← appended]
    exact filled
  · rw [if_pos standard] at appended
    obtain ⟨colon, first, second⟩ := Option.bind_eq_some_iff.mp appended
    rw [tcpAppendU16_eq] at second
    have both := (filled.append first).append second
    rw [if_neg standard]
    rwa [List.append_assoc] at both

theorem tcpHttpBuildRequest_filled {host : List UInt8} {path : Option (List UInt8)}
    (built : tcpHttpBuildRequest base capacity host path port = some after) :
    Filled base capacity (requestText host (requestPath path) port) after ∧ host ≠ [] := by
  unfold tcpHttpBuildRequest at built
  dsimp only at built
  split at built
  · cases built
  · next named =>
    split at built
    · cases built
    · split at built
      · cases built
      · obtain ⟨get, first, built⟩ := Option.bind_eq_some_iff.mp built
        obtain ⟨target, second, built⟩ := Option.bind_eq_some_iff.mp built
        obtain ⟨version, third, built⟩ := Option.bind_eq_some_iff.mp built
        obtain ⟨name, fourth, built⟩ := Option.bind_eq_some_iff.mp built
        obtain ⟨numbered, fifth, last⟩ := Option.bind_eq_some_iff.mp built
        have filled := (((Filled.nothing base capacity).append first).append second).append third
        exact ⟨((filled.append fourth).appendPort fifth).append last, named⟩

end Written

def hostField (host : List UInt8) (port : UInt16) : List UInt8 := host ++ portText port

/-- One request for the target, with one Host field and no empty line in front of the last. -/
def CarriesRequest (bytes target hostValue : List UInt8) : Prop :=
  (∃ request, parseRequest bytes = some request ∧ request.target = target ∧
    request.values (cText "Host") = [hostValue]) ∧ BlankLineLast bytes

/-- The path has no blanks and no control characters; the host no control characters, and no blanks
where the field's value would lose them. -/
structure HttpSafe (host path : List UInt8) (port : UInt16) : Prop where
  target : path.all isWordByte = true
  value : host.all isValueByte = true
  first : ∀ byte ∈ host.head?, isBlank byte = false
  last : port = 80 → ∀ byte ∈ host.getLast?, isBlank byte = false

section Parse

variable {host path : List UInt8} {port : UInt16}

theorem portText_mem {byte : UInt8} (member : byte ∈ portText port) :
    isValueByte byte = true ∧ isBlank byte = false := by
  unfold portText at member
  split at member
  · cases member
  · rcases List.mem_cons.mp member with rfl | digit
    · decide
    · obtain ⟨low, high⟩ := decimal_mem digit
      have code := UInt8.le_iff_toNat_le.mp low
      have limit := UInt8.le_iff_toNat_le.mp high
      have first : UInt8.toNat 48 = 48 := rfl
      have last : UInt8.toNat 57 = 57 := rfl
      have printed : 33 ≤ byte := UInt8.le_iff_toNat_le.mpr (by
        have bound : UInt8.toNat 33 = 33 := rfl
        omega)
      have apart : ∀ other : UInt8, other.toNat < 48 ∨ 57 < other.toNat → byte ≠ other := by
        rintro other outside rfl
        omega
      constructor
      · simp [isValueByte, isWordByte, printed, apart 127 (by decide)]
      · simp [isBlank, apart 32 (by decide), apart 9 (by decide)]

theorem portText_nonempty (other : port ≠ 80) : portText port ≠ [] := by
  rw [portText, if_neg other]
  exact List.cons_ne_nil _ _

theorem HttpSafe.field (safe : HttpSafe host path port) (named : host ≠ []) :
    NoBlankEnds (hostField host port) ∧ (hostField host port).all isValueByte = true := by
  unfold hostField
  refine ⟨⟨?_, ?_⟩, ?_⟩
  · intro byte first
    rw [List.head?_append_of_ne_nil _ named] at first
    exact safe.first byte first
  · intro byte last
    by_cases standard : port = 80
    · rw [portText, if_pos standard, List.append_nil] at last
      exact safe.last standard byte last
    · rw [List.getLast?_append_of_ne_nil _ (portText_nonempty standard)] at last
      exact (portText_mem (List.mem_of_getLast? last)).2
  · rw [List.all_append, safe.value, Bool.true_and, List.all_eq_true]
    intro byte member
    exact (portText_mem member).1

theorem HttpSafe.of_field (target : path.all isWordByte = true) (named : host ≠ [])
    (ends : NoBlankEnds (hostField host port))
    (bytes : (hostField host port).all isValueByte = true) : HttpSafe host path port := by
  unfold hostField at ends bytes
  rw [List.all_append, Bool.and_eq_true] at bytes
  refine ⟨target, bytes.1, ?_, ?_⟩
  · intro byte first
    apply ends.1 byte
    rwa [List.head?_append_of_ne_nil _ named]
  · intro standard byte last
    apply ends.2 byte
    rwa [portText, if_pos standard, List.append_nil]

theorem requestText_lines (host path : List UInt8) (port : UInt16) :
    requestText host path port =
      cText "GET" ++ 32 :: (path ++ 32 :: cText "HTTP/1.1") ++ (13 :: 10 ::
        (cText "Host" ++ 58 :: 32 :: hostField host port ++ (13 :: 10 ::
          (cText "User-Agent: SzczupakOS/0.1" ++ (13 :: 10 :: (cText "Accept: */*" ++ (13 :: 10 ::
            (cText "Connection: close" ++ (13 :: 10 :: 13 :: 10 :: []))))))))) := by
  have start : cText "GET " = cText "GET" ++ [32] := by decide
  have host : cText " HTTP/1.1\r\nHost: " =
    32 :: (cText "HTTP/1.1" ++ (13 :: 10 :: (cText "Host" ++ [58, 32]))) := by decide
  have rest : cText "\r\nUser-Agent: SzczupakOS/0.1\r\nAccept: */*\r\nConnection: close\r\n\r\n" =
      13 :: 10 :: (cText "User-Agent: SzczupakOS/0.1" ++ (13 :: 10 :: (cText "Accept: */*" ++ (13 :: 10 ::
        (cText "Connection: close" ++ [13, 10, 13, 10]))))) := by
    decide +kernel
  unfold requestText hostField
  rw [start, host, rest]
  simp only [List.append_assoc, List.cons_append, List.nil_append]

theorem parseRequest_text (safe : HttpSafe host path port) (absolute : path ≠ []) (named : host ≠ []) :
    ∃ request, parseRequest (requestText host path port) = some request ∧ request.target = path ∧
      request.values (cText "Host") = [hostField host port] := by
  obtain ⟨ends, bytes⟩ := safe.field named
  have target : isWord path = true := by
    match path, absolute with
    | first :: rest, _ =>
        rw [isWord, safe.target]
        rfl
  have some : hostField host port ≠ [] := List.append_ne_nil_of_left_ne_nil named _
  have start := parseStartLine_plain (show isWord (cText "GET") = true by decide) target
    (show isWord (cText "HTTP/1.1") = true by decide)
  have field := parseField_plain (show isWord (cText "Host") = true by decide) (by decide) some ends bytes
  have agent : parseField (cText "User-Agent: SzczupakOS/0.1") =
      Option.some (cText "User-Agent", cText "SzczupakOS/0.1") := by decide +kernel
  have accept : parseField (cText "Accept: */*") =
      Option.some (cText "Accept", cText "*/*") := by decide +kernel
  have connection : parseField (cText "Connection: close") =
      Option.some (cText "Connection", cText "close") := by decide +kernel
  have wordPlain : ∀ byte, isWordByte byte = true → byte ≠ 13 ∧ byte ≠ 10 := by
    intro byte valid
    exact isValueByte_plain (by rw [isValueByte, valid, Bool.true_or])
  have startPlain : ∀ byte ∈ cText "GET" ++ 32 :: (path ++ 32 :: cText "HTTP/1.1"), byte ≠ 13 ∧ byte ≠ 10 := by
    intro byte member
    simp only [List.mem_append, List.mem_cons] at member
    rcases member with method | rfl | inPath | rfl | version
    · exact wordPlain byte (List.all_eq_true.mp (show (cText "GET").all isWordByte = true by decide) byte method)
    · decide
    · exact wordPlain byte (List.all_eq_true.mp safe.target byte inPath)
    · decide
    · exact wordPlain byte
        (List.all_eq_true.mp (show (cText "HTTP/1.1").all isWordByte = true by decide) byte version)
  have fieldPlain : ∀ byte ∈ cText "Host" ++ 58 :: 32 :: hostField host port, byte ≠ 13 ∧ byte ≠ 10 := by
    intro byte member
    simp only [List.mem_append, List.mem_cons] at member
    rcases member with name | rfl | rfl | value
    · exact wordPlain byte (List.all_eq_true.mp (show (cText "Host").all isWordByte = true by decide) byte name)
    · decide
    · decide
    · exact isValueByte_plain (List.all_eq_true.mp bytes byte value)
  have restPlain : ∀ line ∈ [cText "User-Agent: SzczupakOS/0.1", cText "Accept: */*", cText "Connection: close"],
      ∀ byte ∈ line, byte ≠ 13 ∧ byte ≠ 10 := by decide +kernel
  refine ⟨⟨cText "GET", path, cText "HTTP/1.1", [(cText "Host", hostField host port),
    (cText "User-Agent", cText "SzczupakOS/0.1"), (cText "Accept", cText "*/*"),
    (cText "Connection", cText "close")]⟩, ?_, rfl, rfl⟩
  have lines : headLines [] (requestText host path port) = Option.some
      ([cText "GET" ++ 32 :: (path ++ 32 :: cText "HTTP/1.1"), cText "Host" ++ 58 :: 32 :: hostField host port,
        cText "User-Agent: SzczupakOS/0.1", cText "Accept: */*", cText "Connection: close"], []) := by
    rw [requestText_lines, headLines_line startPlain (by simp), headLines_line fieldPlain (by simp),
      headLines_line (restPlain _ (by simp)) (by decide), headLines_line (restPlain _ (by simp))
      (by decide), headLines_line (restPlain _ (by simp)) (by decide), headLines, if_pos rfl]
    rfl
  unfold parseRequest
  rw [lines]
  simp only [start, List.mapM_cons, List.mapM_nil, field, agent, accept, connection,
    Option.bind_eq_bind, Option.bind_some, Option.pure_def]

theorem requestText_exact (absolute : path ≠ []) (named : host ≠ []) :
    CarriesRequest (requestText host path port) path (hostField host port) ↔
    HttpSafe host path port := by
  constructor
  · rintro ⟨⟨request, parsed, target, values⟩, _⟩
    have word := parseRequest_target parsed
    rw [target] at word
    have member : hostField host port ∈ request.values (cText "Host") := by
      rw [values]
      exact List.mem_singleton_self _
    obtain ⟨ends, bytes⟩ := parseRequest_values parsed member
    exact HttpSafe.of_field (Bool.and_eq_true_iff.mp word).2 named ends bytes
  · intro safe
    obtain ⟨request, parsed, target, values⟩ := parseRequest_text safe absolute named
    exact ⟨⟨request, parsed, target, values⟩, parseRequest_blank parsed⟩

end Parse

theorem requestPath_some (path : Option (List UInt8)) : requestPath path ≠ [] := by
  unfold requestPath
  split
  · exact List.cons_ne_nil _ _
  · decide

/-- The request fits its buffer and touches nothing behind itself, and it is the request asked for
exactly when the strings are safe. -/
theorem http_request_built {out after : Mem} {capacity length : Nat} {host : List UInt8}
    {path : Option (List UInt8)} {port : UInt16}
    (built : tcpHttpBuildRequest out capacity host path port = some (after, length)) :
    length ≤ capacity ∧ (∀ address, length ≤ address → after address = out address) ∧
      (CarriesRequest (after.read 0 length) (requestPath path) (hostField host port) ↔
        HttpSafe host (requestPath path) port) := by
  obtain ⟨filled, named⟩ := tcpHttpBuildRequest_filled built
  have read := filled.read
  obtain ⟨same, fits⟩ := filled
  simp only [Prod.mk.injEq] at same read
  obtain ⟨stored, rfl⟩ := same
  refine ⟨fits, ?_, ?_⟩
  · intro address behind
    rw [stored]
    exact Mem.store_outside out (by omega)
  · rw [read]
    exact requestText_exact (requestPath_some path) named

theorem http_request_built_example :
    ∃ after length, tcpHttpBuildRequest (fun _ => 0) 700 (cText "example.org") none 8080 =
        some (after, length) ∧ length ≤ 700 ∧ (∀ address, length ≤ address → after address = 0) ∧
      (CarriesRequest (after.read 0 length) (requestPath none) (hostField (cText "example.org") 8080) ↔
        HttpSafe (cText "example.org") (requestPath none) 8080) := by
  have succeeds : (tcpHttpBuildRequest (fun _ => 0) 700 (cText "example.org") none 8080).isSome = true := by
    decide +kernel
  obtain ⟨⟨after, length⟩, built⟩ := Option.isSome_iff_exists.mp succeeds
  exact ⟨after, length, built, http_request_built built⟩

def splittingPath : List UInt8 := cText "/ HTTP/1.1\r\n\r\n"

theorem splittingPath_built :
    ∃ after length, tcpHttpBuildRequest (fun _ => 0) 700 (cText "a") (some splittingPath) 80 =
        some (after, length) ∧
      ¬CarriesRequest (after.read 0 length) splittingPath (hostField (cText "a") 80) ∧
      ¬BlankLineLast (after.read 0 length) := by
  have succeeds : (tcpHttpBuildRequest (fun _ => 0) 700 (cText "a") (some splittingPath) 80).isSome = true := by
    decide +kernel
  obtain ⟨⟨after, length⟩, built⟩ := Option.isSome_iff_exists.mp succeeds
  have read := (tcpHttpBuildRequest_filled built).1.read
  have early : ¬BlankLineLast (requestText (cText "a") splittingPath 80) := by
    intro last
    have rest := last (cText "GET / HTTP/1.1") ((requestText (cText "a") splittingPath 80).drop 18)
      (by decide +kernel)
    exact absurd rest (by decide +kernel)
  refine ⟨after, length, built, ?_, ?_⟩
  · rw [read]
    exact fun carries => early carries.2
  · rw [read]
    exact early

end Szczupak
