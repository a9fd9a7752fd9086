import Szczupak.Net.Packet
import Szczupak.Net.ReceiveCore

/-!
Domain names in `net/net_dns.c`: the check of a host name, its encoding into labels, and the walk
over an encoded name.  A host name is the bytes before its NUL.
-/

namespace Szczupak

def dnsDot : UInt8 := 46

def dnsHostByte (c : UInt8) : Bool :=
  (97 ≤ c && c ≤ 122 || 65 ≤ c && c ≤ 90) || 48 ≤ c && c ≤ 57 || c == 45

def dnsValidateLoop : List UInt8 → Nat → Nat → Bool
  | [], totalLen, labelLen =>
      if totalLen = 0 ∨ labelLen = 0 then false
      else if labelLen > 63 then false
      else totalLen ≤ 253
  | c :: rest, totalLen, labelLen =>
      if c = dnsDot then
        if labelLen = 0 ∨ labelLen > 63 then false
        else if totalLen + 1 > 253 then false
        else dnsValidateLoop rest (totalLen + 1) 0
      else if !dnsHostByte c then false
      else if labelLen + 1 > 63 then false
      else if totalLen + 1 > 253 then false
      else dnsValidateLoop rest (totalLen + 1) (labelLen + 1)

def dnsValidateHostname (hostname : List UInt8) : Bool := dnsValidateLoop hostname 0 0

def dnsEncodeLoop (hostname : List UInt8) (outCapacity : Nat) : Nat → Nat → Nat → List UInt8 →
    Option (List UInt8)
  | 0, _, _, out => some out
  | turns + 1, i, labelStart, out =>
      if byteAt hostname i = dnsDot ∨ byteAt hostname i = 0 then
        let labelLen := i - labelStart
        if labelLen = 0 ∨ labelLen > 63 then none
        else if out.length + 1 + labelLen ≥ outCapacity then none
        else
          dnsEncodeLoop hostname outCapacity turns (i + 1) (i + 1)
            (out ++ UInt8.ofNat labelLen :: (hostname.drop labelStart).take labelLen)
      else dnsEncodeLoop hostname outCapacity turns (i + 1) labelStart out

def dnsEncodeQname (hostname : List UInt8) (outCapacity : Nat) : Option (List UInt8) :=
  if !dnsValidateHostname hostname then none
  else
    match dnsEncodeLoop hostname outCapacity (hostname.length + 1) 0 0 [] with
    | none => none
    | some out => if out.length ≥ outCapacity then none else some (out ++ [0])

structure HostLabel (label : List UInt8) : Prop where
  positive : 0 < label.length
  short : label.length ≤ 63
  bytes : ∀ c ∈ label, dnsHostByte c = true

structure HostLabels (hostname : List UInt8) (labels : List (List UInt8)) : Prop where
  some : labels ≠ []
  each : ∀ label ∈ labels, HostLabel label
  joined : hostname = [dnsDot].intercalate labels

section HostNames

variable {hostname rest label : List UInt8} {labels : List (List UInt8)}

theorem dnsHostByte_dot : dnsHostByte dnsDot = false := by decide

theorem dnsHostByte_kind {c : UInt8} (host : dnsHostByte c = true) : c ≠ dnsDot ∧ c ≠ 0 := by
  constructor
  · rintro rfl
    rw [dnsHostByte_dot] at host
    contradiction
  · rintro rfl
    revert host
    decide

theorem join_cons (label : List UInt8) {next : List UInt8} {labels : List (List UInt8)} :
    [dnsDot].intercalate (label :: next :: labels) = label ++ dnsDot ::
    [dnsDot].intercalate (next :: labels) := by
  rw [List.intercalate_cons_cons]
  simp

theorem dnsValidateLoop_iff {totalLen labelLen : Nat} (short : labelLen ≤ 63)
    (inside : labelLen ≤ totalLen) : dnsValidateLoop rest totalLen labelLen = true ↔
      (∃ first others, rest = [dnsDot].intercalate (first :: others) ∧ (∀ c ∈ first, dnsHostByte c = true) ∧
        0 < labelLen + first.length ∧ labelLen + first.length ≤ 63 ∧ ∀ label ∈ others, HostLabel label) ∧
      totalLen + rest.length ≤ 253 := by
  induction rest generalizing totalLen labelLen with
  | nil =>
      rw [dnsValidateLoop]
      constructor
      · intro accepted
        have facts : (totalLen ≠ 0 ∧ labelLen ≠ 0) ∧ totalLen ≤ 253 := by
          grind
        exact ⟨⟨[], [], by simp, by simp, by simp; omega, by simpa using short, by simp⟩, facts.2⟩
      · rintro ⟨⟨first, others, joined, _, positive, _⟩, fits⟩
        have empty : first = [] := by
          cases others with
          | nil => simpa using joined.symm
          | cons next others =>
              rw [join_cons] at joined
              simp at joined
        subst empty
        simp only [List.length_nil, Nat.add_zero] at positive fits
        rw [if_neg (by omega), if_neg (by omega)]
        simpa using fits
  | cons c rest ih =>
      rw [dnsValidateLoop]
      by_cases dot : c = dnsDot
      · subst dot
        rw [if_pos rfl]
        constructor
        · intro accepted
          have facts : labelLen ≠ 0 ∧ totalLen + 1 ≤ 253 ∧ dnsValidateLoop rest (totalLen + 1) 0 = true := by
            grind
          obtain ⟨positive, _, later⟩ := facts
          obtain ⟨⟨first, others, joined, bytes, some, most, labels⟩, fits⟩ :=
            (ih (Nat.zero_le _) (Nat.zero_le _)).mp later
          rw [Nat.zero_add] at some most
          refine ⟨⟨[], first :: others, ?_, by simp, by simp; omega, by simpa using short, ?_⟩, ?_⟩
          · rw [join_cons, ← joined]
            rfl
          · simpa using ⟨⟨some, most, bytes⟩, labels⟩
          · simp only [List.length_cons]
            omega
        · rintro ⟨⟨first, others, joined, bytes, positive, _, labels⟩, fits⟩
          have empty : first = [] := by
            cases first with
            | nil => rfl
            | cons head tail =>
                have same : dnsDot = head := by
                  cases others with
                  | nil => simpa using (List.cons.inj (by simpa using joined)).1
                  | cons next others =>
                      rw [join_cons] at joined
                      exact (List.cons.inj joined).1
                have host := bytes head List.mem_cons_self
                rw [← same, dnsHostByte_dot] at host
                contradiction
          subst empty
          simp only [List.length_nil, Nat.add_zero, List.length_cons] at positive fits
          rw [if_neg (by omega), if_neg (by omega)]
          cases others with
          | nil => simp at joined
          | cons next others =>
              rw [join_cons] at joined
              have tail := (List.cons.inj joined).2
              rw [List.forall_mem_cons] at labels
              refine (ih (Nat.zero_le _) (Nat.zero_le _)).mpr
                ⟨⟨next, others, tail, labels.1.bytes, ?_, ?_, labels.2⟩, ?_⟩
              · simpa using labels.1.positive
              · simpa using labels.1.short
              · omega
      · rw [if_neg dot]
        constructor
        · intro accepted
          have facts : dnsHostByte c = true ∧ labelLen + 1 ≤ 63 ∧
              dnsValidateLoop rest (totalLen + 1) (labelLen + 1) = true := by
            grind
          obtain ⟨host, more, later⟩ := facts
          obtain ⟨⟨first, others, joined, bytes, some, most, labels⟩, fits⟩ := (ih more (by omega)).mp later
          refine ⟨⟨c :: first, others, ?_, ?_, ?_, ?_, labels⟩, ?_⟩
          · rw [joined]
            cases others with
            | nil => simp
            | cons next others => simp
          · simpa using ⟨host, bytes⟩
          all_goals simp only [List.length_cons]; omega
        · rintro ⟨⟨first, others, joined, bytes, positive, most, labels⟩, fits⟩
          cases first with
          | nil =>
              cases others with
              | nil => simp at joined
              | cons next others =>
                  rw [join_cons] at joined
                  exact absurd (List.cons.inj joined).1 dot
          | cons head tail =>
              have split : c = head ∧ rest = [dnsDot].intercalate (tail :: others) := by
                cases others with
                | nil => simpa using joined
                | cons next others =>
                    rw [join_cons] at joined ⊢
                    exact List.cons.inj joined
              obtain ⟨rfl, later⟩ := split
              rw [List.forall_mem_cons] at bytes
              simp only [List.length_cons] at most fits
              rw [bytes.1, if_neg (by simp), if_neg (by omega), if_neg (by omega)]
              exact (ih (by omega) (by omega)).mpr
                ⟨⟨tail, others, later, bytes.2, by omega, by omega, labels⟩, by omega⟩

theorem dnsValidateHostname_iff :
    dnsValidateHostname hostname = true ↔ (∃ labels, HostLabels hostname labels) ∧
    hostname.length ≤ 253 := by
  rw [dnsValidateHostname, dnsValidateLoop_iff (Nat.zero_le _) (Nat.zero_le _), Nat.zero_add]
  refine and_congr_left fun _ => ?_
  constructor
  · rintro ⟨first, others, joined, bytes, positive, short, labels⟩
    rw [Nat.zero_add] at positive short
    exact ⟨first :: others, by simp, by simpa using ⟨⟨positive, short, bytes⟩, labels⟩, joined⟩
  · rintro ⟨labels, some, each, joined⟩
    cases labels with
    | nil => contradiction
    | cons first others =>
        rw [List.forall_mem_cons] at each
        exact ⟨first, others, joined, each.1.bytes, by simpa using each.1.positive, by
          simpa using each.1.short, each.2⟩

end HostNames

def encodedLabels (labels : List (List UInt8)) : List UInt8 :=
  labels.flatMap fun label => UInt8.ofNat label.length :: label

/-- The labels of a name in a packet, from one offset to another.  A name ends with an empty label
or with a pointer, whose target is not looked at. -/
inductive DnsName (packet : List UInt8) : Nat → List (List UInt8) → Nat → Prop where
  | root {offset : Nat} (byte : packet[offset]? = some 0) : DnsName packet offset [] (offset + 1)
  | pointer {offset : Nat} {high low : UInt8} (first : packet[offset]? = some high)
      (marked : high &&& (0xC0 : UInt8) = 0xC0) (second : packet[offset + 1]? = some low) :
      DnsName packet offset [] (offset + 2)
  | label {offset after : Nat} {length : UInt8} {labels : List (List UInt8)}
      (size : packet[offset]? = some length)
      (positive : length ≠ 0) (short : length.toNat ≤ 63) (whole : offset + 1 + length.toNat ≤ packet.length)
      (more : DnsName packet (offset + 1 + length.toNat) labels after) :
      DnsName packet offset ((packet.drop (offset + 1)).take length.toNat :: labels) after

section Names

variable {packet hostname label : List UInt8} {labels : List (List UInt8)} {offset after budget : Nat}

theorem dnsMark_kind (length : UInt8) :
    (length &&& (0xC0 : UInt8) = 0xC0 ∨ length &&& (0xC0 : UInt8) ≠ 0 ∨ length > 63) ↔
    63 < length.toNat := by
  have all : ∀ value : Fin 256, (UInt8.ofNat value.val &&& (0xC0 : UInt8) = 0xC0 ∨
      UInt8.ofNat value.val &&& (0xC0 : UInt8) ≠ 0 ∨ UInt8.ofNat value.val > 63) ↔ 63 < value.val := by
    decide +kernel
  have here := all ⟨length.toNat, length.toNat_lt⟩
  rwa [UInt8.ofNat_toNat] at here

theorem dnsMark_low {length : UInt8} (short : length.toNat ≤ 63) : length &&&
    (0xC0 : UInt8) ≠ 0xC0 := by
  intro marked
  have large := (dnsMark_kind length).mp (Or.inl marked)
  omega

theorem byteAt_get {length : UInt8} (inside : packet[offset]? = some length) :
    byteAt packet offset = length ∧ offset < packet.length := by
  obtain ⟨bound, value⟩ := List.getElem?_eq_some_iff.mp inside
  exact ⟨by rw [byteAt, List.getD_eq_getElem _ _ bound, value], bound⟩

theorem get_byteAt (inside : offset < packet.length) : packet[offset]? =
    some (byteAt packet offset) := by
  rw [byteAt, List.getD_eq_getElem _ _ inside]
  exact List.getElem?_eq_getElem inside

theorem dnsSkipName_iff : dnsSkipName packet budget offset = some after ↔
    ∃ labels, DnsName packet offset labels after ∧ labels.length < budget := by
  induction budget generalizing offset with
  | zero => simp [dnsSkipName]
  | succ budget ih =>
      rw [dnsSkipName]
      constructor
      · intro found
        split at found
        next => contradiction
        next inside =>
          have byte := get_byteAt (Nat.lt_of_not_le inside)
          dsimp only at found
          split at found
          next zero =>
            rw [zero] at byte
            cases found
            exact ⟨[], .root byte, Nat.succ_pos _⟩
          next positive =>
            split at found
            next marked =>
              split at found
              next => contradiction
              next room =>
                cases found
                exact ⟨[], .pointer byte marked (get_byteAt (Nat.lt_of_not_le room)), Nat.succ_pos _⟩
            next unmarked =>
              split at found
              next => contradiction
              next low =>
                split at found
                next => contradiction
                next whole =>
                  have short : (byteAt packet offset).toNat ≤ 63 := by
                    by_contra large
                    exact ((dnsMark_kind _).mpr (Nat.lt_of_not_le large)).elim unmarked low
                  obtain ⟨labels, more, fewer⟩ := ih.mp found
                  exact ⟨_, .label byte positive short (Nat.le_of_not_lt whole) more, by simpa using fewer⟩
      · rintro ⟨labels, name, fewer⟩
        cases name with
        | root byte =>
            obtain ⟨value, inside⟩ := byteAt_get byte
            rw [if_neg (by omega)]
            simp [value]
        | pointer first marked second =>
            obtain ⟨value, inside⟩ := byteAt_get first
            have room := (byteAt_get second).2
            rw [if_neg (by omega)]
            simp only [value]
            rw [if_neg, if_pos marked, if_neg (by omega)]
            rintro rfl
            revert marked
            decide
        | label size positive short whole more =>
            obtain ⟨value, inside⟩ := byteAt_get size
            have unmarked := dnsMark_low short
            rw [if_neg (by omega)]
            simp only [value]
            rw [if_neg positive, if_neg unmarked, if_neg, if_neg (by omega)]
            · exact ih.mpr ⟨_, more, by simpa using fewer⟩
            · intro high
              have large := (dnsMark_kind _).mp (Or.inr high)
              omega

theorem DnsName.unique {other : List (List UInt8)} {last : Nat}
    (first : DnsName packet offset labels after)
    (second : DnsName packet offset other last) : labels = other ∧ after = last := by
  induction first generalizing other last with
  | root byte =>
      cases second with
      | root => exact ⟨rfl, rfl⟩
      | pointer start marked =>
          rw [byte] at start
          cases start
          exact absurd marked (by decide)
      | label size positive =>
          rw [byte] at size
          cases size
          contradiction
  | pointer start marked room =>
      cases second with
      | root byte =>
          rw [byte] at start
          cases start
          exact absurd marked (by decide)
      | pointer => exact ⟨rfl, rfl⟩
      | label size positive short =>
          rw [start] at size
          cases size
          exact absurd marked (dnsMark_low short)
  | label size positive short whole more ih =>
      cases second with
      | root byte =>
          rw [size] at byte
          cases byte
          contradiction
      | pointer start marked =>
          rw [size] at start
          cases start
          exact absurd marked (dnsMark_low short)
      | label again _ _ _ later =>
          rw [size] at again
          cases again
          obtain ⟨sameLabels, sameEnd⟩ := ih later
          exact ⟨by rw [sameLabels], sameEnd⟩

theorem encodedLabels_name (fits : ∀ label ∈ labels, 0 < label.length ∧ label.length ≤ 63)
    (front back : List UInt8) :
    DnsName (front ++ (encodedLabels labels ++ 0 :: back)) front.length labels
      (front.length + (encodedLabels labels).length + 1) := by
  induction labels generalizing front with
  | nil => exact .root (by simp [encodedLabels])
  | cons label labels ih =>
      rw [List.forall_mem_cons] at fits
      obtain ⟨⟨positive, short⟩, fits⟩ := fits
      have size : (UInt8.ofNat label.length).toNat = label.length := by
        rw [UInt8.toNat_ofNat', Nat.mod_eq_of_lt (by omega)]
      have split : front ++ (encodedLabels (label :: labels) ++ 0 :: back) =
          (front ++ UInt8.ofNat label.length :: label) ++ (encodedLabels labels ++ 0 :: back) := by
        simp [encodedLabels]
      have value : ((front ++ (encodedLabels (label :: labels) ++ 0 :: back)).drop
          (front.length + 1)).take (UInt8.ofNat label.length).toNat = label := by
        simp [encodedLabels, size]
      have later := ih fits (front ++ UInt8.ofNat label.length :: label)
      rw [← split] at later
      have name := @DnsName.label (front ++ (encodedLabels (label :: labels) ++ 0 :: back)) front.length
        (front.length + (encodedLabels (label :: labels)).length + 1) (UInt8.ofNat label.length) labels
      rw [value] at name
      refine name (by simp [encodedLabels]) ?_ (by omega) ?_ ?_
      · intro zero
        rw [zero] at size
        exact absurd size (Nat.ne_of_lt positive)
      · simp [encodedLabels, size]
        omega
      · have here : (front ++ UInt8.ofNat label.length :: label).length = front.length + 1 + label.length := by
          simp
          omega
        have there : (encodedLabels (label :: labels)).length = label.length + 1 +
          (encodedLabels labels).length := by
          simp only [encodedLabels, List.flatMap_cons, List.length_append, List.length_cons]
        rw [here] at later
        rw [size, there]
        convert later using 1
        omega

theorem encodedLabels_length (some : labels ≠ []) :
    (encodedLabels labels).length = ([dnsDot].intercalate labels).length + 1 := by
  induction labels with
  | nil => contradiction
  | cons label labels ih =>
      cases labels with
      | nil => simp [encodedLabels]
      | cons next labels =>
          have later := ih (by simp)
          rw [join_cons]
          simp only [encodedLabels, List.flatMap_cons, List.length_append, List.length_cons] at later ⊢
          omega

theorem labels_fewer (fits : ∀ label ∈ labels, 0 < label.length) :
    2 * labels.length ≤ ([dnsDot].intercalate labels).length + 1 := by
  induction labels with
  | nil => simp
  | cons label labels ih =>
      rw [List.forall_mem_cons] at fits
      have later := ih fits.2
      have positive := fits.1
      cases labels with
      | nil =>
          simp only [List.intercalate_singleton, List.length_cons, List.length_nil]
          omega
      | cons next labels =>
          rw [join_cons]
          simp only [List.length_append, List.length_cons] at later ⊢
          omega

theorem dnsEncodeLoop_skip {outCapacity turns i labelStart count : Nat} {out : List UInt8}
    (host : ∀ j < count, byteAt hostname (i + j) ≠ dnsDot ∧ byteAt hostname (i + j) ≠ 0) :
    dnsEncodeLoop hostname outCapacity (turns + count) i labelStart out =
      dnsEncodeLoop hostname outCapacity turns (i + count) labelStart out := by
  induction count generalizing i with
  | zero => rfl
  | succ count ih =>
      have here := host 0 (Nat.succ_pos _)
      rw [Nat.add_zero] at here
      rw [← Nat.add_assoc, dnsEncodeLoop, if_neg (by simp [here]), ih]
      · congr 1
        omega
      · intro j bound
        have later := host (j + 1) (by omega)
        rwa [show i + 1 + j = i + (j + 1) by omega]

theorem dnsEncodeLoop_label {outCapacity turns : Nat} {front back out : List UInt8}
    (host : HostLabel label)
    (separator : byteAt back 0 = dnsDot ∨ byteAt back 0 = 0)
    (room : out.length + 1 + label.length < outCapacity) :
    dnsEncodeLoop (front ++ (label ++ back)) outCapacity (turns + 1 + label.length) front.length
    front.length out =
      dnsEncodeLoop (front ++ (label ++ back)) outCapacity turns (front.length + label.length + 1)
        (front.length + label.length + 1) (out ++ UInt8.ofNat label.length :: label) := by
  have positive := host.positive
  have short := host.short
  rw [dnsEncodeLoop_skip]
  · have stop : byteAt (front ++ (label ++ back)) (front.length + label.length) = byteAt back 0 := by
      rw [byteAt_append_right, ← Nat.add_zero label.length, byteAt_append_right]
    rw [dnsEncodeLoop, stop, if_pos separator]
    simp only [Nat.add_sub_cancel_left]
    rw [if_neg (by omega), if_neg (by omega), List.drop_left, List.take_left]
  · intro j bound
    have inside : byteAt (front ++ (label ++ back)) (front.length + j) ∈ label := by
      rw [byteAt_append_right, byteAt, List.getD_eq_getElem _ _ (by simp; omega),
        List.getElem_append_left bound]
      exact List.getElem_mem _
    exact dnsHostByte_kind (host.bytes _ inside)

theorem dnsEncodeLoop_labels {outCapacity : Nat} {front out : List UInt8} (some : labels ≠ [])
    (each : ∀ label ∈ labels, HostLabel label)
    (room : out.length + ([dnsDot].intercalate labels).length + 2 ≤ outCapacity) :
    dnsEncodeLoop (front ++ [dnsDot].intercalate labels) outCapacity
    (([dnsDot].intercalate labels).length + 1)
      front.length front.length out = Option.some (out ++ encodedLabels labels) := by
  induction labels generalizing front out with
  | nil => contradiction
  | cons label labels ih =>
      rw [List.forall_mem_cons] at each
      obtain ⟨host, each⟩ := each
      cases labels with
      | nil =>
          rw [List.intercalate_singleton] at room ⊢
          have last := @dnsEncodeLoop_label label outCapacity 0 front [] out host (Or.inr rfl) (by omega)
          rw [List.append_nil, Nat.zero_add, Nat.add_comm 1] at last
          rw [last, dnsEncodeLoop]
          simp [encodedLabels]
      | cons next labels =>
          rw [join_cons] at room ⊢
          simp only [List.length_append, List.length_cons] at room
          have size : (label ++ dnsDot :: [dnsDot].intercalate (next :: labels)).length + 1 =
              ([dnsDot].intercalate (next :: labels)).length + 1 + 1 + label.length := by
            simp only [List.length_append, List.length_cons]
            omega
          have later := @ih (front ++ (label ++ [dnsDot]))
            (out ++ UInt8.ofNat label.length :: label) (by simp) each (by
            simp only [List.length_append, List.length_cons]
            omega)
          have place : (front ++ (label ++ [dnsDot])).length = front.length + label.length + 1 := by
            simp only [List.length_append, List.length_cons, List.length_nil]
            omega
          have same : front ++ (label ++ [dnsDot]) ++ [dnsDot].intercalate (next :: labels) =
              front ++ (label ++ dnsDot :: [dnsDot].intercalate (next :: labels)) := by
            simp
          rw [size, dnsEncodeLoop_label host (Or.inl rfl) (by omega)]
          rw [place, same] at later
          rw [later]
          simp [encodedLabels]

end Names

/-- The host names accepted are the well-formed ones, and each is encoded to the labels it has: the
encoding is two bytes longer, decodes to nothing else, and is skipped whole wherever it stands in a
packet. -/
theorem dns_names_agree (hostname : List UInt8) :
    (dnsValidateHostname hostname = true ↔ (∃ labels, HostLabels hostname labels) ∧ hostname.length ≤ 253) ∧
    ∀ capacity, dnsValidateHostname hostname = true → hostname.length + 2 ≤ capacity →
      ∃ out labels, dnsEncodeQname hostname capacity = some out ∧ HostLabels hostname labels ∧
        out.length = hostname.length + 2 ∧ out.length ≤ 255 ∧ DnsName out 0 labels out.length ∧
        (∀ other after, DnsName out 0 other after → other = labels) ∧
        ∀ front back, dnsSkipName (front ++ (out ++ back)) 129 front.length =
        some (front.length + out.length) := by
  refine ⟨dnsValidateHostname_iff, fun capacity valid room => ?_⟩
  obtain ⟨⟨labels, host⟩, fits⟩ := dnsValidateHostname_iff.mp valid
  have each : ∀ label ∈ labels, 0 < label.length ∧ label.length ≤ 63 := fun label member =>
    ⟨(host.each label member).positive, (host.each label member).short⟩
  have size : (encodedLabels labels).length = hostname.length + 1 := by
    rw [encodedLabels_length host.some, ← host.joined]
  have encoded : dnsEncodeQname hostname capacity = some (encodedLabels labels ++ [0]) := by
    have looped := @dnsEncodeLoop_labels labels capacity [] [] host.some host.each (by
      rw [← host.joined]
      simpa using room)
    rw [← host.joined, List.nil_append] at looped
    unfold dnsEncodeQname
    rw [valid]
    simp only [List.length_nil, List.nil_append] at looped
    simp only [Bool.not_true, Bool.false_eq_true, if_false, looped, size]
    rw [if_neg (by omega)]
  have few : labels.length < 129 := by
    have bound := labels_fewer fun label member => (each label member).1
    rw [← host.joined] at bound
    omega
  have name := encodedLabels_name each [] []
  refine ⟨encodedLabels labels ++ [0], labels, encoded, host, by simp [size], by
    simp [size]; omega, ?_, ?_, ?_⟩
  · simpa using name
  · intro other after found
    exact (found.unique (by simpa using name)).1
  · intro front back
    apply dnsSkipName_iff.mpr
    refine ⟨labels, ?_, few⟩
    have placed := encodedLabels_name each front back
    simpa [Nat.add_assoc] using placed

theorem dns_names_agree_dotted : ∃ out labels, dnsEncodeQname [97, 46, 98] 16 = some out ∧
    HostLabels [97, 46, 98] labels ∧ out.length = 5 ∧ out.length ≤ 255 ∧
    DnsName out 0 labels out.length ∧ (∀ other after, DnsName out 0 other after → other = labels) ∧
    ∀ front back, dnsSkipName (front ++ (out ++ back)) 129 front.length =
    some (front.length + out.length) :=
  (dns_names_agree [97, 46, 98]).2 16 (by decide) (by decide)

end Szczupak
