import Szczupak.Net.DnsNames
import Szczupak.Net.Checked

/-!
The responses `dns_parse_response_a` takes, as a grammar over the bytes of the packet.
-/

namespace Szczupak

section Grammar

variable (packet : List UInt8) (admitted : List (List UInt8) → Prop)

inductive DnsQuestions : Nat → Nat → Nat → Prop where
  | nil {offset : Nat} : DnsQuestions 0 offset offset
  | cons {count offset after last : Nat} {labels : List (List UInt8)}
      (name : DnsName packet offset labels after)
      (named : admitted labels) (fixed : after + 4 ≤ packet.length)
      (more : DnsQuestions count (after + 4) last) : DnsQuestions (count + 1) offset last

/-- A record whose name stands at `offset`, whose fixed fields at `record` and whose data up to
`next`. -/
structure DnsRecord (offset record next : Nat) : Prop where
  name : ∃ labels, DnsName packet offset labels record ∧ admitted labels
  next_eq : next = record + 10 + (readBe16 packet (record + 8)).toNat
  whole : next ≤ packet.length

def DnsAddress (record : Nat) : Prop :=
  readBe16 packet record = 1 ∧ readBe16 packet (record + 2) = 1 ∧
    (readBe16 packet (record + 8)).toNat = 4

inductive DnsAnswer : Nat → Nat → Nat → Prop where
  | here {count offset record next : Nat} (whole : DnsRecord packet admitted offset record next)
      (address : DnsAddress packet record) : DnsAnswer (count + 1) offset record
  | later {count offset record next found : Nat} (whole : DnsRecord packet admitted offset record next)
      (foreign : ¬DnsAddress packet record) (more : DnsAnswer count next found) :
      DnsAnswer (count + 1) offset found

structure DnsResponse (txid : UInt16) (ip ttl : UInt32) : Prop where
  header : 12 ≤ packet.length
  id : readBe16 packet 0 = txid
  response : readBe16 packet 2 &&& (0x8000 : UInt16) ≠ 0
  noError : readBe16 packet 2 &&& (0x000F : UInt16) = 0
  answer : ∃ answers record, DnsQuestions packet admitted (readBe16 packet 4).toNat 12 answers ∧
    DnsAnswer packet admitted (readBe16 packet 6).toNat answers record ∧
    ip = readBe32 packet (record + 10) ∧ ttl = readBe32 packet (record + 4)

end Grammar

/-- The names `dns_skip_name` walks to their end. -/
def DnsFewLabels (labels : List (List UInt8)) : Prop := labels.length ≤ 128

section Response

variable {packet : List UInt8} {count offset last record : Nat}

theorem dnsSkipName_few {after : Nat} : dnsSkipName packet 129 offset = some after ↔
    ∃ labels, DnsName packet offset labels after ∧ DnsFewLabels labels := by
  simp only [dnsSkipName_iff, DnsFewLabels, Nat.lt_succ_iff]

theorem dnsSkipQuestions_iff : dnsSkipQuestions packet count offset = some last ↔
    DnsQuestions packet DnsFewLabels count offset last := by
  induction count generalizing offset with
  | zero =>
      constructor
      · intro found
        cases found
        exact .nil
      · rintro ⟨⟩
        rfl
  | succ count ih =>
      rw [dnsSkipQuestions]
      constructor
      · intro found
        cases skipped : dnsSkipName packet 129 offset with
        | none =>
            rw [skipped] at found
            contradiction
        | some after =>
            obtain ⟨labels, name, few⟩ := dnsSkipName_few.mp skipped
            simp only [skipped] at found
            split at found
            next => contradiction
            next fixed => exact .cons name few (Nat.le_of_not_lt fixed) (ih.mp found)
      · intro questions
        cases questions with
        | cons name few fixed more =>
            simp only [dnsSkipName_few.mpr ⟨_, name, few⟩]
            rw [if_neg (Nat.not_lt_of_le fixed)]
            exact ih.mpr more

theorem dnsFindAnswer_iff {ip ttl : UInt32} : dnsFindAnswer packet count offset = some (ip, ttl) ↔
    ∃ record, DnsAnswer packet DnsFewLabels count offset record ∧
      ip = readBe32 packet (record + 10) ∧ ttl = readBe32 packet (record + 4) := by
  induction count generalizing offset with
  | zero =>
      constructor
      · intro found
        cases found
      · rintro ⟨_, ⟨⟩, _⟩
  | succ count ih =>
      rw [dnsFindAnswer]
      constructor
      · intro found
        cases skipped : dnsSkipName packet 129 offset with
        | none =>
            rw [skipped] at found
            contradiction
        | some record =>
            simp only [skipped] at found
            split at found
            next => contradiction
            next fixed =>
              split at found
              next => contradiction
              next whole =>
                have isRecord : DnsRecord packet DnsFewLabels offset record
                    (record + 10 + (readBe16 packet (record + 8)).toNat) :=
                  ⟨dnsSkipName_few.mp skipped, rfl, Nat.le_of_not_lt whole⟩
                split at found
                next address =>
                  cases found
                  exact ⟨record, .here isRecord address, rfl, rfl⟩
                next foreign =>
                  obtain ⟨answer, more, fields⟩ := ih.mp found
                  exact ⟨answer, .later isRecord foreign more, fields⟩
      · rintro ⟨answer, found, rfl, rfl⟩
        cases found with
        | here isRecord address =>
            obtain ⟨named, rfl, whole⟩ := isRecord
            simp only [dnsSkipName_few.mpr named]
            rw [if_neg (by omega), if_neg (by omega)]
            exact if_pos address
        | later isRecord foreign more =>
            obtain ⟨named, rfl, whole⟩ := isRecord
            simp only [dnsSkipName_few.mpr named]
            rw [if_neg (by omega), if_neg (by omega)]
            exact (if_neg foreign).trans (ih.mpr ⟨answer, more, rfl, rfl⟩)

end Response

/-- A packet yields an address exactly when it is such a response with at most 128 labels in each
name, and no load is past its end. -/
theorem dns_response_parsed (packet : List UInt8) (txid : UInt16) :
    (∀ ip ttl, dnsParseResponseA packet txid = some (ip, ttl) ↔
      DnsResponse packet DnsFewLabels txid ip ttl) ∧
    dnsParseResponseAChecked packet ⟨0, packet.length⟩ txid = some (dnsParseResponseA packet txid) := by
  constructor
  · intro ip ttl
    rw [dnsParseResponseA]
    constructor
    · intro found
      split at found
      next => contradiction
      next header =>
        split at found
        next => contradiction
        next id =>
          split at found
          next => contradiction
          next response =>
            split at found
            next => contradiction
            next noError =>
              cases skipped : dnsSkipQuestions packet (readBe16 packet 4).toNat 12 with
              | none =>
                  rw [skipped] at found
                  contradiction
              | some answers =>
                  simp only [skipped] at found
                  obtain ⟨record, answer, fields⟩ := dnsFindAnswer_iff.mp found
                  exact ⟨Nat.le_of_not_lt header, Decidable.of_not_not id, response,
                    Decidable.of_not_not noError,
                    answers, record, dnsSkipQuestions_iff.mp skipped, answer, fields⟩
    · rintro ⟨header, id, response, noError, answers, record, questions, answer, fields⟩
      rw [if_neg (Nat.not_lt_of_le header), if_neg (not_not_intro id), if_neg response,
        if_neg (not_not_intro noError)]
      simp only [dnsSkipQuestions_iff.mpr questions]
      exact dnsFindAnswer_iff.mpr ⟨record, answer, fields⟩
  · have inside : View.Inside ⟨0, packet.length⟩ packet := by simp [View.Inside]
    have bytes : View.bytes ⟨0, packet.length⟩ packet = packet := by simp [View.bytes]
    rw [dnsParseResponseAChecked_at inside, bytes]

/-- A response without questions and with one answer, whose owner has 129 one-letter labels. -/
def longOwner : List UInt8 :=
  [0, 7, 0x80, 0, 0, 0, 0, 1, 0, 0, 0, 0] ++
    (encodedLabels (List.replicate 129 [97]) ++ 0 :: [0, 1, 0, 1, 0, 0, 0, 60, 0, 4, 10, 0, 2, 15])

theorem longOwner_refused :
    DnsResponse longOwner (fun _ => True) 7 0x0A00020F 60 ∧ dnsParseResponseA longOwner 7 = none := by
  constructor
  · have name := @encodedLabels_name (List.replicate 129 [97]) (by simp)
      [0, 7, 0x80, 0, 0, 0, 0, 1, 0, 0, 0, 0] [0, 1, 0, 1, 0, 0, 0, 60, 0, 4, 10, 0, 2, 15]
    have labels : (encodedLabels (List.replicate 129 [97])).length = 258 := by decide +kernel
    rw [labels] at name
    have questions : (readBe16 longOwner 4).toNat = 0 := by decide +kernel
    have answers : (readBe16 longOwner 6).toNat = 1 := by decide +kernel
    have size : (readBe16 longOwner (271 + 8)).toNat = 4 := by decide +kernel
    have isRecord : DnsRecord longOwner (fun _ => True) 12 271 285 :=
      ⟨⟨_, name, trivial⟩, by rw [size], by decide +kernel⟩
    have address : DnsAddress longOwner 271 := ⟨by decide +kernel, by decide +kernel, size⟩
    refine ⟨by decide +kernel, by decide +kernel, by decide +kernel, by
      decide +kernel, 12, 271, ?_, ?_, ?_, ?_⟩
    · rw [questions]
      exact .nil
    · rw [answers]
      exact .here isRecord address
    · decide +kernel
    · decide +kernel
  · decide +kernel

end Szczupak
