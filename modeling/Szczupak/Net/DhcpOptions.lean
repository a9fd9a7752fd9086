import Mathlib.Data.List.Induction
import Szczupak.Net.Checked

/-!
The option field of a DHCP message as a list of options.  The parser walks the bytes once; the list
says what is in them, and a field of the result is the last option of its kind.
-/

namespace Szczupak

/-- Pad bytes are skipped; the list ends at the end option, at the last byte, or at an option whose
value is cut off. -/
inductive DhcpOptionList : List UInt8 → List (UInt8 × List UInt8) → Prop where
  | done : DhcpOptionList [] []
  | pad {rest : List UInt8} {options : List (UInt8 × List UInt8)}
      (more : DhcpOptionList rest options) : DhcpOptionList (0 :: rest) options
  | finish (rest : List UInt8) : DhcpOptionList (dhcpOptEnd :: rest) []
  | lengthMissing {code : UInt8} (real : code ≠ 0 ∧ code ≠ dhcpOptEnd) : DhcpOptionList [code] []
  | truncated {code length : UInt8} {rest : List UInt8} (real : code ≠ 0 ∧ code ≠ dhcpOptEnd)
      (short : rest.length < length.toNat) : DhcpOptionList (code :: length :: rest) []
  | option {code length : UInt8} {value rest : List UInt8} {options : List (UInt8 × List UInt8)}
      (real : code ≠ 0 ∧ code ≠ dhcpOptEnd) (whole : value.length = length.toNat)
      (more : DhcpOptionList rest options) :
      DhcpOptionList (code :: length :: (value ++ rest)) ((code, value) :: options)

def lastValue (code : UInt8) (accepts : Nat → Bool) (options : List (UInt8 × List UInt8)) :
    Option (List UInt8) :=
  (options.filter fun option => option.1 == code && accepts option.2.length).getLast?.map Prod.snd

def dhcpFields (options : List (UInt8 × List UInt8)) : DhcpOptions where
  msgType := (lastValue dhcpOptMsgType (· == 1) options).map fun value => byteAt value 0
  serverId := (lastValue dhcpOptServerId (· == 4) options).map fun value => readBe32 value 0
  subnetMask := (lastValue dhcpOptSubnetMask (· == 4) options).map fun value => readBe32 value 0
  router := (lastValue dhcpOptRouter (4 ≤ ·) options).map fun value => readBe32 value 0
  dns := (lastValue dhcpOptDns (4 ≤ ·) options).map fun value => readBe32 value 0
  leaseTime := (lastValue dhcpOptLeaseTime (· == 4) options).map fun value => readBe32 value 0

section Parse

variable {data : List UInt8} {options other : List (UInt8 × List UInt8)}

theorem dhcpOptionList_exists (data : List UInt8) : ∃ options, DhcpOptionList data options := by
  induction length : data.length using Nat.strong_induction_on generalizing data with
  | _ size ih =>
      subst length
      rcases data with _ | ⟨code, rest⟩
      · exact ⟨[], .done⟩
      by_cases zero : code = 0
      · subst zero
        obtain ⟨options, more⟩ := ih rest.length (by simp) rest rfl
        exact ⟨options, .pad more⟩
      by_cases ends : code = dhcpOptEnd
      · subst ends
        exact ⟨[], .finish rest⟩
      rcases rest with _ | ⟨length, body⟩
      · exact ⟨[], .lengthMissing ⟨zero, ends⟩⟩
      by_cases short : body.length < length.toNat
      · exact ⟨[], .truncated ⟨zero, ends⟩ short⟩
      · obtain ⟨options, more⟩ := ih (body.drop length.toNat).length (by simp; omega) _ rfl
        have whole : (body.take length.toNat).length = length.toNat := by
          simp
          omega
        refine ⟨(code, body.take length.toNat) :: options, ?_⟩
        have cut := DhcpOptionList.option ⟨zero, ends⟩ whole more
        rwa [List.take_append_drop] at cut

theorem DhcpOptionList.unique (second : DhcpOptionList data other)
    (first : DhcpOptionList data options) : other = options := by
  induction first generalizing other with
  | done => cases second; rfl
  | pad more ih =>
      cases second with
      | pad again => exact ih again
      | lengthMissing real => exact absurd rfl real.1
      | truncated real short => exact absurd rfl real.1
      | option real whole again => exact absurd rfl real.1
  | finish rest =>
      cases second with
      | finish => rfl
      | lengthMissing real => exact absurd rfl real.2
      | truncated real short => exact absurd rfl real.2
      | option real whole again => exact absurd rfl real.2
  | lengthMissing real =>
      cases second with
      | pad again => exact absurd rfl real.1
      | finish => exact absurd rfl real.2
      | lengthMissing _ => rfl
  | truncated real short =>
      cases second with
      | pad again => exact absurd rfl real.1
      | finish => exact absurd rfl real.2
      | truncated _ _ => rfl
      | option _ whole again =>
          simp only [List.length_append] at short
          omega
  | @option code length value rest options real whole more ih =>
      generalize joined : value ++ rest = body at second
      cases second with
      | pad again => exact absurd rfl real.1
      | finish => exact absurd rfl real.2
      | truncated _ short =>
          rw [← joined, List.length_append] at short
          omega
      | option _ otherWhole again =>
          obtain ⟨sameValue, sameRest⟩ := List.append_inj joined (whole.trans otherWhole.symm)
          subst sameValue sameRest
          rw [ih again]

theorem dhcpParseLoop_list (list : DhcpOptionList data options) {fuel : Nat}
    (enough : data.length ≤ fuel) (before : DhcpOptions) :
    dhcpParseLoop fuel before data =
      options.foldl (fun fields option => dhcpOption fields option.1 option.2) before := by
  induction list generalizing fuel before with
  | done => cases fuel <;> rfl
  | pad more ih =>
      obtain ⟨fuel, rfl⟩ := Nat.exists_eq_add_one_of_ne_zero (show fuel ≠ 0 by simp at enough; omega)
      rw [dhcpParseLoop.eq_def]
      simp only [if_true]
      exact ih (by simp at enough; omega) before
  | finish rest =>
      obtain ⟨fuel, rfl⟩ := Nat.exists_eq_add_one_of_ne_zero (show fuel ≠ 0 by simp at enough; omega)
      rw [dhcpParseLoop.eq_def]
      rfl
  | lengthMissing real =>
      obtain ⟨fuel, rfl⟩ := Nat.exists_eq_add_one_of_ne_zero (show fuel ≠ 0 by simp at enough; omega)
      simp [dhcpParseLoop, real.1, real.2]
  | truncated real short =>
      obtain ⟨fuel, rfl⟩ := Nat.exists_eq_add_one_of_ne_zero (show fuel ≠ 0 by simp at enough; omega)
      simp [dhcpParseLoop, real.1, real.2, short]
  | @option code length value rest options real whole more ih =>
      obtain ⟨fuel, rfl⟩ := Nat.exists_eq_add_one_of_ne_zero (show fuel ≠ 0 by simp at enough; omega)
      have fits : ¬length.toNat > (value ++ rest).length := by
        simp
        omega
      rw [dhcpParseLoop]
      simp only [if_neg real.1, if_neg real.2, if_neg fits]
      rw [← whole, List.take_left, List.drop_left, List.foldl_cons]
      exact ih (by simp at enough; omega) _

theorem foldl_lastValue {Field : Type} (field : DhcpOptions → Option Field) (code : UInt8)
    (accepts : Nat → Bool) (decode : List UInt8 → Field)
    (step : ∀ fields (option : UInt8 × List UInt8), field (dhcpOption fields option.1 option.2) =
      if option.1 == code && accepts option.2.length then some (decode option.2) else field fields)
    (absent : field dhcpOptionsClear = none) (options : List (UInt8 × List UInt8)) :
    field (options.foldl (fun fields option => dhcpOption fields option.1 option.2)
      dhcpOptionsClear) = (lastValue code accepts options).map decode := by
  induction options using List.reverseRecOn with
  | nil => simpa [lastValue] using absent
  | append_singleton front option ih =>
      rw [List.foldl_append, List.foldl_cons, List.foldl_nil, step]
      by_cases taken : (option.1 == code && accepts option.2.length) = true
      · simp [lastValue, List.filter_append, taken]
      · rw [if_neg taken, ih]
        simp [lastValue, List.filter_append, taken]

theorem dhcpOption_fields (fields : DhcpOptions) (option : UInt8 × List UInt8) :
    (dhcpOption fields option.1 option.2).msgType =
      (if option.1 == dhcpOptMsgType && option.2.length == 1 then some (byteAt option.2 0)
      else fields.msgType) ∧
    (dhcpOption fields option.1 option.2).serverId =
      (if option.1 == dhcpOptServerId && option.2.length == 4 then some (readBe32 option.2 0)
      else fields.serverId) ∧
    (dhcpOption fields option.1 option.2).subnetMask =
      (if option.1 == dhcpOptSubnetMask && option.2.length == 4 then some (readBe32 option.2 0)
        else fields.subnetMask) ∧
    (dhcpOption fields option.1 option.2).router =
      (if option.1 == dhcpOptRouter && decide (4 ≤ option.2.length) then some (readBe32 option.2 0)
        else fields.router) ∧
    (dhcpOption fields option.1 option.2).dns =
      (if option.1 == dhcpOptDns && decide (4 ≤ option.2.length) then some (readBe32 option.2 0)
      else fields.dns) ∧
    (dhcpOption fields option.1 option.2).leaseTime =
      (if option.1 == dhcpOptLeaseTime && option.2.length == 4 then some (readBe32 option.2 0)
        else fields.leaseTime) := by
  unfold dhcpOption
  grind [dhcpOptMsgType, dhcpOptServerId, dhcpOptSubnetMask, dhcpOptRouter, dhcpOptDns,
    dhcpOptLeaseTime]

theorem foldl_dhcpFields (options : List (UInt8 × List UInt8)) :
    options.foldl (fun fields option => dhcpOption fields option.1 option.2) dhcpOptionsClear =
      dhcpFields options := by
  have msgType := foldl_lastValue DhcpOptions.msgType dhcpOptMsgType (· == 1) (fun value =>
    byteAt value 0) (fun fields option => (dhcpOption_fields fields option).1) rfl options
  have serverId := foldl_lastValue DhcpOptions.serverId dhcpOptServerId (· == 4) (fun value =>
    readBe32 value 0) (fun fields option => (dhcpOption_fields fields option).2.1) rfl options
  have subnetMask := foldl_lastValue DhcpOptions.subnetMask dhcpOptSubnetMask (· == 4) (fun value =>
    readBe32 value 0) (fun fields option => (dhcpOption_fields fields option).2.2.1) rfl options
  have router := foldl_lastValue DhcpOptions.router dhcpOptRouter (4 ≤ ·) (fun value =>
    readBe32 value 0) (fun fields option => (dhcpOption_fields fields option).2.2.2.1) rfl options
  have dns := foldl_lastValue DhcpOptions.dns dhcpOptDns (4 ≤ ·) (fun value => readBe32 value 0)
    (fun fields option => (dhcpOption_fields fields option).2.2.2.2.1) rfl options
  have leaseTime := foldl_lastValue DhcpOptions.leaseTime dhcpOptLeaseTime (· == 4) (fun value =>
    readBe32 value 0) (fun fields option => (dhcpOption_fields fields option).2.2.2.2.2) rfl options
  generalize options.foldl (fun fields option => dhcpOption fields option.1 option.2)
    dhcpOptionsClear = parsed at *
  cases parsed
  simp only at msgType serverId subnetMask router dns leaseTime
  simp only [dhcpFields, msgType, serverId, subnetMask, router, dns, leaseTime]

/-- The list of a byte string is unique, the loop ends inside the string, and what it yields are the
fields of the list. -/
theorem dhcp_options_parsed (data : List UInt8) :
    ∃ options, DhcpOptionList data options ∧ (∀ other, DhcpOptionList data other → other = options) ∧
      dhcpOptionsLoop data ⟨0, data.length⟩ (data.length + 1) 0 dhcpOptionsClear =
      some (dhcpParseOptions data) ∧ dhcpParseOptions data = dhcpFields options := by
  obtain ⟨options, list⟩ := dhcpOptionList_exists data
  refine ⟨options, list, fun other second => second.unique list, ?_, ?_⟩
  · have inside : View.Inside ⟨0, data.length⟩ data := by simp [View.Inside]
    have bytes : View.bytes ⟨0, data.length⟩ data = data := by simp [View.bytes]
    have ends := @dhcpOptionsLoop_at data ⟨0, data.length⟩ inside (data.length + 1) data.length 0
      dhcpOptionsClear (Nat.zero_le _) (by simp) (by simp)
    rwa [bytes, List.drop_zero] at ends
  · rw [dhcpParseOptions, dhcpParseLoop_list list (Nat.le_refl _), foldl_dhcpFields]

end Parse

end Szczupak
