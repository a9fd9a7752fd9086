import Szczupak.Lib.TickCache
import Szczupak.Net.DnsCacheCore

/-!
One entry a name, and what a lookup may answer.  The expiry of an update may wrap, even to the
zero that never expires; the counter then does not last as long as the entry.
-/

namespace Szczupak

section Names

variable {first second : List UInt8}

@[simp] theorem dnsAsciiLower_lower (c : UInt8) : dnsAsciiLower (dnsAsciiLower c) =
    dnsAsciiLower c := by
  have bounds : ∀ byte : UInt8, (65 ≤ byte ∧ byte ≤ 90) ↔ 65 ≤ byte.toNat ∧ byte.toNat ≤ 90 :=
    fun byte => by simp [UInt8.le_iff_toNat_le]
  by_cases upper : 65 ≤ c ∧ c ≤ 90
  · have small := (bounds c).mp upper
    have lowered : (c + 32).toNat = c.toNat + 32 := by
      rw [UInt8.toNat_add]
      exact Nat.mod_eq_of_lt (by simp; omega)
    have notUpper : ¬(65 ≤ c + 32 ∧ c + 32 ≤ 90) := by
      rw [bounds, lowered]
      omega
    simp only [dnsAsciiLower, if_pos upper, if_neg notUpper]
  · simp only [dnsAsciiLower, if_neg upper]

@[simp] theorem lowerName_lower : lowerName (lowerName first) = lowerName first := by
  simp [lowerName]

theorem dnsHostnameEqualCi_iff : dnsHostnameEqualCi first second = true ↔
    lowerName first = lowerName second := by
  induction first generalizing second with
  | nil => cases second <;> simp [dnsHostnameEqualCi, lowerName]
  | cons a as ih =>
      cases second with
      | nil => simp [dnsHostnameEqualCi, lowerName]
      | cons b bs =>
          have rest : dnsHostnameEqualCi as bs = true ↔ as.map dnsAsciiLower = bs.map dnsAsciiLower := ih
          simp [dnsHostnameEqualCi, lowerName, rest]

theorem dnsHostnameCopyLower_fits (fits : first.length ≤ dnsMaxHostnameLen) :
    dnsHostnameCopyLower (dnsMaxHostnameLen + 1) first = lowerName first := by
  rw [dnsHostnameCopyLower, Nat.add_sub_cancel, List.take_of_length_le fits]
  rfl

end Names

section Entries

variable {frequency : UInt32} {s next : DnsRun} {hostname : List UInt8}

def expiresAt (frequency : UInt32) (update : DnsUpdate) : UInt64 :=
  let ttlTicks := dnsTtlToTicks frequency (dnsNormalizeTtl update.ttlSeconds)
  if ttlTicks = 0 then 0 else update.ticks + ttlTicks

structure Current (frequency : UInt32) (s : DnsRun) (entry : DnsCacheEntry)
    (update : DnsUpdate) : Prop where
  last : lastUpdate s.accepted entry.hostname = some update
  lower : lowerName entry.hostname = entry.hostname
  ip : entry.ip = update.ip
  expires : entry.expiresAtTicks = expiresAt frequency update
  past : update.ticks ≤ s.ticks

structure CacheCurrent (frequency : UInt32) (s : DnsRun) : Prop where
  unique : ∀ (i j : Nat) (first second : DnsCacheEntry), s.cache.entries[i]? = some first →
    s.cache.entries[j]? = some second → first.valid = true → second.valid = true →
    first.hostname = second.hostname → i = j
  current : ∀ entry ∈ s.cache.entries, entry.valid = true → ∃ update, Current frequency s entry update

theorem Current.later {entry : DnsCacheEntry} {update : DnsUpdate}
    (holds : Current frequency s entry update)
    (accepted : next.accepted = s.accepted) (later : s.ticks ≤ next.ticks) :
    Current frequency next entry update := by
  refine ⟨?_, holds.lower, holds.ip, holds.expires, UInt64.le_trans holds.past later⟩
  rw [accepted]
  exact holds.last

theorem CacheCurrent.weaken (current : CacheCurrent frequency s)
    {change : DnsCacheEntry → DnsCacheEntry}
    (same : next.cache.entries = s.cache.entries.map change) (accepted : next.accepted = s.accepted)
    (later : s.ticks ≤ next.ticks) (keeps : ∀ entry, (change entry).valid = true →
    change entry = entry) : CacheCurrent frequency next := by
  constructor
  · intro i j first second firstAt secondAt firstValid secondValid sameName
    rw [same, List.getElem?_map] at firstAt secondAt
    obtain ⟨_, firstOld, rfl⟩ := Option.map_eq_some_iff.mp firstAt
    obtain ⟨_, secondOld, rfl⟩ := Option.map_eq_some_iff.mp secondAt
    have firstKept := keeps _ firstValid
    have secondKept := keeps _ secondValid
    rw [firstKept] at firstValid sameName
    rw [secondKept] at secondValid sameName
    exact current.unique i j _ _ firstOld secondOld firstValid secondValid sameName
  · intro entry member valid
    rw [same] at member
    obtain ⟨old, oldMember, rfl⟩ := List.mem_map.mp member
    have kept := keeps _ valid
    rw [kept] at valid ⊢
    obtain ⟨update, holds⟩ := current.current old oldMember valid
    exact ⟨update, holds.later accepted later⟩

theorem CacheCurrent.store (current : CacheCurrent frequency s) {slot : Nat} {entry : DnsCacheEntry}
    {update : DnsUpdate} (same : next.cache.entries = s.cache.entries.set slot entry)
    (accepted : next.accepted = update :: s.accepted) (ticks : next.ticks = s.ticks)
    (name : entry.hostname = lowerName update.hostname) (ip : entry.ip = update.ip)
    (expires : entry.expiresAtTicks = expiresAt frequency update) (past : update.ticks = s.ticks)
    (others : ∀ i other, i ≠ slot → s.cache.entries[i]? = some other → other.valid = true →
      other.hostname ≠ entry.hostname) : CacheCurrent frequency next := by
  have cases : ∀ i other, next.cache.entries[i]? = some other →
      i = slot ∧ other = entry ∨ i ≠ slot ∧ s.cache.entries[i]? = some other := by
    intro i other found
    rw [same] at found
    exact getElem?_set_cases found
  constructor
  · intro i j first second firstAt secondAt firstValid secondValid sameName
    rcases cases i first firstAt with ⟨rfl, rfl⟩ | ⟨firstElsewhere, firstAt⟩
    · rcases cases j second secondAt with ⟨rfl, _⟩ | ⟨elsewhere, secondAt⟩
      · rfl
      · exact absurd sameName.symm (others j second elsewhere secondAt secondValid)
    · rcases cases j second secondAt with ⟨rfl, rfl⟩ | ⟨_, secondAt⟩
      · exact absurd sameName (others i first firstElsewhere firstAt firstValid)
      · exact current.unique i j first second firstAt secondAt firstValid secondValid sameName
  · intro other member valid
    obtain ⟨i, found⟩ := List.mem_iff_getElem?.mp member
    rcases cases i other found with ⟨_, rfl⟩ | ⟨elsewhere, found⟩
    · refine ⟨update, ?_, ?_, ip, expires, ?_⟩
      · simp [lastUpdate, accepted, name]
      · simp [name]
      · rw [past, ticks]
        exact UInt64.le_refl _
    · obtain ⟨earlier, holds⟩ := current.current other (List.mem_of_getElem? found) valid
      refine ⟨earlier, ?_, holds.lower, holds.ip, holds.expires, ?_⟩
      · have different : ¬lowerName update.hostname = lowerName other.hostname := by
          rw [holds.lower, ← name]
          exact fun same => others i other elsewhere found valid same.symm
        have last := holds.last
        simp only [lastUpdate] at last
        simp [lastUpdate, accepted, different, last]
      · rw [ticks]
        exact holds.past

theorem expireStale_valid {now : UInt64} {entry : DnsCacheEntry}
    (valid : (entry.expireStale now).valid = true) :
    entry.expireStale now = entry ∧ (entry.expiresAtTicks = 0 ∨ now < entry.expiresAtTicks) := by
  rw [DnsCacheEntry.expireStale] at valid ⊢
  split at valid
  next => cases valid
  next kept =>
    refine ⟨if_neg kept, ?_⟩
    simp only [valid, Bool.true_and, Bool.and_eq_true, decide_eq_true_eq, not_and, ge_iff_le,
      UInt64.not_le] at kept
    by_cases never : entry.expiresAtTicks = 0
    · exact Or.inl never
    · exact Or.inr (kept never)

theorem CacheCurrent.expire (current : CacheCurrent frequency s)
    (same : next.cache.entries = (dnsCacheExpireStale s.ticks s.cache).entries)
    (accepted : next.accepted = s.accepted)
    (ticks : next.ticks = s.ticks) : CacheCurrent frequency next :=
  current.weaken same accepted (ticks ▸ UInt64.le_refl _) fun _ valid => (expireStale_valid valid).1

theorem dnsCacheScan_found {entries : List DnsCacheEntry} {i j : Nat} {slots : DnsSlots}
    {entry : DnsCacheEntry} (found : dnsCacheScan hostname entries i slots = .inl (j, entry)) :
    i ≤ j ∧ entries[j - i]? = some entry ∧ entry.valid = true ∧
    lowerName entry.hostname = lowerName hostname := by
  induction entries generalizing i slots with
  | nil => simp [dnsCacheScan] at found
  | cons first rest ih =>
      rw [dnsCacheScan] at found
      split at found
      next here =>
        cases found
        simp only [Bool.and_eq_true, dnsHostnameEqualCi_iff] at here
        simp [here]
      next =>
        obtain ⟨after, place, holds⟩ := ih found
        have index : j - i = j - (i + 1) + 1 := by omega
        refine ⟨by omega, ?_, holds⟩
        rwa [index, List.getElem?_cons_succ]

theorem dnsCacheScan_missing {entries : List DnsCacheEntry} {i : Nat} {slots last : DnsSlots}
    (missing : dnsCacheScan hostname entries i slots = .inr last) :
    ∀ entry ∈ entries, entry.valid = true → lowerName entry.hostname ≠ lowerName hostname := by
  induction entries generalizing i slots with
  | nil => simp
  | cons first rest ih =>
      rw [dnsCacheScan] at missing
      split at missing
      next => cases missing
      next other =>
        intro entry member valid same
        rcases List.mem_cons.mp member with rfl | later
        · simp [valid, dnsHostnameEqualCi_iff.mpr same] at other
        · exact ih missing entry later valid same

theorem CacheCurrent.update (current : CacheCurrent frequency s) {ip ttlSeconds : UInt32}
    (stepped : dnsStep frequency s (.update hostname ip ttlSeconds) = some next) :
    CacheCurrent frequency next := by
  rw [dnsStep] at stepped
  split at stepped
  next fits =>
    rw [dnsCacheUpdate] at stepped
    split at stepped
    next => cases stepped; exact current
    next =>
      dsimp only at stepped
      split at stepped
      next i entry found =>
        obtain ⟨_, place, valid, same⟩ := dnsCacheScan_found found
        obtain ⟨earlier, holds⟩ := current.current entry (List.mem_of_getElem? place) valid
        rw [Nat.sub_zero] at place
        cases stepped
        refine @CacheCurrent.store frequency s _ current i _ ⟨hostname, ip, ttlSeconds, s.ticks⟩
          rfl rfl rfl (holds.lower ▸ same) rfl rfl rfl ?_
        intro j other elsewhere otherAt otherValid sameName
        exact elsewhere (current.unique j i other entry otherAt place otherValid valid sameName)
      next slots missing =>
        cases stepped
        refine @CacheCurrent.store frequency s _ current _ _ ⟨hostname, ip, ttlSeconds, s.ticks⟩
          rfl rfl rfl (dnsHostnameCopyLower_fits fits) rfl rfl rfl ?_
        intro j other _ otherAt otherValid sameName
        have member := List.mem_of_getElem? otherAt
        have differs := dnsCacheScan_missing missing other member otherValid
        rw [dnsHostnameCopyLower_fits fits] at sameName
        rw [sameName, lowerName_lower] at differs
        exact differs rfl
  next => cases stepped

theorem CacheCurrent.cleared {old : DnsCache} (same : s.cache = dnsCacheClear old) :
    CacheCurrent frequency s := by
  have invalid : ∀ entry ∈ s.cache.entries, entry.valid ≠ true := by
    intro entry member
    rw [same, dnsCacheClear] at member
    rw [List.eq_of_mem_replicate member]
    exact Bool.false_ne_true
  constructor
  · intro _ _ _ _ firstAt _ valid
    exact absurd valid (invalid _ (List.mem_of_getElem? firstAt))
  · intro entry member valid
    exact absurd valid (invalid entry member)

theorem dnsStep_current {call : DnsCall} (current : CacheCurrent frequency s)
    (stepped : dnsStep frequency s call = some next) : CacheCurrent frequency next := by
  cases call with
  | update hostname ip ttlSeconds => exact current.update stepped
  | lookup hostname =>
      cases stepped
      refine current.expire ?_ rfl rfl
      simp only [dnsCacheLookup]
      split
      next => rfl
      next => rfl
  | expire =>
      cases stepped
      exact current.expire rfl rfl rfl
  | clear =>
      cases stepped
      exact CacheCurrent.cleared rfl
  | advance ticks =>
      rw [dnsStep] at stepped
      split at stepped
      next later =>
        cases stepped
        exact current.weaken (List.map_id _).symm rfl later fun _ _ => rfl
      next => cases stepped

theorem dnsNormalizeTtl_toNat (ttlSeconds : UInt32) :
    (dnsNormalizeTtl ttlSeconds).toNat = min 86400 (max 30 ttlSeconds.toNat) := by
  have least : (30 : UInt32).toNat = 30 := rfl
  have most : (86400 : UInt32).toNat = 86400 := rfl
  simp only [dnsNormalizeTtl, UInt32.lt_iff_toNat_lt, gt_iff_lt, least, most]
  split
  · omega
  · split
    · omega
    · omega

theorem ttlTicks_toNat (running : frequency ≠ 0) (update : DnsUpdate) :
    (dnsTtlToTicks frequency (dnsNormalizeTtl update.ttlSeconds)).toNat =
    update.lifetime frequency := by
  have clamped := dnsNormalizeTtl_toNat update.ttlSeconds
  have wide := frequency.toNat_lt
  have nonzero : dnsNormalizeTtl update.ttlSeconds ≠ 0 := by
    intro zero
    rw [zero] at clamped
    simp at clamped
    omega
  have small : (dnsNormalizeTtl update.ttlSeconds).toNat * frequency.toNat ≤ 86400 * 2 ^ 32 :=
    Nat.mul_le_mul (by omega) (Nat.le_of_lt wide)
  rw [dnsTtlToTicks, if_neg (by simp [running, nonzero]), DnsUpdate.lifetime, ← clamped,
    UInt64.toNat_mul]
  simp only [UInt32.toNat_toUInt64]
  exact Nat.mod_eq_of_lt (by omega)

theorem notStale_young (running : frequency ≠ 0) {update : DnsUpdate} {now : UInt64}
    (past : update.ticks ≤ now)
    (fresh : expiresAt frequency update = 0 ∨ now < expiresAt frequency update) :
    now.toNat - update.ticks.toNat < update.lifetime frequency := by
  have ticks := ttlTicks_toNat running update
  have positive : 0 < update.lifetime frequency := by
    have some : 0 < frequency.toNat := Nat.pos_of_ne_zero fun zero => running (UInt32.toNat_inj.mp zero)
    exact Nat.mul_pos (by omega) some
  have lifetimeBound : update.lifetime frequency < 2 ^ 64 := ticks ▸ UInt64.toNat_lt _
  have nonzero : dnsTtlToTicks frequency (dnsNormalizeTtl update.ttlSeconds) ≠ 0 := by
    intro zero
    rw [zero] at ticks
    simp at ticks
    omega
  have expiry : (expiresAt frequency update).toNat =
    (update.ticks.toNat + update.lifetime frequency) % 2 ^ 64 := by
    rw [expiresAt, if_neg nonzero, UInt64.toNat_add, ticks]
  have begun := update.ticks.toNat_lt
  have nowBound := now.toNat_lt
  rw [UInt64.le_iff_toNat_le] at past
  rcases fresh with never | later
  · rw [never] at expiry
    simp at expiry
    omega
  · rw [UInt64.lt_iff_toNat_lt, expiry] at later
    omega

theorem dnsCacheLookup_hit (current : CacheCurrent frequency s) (running : frequency ≠ 0)
    {ip : UInt32} (hit : (dnsCacheLookup s.ticks s.cache hostname).1 = some ip) :
    ∃ update, lastUpdate s.accepted hostname = some update ∧ update.ip = ip ∧
      s.ticks.toNat - update.ticks.toNat < update.lifetime frequency := by
  simp only [dnsCacheLookup, dnsCacheExpireStale] at hit
  split at hit
  next entry found =>
    have matched := List.find?_some found
    obtain ⟨old, member, rfl⟩ := List.mem_map.mp (List.mem_of_find?_eq_some found)
    simp only [Bool.and_eq_true, dnsHostnameEqualCi_iff] at matched
    obtain ⟨kept, fresh⟩ := expireStale_valid matched.1
    rw [kept] at matched hit
    obtain ⟨update, holds⟩ := current.current old member matched.1
    rw [holds.expires] at fresh
    refine ⟨update, ?_, ?_, notStale_young running holds.past fresh⟩
    · rw [← holds.last, lastUpdate, lastUpdate, matched.2]
    · rw [← holds.ip]
      exact Option.some.inj hit
  next => cases hit

end Entries

theorem dns_cache_answers (frequency : UInt32) (running : frequency ≠ 0) (ticks : UInt64)
    (calls : List DnsCall)
    (s : DnsRun) (reached : runActions (dnsStep frequency) (dnsStart ticks) calls = some s) :
    (∀ (i j : Nat) (first second : DnsCacheEntry), s.cache.entries[i]? = some first →
      s.cache.entries[j]? = some second → first.valid = true → second.valid = true →
      lowerName first.hostname = lowerName second.hostname → i = j) ∧
    ∀ hostname ip, (dnsCacheLookup s.ticks s.cache hostname).1 = some ip →
      ∃ update, lastUpdate s.accepted hostname = some update ∧ update.ip = ip ∧
        s.ticks.toNat - update.ticks.toNat < update.lifetime frequency := by
  have current : CacheCurrent frequency s :=
    runActions_invariant (fun _ _ _ current stepped => dnsStep_current current stepped)
      (CacheCurrent.cleared rfl) reached
  constructor
  · intro i j first second firstAt secondAt firstValid secondValid sameName
    obtain ⟨_, firstHolds⟩ := current.current first (List.mem_of_getElem? firstAt) firstValid
    obtain ⟨_, secondHolds⟩ := current.current second (List.mem_of_getElem? secondAt) secondValid
    rw [firstHolds.lower, secondHolds.lower] at sameName
    exact current.unique i j first second firstAt secondAt firstValid secondValid sameName
  · intro hostname ip hit
    exact dnsCacheLookup_hit current running hit

theorem dns_cache_answers_twoSpellings : ∃ s,
    runActions (dnsStep 100) (dnsStart 5)
      [.update [65, 98] 0x0A000001 60, .advance 7, .update [97, 66] 0x0A000002 1, .advance 3006] = some s ∧
    ∃ update, lastUpdate s.accepted [65, 66] = some update ∧ update.ip = 0x0A000002 ∧
      s.ticks.toNat - update.ticks.toNat < update.lifetime 100 := by
  refine ⟨_, rfl, ?_⟩
  exact (dns_cache_answers 100 (by decide) 5
    [.update [65, 98] 0x0A000001 60, .advance 7, .update [97, 66] 0x0A000002 1,
    .advance 3006] _ rfl).2 [65, 66] 0x0A000002 (by decide)

end Szczupak
