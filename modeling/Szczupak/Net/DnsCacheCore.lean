import Szczupak.Lib.Transition
import Szczupak.Net.ReceiveCore

/-!
The name cache of `net/net_utils.c`.  Updates refresh, fill or evict; what is stale goes at the
next lookup.  A host name is the bytes before its NUL.
-/

namespace Szczupak

def dnsMaxHostnameLen : Nat := 253
def dnsCacheSize : Nat := 16

def dnsAsciiLower (c : UInt8) : UInt8 := if 65 ≤ c ∧ c ≤ 90 then c + 32 else c

def dnsHostnameEqualCi : List UInt8 → List UInt8 → Bool
  | a :: as, b :: bs => if dnsAsciiLower a ≠ dnsAsciiLower b then false else dnsHostnameEqualCi as bs
  | as, bs => as.isEmpty && bs.isEmpty

def dnsHostnameCopyLower (dstSize : Nat) (src : List UInt8) : List UInt8 :=
  (src.take (dstSize - 1)).map dnsAsciiLower

structure DnsCacheEntry where
  valid : Bool
  hostname : List UInt8
  ip : UInt32
  expiresAtTicks : UInt64
  updatedAtTicks : UInt64

/-- `g_dns_cache` and the two counters of `g_net_stats` that the lookups keep. -/
structure DnsCache where
  entries : List DnsCacheEntry
  dnsCacheHits : UInt64
  dnsCacheMisses : UInt64

def dnsTtlToTicks (frequency ttlSeconds : UInt32) : UInt64 :=
  if frequency = 0 ∨ ttlSeconds = 0 then 0 else ttlSeconds.toUInt64 * frequency.toUInt64

def DnsCacheEntry.expireStale (now : UInt64) (entry : DnsCacheEntry) : DnsCacheEntry :=
  if entry.valid && (entry.expiresAtTicks ≠ 0 && now ≥ entry.expiresAtTicks) then
    { entry with valid := false }
  else entry

def dnsCacheExpireStale (now : UInt64) (cache : DnsCache) : DnsCache :=
  { cache with entries := cache.entries.map fun entry => entry.expireStale now }

def dnsCacheClear (cache : DnsCache) : DnsCache :=
  { cache with entries := List.replicate dnsCacheSize ⟨false, [], 0, 0, 0⟩ }

def dnsCacheLookup (now : UInt64) (cache : DnsCache) (hostname : List UInt8) :
    Option UInt32 × DnsCache :=
  let cache := dnsCacheExpireStale now cache
  match cache.entries.find? fun entry => entry.valid && dnsHostnameEqualCi entry.hostname hostname with
  | some entry => (some entry.ip, { cache with dnsCacheHits := cache.dnsCacheHits + 1 })
  | none => (none, { cache with dnsCacheMisses := cache.dnsCacheMisses + 1 })

structure DnsSlots where
  freeSlot : Option Nat
  replaceSlot : Nat
  oldestTick : UInt64

def DnsSlots.look (slots : DnsSlots) (i : Nat) (entry : DnsCacheEntry) : DnsSlots :=
  if entry.valid then
    if entry.updatedAtTicks < slots.oldestTick then
      { slots with replaceSlot := i, oldestTick := entry.updatedAtTicks }
    else slots
  else if slots.freeSlot.isNone then { slots with freeSlot := some i }
  else slots

def dnsCacheScan (hostname : List UInt8) : List DnsCacheEntry → Nat → DnsSlots →
    (Nat × DnsCacheEntry) ⊕ DnsSlots
  | [], _, slots => .inr slots
  | entry :: rest, i, slots =>
      if entry.valid && dnsHostnameEqualCi entry.hostname hostname then .inl (i, entry)
      else dnsCacheScan hostname rest (i + 1) (slots.look i entry)

def dnsCacheUpdate (frequency : UInt32) (now : UInt64) (cache : DnsCache)
    (hostname : List UInt8) (ip : UInt32) (ttlSeconds : UInt32) : DnsCache :=
  if ip = 0 ∨ ip = 0xFFFFFFFF then cache
  else
    let ttlTicks := dnsTtlToTicks frequency (dnsNormalizeTtl ttlSeconds)
    let expiresAt := if ttlTicks = 0 then 0 else now + ttlTicks
    match dnsCacheScan hostname cache.entries 0 ⟨none, 0, 0xFFFFFFFFFFFFFFFF⟩ with
    | .inl (i, entry) =>
        let refreshed := { entry with ip, updatedAtTicks := now, expiresAtTicks := expiresAt }
        { cache with entries := cache.entries.set i refreshed }
    | .inr slots =>
        let slot := slots.freeSlot.getD slots.replaceSlot
        let stored := dnsHostnameCopyLower (dnsMaxHostnameLen + 1) hostname
        let entry :=
          { valid := true, hostname := stored, ip, expiresAtTicks := expiresAt, updatedAtTicks := now }
        { cache with entries := cache.entries.set slot entry }

structure DnsUpdate where
  hostname : List UInt8
  ip : UInt32
  ttlSeconds : UInt32
  ticks : UInt64

/-- `accepted` records the updates, the newest first; no routine reads it. -/
structure DnsRun where
  ticks : UInt64
  cache : DnsCache
  accepted : List DnsUpdate

inductive DnsCall where
  | update (hostname : List UInt8) (ip ttlSeconds : UInt32)
  | lookup (hostname : List UInt8)
  | expire
  | clear
  | advance (ticks : UInt64)

def dnsStep (frequency : UInt32) (s : DnsRun) : DnsCall → Option DnsRun
  | .update hostname ip ttlSeconds =>
      if hostname.length ≤ dnsMaxHostnameLen then
        some { s with
          cache := dnsCacheUpdate frequency s.ticks s.cache hostname ip ttlSeconds
          accepted := if ip = 0 ∨ ip = 0xFFFFFFFF then s.accepted
            else ⟨hostname, ip, ttlSeconds, s.ticks⟩ :: s.accepted }
      else none
  | .lookup hostname => some { s with cache := (dnsCacheLookup s.ticks s.cache hostname).2 }
  | .expire => some { s with cache := dnsCacheExpireStale s.ticks s.cache }
  | .clear => some { s with cache := dnsCacheClear s.cache }
  | .advance ticks => if s.ticks ≤ ticks then some { s with ticks } else none

def dnsStart (ticks : UInt64) : DnsRun := ⟨ticks, dnsCacheClear ⟨[], 0, 0⟩, []⟩

def lowerName (hostname : List UInt8) : List UInt8 := hostname.map dnsAsciiLower

def lastUpdate (accepted : List DnsUpdate) (hostname : List UInt8) : Option DnsUpdate :=
  accepted.find? fun update => lowerName update.hostname = lowerName hostname

def DnsUpdate.lifetime (frequency : UInt32) (update : DnsUpdate) : Nat :=
  min 86400 (max 30 update.ttlSeconds.toNat) * frequency.toNat

end Szczupak
