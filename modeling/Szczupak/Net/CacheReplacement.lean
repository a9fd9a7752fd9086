import Szczupak.Net.CheckedCore
import Szczupak.Net.DnsCache
import Szczupak.Net.Transmit

/-!
Which entry the address and the name cache give up.  Ticks are coarse:
the slots of one tick are not told apart, and the first of them goes first.
-/

namespace Szczupak

structure ArpUpdate where
  ip : UInt32
  mac : Mac
  ticks : UInt64

def ArpUpdate.Valid (update : ArpUpdate) : Prop :=
  update.ip ≠ ipZero ∧ update.mac ≠ macZero ∧ update.mac ≠ macBroadcast

def ArpUpdate.perform (world : World) (state : NetState) (update : ArpUpdate) : NetState :=
  arpCacheUpdate { world with ticks := fun _ => update.ticks } state update.ip update.mac

def DnsUpdate.Valid (update : DnsUpdate) : Prop :=
  update.ip ≠ 0 ∧ update.ip ≠ 0xFFFFFFFF ∧ update.hostname.length ≤ dnsMaxHostnameLen

def DnsUpdate.perform (frequency : UInt32) (cache : DnsCache) (update : DnsUpdate) : DnsCache :=
  dnsCacheUpdate frequency update.ticks cache update.hostname update.ip update.ttlSeconds

def ArpUpdate.use (update : ArpUpdate) : CacheUse UInt32 := ⟨update.ip, update.ticks.toNat⟩
def DnsUpdate.use (update : DnsUpdate) : CacheUse (List UInt8) :=
  ⟨lowerName update.hostname, update.ticks.toNat⟩

structure OldestSoFar (marks : List (Bool × UInt64)) (seen : Nat) (oldest : UInt64)
    (slot : Nat) : Prop where
  least : ∀ i < seen, ∀ mark, marks[i]? = some mark → mark.1 = true → oldest ≤ mark.2
  found : slot = 0 ∧ oldest = 0xFFFFFFFFFFFFFFFF ∨ marks[slot]? = some (true, oldest)

section Choice

variable {marks : List (Bool × UInt64)} {seen slot : Nat} {oldest : UInt64} {mark : Bool × UInt64}

theorem OldestSoFar.start : OldestSoFar marks 0 0xFFFFFFFFFFFFFFFF 0 :=
  ⟨fun i bound => absurd bound (Nat.not_lt_zero i), Or.inl ⟨rfl, rfl⟩⟩

theorem OldestSoFar.older (sofar : OldestSoFar marks seen oldest slot) (here : marks[seen]? = some mark)
    (valid : mark.1 = true) (older : mark.2 < oldest) : OldestSoFar marks (seen + 1) mark.2 seen := by
  constructor
  · intro i bound other there otherValid
    by_cases last : i = seen
    · rw [last, here] at there
      cases there
      exact UInt64.le_refl _
    · exact UInt64.le_trans (UInt64.le_of_lt older) (sofar.least i (by omega) other there otherValid)
  · right
    rw [here, ← valid]

theorem OldestSoFar.same (sofar : OldestSoFar marks seen oldest slot) (here : marks[seen]? = some mark)
    (younger : mark.1 = true → ¬mark.2 < oldest) : OldestSoFar marks (seen + 1) oldest slot := by
  refine ⟨fun i bound other there valid => ?_, sofar.found⟩
  by_cases last : i = seen
  · rw [last, here] at there
    cases there
    exact UInt64.not_lt.mp (younger valid)
  · exact sofar.least i (by omega) other there valid

theorem of_drop_cons {Item : Type} {items rest : List Item} {item : Item} {seen : Nat}
    (suffix : items.drop seen = item :: rest) : items[seen]? = some item ∧
    items.drop (seen + 1) = rest := by
  constructor
  · rw [← List.head?_drop, suffix]
    rfl
  · rw [← List.tail_drop, suffix]
    rfl

theorem OldestSoFar.loop {rest : List (Bool × UInt64)} {best : UInt64 × Nat}
    (suffix : marks.drop seen = rest)
    (within : seen ≤ marks.length) (full : ∀ mark ∈ marks, mark.1 = true)
    (sofar : OldestSoFar marks seen best.1 best.2) {last : UInt64 × Nat}
    (ends : (rest.zipIdx seen).foldl (fun (oldest : UInt64 × Nat) mark =>
      if mark.1.2 < oldest.1 then (mark.1.2, mark.2) else oldest) best = last) :
    OldestSoFar marks marks.length last.1 last.2 := by
  induction rest generalizing seen best with
  | nil =>
      rw [List.drop_eq_nil_iff] at suffix
      rw [← ends, Nat.le_antisymm suffix within]
      exact sofar
  | cons mark rest ih =>
      obtain ⟨here, later⟩ := of_drop_cons suffix
      rw [List.zipIdx_cons, List.foldl_cons] at ends
      refine ih later (List.getElem?_eq_some_iff.mp here).1 ?_ ends
      dsimp only
      split
      next older => exact sofar.older here (full mark (List.mem_of_getElem? here)) older
      next younger => exact sofar.same here fun _ => younger

/-- A free slot, or one with the oldest tick of a full cache; the pairs are `valid` and
`updated_at_ticks`. -/
def ChosenSlot (marks : List (Bool × UInt64)) (slot : Nat) : Prop :=
  ∃ mark, marks[slot]? = some mark ∧ (mark.1 = true → ∀ other ∈ marks, other.1 = true ∧
    mark.2 ≤ other.2)

theorem OldestSoFar.chosen (sofar : OldestSoFar marks marks.length oldest slot)
    (positive : 0 < marks.length)
    (full : ∀ mark ∈ marks, mark.1 = true) : ChosenSlot marks slot := by
  have least : ∀ other ∈ marks, oldest ≤ other.2 := by
    intro other member
    obtain ⟨i, there⟩ := List.mem_iff_getElem?.mp member
    exact sofar.least i (List.getElem?_eq_some_iff.mp there).1 other there (full other member)
  rcases sofar.found with ⟨rfl, rfl⟩ | found
  · refine ⟨marks[0], List.getElem?_eq_getElem positive, fun _ other member => ⟨full other member, ?_⟩⟩
    refine UInt64.le_trans ?_ (least other member)
    exact UInt64.le_iff_toNat_le.mpr (Nat.le_of_lt_succ (UInt64.toNat_lt _))
  · exact ⟨_, found, fun _ other member => ⟨full other member, least other member⟩⟩

theorem cacheSlot_chosen (positive : 0 < marks.length) : ChosenSlot marks (cacheSlot marks) := by
  unfold cacheSlot
  split
  next free found =>
    obtain ⟨bound, isFree, -⟩ := List.findIdx?_eq_some_iff_getElem.mp found
    refine ⟨marks[free], List.getElem?_eq_getElem bound, fun valid => ?_⟩
    simp [valid] at isFree
  next none_ =>
    have full : ∀ mark ∈ marks, mark.1 = true := by
      simpa using List.findIdx?_eq_none_iff.mp none_
    exact (OldestSoFar.loop rfl (Nat.zero_le _) full .start rfl).chosen positive full

structure SlotsSoFar (marks : List (Bool × UInt64)) (seen : Nat) (slots : DnsSlots) : Prop where
  oldest : OldestSoFar marks seen slots.oldestTick slots.replaceSlot
  free : ∀ slot, slots.freeSlot = some slot → ∃ mark, marks[slot]? = some mark ∧ mark.1 = false
  full : slots.freeSlot = none → ∀ i < seen, ∀ mark, marks[i]? = some mark → mark.1 = true

theorem SlotsSoFar.look {slots : DnsSlots} {entry : DnsCacheEntry} (sofar : SlotsSoFar marks seen slots)
    (here : marks[seen]? = some (entry.valid, entry.updatedAtTicks)) :
    SlotsSoFar marks (seen + 1) (slots.look seen entry) := by
  have grown : entry.valid = true → slots.freeSlot = none → ∀ i < seen + 1, ∀ mark,
      marks[i]? = some mark → mark.1 = true := by
    intro valid none i bound mark there
    by_cases last : i = seen
    · rw [last, here] at there
      cases there
      exact valid
    · exact sofar.full none i (by omega) mark there
  cases valid : entry.valid with
  | true =>
      rw [valid] at here
      by_cases older : entry.updatedAtTicks < slots.oldestTick
      · simp only [DnsSlots.look, valid, older, if_true]
        exact ⟨sofar.oldest.older here rfl older, sofar.free, grown valid⟩
      · simp only [DnsSlots.look, valid, older, if_true, if_false]
        exact ⟨sofar.oldest.same here fun _ => older, sofar.free, grown valid⟩
  | false =>
      rw [valid] at here
      have kept := sofar.oldest.same here fun invalid => absurd invalid Bool.false_ne_true
      cases free : slots.freeSlot with
      | none =>
          simp only [DnsSlots.look, valid, free, Bool.false_eq_true, if_false, Option.isNone_none, if_true]
          refine ⟨kept, fun slot is => ?_, fun none => by cases none⟩
          cases is
          exact ⟨_, here, rfl⟩
      | some slot =>
          simp only [DnsSlots.look, valid, free, Bool.false_eq_true, if_false, Option.isNone_some]
          exact ⟨kept, sofar.free, fun none => by simp [free] at none⟩

theorem SlotsSoFar.chosen {slots : DnsSlots} (sofar : SlotsSoFar marks marks.length slots)
    (positive : 0 < marks.length) : ChosenSlot marks (slots.freeSlot.getD slots.replaceSlot) := by
  cases free : slots.freeSlot with
  | some slot =>
      obtain ⟨mark, there, isFree⟩ := sofar.free slot free
      exact ⟨mark, there, fun valid => by simp [isFree] at valid⟩
  | none =>
      apply sofar.oldest.chosen positive
      intro mark member
      obtain ⟨i, there⟩ := List.mem_iff_getElem?.mp member
      exact sofar.full free i (List.getElem?_eq_some_iff.mp there).1 mark there

end Choice

theorem dnsCacheScan_slots {hostname : List UInt8} {entries rest : List DnsCacheEntry} {seen : Nat}
    {slots last : DnsSlots} (suffix : entries.drop seen = rest) (within : seen ≤ entries.length)
    (sofar : SlotsSoFar (entries.map fun entry => (entry.valid, entry.updatedAtTicks)) seen slots)
    (missing : dnsCacheScan hostname rest seen slots = .inr last) :
    SlotsSoFar (entries.map fun entry => (entry.valid, entry.updatedAtTicks)) entries.length last := by
  induction rest generalizing seen slots with
  | nil =>
      rw [List.drop_eq_nil_iff] at suffix
      simp only [dnsCacheScan, Sum.inr.injEq] at missing
      rw [← missing, Nat.le_antisymm suffix within]
      exact sofar
  | cons entry rest ih =>
      obtain ⟨here, later⟩ := of_drop_cons suffix
      rw [dnsCacheScan] at missing
      split at missing
      · contradiction
      · refine ih later (List.getElem?_eq_some_iff.mp here).1 ?_ missing
        apply sofar.look
        rw [List.getElem?_map, here]
        rfl

section Slots

variable {Entry Key : Type} {entries : List Entry} {valid : Entry → Bool} {key : Entry → Key}
  {ticks : Entry → UInt64} {use : CacheUse Key}

def entrySlot (valid : Entry → Bool) (key : Entry → Key) (ticks : Entry → UInt64) (entry : Entry) :
    Option (CacheUse Key) :=
  if valid entry then some ⟨key entry, (ticks entry).toNat⟩ else none

theorem entrySlot_some {entry : Entry} {old : CacheUse Key}
    (held : entrySlot valid key ticks entry = some old) :
    valid entry = true ∧ old = ⟨key entry, (ticks entry).toNat⟩ := by
  unfold entrySlot at held
  split at held
  next isValid => exact ⟨isValid, (Option.some.inj held).symm⟩
  next => contradiction

theorem refreshed_takes {i : Nat} {entry : Entry} (there : entries[i]? = some entry)
    (isValid : valid entry = true)
    (same : key entry = use.key) : TakesSlot (entries.map (entrySlot valid key ticks)) use
      ((entries.map (entrySlot valid key ticks)).set i (some use)) := by
  apply @TakesSlot.refresh Key _ use i ⟨key entry, (ticks entry).toNat⟩
  · rw [List.getElem?_map, there]
    simp [entrySlot, isValid]
  · exact same

theorem chosen_takes {slot : Nat}
    (chosen : ChosenSlot (entries.map fun entry => (valid entry, ticks entry)) slot)
    (fresh : ∀ entry ∈ entries, valid entry = true → key entry ≠ use.key) :
    TakesSlot (entries.map (entrySlot valid key ticks)) use
      ((entries.map (entrySlot valid key ticks)).set slot (some use)) := by
  obtain ⟨mark, there, oldest⟩ := chosen
  obtain ⟨entry, entryAt, rfl⟩ := Option.map_eq_some_iff.mp ((List.getElem?_map ..).symm.trans there)
  apply TakesSlot.store
  · rw [List.length_map]
    exact (List.getElem?_eq_some_iff.mp entryAt).1
  · intro old member
    obtain ⟨other, known, held⟩ := List.mem_map.mp member
    obtain ⟨isValid, rfl⟩ := entrySlot_some held
    exact fresh other known isValid
  · intro old held
    rw [List.getElem?_map, entryAt, Option.map_some, Option.some.injEq] at held
    obtain ⟨isValid, rfl⟩ := entrySlot_some held
    have all : ∀ other ∈ entries, valid other = true ∧ ticks entry ≤ ticks other := by
      intro other known
      exact oldest isValid _ (List.mem_map_of_mem known)
    constructor
    · intro free
      obtain ⟨other, known, empty⟩ := List.mem_map.mp free
      simp [entrySlot, (all other known).1] at empty
    · intro old member
      obtain ⟨other, known, otherHeld⟩ := List.mem_map.mp member
      obtain ⟨-, rfl⟩ := entrySlot_some otherHeld
      exact UInt64.le_iff_toNat_le.mp (all other known).2

theorem KeepsRecent.held [DecidableEq Key] {size : Nat} {history : List (CacheUse Key)}
    (recent : KeepsRecent size history (entries.map (entrySlot valid key ticks))) :
    (∀ (i j : Nat) (first second : Entry), entries[i]? = some first → entries[j]? = some second →
      valid first = true → valid second = true → key first = key second → i = j) ∧
      ∀ use ∈ history, (∃ entry ∈ entries, valid entry = true ∧ key entry = use.key) ∨
        size ≤ (othersSince history use).card := by
  constructor
  · intro i j first second firstAt secondAt firstValid secondValid same
    apply recent.unique i j ⟨key first, (ticks first).toNat⟩ ⟨key second, (ticks second).toNat⟩
    · simp [firstAt, entrySlot, firstValid]
    · simp [secondAt, entrySlot, secondValid]
    · exact same
  · intro use known
    rcases recent.kept use known with ⟨old, held, same⟩ | gone
    · obtain ⟨entry, member, is⟩ := List.mem_map.mp held
      obtain ⟨isValid, rfl⟩ := entrySlot_some is
      exact Or.inl ⟨entry, member, isValid, same⟩
    · exact Or.inr gone

end Slots

def arpSlots (state : NetState) : CacheSlots UInt32 :=
  state.arpCache.map (entrySlot ArpCacheEntry.valid ArpCacheEntry.ip ArpCacheEntry.updatedAtTicks)

def dnsSlots (cache : DnsCache) : CacheSlots (List UInt8) :=
  cache.entries.map
    (entrySlot DnsCacheEntry.valid (fun entry => lowerName entry.hostname) DnsCacheEntry.updatedAtTicks)

theorem arpCacheUpdate_takes {world : World} {state : NetState} {update : ArpUpdate}
    (valid : update.Valid) (positive : 0 < (arpSlots state).length) :
    TakesSlot (arpSlots state) update.use (arpSlots (update.perform world state)) := by
  rw [arpSlots, List.length_map] at positive
  have accepted : ¬(update.ip = ipZero ∨ update.mac = macZero ∨ update.mac = macBroadcast) := by
    rw [not_or, not_or]
    exact valid
  rw [ArpUpdate.perform, arpCacheUpdate, if_neg accepted]
  simp only [pitGetTicks, arpSlots]
  split
  next i found =>
    obtain ⟨bound, matched, -⟩ := List.findIdx?_eq_some_iff_getElem.mp found
    simp only [Bool.and_eq_true, beq_iff_eq] at matched
    have takes := @refreshed_takes _ _ state.arpCache ArpCacheEntry.valid ArpCacheEntry.ip
      ArpCacheEntry.updatedAtTicks update.use i _ (List.getElem?_eq_getElem bound) matched.1 matched.2
    rw [List.modify_eq_set_getElem?, List.getElem?_eq_getElem bound]
    simp only [Option.map_eq_map, Option.map_some, Option.getD_some, List.map_set]
    simpa [entrySlot, matched, ArpUpdate.use] using takes
  next missing =>
    have fresh : ∀ entry ∈ state.arpCache, entry.valid = true → entry.ip ≠ update.use.key := by
      intro entry member isValid same
      have other := List.findIdx?_eq_none_iff.mp missing entry member
      rw [isValid, same] at other
      simp [ArpUpdate.use] at other
    rw [List.map_set]
    exact chosen_takes (cacheSlot_chosen (by rw [List.length_map]; exact positive)) fresh

theorem dnsCacheUpdate_takes {frequency : UInt32} {cache : DnsCache} {update : DnsUpdate}
    (valid : update.Valid) (positive : 0 < (dnsSlots cache).length) :
    TakesSlot (dnsSlots cache) update.use (dnsSlots (update.perform frequency cache)) := by
  rw [dnsSlots, List.length_map] at positive
  obtain ⟨nonzero, notAll, fits⟩ := valid
  rw [DnsUpdate.perform, dnsCacheUpdate, if_neg (by rw [not_or]; exact ⟨nonzero, notAll⟩)]
  simp only [dnsSlots]
  split
  next i entry found =>
    obtain ⟨-, there, isValid, same⟩ := dnsCacheScan_found found
    rw [Nat.sub_zero] at there
    have takes := @refreshed_takes _ _ cache.entries DnsCacheEntry.valid (fun entry =>
      lowerName entry.hostname) DnsCacheEntry.updatedAtTicks update.use i entry there isValid same
    rw [List.map_set]
    simpa [entrySlot, isValid, same, DnsUpdate.use] using takes
  next slots missing =>
    have start : SlotsSoFar (cache.entries.map fun entry => (entry.valid, entry.updatedAtTicks)) 0
        ⟨none, 0, 0xFFFFFFFFFFFFFFFF⟩ := by
      refine ⟨.start, fun slot is => ?_, fun _ i bound => absurd bound (Nat.not_lt_zero i)⟩
      simp at is
    have sofar := dnsCacheScan_slots rfl (Nat.zero_le _) start missing
    rw [← @List.length_map _ _ cache.entries fun entry => (entry.valid, entry.updatedAtTicks)]
      at sofar positive
    have takes := @chosen_takes _ _ cache.entries DnsCacheEntry.valid (fun entry => lowerName entry.hostname)
      DnsCacheEntry.updatedAtTicks update.use _ (sofar.chosen positive) (dnsCacheScan_missing missing)
    rw [List.map_set]
    simpa [entrySlot, DnsUpdate.use, dnsHostnameCopyLower_fits fits] using takes

/-- No entry of either cache goes before as many other addresses or names have come as the cache has
slots, since the beginning of the tick of its last update. -/
theorem caches_keep_recent :
    (∀ (world : World) (start : NetState) (updates : List ArpUpdate),
      start.arpCache = List.replicate arpCacheSize ⟨false, 0, macZero, 0⟩ →
      (∀ update ∈ updates, update.Valid) →
      (updates.Pairwise fun earlier later => earlier.ticks ≤ later.ticks) →
      let cache := (updates.foldl (ArpUpdate.perform world) start).arpCache
      (∀ (i j : Nat) (first second : ArpCacheEntry), cache[i]? = some first → cache[j]? = some second →
        first.valid = true → second.valid = true → first.ip = second.ip → i = j) ∧
      ∀ update ∈ updates, (∃ entry ∈ cache, entry.valid = true ∧ entry.ip = update.ip) ∨
        arpCacheSize ≤ (othersSince (updates.map ArpUpdate.use) update.use).card) ∧
    ∀ (frequency : UInt32) (start : DnsCache) (updates : List DnsUpdate),
    (∀ update ∈ updates, update.Valid) →
      (updates.Pairwise fun earlier later => earlier.ticks ≤ later.ticks) →
      let cache := (updates.foldl (DnsUpdate.perform frequency) (dnsCacheClear start)).entries
      (∀ (i j : Nat) (first second : DnsCacheEntry), cache[i]? = some first → cache[j]? = some second →
        first.valid = true → second.valid = true → lowerName first.hostname =
        lowerName second.hostname → i = j) ∧
      ∀ update ∈ updates,
        (∃ entry ∈ cache, entry.valid = true ∧ lowerName entry.hostname = lowerName update.hostname) ∨
          dnsCacheSize ≤ (othersSince (updates.map DnsUpdate.use) update.use).card := by
  constructor
  · intro world start updates cleared valid ascending
    have recent : KeepsRecent arpCacheSize (updates.map ArpUpdate.use)
        (arpSlots (updates.foldl (ArpUpdate.perform world) start)) := by
      apply KeepsRecent.run
      · intro state update member length
        exact arpCacheUpdate_takes (valid update member) (by rw [length]; decide)
      · exact ascending.imp UInt64.le_iff_toNat_le.mp
      · rw [arpSlots, cleared, List.map_replicate]
        rfl
    obtain ⟨unique, kept⟩ := recent.held
    exact ⟨unique, fun update member => kept update.use (List.mem_map_of_mem member)⟩
  · intro frequency start updates valid ascending
    have recent : KeepsRecent dnsCacheSize (updates.map DnsUpdate.use)
        (dnsSlots (updates.foldl (DnsUpdate.perform frequency) (dnsCacheClear start))) := by
      apply KeepsRecent.run
      · intro state update member length
        exact dnsCacheUpdate_takes (valid update member) (by rw [length]; decide)
      · exact ascending.imp UInt64.le_iff_toNat_le.mp
      · rw [dnsSlots, dnsCacheClear, List.map_replicate]
        rfl
    obtain ⟨unique, kept⟩ := recent.held
    exact ⟨unique, fun update member => kept update.use (List.mem_map_of_mem member)⟩

def twentyAddresses : List ArpUpdate := (List.range 20).map fun i =>
    ⟨UInt32.ofNat (i + 1), lanMac 2, UInt64.ofNat i⟩

def twentyNames : List DnsUpdate := (List.range 20).map fun i =>
    ⟨[UInt8.ofNat (65 + i)], 0x0A000002, 60, UInt64.ofNat i⟩

theorem latest_sixteen_kept :
    (∀ update ∈ twentyAddresses.drop 4,
      ∃ entry ∈ (twentyAddresses.foldl (ArpUpdate.perform lanWorld) lanState).arpCache,
        entry.valid = true ∧ entry.ip = update.ip) ∧
    ∀ update ∈ twentyNames.drop 4,
      ∃ entry ∈ (twentyNames.foldl (DnsUpdate.perform 100) (dnsCacheClear (dnsStart 5).cache)).entries,
        entry.valid = true ∧ lowerName entry.hostname = lowerName update.hostname := by
  have ascending : (twentyAddresses.Pairwise fun earlier later => earlier.ticks ≤ later.ticks) ∧
      twentyNames.Pairwise fun earlier later => earlier.ticks ≤ later.ticks := by decide +kernel
  have valid : (∀ update ∈ twentyAddresses, update.Valid) ∧ ∀ update ∈ twentyNames, update.Valid := by
    simp only [ArpUpdate.Valid, DnsUpdate.Valid]
    decide +kernel
  obtain ⟨arp, dns⟩ := caches_keep_recent
  constructor
  · have few : ∀ update ∈ twentyAddresses.drop 4,
        (othersSince (twentyAddresses.map ArpUpdate.use) update.use).card < arpCacheSize := by decide +kernel
    intro update member
    have kept := (arp lanWorld lanState twentyAddresses rfl valid.1 ascending.1).2 update
      (List.mem_of_mem_drop member)
    exact kept.resolve_right (Nat.not_le_of_lt (few update member))
  · have few : ∀ update ∈ twentyNames.drop 4,
        (othersSince (twentyNames.map DnsUpdate.use) update.use).card < dnsCacheSize := by decide +kernel
    intro update member
    have kept := (dns 100 (dnsStart 5).cache twentyNames valid.2 ascending.2).2 update
      (List.mem_of_mem_drop member)
    exact kept.resolve_right (Nat.not_le_of_lt (few update member))

/-- Eighteen addresses of one tick: the last takes the slot of the last but one. -/
theorem burst_evicts :
    let burst := (List.range 18).map fun i => (⟨UInt32.ofNat (i + 1), lanMac 2, 5⟩ : ArpUpdate)
    (∀ update ∈ burst, update.Valid) ∧
    (burst.Pairwise fun earlier later => earlier.ticks ≤ later.ticks) ∧
      (((burst.take 17).foldl (ArpUpdate.perform lanWorld) lanState).arpCache.any fun entry =>
        entry.valid && entry.ip == 17) = true ∧
      ((burst.foldl (ArpUpdate.perform lanWorld) lanState).arpCache.any fun entry =>
        entry.valid && entry.ip == 17) = false := by
  refine ⟨?_, ?_, ?_, ?_⟩
  · simp only [ArpUpdate.Valid]
    decide +kernel
  · decide +kernel
  · decide +kernel
  · decide +kernel

end Szczupak
