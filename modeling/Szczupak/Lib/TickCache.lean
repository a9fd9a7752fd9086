import Mathlib.Data.Finset.Card
import Mathlib.Data.List.Induction

/-!
Caches whose slots keep the tick of their last use, on a clock that many uses may share.  A use
takes the slot of its key, or else a free slot, or else one of those used longest ago.
-/

namespace Szczupak

structure CacheUse (Key : Type) where
  key : Key
  tick : Nat

abbrev CacheSlots (Key : Type) := List (Option (CacheUse Key))

inductive TakesSlot {Key : Type} (slots : CacheSlots Key) (use : CacheUse Key) : CacheSlots Key → Prop
  | refresh {i : Nat} {old : CacheUse Key} (here : slots[i]? = some (some old))
      (same : old.key = use.key) : TakesSlot slots use (slots.set i (some use))
  | store {i : Nat} (inside : i < slots.length) (fresh : ∀ old, some old ∈ slots →
      old.key ≠ use.key) (oldest : ∀ old, slots[i]? = some (some old) →
        none ∉ slots ∧ ∀ other, some other ∈ slots → old.tick ≤ other.tick) :
      TakesSlot slots use (slots.set i (some use))

section Caches

variable {Key : Type} {slots after : CacheSlots Key} {history more : List (CacheUse Key)}
  {use : CacheUse Key} {size : Nat}

theorem getElem?_set_cases {Slot : Type} {cells : List Slot} {i j : Nat} {new cell : Slot}
    (found : (cells.set i new)[j]? = some cell) : j = i ∧ cell = new ∨ j ≠ i ∧
    cells[j]? = some cell := by
  rw [List.getElem?_set] at found
  by_cases here : i = j
  · rw [if_pos here] at found
    split at found
    · exact Or.inl ⟨here.symm, (Option.some.inj found).symm⟩
    · contradiction
  · rw [if_neg here] at found
    exact Or.inr ⟨fun same => here same.symm, found⟩

variable [DecidableEq Key]

/-- The other keys that were used since the tick of a use began. -/
def othersSince (history : List (CacheUse Key)) (use : CacheUse Key) : Finset Key :=
  ((history.filter fun other => use.tick ≤ other.tick ∧ other.key ≠ use.key).map CacheUse.key).toFinset

theorem mem_othersSince {key : Key} :
    key ∈ othersSince history use ↔ ∃ other ∈ history, use.tick ≤ other.tick ∧ other.key ≠ use.key ∧
    other.key = key := by
  simp [othersSince, and_assoc]

theorem othersSince_append : othersSince history use ⊆ othersSince (history ++ more) use := by
  intro key member
  obtain ⟨other, earlier, holds⟩ := mem_othersSince.mp member
  exact mem_othersSince.mpr ⟨other, List.mem_append_left _ earlier, holds⟩

/-- One slot a key with its latest use.  A key without a slot made way for `size` others, counted
from the beginning of the tick of its use. -/
structure KeepsRecent (size : Nat) (history : List (CacheUse Key)) (slots : CacheSlots Key) : Prop where
  length : slots.length = size
  unique : ∀ (i j : Nat) (one two : CacheUse Key), slots[i]? = some (some one) →
    slots[j]? = some (some two) → one.key = two.key → i = j
  recorded : ∀ old, some old ∈ slots → old ∈ history
  latest : ∀ old, some old ∈ slots → ∀ use ∈ history, use.key = old.key → use.tick ≤ old.tick
  kept : ∀ use ∈ history, (∃ old, some old ∈ slots ∧ old.key = use.key) ∨
    size ≤ (othersSince history use).card

theorem KeepsRecent.empty : KeepsRecent size ([] : List (CacheUse Key)) (List.replicate size none) := by
  have none_ : ∀ old : CacheUse Key, some old ∉ List.replicate size none := by
    intro old member
    cases List.eq_of_mem_replicate member
  constructor
  · exact List.length_replicate
  · intro i j one two oneAt
    exact absurd (List.mem_of_getElem? oneAt) (none_ one)
  · exact fun old member => absurd member (none_ old)
  · exact fun old member => absurd member (none_ old)
  · simp

theorem TakesSlot.place (takes : TakesSlot slots use after)
    (recent : KeepsRecent size history slots) : ∃ i < size, after = slots.set i (some use) ∧
      (∀ j old, j ≠ i → slots[j]? = some (some old) → old.key ≠ use.key) ∧
      ∀ old, slots[i]? = some (some old) → old.key ≠ use.key →
        none ∉ slots ∧ ∀ other, some other ∈ slots → old.tick ≤ other.tick := by
  cases takes with
  | @refresh i old here same =>
      refine ⟨i, ?_, rfl, ?_, ?_⟩
      · rw [← recent.length]
        exact (List.getElem?_eq_some_iff.mp here).1
      · intro j other elsewhere there equal
        exact elsewhere (recent.unique j i other old there here (equal.trans same.symm))
      · intro other there different
        rw [here] at there
        cases there
        exact absurd same different
  | @store i inside fresh oldest =>
      refine ⟨i, recent.length ▸ inside, rfl, ?_, ?_⟩
      · intro j old _ there
        exact fresh old (List.mem_of_getElem? there)
      · intro old here _
        exact oldest old here

theorem full_others (length : after.length = size) (full : none ∉ after)
    (unique : ∀ (i j : Nat) (one two : CacheUse Key), after[i]? = some (some one) →
      after[j]? = some (some two) → one.key = two.key → i = j)
    (recent : ∀ old, some old ∈ after → old ∈ history ∧ use.tick ≤ old.tick ∧ old.key ≠ use.key) :
    size ≤ (othersSince history use).card := by
  have held : ∀ i < size, ∃ old, after[i]? = some (some old) := by
    intro i bound
    cases slot : after[i]? with
    | none =>
        rw [List.getElem?_eq_none_iff] at slot
        omega
    | some held =>
        cases held with
        | none => exact absurd (List.mem_of_getElem? slot) full
        | some old => exact ⟨old, rfl⟩
  have : Nonempty (CacheUse Key) := ⟨use⟩
  choose! old oldAt using held
  rw [← Finset.card_range size]
  apply Finset.card_le_card_of_injOn fun i => (old i).key
  · intro i member
    have bound := Finset.mem_range.mp (Finset.mem_coe.mp member)
    obtain ⟨known, later, other⟩ := recent (old i) (List.mem_of_getElem? (oldAt i bound))
    exact Finset.mem_coe.mpr (mem_othersSince.mpr ⟨old i, known, later, other, rfl⟩)
  · intro i member j other same
    have bound := Finset.mem_range.mp (Finset.mem_coe.mp member)
    have otherBound := Finset.mem_range.mp (Finset.mem_coe.mp other)
    exact unique i j _ _ (oldAt i bound) (oldAt j otherBound) same

theorem KeepsRecent.take (recent : KeepsRecent size history slots) (takes : TakesSlot slots use after)
    (past : ∀ earlier ∈ history, earlier.tick ≤ use.tick) :
    KeepsRecent size (history ++ [use]) after := by
  obtain ⟨i, inside, rfl, others, oldest⟩ := takes.place recent
  have here : (slots.set i (some use))[i]? = some (some use) := by
    rw [List.getElem?_set_self (by rw [recent.length]; exact inside)]
  have length : (slots.set i (some use)).length = size := by rw [List.length_set, recent.length]
  have unique : ∀ (j k : Nat) (one two : CacheUse Key), (slots.set i (some use))[j]? = some (some one) →
      (slots.set i (some use))[k]? = some (some two) → one.key = two.key → j = k := by
    intro j k one two oneAt twoAt same
    rcases getElem?_set_cases oneAt with ⟨rfl, oneIs⟩ | ⟨elsewhere, oneBefore⟩
    · rcases getElem?_set_cases twoAt with ⟨rfl, _⟩ | ⟨elsewhere, twoBefore⟩
      · rfl
      · cases oneIs
        exact absurd same.symm (others k two elsewhere twoBefore)
    · rcases getElem?_set_cases twoAt with ⟨rfl, twoIs⟩ | ⟨_, twoBefore⟩
      · cases twoIs
        exact absurd same (others j one elsewhere oneBefore)
      · exact recent.unique j k one two oneBefore twoBefore same
  have held : ∀ old, some old ∈ slots.set i (some use) → old = use ∨ some old ∈ slots ∧
    old.key ≠ use.key := by
    intro old member
    obtain ⟨j, there⟩ := List.mem_iff_getElem?.mp member
    rcases getElem?_set_cases there with ⟨_, is⟩ | ⟨elsewhere, before⟩
    · exact Or.inl (Option.some.inj is)
    · exact Or.inr ⟨List.mem_of_getElem? before, others j old elsewhere before⟩
  refine ⟨length, unique, ?_, ?_, ?_⟩
  · intro old member
    rcases held old member with rfl | ⟨before, _⟩
    · simp
    · exact List.mem_append_left _ (recent.recorded old before)
  · intro old member earlier known same
    rcases List.mem_append.mp known with before | new
    · rcases held old member with rfl | ⟨oldBefore, _⟩
      · exact past earlier before
      · exact recent.latest old oldBefore earlier before same
    · rw [List.mem_singleton] at new
      rcases held old member with rfl | ⟨_, different⟩
      · rw [new]
      · exact absurd (new ▸ same.symm) different
  · intro earlier known
    rcases List.mem_append.mp known with known | new
    · rcases recent.kept earlier known with ⟨old, member, same⟩ | gone
      · obtain ⟨j, there⟩ := List.mem_iff_getElem?.mp member
        by_cases elsewhere : j ≠ i
        · refine Or.inl ⟨old, ?_, same⟩
          rw [← List.getElem?_set_ne (Ne.symm elsewhere)] at there
          exact List.mem_of_getElem? there
        · rw [not_not.mp elsewhere] at there
          by_cases mine : old.key = use.key
          · exact Or.inl ⟨use, List.mem_of_getElem? here, mine.symm.trans same⟩
          · obtain ⟨full, least⟩ := oldest old there mine
            right
            apply full_others length ?_ unique
            · intro other otherMember
              have otherKnown : other ∈ history ++ [use] ∧ old.tick ≤ other.tick ∧ other.key ≠ old.key := by
                obtain ⟨k, otherAt⟩ := List.mem_iff_getElem?.mp otherMember
                rcases getElem?_set_cases otherAt with ⟨_, is⟩ | ⟨apart, before⟩
                · cases is
                  exact ⟨by simp, past old (recent.recorded old member), fun equal => mine equal.symm⟩
                · have otherBefore := List.mem_of_getElem? before
                  refine ⟨List.mem_append_left _ (recent.recorded other otherBefore),
                    least other otherBefore, ?_⟩
                  exact fun equal => apart (recent.unique k i other old before there equal)
              have latest := recent.latest old member earlier known same.symm
              exact ⟨otherKnown.1, latest.trans otherKnown.2.1, same ▸ otherKnown.2.2⟩
            · intro free
              obtain ⟨k, freeAt⟩ := List.mem_iff_getElem?.mp free
              rcases getElem?_set_cases freeAt with ⟨_, is⟩ | ⟨_, before⟩
              · contradiction
              · exact full (List.mem_of_getElem? before)
      · exact Or.inr (gone.trans (Finset.card_le_card othersSince_append))
    · rw [List.mem_singleton] at new
      exact Or.inl ⟨use, List.mem_of_getElem? here, by rw [new]⟩

theorem KeepsRecent.run {State Update : Type} {step : State → Update → State}
    {slotsOf : State → CacheSlots Key}
    {useOf : Update → CacheUse Key} {start : State} {updates : List Update}
    (takes : ∀ state, ∀ update ∈ updates, (slotsOf state).length = size →
      TakesSlot (slotsOf state) (useOf update) (slotsOf (step state update)))
    (ascending : updates.Pairwise fun earlier later => (useOf earlier).tick ≤ (useOf later).tick)
    (empty : slotsOf start = List.replicate size none) :
    KeepsRecent size (updates.map useOf) (slotsOf (updates.foldl step start)) := by
  induction updates using List.reverseRecOn with
  | nil =>
      rw [List.foldl_nil, empty]
      exact .empty
  | append_singleton updates update ih =>
      rw [List.pairwise_append] at ascending
      have recent := ih (fun state earlier member => takes state earlier (by simp [member])) ascending.1
      rw [List.foldl_append, List.map_append]
      apply recent.take
      · exact takes _ update (by simp) recent.length
      · intro earlier member
        obtain ⟨before, known, rfl⟩ := List.mem_map.mp member
        exact ascending.2.2 before known update (by simp)

end Caches

end Szczupak
