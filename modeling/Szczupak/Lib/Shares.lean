import Mathlib.Data.Set.Basic

/-!
Things in use that are divided into shares: everything in use lies in exactly one share, and the
shares hold nothing else.
-/

namespace Szczupak

structure Divided {Owner Thing : Type} (share : Owner → Set Thing) (used : Set Thing) : Prop where
  within : ∀ owner, share owner ⊆ used
  covers : ∀ thing ∈ used, ∃ owner, thing ∈ share owner
  apart : ∀ first second thing, thing ∈ share first → thing ∈ share second → first = second

section Divided

variable {Owner Other Thing : Type} {share after : Owner → Set Thing} {used usedAfter : Set Thing}

theorem divided_iff : Divided share used ↔
    (∀ owner, share owner ⊆ used) ∧ ∀ thing ∈ used, ∃! owner, thing ∈ share owner := by
  constructor
  · intro divided
    refine ⟨divided.within, fun thing inUse => ?_⟩
    obtain ⟨owner, owns⟩ := divided.covers thing inUse
    exact ⟨owner, owns, fun other also => divided.apart other owner thing also owns⟩
  · rintro ⟨within, owner⟩
    refine ⟨within, fun thing inUse => (owner thing inUse).exists, fun first second thing owns also => ?_⟩
    exact (owner thing (within first owns)).unique owns also

theorem Divided.change (divided : Divided share used) (owner : Owner)
    (others : ∀ other, other ≠ owner → after other = share other)
    (fresh : ∀ thing ∈ after owner, thing ∈ share owner ∨ thing ∉ used)
    (now : ∀ thing, thing ∈ usedAfter ↔ thing ∈ after owner ∨ thing ∈ used ∧ thing ∉ share owner) :
    Divided after usedAfter := by
  have apartFrom : ∀ other thing, other ≠ owner → thing ∈ after other → thing ∈ used ∧
    thing ∉ share owner := by
    intro other thing different owns
    rw [others other different] at owns
    exact ⟨divided.within other owns, fun also => different (divided.apart other owner thing owns also)⟩
  have notBoth : ∀ other thing, other ≠ owner → thing ∈ after other → thing ∉ after owner := by
    intro other thing different owns also
    obtain ⟨inUse, notShare⟩ := apartFrom other thing different owns
    exact (fresh thing also).elim notShare fun unused => unused inUse
  refine ⟨fun other thing owns => ?_, fun thing inUse => ?_, fun first second thing owns also => ?_⟩
  · by_cases same : other = owner
    · exact (now thing).mpr (Or.inl (same ▸ owns))
    · exact (now thing).mpr (Or.inr (apartFrom other thing same owns))
  · rcases (now thing).mp inUse with owns | ⟨before, notShare⟩
    · exact ⟨owner, owns⟩
    · obtain ⟨other, owns⟩ := divided.covers thing before
      have different : other ≠ owner := fun same => notShare (same ▸ owns)
      exact ⟨other, (others other different).symm ▸ owns⟩
  · by_cases isFirst : first = owner
    · by_cases isSecond : second = owner
      · rw [isFirst, isSecond]
      · exact absurd (isFirst ▸ owns) (notBoth second thing isSecond also)
    · by_cases isSecond : second = owner
      · exact absurd (isSecond ▸ also) (notBoth first thing isFirst owns)
      · rw [others first isFirst] at owns
        rw [others second isSecond] at also
        exact divided.apart first second thing owns also

theorem Divided.rename (divided : Divided share used) {renamed : Other → Set Thing}
    (origin : Other → Owner)
    (from' : ∀ owner thing, thing ∈ renamed owner → thing ∈ share (origin owner))
    (to' : ∀ owner thing, thing ∈ share owner → ∃ other, thing ∈ renamed other)
    (once : ∀ first second thing, thing ∈ renamed first → thing ∈ renamed second →
      origin first = origin second → first = second) : Divided renamed used := by
  refine ⟨fun owner thing owns => divided.within _ (from' owner thing owns), fun thing inUse => ?_,
    fun first second thing owns also => ?_⟩
  · obtain ⟨owner, owns⟩ := divided.covers thing inUse
    exact to' owner thing owns
  · exact once first second thing owns also
      (divided.apart _ _ thing (from' first thing owns) (from' second thing also))

end Divided

end Szczupak
