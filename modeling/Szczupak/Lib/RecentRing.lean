import Mathlib.Data.List.Basic
import Mathlib.Data.Nat.ModEq

/-!
A circular buffer that is written over when it is full: it holds the latest values.
-/

namespace Szczupak

structure RecentRing (α : Type) where
  data : Nat → α
  next : Nat
  count : Nat

namespace RecentRing

variable {α : Type} {capacity : Nat} {ring : RecentRing α} {values : List α}

def clear (ring : RecentRing α) : RecentRing α := { ring with next := 0, count := 0 }

def push (capacity : Nat) (ring : RecentRing α) (value : α) : RecentRing α where
  data := fun index => if index = ring.next then value else ring.data index
  next := (ring.next + 1) % capacity
  count := if ring.count < capacity then ring.count + 1 else ring.count

def cellsFrom (capacity : Nat) (ring : RecentRing α) (start length : Nat) : List α :=
  (List.range length).map fun index => ring.data ((start + index) % capacity)

structure Holds (capacity : Nat) (ring : RecentRing α) (values : List α) : Prop where
  next : ring.next = values.length % capacity
  count : ring.count = min values.length capacity
  data : ∀ index value, values.length ≤ index + capacity → values[index]? = some value →
    ring.data (index % capacity) = value

theorem holds_clear : ring.clear.Holds capacity [] :=
  ⟨(Nat.zero_mod _).symm, (Nat.zero_min _).symm, fun _ _ _ here => by simp at here⟩

theorem Holds.push (holds : ring.Holds capacity values) (value : α) :
    (ring.push capacity value).Holds capacity (values ++ [value]) := by
  have longer : (values ++ [value]).length = values.length + 1 := List.length_append
  refine ⟨?_, ?_, fun index other late here => ?_⟩
  · rw [longer, RecentRing.push, holds.next, Nat.mod_add_mod]
  · rw [longer]
    simp only [RecentRing.push, holds.count]
    split <;> omega
  · rw [longer] at late
    rcases Nat.lt_or_ge index values.length with before | behind
    · rw [List.getElem?_append_left before] at here
      have different : index % capacity ≠ ring.next := by
        rw [holds.next]
        intro same
        have step := (Nat.modEq_iff_dvd' (Nat.le_of_lt before)).mp
          (show index ≡ values.length [MOD capacity] from same)
        have large := Nat.le_of_dvd (by omega) step
        omega
      rw [RecentRing.push]
      dsimp only
      rw [if_neg different]
      exact holds.data index other (by omega) here
    · rw [List.getElem?_append_right behind] at here
      obtain ⟨bound, isOther⟩ := List.getElem?_eq_some_iff.mp here
      rw [List.length_singleton] at bound
      rw [RecentRing.push, holds.next, show index = values.length by omega]
      dsimp only
      rw [if_pos rfl, ← isOther, List.getElem_singleton]

theorem Holds.latest (holds : ring.Holds capacity values) (positive : 0 < capacity) {value : α} :
    (ring.count > 0 ∧ ring.data ((ring.next + capacity - 1) % capacity) = value) ↔
    values.getLast? = some value := by
  have count := holds.count
  rw [List.getLast?_eq_getElem?]
  rcases Nat.eq_zero_or_pos values.length with empty | some
  · rw [List.getElem?_eq_none (by omega)]
    exact ⟨fun both => by omega, fun none => by cases none⟩
  · have place : (ring.next + capacity - 1) % capacity = (values.length - 1) % capacity := by
      have around : values.length % capacity + capacity - 1 = values.length % capacity +
        (capacity - 1) := by omega
      rw [holds.next, around, Nat.mod_add_mod, show values.length + (capacity - 1) =
        values.length - 1 + capacity by omega, Nat.add_mod_right]
    have bound : values.length - 1 < values.length := by omega
    rw [place, holds.data _ _ (by omega) (List.getElem?_eq_getElem bound),
      List.getElem?_eq_getElem bound, and_iff_right (by omega), Option.some.injEq]

theorem Holds.cellsFrom (holds : ring.Holds capacity values) {length start : Nat}
    (some : length ≤ ring.count) (begins : start % capacity = (values.length - length) % capacity) :
    ring.cellsFrom capacity start length = values.drop (values.length - length) := by
  have count := holds.count
  apply List.ext_getElem?
  intro index
  rw [List.getElem?_drop, RecentRing.cellsFrom, List.getElem?_map]
  by_cases inside : index < length
  · have bound : values.length - length + index < values.length := by omega
    have place : (start + index) % capacity = (values.length - length + index) % capacity :=
      Nat.ModEq.add_right index begins
    rw [List.getElem?_range inside, List.getElem?_eq_getElem bound, Option.map_some, place]
    exact congrArg _ (holds.data _ _ (by omega) (List.getElem?_eq_getElem bound))
  · rw [List.getElem?_eq_none (by rw [List.length_range]; omega), List.getElem?_eq_none (by omega)]
    rfl

end RecentRing

end Szczupak
