import Mathlib.Data.List.Basic
import Mathlib.Data.Nat.ModEq
import Mathlib.Tactic.Ring

/-!
A circular buffer with a write position, a read position and a count.  What it holds is a
list; pushing appends to the list and popping takes its head.
-/

namespace Szczupak

structure Ring (α : Type) where
  data : Nat → α
  head : Nat
  tail : Nat
  count : Nat

namespace Ring

variable {α : Type} {capacity : Nat}

def reset (ring : Ring α) : Ring α := { ring with head := 0, tail := 0, count := 0 }

def push (capacity : Nat) (ring : Ring α) (value : α) : Option (Ring α) :=
  if ring.count ≥ capacity then none
  else
    some {
      data := fun index => if index = ring.head then value else ring.data index
      head := (ring.head + 1) % capacity
      tail := ring.tail
      count := ring.count + 1 }

def pop (capacity : Nat) (ring : Ring α) : Option (α × Ring α) :=
  if ring.count = 0 then none
  else
    some (ring.data ring.tail, { ring with tail := (ring.tail + 1) % capacity, count := ring.count - 1 })

/-- Values pushed until the ring is full, with how many were taken. -/
def pushAll (capacity : Nat) (ring : Ring α) : List α → Nat × Ring α
  | [] => (0, ring)
  | value :: rest =>
      match ring.push capacity value with
      | none => (0, ring)
      | some pushed =>
          let (taken, final) := pushAll capacity pushed rest
          (taken + 1, final)

def popUpTo (capacity : Nat) : Nat → Ring α → List α × Ring α
  | 0, ring => ([], ring)
  | limit + 1, ring =>
      match ring.pop capacity with
      | none => ([], ring)
      | some (value, popped) =>
          let (values, final) := popUpTo capacity limit popped
          (value :: values, final)

def contents (capacity : Nat) (ring : Ring α) : List α :=
  (List.range ring.count).map fun offset => ring.data ((ring.tail + offset) % capacity)

structure WellFormed (capacity : Nat) (ring : Ring α) : Prop where
  fits : ring.count ≤ capacity
  start : ring.tail < capacity
  head : ring.head = (ring.tail + ring.count) % capacity

theorem reset_wellFormed (positive : 0 < capacity) (ring : Ring α) : ring.reset.WellFormed capacity :=
  ⟨Nat.zero_le _, positive, by simp [reset]⟩

@[simp] theorem reset_contents (ring : Ring α) : ring.reset.contents capacity = [] := rfl

theorem cell_ne {start first second : Nat} (less : first < second) (bound : second < capacity) :
    (start + first) % capacity ≠ (start + second) % capacity := by
  intro same
  have modular : start + first ≡ start + second [MOD capacity] := same
  have offsets := Nat.ModEq.add_left_cancel' start modular
  have firstSmall := Nat.mod_eq_of_lt (Nat.lt_trans less bound)
  have secondSmall := Nat.mod_eq_of_lt bound
  unfold Nat.ModEq at offsets
  omega

theorem push_spec {ring pushed : Ring α} {value : α} (wellFormed : ring.WellFormed capacity)
    (done : ring.push capacity value = some pushed) :
    pushed.WellFormed capacity ∧ pushed.contents capacity = ring.contents capacity ++ [value] := by
  unfold push at done
  split at done
  · cases done
  · rename_i room
    cases done
    have fits : ring.count + 1 ≤ capacity := by omega
    refine ⟨⟨fits, wellFormed.start, ?_⟩, ?_⟩
    · simp only [wellFormed.head, Nat.mod_add_mod]
      rfl
    · unfold contents
      simp only [List.range_succ, List.map_append, List.map_cons, List.map_nil, wellFormed.head, if_true]
      congr 1
      apply List.map_congr_left
      intro offset member
      rw [List.mem_range] at member
      rw [if_neg (cell_ne member (by omega))]

theorem pop_spec {ring popped : Ring α} {value : α} (wellFormed : ring.WellFormed capacity)
    (done : ring.pop capacity = some (value, popped)) :
    popped.WellFormed capacity ∧ ring.contents capacity = value :: popped.contents capacity := by
  unfold pop at done
  split at done
  · cases done
  · rename_i some
    cases done
    have fits := wellFormed.fits
    have start := wellFormed.start
    obtain ⟨rest, counted⟩ : ∃ rest, ring.count = rest + 1 := ⟨ring.count - 1, by omega⟩
    refine ⟨⟨?_, ?_, ?_⟩, ?_⟩
    · exact Nat.le_trans (Nat.sub_le _ _) fits
    · exact Nat.mod_lt _ (by omega)
    · simp only [wellFormed.head, counted, Nat.add_sub_cancel, Nat.mod_add_mod]
      congr 1
      omega
    · unfold contents
      simp only [counted, Nat.add_sub_cancel, List.range_succ_eq_map, List.map_cons, List.map_map,
        Nat.add_zero, Nat.mod_eq_of_lt start]
      congr 1
      apply List.map_congr_left
      intro offset _
      simp only [Function.comp, Nat.mod_add_mod]
      congr 2
      omega

theorem pushAll_spec (values : List α) {ring : Ring α} (wellFormed : ring.WellFormed capacity) :
    (ring.pushAll capacity values).2.WellFormed capacity ∧
      (ring.pushAll capacity values).2.contents capacity =
        ring.contents capacity ++ values.take (ring.pushAll capacity values).1 := by
  induction values generalizing ring with
  | nil => simpa [pushAll] using wellFormed
  | cons value rest ih =>
      unfold pushAll
      split
      · simpa using wellFormed
      · rename_i pushed done
        obtain ⟨kept, appended⟩ := push_spec wellFormed done
        obtain ⟨final, contents⟩ := ih kept
        refine ⟨final, ?_⟩
        simp only [contents, appended, List.take_succ_cons, List.append_assoc, List.singleton_append]

theorem popUpTo_spec (limit : Nat) {ring : Ring α} (wellFormed : ring.WellFormed capacity) :
    (popUpTo capacity limit ring).2.WellFormed capacity ∧
      ring.contents capacity =
        (popUpTo capacity limit ring).1 ++ (popUpTo capacity limit ring).2.contents capacity := by
  induction limit generalizing ring with
  | zero => exact ⟨wellFormed, rfl⟩
  | succ limit ih =>
      unfold popUpTo
      split
      · exact ⟨wellFormed, rfl⟩
      · rename_i value popped done
        obtain ⟨kept, front⟩ := pop_spec wellFormed done
        obtain ⟨final, contents⟩ := ih kept
        refine ⟨final, ?_⟩
        simp only [front, List.cons_append, List.cons.injEq, true_and]
        exact contents

theorem pushAll_taken (values : List α) (ring : Ring α) :
    (ring.pushAll capacity values).1 = min values.length (capacity - ring.count) ∧
      (ring.pushAll capacity values).2.count = ring.count + (ring.pushAll capacity values).1 := by
  induction values generalizing ring with
  | nil => simp [pushAll]
  | cons value rest ih =>
      rw [pushAll]
      by_cases full : ring.count ≥ capacity
      · have refused : ring.push capacity value = none := if_pos full
        simp only [refused, List.length_cons]
        omega
      · obtain ⟨pushed, done, grown⟩ : ∃ pushed, ring.push capacity value = some pushed ∧
            pushed.count = ring.count + 1 := ⟨_, if_neg full, rfl⟩
        obtain ⟨taken, count⟩ := ih pushed
        simp only [done, List.length_cons, count]
        omega

theorem popUpTo_count (limit : Nat) (ring : Ring α) :
    (popUpTo capacity limit ring).1.length = min limit ring.count ∧
      (popUpTo capacity limit ring).2.count = ring.count - min limit ring.count := by
  induction limit generalizing ring with
  | zero => simp [popUpTo]
  | succ limit ih =>
      rw [popUpTo, pop]
      by_cases empty : ring.count = 0
      · simp [empty]
      · simp only [if_neg empty, ih, List.length_cons]
        omega

end Ring

end Szczupak
