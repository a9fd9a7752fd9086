import Mathlib.Data.List.Basic

/-!
Texts with separators: the first place of one, as a search from the front finds it,
and the last one, as a walk over the whole text keeps it.
-/

namespace Szczupak

section Separators

variable {α : Type} {sep : α} {front rest text : List α}

theorem last_separator (member : sep ∈ text) : ∃ front rest, text = front ++ sep :: rest ∧
    sep ∉ rest := by
  obtain ⟨before, after, reversed, without⟩ := List.eq_append_cons_of_mem (List.mem_reverse.mpr member)
  refine ⟨after.reverse, before.reverse, ?_, by simpa using without⟩
  simpa using congrArg List.reverse reversed

theorem first_separator (sep : α) (text : List α) :
    ∃ front rest, text = front ++ rest ∧ sep ∉ front ∧ (rest = [] ∨ ∃ tail, rest = sep :: tail) := by
  by_cases member : sep ∈ text
  · obtain ⟨front, tail, same, without⟩ := List.eq_append_cons_of_mem member
    exact ⟨front, sep :: tail, same, without, .inr ⟨tail, rfl⟩⟩
  · exact ⟨text, [], (List.append_nil text).symm, member, .inl rfl⟩

variable [DecidableEq α]

def lastFrom (sep : α) : List α → Nat → Option Nat → Option Nat
  | [], _, found => found
  | c :: text, index, found => lastFrom sep text (index + 1) (if c = sep then some index else found)

def lastPlace (sep : α) (text : List α) : Option Nat := lastFrom sep text 0 none

theorem lastFrom_without (without : sep ∉ text) (index : Nat) (found : Option Nat) :
    lastFrom sep text index found = found := by
  induction text generalizing index with
  | nil => rfl
  | cons c text ih =>
      rw [List.mem_cons, not_or] at without
      rw [lastFrom, if_neg (Ne.symm without.1), ih without.2]

theorem lastFrom_split (without : sep ∉ rest) (index : Nat) (found : Option Nat) :
    lastFrom sep (front ++ sep :: rest) index found = some (index + front.length) := by
  induction front generalizing index found with
  | nil =>
      rw [List.nil_append, lastFrom, if_pos rfl, lastFrom_without without]
      rfl
  | cons c front ih =>
      rw [List.cons_append, lastFrom, ih, List.length_cons]
      congr 1
      omega

theorem lastPlace_without (without : sep ∉ text) : lastPlace sep text = none :=
  lastFrom_without without 0 none

theorem lastPlace_split (without : sep ∉ rest) : lastPlace sep (front ++ sep :: rest) =
    some front.length := by
  rw [lastPlace, lastFrom_split without, Nat.zero_add]

theorem findIdx?_split (without : sep ∉ front) : (front ++ sep :: rest).findIdx? (· = sep) =
    some front.length := by
  induction front with
  | nil => rw [List.nil_append, List.findIdx?_cons, if_pos (by simp), List.length_nil]
  | cons c front ih =>
      rw [List.mem_cons, not_or] at without
      rw [List.cons_append, List.findIdx?_cons, ih without.2, List.length_cons]
      simp [Ne.symm without.1]

theorem findIdx?_without (without : sep ∉ text) : text.findIdx? (· = sep) = none := by
  rw [List.findIdx?_eq_none_iff]
  rintro c member
  rw [decide_eq_false_iff_not]
  rintro rfl
  exact without member

theorem first_separator_unique {front' rest' : List α} (same : front ++ rest = front' ++ rest')
    (without : sep ∉ front)
    (without' : sep ∉ front') (starts : rest = [] ∨ ∃ tail, rest = sep :: tail)
    (starts' : rest' = [] ∨ ∃ tail, rest' = sep :: tail) : front = front' ∧ rest = rest' := by
  refine List.append_inj same ?_
  obtain rfl | ⟨tail, rfl⟩ := starts <;> obtain rfl | ⟨tail', rfl⟩ := starts'
  · simpa using congrArg List.length same
  · rw [List.append_nil] at same
    exact absurd (same ▸ List.mem_append_right _ List.mem_cons_self) without
  · rw [List.append_nil] at same
    exact absurd (same ▸ List.mem_append_right _ List.mem_cons_self) without'
  · refine Option.some_inj.mp ?_
    rw [← findIdx?_split without, ← findIdx?_split without', same]

theorem last_separator_unique {front' rest' : List α}
    (same : front ++ sep :: rest = front' ++ sep :: rest')
    (without : sep ∉ rest) (without' : sep ∉ rest') : front = front' ∧ rest = rest' := by
  have fronts : front.length = front'.length := by
    refine Option.some_inj.mp ?_
    rw [← lastPlace_split without, ← lastPlace_split without', same]
  obtain ⟨fronts, rests⟩ := List.append_inj same fronts
  exact ⟨fronts, List.tail_eq_of_cons_eq rests⟩

end Separators

end Szczupak
