import Mathlib.Data.List.Perm.Basic

/-!
A set of items, one of which takes in every item that it meets.  The scan starts again after
each item taken in, since the larger item may meet those that were passed.
-/

namespace Szczupak

variable {Item : Type}

/-- The last item takes the place of the one at `i`. -/
def swapRemove (items : List Item) (i : Nat) : List Item :=
  match items.getLast? with
  | none => items
  | some last => (items.set i last).dropLast

/-- `none` when the turns run out. -/
def absorb (meets : Item → Item → Bool) (join : Item → Item → Item) :
    Nat → List Item → Item → Nat → Option (List Item × Item)
  | 0, _, _, _ => none
  | turns + 1, items, merged, i =>
      match items[i]? with
      | none => some (items, merged)
      | some item =>
          if meets item merged then absorb meets join turns (swapRemove items i) (join item merged) 0
          else absorb meets join turns items merged (i + 1)

theorem swapRemove_perm {items : List Item} {i : Nat} {item : Item}
    (found : items[i]? = some item) : items.Perm (item :: swapRemove items i) := by
  obtain ⟨bound, here⟩ := List.getElem?_eq_some_iff.mp found
  rcases List.eq_nil_or_concat' items with rfl | ⟨init, last, rfl⟩
  · simp at bound
  · have removed : swapRemove (init ++ [last]) i = ((init ++ [last]).set i last).dropLast := by
      simp [swapRemove]
    rw [removed]
    by_cases inner : i < init.length
    · have sameItem : init[i] = item := by
        rw [← here]
        exact (List.getElem_append_left inner).symm
      rw [List.set_append_left i last inner, List.dropLast_concat]
      calc init ++ [last]
        _ |>.Perm (last :: init) := List.perm_append_singleton last init
        _ |>.Perm (last :: item :: init.eraseIdx i) := by
            rw [← sameItem]
            exact (List.getElem_cons_eraseIdx_perm inner).symm.cons last
        _ |>.Perm (item :: last :: init.eraseIdx i) := List.Perm.swap item last _
        _ |>.Perm (item :: init.set i last) := (List.set_perm_cons_eraseIdx inner last).symm.cons item
    · have atEnd : i = init.length := by
        simp at bound
        omega
      subst atEnd
      have sameItem : last = item := by
        rw [← here]
        simp
      rw [List.set_append_right _ _ (Nat.le_refl _)]
      simp only [Nat.sub_self, List.set_cons_zero, List.dropLast_concat, ← sameItem]
      exact List.perm_append_singleton last init

section Scan

variable {meets : Item → Item → Bool} {join : Item → Item → Item}

theorem absorb_returns {turns i : Nat} {items : List Item} {merged : Item}
    (bound : i ≤ items.length) (enough : (items.length + 1) * (items.length + 1) ≤ turns + i) :
    ∃ result, absorb meets join turns items merged i = some result := by
  induction turns generalizing items merged i with
  | zero =>
      have large : items.length + 1 ≤ (items.length + 1) * (items.length + 1) :=
        Nat.le_mul_of_pos_left _ (Nat.succ_pos _)
      omega
  | succ turns ih =>
      rw [absorb]
      split
      next => exact ⟨_, rfl⟩
      next item found =>
        obtain ⟨inside, _⟩ := List.getElem?_eq_some_iff.mp found
        have shorter := (swapRemove_perm found).length_eq
        rw [List.length_cons] at shorter
        split
        · refine ih (Nat.zero_le _) ?_
          have square : (items.length + 1) * (items.length + 1) =
              items.length * items.length + 2 * items.length + 1 := by
            simp only [Nat.add_mul, Nat.mul_add]
            omega
          rw [← shorter]
          omega
        · exact ih inside (by omega)

theorem absorb_spec {invariant : List Item → Item → Prop}
    (takes : ∀ items item rest merged, items.Perm (item :: rest) → meets item merged = true →
      invariant items merged → invariant rest (join item merged))
    {turns i : Nat} {items kept : List Item} {merged final : Item} (holds : invariant items merged)
    (passed : ∀ j < i, ∀ item, items[j]? = some item → meets item merged = false)
    (result : absorb meets join turns items merged i = some (kept, final)) :
    invariant kept final ∧ ∀ item ∈ kept, meets item final = false := by
  induction turns generalizing items merged i with
  | zero => simp [absorb] at result
  | succ turns ih =>
      rw [absorb] at result
      split at result
      next ended =>
        cases result
        refine ⟨holds, fun item member => ?_⟩
        obtain ⟨j, found⟩ := List.mem_iff_getElem?.mp member
        refine passed j ?_ item found
        obtain ⟨inside, _⟩ := List.getElem?_eq_some_iff.mp found
        have beyond := List.getElem?_eq_none_iff.mp ended
        omega
      next item found =>
        split at result
        next met =>
          refine ih (takes items item _ merged (swapRemove_perm found) met holds) ?_ result
          intro j before
          omega
        next apart =>
          refine ih holds ?_ result
          intro j before other otherFound
          by_cases last : j = i
          · subst last
            rw [found, Option.some.injEq] at otherFound
            subst otherFound
            exact Bool.not_eq_true _ |>.mp apart
          · exact passed j (by omega) other otherFound

end Scan

end Szczupak
