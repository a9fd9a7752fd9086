import Mathlib.Tactic.FinCases
import Szczupak.Desktop.Changes
import Szczupak.Desktop.InputCore

/-!
The order of the windows: it never loses one, and the active window is the topmost that is open.
-/

namespace Szczupak

theorem windowIdx_ofNat (i : Fin windowCount) : windowIdx (Int32.ofNat i) = some i := by
  fin_cases i <;> rfl

def Stacked (zOrder : Fin windowCount → Int32) : Prop :=
  ((List.finRange windowCount).map zOrder).Perm
    ((List.finRange windowCount).map fun (i : Fin windowCount) => Int32.ofNat i)

section Order

variable {zOrder : Fin windowCount → Int32} {windows others : Fin windowCount → DesktopWindow}
  {idx : Int32} {i : Fin windowCount}

theorem Stacked.place (stacked : Stacked zOrder) (i : Fin windowCount) : ∃ pos,
    zPosition zOrder (Int32.ofNat i) = some pos := by
  have member : Int32.ofNat i ∈ (List.finRange windowCount).map zOrder :=
    stacked.mem_iff.mpr (List.mem_map_of_mem (List.mem_finRange i))
  obtain ⟨pos, inside, found⟩ := List.mem_map.mp member
  have some' : (zPosition zOrder (Int32.ofNat i)).isSome := by
    rw [zPosition, List.find?_isSome]
    exact ⟨pos, inside, by simpa using found⟩
  exact Option.isSome_iff_exists.mp some'

theorem zPosition_spec {pos : Fin windowCount} (found : zPosition zOrder idx = some pos) :
    zOrder pos = idx := by
  simpa using List.find?_some found

theorem bringToFront_kept (unraised : (bringToFront zOrder idx).1 = false) :
    (bringToFront zOrder idx).2 = zOrder := by
  rw [bringToFront] at unraised ⊢
  generalize zPosition zOrder idx = place at unraised ⊢
  cases place with
  | none => rfl
  | some pos =>
      dsimp only at unraised ⊢
      by_cases last : pos = Fin.last (windowCount - 1)
      · rw [if_pos last]
      · rw [if_neg last] at unraised
        cases unraised

theorem bringToFront_spec (stacked : Stacked zOrder) (i : Fin windowCount) :
    Stacked (bringToFront zOrder (Int32.ofNat i)).2 ∧
    (bringToFront zOrder (Int32.ofNat i)).2 2 = Int32.ofNat i := by
  obtain ⟨pos, found⟩ := stacked.place i
  have here := zPosition_spec found
  rw [bringToFront, found]
  dsimp only
  split
  next last =>
    rw [last] at here
    exact ⟨stacked, here⟩
  next notLast =>
    refine ⟨?_, (if_neg (not_lt.mpr (Fin.le_last pos))).trans (dif_neg (by decide))⟩
    have order : (List.finRange windowCount).map zOrder = [zOrder 0, zOrder 1, zOrder 2] := rfl
    rw [Stacked] at stacked ⊢
    refine List.Perm.trans ?_ stacked
    rw [order]
    have three : ∀ place : Fin windowCount, place = 0 ∨ place = 1 ∨ place = 2 := by decide
    rcases three pos with rfl | rfl | rfl
    · change [zOrder 1, zOrder 2, Int32.ofNat i].Perm _
      rw [here]
      exact @List.perm_append_comm _ [zOrder 1, zOrder 2] [Int32.ofNat i]
    · change [zOrder 0, zOrder 2, Int32.ofNat i].Perm _
      rw [here]
      exact (List.Perm.swap _ _ _).cons _
    · exact absurd rfl notLast

theorem zOrderBroken_stacked (stacked : Stacked zOrder) :
    zOrderBroken ((List.finRange windowCount).map zOrder) [] = false := by
  have whole : ∀ (order : List Int32) (seen : List (Fin windowCount)),
    (order.filterMap windowIdx ++ seen).Nodup →
      (∀ idx ∈ order, (windowIdx idx).isSome) → zOrderBroken order seen = false := by
    intro order
    induction order with
    | nil => exact fun _ _ _ => rfl
    | cons idx order ih =>
        intro seen distinct valid
        rw [List.forall_mem_cons] at valid
        obtain ⟨i, isWindow⟩ := Option.isSome_iff_exists.mp valid.1
        rw [List.filterMap_cons_some isWindow, List.cons_append, List.nodup_cons, List.mem_append,
          not_or] at distinct
        rw [zOrderBroken, isWindow]
        dsimp only
        rw [Bool.or_eq_false_iff]
        refine ⟨by simpa using distinct.1.2, ih _ ?_ valid.2⟩
        rw [List.nodup_append_comm, List.cons_append, List.nodup_cons, List.mem_append, not_or]
        exact ⟨⟨distinct.1.2, distinct.1.1⟩, List.nodup_append_comm.mp distinct.2⟩
  refine whole _ _ ?_ fun idx member => ?_
  · rw [List.append_nil, (stacked.filterMap windowIdx).nodup_iff]
    decide
  · obtain ⟨i, -, rfl⟩ := List.mem_map.mp (stacked.mem_iff.mp member)
    rw [windowIdx_ofNat]
    rfl

theorem isVisible_ofNat (windows : Fin windowCount → DesktopWindow) (i : Fin windowCount) :
    isVisible windows (Int32.ofNat i) = (windows i).visible := by
  rw [isVisible, windowIdx_ofNat]
  rfl

theorem topVisibleWindow_eq (windows : Fin windowCount → DesktopWindow)
    (zOrder : Fin windowCount → Int32) :
    topVisibleWindow windows zOrder =
    (([zOrder 2, zOrder 1, zOrder 0]).find? (isVisible windows)).getD (-1) := rfl

theorem topVisibleWindow_open (windows : Fin windowCount → DesktopWindow)
    (zOrder : Fin windowCount → Int32) :
    topVisibleWindow windows zOrder = -1 ∨ isVisible windows (topVisibleWindow windows zOrder) =
    true := by
  rw [topVisibleWindow_eq]
  cases found : ([zOrder 2, zOrder 1, zOrder 0]).find? (isVisible windows) with
  | none => exact Or.inl rfl
  | some idx => exact Or.inr (List.find?_some found)

theorem topVisibleWindow_front (front : zOrder 2 = idx) (shown : isVisible windows idx = true) :
    topVisibleWindow windows zOrder = idx := by
  rw [topVisibleWindow_eq, front, List.find?_cons_of_pos shown]
  rfl

theorem topVisibleWindow_congr (same : ∀ i, (others i).visible = (windows i).visible) :
    topVisibleWindow others zOrder = topVisibleWindow windows zOrder := by
  have visible : isVisible others = isVisible windows := by
    funext idx
    rw [isVisible, isVisible]
    exact congrArg (fun test => (windowIdx idx).any test) (funext same)
  rw [topVisibleWindow_eq, topVisibleWindow_eq, visible]

theorem topVisibleWindow_less (fewer : ∀ i, (others i).visible = true → (windows i).visible = true)
    (stays : isVisible others (topVisibleWindow windows zOrder) = true) :
    topVisibleWindow others zOrder = topVisibleWindow windows zOrder := by
  have visible : ∀ idx, isVisible others idx = true → isVisible windows idx = true := by
    intro idx shown
    rw [isVisible] at shown ⊢
    cases isWindow : windowIdx idx with
    | none =>
        rw [isWindow] at shown
        cases shown
    | some i =>
        rw [isWindow] at shown
        exact fewer i shown
  rw [topVisibleWindow_eq] at stays ⊢
  rw [topVisibleWindow_eq]
  generalize [zOrder 2, zOrder 1, zOrder 0] = order at stays ⊢
  induction order with
  | nil => rfl
  | cons idx order ih =>
      by_cases shown : isVisible windows idx = true
      · rw [List.find?_cons_of_pos shown] at stays ⊢
        rw [List.find?_cons_of_pos (show isVisible others idx = true from stays)]
      · rw [List.find?_cons_of_neg shown] at stays ⊢
        rw [List.find?_cons_of_neg fun also => shown (visible idx also)]
        exact ih stays

end Order

end Szczupak
