import Mathlib.Data.List.Nodup
import Mathlib.Data.List.TakeWhile
import Mathlib.Order.Defs.LinearOrder
import Mathlib.Tactic.Ring

/-!
Queues served by ascending rank, and in order of arrival among equal ranks.  `arrivals` are the
items that wait, the oldest first; `InOrder` says in which order a list has to hold them.
-/

namespace Szczupak

/-- Ascending ranks, and for every rank the items in order of arrival. -/
structure InOrder {Item Rank : Type} [LinearOrder Rank] (rank : Item → Rank)
    (arrivals ready : List Item) : Prop where
  sorted : ready.Pairwise fun left right => rank left ≤ rank right
  stable : ∀ level, ready.filter (rank · = level) = arrivals.filter (rank · = level)

/-- Whoever arrived earlier has a larger rank, whoever arrived later no smaller one. -/
def ServedFirst {Item Rank : Type} [LinearOrder Rank] (rank : Item → Rank) (arrivals : List Item)
    (first : Item) : Prop :=
  ∃ earlier later, arrivals = earlier ++ first :: later ∧
    (∀ item ∈ earlier, rank first < rank item) ∧ ∀ item ∈ later, rank first ≤ rank item

section InOrder

variable {Item Rank : Type} [LinearOrder Rank] {rank : Item → Rank} {arrivals ready : List Item}
  {item : Item}

theorem InOrder.nil : InOrder rank [] [] := ⟨List.Pairwise.nil, fun _ => rfl⟩

section

variable (order : InOrder rank arrivals ready)
include order

theorem InOrder.mem : item ∈ ready ↔ item ∈ arrivals := by
  have same := congrArg (item ∈ ·) (order.stable (rank item))
  simpa using same

theorem InOrder.congr {other : Item → Rank}
    (same : ∀ item ∈ arrivals, other item = rank item) : InOrder other arrivals ready := by
  constructor
  · refine order.sorted.imp_of_mem ?_
    intro left right leftMember rightMember ascending
    rw [same left (order.mem.mp leftMember), same right (order.mem.mp rightMember)]
    exact ascending
  · intro level
    have left : ready.filter (other · = level) = ready.filter (rank · = level) :=
      List.filter_congr fun item member => by rw [same item (order.mem.mp member)]
    have right : arrivals.filter (other · = level) = arrivals.filter (rank · = level) :=
      List.filter_congr fun item member => by rw [same item member]
    rw [left, right, order.stable]

theorem InOrder.split (item : Item) :
    (∀ other ∈ ready.takeWhile fun other => !decide (rank item < rank other), rank other ≤ rank item) ∧
      ∀ other ∈ ready.dropWhile fun other => !decide (rank item < rank other), rank item < rank other := by
  constructor
  · intro other member
    simpa using List.mem_takeWhile_imp member
  · have sorted := order.sorted
    rw [← @List.takeWhile_append_dropWhile _ (fun other => !decide (rank item < rank other)) ready]
      at sorted
    have behind := (List.pairwise_append.mp sorted).2.1
    have first := List.head?_dropWhile_not (fun other => !decide (rank item < rank other)) ready
    cases rest : ready.dropWhile fun other => !decide (rank item < rank other) with
    | nil =>
        intro other member
        cases member
    | cons head tail =>
        rw [rest] at behind first
        have larger : rank item < rank head := by simpa using first
        intro other member
        rcases List.mem_cons.mp member with rfl | later
        · exact larger
        · exact larger.trans_le ((List.pairwise_cons.mp behind).1 other later)

theorem InOrder.enter :
    InOrder rank (arrivals ++ [item])
    ((ready.takeWhile fun other => !decide (rank item < rank other)) ++
      item :: ready.dropWhile fun other => !decide (rank item < rank other)) := by
  obtain ⟨before, behind⟩ := order.split item
  have parts := @List.takeWhile_append_dropWhile _ (fun other => !decide (rank item < rank other)) ready
  have sorted := order.sorted
  have stable := order.stable
  rw [← parts] at sorted stable
  generalize (ready.takeWhile fun other => !decide (rank item < rank other)) = front at *
  generalize (ready.dropWhile fun other => !decide (rank item < rank other)) = back at *
  obtain ⟨frontSorted, backSorted, across⟩ := List.pairwise_append.mp sorted
  constructor
  · refine List.pairwise_append.mpr ⟨frontSorted, ?_, ?_⟩
    · exact List.pairwise_cons.mpr ⟨fun other member => (behind other member).le, backSorted⟩
    · intro left leftMember right rightMember
      rcases List.mem_cons.mp rightMember with rfl | later
      · exact before left leftMember
      · exact across left leftMember right later
  · intro level
    have kept := stable level
    rw [List.filter_append] at kept
    rw [List.filter_append, List.filter_append, ← kept]
    by_cases own : rank item = level
    · have none : back.filter (rank · = level) = [] := by
        refine List.filter_eq_nil_iff.mpr fun other member same => ?_
        have larger := behind other member
        rw [own, of_decide_eq_true same] at larger
        exact lt_irrefl _ larger
      have counts : decide (rank item = level) = true := decide_eq_true own
      rw [none, List.append_nil, List.filter_cons, List.filter_cons, if_pos counts, if_pos counts, none]
      rfl
    · have skips : ¬decide (rank item = level) = true := by simpa using own
      rw [List.filter_cons, List.filter_cons, if_neg skips, if_neg skips, List.filter_nil, List.append_nil]

theorem InOrder.leave [DecidableEq Item]
    (arrivalsDistinct : arrivals.Nodup) (readyDistinct : ready.Nodup) :
    InOrder rank (arrivals.erase item) (ready.erase item) := by
  refine ⟨order.sorted.sublist List.erase_sublist, fun level => ?_⟩
  rw [readyDistinct.erase_eq_filter, arrivalsDistinct.erase_eq_filter, List.filter_filter,
    List.filter_filter]
  have swapped : ∀ items : List Item,
      items.filter (fun other => decide (rank other = level) && (other != item)) =
        (items.filter (rank · = level)).filter (· != item) := by
    intro items
    rw [List.filter_filter]
    exact List.filter_congr fun other _ => Bool.and_comm _ _
  rw [swapped, swapped, order.stable]

end

theorem InOrder.head {rest : List Item} (order : InOrder rank arrivals (item :: rest)) :
    ServedFirst rank arrivals item := by
  have smallest : ∀ other ∈ arrivals, rank item ≤ rank other := by
    intro other member
    rcases List.mem_cons.mp (order.mem.mpr member) with rfl | later
    · exact le_refl _
    · exact (List.pairwise_cons.mp order.sorted).1 other later
  have level := order.stable (rank item)
  rw [List.filter_cons, if_pos (decide_eq_true rfl)] at level
  obtain ⟨earlier, later, split, others, _, _⟩ := List.filter_eq_cons_iff.mp level.symm
  refine ⟨earlier, later, split, fun other member => ?_, fun other member => ?_⟩
  · refine lt_of_le_of_ne (smallest other (split ▸ List.mem_append_left _ member)) fun same => ?_
    exact others other member (decide_eq_true same.symm)
  · exact smallest other (split ▸ List.mem_append_right _ (List.mem_cons_of_mem _ member))

end InOrder

end Szczupak
