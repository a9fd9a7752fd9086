import Mathlib.Data.Finset.Card
import Mathlib.Logic.Function.Basic

/-!
A walk that follows one link from each node and erases the link as it goes.  On a cycle it comes
back to a node whose
link is gone; it ends there, and by then has been at every node that can be reached.
-/

namespace Szczupak

inductive Orbit {Node : Type} (live : Node → Prop) (next : Node → Node) : Node → Node → Prop where
  | here {node : Node} (alive : live node) : Orbit live next node node
  | later {node found : Node} (alive : live node) (more : Orbit live next (next node) found) :
    Orbit live next node found

section Orbit

variable {Node : Type} {live : Node → Prop} {next : Node → Node} {node found : Node}

theorem Orbit.start (orbit : Orbit live next node found) : live node := by
  cases orbit with
  | here alive => exact alive
  | later alive => exact alive

theorem Orbit.alive (orbit : Orbit live next node found) : live found := by
  induction orbit with
  | here alive => exact alive
  | later _ _ ih => exact ih

theorem Orbit.cases_next (orbit : Orbit live next node found) : found = node ∨
    Orbit live next (next node) found := by
  cases orbit with
  | here => exact .inl rfl
  | later _ more => exact .inr more

theorem Orbit.closed {area : Set Node} (orbit : Orbit live next node found) (member : node ∈ area)
    (closed : ∀ other ∈ area, live (next other) → next other ∈ area) : found ∈ area := by
  induction orbit with
  | here => exact member
  | later _ more ih => exact ih (closed _ member more.start)

theorem Orbit.among {passed : Finset Node} (orbit : Orbit live next node found) (back : node ∈ passed)
    (leads : ∀ other ∈ passed, live (next other) → next other ∈ passed ∨ next other = node) :
    found ∈ passed := by
  refine @Orbit.closed _ live next node found (↑passed) orbit back fun other member alive => ?_
  rcases leads other member alive with inside | same
  · exact inside
  · rw [same]
    exact back

end Orbit

variable {Node : Type} [DecidableEq Node]

/-- The result, and the nodes that have been passed; `stop` takes the place of an erased link. -/
def eraseWalk (live : Node → Prop) [DecidablePred live] (stop : Node) : Nat → Node →
    (Node → Node) → Bool × List Node
  | 0, _, _ => (false, [])
  | guard + 1, node, next =>
      if live node then
        if next node = node then (true, [node])
        else
          let rest := eraseWalk live stop guard (next node) (Function.update next node stop)
          (rest.1, node :: rest.2)
      else (true, [])

def erased (stop : Node) (next : Node → Node) (passed : Finset Node) (node : Node) : Node :=
  if node ∈ passed then stop else next node

theorem erased_insert {stop node : Node} {next : Node → Node} {passed : Finset Node}
    (fresh : node ∉ passed) :
    Function.update (erased stop next passed) node stop = erased stop next (insert node passed) := by
  funext other
  by_cases same : other = node
  · subst same
    rw [Function.update_self, erased, if_pos (Finset.mem_insert_self _ _)]
  · rw [Function.update_of_ne same, erased, erased]
    exact if_congr (by rw [Finset.mem_insert, or_iff_right same]) rfl rfl

section Walk

variable {live : Node → Prop} [DecidablePred live] {stop node : Node} {next : Node → Node}
    {passed : Finset Node}

theorem eraseWalk_back (dead : ¬live stop) (alive : live node) (back : node ∈ passed) (guard : Nat) :
    eraseWalk live stop (guard + 2) node (erased stop next passed) = (true, [node]) := by
  have gone : erased stop next passed node = stop := if_pos back
  have other : stop ≠ node := by
    rintro rfl
    exact dead alive
  rw [eraseWalk, if_pos alive, gone, if_neg other, eraseWalk, if_neg dead]

theorem card_passed {all : Finset Node} (member : node ∈ all) (fresh : node ∉ passed) :
    (all \ insert node passed).card < (all \ passed).card := by
  refine Finset.card_lt_card ⟨Finset.sdiff_subset_sdiff (Finset.Subset.refl _)
    (Finset.subset_insert _ _), ?_⟩
  intro same
  have left := same (Finset.mem_sdiff.mpr ⟨member, fresh⟩)
  exact (Finset.mem_sdiff.mp left).2 (Finset.mem_insert_self _ _)

/-- The nodes that have been passed lead to the node where the walk stands; it has turns for the
others, one to come back to a node and one to find its link gone. -/
theorem eraseWalk_rest (dead : ¬live stop) {all : Finset Node}
    (finite : ∀ other, live other → other ∈ all)
    (inside : passed ⊆ all) (leads : ∀ other ∈ passed, live (next other) → next other ∈ passed ∨
    next other = node) {guard : Nat} (enough : (all \ passed).card + 2 ≤ guard) :
    (eraseWalk live stop guard node (erased stop next passed)).1 = true ∧
    (∀ other ∈ (eraseWalk live stop guard node (erased stop next passed)).2,
    Orbit live next node other) ∧ ∀ other, Orbit live next node other →
      other ∈ passed ∨ other ∈ (eraseWalk live stop guard node (erased stop next passed)).2 := by
  induction guard generalizing node passed with
  | zero => omega
  | succ guard ih =>
      by_cases alive : live node
      swap
      · rw [eraseWalk, if_neg alive]
        exact ⟨rfl, fun _ member => absurd member List.not_mem_nil, fun _ orbit => absurd orbit.start alive⟩
      by_cases back : node ∈ passed
      · obtain ⟨guard, rfl⟩ := Nat.exists_eq_succ_of_ne_zero (show guard ≠ 0 by omega)
        rw [eraseWalk_back dead alive back]
        refine ⟨rfl, fun found member => ?_, fun found orbit => .inl (orbit.among back leads)⟩
        rw [List.mem_singleton.mp member]
        exact .here alive
      · have link : erased stop next passed node = next node := if_neg back
        rw [eraseWalk, if_pos alive, link]
        by_cases loop : next node = node
        · rw [if_pos loop]
          refine ⟨rfl, fun found member => ?_, fun found orbit => .inr ?_⟩
          · rw [List.mem_singleton.mp member]
            exact .here alive
          · have only : found ∈ ({node} : Set Node) := by
              refine orbit.closed rfl fun other member _ => ?_
              rw [Set.mem_singleton_iff.mp member]
              exact loop
            exact List.mem_singleton.mpr only
        · rw [if_neg loop, erased_insert back]
          have fewer := card_passed (finite node alive) back
          obtain ⟨ends, sound, complete⟩ := @ih (next node) (insert node passed)
            (Finset.insert_subset (finite node alive) inside) (by
              intro other member alive
              rcases Finset.mem_insert.mp member with rfl | member
              · exact .inr rfl
              · rcases leads other member alive with inside | same
                · exact .inl (Finset.mem_insert_of_mem inside)
                · rw [same]
                  exact .inl (Finset.mem_insert_self _ _)) (by omega)
          refine ⟨ends, fun found member => ?_, fun found orbit => ?_⟩
          · rcases List.mem_cons.mp member with rfl | member
            · exact .here alive
            · exact .later alive (sound found member)
          · rcases orbit.cases_next with rfl | more
            · exact .inr List.mem_cons_self
            · rcases complete found more with member | member
              · rcases Finset.mem_insert.mp member with rfl | member
                · exact .inr List.mem_cons_self
                · exact .inl member
              · exact .inr (List.mem_cons_of_mem _ member)

theorem eraseWalk_orbit (dead : ¬live stop) {all : Finset Node}
    (finite : ∀ other, live other → other ∈ all)
    {guard : Nat} (enough : all.card + 2 ≤ guard) (node : Node) (next : Node → Node) :
    (eraseWalk live stop guard node next).1 = true ∧
      ∀ other, other ∈ (eraseWalk live stop guard node next).2 ↔ Orbit live next node other := by
  have whole : erased stop next ∅ = next := by
    funext other
    exact if_neg (Finset.notMem_empty other)
  obtain ⟨ends, sound, complete⟩ := @eraseWalk_rest _ _ live _ stop node next ∅ dead all finite
    (Finset.empty_subset _)
    (fun _ member => absurd member (Finset.notMem_empty _)) guard (by rwa [Finset.sdiff_empty])
  rw [whole] at ends sound complete
  refine ⟨ends, fun other => ⟨sound other, fun orbit => ?_⟩⟩
  exact (complete other orbit).resolve_left (Finset.notMem_empty other)

end Walk

end Szczupak
