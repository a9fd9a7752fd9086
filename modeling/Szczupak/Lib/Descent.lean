import Mathlib.Data.List.Induction

/-!
Walks in a tree that go down to a named child, up to the parent, or stay.  The reduction of a walk
keeps the descents that no later step up takes back; it ends at the node where the walk ends.
-/

namespace Szczupak

inductive Way (Name : Type) where
  | down (name : Name)
  | up
  | stay

variable {Node Name : Type}

def Way.reduce (descents : List Name) : Way Name → List Name
  | .down name => descents ++ [name]
  | .up => descents.dropLast
  | .stay => descents

def reduceWalk (ways : List (Way Name)) : List Name := ways.foldl Way.reduce []

def Way.go (child : Node → Name → Option Node) (parent : Node → Node)
    (node : Node) : Way Name → Option Node
  | .down name => child node name
  | .up => some (parent node)
  | .stay => some node

section Reduction

theorem reduceWalk_append (ways : List (Way Name)) (way : Way Name) :
    reduceWalk (ways ++ [way]) = way.reduce (reduceWalk ways) := by
  simp [reduceWalk, List.foldl_append]

theorem reduceWalk_sublist (ways : List (Way Name)) :
    ((reduceWalk ways).map Way.down).Sublist ways := by
  induction ways using List.reverseRecOn with
  | nil => exact List.Sublist.slnil
  | append_singleton ways way ih =>
      rw [reduceWalk_append]
      cases way with
      | down name =>
          rw [Way.reduce, List.map_append]
          exact ih.append (List.Sublist.refl _)
      | up =>
          rw [Way.reduce, List.map_dropLast]
          exact ((List.dropLast_sublist _).trans ih).trans (List.sublist_append_left _ _)
      | stay => exact ih.trans (List.sublist_append_left _ _)

end Reduction

section Ends

variable {child : Node → Name → Option Node} {parent : Node → Node} {valid : Node → Prop}
    {root last : Node}

theorem descents_valid (start : valid root)
    (keeps : ∀ node name next, valid node → child node name = some next → valid next)
    {names : List Name} (descends : names.foldlM child root = some last) : valid last := by
  induction names generalizing root with
  | nil =>
      cases descends
      exact start
  | cons name rest ih =>
      rw [List.foldlM_cons] at descends
      obtain ⟨next, first, remaining⟩ := Option.bind_eq_some_iff.mp descends
      exact ih (keeps root name next start first) remaining

theorem Way.go_reduce (start : valid root) (top : parent root = root)
    (keeps : ∀ node name next, valid node → child node name = some next → valid next)
    (below : ∀ node name next, valid node → child node name = some next → parent next = node)
    {names : List Name} {current next : Node} {way : Way Name}
    (descends : names.foldlM child root = some current)
    (goes : way.go child parent current = some next) :
    (way.reduce names).foldlM child root = some next := by
  cases way with
  | down name =>
      rw [Way.reduce, List.foldlM_append, descends]
      have found : child current name = some next := goes
      simp [found]
  | stay =>
      cases goes
      exact descends
  | up =>
      cases goes
      rcases List.eq_nil_or_concat names with rfl | ⟨front, name, rfl⟩
      · cases descends
        exact congrArg some top.symm
      · rw [List.concat_eq_append, List.foldlM_append] at descends
        obtain ⟨above, reached, entered⟩ := Option.bind_eq_some_iff.mp descends
        rw [List.foldlM_cons] at entered
        obtain ⟨found, isChild, same⟩ := Option.bind_eq_some_iff.mp entered
        cases same
        rw [Way.reduce, List.concat_eq_append, List.dropLast_concat, reached,
          below above name _ (descents_valid start keeps reached) isChild]

theorem reduceWalk_ends (start : valid root) (top : parent root = root)
    (keeps : ∀ node name next, valid node → child node name = some next → valid next)
    (below : ∀ node name next, valid node → child node name = some next → parent next = node)
    {ways : List (Way Name)} (walks : ways.foldlM (Way.go child parent) root = some last) :
    (reduceWalk ways).foldlM child root = some last := by
  induction ways using List.reverseRecOn generalizing last with
  | nil => exact walks
  | append_singleton ways way ih =>
      rw [List.foldlM_append] at walks
      obtain ⟨current, reached, step⟩ := Option.bind_eq_some_iff.mp walks
      rw [List.foldlM_cons] at step
      obtain ⟨next, goes, same⟩ := Option.bind_eq_some_iff.mp step
      cases same
      rw [reduceWalk_append]
      exact Way.go_reduce start top keeps below (ih reached) goes

end Ends

end Szczupak
