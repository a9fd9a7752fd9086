import Mathlib.Data.List.Basic
import Mathlib.Data.List.Nodup
import Mathlib.Data.List.TakeWhile
import Mathlib.Logic.Function.Basic
import Mathlib.Tactic.Ring

/-!
Singly linked lists through a successor function.  Address 0 is null.  `Linked` says
which nodes a chain passes; the loops of list code are one search, `seek`.
-/

namespace Szczupak

/-- The chain from `head` passes `nodes` in order and arrives at `stop`. -/
def Linked (next : Nat → Nat) (stop : Nat) : Nat → List Nat → Prop
  | head, [] => head = stop
  | head, node :: rest => head = node ∧ node ≠ 0 ∧ Linked next stop (next node) rest

/-- Walk until a node satisfies `found` or the list ends; the result is the node before
and the node reached.  `none` is a walk that does not end within `fuel` nodes. -/
def seek (next : Nat → Nat) (found : Nat → Bool) : Nat → Nat → Nat → Option (Nat × Nat)
  | 0, _, _ => none
  | fuel + 1, prev, cur =>
      if cur = 0 then some (prev, 0)
      else if found cur then some (prev, cur)
      else seek next found fuel cur (next cur)

section Linked

variable {next : Nat → Nat} {head stop node value : Nat} {nodes front back : List Nat}

theorem Linked.append : Linked next stop head (front ++ back) ↔
    ∃ middle, Linked next middle head front ∧ Linked next stop middle back := by
  induction front generalizing head with
  | nil => simp [Linked]
  | cons first rest ih =>
      simp only [List.cons_append, Linked, ih]
      constructor
      · rintro ⟨same, nonNull, middle, left, right⟩
        exact ⟨middle, ⟨same, nonNull, left⟩, right⟩
      · rintro ⟨middle, ⟨same, nonNull, left⟩, right⟩
        exact ⟨same, nonNull, middle, left, right⟩

theorem Linked.nonNull (linked : Linked next stop head nodes) (member : node ∈ nodes) :
    node ≠ 0 := by
  induction nodes generalizing head with
  | nil => simp at member
  | cons first rest ih =>
      rcases List.mem_cons.mp member with rfl | later
      · exact linked.2.1
      · exact ih linked.2.2 later

theorem Linked.congr {changed : Nat → Nat} (same : ∀ node ∈ nodes, changed node = next node)
    (linked : Linked next stop head nodes) : Linked changed stop head nodes := by
  induction nodes generalizing head with
  | nil => exact linked
  | cons first rest ih =>
      obtain ⟨rfl, nonNull, tail⟩ := linked
      refine ⟨rfl, nonNull, ?_⟩
      rw [same head List.mem_cons_self]
      exact ih (fun node member => same node (List.mem_cons_of_mem _ member)) tail

theorem Linked.update (elsewhere : node ∉ nodes) (linked : Linked next stop head nodes) :
    Linked (Function.update next node value) stop head nodes := by
  refine linked.congr ?_
  intro other member
  rw [Function.update_of_ne]
  rintro rfl
  exact elsewhere member

theorem Linked.successor {after : Nat}
    (linked : Linked next stop head (front ++ node :: after :: back)) :
    next node = after := by
  obtain ⟨_, _, _, _, same, _⟩ := Linked.append.mp linked
  exact same

theorem Linked.redirect (linked : Linked next stop head (front ++ [node])) (fresh : node ∉ front) :
    Linked (Function.update next node value) value head (front ++ [node]) := by
  obtain ⟨middle, left, rfl, nonNull, _⟩ := Linked.append.mp linked
  refine Linked.append.mpr ⟨middle, left.update fresh, rfl, nonNull, ?_⟩
  exact Function.update_self _ _ _

theorem Linked.unique {other : List Nat} (linked : Linked next 0 head nodes)
    (again : Linked next 0 head other) : nodes = other := by
  induction nodes generalizing head other with
  | nil =>
      cases other with
      | nil => rfl
      | cons first rest => exact absurd (again.1.symm.trans linked) again.2.1
  | cons first rest ih =>
      cases other with
      | nil => exact absurd (linked.1.symm.trans again) linked.2.1
      | cons second more =>
          obtain ⟨rfl, _, tail⟩ := linked
          obtain ⟨rfl, _, moreTail⟩ := again
          rw [ih tail moreTail]

theorem Linked.head_mem (linked : Linked next 0 head nodes) (nonNull : head ≠ 0) :
    ∃ rest, nodes = head :: rest ∧ Linked next 0 (next head) rest := by
  cases nodes with
  | nil => exact absurd linked nonNull
  | cons first rest =>
      obtain ⟨rfl, _, tail⟩ := linked
      exact ⟨rest, rfl, tail⟩

theorem seek_spec {found : Nat → Bool} {fuel prev : Nat} (linked : Linked next 0 head nodes)
    (enough : nodes.length < fuel) :
    seek next found fuel prev head =
      some ((nodes.takeWhile (!found ·)).getLastD prev, (nodes.dropWhile (!found ·)).headD 0) := by
  induction fuel generalizing prev head nodes with
  | zero => omega
  | succ fuel ih =>
      rw [seek]
      cases nodes with
      | nil =>
          have null : head = 0 := linked
          simp [null]
      | cons first rest =>
          obtain ⟨rfl, nonNull, tail⟩ := linked
          rw [if_neg nonNull]
          simp only [List.length_cons] at enough
          cases hit : found head with
          | true => simp [hit]
          | false =>
              rw [if_neg (by simp), ih tail (by omega)]
              simp only [List.takeWhile_cons, List.dropWhile_cons, hit, Bool.not_false, if_true]
              rw [List.getLastD_cons]

theorem seek_cases {found : Nat → Bool} {fuel prev : Nat} (linked : Linked next 0 head nodes)
    (enough : nodes.length < fuel) :
    (∃ front node back, nodes = front ++ node :: back ∧ found node = true ∧
      (∀ other ∈ front, found other = false) ∧
      seek next found fuel prev head = some (front.getLastD prev, node)) ∨
    ((∀ other ∈ nodes, found other = false) ∧ ∃ last, seek next found fuel prev head = some (last, 0)) := by
  rw [seek_spec linked enough]
  have skipped : ∀ other ∈ nodes.takeWhile (!found ·), found other = false := by
    intro other member
    simpa using List.mem_takeWhile_imp member
  cases rest : nodes.dropWhile (!found ·) with
  | nil =>
      refine Or.inr ⟨?_, _, rfl⟩
      intro other member
      simpa using List.dropWhile_eq_nil_iff.mp rest other member
  | cons node back =>
      have hit : found node = true := by
        have first := List.head?_dropWhile_not (!found ·) nodes
        simpa [rest] using first
      refine Or.inl ⟨_, node, back, ?_, hit, skipped, rfl⟩
      rw [← rest, List.takeWhile_append_dropWhile]

theorem last_apart {start : List Nat} {last : Nat} (distinct : (start ++ [last] ++ back).Nodup) :
    last ∉ start ∧ last ∉ back := by
  obtain ⟨frontDistinct, -, apart⟩ := List.nodup_append.mp distinct
  exact ⟨fun member => (List.nodup_append.mp frontDistinct).2.2 last member last (by simp) rfl,
    fun member => apart last (by simp) last member rfl⟩

theorem Linked.remove (linked : Linked next 0 head (front ++ node :: back))
    (distinct : (front ++ node :: back).Nodup) :
    (front = [] → Linked next 0 (next node) back) ∧
      ∀ start last, front = start ++ [last] →
        Linked (Function.update next last (next node)) 0 head (front ++ back) := by
  obtain ⟨middle, left, rfl, nonNull, right⟩ := Linked.append.mp linked
  refine ⟨fun _ => right, ?_⟩
  rintro start last rfl
  obtain ⟨lastFresh, lastElsewhere⟩ := last_apart distinct
  have lastElsewhere : last ∉ back := fun member => lastElsewhere (List.mem_cons_of_mem _ member)
  exact Linked.append.mpr ⟨next middle, left.redirect lastFresh, right.update lastElsewhere⟩

theorem Linked.insert {start : List Nat} {last : Nat}
    (linked : Linked next 0 head (start ++ [last] ++ back))
    (distinct : (start ++ [last] ++ back).Nodup) (nonNull : node ≠ 0)
    (fresh : node ∉ start ++ [last] ++ back) (target : next node = back.headD 0) :
    Linked (Function.update next last node) 0 head (start ++ [last] ++ node :: back) := by
  obtain ⟨middle, left, right⟩ := Linked.append.mp linked
  obtain ⟨lastFresh, lastElsewhere⟩ := last_apart distinct
  have apart : node ≠ last := by
    rintro rfl
    exact fresh (by simp)
  have joins : next node = middle := by
    rw [target]
    cases back with
    | nil => exact right.symm
    | cons first rest => exact right.1.symm
  refine Linked.append.mpr ⟨node, left.redirect lastFresh, rfl, nonNull, ?_⟩
  rw [Function.update_of_ne apart, joins]
  exact right.update lastElsewhere

end Linked

end Szczupak
