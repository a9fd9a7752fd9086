import Mathlib.Data.List.Nodup

/-!
Walks through a radix structure.  A node and an index give a child that may depend on
the depth; a path lists its indices from the last step back to the first, so its tail
is the path of the parent.  Changing one edge changes the walk of one path, as long as
nothing hangs below it before or after.
-/

namespace Szczupak

variable {Node Index : Type}

def walk (child : Nat → Node → Index → Option Node) (root : Node) : List Index → Option Node
  | [] => some root
  | index :: path => (walk child root path).bind fun node => child path.length node index

/-- Different paths of the given kind end in different nodes. -/
def WalksApart (child : Nat → Node → Index → Option Node) (root : Node)
    (valid : List Index → Prop) : Prop :=
  ∀ left right node, valid left → valid right →
    walk child root left = some node → walk child root right = some node → left = right

section Update

variable {child changed : Nat → Node → Index → Option Node} {root : Node}
  {valid : List Index → Prop} {path : List Index}

theorem walk_cons {index : Index} {node : Node} (found : walk child root path = some node) :
    walk child root (index :: path) = child path.length node index := by
  rw [walk, found, Option.bind_some]

theorem walk_parent {index : Index} {node : Node}
    (found : walk child root (index :: path) = some node) :
    ∃ parent, walk child root path = some parent ∧ child path.length parent index = some node := by
  rw [walk] at found
  exact Option.bind_eq_some_iff.mp found

section

variable (closed : ∀ index path, valid (index :: path) → valid path)
include closed

theorem walk_congr
    (agree : ∀ path index node, valid (index :: path) → walk child root path = some node →
      changed path.length node index = child path.length node index)
    (allowed : valid path) :
    walk changed root path = walk child root path := by
  induction path with
  | nil => rfl
  | cons index path ih =>
      rw [walk, walk, ih (closed index path allowed)]
      cases found : walk child root path with
      | none => rfl
      | some node => exact agree path index node allowed found

theorem walk_mono
    (fewer : ∀ path index node next, valid (index :: path) → walk child root path = some node →
      changed path.length node index = some next → child path.length node index = some next)
    {node : Node} (allowed : valid path)
    (found : walk changed root path = some node) : walk child root path = some node := by
  induction path generalizing node with
  | nil => exact found
  | cons index path ih =>
      obtain ⟨parent, before, step⟩ := walk_parent found
      have old := ih (closed index path allowed) before
      rw [walk_cons old]
      exact fewer path index parent node allowed old step

theorem walk_update [DecidableEq Index] {index : Index} {parent : Node} {target : Option Node}
    (agree : ∀ other step node, valid (step :: other) → walk child root other = some node →
      ¬(other = path ∧ step = index) → changed other.length node step = child other.length node step)
    (place : walk child root path = some parent)
    (edge : changed path.length parent index = target)
    (below : ∀ step, valid (step :: index :: path) → walk child root (index :: path) = none ∧
      ∀ node, target = some node → changed (path.length + 1) node step = none)
    {other : List Index} (allowed : valid other) :
    walk changed root other = if other = index :: path then target else walk child root other := by
  induction other with
  | nil => simp [walk]
  | cons step other ih =>
      have before := ih (closed step other allowed)
      by_cases through : other = index :: path
      · -- the step below the changed edge finds nothing, before or after
        subst through
        obtain ⟨missing, ends⟩ := below step allowed
        have longer : step :: index :: path ≠ index :: path := by
          intro same
          have lengths := congrArg List.length same
          simp at lengths
        rw [if_pos rfl] at before
        rw [if_neg longer, walk, before, walk, missing]
        cases target with
        | none => rfl
        | some node => exact ends node rfl
      · rw [if_neg through] at before
        rw [walk, before]
        cases found : walk child root other with
        | none =>
            have elsewhere : step :: other ≠ index :: path := by
              intro same
              cases same
              rw [place] at found
              contradiction
            rw [if_neg elsewhere, walk, found]
            rfl
        | some node =>
            by_cases here : other = path ∧ step = index
            · obtain ⟨rfl, rfl⟩ := here
              rw [place] at found
              cases found
              rw [if_pos rfl]
              exact edge
            · rw [if_neg (by rintro same; cases same; exact here ⟨rfl, rfl⟩), walk, found]
              exact agree other step node allowed found here

end

end Update

def pathsBelow (indices : List Index) : Nat → List Index → List (List Index)
  | 0, path => [path]
  | steps + 1, path =>
      (indices.flatMap fun index => pathsBelow indices steps (index :: path)) ++ [path]

section Enumeration

variable {indices : List Index} {steps : Nat} {path other : List Index}

theorem mem_pathsBelow : other ∈ pathsBelow indices steps path ↔
    ∃ more, other = more ++ path ∧ more.length ≤ steps ∧ ∀ index ∈ more, index ∈ indices := by
  induction steps generalizing path with
  | zero =>
      simp only [pathsBelow, List.mem_singleton, Nat.le_zero, List.length_eq_zero_iff]
      constructor
      · rintro rfl
        exact ⟨[], rfl, rfl, by simp⟩
      · rintro ⟨more, rfl, rfl, _⟩
        rfl
  | succ steps ih =>
      simp only [pathsBelow, List.mem_append, List.mem_flatMap, List.mem_singleton, ih]
      constructor
      · rintro (⟨index, member, more, rfl, short, inside⟩ | rfl)
        · refine ⟨more ++ [index], by simp, by simpa using short, ?_⟩
          intro step stepMember
          rcases List.mem_append.mp stepMember with earlier | last
          · exact inside step earlier
          · rw [List.mem_singleton.mp last]
            exact member
        · exact ⟨[], rfl, Nat.zero_le _, by simp⟩
      · rintro ⟨more, rfl, short, inside⟩
        rcases List.eq_nil_or_concat more with rfl | ⟨front, last, rfl⟩
        · exact Or.inr rfl
        · rw [List.concat_eq_append] at short inside ⊢
          refine Or.inl ⟨last, inside last (by simp), front, by simp, by simpa using short, ?_⟩
          intro step member
          exact inside step (List.mem_append_left _ member)

theorem pathsBelow_nodup (distinct : indices.Nodup) :
    (pathsBelow indices steps path).Nodup := by
  induction steps generalizing path with
  | zero => exact List.nodup_singleton _
  | succ steps ih =>
      rw [pathsBelow, List.nodup_append]
      refine ⟨?_, List.nodup_singleton _, ?_⟩
      · rw [List.nodup_flatMap]
        refine ⟨fun index _ => ih, ?_⟩
        apply distinct.imp
        intro left right different
        rw [Function.onFun_apply, List.disjoint_left]
        intro common inLeft inRight
        obtain ⟨leftMore, rfl, _⟩ := mem_pathsBelow.mp inLeft
        obtain ⟨rightMore, same, _⟩ := mem_pathsBelow.mp inRight
        -- both end in `path`, and the index before it is not the same
        have cut : leftMore ++ [left] = rightMore ++ [right] := by
          refine List.append_cancel_right (?_ : leftMore ++ [left] ++ path = rightMore ++ [right] ++ path)
          simpa using same
        have last := (List.append_inj' cut rfl).2
        simp only [List.cons.injEq, and_true] at last
        exact different last
      · intro longer inLonger shorter inShorter same
        rw [List.mem_singleton] at inShorter
        obtain ⟨index, _, below⟩ := List.mem_flatMap.mp inLonger
        obtain ⟨more, shape, _⟩ := mem_pathsBelow.mp below
        have lengths := congrArg List.length (shape.symm.trans (same.trans inShorter))
        simp only [List.length_append, List.length_cons] at lengths
        omega

variable {child : Nat → Node → Index → Option Node} {root : Node}

theorem walk_append_none (missing : walk child root path = none) (more : List Index) :
    walk child root (more ++ path) = none := by
  induction more with
  | nil => exact missing
  | cons index more ih =>
      rw [List.cons_append, walk, ih]
      rfl

theorem pathsBelow_missing (missing : walk child root path = none) :
    (pathsBelow indices steps path).filterMap (walk child root) = [] := by
  rw [List.filterMap_eq_nil_iff]
  intro other member
  obtain ⟨more, rfl, _⟩ := mem_pathsBelow.mp member
  exact walk_append_none missing more

theorem walks_nodup {valid : List Index → Prop} {paths : List (List Index)}
    (apart : WalksApart child root valid) (allValid : ∀ path ∈ paths, valid path)
    (distinct : paths.Nodup) : (paths.filterMap (walk child root)).Nodup := by
  rw [List.Nodup, List.pairwise_filterMap]
  apply distinct.imp_of_mem
  intro left right leftMember rightMember different node leftFound other rightFound same
  subst same
  exact different (apart left right node (allValid left leftMember) (allValid right rightMember)
    leftFound rightFound)

end Enumeration

end Szczupak
