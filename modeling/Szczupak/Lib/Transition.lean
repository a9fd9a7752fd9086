import Mathlib.Data.List.Basic
import Mathlib.Tactic.Ring

/-!
Runs of a transition function that may get stuck.  A run is a left fold over its
actions; an invariant of one step is an invariant of every run.
-/

namespace Szczupak

variable {State Action : Type} {step : State → Action → Option State}
  {guard : State → Action → Prop} {invariant : State → Prop}

/-- The state after performing every action in order, when none of them gets stuck. -/
def runActions (step : State → Action → Option State) : State → List Action → Option State
  | state, [] => some state
  | state, action :: rest =>
      match step state action with
      | none => none
      | some next => runActions step next rest

theorem runActions_cons {state final : State} {action : Action} {rest : List Action}
    (reached : runActions step state (action :: rest) = some final) :
    ∃ next, step state action = some next ∧ runActions step next rest = some final := by
  simp only [runActions] at reached
  cases taken : step state action with
  | none => simp [taken] at reached
  | some next =>
      rw [taken] at reached
      exact ⟨next, rfl, reached⟩

theorem runActions_concat {state final : State}
    {actions : List Action} {last : Action}
    (reached : runActions step state (actions ++ [last]) = some final) :
    ∃ before, runActions step state actions = some before ∧ step before last = some final := by
  induction actions generalizing state with
  | nil =>
      obtain ⟨next, taken, remaining⟩ := runActions_cons reached
      cases remaining
      exact ⟨state, rfl, taken⟩
  | cons action rest ih =>
      obtain ⟨next, taken, remaining⟩ := runActions_cons reached
      obtain ⟨before, earlier, stepped⟩ := ih remaining
      rw [runActions, taken]
      exact ⟨before, earlier, stepped⟩

theorem runActions_invariant
    (preserved : ∀ state action next, invariant state → step state action = some next →
      invariant next) {state final : State} {actions : List Action} (initial : invariant state)
    (reached : runActions step state actions = some final) : invariant final := by
  induction actions generalizing state with
  | nil =>
      simp only [runActions, Option.some.injEq] at reached
      exact reached ▸ initial
  | cons action rest ih =>
      obtain ⟨next, taken, remaining⟩ := runActions_cons reached
      exact ih (preserved state action next initial taken) remaining

/-- Every action of the run meets `guard` in the state it is performed in. -/
def RunMeets (step : State → Action → Option State) (guard : State → Action → Prop) :
    State → List Action → Prop
  | _, [] => True
  | state, action :: rest =>
      guard state action ∧ ∀ next, step state action = some next → RunMeets step guard next rest

instance RunMeets.decidable {step : State → Action → Option State} {guard : State → Action → Prop}
    [∀ state action, Decidable (guard state action)] :
    ∀ (state : State) (actions : List Action), Decidable (RunMeets step guard state actions)
  | _, [] => .isTrue trivial
  | state, action :: rest =>
      match (inferInstance : Decidable (guard state action)) with
      | .isFalse fails => .isFalse fun meets => fails meets.1
      | .isTrue holds =>
          match taken : step state action with
          | none => .isTrue ⟨holds, fun _ reached => by cases taken.symm.trans reached⟩
          | some next =>
              match RunMeets.decidable next rest with
              | .isFalse fails => .isFalse fun meets => fails (meets.2 next taken)
              | .isTrue later => .isTrue ⟨holds, fun _ reached =>
                  Option.some.inj (taken.symm.trans reached) ▸ later⟩

theorem runActions_guarded (preserved : ∀ state action next, invariant state → guard state action →
      step state action = some next → invariant next)
    {state final : State} {actions : List Action} (initial : invariant state)
    (meets : RunMeets step guard state actions)
    (reached : runActions step state actions = some final) : invariant final := by
  induction actions generalizing state with
  | nil =>
      simp only [runActions, Option.some.injEq] at reached
      exact reached ▸ initial
  | cons action rest ih =>
      obtain ⟨next, taken, remaining⟩ := runActions_cons reached
      exact ih (preserved state action next initial meets.1 taken) (meets.2 next taken) remaining

/-- Where `guard` keeps the invariant and gives `property`, every run that meets the one meets the
other. -/
theorem RunMeets.of_guard {guard property : State → Action → Prop}
    (preserved : ∀ state action next, invariant state → guard state action →
      step state action = some next → invariant next)
    (holds : ∀ state action, invariant state → guard state action → property state action)
    {state : State} {actions : List Action} (initial : invariant state)
    (meets : RunMeets step guard state actions) : RunMeets step property state actions := by
  induction actions generalizing state with
  | nil => trivial
  | cons action rest ih =>
      refine ⟨holds state action initial meets.1, fun next taken => ?_⟩
      exact ih (preserved state action next initial meets.1 taken) (meets.2 next taken)

/-- Where each step keeps a property exactly when it meets `guard`, so does a run. -/
theorem runActions_exact {invariant property : State → Prop}
    (preserved : ∀ state action next, invariant state → step state action = some next →
      invariant next)
    (exact : ∀ state action next, invariant state → step state action = some next →
      (property next ↔ property state ∧ guard state action))
    {state final : State} {actions : List Action} (initial : invariant state)
    (reached : runActions step state actions = some final) :
    property final ↔ property state ∧ RunMeets step guard state actions := by
  induction actions generalizing state with
  | nil =>
      simp only [runActions, Option.some.injEq] at reached
      rw [reached, RunMeets, and_true]
  | cons action rest ih =>
      obtain ⟨next, taken, remaining⟩ := runActions_cons reached
      rw [ih (preserved state action next initial taken) remaining,
        exact state action next initial taken, RunMeets, and_assoc]
      have onlyNext : (∀ other, step state action = some other → RunMeets step guard other rest) ↔
          RunMeets step guard next rest := by
        constructor
        · intro every
          exact every next taken
        · intro meets other otherTaken
          rw [taken, Option.some.injEq] at otherTaken
          exact otherTaken ▸ meets
      rw [onlyNext]

/-- Where a step from a good state leads to a good state when it meets `guard` and loses the
property when it does not, the property holds in every state of a run exactly when every step
meets `guard`. -/
theorem runActions_exact_kept
    {good property : State → Prop} (implies : ∀ state, good state → property state)
    (kept : ∀ state action next, good state → guard state action → step state action = some next → good next)
    (lost : ∀ state action next, good state → ¬guard state action → step state action = some next →
      ¬property next)
    {state final : State} {actions : List Action} (initial : good state)
    (reached : runActions step state actions = some final) :
    (∀ begun rest middle, actions = begun ++ rest → runActions step state begun = some middle →
      property middle) ↔ RunMeets step guard state actions := by
  induction actions generalizing state with
  | nil =>
      refine iff_of_true ?_ trivial
      intro begun rest middle split taken
      rw [(List.append_eq_nil_iff.mp split.symm).1, runActions, Option.some.injEq] at taken
      exact taken ▸ implies state initial
  | cons action rest ih =>
      obtain ⟨next, taken, remaining⟩ := runActions_cons reached
      constructor
      · intro every
        have meets : guard state action := by
          by_contra fails
          refine lost state action next initial fails taken (every [action] rest next rfl ?_)
          rw [runActions, taken]
          rfl
        refine ⟨meets, fun other otherTaken => ?_⟩
        rw [taken, Option.some.injEq] at otherTaken
        subst otherTaken
        refine (ih (kept state action next initial meets taken) remaining).mp
          fun begun ending middle split reaches => ?_
        refine every (action :: begun) ending middle (by rw [split, List.cons_append]) ?_
        rw [runActions, taken]
        exact reaches
      · intro meets begun ending middle split reaches
        cases begun with
        | nil =>
            rw [runActions, Option.some.injEq] at reaches
            exact reaches ▸ implies state initial
        | cons first begun =>
            rw [List.cons_append, List.cons.injEq] at split
            obtain ⟨same, split⟩ := split
            subst same
            obtain ⟨second, firstTaken, begunTaken⟩ := runActions_cons reaches
            rw [taken, Option.some.injEq] at firstTaken
            subst firstTaken
            exact (ih (kept state action next initial meets.1 taken) remaining).mpr
              (meets.2 next taken) begun ending middle split begunTaken

/-- Where a step from a state with the property keeps it exactly when it meets `guard`, the
property holds in every state of a run exactly when every step meets `guard`. -/
theorem runActions_exact_reached {invariant property : State → Prop}
    (preserved : ∀ state action next, invariant state → step state action = some next →
      invariant next)
    (exact : ∀ state action next, invariant state → property state →
      step state action = some next → (property next ↔ guard state action))
    {state final : State} {actions : List Action} (initial : invariant state)
    (holds : property state) (reached : runActions step state actions = some final) :
    (∀ begun rest middle, actions = begun ++ rest → runActions step state begun = some middle →
      property middle) ↔ RunMeets step guard state actions :=
  @runActions_exact_kept State Action step guard (fun state => invariant state ∧
    property state) property (fun _ both => both.2)
    (fun state action next both meets taken => ⟨preserved state action next both.1 taken,
      (exact state action next both.1 both.2 taken).mpr meets⟩)
    (fun state action next both fails taken keeps =>
      fails ((exact state action next both.1 both.2 taken).mp keeps))
    state final actions ⟨initial, holds⟩ reached

def runUntil {Result : Type} (turn : State → Action → Option (State ⊕ Result)) :
    State → List Action → Option Result
  | _, [] => none
  | state, action :: rest =>
      match turn state action with
      | none => none
      | some (.inr result) => some result
      | some (.inl next) => runUntil turn next rest

def UntilMeets {Result : Type} (turn : State → Action → Option (State ⊕ Result))
    (guard : State → Action → Prop) : State → List Action → Prop
  | _, [] => True
  | state, action :: rest =>
      guard state action ∧
        ∀ next, turn state action = some (.inl next) → UntilMeets turn guard next rest

theorem runUntil_guarded {Result : Type} {turn : State → Action → Option (State ⊕ Result)}
    {guard : State → Action → Prop} {invariant : State → Prop} {post : Result → Prop}
    (preserved : ∀ state action next, invariant state → guard state action →
      turn state action = some (.inl next) → invariant next)
    (ends : ∀ state action result, invariant state → guard state action →
      turn state action = some (.inr result) → post result)
    {state : State} {result : Result} {actions : List Action} (initial : invariant state)
    (meets : UntilMeets turn guard state actions)
    (reached : runUntil turn state actions = some result) : post result := by
  induction actions generalizing state with
  | nil => simp [runUntil] at reached
  | cons action rest ih =>
      simp only [runUntil] at reached
      cases taken : turn state action with
      | none => simp [taken] at reached
      | some outcome =>
          rw [taken] at reached
          cases outcome with
          | inl next =>
              exact ih (preserved state action next initial meets.1 taken) (meets.2 next taken) reached
          | inr final =>
              simp only [Option.some.injEq] at reached
              subst reached
              exact ends state action final initial meets.1 taken

/-- A counted loop: what each turn carries from `index` to `index + 1` holds at the end. -/
theorem foldl_range_invariant {step : State → Nat → State} {invariant : Nat → State → Prop}
    {count : Nat} {state : State}
    (preserved : ∀ index state, index < count → invariant index state →
      invariant (index + 1) (step state index))
    (initial : invariant 0 state) : invariant count ((List.range count).foldl step state) := by
  induction count with
  | zero => exact initial
  | succ count ih =>
      rw [List.range_succ, List.foldl_append]
      refine preserved count _ (Nat.lt_succ_self count) (ih ?_)
      intro index before bound
      exact preserved index before (Nat.lt_succ_of_lt bound)

end Szczupak
