import Mathlib.Tactic.Common

/-!
Computations that keep a record of what they did, such as the addresses they read.  The result
does not depend on the record, and a property of every event is proved along the computation.
-/

namespace Szczupak

structure Recorded (Event Result : Type) where
  result : Result
  events : List Event

namespace Recorded

variable {Event Result Next : Type}

instance : Monad (Recorded Event) where
  pure result := ⟨result, []⟩
  bind first next := ⟨(next first.result).result, first.events ++ (next first.result).events⟩

def tell (event : Event) : Recorded Event Unit := ⟨(), [event]⟩

def Always (property : Event → Prop) (computation : Recorded Event Result) : Prop :=
  ∀ event ∈ computation.events, property event

@[simp] theorem pure_result (result : Result) :
    (pure result : Recorded Event Result).result = result := rfl

@[simp] theorem bind_result (first : Recorded Event Result) (next : Result → Recorded Event Next) :
    (first >>= next).result = (next first.result).result := rfl

@[simp] theorem pure_events (result : Result) : (pure result : Recorded Event Result).events = [] := rfl

@[simp] theorem bind_events (first : Recorded Event Result) (next : Result → Recorded Event Next) :
    (first >>= next).events = first.events ++ (next first.result).events := rfl

@[simp] theorem tell_result (event : Event) : (tell event).result = () := rfl

@[simp] theorem tell_events (event : Event) : (tell event).events = [event] := rfl

section Always

variable {property : Event → Prop} {first : Recorded Event Result} {next : Result → Recorded Event Next}

theorem Always.pure (result : Result) : Always property (Pure.pure result : Recorded Event Result) := by
  intro event member
  cases member

theorem Always.tell {event : Event} (holds : property event) :
    Always property (Recorded.tell event) := by
  intro other member
  rw [List.mem_singleton.mp member]
  exact holds

theorem Always.bind (before : Always property first) (after : Always property (next first.result)) :
    Always property (first >>= next) := by
  intro event member
  rcases List.mem_append.mp member with early | late
  · exact before event early
  · exact after event late

end Always

end Recorded

end Szczupak
