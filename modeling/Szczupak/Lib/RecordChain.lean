import Mathlib.Tactic.Common

/-!
Records one behind the other that tell their own size.  A record is the place it stands at; a
chain goes on as
long as the next record is well formed: it has at least its header, says so,
and ends before the end of all.
-/

namespace Szczupak

structure RecordAt (size : Nat → Nat) (header stop place : Nat) : Prop where
  present : place + header ≤ stop
  large : header ≤ size place
  inside : place + size place ≤ stop

instance (size : Nat → Nat) (header stop place : Nat) : Decidable (RecordAt size header stop place) :=
  decidable_of_iff (place + header ≤ stop ∧ header ≤ size place ∧ place + size place ≤ stop)
    ⟨fun ⟨present, large, inside⟩ => ⟨present, large, inside⟩, fun record =>
      ⟨record.present, record.large, record.inside⟩⟩

/-- The longest chain of well-formed records from a place on. -/
inductive RecordChain (size : Nat → Nat) (header stop : Nat) : Nat → List Nat → Prop where
  | last {place : Nat} (ended : ¬RecordAt size header stop place) :
    RecordChain size header stop place []
  | next {place : Nat} {rest : List Nat} (record : RecordAt size header stop place)
      (more : RecordChain size header stop (place + size place) rest) :
      RecordChain size header stop place (place :: rest)

section Chain

variable {size : Nat → Nat} {header stop place : Nat} {records other : List Nat}

theorem RecordChain.mem (chain : RecordChain size header stop place records) {entry : Nat}
    (member : entry ∈ records) : place ≤ entry ∧ RecordAt size header stop entry := by
  induction chain with
  | last => cases member
  | @next start _ record _ ih =>
      rcases List.mem_cons.mp member with rfl | later
      · exact ⟨Nat.le_refl _, record⟩
      · obtain ⟨behind, found⟩ := ih later
        exact ⟨by omega, found⟩

theorem RecordChain.length (chain : RecordChain size header stop place records) :
    records.length * header ≤ stop - place := by
  induction chain with
  | last => simp
  | next record _ ih =>
      have large := record.large
      have inside := record.inside
      rw [List.length_cons, Nat.succ_mul]
      omega

theorem RecordChain.increasing (some : 0 < header)
    (chain : RecordChain size header stop place records) : records.Pairwise (· < ·) := by
  induction chain with
  | last => exact List.Pairwise.nil
  | next record more ih =>
      refine List.Pairwise.cons (fun later member => ?_) ih
      have behind := (more.mem member).1
      have large := record.large
      omega

/-- A loop that visits the record it stands at and goes on behind it folds the visits along the
chain, and ends. -/
theorem RecordChain.loop {State : Type} {visit : Nat → State → State}
    {loop : Nat → Nat → State → Option State}
    (step : ∀ turns place state, loop (turns + 1) place state =
      if RecordAt size header stop place then loop turns (place + size place) (visit place state)
        else some state)
    {turns : Nat} (state : State) (enough : stop < place + turns * header) (some : 0 < turns) :
    ∃ records, RecordChain size header stop place records ∧
      loop turns place state = Option.some (records.foldl (fun state place => visit place state) state) := by
  induction turns generalizing place state with
  | zero => omega
  | succ turns ih =>
      rw [step]
      split
      next record =>
        have large := record.large
        have inside := record.inside
        rw [Nat.succ_mul] at enough
        cases turns with
        | zero => omega
        | succ turns =>
            obtain ⟨rest, chain, result⟩ :=
              @ih (place + size place) (visit place state) (by omega) (Nat.succ_pos _)
            exact ⟨place :: rest, .next record chain, result⟩
      next ended => exact ⟨[], .last ended, rfl⟩

end Chain

end Szczupak
