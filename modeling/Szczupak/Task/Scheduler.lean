import Mathlib.Data.List.Perm.Subperm
import Szczupak.Lib.Transition
import Szczupak.Task.SchedulerCore

/-!
The ready queue holds every task that can run.  `Queued` ties the two linked lists of the
kernel to lists of task addresses; each routine keeps it, except where a picked idle task
is put back while it is already marked running.
-/

namespace Szczupak

section Modify

variable {s : Sched} {address other : Nat} {change : Task → Task}

@[simp] theorem modify_task_same : (s.modify address change).task address = change (s.task address) :=
  Function.update_self _ _ _

theorem modify_task_other (different : other ≠ address) :
    (s.modify address change).task other = s.task other :=
  Function.update_of_ne different _ _

theorem modify_next : (s.modify address change).next =
    Function.update s.next address (change (s.task address)).next :=
  Function.comp_update Task.next s.task address _

theorem modify_allNext : (s.modify address change).allNext =
    Function.update s.allNext address (change (s.task address)).allNext :=
  Function.comp_update Task.allNext s.task address _

theorem modify_field {β : Type} (field : Task → β) (kept : ∀ old, field (change old) = field old)
    (other : Nat) :
    field ((s.modify address change).task other) = field (s.task other) := by
  by_cases here : other = address
  · subst here
    rw [modify_task_same, kept]
  · rw [modify_task_other here]

end Modify

/-- The same tasks in the same list; only queue links and states may differ. -/
structure SameTasks (s after : Sched) : Prop where
  tasks : ∀ address, after.task address =
    { s.task address with next := (after.task address).next, state := (after.task address).state }
  live : after.live = s.live
  current : after.current = s.current
  taskListHead : after.taskListHead = s.taskListHead

theorem SameTasks.allNext {s after : Sched} (same : SameTasks s after) : after.allNext = s.allNext := by
  funext address
  rw [Sched.allNext, same.tasks address, Sched.allNext]

theorem SameTasks.kernelStack {s after : Sched} (same : SameTasks s after) (address : Nat) :
    (after.task address).kernelStack = (s.task address).kernelStack := by
  rw [same.tasks address]

theorem SameTasks.refl (s : Sched) : SameTasks s s := ⟨fun _ => rfl, rfl, rfl, rfl⟩

theorem SameTasks.trans {s middle after : Sched} (left : SameTasks s middle)
    (right : SameTasks middle after) : SameTasks s after := by
  refine ⟨fun address => ?_, right.live.trans left.live, right.current.trans left.current,
    right.taskListHead.trans left.taskListHead⟩
  rw [right.tasks address, left.tasks address]

theorem SameTasks.modify {s : Sched} {task : Nat} {change : Task → Task}
    (only : change (s.task task) =
      { s.task task with next := (change (s.task task)).next, state := (change (s.task task)).state }) :
    SameTasks s (s.modify task change) := by
  refine ⟨fun address => ?_, rfl, rfl, rfl⟩
  by_cases same : address = task
  · subst same
    rw [modify_task_same]
    exact only
  · rw [modify_task_other same]

structure Enqueued (s after : Sched) (task : Nat) (front back : List Nat) : Prop where
  same : SameTasks s after
  linked : Linked after.next 0 after.readyQueue (front ++ task :: back)
  state : (after.task task).state = .ready
  others : ∀ address, address ≠ task → (after.task address).state = (s.task address).state

section Queue

variable {s : Sched} {ready : List Nat} {task : Nat}

def notLater (s : Sched) (task cur : Nat) : Bool :=
  !decide ((s.task task).priority < (s.task cur).priority)

theorem getLastD_zero {nodes : List Nat} (nonNull : ∀ node ∈ nodes, node ≠ 0)
    (zero : nodes.getLastD 0 = 0) : nodes = [] := by
  rcases List.eq_nil_or_concat nodes with empty | ⟨start, last, rfl⟩
  · exact empty
  · simp only [List.concat_eq_append, List.getLastD_concat] at zero
    exact absurd zero (nonNull last (by simp))

theorem schedulerAddTask_spec (linked : Linked s.next 0 s.readyQueue ready) (distinct : ready.Nodup)
    (short : ready.length < s.fuel) (nonNull : task ≠ 0) (fresh : task ∉ ready)
    (stack : (s.task task).kernelStack ≠ 0) (idle : (s.task task).state ≠ .running) :
    ∃ after, schedulerAddTask s task = some after ∧
      Enqueued s after task (ready.takeWhile (notLater s task)) (ready.dropWhile (notLater s task)) := by
  unfold schedulerAddTask
  rw [if_neg nonNull, if_neg stack, if_neg idle]
  dsimp only
  generalize markedEq : (s.modify task fun old =>
    { old with next := 0, state := TaskState.ready }) = marked
  have markedSame : SameTasks s marked := by
    rw [← markedEq]
    exact SameTasks.modify rfl
  have markedLinked : Linked marked.next 0 marked.readyQueue ready := by
    rw [← markedEq, modify_next]
    exact linked.update fresh
  have markedState : (marked.task task).state = .ready := by
    rw [← markedEq, modify_task_same]
  have markedOthers : ∀ address, address ≠ task →
      (marked.task address).state = (s.task address).state := by
    intro address different
    rw [← markedEq, modify_task_other different]
  have priority : ∀ address, (marked.task address).priority = (s.task address).priority := by
    intro address
    rw [markedSame.tasks address]
  have markedFuel : marked.fuel = s.fuel := by
    rw [Sched.fuel, markedSame.live, Sched.fuel]
  have markedNext : marked.next task = 0 := by
    rw [← markedEq, modify_next, Function.update_self]
  clear markedEq
  -- what is left only sets links
  have finish : ∀ after : Sched, SameTasks marked after →
      (∀ address, (after.task address).state = (marked.task address).state) →
      Linked after.next 0 after.readyQueue
        (ready.takeWhile (notLater s task) ++ task :: ready.dropWhile (notLater s task)) →
      Enqueued s after task (ready.takeWhile (notLater s task))
        (ready.dropWhile (notLater s task)) := by
    intro after same states placed
    refine ⟨markedSame.trans same, placed, (states task).trans markedState, ?_⟩
    intro address different
    exact (states address).trans (markedOthers address different)
  by_cases empty : marked.readyQueue = 0
  · rw [if_pos empty]
    have none : ready = [] := markedLinked.unique empty
    subst none
    refine ⟨_, rfl, finish _ ⟨fun _ => rfl, rfl, rfl, rfl⟩ (fun _ => rfl) ?_⟩
    exact ⟨rfl, nonNull, markedNext⟩
  · rw [if_neg empty]
    have searched := @seek_spec marked.next marked.readyQueue ready
      (fun cur => decide ((marked.task task).priority < (marked.task cur).priority)) marked.fuel 0
      markedLinked (by rw [markedFuel]; exact short)
    have same : (fun cur => !decide ((marked.task task).priority < (marked.task cur).priority)) =
        notLater s task := by
      funext cur
      rw [priority task, priority cur, notLater]
    rw [same] at searched
    rw [searched]
    dsimp only
    have parts := @List.takeWhile_append_dropWhile _ (notLater s task) ready
    generalize frontEq : ready.takeWhile (notLater s task) = front at *
    generalize backEq : ready.dropWhile (notLater s task) = back at *
    have frontNonNull : ∀ node ∈ front, node ≠ 0 := by
      intro node member
      refine markedLinked.nonNull ?_
      rw [← parts]
      exact List.mem_append_left _ member
    by_cases first : front.getLastD 0 = 0
    · rw [if_pos first]
      have none := getLastD_zero frontNonNull first
      subst none
      rw [List.nil_append] at parts
      refine ⟨_, rfl, finish _ ?_ ?_ ⟨rfl, nonNull, ?_⟩⟩
      · have linkedTasks := @SameTasks.modify marked task
          (fun old => { old with next := marked.readyQueue }) rfl
        exact ⟨linkedTasks.tasks, rfl, rfl, rfl⟩
      · intro address
        by_cases here : address = task
        · subst here
          simp
        · simp [modify_task_other here]
      · have next : (marked.modify task fun old => { old with next := marked.readyQueue }).next =
            Function.update marked.next task marked.readyQueue := modify_next
        change Linked (marked.modify task fun old => { old with next := marked.readyQueue }).next 0
          ((marked.modify task fun old => { old with next := marked.readyQueue }).next task) back
        rw [next, Function.update_self, parts]
        exact markedLinked.update fresh
    · rw [if_neg first]
      obtain ⟨start, last, rfl⟩ : ∃ start last, front = start ++ [last] := by
        rcases List.eq_nil_or_concat front with rfl | ⟨start, last, rfl⟩
        · exact absurd rfl first
        · exact ⟨start, last, List.concat_eq_append⟩
      rw [List.getLastD_concat]
      have notLast : last ≠ task := by
        rintro rfl
        exact fresh (parts ▸ by simp)
      generalize linkedEq : ((marked.modify task fun old => { old with next := back.headD 0 }).modify last
        fun old => { old with next := task }) = joined
      have joinedSame : SameTasks marked joined := by
        rw [← linkedEq]
        exact (SameTasks.modify rfl).trans (SameTasks.modify rfl)
      have joinedStates : ∀ address, (joined.task address).state = (marked.task address).state := by
        intro address
        rw [← linkedEq]
        by_cases isLast : address = last
        · subst isLast
          simp [modify_task_other notLast]
        · rw [modify_task_other isLast]
          by_cases isTask : address = task
          · subst isTask
            simp
          · rw [modify_task_other isTask]
      have joinedLinked : Linked joined.next 0 joined.readyQueue (start ++ [last] ++ task :: back) := by
        rw [← parts] at markedLinked distinct fresh
        rw [← linkedEq, modify_next, modify_next]
        exact (markedLinked.update fresh).insert distinct nonNull fresh (Function.update_self _ _ _)
      by_cases atEnd : back.headD 0 = 0
      · rw [if_pos atEnd]
        exact ⟨_, rfl, finish _ ⟨joinedSame.tasks, joinedSame.live, joinedSame.current,
          joinedSame.taskListHead⟩ joinedStates joinedLinked⟩
      · rw [if_neg atEnd]
        exact ⟨_, rfl, finish _ joinedSame joinedStates joinedLinked⟩

structure Dequeued (s after : Sched) (rest : List Nat) : Prop where
  same : SameTasks s after
  linked : Linked after.next 0 after.readyQueue rest
  states : ∀ address, (after.task address).state = (s.task address).state

theorem schedulerRemoveTask_spec (linked : Linked s.next 0 s.readyQueue ready)
    (distinct : ready.Nodup) (short : ready.length < s.fuel) :
    ∃ after, schedulerRemoveTask s task = some after ∧ Dequeued s after (ready.erase task) := by
  unfold schedulerRemoveTask
  by_cases trivialCall : task = 0 ∨ s.readyQueue = 0
  · rw [if_pos trivialCall]
    have absent : task ∉ ready := by
      intro member
      rcases trivialCall with rfl | empty
      · exact linked.nonNull member rfl
      · cases ready with
        | nil => simp at member
        | cons first rest => exact linked.2.1 (linked.1.symm.trans empty)
    rw [List.erase_of_not_mem absent]
    exact ⟨s, rfl, SameTasks.refl s, linked, fun _ => rfl⟩
  · rw [if_neg trivialCall]
    rcases @seek_cases s.next s.readyQueue ready (fun cur => decide (cur = task)) s.fuel 0 linked
      short with ⟨front, node, back, rfl, hit, skipped, searched⟩ | ⟨missing, last, searched⟩
    · obtain rfl : node = task := by simpa using hit
      have absent : node ∉ front := by
        intro member
        simpa using skipped node member
      rw [searched]
      dsimp only
      rw [if_neg (linked.nonNull (by simp)), List.erase_append_right _ absent, List.erase_cons_head]
      obtain ⟨atHead, between⟩ := linked.remove distinct
      -- the tail pointer takes no part in the chain
      have finish : ∀ unlinked : Sched, Dequeued s unlinked (front ++ back) → ∀ tail, ∃ after,
          some (if s.readyQueueTail = node then { unlinked with readyQueueTail := tail }
            else unlinked) = some after ∧ Dequeued s after (front ++ back) := by
        intro unlinked removed tail
        refine ⟨_, rfl, ?_⟩
        split
        · exact ⟨⟨removed.same.tasks, removed.same.live, removed.same.current,
            removed.same.taskListHead⟩, removed.linked, removed.states⟩
        · exact removed
      apply finish
      rcases List.eq_nil_or_concat front with rfl | ⟨start, last, rfl⟩
      · exact ⟨⟨fun _ => rfl, rfl, rfl, rfl⟩, atHead rfl, fun _ => rfl⟩
      · rw [List.concat_eq_append] at *
        have lastNonNull : last ≠ 0 := linked.nonNull (by simp)
        rw [List.getLastD_concat, if_neg lastNonNull]
        refine ⟨SameTasks.modify rfl, ?_, ?_⟩
        · rw [modify_next]
          exact between start last rfl
        · intro address
          by_cases isLast : address = last
          · subst isLast
            simp
          · rw [modify_task_other isLast]
    · have absent : task ∉ ready := by
        intro member
        simpa using missing task member
      rw [searched, List.erase_of_not_mem absent]
      exact ⟨s, rfl, SameTasks.refl s, linked, fun _ => rfl⟩

end Queue

/-- `ready` and `all` are the tasks of the two lists.  The queue holds the tasks that can
run, except the current one and `absent`. -/
structure Queued (s : Sched) (absent : Nat) (ready all : List Nat) : Prop where
  readyLinked : Linked s.next 0 s.readyQueue ready
  allLinked : Linked s.allNext 0 s.taskListHead all
  readyDistinct : ready.Nodup
  allDistinct : all.Nodup
  allLive : ∀ task ∈ all, task ∈ s.live
  stacked : ∀ task ∈ all, (s.task task).kernelStack ≠ 0
  readyMem : ∀ task, task ∈ ready ↔
    task ∈ all ∧ task ≠ s.current ∧ (s.task task).state ≠ .terminated ∧ task ≠ absent
  readyState : ∀ task ∈ ready, (s.task task).state = .ready
  currentMem : s.current ∈ all
  currentState : (s.task s.current).state = .running ∨ (s.task s.current).state = .terminated

/-- Every task that can run and is not running is in the queue, once; no exited one is. -/
def NoTaskLost (s : Sched) : Prop :=
  ∃ ready all, Linked s.next 0 s.readyQueue ready ∧ Linked s.allNext 0 s.taskListHead all ∧
    (∀ task ∈ all, (s.task task).state ≠ .terminated → task ≠ s.current → ready.count task = 1) ∧
    ∀ task ∈ ready, (s.task task).state ≠ .terminated

section Invariant

variable {s after : Sched} {absent task : Nat} {ready all : List Nat}

theorem Queued.noTaskLost (queued : Queued s 0 ready all) : NoTaskLost s := by
  refine ⟨ready, all, queued.readyLinked, queued.allLinked, ?_, ?_⟩
  · intro task member runs other
    refine List.count_eq_one_of_mem queued.readyDistinct ((queued.readyMem task).mpr ?_)
    exact ⟨member, other, runs, queued.allLinked.nonNull member⟩
  · intro task member
    rw [queued.readyState task member]
    simp

section

variable (queued : Queued s absent ready all)
include queued

theorem Queued.readyAll (member : task ∈ ready) : task ∈ all :=
  ((queued.readyMem task).mp member).1

theorem Queued.allShort : all.length < s.fuel := by
  have bound := (List.Nodup.subperm queued.allDistinct queued.allLive).length_le
  rw [Sched.fuel]
  omega

theorem Queued.readyShort : ready.length < s.fuel := by
  have bound := (List.Nodup.subperm queued.readyDistinct
    fun task member => queued.allLive task (queued.readyAll member)).length_le
  rw [Sched.fuel]
  omega

theorem Queued.modify {change : Task → Task}
    (next : ∀ old, (change old).next = old.next) (allNext : ∀ old, (change old).allNext = old.allNext)
    (stack : ∀ old, (change old).kernelStack = old.kernelStack)
    (state : ∀ old, (change old).state = old.state) :
    Queued (s.modify task change) absent ready all := by
  have states := @modify_field s task change _ Task.state state
  refine ⟨queued.readyLinked.congr fun address _ => modify_field Task.next next address,
    queued.allLinked.congr fun address _ => modify_field Task.allNext allNext address,
    queued.readyDistinct, queued.allDistinct, queued.allLive, ?_, ?_, ?_, queued.currentMem, ?_⟩
  · intro address member
    rw [modify_field Task.kernelStack stack]
    exact queued.stacked address member
  · intro address
    rw [states]
    exact queued.readyMem address
  · intro address member
    rw [states]
    exact queued.readyState address member
  · rw [states]
    exact queued.currentState

end

theorem Queued.add (queued : Queued s task ready all) (member : task ∈ all)
    (other : task ≠ s.current) (idle : (s.task task).state = .ready) :
    ∃ after ready', schedulerAddTask s task = some after ∧ after.current = s.current ∧
      Queued after 0 ready' all := by
  have fresh : task ∉ ready := fun inside => ((queued.readyMem task).mp inside).2.2.2 rfl
  have nonNull := queued.allLinked.nonNull member
  obtain ⟨after, added, placed⟩ := schedulerAddTask_spec queued.readyLinked queued.readyDistinct
    queued.readyShort nonNull fresh (queued.stacked task member) (by simp [idle])
  have parts := @List.takeWhile_append_dropWhile _ (notLater s task) ready
  generalize ready.takeWhile (notLater s task) = front at *
  generalize ready.dropWhile (notLater s task) = back at *
  refine ⟨after, front ++ task :: back, added, placed.same.current, ?_⟩
  have mem : ∀ address, address ∈ front ++ task :: back ↔ address = task ∨ address ∈ ready := by
    intro address
    rw [← parts]
    simp only [List.mem_append, List.mem_cons]
    constructor
    · rintro (left | here | right)
      · exact Or.inr (Or.inl left)
      · exact Or.inl here
      · exact Or.inr (Or.inr right)
    · rintro (here | left | right)
      · exact Or.inr (Or.inl here)
      · exact Or.inl left
      · exact Or.inr (Or.inr right)
  have states : ∀ address, (after.task address).state = (s.task address).state := by
    intro address
    by_cases here : address = task
    · rw [here, placed.state, idle]
    · exact placed.others address here
  refine ⟨placed.linked, ?_, ?_, queued.allDistinct, ?_, ?_, ?_, ?_, ?_, ?_⟩
  · rw [placed.same.allNext, placed.same.taskListHead]
    exact queued.allLinked
  · refine List.nodup_middle.mpr (List.nodup_cons.mpr ?_)
    rw [parts]
    exact ⟨fresh, queued.readyDistinct⟩
  · intro address inside
    rw [placed.same.live]
    exact queued.allLive address inside
  · intro address inside
    rw [placed.same.kernelStack]
    exact queued.stacked address inside
  · intro address
    rw [mem, queued.readyMem, placed.same.current, states]
    constructor
    · rintro (rfl | ⟨inside, notCurrent, runs, _⟩)
      · exact ⟨member, other, by simp [idle], nonNull⟩
      · exact ⟨inside, notCurrent, runs, queued.allLinked.nonNull inside⟩
    · rintro ⟨inside, notCurrent, runs, _⟩
      by_cases here : address = task
      · exact Or.inl here
      · exact Or.inr ⟨inside, notCurrent, runs, here⟩
  · intro address inside
    rw [states]
    rcases (mem address).mp inside with rfl | old
    · exact idle
    · exact queued.readyState address old
  · rw [placed.same.current]
    exact queued.currentMem
  · rw [placed.same.current, states]
    exact queued.currentState

theorem pickNext_other {address : Nat} (different : address ≠ s.readyQueue) :
    (pickNext s).task address = s.task address := by
  simp only [pickNext]
  exact modify_task_other different

theorem pickNext_same : (pickNext s).task s.readyQueue =
    { s.task s.readyQueue with next := 0, state := .running } := by
  simp only [pickNext]
  exact modify_task_same

theorem refusesIdle_pickNext {prev : Nat} (different : prev ≠ s.readyQueue) :
    refusesIdle (pickNext s) prev s.readyQueue = refusesIdle s prev s.readyQueue := by
  simp only [refusesIdle, pickNext_other different, pickNext_same]

theorem Queued.switch (queued : Queued s 0 ready all) (waits : s.readyQueue ≠ 0) :
    s.readyQueue ≠ s.current ∧ s.readyQueue ∈ all ∧
      ∃ rest, Queued { pickNext s with current := s.readyQueue }
        (if (s.task s.current).state = .running then s.current else 0) rest all := by
  obtain ⟨rest, rfl, tail⟩ := queued.readyLinked.head_mem waits
  generalize pickedEq : s.readyQueue = picked at *
  have pickedMem := (queued.readyMem picked).mp List.mem_cons_self
  have pickedFresh := (List.nodup_cons.mp queued.readyDistinct).1
  refine ⟨pickedMem.2.1, pickedMem.1, rest, ?_⟩
  have task : ∀ address, address ≠ picked → (pickNext s).task address = s.task address :=
    fun address different => pickNext_other (by rw [pickedEq]; exact different)
  have pickedTask : (pickNext s).task picked =
      { s.task picked with next := 0, state := .running } := by
    rw [← pickedEq]
    exact pickNext_same
  have next : (pickNext s).next = Function.update s.next picked 0 := by
    funext address
    by_cases here : address = picked
    · rw [here, Sched.next, pickedTask, Function.update_self]
    · rw [Sched.next, task address here, Function.update_of_ne here, Sched.next]
  have allNext : (pickNext s).allNext = s.allNext := by
    funext address
    by_cases here : address = picked
    · rw [here, Sched.allNext, pickedTask, Sched.allNext]
    · rw [Sched.allNext, task address here, Sched.allNext]
  have head : (pickNext s).readyQueue = s.next picked := by
    simp only [pickNext, pickedEq]
    rfl
  refine ⟨?_, ?_, (List.nodup_cons.mp queued.readyDistinct).2, queued.allDistinct, queued.allLive,
    ?_, ?_, ?_, pickedMem.1, Or.inl ?_⟩
  · change Linked (pickNext s).next 0 (pickNext s).readyQueue rest
    rw [next, head]
    exact tail.update pickedFresh
  · change Linked (pickNext s).allNext 0 s.taskListHead all
    rw [allNext]
    exact queued.allLinked
  · intro address member
    change ((pickNext s).task address).kernelStack ≠ 0
    have stack := queued.stacked address member
    by_cases here : address = picked
    · rw [here] at stack ⊢
      rw [pickedTask]
      exact stack
    · rw [task address here]
      exact stack
  · intro address
    change address ∈ rest ↔ address ∈ all ∧ address ≠ picked ∧
      ((pickNext s).task address).state ≠ .terminated ∧ _
    have old := queued.readyMem address
    by_cases here : address = picked
    · subst here
      simp [pickedFresh]
    · rw [task address here]
      simp only [List.mem_cons, here, false_or] at old
      rw [old]
      have state := queued.currentState
      constructor
      · rintro ⟨inside, notCurrent, runs, nonNull⟩
        refine ⟨inside, here, runs, ?_⟩
        split
        · exact notCurrent
        · exact nonNull
      · rintro ⟨inside, _, runs, notAbsent⟩
        refine ⟨inside, ?_, runs, queued.allLinked.nonNull inside⟩
        rintro rfl
        rcases state with running | terminated
        · rw [if_pos running] at notAbsent
          exact notAbsent rfl
        · exact runs terminated
  · intro address member
    change ((pickNext s).task address).state = .ready
    rw [task address (fun here => pickedFresh (here ▸ member))]
    exact queued.readyState address (List.mem_cons_of_mem _ member)
  · change ((pickNext s).task picked).state = .running
    rw [pickedTask]

theorem Queued.requeue {prev : Nat} (member : prev ∈ all) (other : prev ≠ s.current)
    (queued : Queued s (if (s.task prev).state = .running then prev else 0) ready all) :
    ∃ after ready', Szczupak.requeue s prev = some after ∧ Queued after 0 ready' all := by
  unfold Szczupak.requeue
  by_cases running : (s.task prev).state = .running
  · rw [if_pos running] at queued ⊢
    have notReady : prev ∉ ready := fun inside => ((queued.readyMem prev).mp inside).2.2.2 rfl
    have task : ∀ address, address ≠ prev →
        (s.modify prev fun old => { old with state := .ready }).task address = s.task address :=
      fun address different => modify_task_other different
    have marked : Queued (s.modify prev fun old => { old with state := .ready }) prev ready all := by
      refine ⟨?_, ?_, queued.readyDistinct, queued.allDistinct, queued.allLive, ?_, ?_, ?_,
        queued.currentMem, ?_⟩
      · rw [modify_next]
        exact queued.readyLinked.update notReady
      · refine queued.allLinked.congr fun address _ => ?_
        by_cases here : address = prev
        · subst here
          simp [Sched.allNext]
        · rw [Sched.allNext, task address here, Sched.allNext]
      · intro address inside
        by_cases here : address = prev
        · subst here
          simpa using queued.stacked address inside
        · rw [task address here]
          exact queued.stacked address inside
      · intro address
        by_cases here : address = prev
        · subst here
          simp [notReady]
        · rw [task address here]
          exact queued.readyMem address
      · intro address inside
        rw [task address (fun here => notReady (here ▸ inside))]
        exact queued.readyState address inside
      · change ((s.modify prev fun old => { old with state := .ready }).task s.current).state =
          .running ∨ ((s.modify prev fun old => { old with state := .ready }).task
          s.current).state = .terminated
        rw [task _ (Ne.symm other)]
        exact queued.currentState
    obtain ⟨added, ready', done, _, final⟩ := marked.add member other (by simp)
    exact ⟨added, ready', done, final⟩
  · rw [if_neg running] at queued ⊢
    exact ⟨s, ready, rfl, queued⟩

section

variable (queued : Queued s 0 ready all)
include queued

theorem Queued.schedule {savedRsp : Nat} {kernelMapped : Bool}
    (safe : s.enabled = true → s.readyQueue ≠ 0 → refusesIdle s s.current s.readyQueue = false)
    (called : Szczupak.schedule s savedRsp kernelMapped = some after) :
    ∃ ready', Queued after 0 ready' all := by
  unfold Szczupak.schedule at called
  by_cases stays : !s.enabled ∨ s.readyQueue = 0
  · rw [if_pos stays] at called
    exact ⟨ready, Option.some.inj called ▸ queued⟩
  · rw [if_neg stays] at called
    simp only [Bool.not_eq_true', not_or, Bool.not_eq_false] at stays
    rw [if_neg (queued.allLinked.nonNull queued.currentMem)] at called
    obtain ⟨different, _, rest, switched⟩ := queued.switch stays.2
    dsimp only at called
    rw [refusesIdle_pickNext (Ne.symm different), safe stays.1 stays.2, if_neg (by simp),
      if_neg different] at called
    generalize nextEq : s.readyQueue = next at *
    generalize stackedEq : (if (({ pickNext s with current := next } : Sched).task next).name = idleName
      then ({ pickNext s with current := next } : Sched).modify next fun old =>
        { old with kernelRsp := old.kernelStack + kernelStackSize }
      else { pickNext s with current := next }) = stacked at called
    have stackedQueued : Queued stacked (if (s.task s.current).state = .running then s.current
        else 0) rest all := by
      rw [← stackedEq]
      split
      · exact switched.modify (fun _ => rfl) (fun _ => rfl) (fun _ => rfl) fun _ => rfl
      · exact switched
    have prevTask : stacked.task s.current = s.task s.current ∧ stacked.current = next := by
      have left : ({ pickNext s with current := next } : Sched).task s.current = s.task s.current :=
        pickNext_other (by rw [nextEq]; exact Ne.symm different)
      rw [← stackedEq]
      split
      · exact ⟨(modify_task_other (Ne.symm different)).trans left, rfl⟩
      · exact ⟨left, rfl⟩
    split at called
    · contradiction
    · split at called
      · contradiction
      · rw [← prevTask.1] at stackedQueued
        obtain ⟨requeued, ready', done, final⟩ := Queued.requeue queued.currentMem
          (by rw [prevTask.2]; exact Ne.symm different) stackedQueued
        rw [done, Option.map_some] at called
        refine ⟨ready', Option.some.inj called ▸ ?_⟩
        exact final.modify (fun _ => rfl) (fun _ => rfl) (fun _ => rfl) fun _ => rfl

theorem Queued.scheduleFromIrq {irqRsp cs rsp : Nat}
    (safe : irqPreempts s irqRsp cs = true → refusesIdle s s.current s.readyQueue = false)
    (called : Szczupak.scheduleFromIrq s irqRsp cs = some (rsp, after)) :
    ∃ ready', Queued after 0 ready' all := by
  unfold Szczupak.scheduleFromIrq at called
  cases preempts : irqPreempts s irqRsp cs with
  | false =>
      simp only [preempts, Bool.not_false, if_true, Option.some.injEq, Prod.mk.injEq] at called
      exact ⟨ready, called.2 ▸ queued⟩
  | true =>
      have waits : s.readyQueue ≠ 0 := by
        simp only [irqPreempts, Bool.and_eq_true, bne_iff_ne] at preempts
        exact preempts.1.1.1.2
      obtain ⟨different, _, rest, switched⟩ := queued.switch waits
      rw [preempts] at called
      dsimp only at called
      rw [if_neg (by simp), if_neg different, refusesIdle_pickNext (Ne.symm different),
        safe preempts, if_neg (by simp)] at called
      generalize nextEq : s.readyQueue = next at *
      have saved : Queued ({ pickNext s with current := next }.modify s.current
          fun old => { old with kernelRsp := irqRsp })
          (if (s.task s.current).state = .running then s.current else 0) rest all :=
        switched.modify (fun _ => rfl) (fun _ => rfl) (fun _ => rfl) fun _ => rfl
      have prevState : ((({ pickNext s with current := next } : Sched).modify s.current
          fun old => { old with kernelRsp := irqRsp }).task s.current).state =
          (s.task s.current).state := by
        rw [modify_task_same]
        change ((pickNext s).task s.current).state = (s.task s.current).state
        rw [pickNext_other (by rw [nextEq]; exact Ne.symm different)]
      rw [← prevState] at saved
      obtain ⟨requeued, ready', done, final⟩ := Queued.requeue queued.currentMem
        (Ne.symm different) saved
      have done' : Szczupak.requeue { (pickNext s).modify s.current fun old =>
          { old with kernelRsp := irqRsp } with current := next } s.current = some requeued := done
      rw [done', Option.map_some] at called
      simp only [Option.some.injEq, Prod.mk.injEq] at called
      exact ⟨ready', called.2 ▸ final⟩

theorem Queued.insert {block : Nat} {task : Task}
    (nonNull : block ≠ 0) (fresh : block ∉ s.live) (stack : task.kernelStack ≠ 0) :
    Queued (taskListInsert (allocTask s block task) block) block ready (block :: all) := by
  have notAll : block ∉ all := fun member => fresh (queued.allLive block member)
  have notReady : block ∉ ready := fun member => notAll (queued.readyAll member)
  have inserted : (taskListInsert (allocTask s block task) block).task block =
      { task with allNext := s.taskListHead } := by
    simp only [taskListInsert, modify_task_same, allocTask, Function.update_self]
  have others : ∀ address, address ≠ block →
      (taskListInsert (allocTask s block task) block).task address = s.task address := by
    intro address different
    simp only [taskListInsert, modify_task_other different, allocTask,
      Function.update_of_ne different]
  have current : s.current ≠ block := fun same => notAll (same ▸ queued.currentMem)
  refine ⟨?_, ⟨rfl, nonNull, ?_⟩, queued.readyDistinct, ?_, ?_, ?_, ?_, ?_,
    List.mem_cons_of_mem _ queued.currentMem, ?_⟩
  · refine queued.readyLinked.congr fun address member => ?_
    rw [Sched.next, others address (fun same => notReady (same ▸ member)), Sched.next]
  · have head : (taskListInsert (allocTask s block task) block).allNext block = s.taskListHead := by
      rw [Sched.allNext, inserted]
    rw [head]
    refine queued.allLinked.congr fun address member => ?_
    rw [Sched.allNext, others address (fun same => notAll (same ▸ member)), Sched.allNext]
  · exact List.nodup_cons.mpr ⟨notAll, queued.allDistinct⟩
  · intro address member
    change address ∈ block :: s.live
    rcases List.mem_cons.mp member with rfl | old
    · exact List.mem_cons_self
    · exact List.mem_cons_of_mem _ (queued.allLive address old)
  · intro address member
    by_cases here : address = block
    · rw [here, inserted]
      exact stack
    · rw [others address here]
      exact queued.stacked address ((List.mem_cons.mp member).resolve_left here)
  · intro address
    by_cases here : address = block
    · subst here
      simp [notReady]
    · rw [others address here, queued.readyMem, List.mem_cons]
      constructor
      · rintro ⟨inside, notCurrent, runs, _⟩
        exact ⟨Or.inr inside, notCurrent, runs, here⟩
      · rintro ⟨inside, notCurrent, runs, _⟩
        have old := inside.resolve_left here
        exact ⟨old, notCurrent, runs, queued.allLinked.nonNull old⟩
  · intro address member
    rw [others address (fun same => notReady (same ▸ member))]
    exact queued.readyState address member
  · change ((taskListInsert (allocTask s block task) block).task s.current).state = .running ∨
      ((taskListInsert (allocTask s block task) block).task s.current).state = .terminated
    rw [others s.current current]
    exact queued.currentState

theorem Queued.enlist {block : Nat} {task : Task}
    (nonNull : block ≠ 0) (fresh : block ∉ s.live) (stack : task.kernelStack ≠ 0)
    (state : task.state = .ready)
    (called : schedulerAddTask (taskListInsert (allocTask s block task) block) block = some after) :
    block ≠ after.current ∧ ∃ ready', Queued after 0 ready' (block :: all) := by
  have current : block ≠ s.current := by
    rintro rfl
    exact fresh (queued.allLive _ queued.currentMem)
  obtain ⟨added, ready', done, kept, final⟩ := (queued.insert nonNull fresh stack).add
    List.mem_cons_self current (by simp [taskListInsert, allocTask, state])
  obtain rfl := Option.some.inj (done.symm.trans called)
  rw [kept]
  exact ⟨current, ready', final⟩

end

theorem Queued.pid (queued : Queued s absent ready all) (pid : Nat) :
    Queued { s with nextPid := pid } absent ready all :=
  ⟨queued.readyLinked, queued.allLinked, queued.readyDistinct, queued.allDistinct, queued.allLive,
    queued.stacked, queued.readyMem, queued.readyState, queued.currentMem, queued.currentState⟩

variable {block stack rsp : Nat}

theorem Queued.taskCreate {name : List UInt8} (queued : Queued s 0 ready all)
    (called : Szczupak.taskCreate s name block stack rsp = some after) :
    ∃ ready' all', Queued after 0 ready' all' := by
  unfold Szczupak.taskCreate at called
  split at called
  · exact ⟨ready, all, Option.some.inj called ▸ queued⟩
  · split at called
    · exact ⟨ready, all, Option.some.inj called ▸ queued⟩
    · rename_i nonNull
      split at called
      · contradiction
      · rename_i fresh
        dsimp only at called
        split at called
        · exact ⟨ready, all, Option.some.inj called ▸ queued.pid _⟩
        · rename_i stacked
          obtain ⟨_, ready', final⟩ := (queued.pid ((s.nextPid + 1) % 2 ^ 32)).enlist nonNull fresh
            stacked rfl called
          exact ⟨ready', _, final⟩

/-- A user task is created, with its block at the head of the task list, or nothing but the
process id counter changes. -/
theorem Queued.taskCreateUser {name : List UInt8} {block stack rsp cr3 : Nat} {loaded : Bool}
    (queued : Queued s 0 ready all)
    (called : Szczupak.taskCreateUser s name block stack rsp cr3 loaded = some after) :
    ((block = 0 ∨ stack = 0 ∨ !loaded) ∧ Queued after 0 ready all) ∨
      ∃ ready', block ≠ after.current ∧ Queued after 0 ready' (block :: all) := by
  unfold Szczupak.taskCreateUser at called
  split at called
  · rename_i null
    exact Or.inl ⟨Or.inl null, Option.some.inj called ▸ queued⟩
  · rename_i nonNull
    split at called
    · contradiction
    · rename_i fresh
      dsimp only at called
      split at called
      · rename_i failed
        exact Or.inl ⟨Or.inr failed, Option.some.inj called ▸ queued.pid _⟩
      · rename_i stacked
        rw [not_or] at stacked
        obtain ⟨other, ready', final⟩ :=
          (queued.pid ((s.nextPid + 1) % 2 ^ 32)).enlist nonNull fresh stacked.1 rfl called
        exact Or.inr ⟨ready', other, final⟩

theorem Queued.detachChildren {parentPid fuel it : Nat} (queued : Queued s absent ready all)
    (called : Szczupak.detachChildren parentPid fuel it s = some after) :
    after.current = s.current ∧ Queued after absent ready all := by
  induction fuel generalizing it s with
  | zero => simp [Szczupak.detachChildren] at called
  | succ fuel ih =>
      rw [Szczupak.detachChildren] at called
      split at called
      · exact Option.some.inj called ▸ ⟨rfl, queued⟩
      · dsimp only at called
        split at called
        · have detached : Queued (s.modify it fun old =>
              { old with parentPid := 0, reapBlocked := false }) absent ready all :=
            queued.modify (fun _ => rfl) (fun _ => rfl) (fun _ => rfl) fun _ => rfl
          have rest := ih detached called
          exact rest
        · exact ih queued called

theorem Queued.stop {change : Task → Task} (queued : Queued s 0 ready all) (member : task ∈ all)
    (next : ∀ old, (change old).next = old.next) (allNext : ∀ old, (change old).allNext = old.allNext)
    (stack : ∀ old, (change old).kernelStack = old.kernelStack)
    (state : ∀ old, (change old).state = .terminated)
    (called : schedulerRemoveTask (s.modify task change) task = some after) :
    ∃ ready', Queued after 0 ready' all := by
  have linked : Linked (s.modify task change).next 0 (s.modify task change).readyQueue ready :=
    queued.readyLinked.congr fun address _ => modify_field Task.next next address
  obtain ⟨removed, done, left⟩ := @schedulerRemoveTask_spec (s.modify task change) ready task linked
    queued.readyDistinct queued.readyShort
  obtain rfl := Option.some.inj (done.symm.trans called)
  have current : removed.current = s.current := left.same.current
  have taskState : (removed.task task).state = .terminated := by
    rw [left.states, modify_task_same, state]
  have others : ∀ address, address ≠ task → (removed.task address).state = (s.task address).state := by
    intro address different
    rw [left.states, modify_task_other different]
  refine ⟨ready.erase task, left.linked, ?_, queued.readyDistinct.erase task, queued.allDistinct,
    ?_, ?_, ?_, ?_, ?_, ?_⟩
  · rw [left.same.allNext, left.same.taskListHead]
    exact queued.allLinked.congr fun address _ => modify_field Task.allNext allNext address
  · rw [left.same.live]
    exact queued.allLive
  · intro address inside
    rw [left.same.kernelStack, modify_field Task.kernelStack stack]
    exact queued.stacked address inside
  · intro address
    rw [queued.readyDistinct.mem_erase_iff, current]
    by_cases here : address = task
    · subst here
      simp [taskState]
    · rw [others address here, queued.readyMem]
      exact and_iff_right here
  · intro address inside
    obtain ⟨different, old⟩ := queued.readyDistinct.mem_erase_iff.mp inside
    rw [others address different]
    exact queued.readyState address old
  · rw [current]
    exact queued.currentMem
  · rw [current]
    by_cases here : s.current = task
    · rw [here]
      exact Or.inr taskState
    · rw [others s.current here]
      exact queued.currentState

theorem Queued.taskExit {code : Int} (queued : Queued s 0 ready all)
    (called : Szczupak.taskExit s code = some after) : ∃ ready', Queued after 0 ready' all := by
  unfold Szczupak.taskExit at called
  rw [if_neg (queued.allLinked.nonNull queued.currentMem)] at called
  cases detaching : Szczupak.detachChildren (s.task s.current).pid s.fuel s.taskListHead s with
  | none => simp [detaching] at called
  | some detached =>
      simp only [detaching] at called
      obtain ⟨current, kept⟩ := queued.detachChildren detaching
      refine kept.stop (current ▸ kept.currentMem) ?_ ?_ ?_ ?_ called
      all_goals exact fun _ => rfl

theorem Queued.free {victim : Nat} {removed : Bool} (queued : Queued s 0 ready all)
    (member : victim ∈ all) (other : victim ≠ s.current)
    (exited : (s.task victim).state = .terminated)
    (called : taskListRemove s victim = some (removed, after)) :
    removed = true ∧ Queued { after with live := after.live.erase victim } 0 ready
      (all.erase victim) := by
  unfold taskListRemove at called
  rcases @seek_cases s.allNext s.taskListHead all (fun it => decide (it = victim)) s.fuel 0
    queued.allLinked queued.allShort with
    ⟨front, node, back, split, hit, skipped, searched⟩ | ⟨missing, _⟩
  · obtain rfl : node = victim := by simpa using hit
    have absent : node ∉ front := by
      intro inside
      simpa using skipped node inside
    have linked := queued.allLinked
    have distinct := queued.allDistinct
    rw [split] at linked distinct
    rw [searched] at called
    dsimp only at called
    rw [if_neg (linked.nonNull (by simp))] at called
    simp only [Option.some.injEq, Prod.mk.injEq] at called
    obtain ⟨rfl, called⟩ := called
    generalize unlinkedEq : (if front.getLastD 0 = 0 then
        { s with taskListHead := (s.task node).allNext }
      else s.modify (front.getLastD 0) fun old => { old with allNext := (s.task node).allNext }) =
      unlinked at called
    -- only `all_next` links change
    have tasks : ∀ address, ∃ link, unlinked.task address =
        { s.task address with allNext := link } := by
      intro address
      rw [← unlinkedEq]
      split
      · exact ⟨_, rfl⟩
      · by_cases here : address = front.getLastD 0
        · subst here
          exact ⟨_, modify_task_same⟩
        · exact ⟨_, modify_task_other here⟩
    have erased : all.erase node = front ++ back := by
      rw [split, List.erase_append_right _ absent, List.erase_cons_head]
    have chain : Linked unlinked.allNext 0 unlinked.taskListHead (front ++ back) := by
      obtain ⟨atHead, between⟩ := linked.remove distinct
      rw [← unlinkedEq]
      rcases List.eq_nil_or_concat front with rfl | ⟨start, last, rfl⟩
      · exact atHead rfl
      · rw [List.concat_eq_append] at *
        have lastNonNull : last ≠ 0 := linked.nonNull (by simp)
        rw [List.getLastD_concat, if_neg lastNonNull, modify_allNext]
        exact between start last rfl
    have kept : unlinked.live = s.live ∧ unlinked.current = s.current ∧
        unlinked.readyQueue = s.readyQueue := by
      rw [← unlinkedEq]
      split
      · exact ⟨rfl, rfl, rfl⟩
      · exact ⟨rfl, rfl, rfl⟩
    have fields : ∀ address, ∃ link, after.task address = { s.task address with allNext := link } := by
      intro address
      obtain ⟨link, old⟩ := tasks address
      rw [← called]
      by_cases here : address = node
      · subst here
        exact ⟨0, by rw [modify_task_same, old]⟩
      · exact ⟨link, by rw [modify_task_other here, old]⟩
    have states : ∀ address, (after.task address).state = (s.task address).state := by
      intro address
      obtain ⟨link, old⟩ := fields address
      rw [old]
    have current : after.current = s.current := by
      rw [← called]
      exact kept.2.1
    have live : after.live = s.live := by
      rw [← called]
      exact kept.1
    have queue : after.readyQueue = s.readyQueue := by
      rw [← called]
      exact kept.2.2
    have gone : node ∉ front ++ back := by
      rw [← erased]
      exact fun inside => (queued.allDistinct.mem_erase_iff.mp inside).1 rfl
    refine ⟨rfl, ?_, ?_, queued.readyDistinct, queued.allDistinct.erase node, ?_, ?_, ?_, ?_, ?_, ?_⟩
    · change Linked after.next 0 after.readyQueue ready
      rw [queue]
      refine queued.readyLinked.congr fun address _ => ?_
      obtain ⟨link, old⟩ := fields address
      rw [Sched.next, old, Sched.next]
    · change Linked after.allNext 0 after.taskListHead (all.erase node)
      rw [erased, ← called, modify_allNext]
      exact chain.update gone
    · intro address inside
      obtain ⟨different, old⟩ := queued.allDistinct.mem_erase_iff.mp inside
      change address ∈ after.live.erase node
      rw [live]
      exact (List.mem_erase_of_ne different).mpr (queued.allLive address old)
    · intro address inside
      obtain ⟨link, old⟩ := fields address
      change (after.task address).kernelStack ≠ 0
      rw [old]
      exact queued.stacked address (List.mem_of_mem_erase inside)
    · intro address
      change address ∈ ready ↔ address ∈ all.erase node ∧ address ≠ after.current ∧
        (after.task address).state ≠ .terminated ∧ address ≠ 0
      rw [states, current, queued.allDistinct.mem_erase_iff, queued.readyMem]
      constructor
      · rintro ⟨inside, notCurrent, runs, nonNull⟩
        exact ⟨⟨fun same => runs (same ▸ exited), inside⟩, notCurrent, runs, nonNull⟩
      · rintro ⟨⟨_, inside⟩, rest⟩
        exact ⟨inside, rest⟩
    · intro address inside
      exact (states address).trans (queued.readyState address inside)
    · change after.current ∈ all.erase node
      rw [current]
      exact queued.allDistinct.mem_erase_iff.mpr ⟨Ne.symm other, queued.currentMem⟩
    · change (after.task after.current).state = .running ∨ (after.task after.current).state = .terminated
      rw [current, states]
      exact queued.currentState
  · simpa using missing victim member

theorem Queued.reapLoop {turns : Nat} (queued : Queued s 0 ready all)
    (called : Szczupak.reapLoop turns s = some after) : ∃ all', Queued after 0 ready all' := by
  induction turns generalizing s all with
  | zero => simp [Szczupak.reapLoop] at called
  | succ turns ih =>
      rw [Szczupak.reapLoop] at called
      rcases @seek_cases s.allNext s.taskListHead all (reapable s) s.fuel 0 queued.allLinked
        queued.allShort with ⟨front, victim, back, split, hit, _, searched⟩ | ⟨_, last, searched⟩
      · rw [searched] at called
        have member : victim ∈ all := by simp [split]
        dsimp only at called
        rw [if_neg (queued.allLinked.nonNull member)] at called
        simp only [reapable, Bool.and_eq_true, bne_iff_ne, beq_iff_eq] at hit
        cases removing : taskListRemove s victim with
        | none => simp [removing] at called
        | some result =>
            obtain ⟨removed, rest⟩ := result
            obtain ⟨rfl, freed⟩ := queued.free member hit.1.1 hit.1.2 removing
            simp only [removing] at called
            exact ih freed called
      · rw [searched] at called
        simp only [if_true, Option.some.injEq] at called
        exact ⟨all, called ▸ queued⟩

theorem Queued.abortSpawn {block : Nat} (queued : Queued s 0 ready all) (member : block ∈ all)
    (called : Szczupak.abortSpawn s block = some after) : ∃ ready' all',
    Queued after 0 ready' all' := by
  unfold Szczupak.abortSpawn at called
  obtain ⟨stopped, removing, reaping⟩ := Option.bind_eq_some_iff.mp called
  obtain ⟨ready', kept⟩ : ∃ ready', Queued stopped 0 ready' all := by
    refine queued.stop member ?_ ?_ ?_ ?_ removing
    all_goals exact fun _ => rfl
  obtain ⟨all', final⟩ := kept.reapLoop reaping
  exact ⟨ready', all', final⟩

theorem Queued.waitPidTurn {childPid : Nat} {any : Bool} (queued : Queued s 0 ready all)
    (called : Szczupak.waitPidTurn s childPid any = some after) : ∃ all',
    Queued after 0 ready all' := by
  unfold Szczupak.waitPidTurn at called
  dsimp only at called
  split at called
  · exact ⟨all, Option.some.inj called ▸ queued⟩
  · split at called
    · contradiction
    · split at called
      · exact ⟨all, Option.some.inj called ▸ queued⟩
      · refine @Queued.reapLoop _ after ready all _ ?_ called
        exact queued.modify (fun _ => rfl) (fun _ => rfl) (fun _ => rfl) fun _ => rfl

end Invariant

/-- What can happen between two states; the arguments are what the rest of the kernel and
the machine contribute. -/
inductive SchedEvent where
  | create (name : List UInt8) (block stack rsp : Nat)
  | spawn (name : List UInt8) (block stack rsp cr3 : Nat) (loaded attached : Bool)
  | schedule (savedRsp : Nat) (kernelMapped : Bool)
  | irq (irqRsp cs : Nat)
  | exit (code : Int)
  | reap
  | waitPid (childPid : Nat) (any : Bool)
  | preemptOk (allowed : Bool)
  | enable (on : Bool)

def spawn (s : Sched) (name : List UInt8) (block stack rsp cr3 : Nat) (loaded attached : Bool) :
    Option Sched :=
  match taskCreateUser s name block stack rsp cr3 loaded with
  | none => none
  | some created =>
      if block = 0 ∨ stack = 0 ∨ !loaded ∨ attached then some created
      else abortSpawn created block

def schedStep (s : Sched) : SchedEvent → Option Sched
  | .create name block stack rsp => taskCreate s name block stack rsp
  | .spawn name block stack rsp cr3 loaded attached =>
      spawn s name block stack rsp cr3 loaded attached
  | .schedule savedRsp kernelMapped => schedule s savedRsp kernelMapped
  | .irq irqRsp cs => (scheduleFromIrq s irqRsp cs).map Prod.snd
  | .exit code => taskExit s code
  | .reap => taskReapTerminated s
  | .waitPid childPid any => waitPidTurn s childPid any
  | .preemptOk allowed =>
      if (s.task s.current).isKernel then some s
      else some (s.modify s.current fun old => { old with kernelPreemptOk := allowed })
  | .enable on => some { s with enabled := on }

def KeepsPicked (s : Sched) : SchedEvent → Prop
  | .schedule _ _ => s.enabled = true → s.readyQueue ≠ 0 →
      refusesIdle s s.current s.readyQueue = false
  | .irq irqRsp cs => irqPreempts s irqRsp cs = true →
      refusesIdle s s.current s.readyQueue = false
  | _ => True

instance KeepsPicked.decidable (s : Sched) : ∀ event, Decidable (KeepsPicked s event)
  | .schedule _ _ => inferInstanceAs (Decidable (s.enabled = true → s.readyQueue ≠ 0 →
      refusesIdle s s.current s.readyQueue = false))
  | .irq irqRsp cs => inferInstanceAs (Decidable (irqPreempts s irqRsp cs = true →
      refusesIdle s s.current s.readyQueue = false))
  | .create .. | .spawn .. | .exit _ | .reap | .waitPid .. | .preemptOk _ | .enable _ =>
      .isTrue trivial

def blankSched : Sched :=
  { task := fun _ => default, live := [], readyQueue := 0, readyQueueTail := 0, enabled := false
    current := 0, taskListHead := 0, nextPid := 1 }

theorem booted_queued {start : Sched} (booted : taskInit blankSched block stack rsp = some start) :
    ∃ ready all, Queued (schedulerInit start) 0 ready all := by
  unfold taskInit at booted
  split at booted
  · contradiction
  · rename_i allocated
    rw [not_or] at allocated
    obtain rfl := Option.some.inj booted
    refine ⟨[], [block], rfl, ⟨rfl, allocated.1, ?_⟩, by simp, by simp, ?_, ?_, ?_, by simp, ?_, ?_⟩
    · simp [schedulerInit, taskListInsert, allocTask, Sched.allNext, blankSched, Linked]
    · simp [schedulerInit, taskListInsert, allocTask, Sched.modify]
    · simp [schedulerInit, taskListInsert, allocTask, allocated.2]
    · intro task
      constructor
      · simp
      · rintro ⟨member, other, _⟩
        exact absurd (List.mem_singleton.mp member) other
    · exact List.mem_singleton.mpr rfl
    · refine Or.inl ?_
      simp [schedulerInit, taskListInsert, allocTask, Sched.modify]

theorem Queued.step {s after : Sched} {ready all : List Nat} {event : SchedEvent}
    (queued : Queued s 0 ready all) (safe : KeepsPicked s event)
    (stepped : schedStep s event = some after) : ∃ ready' all', Queued after 0 ready' all' := by
  cases event with
  | create name block stack rsp => exact queued.taskCreate stepped
  | spawn name block stack rsp cr3 loaded attached =>
      rw [schedStep, spawn] at stepped
      cases creating : Szczupak.taskCreateUser s name block stack rsp cr3 loaded with
      | none => simp [creating] at stepped
      | some created =>
          simp only [creating] at stepped
          rcases queued.taskCreateUser creating with ⟨failed, same⟩ | ⟨ready', _, more⟩
          · rw [if_pos (by rcases failed with null | null | null <;> simp [null])] at stepped
            exact ⟨ready, all, Option.some.inj stepped ▸ same⟩
          · split at stepped
            · exact ⟨ready', _, Option.some.inj stepped ▸ more⟩
            · exact more.abortSpawn List.mem_cons_self stepped
  | schedule savedRsp kernelMapped =>
      obtain ⟨ready', final⟩ := queued.schedule safe stepped
      exact ⟨ready', all, final⟩
  | irq irqRsp cs =>
      obtain ⟨⟨rsp, switched⟩, called, rfl⟩ := Option.map_eq_some_iff.mp stepped
      obtain ⟨ready', final⟩ := queued.scheduleFromIrq safe called
      exact ⟨ready', all, final⟩
  | exit code =>
      obtain ⟨ready', final⟩ := queued.taskExit stepped
      exact ⟨ready', all, final⟩
  | reap =>
      obtain ⟨all', final⟩ := queued.reapLoop stepped
      exact ⟨ready, all', final⟩
  | waitPid childPid any =>
      obtain ⟨all', final⟩ := queued.waitPidTurn stepped
      exact ⟨ready, all', final⟩
  | preemptOk allowed =>
      rw [schedStep] at stepped
      split at stepped
      · exact ⟨ready, all, Option.some.inj stepped ▸ queued⟩
      · refine ⟨ready, all, Option.some.inj stepped ▸ ?_⟩
        exact queued.modify (fun _ => rfl) (fun _ => rfl) (fun _ => rfl) fun _ => rfl
  | enable on =>
      obtain rfl := Option.some.inj stepped
      exact ⟨ready, all, queued.readyLinked, queued.allLinked, queued.readyDistinct,
        queued.allDistinct, queued.allLive, queued.stacked, queued.readyMem, queued.readyState,
        queued.currentMem, queued.currentState⟩

/-- In every run from boot in which no picked idle task is put back, no task is lost. -/
theorem sched_runs_lose_no_task {start final : Sched} {block stack rsp : Nat}
    {events : List SchedEvent} (booted : taskInit blankSched block stack rsp = some start)
    (keeps : RunMeets schedStep KeepsPicked (schedulerInit start) events)
    (reached : runActions schedStep (schedulerInit start) events = some final) :
    NoTaskLost final := by
  have preserved : ∀ state event next, (∃ ready all, Queued state 0 ready all) →
      KeepsPicked state event → schedStep state event = some next →
      ∃ ready all, Queued next 0 ready all := by
    rintro state event next ⟨ready, all, queued⟩ safe stepped
    exact queued.step safe stepped
  obtain ⟨ready, all, queued⟩ := runActions_guarded preserved (booted_queued booted) keeps reached
  exact queued.noTaskLost

def bootEvents : List SchedEvent :=
  [.spawn [115, 104, 101, 108, 108] 0x2000 0x10000 0x13F60 0x5000 true true, .enable true,
    .irq 0xBF60 8]

theorem boot_loses_no_task : ∃ start final,
    taskInit blankSched 0x1000 0x8000 0xBF60 = some start ∧
    runActions schedStep (schedulerInit start) bootEvents = some final ∧ NoTaskLost final := by
  have booted : (taskInit blankSched 0x1000 0x8000 0xBF60).isSome = true := by decide +kernel
  obtain ⟨start, started⟩ := Option.isSome_iff_exists.mp booted
  have keeps : ∀ start, taskInit blankSched 0x1000 0x8000 0xBF60 = some start →
      RunMeets schedStep KeepsPicked (schedulerInit start) bootEvents ∧
      (runActions schedStep (schedulerInit start) bootEvents).isSome = true := by
    intro start started
    obtain rfl := Option.some.inj started
    decide +kernel
  obtain ⟨meets, runs⟩ := keeps start started
  obtain ⟨final, reached⟩ := Option.isSome_iff_exists.mp runs
  exact ⟨start, final, started, reached, sched_runs_lose_no_task started meets reached⟩

/-- The next timer interrupt picks the idle task, marks it running and drops it. -/
theorem second_irq_loses_idle : ∃ start final,
    taskInit blankSched 0x1000 0x8000 0xBF60 = some start ∧
    runActions schedStep (schedulerInit start) (bootEvents ++ [.irq 0x13F60 0x2B]) = some final ∧
    ¬NoTaskLost final := by
  have runs : ((taskInit blankSched 0x1000 0x8000 0xBF60).bind fun start =>
      (runActions schedStep (schedulerInit start) (bootEvents ++ [.irq 0x13F60 0x2B])).map
        fun final => (final.readyQueue, final.taskListHead, final.allNext 0x2000,
          final.allNext 0x1000, final.current, (final.task 0x1000).state)) =
      some (0, 0x2000, 0x1000, 0, 0x2000, .running) := by
    decide +kernel
  obtain ⟨start, started, rest⟩ := Option.bind_eq_some_iff.mp runs
  obtain ⟨final, reached, values⟩ := Option.map_eq_some_iff.mp rest
  simp only [Prod.mk.injEq] at values
  obtain ⟨queue, head, shellNext, idleNext, current, idleState⟩ := values
  refine ⟨start, final, started, reached, ?_⟩
  rintro ⟨ready, all, readyLinked, allLinked, once, _⟩
  have noneReady : ready = [] :=
    readyLinked.unique (show Linked final.next 0 final.readyQueue [] from queue)
  have both : all = [0x2000, 0x1000] := by
    refine allLinked.unique ⟨head, by decide, shellNext, by decide, ?_⟩
    rw [idleNext]
    rfl
  have count := once 0x1000 (by simp [both]) (by simp [idleState]) (by simp [current])
  simp [noneReady] at count

end Szczupak
