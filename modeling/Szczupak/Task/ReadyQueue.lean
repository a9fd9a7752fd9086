import Szczupak.Lib.StableQueue
import Szczupak.Lib.Transition
import Szczupak.Task.Scheduler

/-!
The order of the ready queue.  Beside the linked list that the scheduler keeps stands the list
of the waiting tasks in order of arrival; the queue holds them by ascending priority value, and
equal ones as they arrived.
-/

namespace Szczupak

structure QueueRun where
  sched : Sched
  arrivals : List Nat

/-- Calls on the queue, and what the rest of the kernel does in between. -/
inductive QueueOp where
  | add (task : Nat)
  | remove (task : Nat)
  | pick
  | other (after : Sched)

def turnsAway (s : Sched) (task : Nat) : Prop :=
  task = 0 ∨ (s.task task).kernelStack = 0 ∨ (s.task task).state = .running

instance (s : Sched) (task : Nat) : Decidable (turnsAway s task) :=
  inferInstanceAs (Decidable (_ ∨ _ ∨ _))

/-- `schedule` and `schedule_from_irq` pick only from a queue with a task in it. -/
def queueStep (r : QueueRun) : QueueOp → Option QueueRun
  | .add task =>
      (schedulerAddTask r.sched task).map fun s =>
        ⟨s, if turnsAway r.sched task then r.arrivals else r.arrivals ++ [task]⟩
  | .remove task => (schedulerRemoveTask r.sched task).map fun s => ⟨s, r.arrivals.erase task⟩
  | .pick =>
      if r.sched.readyQueue = 0 then none
      else some ⟨pickNext r.sched, r.arrivals.erase r.sched.readyQueue⟩
  | .other after => some ⟨after, r.arrivals⟩

/-- A task that is added is a block of the heap and not queued already.  The rest of the kernel
leaves the ends of the queue, and the link and the priority of a task in it. -/
def UsesQueue (r : QueueRun) : QueueOp → Prop
  | .add task => task ∈ r.sched.live ∧ task ∉ r.arrivals
  | .other after =>
      after.readyQueue = r.sched.readyQueue ∧ after.readyQueueTail = r.sched.readyQueueTail ∧
        ∀ task ∈ r.arrivals, task ∈ after.live ∧ after.next task = r.sched.next task ∧
          (after.task task).priority = (r.sched.task task).priority
  | .remove _ | .pick => True

instance (r : QueueRun) : ∀ op, Decidable (UsesQueue r op)
  | .add _ => inferInstanceAs (Decidable (_ ∧ _))
  | .other _ => inferInstanceAs (Decidable (_ ∧ _ ∧ ∀ task ∈ r.arrivals, _ ∧ _ ∧ _))
  | .remove _ | .pick => inferInstanceAs (Decidable True)

structure Ordered (r : QueueRun) (ready : List Nat) : Prop where
  linked : Linked r.sched.next 0 r.sched.readyQueue ready
  distinct : ready.Nodup
  order : InOrder (fun task => (r.sched.task task).priority) r.arrivals ready
  tail : r.sched.readyQueueTail = ready.getLastD 0
  arrivalsDistinct : r.arrivals.Nodup
  live : ∀ task ∈ r.arrivals, task ∈ r.sched.live

/-- The queue is a list without repetitions, sorted and stable, its tail is its last task, and
whoever is picked from it is the oldest of the smallest priority value. -/
def QueueInOrder (r : QueueRun) : Prop :=
  ∃ ready, Linked r.sched.next 0 r.sched.readyQueue ready ∧ ready.Nodup ∧
    InOrder (fun task => (r.sched.task task).priority) r.arrivals ready ∧
    r.sched.readyQueueTail = ready.getLastD 0 ∧
    (r.sched.readyQueue ≠ 0 →
      ServedFirst (fun task => (r.sched.task task).priority) r.arrivals r.sched.readyQueue)

section Tail

variable {s after : Sched} {ready : List Nat} {task : Nat}

theorem getLastD_behind {front back : List Nat} {node fallback : Nat} (more : back ≠ []) :
    (front ++ node :: back).getLastD fallback = back.getLastD fallback := by
  obtain ⟨start, last, rfl⟩ := (List.eq_nil_or_concat back).resolve_left more
  rw [List.concat_eq_append, ← List.cons_append, ← List.append_assoc, List.getLastD_concat,
    List.getLastD_concat]

theorem headD_zero {nodes : List Nat} (nonNull : ∀ node ∈ nodes, node ≠ 0) :
    nodes.headD 0 = 0 ↔ nodes = [] := by
  cases nodes with
  | nil => simp
  | cons first rest => simpa using nonNull first List.mem_cons_self

theorem schedulerAddTask_tail (linked : Linked s.next 0 s.readyQueue ready)
    (short : ready.length < s.fuel) (fresh : task ∉ ready) (accepted : ¬turnsAway s task)
    (tail : s.readyQueueTail = ready.getLastD 0) (added : schedulerAddTask s task = some after) :
    after.readyQueueTail =
      (ready.takeWhile (notLater s task) ++ task :: ready.dropWhile (notLater s task)).getLastD 0 := by
  rw [turnsAway, not_or, not_or] at accepted
  rw [schedulerAddTask, if_neg accepted.1, if_neg accepted.2.1, if_neg accepted.2.2] at added
  dsimp only at added
  generalize markedEq :
    (s.modify task fun old => { old with next := 0, state := TaskState.ready }) = marked at added
  have markedSame : SameTasks s marked := by
    rw [← markedEq]
    exact SameTasks.modify rfl
  have markedLinked : Linked marked.next 0 marked.readyQueue ready := by
    rw [← markedEq, modify_next]
    exact linked.update fresh
  have markedFuel : marked.fuel = s.fuel := by
    rw [Sched.fuel, markedSame.live, Sched.fuel]
  have markedTail : marked.readyQueueTail = ready.getLastD 0 := by
    rw [← markedEq]
    exact tail
  have passes : (fun cur => !decide ((marked.task task).priority < (marked.task cur).priority)) =
      notLater s task := by
    funext cur
    rw [notLater, markedSame.tasks task, markedSame.tasks cur]
  clear markedEq
  by_cases empty : marked.readyQueue = 0
  · rw [if_pos empty] at added
    have none : ready = [] := markedLinked.unique empty
    cases added
    rw [none]
    rfl
  · rw [if_neg empty] at added
    have searched := @seek_spec marked.next marked.readyQueue ready
      (fun cur => decide ((marked.task task).priority < (marked.task cur).priority)) marked.fuel 0
      markedLinked (by rw [markedFuel]; exact short)
    rw [passes] at searched
    rw [searched] at added
    dsimp only at added
    have parts := @List.takeWhile_append_dropWhile _ (notLater s task) ready
    generalize ready.takeWhile (notLater s task) = front at *
    generalize ready.dropWhile (notLater s task) = back at *
    have nonNull : ∀ node ∈ front ++ back, node ≠ 0 := fun node member =>
      markedLinked.nonNull (parts ▸ member)
    have frontNonNull : ∀ node ∈ front, node ≠ 0 := fun node member =>
      nonNull node (List.mem_append_left _ member)
    have backNonNull : ∀ node ∈ back, node ≠ 0 := fun node member =>
      nonNull node (List.mem_append_right _ member)
    have unchanged : back ≠ [] →
        marked.readyQueueTail = (front ++ task :: back).getLastD 0 := by
      intro more
      obtain ⟨start, last, rfl⟩ := (List.eq_nil_or_concat back).resolve_left more
      rw [markedTail, ← parts, getLastD_behind more, List.concat_eq_append, ← List.append_assoc,
        List.getLastD_concat, List.getLastD_concat]
    by_cases first : front.getLastD 0 = 0
    · rw [if_pos first] at added
      have none := getLastD_zero frontNonNull first
      have more : back ≠ [] := by
        rintro rfl
        rw [none] at parts
        rw [← parts] at markedLinked
        exact empty markedLinked
      cases added
      exact unchanged more
    · rw [if_neg first] at added
      by_cases atEnd : back.headD 0 = 0
      · rw [if_pos atEnd] at added
        have none := (headD_zero backNonNull).mp atEnd
        cases added
        rw [none, List.getLastD_concat]
      · rw [if_neg atEnd] at added
        cases added
        exact unchanged fun none => atEnd ((headD_zero backNonNull).mpr none)

theorem schedulerRemoveTask_tail (linked : Linked s.next 0 s.readyQueue ready) (distinct : ready.Nodup)
    (short : ready.length < s.fuel) (tail : s.readyQueueTail = ready.getLastD 0)
    (removed : schedulerRemoveTask s task = some after) :
    after.readyQueueTail = (ready.erase task).getLastD 0 := by
  have absentCase : task ∉ ready → s = after → after.readyQueueTail =
    (ready.erase task).getLastD 0 := by
    rintro absent rfl
    rw [List.erase_of_not_mem absent, tail]
  rw [schedulerRemoveTask] at removed
  by_cases trivialCall : task = 0 ∨ s.readyQueue = 0
  · rw [if_pos trivialCall, Option.some.injEq] at removed
    refine absentCase (fun member => ?_) removed
    rcases trivialCall with rfl | empty
    · exact linked.nonNull member rfl
    · rw [empty] at linked
      rw [Linked.unique linked (show Linked s.next 0 0 [] from rfl)] at member
      cases member
  · rw [if_neg trivialCall] at removed
    rcases @seek_cases s.next s.readyQueue ready (fun cur => decide (cur = task)) s.fuel 0 linked
      short with ⟨front, node, back, rfl, hit, skipped, searched⟩ | ⟨missing, last, searched⟩
    · obtain rfl : node = task := by simpa using hit
      have absent : node ∉ front := by
        intro member
        simpa using skipped node member
      rw [searched] at removed
      dsimp only at removed
      rw [if_neg (linked.nonNull (by simp)), Option.some.injEq] at removed
      rw [List.erase_append_right _ absent, List.erase_cons_head, ← removed]
      have unlinkedTail : ∀ prev : Nat, (if prev = 0 then { s with readyQueue := (s.task node).next }
          else s.modify prev fun old => { old with next := (s.task node).next }).readyQueueTail =
          s.readyQueueTail := by
        intro prev
        split <;> rfl
      by_cases last : back = []
      · rw [last, List.getLastD_concat] at tail
        rw [if_pos tail, last, List.append_nil]
      · have notLast : s.readyQueueTail ≠ node := by
          intro same
          obtain ⟨start, final, rfl⟩ := (List.eq_nil_or_concat back).resolve_left last
          rw [tail, getLastD_behind last, List.concat_eq_append, List.getLastD_concat] at same
          rw [same] at distinct
          exact (List.nodup_cons.mp (List.nodup_append.mp distinct).2.1).1 (by simp)
        rw [if_neg notLast, unlinkedTail, tail, getLastD_behind last]
        obtain ⟨start, final, rfl⟩ := (List.eq_nil_or_concat back).resolve_left last
        rw [List.concat_eq_append, ← List.append_assoc, List.getLastD_concat, List.getLastD_concat]
    · rw [searched] at removed
      refine absentCase (fun member => ?_) ?_
      · simpa using missing task member
      · simpa using removed

end Tail

section Runs

variable {r next : QueueRun} {ready : List Nat} {task : Nat}

theorem Ordered.mem (ordered : Ordered r ready) : task ∈ ready ↔ task ∈ r.arrivals :=
  ordered.order.mem

theorem Ordered.short (ordered : Ordered r ready) : ready.length < r.sched.fuel := by
  have bound := (List.Nodup.subperm ordered.distinct
    fun task member => ordered.live task (ordered.mem.mp member)).length_le
  rw [Sched.fuel]
  omega

theorem Ordered.inOrder (ordered : Ordered r ready) : QueueInOrder r := by
  refine ⟨ready, ordered.linked, ordered.distinct, ordered.order, ordered.tail, fun waits => ?_⟩
  obtain ⟨rest, isReady, _⟩ := ordered.linked.head_mem waits
  exact (isReady ▸ ordered.order).head

theorem SameTasks.priority {s after : Sched} (same : SameTasks s after) (address : Nat) :
    (after.task address).priority = (s.task address).priority := by
  rw [same.tasks address]

theorem turnsAway_add {s : Sched} (away : turnsAway s task) : schedulerAddTask s task = some s := by
  rw [schedulerAddTask]
  rcases away with null | noStack | running
  · rw [if_pos null]
  · rw [if_pos noStack]
    exact ite_self _
  · rw [if_pos running, ite_self, ite_self]

theorem Ordered.add (ordered : Ordered r ready) (live : task ∈ r.sched.live)
    (fresh : task ∉ r.arrivals) :
    ∃ next ready', queueStep r (.add task) = some next ∧ Ordered next ready' := by
  by_cases away : turnsAway r.sched task
  · refine ⟨r, ready, ?_, ordered⟩
    rw [queueStep, turnsAway_add away, if_pos away]
    rfl
  · have accepted := away
    rw [turnsAway, not_or, not_or] at accepted
    have notReady : task ∉ ready := fun member => fresh (ordered.mem.mp member)
    obtain ⟨after, added, placed⟩ := schedulerAddTask_spec ordered.linked ordered.distinct
      ordered.short accepted.1 notReady accepted.2.1 accepted.2.2
    have tail := schedulerAddTask_tail ordered.linked ordered.short notReady away ordered.tail added
    have parts := @List.takeWhile_append_dropWhile _ (notLater r.sched task) ready
    refine ⟨⟨after, r.arrivals ++ [task]⟩, _, ?_, placed.linked, ?_, ?_, tail, ?_, ?_⟩
    · rw [queueStep, added, if_neg away]
      rfl
    · refine List.perm_middle.nodup_iff.mpr (List.nodup_cons.mpr ?_)
      rw [parts]
      exact ⟨notReady, ordered.distinct⟩
    · exact ordered.order.enter.congr fun other _ => placed.same.priority other
    · refine List.nodup_append.mpr ⟨ordered.arrivalsDistinct, List.nodup_singleton task, ?_⟩
      intro other member last isLast same
      rw [List.mem_singleton] at isLast
      rw [same, isLast] at member
      exact fresh member
    · intro other member
      rw [placed.same.live]
      rcases List.mem_append.mp member with earlier | last
      · exact ordered.live other earlier
      · rw [List.mem_singleton] at last
        exact last ▸ live

theorem Ordered.remove (ordered : Ordered r ready) (task : Nat) :
    ∃ next, queueStep r (.remove task) = some next ∧ Ordered next (ready.erase task) := by
  obtain ⟨after, removed, unlinked⟩ := @schedulerRemoveTask_spec r.sched ready task ordered.linked
    ordered.distinct ordered.short
  have tail := schedulerRemoveTask_tail ordered.linked ordered.distinct ordered.short
    ordered.tail removed
  have order := (@InOrder.leave _ _ _ _ _ _ task ordered.order _ ordered.arrivalsDistinct
    ordered.distinct).congr fun other _ => unlinked.same.priority other
  refine ⟨⟨after, r.arrivals.erase task⟩, ?_, unlinked.linked, ordered.distinct.erase task, order,
    tail, ordered.arrivalsDistinct.erase task, fun other member => ?_⟩
  · rw [queueStep, removed]
    rfl
  · rw [unlinked.same.live]
    exact ordered.live other (List.mem_of_mem_erase member)

theorem pickNext_priority {s : Sched} (address : Nat) :
    ((pickNext s).task address).priority = (s.task address).priority := by
  by_cases head : address = s.readyQueue
  · rw [head, pickNext_same]
  · rw [pickNext_other head]

section

variable (ordered : Ordered r ready)
include ordered

theorem Ordered.pick (waits : r.sched.readyQueue ≠ 0) :
    ∃ next, queueStep r .pick = some next ∧ Ordered next (ready.erase r.sched.readyQueue) := by
  obtain ⟨rest, isReady, tailLinked⟩ := ordered.linked.head_mem waits
  have distinct := ordered.distinct
  rw [isReady] at distinct
  obtain ⟨headFresh, restDistinct⟩ := List.nodup_cons.mp distinct
  have order := (@InOrder.leave _ _ _ _ _ _ r.sched.readyQueue ordered.order _
    ordered.arrivalsDistinct ordered.distinct).congr fun other _ => pickNext_priority other
  have erased : ready.erase r.sched.readyQueue = rest := by rw [isReady, List.erase_cons_head]
  rw [erased] at order ⊢
  refine ⟨⟨pickNext r.sched, r.arrivals.erase r.sched.readyQueue⟩, if_neg waits, ?_,
    restDistinct, order, ?_,
    ordered.arrivalsDistinct.erase _, fun other member => ordered.live other
    (List.mem_of_mem_erase member)⟩
  · have linked : Linked (r.sched.modify r.sched.readyQueue fun old =>
        { old with next := 0, state := .running }).next 0 (r.sched.next r.sched.readyQueue) rest := by
      rw [modify_next]
      exact tailLinked.update headFresh
    exact linked
  · have nonNull : ∀ node ∈ rest, node ≠ 0 := fun node member => tailLinked.nonNull member
    show (if r.sched.next r.sched.readyQueue = 0 then 0 else r.sched.readyQueueTail) = rest.getLastD 0
    by_cases last : r.sched.next r.sched.readyQueue = 0
    · rw [if_pos last]
      rw [last] at tailLinked
      rw [Linked.unique tailLinked (show Linked r.sched.next 0 0 [] from rfl)]
      rfl
    · rw [if_neg last, ordered.tail, isReady]
      have more : rest ≠ [] := by
        rintro rfl
        exact last tailLinked
      exact @getLastD_behind [] rest r.sched.readyQueue 0 more

theorem Ordered.other {after : Sched} (uses : UsesQueue r (.other after)) :
    Ordered ⟨after, r.arrivals⟩ ready := by
  obtain ⟨head, tail, kept⟩ := uses
  refine ⟨?_, ordered.distinct, ?_, tail.trans ordered.tail, ordered.arrivalsDistinct,
    fun task member => (kept task member).1⟩
  · rw [head]
    exact ordered.linked.congr fun task member => (kept task (ordered.mem.mp member)).2.1
  · exact ordered.order.congr fun task member => (kept task member).2.2

theorem Ordered.step {op : QueueOp} (uses : UsesQueue r op)
    (stepped : queueStep r op = some next) : ∃ ready', Ordered next ready' := by
  cases op with
  | add task =>
      obtain ⟨after, ready', added, still⟩ := ordered.add uses.1 uses.2
      exact ⟨ready', Option.some.inj (added.symm.trans stepped) ▸ still⟩
  | remove task =>
      obtain ⟨after, removed, still⟩ := ordered.remove task
      exact ⟨_, Option.some.inj (removed.symm.trans stepped) ▸ still⟩
  | pick =>
      have waits : r.sched.readyQueue ≠ 0 := by
        intro empty
        rw [queueStep, if_pos empty] at stepped
        cases stepped
      obtain ⟨after, picked, still⟩ := ordered.pick waits
      exact ⟨_, Option.some.inj (picked.symm.trans stepped) ▸ still⟩
  | other after =>
      cases stepped
      exact ⟨ready, ordered.other uses⟩

theorem Ordered.progress {op : QueueOp} (uses : UsesQueue r op) :
    (queueStep r op).isSome = true ∨ op = .pick ∧ r.arrivals = [] := by
  cases op with
  | add task =>
      obtain ⟨after, _, added, _⟩ := ordered.add uses.1 uses.2
      exact Or.inl (by rw [added]; rfl)
  | remove task =>
      obtain ⟨after, removed, _⟩ := ordered.remove task
      exact Or.inl (by rw [removed]; rfl)
  | pick =>
      by_cases empty : r.sched.readyQueue = 0
      · have linked := ordered.linked
        rw [empty] at linked
        have none := Linked.unique linked (show Linked r.sched.next 0 0 [] from rfl)
        refine Or.inr ⟨rfl, List.eq_nil_iff_forall_not_mem.mpr fun task member => ?_⟩
        have queued := ordered.mem.mpr member
        rw [none] at queued
        cases queued
      · obtain ⟨after, picked, _⟩ := ordered.pick empty
        exact Or.inl (by rw [picked]; rfl)
  | other after => exact Or.inl rfl

end

end Runs

/-- From an empty queue on, whatever calls come in whatever order. -/
theorem ready_queue_stays_in_order {start : Sched} {final : QueueRun} {ops : List QueueOp}
    (uses : RunMeets queueStep UsesQueue ⟨schedulerInit start, []⟩ ops)
    (reached : runActions queueStep ⟨schedulerInit start, []⟩ ops = some final) :
    QueueInOrder final ∧ ∀ op, UsesQueue final op →
      (queueStep final op).isSome = true ∨ op = .pick ∧ final.arrivals = [] := by
  have initial : Ordered ⟨schedulerInit start, []⟩ [] :=
    ⟨rfl, List.nodup_nil, InOrder.nil, rfl, List.nodup_nil, fun _ member => by cases member⟩
  have preserved : ∀ r op next, (∃ ready, Ordered r ready) → UsesQueue r op →
      queueStep r op = some next → ∃ ready, Ordered next ready := by
    rintro r op next ⟨ready, ordered⟩ uses stepped
    exact ordered.step uses stepped
  obtain ⟨ready, ordered⟩ := runActions_guarded preserved ⟨[], initial⟩ uses reached
  exact ⟨ordered.inOrder, fun op uses => ordered.progress uses⟩

def threeTasks : Sched :=
  { blankSched with
    task := fun address => { (default : Task) with
      kernelStack := 0x8000, priority := if address = 3 then 5 else 10, state := .ready }
    live := [1, 2, 3] }

theorem threeTasks_in_order : ∃ final,
    runActions queueStep ⟨schedulerInit threeTasks, []⟩ [.add 1, .add 2, .add 3, .pick, .remove 1] =
      some final ∧ final.sched.readyQueue = 2 ∧ QueueInOrder final := by
  have runs : (runActions queueStep ⟨schedulerInit threeTasks, []⟩
      [.add 1, .add 2, .add 3, .pick, .remove 1]).map (fun final => final.sched.readyQueue) = some 2 := by
    decide +kernel
  obtain ⟨final, reached, head⟩ := Option.map_eq_some_iff.mp runs
  exact ⟨final, reached, head, (ready_queue_stays_in_order (by decide +kernel) reached).1⟩

end Szczupak
