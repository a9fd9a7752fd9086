import Szczupak.Lib.Walk
import Szczupak.Mm.VmmCore
import Szczupak.Mm.Pmm

/-!
Page tables as walks.  A path of at most three indices ends in a table and a fourth
index ends in a mapped frame.  Every operation of `VmmCore` is described once by the
entries it changes and the frames it takes.
-/

namespace Szczupak

theorem entryAt_lt (ram : Mem) (table index : Nat) : entryAt ram table index < 2 ^ 64 :=
  ram.readU64_lt _

theorem entryAt_setEntry {ram : Mem} {table index value other position : Nat}
    (aligned : table % pageSize = 0) (otherAligned : other % pageSize = 0)
    (bound : index < 512) (positionBound : position < 512) :
    entryAt (setEntry ram table index value) other position =
      if other = table ∧ position = index then value % 2 ^ 64 else entryAt ram other position := by
  simp only [pageSize] at aligned otherAligned
  simp only [entryAt, setEntry]
  rw [Mem.readU64_writeU64_aligned _ (by omega) (by omega)]
  by_cases same : other = table ∧ position = index
  · rw [if_pos same, if_pos (by omega)]
  · rw [if_neg same, if_neg (by omega)]

theorem entryAt_fill {ram : Mem} {frame other position : Nat}
    (aligned : frame % pageSize = 0) (otherAligned : other % pageSize = 0)
    (positionBound : position < 512) :
    entryAt (ram.fill frame pageSize 0) other position =
      if other = frame then 0 else entryAt ram other position := by
  simp only [pageSize] at aligned otherAligned
  simp only [entryAt]
  by_cases same : other = frame
  · rw [if_pos same]
    apply Mem.readLE_zero
    intro offset bound
    exact Mem.fill_inside _ _ (by omega) (by simp only [pageSize]; omega)
  · rw [if_neg same]
    apply Mem.readU64_congr
    intro offset bound
    exact Mem.fill_outside _ _ (by simp only [pageSize]; omega)

theorem alignDown_aligned (value : Nat) : alignDown value % pageSize = 0 := by
  simp [alignDown]

theorem alignDown_le (value : Nat) : alignDown value ≤ value := Nat.div_mul_le_self _ _

theorem alignDown_of_aligned {value : Nat} (aligned : value % pageSize = 0) :
    alignDown value = value := by
  simp only [alignDown, pageSize] at aligned ⊢
  omega

theorem or_div {value flags width : Nat} (small : flags < 2 ^ width) :
    (value ||| flags) / 2 ^ width = value / 2 ^ width := by
  rw [← Nat.shiftRight_eq_div_pow, ← Nat.shiftRight_eq_div_pow, Nat.shiftRight_or_distrib,
    Nat.shiftRight_eq_zero flags width small, Nat.or_zero]

theorem alignDown_or {value flags : Nat} (small : flags < 2 ^ 12) :
    alignDown (value ||| flags) = alignDown value := by
  have page : pageSize = 2 ^ 12 := rfl
  rw [alignDown, alignDown, page, or_div small]

theorem testBit_aligned {value bit : Nat} (aligned : value % pageSize = 0) (low : bit < 12) :
    value.testBit bit = false := by
  have page : pageSize = 2 ^ 12 := rfl
  have cut : (value % 2 ^ 12).testBit bit = value.testBit bit := by
    rw [Nat.testBit_mod_two_pow]
    simp [low]
  rw [← cut, ← page, aligned, Nat.zero_testBit]

theorem leaf_kind {phys low : Nat} (aligned : phys % pageSize = 0) (small : phys < 2 ^ 52)
    (lowSmall : low < 2 ^ 12) :
    phys ||| low ||| pagePresent < 2 ^ 64 ∧
      (phys ||| low ||| pagePresent).testBit presentBit = true ∧
      alignDown (phys ||| low ||| pagePresent) = phys := by
  refine ⟨?_, ?_, ?_⟩
  · exact Nat.or_lt_two_pow (Nat.or_lt_two_pow (by omega) (by omega)) (by decide)
  · simp [presentBit, pagePresent]
  · rw [alignDown_or (by decide), alignDown_or lowSmall, alignDown_of_aligned aligned]

def Available (pmm : Pmm) (frame : Nat) : Prop :=
  frame % pageSize = 0 ∧ frame / pageSize < pmm.totalPages ∧ frame / pageSize ∉ usedSet pmm

structure Took (pmm after : Pmm) (frame : Nat) : Prop where
  available : Available pmm frame
  bounds : SameBounds pmm after
  used : usedSet after = insert (frame / pageSize) (usedSet pmm)

variable {pmm after : Pmm} {frame : Nat}

theorem Took.not_available (took : Took pmm after frame) :
    ¬Available after frame := by
  rintro ⟨_, _, unused⟩
  exact unused (took.used ▸ Finset.mem_insert_self _ _)

theorem Took.available_before {frame other : Nat} (took : Took pmm after frame)
    (available : Available after other) : Available pmm other := by
  refine ⟨available.1, took.bounds.totalPages ▸ available.2.1, fun used => available.2.2 ?_⟩
  exact took.used ▸ Finset.mem_insert_of_mem used

theorem Took.with_ram (took : Took pmm after frame) (ram : Mem) :
    Took pmm { after with ram } frame :=
  ⟨took.available, ⟨took.bounds.totalPages, took.bounds.start, took.bounds.stop⟩,
    (usedSet_congr rfl rfl).trans took.used⟩

theorem Available.small {pmm : Pmm} (based : ZeroBased pmm)
    (available : Available pmm frame) : frame < 2 ^ 30 := by
  have bound := based.small
  have managed := available.2.1
  simp only [maxMemoryPages, pageSize] at bound managed
  omega

theorem pmmAllocPage_spec (based : ZeroBased pmm)
    (allocated : pmmAllocPage pmm = some (frame, after)) :
    (frame = 0 ∧ after = pmm) ∨
      (Took pmm after frame ∧ after.ram = pmm.ram.fill frame pageSize 0) := by
  rcases pmmAllocPages_spec allocated with failed | ⟨page, spec⟩
  · exact Or.inl failed
  · have one : (1 : UInt32).toNat = 1 := rfl
    have place : frame = page * pageSize := by
      rw [spec.address, based.start, Nat.zero_add]
    have index : frame / pageSize = page := by
      rw [place, Nat.mul_div_cancel _ (by decide)]
    have single : Finset.Ico page (page + 1) = {page} := by
      ext other
      simp only [Finset.mem_Ico, Finset.mem_singleton]
      omega
    have managed := spec.managed
    have fresh := spec.fresh
    have used := spec.used
    have zeroed := spec.zeroed
    rw [one] at managed fresh used zeroed
    rw [single] at fresh used
    refine Or.inr ⟨⟨⟨?_, ?_, ?_⟩, spec.bounds, ?_⟩, ?_⟩
    · rw [place, Nat.mul_mod_left]
    · rw [index]
      omega
    · rw [index]
      simpa using fresh
    · rw [index, used, Finset.insert_eq, Finset.union_comm]
    · rwa [Nat.one_mul] at zeroed

def EntryStep (ram changed : Mem) (parent index value : Nat) : Prop :=
  ∀ table position, table % pageSize = 0 → position < 512 →
    entryAt changed table position =
      if table = parent ∧ position = index then value else entryAt ram table position

def LinkStep (ram changed : Mem) (parent index frame value : Nat) (contents : Nat → Nat) : Prop :=
  ∀ table position, table % pageSize = 0 → position < 512 →
    entryAt changed table position =
      if table = frame then contents position
      else if table = parent ∧ position = index then value else entryAt ram table position

def LinksTo (value frame : Nat) : Prop :=
  ∃ flags < 2 ^ 12, value = frame ||| flags ∧ flags.testBit presentBit = true ∧
    flags.testBit hugeBit = false

def Alike (old value : Nat) : Prop := ∃ extra < 8, value = old ||| extra

structure Grew (pmm after : Pmm) (parent index frame : Nat) (contents : Nat → Nat) : Prop where
  nonNull : frame ≠ 0
  took : Took pmm after frame
  link : ∃ value, LinksTo value frame ∧
    LinkStep pmm.ram after.ram parent index frame value contents

inductive TableStep (pmm after : Pmm) (parent index : Nat) : Nat → Prop where
  | kept (value : Nat)
      (present : (entryAt pmm.ram parent index).testBit presentBit = true)
      (alike : Alike (entryAt pmm.ram parent index) value)
      (entries : EntryStep pmm.ram after.ram parent index value)
      (pool : after = { pmm with ram := after.ram }) :
      TableStep pmm after parent index (alignDown (entryAt pmm.ram parent index))
  | made (frame : Nat)
      (absent : (entryAt pmm.ram parent index).testBit presentBit = false)
      (grew : Grew pmm after parent index frame fun _ => 0) :
      TableStep pmm after parent index frame

/-- An allocation that gives no frame: nothing happened, or frame 0 was handed out. -/
def NoFrame (pmm after : Pmm) : Prop :=
  after = pmm ∨ Took pmm after 0 ∧ after.ram = pmm.ram.fill 0 pageSize 0

theorem pmmAllocPage_took (based : ZeroBased pmm) (allocated : pmmAllocPage pmm = some (frame, after))
    (nonNull : frame ≠ 0) : Took pmm after frame ∧ after.ram = pmm.ram.fill frame pageSize 0 :=
  (pmmAllocPage_spec based allocated).resolve_left fun failed => nonNull failed.1

theorem pmmAllocPage_none (based : ZeroBased pmm) (allocated : pmmAllocPage pmm = some (0, after)) :
    NoFrame pmm after := by
  rcases pmmAllocPage_spec based allocated with failed | took
  · exact Or.inl failed.2
  · exact Or.inr took

theorem EntryStep.refl (ram : Mem) (parent index : Nat) :
    EntryStep ram ram parent index (entryAt ram parent index) := by
  intro table position _ _
  split
  · rename_i same
    rw [same.1, same.2]
  · rfl

theorem EntryStep.trans {ram middle changed : Mem} {parent index first second : Nat}
    (left : EntryStep ram middle parent index first)
    (right : EntryStep middle changed parent index second) :
    EntryStep ram changed parent index second := by
  intro table position aligned bound
  rw [right table position aligned bound]
  split
  · rfl
  · rename_i elsewhere
    rw [left table position aligned bound, if_neg elsewhere]

theorem Alike.trans {old middle value : Nat} (left : Alike old middle)
    (right : Alike middle value) : Alike old value := by
  obtain ⟨first, firstSmall, rfl⟩ := left
  obtain ⟨second, secondSmall, rfl⟩ := right
  exact ⟨first ||| second, Nat.or_lt_two_pow (n := 3) firstSmall secondSmall, Nat.or_assoc _ _ _⟩

section TableSteps

variable {pmm : Pmm} {ram : Mem} {parent index flags : Nat}

theorem setEntry_step {value : Nat} (aligned : parent % pageSize = 0) (bound : index < 512)
    (small : value < 2 ^ 64) : EntryStep ram (setEntry ram parent index value) parent index value := by
  intro table position tableAligned positionBound
  rw [entryAt_setEntry aligned tableAligned bound positionBound, Nat.mod_eq_of_lt small]

theorem orEntry_step {extra : Nat} (aligned : parent % pageSize = 0) (bound : index < 512)
    (small : extra < 8) :
    EntryStep ram (setEntry ram parent index (entryAt ram parent index ||| extra)) parent index
      (entryAt ram parent index ||| extra) :=
  setEntry_step aligned bound
    (Nat.or_lt_two_pow (entryAt_lt ram parent index) (Nat.lt_trans small (by decide)))

theorem grantFlag_step {bit : Nat} (aligned : parent % pageSize = 0) (bound : index < 512)
    (low : bit < 3) :
    ∃ value, Alike (entryAt ram parent index) value ∧
      EntryStep ram (grantFlag ram parent index flags bit) parent index value := by
  unfold grantFlag
  split
  · have small : 2 ^ bit < 8 := Nat.pow_lt_pow_right (by decide) low
    exact ⟨_, ⟨_, small, rfl⟩, orEntry_step aligned bound small⟩
  · exact ⟨_, ⟨0, by decide, (Nat.or_zero _).symm⟩, EntryStep.refl ram parent index⟩

theorem EntryStep.read {changed : Mem} {value : Nat} (step : EntryStep ram changed parent index value)
    (aligned : parent % pageSize = 0) (bound : index < 512) :
    entryAt changed parent index = value := by
  rw [step parent index aligned bound, if_pos ⟨rfl, rfl⟩]

theorem link_step {cleared : Mem} {frame value : Nat} (aligned : parent % pageSize = 0)
    (bound : index < 512) (inUse : ¬Available pmm parent) (available : Available pmm frame)
    (zeroed : cleared = pmm.ram.fill frame pageSize 0) (small : value < 2 ^ 64) :
    LinkStep pmm.ram (setEntry (cleared.fill frame pageSize 0) parent index value)
      parent index frame value fun _ => 0 := by
  intro table position tableAligned positionBound
  rw [entryAt_setEntry aligned tableAligned bound positionBound, Nat.mod_eq_of_lt small]
  have apart : parent ≠ frame := by
    rintro rfl
    exact inUse available
  by_cases fresh : table = frame
  · rw [if_pos fresh, if_neg (by omega), entryAt_fill available.1 tableAligned positionBound,
      if_pos fresh]
  · rw [if_neg fresh, entryAt_fill available.1 tableAligned positionBound, if_neg fresh, zeroed,
      entryAt_fill available.1 tableAligned positionBound, if_neg fresh]

theorem getOrCreateTable_cases (based : ZeroBased pmm) (aligned : parent % pageSize = 0)
    (nonNull : parent ≠ nullTable) (bound : index < 512) (inUse : ¬Available pmm parent) :
    getOrCreateTable pmm parent index flags = none ∨
      (∃ after, getOrCreateTable pmm parent index flags = some (nullTable, after) ∧
        NoFrame pmm after) ∨
      ∃ table after, getOrCreateTable pmm parent index flags = some (table, after) ∧
        TableStep pmm after parent index table := by
  unfold getOrCreateTable
  rw [if_neg (by omega)]
  split
  · rename_i present
    obtain ⟨first, firstAlike, firstStep⟩ :=
      @grantFlag_step pmm.ram parent index flags userBit aligned bound (by decide)
    obtain ⟨second, secondAlike, secondStep⟩ :=
      @grantFlag_step (grantFlag pmm.ram parent index flags userBit) parent index flags writeBit
        aligned bound (by decide)
    rw [firstStep.read aligned bound] at secondAlike
    exact Or.inr (Or.inr ⟨_, _, rfl, .kept second present (firstAlike.trans secondAlike)
      (firstStep.trans secondStep) rfl⟩)
  · rename_i absent
    cases allocated : pmmAllocPage pmm with
    | none => exact Or.inl rfl
    | some result =>
        obtain ⟨frame, after⟩ := result
        dsimp only
        by_cases zero : frame = 0
        · rw [if_pos zero]
          exact Or.inr (Or.inl ⟨after, rfl, pmmAllocPage_none based (zero ▸ allocated)⟩)
        · rw [if_neg zero]
          obtain ⟨took, zeroed⟩ := pmmAllocPage_took based allocated zero
          generalize flagsEq : (pagePresent ||| pageWrite |||
            if flags.testBit userBit = true then pageUser else 0) = tableFlags
          have tableFlagsKind : tableFlags < 2 ^ 12 ∧ tableFlags.testBit presentBit = true ∧
              tableFlags.testBit hugeBit = false := by
            rw [← flagsEq]
            split <;> decide
          have small := took.available.small based
          refine Or.inr (Or.inr ⟨frame, _, rfl, .made frame (by simpa using absent) ⟨zero,
            took.with_ram _, frame ||| tableFlags, ⟨tableFlags, tableFlagsKind.1, rfl,
              tableFlagsKind.2⟩, ?_⟩⟩)
          exact link_step aligned bound inUse took.available zeroed
            (Nat.or_lt_two_pow (by omega) (by omega))

theorem TableStep.force {after : Pmm} {table : Nat} (step : TableStep pmm after parent index table)
    (aligned : parent % pageSize = 0) (bound : index < 512) (inUse : ¬Available pmm parent) :
    TableStep pmm { after with
      ram := setEntry after.ram parent index (entryAt after.ram parent index ||| pageUser) }
      parent index table := by
  have forced := @orEntry_step after.ram parent index pageUser aligned bound (by decide)
  cases step with
  | kept value present alike entries pool =>
      rw [entries.read aligned bound] at forced ⊢
      exact .kept _ present (alike.trans ⟨pageUser, by decide, rfl⟩) (entries.trans forced)
        (by rw [pool])
  | made _ absent grew =>
      obtain ⟨nonNull, took, value, link, entries⟩ := grew
      have apart : parent ≠ table := by
        rintro rfl
        exact inUse took.available
      have stored : entryAt after.ram parent index = value := by
        rw [entries parent index aligned bound, if_neg apart, if_pos ⟨rfl, rfl⟩]
      rw [stored] at forced ⊢
      refine .made table absent ⟨nonNull, took.with_ram _, value ||| pageUser, ?_, ?_⟩
      · obtain ⟨flags, small, rfl, present, notHuge⟩ := link
        refine ⟨flags ||| pageUser, Nat.or_lt_two_pow small (by decide), Nat.or_assoc _ _ _, ?_, ?_⟩
        · simp [present]
        · rw [Nat.testBit_or, notHuge]
          decide
      · intro other position otherAligned positionBound
        rw [forced other position otherAligned positionBound]
        by_cases here : other = parent ∧ position = index
        · rw [if_pos here, if_neg (by rw [here.1]; exact apart), if_pos here]
        · rw [if_neg here, entries other position otherAligned positionBound, if_neg here,
            if_neg here]

theorem withTable_cases {forceUser : Bool} {next : Nat → Pmm → Option (Bool × Pmm)}
    (based : ZeroBased pmm) (aligned : parent % pageSize = 0) (nonNull : parent ≠ nullTable)
    (bound : index < 512) (inUse : ¬Available pmm parent) :
    withTable pmm parent index flags forceUser next = none ∨
      (∃ after, withTable pmm parent index flags forceUser next = some (false, after) ∧
        (NoFrame pmm after ∨ TableStep pmm after parent index nullTable)) ∨
      ∃ table after, table ≠ nullTable ∧ TableStep pmm after parent index table ∧
        withTable pmm parent index flags forceUser next = next table after := by
  unfold withTable
  rcases @getOrCreateTable_cases pmm parent index flags based aligned nonNull bound inUse with
    fault | ⟨after, failed, noFrame⟩ | ⟨table, after, found, step⟩
  · rw [fault]
    exact Or.inl rfl
  · rw [failed]
    exact Or.inr (Or.inl ⟨after, rfl, Or.inl noFrame⟩)
  · rw [found]
    dsimp only
    by_cases null : table = nullTable
    · rw [if_pos null]
      exact Or.inr (Or.inl ⟨after, rfl, Or.inr (null ▸ step)⟩)
    · rw [if_neg null]
      cases forceUser with
      | false => exact Or.inr (Or.inr ⟨table, after, null, step, rfl⟩)
      | true => exact Or.inr (Or.inr ⟨table, _, null, step.force aligned bound inUse, rfl⟩)

theorem entryAt_foldl {table other position count : Nat} {value : Nat → Nat}
    (aligned : table % pageSize = 0) (otherAligned : other % pageSize = 0)
    (positionBound : position < 512) (fits : count ≤ 512) :
    entryAt ((List.range count).foldl (fun ram index => setEntry ram table index (value index)) ram)
        other position =
      if other = table ∧ position < count then value position % 2 ^ 64
      else entryAt ram other position := by
  induction count with
  | zero => simp
  | succ count ih =>
      rw [List.range_succ, List.foldl_append, List.foldl_cons, List.foldl_nil,
        entryAt_setEntry aligned otherAligned (by omega) positionBound, ih (by omega)]
      by_cases last : other = table ∧ position = count
      · rw [if_pos last, if_pos (by omega), last.2]
      · rw [if_neg last]
        by_cases earlier : other = table ∧ position < count
        · rw [if_pos earlier, if_pos (by omega)]
        · rw [if_neg earlier, if_neg (by omega)]

def splitContents (entry position : Nat) : Nat :=
  (entry / 2 ^ 21 * 2 ^ 21 + position * 4096) ||| smallFlags entry

theorem smallFlags_kind (entry : Nat) :
    smallFlags entry < 2 ^ 12 ∧ (smallFlags entry).testBit presentBit = true ∧
      (smallFlags entry).testBit hugeBit = false := by
  refine ⟨?_, ?_, ?_⟩
  · exact Nat.or_lt_two_pow (Nat.lt_of_le_of_lt Nat.and_le_right (by decide)) (by decide)
  · simp [smallFlags, presentBit, pagePresent]
  · have maskBit : Nat.testBit 0xF7F hugeBit = false := by decide
    have presentOnly : Nat.testBit pagePresent hugeBit = false := by decide
    rw [smallFlags, Nat.testBit_or, Nat.testBit_and, maskBit, presentOnly, Bool.and_false]
    rfl

theorem splitHugePage_cases (based : ZeroBased pmm) (aligned : parent % pageSize = 0)
    (bound : index < 512) (inUse : ¬Available pmm parent) :
    splitHugePage pmm parent index = none ∨
      (∃ after, splitHugePage pmm parent index = some (false, after) ∧ NoFrame pmm after) ∨
      (splitHugePage pmm parent index = some (true, pmm) ∧
        (entryAt pmm.ram parent index).testBit hugeBit = false) ∨
      ∃ after frame, splitHugePage pmm parent index = some (true, after) ∧
        (entryAt pmm.ram parent index).testBit hugeBit = true ∧
        Grew pmm after parent index frame (splitContents (entryAt pmm.ram parent index)) := by
  unfold splitHugePage
  dsimp only
  cases huge : (entryAt pmm.ram parent index).testBit hugeBit with
  | false =>
      exact Or.inr (Or.inr (Or.inl ⟨rfl, rfl⟩))
  | true =>
      simp only [Bool.not_true, Bool.false_eq_true, if_false]
      cases allocated : pmmAllocPage pmm with
      | none => exact Or.inl rfl
      | some result =>
          obtain ⟨frame, after⟩ := result
          dsimp only
          by_cases zero : frame = 0
          · rw [if_pos zero]
            exact Or.inr (Or.inl ⟨after, rfl, pmmAllocPage_none based (zero ▸ allocated)⟩)
          · rw [if_neg zero]
            obtain ⟨took, zeroed⟩ := pmmAllocPage_took based allocated zero
            refine Or.inr (Or.inr (Or.inr ⟨_, frame, rfl, trivial, zero, took.with_ram _, ?_⟩))
            have kind := smallFlags_kind (entryAt pmm.ram parent index)
            have small := took.available.small based
            have apart : parent ≠ frame := by
              rintro rfl
              exact inUse took.available
            refine ⟨_, ⟨_, kind.1, rfl, kind.2⟩, ?_⟩
            intro table position tableAligned positionBound
            have entrySmall := entryAt_lt pmm.ram parent index
            rw [entryAt_setEntry aligned tableAligned bound positionBound,
              entryAt_foldl took.available.1 tableAligned positionBound (Nat.le_refl _), zeroed,
              entryAt_fill took.available.1 tableAligned positionBound]
            by_cases fresh : table = frame
            · have elsewhere : ¬(table = parent ∧ position = index) := by
                rintro ⟨rfl, _⟩
                exact apart fresh
              have page : entryAt pmm.ram parent index / 2 ^ 21 * 2 ^ 21 + position * 4096 < 2 ^ 64 := by
                omega
              have flagsSmall : smallFlags (entryAt pmm.ram parent index) < 2 ^ 64 :=
                Nat.lt_trans kind.1 (by decide)
              rw [if_neg elsewhere, if_pos ⟨fresh, positionBound⟩, if_pos fresh]
              exact Nat.mod_eq_of_lt (Nat.or_lt_two_pow page flagsSmall)
            · have notFresh : ¬(table = frame ∧ position < 512) := fun both => fresh both.1
              simp only [if_neg fresh, if_neg notFresh]
              have linkSmall : frame ||| smallFlags (entryAt pmm.ram parent index) < 2 ^ 64 :=
                Nat.or_lt_two_pow (by omega) (by omega)
              rw [Nat.mod_eq_of_lt linkSmall]

end TableSteps

/-- The node below an entry: tables at depths 0 to 2, mapped frames at depth 3.  Bit 7
ends the walk at depths 1 and 2. -/
def childNode (ram : Mem) (depth table index : Nat) : Option Nat :=
  let entry := entryAt ram table index
  if entry.testBit presentBit && !((depth = 1 || depth = 2) && entry.testBit hugeBit) then
    some (alignDown entry)
  else none

def nodeAt (ram : Mem) (root : Nat) (path : List Nat) : Option Nat := walk (childNode ram) root path

def PathUpTo (depth : Nat) (path : List Nat) : Prop :=
  path.length ≤ depth ∧ ∀ index ∈ path, index < 512

section Nodes

variable {ram changed : Mem} {root depth table index frame : Nat} {path : List Nat}

theorem PathUpTo.tail (valid : PathUpTo depth (index :: path)) : PathUpTo depth path :=
  ⟨Nat.le_of_succ_le valid.1, fun other member => valid.2 other (List.mem_cons_of_mem _ member)⟩

theorem PathUpTo.head (valid : PathUpTo depth (index :: path)) : index < 512 :=
  valid.2 index List.mem_cons_self

theorem PathUpTo.cons (valid : PathUpTo depth path) (bound : index < 512) :
    PathUpTo (depth + 1) (index :: path) := by
  refine ⟨Nat.succ_le_succ valid.1, ?_⟩
  intro other member
  rcases List.mem_cons.mp member with same | later
  · exact same ▸ bound
  · exact valid.2 other later

theorem PathUpTo.mono {more : Nat} (valid : PathUpTo depth path) (le : depth ≤ more) :
    PathUpTo more path := ⟨Nat.le_trans valid.1 le, valid.2⟩

theorem childNode_aligned {node : Nat} (found : childNode ram depth table index = some node) :
    node % pageSize = 0 := by
  unfold childNode at found
  dsimp only at found
  split at found
  · simp only [Option.some.injEq] at found
    exact found ▸ alignDown_aligned _
  · contradiction

theorem nodeAt_aligned {node : Nat} (aligned : root % pageSize = 0)
    (found : nodeAt ram root path = some node) : node % pageSize = 0 := by
  cases path with
  | nil =>
      simp only [nodeAt, walk, Option.some.injEq] at found
      exact found ▸ aligned
  | cons index path =>
      obtain ⟨parent, _, step⟩ := walk_parent found
      exact childNode_aligned step

theorem childNode_congr (same : entryAt changed table index = entryAt ram table index) :
    childNode changed depth table index = childNode ram depth table index := by
  simp only [childNode, same]

theorem nodeAt_missing (place : nodeAt ram root path = some table)
    (absent : (entryAt ram table index).testBit presentBit = false) :
    nodeAt ram root (index :: path) = none := by
  rw [nodeAt, walk_cons place]
  simp [childNode, absent]

theorem childNode_zero (zero : entryAt ram table index = 0) :
    childNode ram depth table index = none := by
  simp [childNode, zero]

theorem Alike.testBit {old value bit : Nat} (alike : Alike old value) (high : 3 ≤ bit) :
    value.testBit bit = old.testBit bit := by
  obtain ⟨extra, small, rfl⟩ := alike
  have wide : 2 ^ 3 ≤ 2 ^ bit := Nat.pow_le_pow_right (by omega) high
  have clear : extra.testBit bit = false := Nat.testBit_lt_two_pow (Nat.lt_of_lt_of_le small wide)
  rw [Nat.testBit_or, clear, Bool.or_false]

theorem Alike.present {old value : Nat} (alike : Alike old value)
    (present : old.testBit presentBit = true) : value.testBit presentBit = true := by
  obtain ⟨extra, _, rfl⟩ := alike
  rw [Nat.testBit_or, present, Bool.true_or]

theorem Alike.alignDown {old value : Nat} (alike : Alike old value) :
    Szczupak.alignDown value = Szczupak.alignDown old := by
  obtain ⟨extra, small, rfl⟩ := alike
  exact alignDown_or (Nat.lt_trans small (by decide))

theorem childNode_alike (present : (entryAt ram table index).testBit presentBit = true)
    (alike : Alike (entryAt ram table index) (entryAt changed table index)) :
    childNode changed depth table index = childNode ram depth table index := by
  have huge := alike.testBit (show 3 ≤ hugeBit by decide)
  simp only [childNode, huge, alike.alignDown, alike.present present, present]

theorem childNode_link (aligned : frame % pageSize = 0)
    (link : LinksTo (entryAt ram table index) frame) :
    childNode ram depth table index = some frame := by
  obtain ⟨flags, small, value, present, notHuge⟩ := link
  have frameHuge := testBit_aligned aligned (show hugeBit < 12 by decide)
  have isPresent : (entryAt ram table index).testBit presentBit = true := by
    rw [value, Nat.testBit_or, present, Bool.or_true]
  have isSmall : (entryAt ram table index).testBit hugeBit = false := by
    rw [value, Nat.testBit_or, frameHuge, notHuge, Bool.or_false]
  have target : alignDown (entryAt ram table index) = frame := by
    rw [value, alignDown_or small, alignDown_of_aligned aligned]
  simp [childNode, isPresent, isSmall, target]

end Nodes

end Szczupak
