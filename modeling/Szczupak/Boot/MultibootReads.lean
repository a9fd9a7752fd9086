import Szczupak.Boot.Multiboot

/-!
What `multiboot_parse` reads.  Nothing but the end tag stops the loop over the tags, and nothing but
its own sizes a loop over a map, so the parse ends inside the block exactly where the tags
themselves lead to an end tag inside it.  `boot.S` passes a 32-bit address, so no address wraps.
-/

namespace Szczupak

def entryReads (wanted : Bool) (entry : Nat) : List (Nat × Nat) :=
  (entry + 16, 4) :: if wanted then [(entry, 8), (entry + 8, 8)] else []

/-- A loop over the map at `tag`; the size of the map and of an entry are read at every turn. -/
def mapReads (tag : Nat) (wanted : Nat → Bool) (entries : List Nat) : List (Nat × Nat) :=
  (tag + 4, 4) :: entries.flatMap fun entry => entryReads (wanted entry) entry ++
    [(tag + 8, 4), (tag + 4, 4)]

def copyLimit : Nat → Option Nat
  | 1 => some 255
  | 14 => some 20
  | 15 => some 64
  | _ => none

def payloadReads (mem : Mem) (tag count : Nat) : List (Nat × Nat) :=
  match copyLimit (tagType mem tag) with
  | some limit => if 8 < tagSize mem tag then [(tag + 8, min (tagSize mem tag - 8) limit)] else []
  | none =>
      if tagType mem tag = 3 ∧ count < maxModules then [(tag + 12, 4), (tag + 8, 4)] else []

def walkReads (turns : Nat) (mem : Mem) : Nat → Nat → Multiboot → List (Nat × Nat)
  | 0, _, _ => []
  | more + 1, tag, boot =>
      (tag, 4) :: if tagType mem tag = 0 then []
        else (tag + 4, 4) :: if tagType mem tag = 6 then
          match mapEntries turns mem tag, visitMap turns mem boot tag with
          | some entries, some boot => mapReads tag (entryAvailable mem) entries ++
              walkReads turns mem more (tag + tagStep mem tag) boot
          | _, _ => []
        else payloadReads mem tag boot.modules.length ++
          walkReads turns mem more (tag + tagStep mem tag) (visitTag mem boot tag)

def lastMapReads (turns : Nat) (mem : Mem) (boot : Multiboot) : List (Nat × Nat) :=
  match boot.mmapTag with
  | none => []
  | some tag =>
      match mapEntries turns mem tag with
      | none => []
      | some entries => mapReads tag (fun entry => !entryAvailable mem entry) entries

def moduleReads (modules : List Nat) : List (Nat × Nat) :=
  modules.flatMap fun tag => [(tag + 8, 4), (tag + 12, 4)]

def multibootReads (turns : Nat) (mem : Mem) (multibootAddr : Nat) : List (Nat × Nat) :=
  if multibootAddr = 0 then []
  else (multibootAddr, 4) :: if mem.readU32 multibootAddr < 8 then []
    else
      walkReads turns mem turns (multibootAddr + 8) Multiboot.empty ++
        match walkTags turns mem turns (multibootAddr + 8) Multiboot.empty with
        | none => []
        | some boot => lastMapReads turns mem boot ++ moduleReads boot.modules

structure TagInside (mem : Mem) (stop tag count : Nat) : Prop where
  header : tag + 8 ≤ stop
  map : tagType mem tag = 6 → 16 < tagSize mem tag → 0 < mapEntrySize mem tag ∧
    ∀ index, 16 + index * mapEntrySize mem tag < tagSize mem tag →
      tag + 16 + index * mapEntrySize mem tag + 20 ≤ stop
  copied : ∀ limit, copyLimit (tagType mem tag) = some limit → 8 < tagSize mem tag →
    tag + 8 + min (tagSize mem tag - 8) limit ≤ stop
  module : tagType mem tag = 3 → count < maxModules → tag + 16 ≤ stop

def countAfter (mem : Mem) (tag count : Nat) : Nat :=
  if tagType mem tag = 3 ∧ count < maxModules ∧ moduleStart mem tag < moduleEnd mem tag then
    count + 1 else count

inductive LeadsToEnd (mem : Mem) (stop : Nat) : Nat → Nat → Prop where
  | last {tag count : Nat} (fits : tag + 4 ≤ stop) (isEnd : tagType mem tag = 0) :
      LeadsToEnd mem stop tag count
  | next {tag count : Nat} (notEnd : tagType mem tag ≠ 0) (inside : TagInside mem stop tag count)
      (rest : LeadsToEnd mem stop (tag + tagStep mem tag) (countAfter mem tag count)) :
      LeadsToEnd mem stop tag count

def ReadsInside (start stop : Nat) (reads : List (Nat × Nat)) : Prop :=
  ∀ range ∈ reads, start ≤ range.1 ∧ range.1 + range.2 ≤ stop

theorem ReadsInside.append {start stop : Nat} {first second : List (Nat × Nat)}
    (left : ReadsInside start stop first) (right : ReadsInside start stop second) :
    ReadsInside start stop (first ++ second) := by
  intro range member
  rcases List.mem_append.mp member with early | late
  · exact left range early
  · exact right range late

theorem ReadsInside.of_append {start stop : Nat} {first second : List (Nat × Nat)}
    (both : ReadsInside start stop (first ++ second)) : ReadsInside start stop first ∧
    ReadsInside start stop second :=
  ⟨fun range member => both range (List.mem_append_left _ member),
    fun range member => both range (List.mem_append_right _ member)⟩

section Entries

variable {size stop turns entry : Nat} {entries : List Nat}

theorem entriesFrom_mem (found : entriesFrom size stop turns entry = some entries) (place : Nat) :
    place ∈ entries ↔ ∃ index, place = entry + index * size ∧ place < stop := by
  induction turns generalizing entry entries with
  | zero => simp [entriesFrom] at found
  | succ turns ih =>
      rw [entriesFrom] at found
      split at found
      next more =>
        cases later : entriesFrom size stop turns (entry + size) with
        | none => simp [later] at found
        | some rest =>
            simp only [later, Option.some.injEq] at found
            subst found
            rw [List.mem_cons, ih later]
            constructor
            · rintro (rfl | ⟨index, same, below⟩)
              · exact ⟨0, by simp, more⟩
              · exact ⟨index + 1, by rw [same, Nat.succ_mul]; omega, below⟩
            · rintro ⟨index, same, below⟩
              cases index with
              | zero => exact Or.inl (by simpa using same)
              | succ index => exact Or.inr ⟨index, by rw [same, Nat.succ_mul]; omega, below⟩
      next ended =>
        simp only [Option.some.injEq] at found
        subst found
        simp only [List.not_mem_nil, false_iff, not_exists, not_and]
        intro index same
        omega

theorem entriesFrom_positive (found : entriesFrom size stop turns entry = some entries) :
    0 < size ∨ stop ≤ entry := by
  by_contra stuck
  obtain ⟨zero, below⟩ := not_or.mp stuck
  have none : size = 0 := by omega
  subst none
  induction turns generalizing entries with
  | zero => simp [entriesFrom] at found
  | succ turns ih =>
      rw [entriesFrom, if_pos (by omega), Nat.add_zero] at found
      cases later : entriesFrom 0 stop turns entry with
      | none => simp [later] at found
      | some rest => exact ih later

theorem entriesFrom_ends (advances : 0 < size ∨ stop ≤ entry) (begun : 0 < turns)
    (enough : stop < entry + turns) :
    ∃ entries, entriesFrom size stop turns entry = some entries := by
  induction turns generalizing entry with
  | zero => omega
  | succ turns ih =>
      rw [entriesFrom]
      split
      next more =>
        obtain ⟨rest, later⟩ := @ih (entry + size) (by omega) (by omega) (by omega)
        simp [later]
      next => exact ⟨[], rfl⟩

end Entries

section Map

variable {mem : Mem} {start stop turns tag count : Nat} {entries : List Nat} {wanted : Nat → Bool}

theorem tagSize_lt (mem : Mem) (tag : Nat) : tagSize mem tag < 2 ^ 32 := mem.readLE_lt _ _

theorem mapReads_inside (lower : start ≤ tag) (inside : TagInside mem stop tag count)
    (isMap : tagType mem tag = 6)
    (found : mapEntries turns mem tag = some entries) :
    ReadsInside start stop (mapReads tag wanted entries) := by
  have header := inside.header
  simp only [ReadsInside, mapReads, List.forall_mem_cons, List.mem_flatMap]
  refine ⟨by omega, ?_⟩
  rintro range ⟨entry, member, reads⟩
  obtain ⟨index, place, below⟩ := (entriesFrom_mem found entry).mp member
  have fits := (inside.map isMap (by omega)).2 index (by omega)
  simp only [entryReads, List.mem_append, List.mem_cons, List.mem_ite_nil_right] at reads
  rcases reads with (rfl | ⟨_, rfl | rfl | none⟩) | (rfl | rfl | none)
  · dsimp only
    omega
  · dsimp only
    omega
  · dsimp only
    omega
  · cases none
  · dsimp only
    omega
  · dsimp only
    omega
  · cases none

theorem map_of_reads (found : mapEntries turns mem tag = some entries)
    (reads : ReadsInside start stop (mapReads tag (entryAvailable mem) entries))
    (more : 16 < tagSize mem tag) :
    0 < mapEntrySize mem tag ∧ ∀ index, 16 + index * mapEntrySize mem tag < tagSize mem tag →
      tag + 16 + index * mapEntrySize mem tag + 20 ≤ stop := by
  constructor
  · have advances := entriesFrom_positive found
    omega
  · intro index below
    have member := (entriesFrom_mem found (tag + 16 + index * mapEntrySize mem tag)).mpr
      ⟨index, rfl, by omega⟩
    have inside := reads (tag + 16 + index * mapEntrySize mem tag + 16, 4)
      (List.mem_cons_of_mem _ (List.mem_flatMap.mpr ⟨_, member, by simp [entryReads]⟩))
    simp only at inside
    omega

theorem mapEntries_ends (inside : TagInside mem stop tag count) (isMap : tagType mem tag = 6)
    (enough : 2 ^ 32 ≤ turns) : ∃ entries, mapEntries turns mem tag = some entries := by
  have small := tagSize_lt mem tag
  refine entriesFrom_ends ?_ (by omega) (by omega)
  by_cases more : 16 < tagSize mem tag
  · exact Or.inl (inside.map isMap more).1
  · exact Or.inr (by omega)

theorem payloadReads_inside (lower : start ≤ tag) (inside : TagInside mem stop tag count) :
    ReadsInside start stop (payloadReads mem tag count) := by
  unfold payloadReads ReadsInside
  split
  next limit found =>
    split
    next large =>
      simp only [List.forall_mem_singleton]
      exact ⟨by omega, inside.copied limit found large⟩
    next => simp
  next =>
    split
    next isModule =>
      have fits := inside.module isModule.1 isModule.2
      simp only [List.forall_mem_cons]
      exact ⟨by omega, by omega, by simp⟩
    next => simp

theorem tagInside_of_reads (header : tag + 8 ≤ stop) (other : tagType mem tag ≠ 6)
    (reads : ReadsInside start stop (payloadReads mem tag count)) : TagInside mem stop tag count := by
  unfold payloadReads ReadsInside at reads
  refine ⟨header, fun isMap => absurd isMap other, ?_, ?_⟩
  · intro limit found large
    simp only [found, large, if_true, List.forall_mem_singleton] at reads
    exact reads.2
  · intro isModule room
    have uncopied : copyLimit (tagType mem tag) = none := by rw [isModule]; rfl
    rw [uncopied] at reads
    dsimp only at reads
    rw [if_pos ⟨isModule, room⟩] at reads
    have last := (reads (tag + 12, 4) (by simp)).2
    dsimp only at last
    omega

end Map

structure KeepsInside (mem : Mem) (start stop : Nat) (boot : Multiboot) : Prop where
  map : ∀ tag, boot.mmapTag = some tag → start ≤ tag ∧ tagType mem tag = 6 ∧ ∃ count,
    TagInside mem stop tag count
  modules : ∀ tag ∈ boot.modules, start ≤ tag ∧ tag + 16 ≤ stop

section Walk

variable {mem : Mem} {start stop turns tag count : Nat} {boot : Multiboot}

theorem visitTag_count :
    (visitTag mem boot tag).modules.length = countAfter mem tag boot.modules.length := by
  unfold countAfter
  by_cases isModule : tagType mem tag = 3
  · have branch : visitTag mem boot tag =
        if boot.modules.length < maxModules ∧ moduleStart mem tag < moduleEnd mem tag then
          { boot with modules := boot.modules ++ [tag] }
        else boot := by
      rw [visitTag, isModule]
      rfl
    rw [branch]
    split
    next saved => rw [if_pos ⟨isModule, saved⟩, List.length_append, List.length_singleton]
    next full => rw [if_neg fun both => full both.2]
  · rw [if_neg fun both => isModule both.1]
    unfold visitTag
    split
    case h_3 wrong => exact absurd wrong isModule
    case h_2 | h_4 | h_5 => split <;> rfl
    case h_1 | h_6 => rfl

theorem KeepsInside.empty : KeepsInside mem start stop Multiboot.empty := by
  constructor
  · rintro tag ⟨⟩
  · rintro tag ⟨⟩

theorem KeepsInside.visit (keeps : KeepsInside mem start stop boot) (lower : start ≤ tag)
    (inside : TagInside mem stop tag boot.modules.length) :
    KeepsInside mem start stop (visitTag mem boot tag) := by
  constructor
  · rw [(visitTag_mapFields tag).1]
    exact keeps.map
  · unfold visitTag
    split
    case h_3 isModule =>
      split
      next saved =>
        intro other member
        rcases List.mem_append.mp member with old | new
        · exact keeps.modules other old
        · rw [List.mem_singleton.mp new]
          exact ⟨lower, inside.module isModule saved.1⟩
      next => exact keeps.modules
    case h_2 | h_4 | h_5 =>
      split
      next => exact keeps.modules
      next => exact keeps.modules
    case h_1 | h_6 => exact keeps.modules

theorem KeepsInside.visitMap {after : Multiboot} (keeps : KeepsInside mem start stop boot)
    (lower : start ≤ tag) (inside : TagInside mem stop tag count) (isMap : tagType mem tag = 6)
    (visited : visitMap turns mem boot tag = some after) :
    KeepsInside mem start stop after ∧ after.modules = boot.modules := by
  unfold Szczupak.visitMap at visited
  cases found : mapEntries turns mem tag with
  | none => simp [found] at visited
  | some entries =>
      simp only [found, Option.some.injEq] at visited
      subst visited
      refine ⟨⟨?_, keeps.modules⟩, rfl⟩
      rintro other ⟨⟩
      exact ⟨lower, isMap, count, inside⟩

theorem countAfter_map (isMap : tagType mem tag = 6) : countAfter mem tag count = count := by
  rw [countAfter, if_neg]
  omega

theorem LeadsToEnd.walk (leads : LeadsToEnd mem stop tag count) :
    ∃ turn, ∀ turns more, 2 ^ 32 ≤ turns → turn ≤ more → ∀ boot : Multiboot,
    boot.modules.length = count → start ≤ tag →
      KeepsInside mem start stop boot → ∃ after, walkTags turns mem more tag boot = some after ∧
        ReadsInside start stop (walkReads turns mem more tag boot) ∧ KeepsInside mem start stop after := by
  induction leads with
  | last fits isEnd =>
      refine ⟨1, fun turns more _ enough boot same lower keeps => ?_⟩
      obtain ⟨more, rfl⟩ := Nat.exists_eq_add_of_le' enough
      refine ⟨boot, by rw [walkTags, if_pos isEnd], ?_, keeps⟩
      rw [walkReads, if_pos isEnd]
      simpa [ReadsInside] using ⟨lower, fits⟩
  | @next tag count notEnd inside rest ih =>
      obtain ⟨turn, later⟩ := ih
      refine ⟨turn + 1, fun turns more enough enoughTurns boot same lower keeps => ?_⟩
      obtain ⟨more, rfl⟩ := Nat.exists_eq_add_of_le' (Nat.le_trans (Nat.le_add_left 1 turn) enoughTurns)
      subst same
      have header := inside.header
      have head : ReadsInside start stop [(tag, 4), (tag + 4, 4)] := by
        simp only [ReadsInside, List.forall_mem_cons]
        exact ⟨by omega, by omega, by simp⟩
      by_cases isMap : tagType mem tag = 6
      · obtain ⟨entries, found⟩ := mapEntries_ends inside isMap enough
        have visited : visitMap turns mem boot tag = some { boot with
            mmapTag := some tag, highestAddr := highestEnd mem entries boot.highestAddr } := by
          rw [visitMap, found]
        obtain ⟨kept, modules⟩ := keeps.visitMap lower inside isMap visited
        obtain ⟨after, walked, reads, keptAfter⟩ := later turns more enough (by omega) _
          (by rw [modules, countAfter_map isMap]) (by omega) kept
        refine ⟨after, ?_, ?_, keptAfter⟩
        · rw [walkTags, if_neg notEnd, if_pos isMap, visited]
          exact walked
        · rw [walkReads, if_neg notEnd, if_pos isMap, found, visited]
          exact ReadsInside.append head ((mapReads_inside lower inside isMap found).append reads)
      · obtain ⟨after, walked, reads, keptAfter⟩ :=
          later turns more enough (by omega) _ visitTag_count (by omega) (keeps.visit lower inside)
        refine ⟨after, ?_, ?_, keptAfter⟩
        · rw [walkTags, if_neg notEnd, if_neg isMap]
          exact walked
        · rw [walkReads, if_neg notEnd, if_neg isMap]
          exact ReadsInside.append head ((payloadReads_inside lower inside).append reads)

theorem leadsToEnd_of_walk {more : Nat} {after : Multiboot}
    (walked : walkTags turns mem more tag boot = some after)
    (reads : ReadsInside start stop (walkReads turns mem more tag boot)) :
    LeadsToEnd mem stop tag boot.modules.length := by
  induction more generalizing tag boot with
  | zero => simp [walkTags] at walked
  | succ more ih =>
      rw [walkTags] at walked
      rw [walkReads] at reads
      have first := (reads (tag, 4) List.mem_cons_self).2
      by_cases isEnd : tagType mem tag = 0
      · exact .last first isEnd
      rw [if_neg isEnd] at walked reads
      have header := (reads (tag + 4, 4) (List.mem_cons_of_mem _ List.mem_cons_self)).2
      have rest := fun range member => reads range (List.mem_cons_of_mem _ (List.mem_cons_of_mem _ member))
      by_cases isMap : tagType mem tag = 6
      · rw [if_pos isMap] at walked
        cases visited : visitMap turns mem boot tag with
        | none => simp [visited] at walked
        | some next =>
            rw [visited] at walked
            cases found : mapEntries turns mem tag with
            | none => simp [visitMap, found] at visited
            | some entries =>
                simp only [if_pos isMap, found, visited] at rest
                obtain ⟨map, later⟩ := ReadsInside.of_append rest
                have same : next.modules = boot.modules := by
                  simp only [visitMap, found, Option.some.injEq] at visited
                  rw [← visited]
                have ends := ih walked later
                rw [same, ← @countAfter_map mem tag boot.modules.length isMap] at ends
                refine .next isEnd ⟨header, fun _ => map_of_reads found map, ?_, by omega⟩ ends
                intro limit copied
                simp [isMap, copyLimit] at copied
      · rw [if_neg isMap] at walked
        simp only [if_neg isMap] at rest
        obtain ⟨payload, later⟩ := ReadsInside.of_append rest
        have ends := ih walked later
        rw [visitTag_count] at ends
        exact .next isEnd (tagInside_of_reads header isMap payload) ends

end Walk

theorem TagsAt.leadsToEnd {mem : Mem} {stop tag count : Nat} {tags : List Nat}
    (formed : TagsAt mem stop tag tags) : LeadsToEnd mem stop tag count := by
  induction tags generalizing tag count with
  | nil => exact .last (by have fits := formed.1; omega) formed.2
  | cons first rest ih =>
      obtain ⟨rfl, wellFormed, later⟩ := formed
      have header := wellFormed.header
      have inside := wellFormed.inside
      refine .next wellFormed.notEnd ⟨by omega, ?_, ?_, ?_⟩ (ih later)
      · intro isMap _
        obtain ⟨size, room, whole⟩ := wellFormed.map isMap
        refine ⟨by omega, fun index below => ?_⟩
        obtain ⟨count, entries⟩ := whole
        have before : index < count := by
          apply Nat.lt_of_mul_lt_mul_left
          rw [← entries, Nat.mul_comm]
          omega
        have last := Nat.mul_le_mul_left (mapEntrySize mem first) (Nat.succ_le_of_lt before)
        rw [← entries, Nat.mul_succ, Nat.mul_comm] at last
        omega
      · intro limit _ _
        omega
      · intro isModule _
        have size := wellFormed.module isModule
        omega

/-- The parse ends and reads nothing but the block exactly where the tags lead to an end tag inside
it. -/
theorem multiboot_parse_reads (symbols : KernelSymbols) (mem : Mem) (multibootAddr : Nat)
    (before : Multiboot) (pmm : Pmm) (large : 8 ≤ mem.readU32 multibootAddr) :
    (∃ turns, (multibootParse turns symbols mem multibootAddr before pmm).isSome ∧
      ReadsInside multibootAddr (multibootAddr + mem.readU32 multibootAddr)
      (multibootReads turns mem multibootAddr)) ↔
    multibootAddr = 0 ∨ LeadsToEnd mem (multibootAddr + mem.readU32 multibootAddr)
    (multibootAddr + 8) 0 := by
  by_cases null : multibootAddr = 0
  · refine iff_of_true ⟨0, ?_, ?_⟩ (Or.inl null)
    · rw [multibootParse, if_pos null]
      rfl
    · rw [multibootReads, if_pos null]
      exact fun range member => absurd member List.not_mem_nil
  rw [or_iff_right null]
  have sized : ¬mem.readU32 multibootAddr < 8 := Nat.not_lt.mpr large
  constructor
  · rintro ⟨turns, parsed, reads⟩
    rw [multibootParse, if_neg null] at parsed
    simp only [if_neg sized] at parsed
    rw [multibootReads, if_neg null, if_neg sized] at reads
    cases walked : walkTags turns mem turns (multibootAddr + 8) Multiboot.empty with
    | none => simp [walked] at parsed
    | some boot =>
        have inside := ReadsInside.of_append fun range member => reads range (List.mem_cons_of_mem _ member)
        exact leadsToEnd_of_walk walked inside.1
  · intro leads
    obtain ⟨turn, walk⟩ := @LeadsToEnd.walk mem multibootAddr _ _ _ leads
    have enough : 2 ^ 32 ≤ max (2 ^ 32) turn := Nat.le_max_left _ _
    obtain ⟨boot, walked, reads, keeps⟩ := walk (max (2 ^ 32) turn) _ enough
      (Nat.le_max_right _ _) Multiboot.empty rfl (by omega) KeepsInside.empty
    generalize max (2 ^ 32) turn = turns at enough walked reads
    have modules : ReadsInside multibootAddr (multibootAddr + mem.readU32 multibootAddr)
      (moduleReads boot.modules) := by
      intro range member
      obtain ⟨tag, saved, place⟩ := List.mem_flatMap.mp member
      have fits := keeps.modules tag saved
      simp only [List.mem_cons, List.not_mem_nil, or_false] at place
      rcases place with rfl | rfl
      · dsimp only
        omega
      · dsimp only
        omega
    have map : (reserveMap turns mem boot
      (pmmReserveRange (pmmInit symbols pmm 0 (UInt64.ofNat boot.highestAddr))
        (UInt64.ofNat multibootAddr) (UInt64.ofNat (multibootAddr + mem.readU32 multibootAddr)))).isSome ∧
        ReadsInside multibootAddr (multibootAddr + mem.readU32 multibootAddr)
        (lastMapReads turns mem boot) := by
      rw [reserveMap, lastMapReads]
      cases last : boot.mmapTag with
      | none => exact ⟨rfl, fun range member => absurd member List.not_mem_nil⟩
      | some tag =>
          obtain ⟨lower, isMap, count, inside⟩ := keeps.map tag last
          obtain ⟨entries, found⟩ := mapEntries_ends inside isMap enough
          simp only [found]
          exact ⟨rfl, mapReads_inside lower inside isMap found⟩
    obtain ⟨mapped, mapReads⟩ := map
    obtain ⟨reserved, reserves⟩ := Option.isSome_iff_exists.mp mapped
    refine ⟨turns, ?_, ?_⟩
    · rw [multibootParse, if_neg null]
      simp only [if_neg sized, walked, reserves]
      rfl
    · rw [multibootReads, if_neg null, if_neg sized, walked]
      have header : ReadsInside multibootAddr (multibootAddr + mem.readU32 multibootAddr)
        [(multibootAddr, 4)] := by
        simp only [ReadsInside, List.forall_mem_singleton]
        omega
      exact header.append (reads.append (mapReads.append modules))

theorem wholeBlock_reads_inside : ∃ turns,
    (multibootParse turns lowSymbols wholeBlock 0x10000 Multiboot.empty (pmmBoot fun _ => 0)).isSome ∧
      ReadsInside 0x10000 (0x10000 + wholeBlock.readU32 0x10000) (multibootReads turns wholeBlock 0x10000) :=
  (multiboot_parse_reads lowSymbols wholeBlock 0x10000 Multiboot.empty (pmmBoot fun _ => 0)
    (by decide +kernel)).mpr (Or.inr wholeBlock_formed.tags.leadsToEnd)

def sizelessTag : Mem := (Mem.writeU32 (fun _ => 0) 0x10000 24).writeU32 0x10008 1

theorem sizelessTag_loops {turns more : Nat} {boot : Multiboot} :
    walkTags turns sizelessTag more (0x10000 + 8) boot = none := by
  induction more generalizing boot with
  | zero => rfl
  | succ more ih =>
      have type : tagType sizelessTag (0x10000 + 8) = 1 := by decide
      have step : tagStep sizelessTag (0x10000 + 8) = 0 := by decide
      rw [walkTags, type, step]
      exact ih

theorem sizeless_tag_never_ends : 8 ≤ sizelessTag.readU32 0x10000 ∧
    ∀ turns, multibootParse turns lowSymbols sizelessTag 0x10000 Multiboot.empty
    (pmmBoot fun _ => 0) = none := by
  refine ⟨by decide, fun turns => ?_⟩
  rw [multibootParse, if_neg (by decide)]
  simp only [if_neg (show ¬sizelessTag.readU32 0x10000 < 8 by decide), sizelessTag_loops]

end Szczupak
