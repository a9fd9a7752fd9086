import Szczupak.Boot.MultibootCore
import Szczupak.Boot.Reserved

/-!
`multiboot_parse` on a well-formed block: it ends, and the pages outside the ranges it reserves
are those the allocator hands out.  They are safe exactly where the map leaves nothing out.
-/

namespace Szczupak

structure WellFormedTag (mem : Mem) (stop tag : Nat) : Prop where
  notEnd : tagType mem tag ≠ 0
  header : 8 ≤ tagSize mem tag
  inside : tag + tagSize mem tag ≤ stop
  map : tagType mem tag = 6 →
    24 ≤ mapEntrySize mem tag ∧ 16 ≤ tagSize mem tag ∧ mapEntrySize mem tag ∣ tagSize mem tag - 16
  module : tagType mem tag = 3 → 16 ≤ tagSize mem tag

def TagsAt (mem : Mem) (stop : Nat) : Nat → List Nat → Prop
  | tag, [] => tag + 8 ≤ stop ∧ tagType mem tag = 0
  | tag, first :: rest =>
      first = tag ∧ WellFormedTag mem stop tag ∧ TagsAt mem stop (tag + tagStep mem tag) rest

structure WellFormed (mem : Mem) (multibootAddr : Nat) (tags : List Nat) : Prop where
  nonzero : multibootAddr ≠ 0
  fits : multibootAddr + mem.readU32 multibootAddr < 2 ^ 64
  tags : TagsAt mem (multibootAddr + mem.readU32 multibootAddr) (multibootAddr + 8) tags

def entryList (mem : Mem) (tag : Nat) : List Nat :=
  (List.range ((tagSize mem tag - 16) / mapEntrySize mem tag)).map fun index =>
    tag + 16 + index * mapEntrySize mem tag

def keepTag (mem : Mem) (boot : Multiboot) (tag : Nat) : Multiboot :=
  if tagType mem tag = 6 then
    { boot with
      mmapTag := some tag, highestAddr := highestEnd mem (entryList mem tag) boot.highestAddr }
  else visitTag mem boot tag

section Walk

variable {mem : Mem} {tag stop turns : Nat} {tags : List Nat} {boot : Multiboot}

theorem entriesFrom_list {size count entry : Nat} (positive : 0 < size) (enough : count < turns)
    (isStop : stop = entry + count * size) :
    entriesFrom size stop turns entry = some ((List.range count).map fun index => entry + index * size) := by
  induction count generalizing entry turns with
  | zero =>
      obtain ⟨turns, rfl⟩ := Nat.exists_eq_succ_of_ne_zero (Nat.ne_of_gt enough)
      rw [entriesFrom, if_neg (by omega)]
      rfl
  | succ count ih =>
      obtain ⟨turns, rfl⟩ := Nat.exists_eq_succ_of_ne_zero (Nat.ne_of_gt (Nat.zero_lt_of_lt enough))
      rw [Nat.succ_mul] at isStop
      rw [entriesFrom, if_pos (by omega), ih (by omega) (by omega)]
      simp only [List.range_succ_eq_map, List.map_cons, List.map_map, Nat.zero_mul, Nat.add_zero]
      congr 2
      refine List.map_congr_left fun index _ => ?_
      simp only [Function.comp_apply, Nat.succ_mul]
      omega

theorem mapEntries_list (formed : WellFormedTag mem stop tag) (isMap : tagType mem tag = 6)
    (enough : tagSize mem tag ≤ turns) : mapEntries turns mem tag = some (entryList mem tag) := by
  obtain ⟨size, header, whole⟩ := formed.map isMap
  have product := Nat.div_mul_cancel whole
  have count : (tagSize mem tag - 16) / mapEntrySize mem tag ≤ tagSize mem tag - 16 :=
    Nat.div_le_self _ _
  exact entriesFrom_list (by omega) (by omega) (by omega)

theorem tagStep_ge (small : tagSize mem tag < 2 ^ 32 - 8) :
    tagSize mem tag ≤ tagStep mem tag := by
  rw [tagStep, Nat.mod_eq_of_lt (by omega)]
  omega

theorem TagsAt.sizes (formed : TagsAt mem stop tag tags) (small : stop < tag + (2 ^ 32 - 8)) :
    tag + 8 * (tags.length + 1) ≤ stop ∧
      ∀ other ∈ tags, WellFormedTag mem stop other ∧ tag + tagSize mem other ≤ stop := by
  induction tags generalizing tag with
  | nil =>
      rw [List.length_nil]
      exact ⟨formed.1, fun _ member => by cases member⟩
  | cons first rest ih =>
      obtain ⟨rfl, wellFormed, later⟩ := formed
      have inside := wellFormed.inside
      have header := wellFormed.header
      have step := @tagStep_ge mem first (by omega)
      obtain ⟨length, sizes⟩ := ih later (by omega)
      rw [List.length_cons]
      refine ⟨by omega, fun other member => ?_⟩
      rcases List.mem_cons.mp member with rfl | inRest
      · exact ⟨wellFormed, inside⟩
      · obtain ⟨otherFormed, otherSize⟩ := sizes other inRest
        exact ⟨otherFormed, by omega⟩

theorem walkTags_formed (formed : TagsAt mem stop tag tags) (small : stop < tag + (2 ^ 32 - 8))
    {more : Nat} (enough : stop ≤ tag + turns) (tagsEnough : tags.length < more) :
    walkTags turns mem more tag boot = some (tags.foldl (keepTag mem) boot) := by
  induction tags generalizing tag more boot with
  | nil =>
      obtain ⟨more, rfl⟩ := Nat.exists_eq_succ_of_ne_zero (Nat.ne_of_gt tagsEnough)
      rw [walkTags, if_pos formed.2]
      rfl
  | cons first rest ih =>
      obtain ⟨more, rfl⟩ := Nat.exists_eq_succ_of_ne_zero (Nat.ne_of_gt (Nat.zero_lt_of_lt tagsEnough))
      rw [List.length_cons] at tagsEnough
      obtain ⟨rfl, wellFormed, later⟩ := formed
      have inside := wellFormed.inside
      have step := @tagStep_ge mem first (by omega)
      rw [walkTags, if_neg wellFormed.notEnd, List.foldl_cons, keepTag]
      split
      next isMap =>
        rw [visitMap, mapEntries_list wellFormed isMap (by omega)]
        exact ih later (by omega) (by omega) (by omega)
      next => exact ih later (by omega) (by omega) (by omega)

end Walk

def mapTags (mem : Mem) (tags : List Nat) : List Nat := tags.filter fun tag => tagType mem tag = 6

def moduleTags (mem : Mem) (tags : List Nat) : List Nat :=
  tags.filter fun tag => tagType mem tag = 3 ∧ moduleStart mem tag < moduleEnd mem tag

def allEntries (mem : Mem) (tags : List Nat) : List Nat :=
  (mapTags mem tags).flatMap (entryList mem)

section Keeps

variable {mem : Mem} {tags : List Nat} {boot : Multiboot}

theorem highestEnd_append {first second : List Nat} {highest : Nat} :
    highestEnd mem (first ++ second) highest = highestEnd mem second (highestEnd mem first highest) :=
  List.foldl_append

theorem highestEnd_fits {entries : List Nat} {highest : Nat} (fits : highest < 2 ^ 64) :
    highestEnd mem entries highest < 2 ^ 64 := by
  induction entries generalizing highest with
  | nil => exact fits
  | cons entry rest ih =>
      refine ih ?_
      dsimp only
      split
      next => exact Nat.mod_lt _ (by decide)
      next => exact fits

theorem visitTag_mapFields (tag : Nat) :
    (visitTag mem boot tag).mmapTag = boot.mmapTag ∧
      (visitTag mem boot tag).highestAddr = boot.highestAddr := by
  unfold visitTag
  split
  case h_2 | h_3 | h_4 | h_5 => split <;> exact ⟨rfl, rfl⟩
  case h_1 | h_6 => exact ⟨rfl, rfl⟩

theorem mapTags_cons_map {tag : Nat} (isMap : tagType mem tag = 6) :
    mapTags mem (tag :: tags) = tag :: mapTags mem tags :=
  List.filter_cons_of_pos (decide_eq_true isMap)

theorem mapTags_cons_other {tag : Nat} (other : tagType mem tag ≠ 6) :
    mapTags mem (tag :: tags) = mapTags mem tags :=
  List.filter_cons_of_neg fun isMap => other (of_decide_eq_true isMap)

theorem keepTags_highest :
    (tags.foldl (keepTag mem) boot).highestAddr = highestEnd mem (allEntries mem tags)
    boot.highestAddr := by
  induction tags generalizing boot with
  | nil => rfl
  | cons tag rest ih =>
      rw [List.foldl_cons, ih, keepTag]
      split
      next isMap =>
        rw [allEntries, allEntries, mapTags_cons_map isMap, List.flatMap_cons, highestEnd_append]
      next other =>
        rw [(visitTag_mapFields tag).2, allEntries, allEntries, mapTags_cons_other other]

theorem keepTags_mmapTag :
    (tags.foldl (keepTag mem) boot).mmapTag = (mapTags mem tags).getLast?.or boot.mmapTag := by
  induction tags generalizing boot with
  | nil => rfl
  | cons tag rest ih =>
      rw [List.foldl_cons, ih, keepTag]
      split
      next isMap =>
        rw [mapTags_cons_map isMap, List.getLast?_cons]
        cases (mapTags mem rest).getLast? <;> rfl
      next other => rw [(visitTag_mapFields tag).1, mapTags_cons_other other]

theorem keepTag_module {tag : Nat} (isModule : tagType mem tag = 3)
    (some : moduleStart mem tag < moduleEnd mem tag) :
    (keepTag mem boot tag).modules =
      if boot.modules.length < maxModules then boot.modules ++ [tag] else boot.modules := by
  have branch : visitTag mem boot tag =
      if boot.modules.length < maxModules ∧ moduleStart mem tag < moduleEnd mem tag then
        { boot with modules := boot.modules ++ [tag] }
      else boot := by
    rw [visitTag, isModule]
    rfl
  rw [keepTag, if_neg (by omega), branch]
  by_cases room : boot.modules.length < maxModules
  · rw [if_pos ⟨room, some⟩, if_pos room]
  · rw [if_neg fun both => room both.1, if_neg room]

theorem keepTag_other {tag : Nat}
    (other : ¬(tagType mem tag = 3 ∧ moduleStart mem tag < moduleEnd mem tag)) :
    (keepTag mem boot tag).modules = boot.modules := by
  rw [keepTag]
  split
  next => rfl
  next =>
    unfold visitTag
    split
    case h_3 isModule => exact congrArg Multiboot.modules (if_neg fun both => other ⟨isModule, both.2⟩)
    case h_2 | h_4 | h_5 => split <;> rfl
    case h_1 | h_6 => rfl

theorem keepTags_modules (room : boot.modules.length ≤ maxModules) :
    (tags.foldl (keepTag mem) boot).modules = (boot.modules ++ moduleTags mem tags).take
    maxModules := by
  induction tags generalizing boot with
  | nil =>
      rw [moduleTags, List.filter_nil, List.append_nil, List.take_of_length_le room]
      rfl
  | cons tag rest ih =>
      rw [List.foldl_cons]
      by_cases isModule : tagType mem tag = 3 ∧ moduleStart mem tag < moduleEnd mem tag
      · have modules := @keepTag_module mem boot tag isModule.1 isModule.2
        have listed : moduleTags mem (tag :: rest) = tag :: moduleTags mem rest :=
          List.filter_cons_of_pos (decide_eq_true isModule)
        rw [listed]
        split at modules
        next free =>
          rw [ih (by rw [modules, List.length_append, List.length_singleton]; exact free), modules,
            List.append_assoc, List.singleton_append]
        next full =>
          have isFull : boot.modules.length = maxModules := by omega
          rw [ih (by rw [modules]; exact room), modules, List.take_left' isFull, List.take_left' isFull]
      · have listed : moduleTags mem (tag :: rest) = moduleTags mem rest :=
          List.filter_cons_of_neg fun both => isModule (of_decide_eq_true both)
        rw [ih (by rw [keepTag_other isModule]; exact room), keepTag_other isModule, listed]

end Keeps

def entryRange (mem : Mem) (entry : Nat) : Nat × Nat := (entryAddr mem entry, entryEnd mem entry)
def moduleRange (mem : Mem) (tag : Nat) : Nat × Nat := (moduleStart mem tag, moduleEnd mem tag)

/-- The entries of the last map, the only one that reserves. -/
def lastEntries (mem : Mem) (tags : List Nat) : List Nat :=
  match (mapTags mem tags).getLast? with
  | none => []
  | some tag => entryList mem tag

def blockRanges (mem : Mem) (multibootAddr : Nat) (tags : List Nat) : List (Nat × Nat) :=
  (multibootAddr, multibootAddr + mem.readU32 multibootAddr) ::
    (((lastEntries mem tags).filter fun entry => !entryAvailable mem entry).map (entryRange mem) ++
      ((moduleTags mem tags).take maxModules).map (moduleRange mem))

def reservedRanges (symbols : KernelSymbols) (mem : Mem) (multibootAddr : Nat) (tags : List Nat) :
    List (Nat × Nat) :=
  kernelRanges symbols ++ blockRanges mem multibootAddr tags

section Parse

variable {mem : Mem} {multibootAddr turns total : Nat} {tags : List Nat} {pmm : Pmm}
  {ranges : List (Nat × Nat)}

theorem Reserves.entries (reserves : Reserves pmm total ranges) (entries : List Nat) :
    Reserves (reserveEntries mem entries pmm) total
      (ranges ++ (entries.filter fun entry => !entryAvailable mem entry).map (entryRange mem)) := by
  induction entries generalizing pmm ranges with
  | nil =>
      rw [List.filter_nil, List.map_nil, List.append_nil]
      exact reserves
  | cons entry rest ih =>
      rw [reserveEntries, List.foldl_cons]
      by_cases available : entryAvailable mem entry = true
      · rw [if_pos available, List.filter_cons_of_neg (by rw [available]; decide)]
        exact ih reserves
      · rw [if_neg available, List.filter_cons_of_pos (by simpa using available), List.map_cons,
          List.append_cons]
        exact ih (reserves.reserve (Mem.readU64_lt mem entry) (Nat.mod_lt _ (by decide)))

theorem Reserves.modules (reserves : Reserves pmm total ranges) (modules : List Nat) :
    Reserves (reserveModules mem modules pmm) total (ranges ++ modules.map (moduleRange mem)) := by
  have small : ∀ address, mem.readU32 address < 2 ^ 64 := fun address =>
    (Mem.readLE_lt mem address 4).trans_le (by decide)
  induction modules generalizing pmm ranges with
  | nil =>
      rw [List.map_nil, List.append_nil]
      exact reserves
  | cons tag rest ih =>
      rw [reserveModules, List.foldl_cons, List.map_cons, List.append_cons]
      exact ih (reserves.reserve (small _) (small _))

theorem multibootParse_reserves (symbols : KernelSymbols) (before : Multiboot)
    (formed : WellFormed mem multibootAddr tags) (enough : mem.readU32 multibootAddr ≤ turns) :
    ∃ boot pmm ranges,
      multibootParse turns symbols mem multibootAddr before (pmmBoot mem) = some (true, boot, pmm) ∧
      Reserves pmm (managedPages (highestEnd mem (allEntries mem tags) 0)) ranges ∧
      (0 < managedPages (highestEnd mem (allEntries mem tags) 0) →
        ranges = reservedRanges symbols mem multibootAddr tags) := by
  have bound : mem.readU32 multibootAddr < 2 ^ 32 := Mem.readLE_lt mem multibootAddr 4
  have fits := formed.fits
  generalize isSize : mem.readU32 multibootAddr = totalSize at *
  have walked := formed.tags
  rw [isSize] at walked
  obtain ⟨length, sizes⟩ := walked.sizes (by omega)
  have loop := @walkTags_formed mem (multibootAddr + 8) (multibootAddr + totalSize) turns tags
    Multiboot.empty walked (by omega) turns (by omega) (by omega)
  generalize isBoot : tags.foldl (keepTag mem) Multiboot.empty = boot at loop
  have highest : boot.highestAddr = highestEnd mem (allEntries mem tags) 0 := by
    rw [← isBoot, keepTags_highest]
    rfl
  have modules : boot.modules = (moduleTags mem tags).take maxModules := by
    rw [← isBoot, keepTags_modules (by decide)]
    rfl
  have mmapTag : boot.mmapTag = (mapTags mem tags).getLast? := by
    rw [← isBoot, keepTags_mmapTag]
    exact Option.or_none
  have highestFits : boot.highestAddr < 2 ^ 64 := by
    rw [highest]
    exact highestEnd_fits (by decide)
  obtain ⟨kernel, sized, isKernel⟩ := pmmInit_reserves symbols mem highestFits
  have block := sized.reserve (show multibootAddr < 2 ^ 64 by omega) fits
  have mapped : ∃ pmm, reserveMap turns mem boot (pmmReserveRange
      (pmmInit symbols (pmmBoot mem) 0 (UInt64.ofNat boot.highestAddr)) (UInt64.ofNat multibootAddr)
      (UInt64.ofNat (multibootAddr + totalSize))) = some pmm ∧
      Reserves pmm (managedPages boot.highestAddr)
        (kernel ++ [(multibootAddr, multibootAddr + totalSize)] ++
          ((lastEntries mem tags).filter fun entry => !entryAvailable mem entry).map (entryRange mem)) := by
    rw [reserveMap, lastEntries, ← mmapTag]
    cases last : boot.mmapTag with
    | none =>
        dsimp only
        rw [List.filter_nil, List.map_nil, List.append_nil]
        exact ⟨_, rfl, block⟩
    | some tag =>
        rw [mmapTag] at last
        have member := List.mem_filter.mp (List.mem_of_getLast? last)
        obtain ⟨tagFormed, tagSmall⟩ := sizes tag member.1
        have isMap : tagType mem tag = 6 := of_decide_eq_true member.2
        have bytes := tagFormed.inside
        dsimp only
        rw [mapEntries_list tagFormed isMap (by omega)]
        exact ⟨_, rfl, block.entries _⟩
  obtain ⟨reserved, mapDone, mapReserves⟩ := mapped
  refine ⟨boot, reserveModules mem boot.modules reserved, _, ?_, highest ▸ mapReserves.modules _, ?_⟩
  · rw [multibootParse, if_neg formed.nonzero, isSize]
    dsimp only
    rw [if_neg (by omega), loop]
    dsimp only
    rw [mapDone]
  · intro some
    rw [← highest] at some
    rw [isKernel some, modules, reservedRanges, blockRanges, isSize, List.append_assoc, List.append_assoc]
    rfl

end Parse

def PageApart (page start stop : Nat) : Prop :=
  stop ≤ start ∨ (page + 1) * pageSize ≤ start ∨ stop ≤ page * pageSize

def InsideAvailable (mem : Mem) (tags : List Nat) (page : Nat) : Prop :=
  ∃ entry ∈ allEntries mem tags, entryAvailable mem entry = true ∧
    entryAddr mem entry ≤ page * pageSize ∧
    (page + 1) * pageSize ≤ entryAddr mem entry + entryLen mem entry

/-- The kernel image runs from 1 MiB to `kernel_end`. -/
structure SafePage (symbols : KernelSymbols) (mem : Mem) (multibootAddr : Nat) (tags : List Nat)
    (page : Nat) : Prop where
  available : InsideAvailable mem tags page
  kernel : PageApart page 0x100000 symbols.kernelEnd.toNat
  block : PageApart page multibootAddr (multibootAddr + mem.readU32 multibootAddr)
  modules : ∀ tag ∈ tags, tagType mem tag = 3 → PageApart page (moduleStart mem tag) (moduleEnd mem tag)

/-- No page below the highest available end is left over that the map does not list as a whole or
that a module behind the kept ones touches. -/
def NothingLeftOut (symbols : KernelSymbols) (mem : Mem) (multibootAddr : Nat)
    (tags : List Nat) : Prop :=
  ∀ page < managedPages (highestEnd mem (allEntries mem tags) 0),
    (∀ range ∈ reservedRanges symbols mem multibootAddr tags, ¬Visits range page) →
    InsideAvailable mem tags page ∧
      ∀ tag ∈ (moduleTags mem tags).drop maxModules, PageApart page (moduleStart mem tag) (moduleEnd mem tag)

theorem apart_of_unvisited {page start stop : Nat} (outside : ¬Visits (start, stop) page)
    (small : page < maxMemoryPages) (noWrap : stop ≤ 2 ^ 64 - pageSize ∨
    maxMemoryPages * pageSize ≤ start) : PageApart page start stop := by
  have top : (page + 1) * pageSize ≤ maxMemoryPages * pageSize := Nat.mul_le_mul_right _ small
  rcases noWrap with below | above
  · by_contra touches
    refine outside ?_
    simp only [PageApart, not_or, Visits, alignDown, alignUp, pageSize] at *
    omega
  · exact Or.inr (Or.inl (top.trans above))

section Safe

variable {symbols : KernelSymbols} {mem : Mem} {multibootAddr page : Nat} {tags : List Nat}

theorem safePage_iff (aligned : symbols.kernelEnd.toNat % pageSize = 0) (small : page < maxMemoryPages)
    (outside : ∀ range ∈ reservedRanges symbols mem multibootAddr tags, ¬Visits range page) :
    SafePage symbols mem multibootAddr tags page ↔ InsideAvailable mem tags page ∧
      ∀ tag ∈ (moduleTags mem tags).drop maxModules,
        PageApart page (moduleStart mem tag) (moduleEnd mem tag) := by
  have inModules : ∀ tag ∈ moduleTags mem tags, tag ∈ tags ∧ tagType mem tag = 3 := by
    intro tag member
    have kept := List.mem_filter.mp member
    exact ⟨kept.1, (of_decide_eq_true kept.2).1⟩
  constructor
  · intro safe
    refine ⟨safe.available, fun tag member => ?_⟩
    obtain ⟨inTags, isModule⟩ := inModules tag (List.mem_of_mem_drop member)
    exact safe.modules tag inTags isModule
  · rintro ⟨available, late⟩
    refine ⟨available, ?_, ?_, fun tag member isModule => ?_⟩
    · have notKernel := outside (0x100000, alignUp symbols.kernelEnd.toNat)
        (List.mem_append_left _ (by simp [kernelRanges]))
      have bound := symbols.kernelEnd.toNat_lt
      have rounded : alignUp symbols.kernelEnd.toNat = symbols.kernelEnd.toNat := by
        simp only [alignUp, alignDown, pageSize] at aligned ⊢
        omega
      rw [rounded] at notKernel
      refine apart_of_unvisited notKernel small (Or.inl ?_)
      simp only [pageSize] at aligned ⊢
      omega
    · have notBlock := outside (multibootAddr, multibootAddr + mem.readU32 multibootAddr)
        (List.mem_append_right _ List.mem_cons_self)
      have bound : mem.readU32 multibootAddr < 2 ^ 32 := Mem.readLE_lt mem multibootAddr 4
      refine apart_of_unvisited notBlock small ?_
      simp only [maxMemoryPages, pageSize]
      omega
    · by_cases some : moduleStart mem tag < moduleEnd mem tag
      · have listed : tag ∈ moduleTags mem tags :=
          List.mem_filter.mpr ⟨member, decide_eq_true ⟨isModule, some⟩⟩
        rw [← List.take_append_drop maxModules (moduleTags mem tags)] at listed
        rcases List.mem_append.mp listed with kept | behind
        · have notModule := outside (moduleRange mem tag) (List.mem_append_right _
            (List.mem_cons_of_mem _ (List.mem_append_right _ (List.mem_map_of_mem kept))))
          have bound : moduleEnd mem tag < 2 ^ 32 := Mem.readLE_lt mem (tag + 12) 4
          refine apart_of_unvisited notModule small (Or.inl ?_)
          simp only [pageSize]
          omega
        · exact late tag behind
      · exact Or.inl (Nat.le_of_not_lt some)

theorem reservedRanges_zero :
    ∃ range ∈ reservedRanges symbols mem multibootAddr tags, Visits range 0 :=
  ⟨(0, 2 * 1024 * 1024), List.mem_append_left _ List.mem_cons_self, by decide⟩

end Safe

/-- After the parse of any well-formed block, callers are handed safe pages only, exactly when
the map leaves nothing out. -/
theorem boot_allocations_safe_iff {mem : Mem} {multibootAddr : Nat} {tags : List Nat}
    (symbols : KernelSymbols) (formed : WellFormed mem multibootAddr tags)
    (aligned : symbols.kernelEnd.toNat % pageSize = 0) {turns : Nat}
    (enough : mem.readU32 multibootAddr ≤ turns) (before : Multiboot) :
    ∃ boot pmm,
      multibootParse turns symbols mem multibootAddr before (pmmBoot mem) = some (true, boot, pmm) ∧
      (AllocationsSafe pmm (SafePage symbols mem multibootAddr tags) ↔
        NothingLeftOut symbols mem multibootAddr tags) := by
  obtain ⟨boot, pmm, ranges, parsed, reserves, isRanges⟩ :=
    multibootParse_reserves symbols before formed enough
  refine ⟨boot, pmm, parsed, ?_⟩
  rw [allocationsSafe_iff reserves fun some => isRanges some ▸ reservedRanges_zero, NothingLeftOut]
  have small : managedPages (highestEnd mem (allEntries mem tags) 0) ≤ maxMemoryPages :=
    Nat.min_le_right _ _
  refine forall₂_congr fun page managed => ?_
  rw [isRanges (by omega)]
  refine forall_congr' fun outside => ?_
  exact safePage_iff aligned (by omega) outside

/-- Available entries up to the BIOS area and from 1 to 4 MiB, the area itself, and a module at 3
MiB. -/
def wholeBlock : Mem := Mem.store (fun _ => 0) 0x10000
  [128, 0, 0, 0, 0, 0, 0, 0,
   6, 0, 0, 0, 88, 0, 0, 0, 24, 0, 0, 0, 0, 0, 0, 0,
   0, 0, 0, 0, 0, 0, 0, 0, 0, 240, 9, 0, 0, 0, 0, 0, 1, 0, 0, 0, 0, 0, 0, 0,
   0, 240, 9, 0, 0, 0, 0, 0, 0, 16, 6, 0, 0, 0, 0, 0, 2, 0, 0, 0, 0, 0, 0, 0,
   0, 0, 16, 0, 0, 0, 0, 0, 0, 0, 48, 0, 0, 0, 0, 0, 1, 0, 0, 0, 0, 0, 0, 0,
   3, 0, 0, 0, 18, 0, 0, 0, 0, 0, 48, 0, 0, 16, 48, 0, 97, 0, 0, 0, 0, 0, 0, 0,
   0, 0, 0, 0, 8, 0, 0, 0]

theorem wholeBlock_formed : WellFormed wholeBlock 0x10000 [0x10008, 0x10060] := by
  refine ⟨by decide, by decide +kernel, rfl, ⟨?_, ?_, ?_, fun _ => ?_, ?_⟩, ?_,
    ⟨?_, ?_, ?_, ?_, fun _ => ?_⟩, ?_, ?_⟩
  all_goals decide +kernel

theorem wholeBlock_allocations_safe :
    (allEntries wholeBlock [0x10008, 0x10060]).length = 3 ∧
    moduleTags wholeBlock [0x10008, 0x10060] = [0x10060] ∧ ∃ boot pmm,
      multibootParse 128 lowSymbols wholeBlock 0x10000 Multiboot.empty (pmmBoot wholeBlock) =
      some (true, boot, pmm) ∧
      AllocationsSafe pmm (SafePage lowSymbols wholeBlock 0x10000 [0x10008, 0x10060]) := by
  have modules : moduleTags wholeBlock [0x10008, 0x10060] = [0x10060] := by decide +kernel
  obtain ⟨boot, pmm, parsed, safe⟩ :=
    boot_allocations_safe_iff lowSymbols wholeBlock_formed (by decide +kernel) (show _ ≤ 128 by
      decide +kernel) Multiboot.empty
  refine ⟨by decide +kernel, modules, boot, pmm, parsed, safe.mpr fun page managed outside => ⟨?_, ?_⟩⟩
  · have low : 512 ≤ page := by
      by_contra below
      refine outside (0, 2 * 1024 * 1024) (List.mem_append_left _ List.mem_cons_self)
        ⟨by decide +kernel, Nat.zero_le _, ?_⟩
      have top : alignUp (2 * 1024 * 1024) = 512 * pageSize := by decide +kernel
      rw [top]
      exact Nat.mul_lt_mul_of_pos_right (by omega) (by decide +kernel)
    have first : entryAddr wholeBlock 0x10048 = 256 * pageSize := by decide +kernel
    have last : entryAddr wholeBlock 0x10048 + entryLen wholeBlock 0x10048 = 1024 * pageSize := by
      decide +kernel
    have pages : managedPages (highestEnd wholeBlock (allEntries wholeBlock [0x10008, 0x10060]) 0) =
      1024 := by decide +kernel
    refine ⟨0x10048, by decide +kernel, by decide +kernel, ?_, ?_⟩
    · rw [first]
      exact Nat.mul_le_mul_right _ (by omega)
    · rw [last]
      exact Nat.mul_le_mul_right _ (by omega)
  · have none : (moduleTags wholeBlock [0x10008, 0x10060]).drop maxModules = [] := by
      rw [modules]
      rfl
    rw [none]
    exact fun _ member => by cases member

/-- Available entries from 1 to 2 MiB and from 3 to 4 MiB; the map says nothing of the rest. -/
def holeBlock : Mem := Mem.store (fun _ => 0) 0x10000
  [80, 0, 0, 0, 0, 0, 0, 0,
   6, 0, 0, 0, 64, 0, 0, 0, 24, 0, 0, 0, 0, 0, 0, 0,
   0, 0, 16, 0, 0, 0, 0, 0, 0, 0, 16, 0, 0, 0, 0, 0, 1, 0, 0, 0, 0, 0, 0, 0,
   0, 0, 48, 0, 0, 0, 0, 0, 0, 0, 16, 0, 0, 0, 0, 0, 1, 0, 0, 0, 0, 0, 0, 0,
   0, 0, 0, 0, 8, 0, 0, 0]

theorem holeBlock_allocations_unsafe : ¬ ∀ (symbols : KernelSymbols) (mem : Mem) (multibootAddr : Nat)
    (tags : List Nat) (turns : Nat) (before : Multiboot), WellFormed mem multibootAddr tags →
    symbols.kernelEnd.toNat % pageSize = 0 → mem.readU32 multibootAddr ≤ turns → ∃ boot pmm,
      multibootParse turns symbols mem multibootAddr before (pmmBoot mem) = some (true, boot, pmm) ∧
      AllocationsSafe pmm (SafePage symbols mem multibootAddr tags) := by
  intro claimed
  have formed : WellFormed holeBlock 0x10000 [0x10008] := by
    refine ⟨by decide, by decide, rfl, ⟨by decide, by decide, by decide, fun _ => ?_, ?_⟩, ?_⟩
    · decide
    · decide
    · exact ⟨by decide, by decide⟩
  have enough : holeBlock.readU32 0x10000 ≤ 80 := by decide
  obtain ⟨boot, pmm, parsed, safe⟩ :=
    claimed lowSymbols holeBlock 0x10000 [0x10008] 80 Multiboot.empty formed (by decide) enough
  obtain ⟨boot', pmm', ranges, parsed', reserves, isRanges⟩ :=
    multibootParse_reserves lowSymbols Multiboot.empty formed enough
  cases parsed.symm.trans parsed'
  have zero := fun some => isRanges some ▸ @reservedRanges_zero lowSymbols holeBlock 0x10000 [0x10008]
  have managed : 512 < managedPages (highestEnd holeBlock (allEntries holeBlock [0x10008]) 0) := by
    decide
  have outside : ∀ range ∈ reservedRanges lowSymbols holeBlock 0x10000 [0x10008],
    ¬Visits range 512 := by
    decide +kernel
  have hole : ¬InsideAvailable holeBlock [0x10008] 512 := by
    rw [InsideAvailable]
    decide +kernel
  rw [← isRanges (by omega)] at outside
  exact hole ((allocationsSafe_iff reserves zero).mp safe 512 managed outside).available

end Szczupak
