import Szczupak.Loader.ElfCore
import Szczupak.Mm.VmmCore

/-!
What the loops of the loader go through: the bytes of a copy that ends early, the pages that
are mapped until one fails, and the program headers that are reached.
-/

namespace Szczupak

section Copy

variable {root dst len part done : Nat} {byte : Nat → UInt8} {ram : Mem}

theorem chunkSize_eq : chunkSize dst len done =
    min (4096 - (dst + done) % 2 ^ 64 % 4096) (len - done) := by
  rw [chunkSize]
  split
  · omega
  · omega

theorem chunkSize_le : chunkSize dst len done ≤ len - done := by
  rw [chunkSize_eq]
  exact Nat.min_le_right _ _

theorem chunkSize_pos (more : done < len) : 0 < chunkSize dst len done := by
  have inPage : (dst + done) % 2 ^ 64 % 4096 < 4096 := Nat.mod_lt _ (by decide)
  rw [chunkSize_eq]
  omega

theorem fillUser_step {fuel : Nat} (more : done < len) :
    elfFillUser root dst len byte (fuel + 1) done ram =
      if vmmGetPhysical ram root (UInt64.ofNat ((dst + done) % 2 ^ 64)) = 0 then
        ⟨false, done, ram⟩
      else elfFillUser root dst len byte fuel (done + chunkSize dst len done)
        (copyChunk root dst done byte (chunkSize dst len done) ram) := by
  rw [elfFillUser, if_pos more]

theorem fillUser_ended {fuel : Nat} (ended : len ≤ done) :
    elfFillUser root dst len byte fuel done ram = ⟨true, done, ram⟩ := by
  cases fuel with
  | zero => rfl
  | succ fuel => rw [elfFillUser, if_neg (Nat.not_lt.mpr ended)]

theorem fillUser_bounds (fuel : Nat) (begun : done ≤ len) :
    done ≤ (elfFillUser root dst len byte fuel done ram).done ∧
      (elfFillUser root dst len byte fuel done ram).done ≤ len := by
  induction fuel generalizing done ram with
  | zero => exact ⟨Nat.le_refl _, begun⟩
  | succ fuel ih =>
      by_cases more : done < len
      · rw [fillUser_step more]
        split
        next => exact ⟨Nat.le_refl _, begun⟩
        next =>
          have small := @chunkSize_le dst len done
          have bounds := @ih (done + chunkSize dst len done)
            (copyChunk root dst done byte (chunkSize dst len done) ram) (by omega)
          omega
      · rw [fillUser_ended (Nat.le_of_not_lt more)]
        exact ⟨Nat.le_refl _, begun⟩

theorem fillUser_reaches {shortFuel fuel : Nat} (within : part ≤ len) (begun : done ≤ part)
    (shortEnough : part ≤ done + shortFuel) (enough : len ≤ done + fuel) :
    part ≤ (elfFillUser root dst len byte fuel done ram).done ↔
      (elfFillUser root dst part byte shortFuel done ram).ok = true := by
  induction shortFuel generalizing done ram fuel with
  | zero =>
      have reached := (@fillUser_bounds root dst len done byte ram fuel (by omega)).1
      exact iff_of_true (by omega) rfl
  | succ shortFuel ih =>
      by_cases more : done < part
      · have longMore : done < len := by omega
        obtain ⟨fuel, rfl⟩ : ∃ rest, fuel = rest + 1 := ⟨fuel - 1, by omega⟩
        have inPage : (dst + done) % 2 ^ 64 % 4096 < 4096 := Nat.mod_lt _ (by decide)
        rw [fillUser_step longMore, fillUser_step more]
        split
        next => exact iff_of_false (by simp only; omega) Bool.false_ne_true
        next =>
          by_cases whole : 4096 - (dst + done) % 2 ^ 64 % 4096 ≤ part - done
          · have same : chunkSize dst len done = chunkSize dst part done := by
              simp only [chunkSize_eq]
              omega
            have positive := @chunkSize_pos dst part done more
            have small := @chunkSize_le dst part done
            rw [same]
            exact ih (by omega) (by omega) (by omega)
          · have last : done + chunkSize dst part done = part := by
              simp only [chunkSize_eq]
              omega
            have beyond : part ≤ done + chunkSize dst len done := by
              simp only [chunkSize_eq]
              omega
            have small := @chunkSize_le dst len done
            have reached := (@fillUser_bounds root dst len (done + chunkSize dst len done) byte
              (copyChunk root dst done byte (chunkSize dst len done) ram) fuel (by omega)).1
            refine iff_of_true (by omega) ?_
            rw [fillUser_ended (Nat.le_of_eq last.symm)]
      · have reached := (@fillUser_bounds root dst len done byte ram fuel (by omega)).1
        refine iff_of_true (by omega) ?_
        rw [fillUser_ended (by omega)]

def elfCopyCount (pmm : Pmm) (root dst : Nat) (kernel : Mem) (src len : Nat) : Nat :=
  if src = 0 ∨ len = 0 then 0
  else (elfFillUser root dst len (copiedByte kernel src) len 0 pmm.ram).done

def elfZeroCount (pmm : Pmm) (root dst len : Nat) : Nat :=
  if len = 0 then 0 else (elfFillUser root dst len (fun _ => 0) len 0 pmm.ram).done

theorem elfCopyCount_le (pmm : Pmm) (kernel : Mem) (src : Nat) :
    elfCopyCount pmm root dst kernel src len ≤ len := by
  rw [elfCopyCount]
  split
  · exact Nat.zero_le _
  · exact (fillUser_bounds len (Nat.zero_le _)).2

theorem elfZeroCount_le (pmm : Pmm) : elfZeroCount pmm root dst len ≤ len := by
  rw [elfZeroCount]
  split
  · exact Nat.zero_le _
  · exact (fillUser_bounds len (Nat.zero_le _)).2

theorem elfCopyCount_misses (pmm : Pmm) (kernel : Mem) (src : Nat) {last : Nat}
    (within : last < len) : elfCopyCount pmm root dst kernel src len ≤ last ↔
      (elfCopyToUser pmm root dst kernel src (last + 1)).map Prod.fst = some false := by
  by_cases null : src = 0
  · rw [elfCopyCount, elfCopyToUser, if_pos (Or.inl null), if_pos (Or.inl null)]
    exact iff_of_true (Nat.zero_le _) rfl
  · rw [elfCopyCount, elfCopyToUser, if_neg (by omega), if_neg (by omega)]
    have reaches := @fillUser_reaches root dst len (last + 1) 0 (copiedByte kernel src) pmm.ram
      (last + 1) len within (Nat.zero_le _) (by omega) (by omega)
    rw [← Nat.not_lt, Nat.lt_iff_add_one_le, reaches]
    simp

theorem elfZeroCount_misses (pmm : Pmm) {last : Nat} (within : last < len) :
    elfZeroCount pmm root dst len ≤ last ↔
      (elfZeroUser pmm root dst (last + 1)).map Prod.fst = some false := by
  rw [elfZeroCount, elfZeroUser, if_neg (by omega), if_neg (by omega)]
  have reaches := @fillUser_reaches root dst len (last + 1) 0 (fun _ => 0) pmm.ram
    (last + 1) len within (Nat.zero_le _) (by omega) (by omega)
  rw [← Nat.not_lt, Nat.lt_iff_add_one_le, reaches]
  simp

end Copy

section Pages

variable {root vaddr count : Nat} {pmm after : Pmm} {next : Pmm → Option (Bool × Pmm)}
  {first : Option (Bool × Pmm)}

theorem onSuccess_cases {ok : Bool} (called : onSuccess first next = some (ok, after)) :
    (first = some (false, after) ∧ ok = false) ∨
      ∃ middle, first = some (true, middle) ∧ next middle = some (ok, after) := by
  unfold onSuccess at called
  split at called
  · contradiction
  · simp only [Option.some.injEq, Prod.mk.injEq] at called
    exact Or.inl ⟨by rw [called.2], called.1.symm⟩
  · exact Or.inr ⟨_, rfl, called⟩

theorem onSuccess_true (called : onSuccess first next = some (true, after)) :
    ∃ middle, first = some (true, middle) ∧ next middle = some (true, after) := by
  rcases onSuccess_cases called with ⟨_, impossible⟩ | goes
  · cases impossible
  · exact goes

theorem onSuccess_keeps {keeps : Pmm → Prop} {ok : Bool}
    (firstKeeps : ∀ done middle, first = some (done, middle) → keeps middle)
    (nextKeeps : ∀ middle, keeps middle → first = some (true, middle) →
      next middle = some (ok, after) → keeps after)
    (called : onSuccess first next = some (ok, after)) : keeps after := by
  rcases onSuccess_cases called with ⟨failed, _⟩ | ⟨middle, succeeded, rest⟩
  · exact firstKeeps false after failed
  · exact nextKeeps middle (firstKeeps true middle succeeded) succeeded rest

/-- The entry names a table, or there is a frame for one. -/
def hasTable (pmm : Pmm) (parent index : Nat) : Bool :=
  (entryAt pmm.ram parent index).testBit presentBit ||
    match pmmAllocPage pmm with
    | some (table, _) => table != 0
    | none => false

def elfMapsInto (root vaddr : Nat) (pmm : Pmm) : Bool :=
  match elfFrame pmm root vaddr with
  | some (phys, framed) =>
      phys != 0 && (isCanonical (UInt64.ofNat vaddr) && hasTable framed root (pml4Index vaddr))
  | none => false

def elfStoresFor (root vaddr : Nat) (pmm : Pmm) (index : Nat) : Bool :=
  match elfMapPages root index vaddr pmm with
  | some (true, before) => elfMapsInto root (vaddr + 4096 * index) before
  | _ => false

theorem elfStoresFor_zero : elfStoresFor root vaddr pmm 0 = elfMapsInto root vaddr pmm := rfl

theorem elfStoresFor_succ (mapped : elfMapPage root vaddr pmm = some (true, after)) (index : Nat) :
    elfStoresFor root vaddr pmm (index + 1) = elfStoresFor root (vaddr + 4096) after index := by
  have next : vaddr + 4096 * (index + 1) = vaddr + 4096 + 4096 * index := by omega
  rw [elfStoresFor, elfStoresFor, elfMapPages, mapped, onSuccess, next]

theorem hasTable_of_create {parent index flags table : Nat}
    (created : getOrCreateTable pmm parent index flags = some (table, after))
    (usable : table ≠ nullTable) : hasTable pmm parent index = true := by
  unfold getOrCreateTable at created
  rw [hasTable, Bool.or_eq_true]
  split at created
  · simp only [Option.some.injEq, Prod.mk.injEq] at created
    exact absurd created.1.symm usable
  · split at created
    next present => exact Or.inl present
    next =>
      right
      split at created
      next => contradiction
      next frame taken allocated =>
        split at created
        next =>
          simp only [Option.some.injEq, Prod.mk.injEq] at created
          exact absurd created.1.symm usable
        next nonNull =>
          simp [allocated, nonNull]

theorem mapWalk_hasTable {address flags leaf : Nat} {forceUser : Bool}
    (called : mapWalk pmm root address flags forceUser leaf = some (true, after)) :
    hasTable pmm root (pml4Index address) = true := by
  unfold mapWalk at called
  rw [withTable] at called
  split at called
  · contradiction
  · rename_i table made created
    split at called
    · simp at called
    · rename_i usable
      exact hasTable_of_create created usable

theorem elfMapPage_true (mapped : elfMapPage root vaddr pmm = some (true, after))
    (small : vaddr < 2 ^ 64) : elfMapsInto root vaddr pmm = true := by
  rw [elfMapPage] at mapped
  rw [elfMapsInto]
  split at mapped
  · contradiction
  · rename_i phys framed found
    split at mapped
    · simp at mapped
    · rename_i nonNull
      rw [vmmMapUserPage] at mapped
      cases canonical : isCanonical (UInt64.ofNat vaddr) with
      | false => simp [canonical] at mapped
      | true =>
          simp only [canonical, Bool.not_true, Bool.false_eq_true, if_false] at mapped
          have table := mapWalk_hasTable mapped
          have slot : pml4Index (alignDown (UInt64.ofNat vaddr).toNat) = pml4Index vaddr := by
            rw [UInt64.toNat_ofNat_of_lt' small]
            simp only [pml4Index, alignDown, pageSize]
            omega
          rw [slot] at table
          simp [found, nonNull, table]

theorem elfMapsInto_canonical (into : elfMapsInto root vaddr pmm = true) :
    isCanonical (UInt64.ofNat vaddr) = true := by
  rw [elfMapsInto] at into
  split at into
  · simp only [Bool.and_eq_true] at into
    exact into.2.1
  · cases into

theorem elfStoresFor_before (small : vaddr + 4096 * count ≤ 2 ^ 64)
    (mapped : elfMapPages root count vaddr pmm = some (true, after)) :
    ∀ index < count, elfStoresFor root vaddr pmm index = true := by
  induction count generalizing vaddr pmm with
  | zero => exact fun index bound => absurd bound (Nat.not_lt_zero index)
  | succ count ih =>
      rw [elfMapPages] at mapped
      obtain ⟨middle, first, rest⟩ := onSuccess_true mapped
      intro index bound
      cases index with
      | zero => exact elfMapPage_true first (by omega)
      | succ index =>
          rw [elfStoresFor_succ first]
          exact ih (by omega) rest index (by omega)

theorem elfStoresFor_canonical {index : Nat} (into : elfStoresFor root vaddr pmm index = true) :
    isCanonical (UInt64.ofNat (vaddr + 4096 * index)) = true := by
  rw [elfStoresFor] at into
  split at into
  · exact elfMapsInto_canonical into
  · cases into

theorem elfStoresFor_earlier {earlier later : Nat} (small : vaddr + 4096 * later < 2 ^ 64)
    (order : earlier ≤ later) (into : elfStoresFor root vaddr pmm later = true) :
    elfStoresFor root vaddr pmm earlier = true := by
  rcases Nat.eq_or_lt_of_le order with rfl | before
  · exact into
  · rw [elfStoresFor] at into
    split at into
    · rename_i mapped
      exact elfStoresFor_before (by omega) mapped earlier before
    · cases into

end Pages

/-- A program header that the loop comes to: its place in the image, and the frames then. -/
structure ElfEntry where
  place : Nat
  header : ElfProgramHeader
  pmm : Pmm

/-- The loop works on the header: it is loaded and passes the size checks. -/
def ElfEntry.used (elfSize : Nat) (entry : ElfEntry) : Bool :=
  !elfSkips entry.header && elfSizesValid elfSize entry.header

def elfReached (root : Nat) (kernel : Mem) (elfData elfSize : Nat) :
    List (Nat × ElfProgramHeader) → Pmm → List ElfEntry
  | [], _ => []
  | (place, ph) :: rest, pmm =>
      ⟨place, ph, pmm⟩ ::
        if elfSkips ph then elfReached root kernel elfData elfSize rest pmm
        else if !elfSizesValid elfSize ph then []
        else
          match elfLoadSegment root kernel elfData ph pmm with
          | some (true, after) => elfReached root kernel elfData elfSize rest after
          | _ => []

def elfTableValid (elfSize : Nat) (header : ElfHeader) : Bool :=
  header.phoff < elfSize && ((header.phoff + header.phnum * header.phentsize) % 2 ^ 64 ≤ elfSize &&
    elfProgramHeaderSize ≤ header.phentsize)

def elfEntryPlace (header : ElfHeader) (index : Nat) : Nat :=
  (UInt64.ofNat header.phoff + (Int32.ofNat (index * header.phentsize)).toInt64.toUInt64).toNat

def elfEntries (pmm : Pmm) (root : Nat) (kernel : Mem) (elfData elfSize : UInt64) : List ElfEntry :=
  let header := readElfHeader kernel elfData.toNat
  if elfData = 0 ∨ elfSize.toNat < elfHeaderSize ∨ header.magic ≠ elfMagic ∨
    !elfTableValid elfSize.toNat header then []
  else elfReached root kernel elfData.toNat elfSize.toNat
    ((List.range header.phnum).map fun index =>
      (elfEntryPlace header index, readElfProgramHeader kernel (elfHeaderAddress elfData header index))) pmm

section Reached

variable {root elfData elfSize : Nat} {kernel : Mem} {pmm after : Pmm}

theorem mem_elfReached {places : List (Nat × ElfProgramHeader)} {entry : ElfEntry}
    (reached : entry ∈ elfReached root kernel elfData elfSize places pmm) :
    (entry.place, entry.header) ∈ places := by
  induction places generalizing pmm with
  | nil => cases reached
  | cons first rest ih =>
      obtain ⟨place, ph⟩ := first
      rw [elfReached] at reached
      rcases List.mem_cons.mp reached with rfl | later
      · exact List.mem_cons_self
      · refine List.mem_cons_of_mem _ ?_
        split at later
        next => exact ih later
        next =>
          split at later
          next => cases later
          next =>
            split at later
            next => exact ih later
            next => cases later

theorem elfLoadSegments_keeps {keeps : Pmm → Prop} {places : List (Nat × ElfProgramHeader)}
    {ok : Bool} (start : keeps pmm)
    (step : ∀ entry ∈ elfReached root kernel elfData elfSize places pmm, entry.used elfSize = true →
      keeps entry.pmm → ∀ ok loaded,
      elfLoadSegment root kernel elfData entry.header entry.pmm = some (ok, loaded) → keeps loaded)
    (called : elfLoadSegments root kernel elfData elfSize (places.map Prod.snd) pmm =
    some (ok, after)) : keeps after := by
  induction places generalizing pmm with
  | nil =>
      simp only [List.map_nil, elfLoadSegments, Option.some.injEq, Prod.mk.injEq] at called
      exact called.2 ▸ start
  | cons first rest ih =>
      obtain ⟨place, ph⟩ := first
      rw [elfReached] at step
      rw [List.map_cons, elfLoadSegments] at called
      cases skips : elfSkips ph with
      | true =>
          simp only [skips, if_true] at called step
          exact ih start (fun entry reached => step entry (List.mem_cons_of_mem _ reached)) called
      | false =>
          simp only [skips, Bool.false_eq_true, if_false] at called step
          cases sizes : elfSizesValid elfSize ph with
          | false =>
              simp only [sizes, Bool.not_false, if_true, Option.some.injEq, Prod.mk.injEq] at called
              exact called.2 ▸ start
          | true =>
              simp only [sizes, Bool.not_true, Bool.false_eq_true, if_false] at called step
              have used : ElfEntry.used elfSize ⟨place, ph, pmm⟩ = true := by
                simp [ElfEntry.used, skips, sizes]
              have here := step ⟨place, ph, pmm⟩ List.mem_cons_self used start
              refine onSuccess_keeps here ?_ called
              intro middle kept loaded remaining
              rw [loaded] at step
              exact ih kept (fun entry reached => step entry (List.mem_cons_of_mem _ reached)) remaining

end Reached

theorem elfEntries_header {pmm : Pmm} {root : Nat} {kernel : Mem} {elfData elfSize : UInt64}
    {entry : ElfEntry} (reached : entry ∈ elfEntries pmm root kernel elfData elfSize) :
    entry.header ∈ elfProgramHeaders kernel elfData := by
  rw [elfEntries] at reached
  split at reached
  next => cases reached
  next =>
    obtain ⟨index, inTable, same⟩ := List.mem_map.mp (mem_elfReached reached)
    rw [Prod.mk.injEq] at same
    exact List.mem_map.mpr ⟨index, inTable, same.2⟩

/-- What every segment that the loop works on keeps, the load keeps. -/
theorem elfLoad_keeps {keeps : Pmm → Prop} {pmm after : Pmm} {root entryPoint : Nat} {kernel : Mem}
    {elfData elfSize : UInt64} (start : keeps pmm)
    (step : ∀ entry ∈ elfEntries pmm root kernel elfData elfSize, entry.used elfSize.toNat = true →
      keeps entry.pmm → ∀ ok loaded,
      elfLoadSegment root kernel elfData.toNat entry.header entry.pmm = some (ok, loaded) → keeps loaded)
    (called : elfLoad pmm (some root) kernel elfData elfSize = some (entryPoint, after)) :
    keeps after := by
  have unchanged : some (0, pmm) = some (entryPoint, after) → keeps after := by
    intro same
    simp only [Option.some.injEq, Prod.mk.injEq] at same
    exact same.2 ▸ start
  rw [elfEntries] at step
  unfold elfLoad at called
  dsimp only at called step
  split at called
  · exact unchanged called
  · split at called
    · exact unchanged called
    · split at called
      · exact unchanged called
      · rename_i given magic table
        have valid : elfTableValid elfSize.toNat (readElfHeader kernel elfData.toNat) = true := by
          simp only [not_or, ge_iff_le, gt_iff_lt, Nat.not_le, Nat.not_lt] at table
          simp only [elfTableValid, Bool.and_eq_true, decide_eq_true_eq]
          exact table
        rw [not_or] at given
        rw [if_neg (by simp [given.1, given.2, magic, valid])] at step
        split at called
        · contradiction
        · rename_i ok final loaded
          simp only [Option.some.injEq, Prod.mk.injEq] at called
          have headers : elfProgramHeaders kernel elfData =
              ((List.range (readElfHeader kernel elfData.toNat).phnum).map fun index =>
                (elfEntryPlace (readElfHeader kernel elfData.toNat) index, readElfProgramHeader kernel
                  (elfHeaderAddress elfData (readElfHeader kernel elfData.toNat) index))).map Prod.snd := by
            rw [List.map_map]
            rfl
          rw [headers] at loaded
          rw [← called.2]
          exact elfLoadSegments_keeps start step loaded

end Szczupak
