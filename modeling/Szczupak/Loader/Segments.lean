import Szczupak.Lib.Painter
import Szczupak.Loader.Footprint
import Szczupak.Loader.UserMemory

/-!
What a loaded image looks like to the user.  The segments are laid over each other in the order of
the header table: a byte is from the segment it belongs to, and whether a page can be written is
up to the last segment that touches it.
-/

namespace Szczupak

def ElfProgramHeader.writable (ph : ElfProgramHeader) : Bool := ph.flags.testBit 1

def ElfProgramHeader.OnPage (ph : ElfProgramHeader) (page : Nat) : Prop :=
  0 < ph.memsz ∧ ph.vaddr < 4096 * (page + 1) ∧ 4096 * page < ph.vaddr + ph.memsz

instance (ph : ElfProgramHeader) (page : Nat) : Decidable (ph.OnPage page) :=
  inferInstanceAs (Decidable (0 < ph.memsz ∧ ph.vaddr < 4096 * (page + 1) ∧
    4096 * page < ph.vaddr + ph.memsz))

/-- The byte the segment has for an address: from the image, then zeros. -/
def ElfProgramHeader.contents (image : Nat → UInt8) (ph : ElfProgramHeader)
    (address : Nat) : Option UInt8 :=
  if ph.vaddr ≤ address ∧ address < ph.vaddr + ph.memsz then
    some (if address < ph.vaddr + ph.filesz then image (ph.offset + (address - ph.vaddr)) else 0)
  else none

def ElfProgramHeader.Apart (left right : ElfProgramHeader) : Prop :=
  left.vaddr + left.memsz ≤ right.vaddr ∨ right.vaddr + right.memsz ≤ left.vaddr

instance (left right : ElfProgramHeader) : Decidable (left.Apart right) :=
  inferInstanceAs (Decidable (left.vaddr + left.memsz ≤ right.vaddr ∨
    right.vaddr + right.memsz ≤ left.vaddr))

def UserMemory.load (image : Nat → UInt8) (memory : UserMemory) (ph : ElfProgramHeader) :
    UserMemory := fun address =>
  if ph.OnPage (address / 4096) then some ⟨ph.writable,
    (ph.contents image address).getD (memory.byteAt address)⟩
  else memory address

def loadable (headers : List ElfProgramHeader) : List ElfProgramHeader :=
  headers.filter (!elfSkips ·)

def imageByte (kernel : Mem) (elfData index : Nat) : UInt8 := kernel ((elfData + index) % 2 ^ 64)

section Loading

variable {kernelRoot root elfData elfSize : Nat} {pmm after : Pmm} {memory : UserMemory}
  {kernel : Mem} {ph : ElfProgramHeader} {headers : List ElfProgramHeader}

theorem onPage_iff {page : Nat} : ph.OnPage page ↔
    ∃ address, ph.vaddr ≤ address ∧ address < ph.vaddr + ph.memsz ∧ address / 4096 = page := by
  constructor
  · rintro ⟨positive, first, last⟩
    by_cases inside : 4096 * page ≤ ph.vaddr
    · exact ⟨ph.vaddr, Nat.le_refl _, by omega, by omega⟩
    · exact ⟨4096 * page, by omega, last, by omega⟩
  · rintro ⟨address, lower, upper, rfl⟩
    exact ⟨by omega, by omega, by omega⟩

theorem UserMemory.load_eq (image : Nat → UInt8) (sizes : ph.filesz ≤ ph.memsz)
    (nonEmpty : 0 < ph.memsz) :
    let first := ph.vaddr / 4096
    let count := (ph.vaddr + ph.memsz + 0xFFF) / 4096 - first
    let filled := ((memory.mapPages first count).fill ph.vaddr ph.filesz fun index =>
      image (ph.offset + index)).fill (ph.vaddr + ph.filesz) (ph.memsz - ph.filesz) fun _ => 0
    memory.load image ph = if ph.writable then filled else filled.tighten first count := by
  dsimp only
  funext address
  have pages : (ph.vaddr / 4096 ≤ address / 4096 ∧
      address / 4096 < ph.vaddr / 4096 + ((ph.vaddr + ph.memsz + 0xFFF) / 4096 - ph.vaddr / 4096)) ↔
      ph.OnPage (address / 4096) := by
    rw [ElfProgramHeader.OnPage]
    omega
  have bytes : ph.vaddr ≤ address ∧ address < ph.vaddr + ph.memsz → ph.OnPage (address / 4096) := by
    intro inside
    exact onPage_iff.mpr ⟨address, inside.1, inside.2, rfl⟩
  have filled : (((memory.mapPages (ph.vaddr / 4096)
    ((ph.vaddr + ph.memsz + 0xFFF) / 4096 - ph.vaddr / 4096)).fill
      ph.vaddr ph.filesz fun index => image (ph.offset + index)).fill (ph.vaddr + ph.filesz)
      (ph.memsz - ph.filesz) fun _ => 0) address = if ph.OnPage (address / 4096) then
        some ⟨true, (ph.contents image address).getD (memory.byteAt address)⟩ else memory address := by
    simp only [UserMemory.fill, UserMemory.mapPages, pages, ElfProgramHeader.contents]
    by_cases inside : ph.vaddr ≤ address ∧ address < ph.vaddr + ph.memsz
    · simp only [bytes inside, inside, and_self, true_and, if_true]
      by_cases inFile : address < ph.vaddr + ph.filesz
      · rw [if_neg (by omega), if_pos inFile, if_pos inFile]
        rfl
      · rw [if_pos (by omega), if_neg inFile, if_neg inFile]
        rfl
    · rw [if_neg (by omega), if_neg (by omega), if_neg inside]
      rfl
  cases writes : ph.writable with
  | true => simp [UserMemory.load, filled, writes]
  | false =>
      simp only [UserMemory.load, writes, Bool.false_eq_true, if_false, UserMemory.tighten, pages, filled]
      split
      · rfl
      · rfl

theorem elf_copy_success {dst len src : Nat}
    (called : elfCopyToUser pmm root dst kernel src len = some (true, after)) :
    ∃ filled, elfFillUser root dst len (copiedByte kernel src) len 0 pmm.ram = filled ∧
      filled.ok = true ∧ after = { pmm with ram := filled.ram } := by
  unfold elfCopyToUser at called
  split at called
  · simp at called
  · simp only [Option.some.injEq, Prod.mk.injEq] at called
    exact ⟨_, rfl, called.1, called.2.symm⟩

theorem elf_zero_success {dst len : Nat} (called : elfZeroUser pmm root dst len =
    some (true, after)) : ∃ filled, elfFillUser root dst len (fun _ => 0) len 0 pmm.ram = filled ∧
      filled.ok = true ∧ after = { pmm with ram := filled.ram } := by
  unfold elfZeroUser at called
  split at called
  · simp at called
  · simp only [Option.some.injEq, Prod.mk.injEq] at called
    exact ⟨_, rfl, called.1, called.2.symm⟩

section

variable (shows : ShowsUser kernelRoot root pmm memory)
include shows

theorem ShowsUser.copy_segment (range : ph.InUserRange)
    (sizes : ph.filesz ≤ ph.memsz) (called : elfCopySegment root kernel elfData ph pmm =
    some (true, after)) : ShowsUser kernelRoot root after
      (memory.fill ph.vaddr ph.filesz fun index => imageByte kernel elfData (ph.offset + index)) := by
  obtain ⟨lower, upper⟩ := range
  rw [elfCopySegment] at called
  split at called
  · obtain ⟨filled, filling, success, rfl⟩ := elf_copy_success called
    have result := shows.fill_user lower (by omega) (Nat.zero_le _) (by omega) filling success
    have bytes : (fun index => copiedByte kernel ((elfData + ph.offset) % 2 ^ 64) (0 + index)) =
        fun index => imageByte kernel elfData (ph.offset + index) := by
      funext index
      rw [copiedByte, imageByte, Nat.zero_add, Nat.mod_add_mod, Nat.add_assoc]
    rwa [bytes] at result
  · have empty : ph.filesz = 0 := by omega
    simp only [Option.some.injEq, Prod.mk.injEq, true_and] at called
    rwa [empty, UserMemory.fill_zero, ← called]

theorem ShowsUser.zero_segment (range : ph.InUserRange)
    (called : elfZeroSegment root ph pmm = some (true, after)) :
    ShowsUser kernelRoot root after (memory.fill (ph.vaddr + ph.filesz)
      (ph.memsz - ph.filesz) fun _ => 0) := by
  obtain ⟨lower, upper⟩ := range
  rw [elfZeroSegment] at called
  split at called
  · have whole : (ph.vaddr + ph.filesz) % 2 ^ 64 = ph.vaddr + ph.filesz := by
      simp only [userSpaceEnd] at upper
      exact Nat.mod_eq_of_lt (by omega)
    rw [whole] at called
    obtain ⟨filled, filling, success, rfl⟩ := elf_zero_success called
    exact shows.fill_user (by omega) (by omega) (Nat.zero_le _) (by omega) filling success
  · have empty : ph.memsz - ph.filesz = 0 := by omega
    simp only [Option.some.injEq, Prod.mk.injEq, true_and] at called
    rwa [empty, UserMemory.fill_zero, ← called]

theorem ShowsUser.load_segment (range : ph.InUserRange)
    (sizes : ph.filesz ≤ ph.memsz) (nonEmpty : 0 < ph.memsz)
    (called : elfLoadSegment root kernel elfData ph pmm = some (true, after)) :
    ShowsUser kernelRoot root after (memory.load (imageByte kernel elfData) ph) := by
  obtain ⟨lower, upper⟩ := range
  have start : userSpaceStart ≤ alignDown ph.vaddr ∧ alignDown ph.vaddr % 4096 = 0 := by
    simp only [userSpaceStart] at lower
    simp only [userSpaceStart, alignDown, pageSize]
    omega
  have first : alignDown ph.vaddr / 4096 = ph.vaddr / 4096 := by
    simp only [alignDown, pageSize]
    omega
  have count : elfPageCount ph = (ph.vaddr + ph.memsz + 0xFFF) / 4096 - ph.vaddr / 4096 := by
    simp only [userSpaceEnd] at upper
    simp only [elfPageCount, alignDown, pageSize]
    omega
  have pages : alignDown ph.vaddr + 4096 *
    ((ph.vaddr + ph.memsz + 0xFFF) / 4096 - ph.vaddr / 4096) ≤ userSpaceEnd := by
    simp only [userSpaceEnd] at upper
    simp only [userSpaceEnd, alignDown, pageSize]
    omega
  rw [UserMemory.load_eq _ sizes nonEmpty]
  unfold elfLoadSegment at called
  obtain ⟨mapped, mapping, called⟩ := onSuccess_true called
  rw [elfMapSegment, count] at mapping
  have mappedShows := shows.map_pages start.2 start.1 pages mapping
  rw [first] at mappedShows
  obtain ⟨copied, copying, called⟩ := onSuccess_true called
  have copiedShows := mappedShows.copy_segment ⟨lower, upper⟩ sizes copying
  obtain ⟨zeroed, zeroing, called⟩ := onSuccess_true called
  have zeroedShows := copiedShows.zero_segment ⟨lower, upper⟩ zeroing
  rw [elfTightenSegment, count] at called
  cases writes : ph.flags.testBit 1 with
  | true =>
      simp only [writes, Bool.not_true, Bool.false_eq_true, if_false, Option.some.injEq,
        Prod.mk.injEq, true_and] at called
      rwa [ElfProgramHeader.writable, if_pos writes, ← called]
  | false =>
      simp only [writes, Bool.not_false, if_true] at called
      have tightened := zeroedShows.tighten_pages start.1 pages called
      rw [first] at tightened
      rwa [ElfProgramHeader.writable, if_neg (by simp [writes])]

theorem ShowsUser.load_segments (range : ∀ ph ∈ loadable headers, ph.InUserRange)
    (called : elfLoadSegments root kernel elfData elfSize headers pmm = some (true, after)) :
    ShowsUser kernelRoot root after
    ((loadable headers).foldl (UserMemory.load (imageByte kernel elfData)) memory) := by
  induction headers generalizing pmm memory with
  | nil =>
      simp only [elfLoadSegments, Option.some.injEq, Prod.mk.injEq, true_and] at called
      exact called ▸ shows
  | cons ph rest ih =>
      rw [elfLoadSegments] at called
      cases skips : elfSkips ph with
      | true =>
          have same : loadable (ph :: rest) = loadable rest := by simp [loadable, skips]
          simp only [skips, if_true] at called
          rw [same] at range ⊢
          exact ih shows range called
      | false =>
          have here : loadable (ph :: rest) = ph :: loadable rest := by simp [loadable, skips]
          rw [here] at range ⊢
          simp only [skips, Bool.false_eq_true, if_false] at called
          split at called
          · simp at called
          · rename_i sizes
            simp only [elfSizesValid, Bool.not_eq_true', Bool.not_eq_false, Bool.and_eq_true,
              decide_eq_true_eq] at sizes
            simp only [elfSkips, Bool.or_eq_false_iff, beq_eq_false_iff_ne] at skips
            obtain ⟨middle, loaded, remaining⟩ := onSuccess_true called
            have first := shows.load_segment (range ph List.mem_cons_self) sizes.1
              (Nat.pos_of_ne_zero skips.2) loaded
            exact ih first (fun other member => range other (List.mem_cons_of_mem _ member)) remaining

end

end Loading

section Found

variable {kernelRoot root : Nat} {pmm after : Pmm} {image : Nat → UInt8}
  {segments : List ElfProgramHeader} {memory : UserMemory}

def writeInk (ph : ElfProgramHeader) (page : Nat) : Option Bool :=
  if ph.OnPage page then some ph.writable else none

theorem loads_write (address : Nat) :
    ((segments.foldl (UserMemory.load image) memory) address).map (·.write) =
    (coloursAt writeInk segments (address / 4096)).getLast?.or ((memory address).map (·.write)) := by
  induction segments generalizing memory with
  | nil => simp
  | cons ph rest ih =>
      rw [List.foldl_cons, ih, UserMemory.load]
      by_cases here : ph.OnPage (address / 4096)
      · have coloured : writeInk ph (address / 4096) = some ph.writable := if_pos here
        rw [coloursAt_cons_some coloured, List.getLast?_cons, if_pos here]
        cases (coloursAt writeInk rest (address / 4096)).getLast? <;> simp
      · have missed : writeInk ph (address / 4096) = none := if_neg here
        rw [coloursAt_cons_none missed, if_neg here]

theorem loads_byte : (segments.foldl (UserMemory.load image) memory).byteAt =
    paint (ElfProgramHeader.contents image) segments memory.byteAt := by
  refine (List.foldl_hom UserMemory.byteAt (fun memory ph => ?_)).symm
  funext address
  simp only [UserMemory.byteAt, UserMemory.load]
  split
  · rfl
  · rename_i off
    have nothing : ph.contents image address = none := by
      rw [ElfProgramHeader.contents, if_neg]
      intro inside
      exact off (onPage_iff.mpr ⟨address, inside.1, inside.2, rfl⟩)
    rw [nothing]
    rfl

instance : Std.Symm ElfProgramHeader.Apart := ⟨fun _ _ apart => Or.symm apart⟩

theorem loaded_byte {ph : ElfProgramHeader} {address : Nat} {byte : UInt8}
    (apart : segments.Pairwise ElfProgramHeader.Apart)
    (member : ph ∈ segments) (owned : ph.contents image address = some byte) :
    (segments.foldl (UserMemory.load image) memory).byteAt address = byte := by
  have inside : ∀ other : ElfProgramHeader, (other.contents image address).isSome →
      other.vaddr ≤ address ∧ address < other.vaddr + other.memsz := by
    intro other has
    by_contra outside
    simp [ElfProgramHeader.contents, outside] at has
  rw [loads_byte]
  refine paint_uniform ?_ ?_
  · intro untouched
    have missed := coloursAt_eq_nil.mp untouched ph member
    rw [owned] at missed
    contradiction
  · intro colour touched
    obtain ⟨other, otherMember, has⟩ := List.mem_filterMap.mp touched
    by_cases same : other = ph
    · rw [same, owned] at has
      exact (Option.some.inj has).symm
    · have disjoint := apart.forall otherMember member same
      have otherInside := inside other (by simp [has])
      have ownInside := inside ph (by simp [owned])
      rw [ElfProgramHeader.Apart] at disjoint
      omega

end Found

/-- Nothing in the own half, and what is shared with the kernel is not for the user. -/
structure FreshSpace (kernelRoot root : Nat) (pmm : Pmm) : Prop where
  space : AddressSpace true kernelRoot root pmm
  empty : ∀ slot, OwnSlot true slot → (entryAt pmm.ram root slot).testBit presentBit = false
  kernelOnly : ∀ slot < 512, ¬OwnSlot true slot → (entryAt pmm.ram root slot).testBit userBit = false

def UserWritable (ram : Mem) (root virt : Nat) : Prop :=
  ∃ view, pageView ram root virt = some view ∧ view.user = true ∧ view.write = true

section Fresh

variable {kernelRoot root : Nat} {pmm after : Pmm} {elfData elfSize : UInt64} {kernel : Mem}
  {entry : Nat}

theorem vmmCreateAddressSpace_entries (kernel : KernelDirectory pmm kernelRoot)
    (created : vmmCreateAddressSpace pmm kernelRoot = some (root, after)) (nonNull : root ≠ 0)
    {slot : Nat} (bound : slot < 512) : entryAt after.ram root slot =
      if slot = 0 ∨ 256 ≤ slot then entryAt pmm.ram kernelRoot slot else 0 := by
  unfold vmmCreateAddressSpace at created
  cases allocated : pmmAllocPage pmm with
  | none => simp [allocated] at created
  | some result =>
      obtain ⟨frame, taken⟩ := result
      simp only [allocated] at created
      split at created
      · simp only [Option.some.injEq, Prod.mk.injEq] at created
        exact absurd created.1.symm nonNull
      · split at created
        · simp only [Option.some.injEq, Prod.mk.injEq] at created
          exact absurd created.1.symm nonNull
        · simp only [Option.some.injEq, Prod.mk.injEq] at created
          obtain ⟨rfl, rfl⟩ := created
          obtain ⟨took, zeroed⟩ := pmmAllocPage_took kernel.based allocated nonNull
          have apart : kernelRoot ≠ frame := by
            rintro rfl
            exact kernel.inUse _ ⟨[], ⟨by simp, by simp⟩, rfl⟩ took.available
          rw [copyKernelEntries_entry took.available.1 kernel.aligned apart took.available.1 bound,
            if_pos rfl, zeroed, entryAt_fill took.available.1 kernel.aligned bound, if_neg apart]

theorem vmmCreateAddressSpace_fresh (kernel : KernelDirectory pmm kernelRoot)
    (low : (entryAt pmm.ram kernelRoot 0).testBit presentBit = true)
    (kernelOnly : ∀ slot < 512, (entryAt pmm.ram kernelRoot slot).testBit userBit = false)
    (created : vmmCreateAddressSpace pmm kernelRoot = some (root, after)) (nonNull : root ≠ 0) :
    FreshSpace kernelRoot root after := by
  have space := (vmmCreateAddressSpace_space kernel created nonNull).2.2.2
  rw [low] at space
  refine ⟨space, ?_, ?_⟩
  · rintro slot ⟨lower, notShared⟩
    have notZero : slot ≠ 0 := notShared.resolve_right (by simp)
    rw [vmmCreateAddressSpace_entries kernel created nonNull (by omega), if_neg (by omega), Nat.zero_testBit]
  · intro slot bound _
    rw [vmmCreateAddressSpace_entries kernel created nonNull bound]
    split
    · exact kernelOnly slot bound
    · exact Nat.zero_testBit _

section

variable (fresh : FreshSpace kernelRoot root pmm)
include fresh

theorem FreshSpace.node {path : List Nat} {node : Nat}
    (own : OwnPath true path) (found : nodeAt pmm.ram root path = some node) : path = [] := by
  induction path generalizing node with
  | nil => rfl
  | cons index path ih =>
      obtain ⟨parent, place, child⟩ := walk_parent found
      obtain rfl := ih own.tail place
      obtain rfl : root = parent := by simpa [walk] using place
      have absent := fresh.empty index (own.2 index (by simp))
      simp [childNode, absent] at child

theorem FreshSpace.leaf {address : Nat} (inUser : InUserSpace address) :
    leafEntry pmm.ram root address = 0 := by
  have own := inUser.path
  cases place : nodeAt pmm.ram root (addressPath address).tail with
  | none => rw [leafEntry, place]
  | some pt =>
      have nothing := fresh.node own.tail place
      simp at nothing

theorem FreshSpace.shows : ShowsUser kernelRoot root pmm fun _ => none := by
  have user : UserSpace kernelRoot root pmm := by
    refine ⟨fresh.space, ?_, ?_, ?_⟩
    · intro path table index own _ place present
      obtain rfl := fresh.node own.tail place
      obtain rfl : root = table := by simpa [nodeAt, walk] using place
      rw [fresh.empty index (own.2 index (by simp))] at present
      contradiction
    · intro path frame own deep place
      rw [fresh.node own place] at deep
      simp at deep
    · intro address inUser present
      rw [fresh.leaf inUser, Nat.zero_testBit] at present
      contradiction
  refine ⟨user, fun address inUser => ?_⟩
  rw [user.cell inUser, fresh.leaf inUser]
  simp

end

theorem elfLoad_success
    (called : elfLoad pmm (some root) kernel elfData elfSize = some (entry, after)) (success : entry ≠ 0) :
    elfLoadSegments root kernel elfData.toNat elfSize.toNat (elfProgramHeaders kernel elfData) pmm =
    some (true, after) := by
  unfold elfLoad at called
  dsimp only at called
  have failed : some (0, pmm) ≠ some (entry, after) := by
    intro same
    simp only [Option.some.injEq, Prod.mk.injEq] at same
    exact success same.1.symm
  split at called
  · exact absurd called failed
  · split at called
    · exact absurd called failed
    · split at called
      · exact absurd called failed
      · split at called
        · contradiction
        · rename_i ok final loaded
          simp only [Option.some.injEq, Prod.mk.injEq] at called
          obtain ⟨same, rfl⟩ := called
          cases ok with
          | true => exact loaded
          | false => exact absurd same.symm success

theorem FreshSpace.load (fresh : FreshSpace kernelRoot root pmm)
    (range : ∀ ph ∈ loadable (elfProgramHeaders kernel elfData), ph.InUserRange)
    (called : elfLoad pmm (some root) kernel elfData elfSize = some (entry, after)) (success : entry ≠ 0) :
    ShowsUser kernelRoot root after ((loadable (elfProgramHeaders kernel elfData)).foldl
      (UserMemory.load (imageByte kernel elfData.toNat)) fun _ => none) :=
  fresh.shows.load_segments range (elfLoad_success called success)

/-- Whatever the order of the segments, each byte is the image's or, behind the file part, zero. -/
theorem elf_load_contents {kernel : Mem} {elfData elfSize : UInt64} {entry : Nat}
    (fresh : FreshSpace kernelRoot root pmm)
    (range : ∀ ph ∈ loadable (elfProgramHeaders kernel elfData), ph.InUserRange)
    (apart : (loadable (elfProgramHeaders kernel elfData)).Pairwise ElfProgramHeader.Apart)
    (called : elfLoad pmm (some root) kernel elfData elfSize = some (entry, after))
    (success : entry ≠ 0) : ∀ ph ∈ loadable (elfProgramHeaders kernel elfData), ∀ index < ph.memsz,
      ∃ cell, userMemory after.ram root (ph.vaddr + index) = some cell ∧
        cell.byte = if index < ph.filesz then
        kernel ((elfData.toNat + (ph.offset + index)) % 2 ^ 64) else 0 := by
  intro ph member index bound
  have shows := fresh.load range called success
  obtain ⟨lower, upper⟩ := range ph member
  have inUser : InUserSpace (ph.vaddr + index) := ⟨by omega, by omega⟩
  rw [shows.cells _ inUser]
  have owned : ph.contents (imageByte kernel elfData.toNat) (ph.vaddr + index) =
      some (if index < ph.filesz then kernel ((elfData.toNat + (ph.offset + index)) % 2 ^ 64) else 0) := by
    rw [ElfProgramHeader.contents, if_pos (by omega), Nat.add_sub_cancel_left]
    simp [imageByte]
  have byte := @loaded_byte _ _ (fun _ => none) ph _ _ apart member owned
  have coloured : writeInk ph ((ph.vaddr + index) / 4096) = some ph.writable :=
    if_pos (onPage_iff.mpr ⟨_, by omega, by omega, rfl⟩)
  have write := @loads_write (imageByte kernel elfData.toNat)
    (loadable (elfProgramHeaders kernel elfData)) (fun _ => none) (ph.vaddr + index)
  generalize (loadable (elfProgramHeaders kernel elfData)).foldl
    (UserMemory.load (imageByte kernel elfData.toNat)) (fun _ => none) = memory at *
  cases found : memory (ph.vaddr + index) with
  | some cell =>
      refine ⟨cell, rfl, ?_⟩
      rw [UserMemory.byteAt, found] at byte
      exact byte
  | none =>
      rw [found] at write
      have touched : coloursAt writeInk (loadable (elfProgramHeaders kernel elfData))
        ((ph.vaddr + index) / 4096) = [] := by
        simpa using write.symm
      have missed := coloursAt_eq_nil.mp touched ph member
      rw [coloured] at missed
      contradiction

theorem userWritable_iff {ram : Mem} {virt : Nat} :
    UserWritable ram root virt ↔ (userMemory ram root virt).map (·.write) = some true := by
  rw [UserWritable, userMemory]
  cases pageView ram root virt with
  | none => simp
  | some view => cases user : view.user <;> simp [user]

theorem FreshSpace.outside (fresh : FreshSpace kernelRoot root pmm) {virt : UInt64}
    (canonical : isCanonical virt = true)
    (outside : ¬InUserSpace virt.toNat) : ¬UserWritable pmm.ram root virt.toNat := by
  rintro ⟨view, found, user, _⟩
  have notOwn : ¬OwnSlot true (pml4Index virt.toNat) := by
    rintro ⟨low, high⟩
    have top := virt.toNat_lt
    simp only [isCanonical, Bool.or_eq_true, decide_eq_true_eq] at canonical
    simp only [InUserSpace, userSpaceStart, userSpaceEnd] at outside
    simp only [pml4Index, reduceCtorEq, or_false] at low high
    omega
  have clear := fresh.kernelOnly (pml4Index virt.toNat) (Nat.mod_lt _ (by decide)) notOwn
  unfold pageView at found
  simp only [List.all_cons, List.all_nil, Bool.and_true] at found
  have cut : ∀ {condition : Bool} {phys : Nat} {rest write : Bool},
      (if condition = true then
        some (PageView.mk phys ((entryAt pmm.ram root (pml4Index virt.toNat)).testBit userBit && rest) write)
      else none) = some view → view.user = false := by
    intro condition phys rest write same
    rw [clear, Bool.false_and] at same
    split at same
    · rw [← Option.some.inj same]
    · contradiction
  have notUser : view.user = false := by
    split at found
    · exact cut found
    · split at found
      · exact cut found
      · exact cut found
  rw [user] at notUser
  contradiction

def WritableLast (segments : List ElfProgramHeader) : Prop :=
  ∀ page, (∃ ph ∈ segments, ph.OnPage page ∧ ph.writable = true) →
    ∃ last, (segments.filter (·.OnPage page)).getLast? = some last ∧ last.writable = true

theorem coloursAt_writeInk (segments : List ElfProgramHeader) (page : Nat) :
    coloursAt writeInk segments page = (segments.filter (·.OnPage page)).map (·.writable) := by
  induction segments with
  | nil => rfl
  | cons ph rest ih =>
      by_cases here : ph.OnPage page
      · have coloured : writeInk ph page = some ph.writable := if_pos here
        rw [coloursAt_cons_some coloured, ih, List.filter_cons_of_pos (by simpa using here), List.map_cons]
      · have missed : writeInk ph page = none := if_neg here
        rw [coloursAt_cons_none missed, ih, List.filter_cons_of_neg (by simpa using here)]

/-- The user may write exactly the pages that a writable segment touches, as long as no such page
ends up with a read-only segment on top. -/
theorem elf_load_writable_iff {kernel : Mem} {elfData elfSize : UInt64} {entry : Nat}
    (fresh : FreshSpace kernelRoot root pmm)
    (range : ∀ ph ∈ loadable (elfProgramHeaders kernel elfData), ph.InUserRange)
    (called : elfLoad pmm (some root) kernel elfData elfSize = some (entry, after)) (success : entry ≠ 0) :
    (∀ virt : UInt64, isCanonical virt = true → (UserWritable after.ram root virt.toNat ↔
      ∃ ph ∈ loadable (elfProgramHeaders kernel elfData), ph.OnPage (virt.toNat / 4096) ∧
      ph.writable = true)) ↔
    WritableLast (loadable (elfProgramHeaders kernel elfData)) := by
  have shows := fresh.load range called success
  have keeps := (elf_load_confined fresh.space (by
    intro entry reached used
    refine ElfProgramHeader.InUserRange.confined (range _ ?_) (ElfEntry.used_sizes used).1
    simp only [ElfEntry.used, Bool.and_eq_true] at used
    exact List.mem_filter.mpr ⟨elfEntries_header reached, used.1⟩) called).state
  have inside : ∀ address, InUserSpace address → (UserWritable after.ram root address ↔
      ∃ last, ((loadable (elfProgramHeaders kernel elfData)).filter
        (·.OnPage (address / 4096))).getLast? = some last ∧ last.writable = true) := by
    intro address inUser
    have write := @loads_write (imageByte kernel elfData.toNat)
      (loadable (elfProgramHeaders kernel elfData)) (fun _ => none) address
    rw [userWritable_iff, shows.cells address inUser, write, coloursAt_writeInk, List.getLast?_map]
    simp
  constructor
  · rintro exact page ⟨ph, member, onPage, writable⟩
    obtain ⟨lower, upper⟩ := range ph member
    obtain ⟨positive, first, last⟩ := onPage
    have inUser : InUserSpace (4096 * page) := by
      simp only [userSpaceStart, userSpaceEnd] at lower upper
      simp only [InUserSpace, userSpaceStart, userSpaceEnd]
      omega
    have canonical : isCanonical (UInt64.ofNat (4096 * page)) = true := by
      have top := inUser.2
      simp only [userSpaceEnd] at top
      simp only [isCanonical, inUser.whole, Bool.or_eq_true, decide_eq_true_eq]
      omega
    have writes := exact (UInt64.ofNat (4096 * page)) canonical
    rw [inUser.whole, inside _ inUser, Nat.mul_div_cancel_left page (by decide)] at writes
    exact writes.mpr ⟨ph, member, ⟨positive, first, last⟩, writable⟩
  · intro ordered virt canonical
    by_cases inUser : InUserSpace virt.toNat
    · rw [inside _ inUser]
      constructor
      · rintro ⟨last, found, writable⟩
        obtain ⟨member, onPage⟩ := List.mem_filter.mp (List.mem_of_getLast? found)
        exact ⟨last, member, by simpa using onPage, writable⟩
      · exact ordered _
    · refine iff_of_false ?_ ?_
      · rintro ⟨view, found, access⟩
        rw [keeps.directory virt canonical inUser] at found
        exact fresh.outside canonical inUser ⟨view, found, access⟩
      · rintro ⟨ph, member, ⟨_, first, last⟩, _⟩
        obtain ⟨lower, upper⟩ := range ph member
        apply inUser
        simp only [userSpaceStart, userSpaceEnd] at lower upper
        simp only [InUserSpace, userSpaceStart, userSpaceEnd]
        omega

end Fresh

def pageImage (firstFlags secondFlags : Nat) : Mem :=
  let blank : Mem := fun _ => 0
  let header : Mem :=
    ((blank.writeU32 0x10000 elfMagic).writeU64 0x10018 0x8000000000).writeU64 0x10020 64
  let counts : Mem := (header.writeU16 0x10036 56).writeU16 0x10038 2
  let first : Mem := ((counts.writeU32 0x10040 ptLoad).writeU32 0x10044 firstFlags).writeU64
    0x10050 0x8000000000
  let firstSizes : Mem := (first.writeU64 0x10060 1).writeU64 0x10068 2
  let second : Mem := ((firstSizes.writeU32 0x10078 ptLoad).writeU32 0x1007C secondFlags).writeU64
    0x10088 0x8000000010
  second.writeU64 0x100A0 1

theorem boot_fresh : FreshSpace 0x1000 0x4000 bootSpace := by
  refine vmmCreateAddressSpace_fresh boot_kernel (by decide +kernel) ?_ boot_created (by decide)
  intro slot bound
  rw [boot_entry (by decide) bound]
  by_cases first : slot = 0
  · subst first
    decide
  · simp [first]

theorem page_image_loads (firstFlags secondFlags : Nat) (either : firstFlags = 2 ∧ secondFlags = 4 ∨
    firstFlags = 4 ∧ secondFlags = 2) :
    ((elfLoad bootSpace (some 0x4000) (pageImage firstFlags secondFlags) 0x10000 176).map fun result =>
      (result.1, userMemory result.2.ram 0x4000 0x8000000000)) =
      some (0x8000000000, some ⟨secondFlags.testBit 1, 0x7F⟩) := by
  rcases either with ⟨rfl, rfl⟩ | ⟨rfl, rfl⟩
  · decide +kernel
  · decide +kernel

theorem page_image_segments (firstFlags secondFlags : Nat)
    (either : firstFlags = 2 ∧ secondFlags = 4 ∨ firstFlags = 4 ∧ secondFlags = 2) :
    loadable (elfProgramHeaders (pageImage firstFlags secondFlags) 0x10000) =
      [⟨ptLoad, firstFlags, 0, 0x8000000000, 1, 2⟩, ⟨ptLoad, secondFlags, 0, 0x8000000010, 0, 1⟩] := by
  rcases either with ⟨rfl, rfl⟩ | ⟨rfl, rfl⟩
  · rfl
  · rfl

theorem elf_load_contents_page : ∃ after,
    elfLoad bootSpace (some 0x4000) (pageImage 4 2) 0x10000 176 = some (0x8000000000, after) ∧
      ∀ ph ∈ loadable (elfProgramHeaders (pageImage 4 2) 0x10000), ∀ index < ph.memsz,
        ∃ cell, userMemory after.ram 0x4000 (ph.vaddr + index) = some cell ∧
          cell.byte = if index < ph.filesz then pageImage 4 2
          ((0x10000 + (ph.offset + index)) % 2 ^ 64) else 0 := by
  obtain ⟨⟨entry, after⟩, called, found⟩ := Option.map_eq_some_iff.mp (page_image_loads 4 2 (Or.inr ⟨rfl, rfl⟩))
  obtain ⟨rfl, _⟩ := Prod.mk.inj found
  refine ⟨after, called, elf_load_contents boot_fresh ?_ ?_ called (by decide)⟩
  · rw [page_image_segments 4 2 (Or.inr ⟨rfl, rfl⟩)]
    decide
  · rw [page_image_segments 4 2 (Or.inr ⟨rfl, rfl⟩)]
    decide

theorem elf_load_writable_page : ∃ after,
    elfLoad bootSpace (some 0x4000) (pageImage 4 2) 0x10000 176 = some (0x8000000000, after) ∧
      UserWritable after.ram 0x4000 0x8000000000 := by
  obtain ⟨⟨entry, after⟩, called, found⟩ := Option.map_eq_some_iff.mp (page_image_loads 4 2 (Or.inr ⟨rfl, rfl⟩))
  obtain ⟨rfl, _⟩ := Prod.mk.inj found
  have segments := page_image_segments 4 2 (Or.inr ⟨rfl, rfl⟩)
  have exact := elf_load_writable_iff boot_fresh (by rw [segments]; decide) called (by decide)
  rw [segments] at exact
  refine ⟨after, called, ((exact.mpr ?_) 0x8000000000 (by decide)).mpr ?_⟩
  · rintro page ⟨ph, member, onPage, writable⟩
    have here : page = 0x8000000 := by
      simp only [List.mem_cons, List.not_mem_nil, or_false] at member
      rcases member with rfl | rfl
      · cases writable
      · have place := onPage.2
        simp only at place
        omega
    subst here
    exact ⟨⟨ptLoad, 2, 0, 0x8000000010, 0, 1⟩, rfl, rfl⟩
  · exact ⟨⟨ptLoad, 2, 0, 0x8000000010, 0, 1⟩, by simp, by decide, rfl⟩

/-- A read-only segment behind a writable one takes the write access to their page away. -/
theorem later_segment_takes_write : ∃ after,
    FreshSpace 0x1000 0x4000 bootSpace ∧
    (∀ ph ∈ loadable (elfProgramHeaders (pageImage 2 4) 0x10000), ph.InUserRange) ∧
    (loadable (elfProgramHeaders (pageImage 2 4) 0x10000)).Pairwise ElfProgramHeader.Apart ∧
    elfLoad bootSpace (some 0x4000) (pageImage 2 4) 0x10000 176 = some (0x8000000000, after) ∧
    ¬∀ virt : UInt64, isCanonical virt = true → (UserWritable after.ram 0x4000 virt.toNat ↔
      ∃ ph ∈ loadable (elfProgramHeaders (pageImage 2 4) 0x10000), ph.OnPage (virt.toNat / 4096) ∧
      ph.writable = true) := by
  obtain ⟨⟨entry, after⟩, called, found⟩ :=
    Option.map_eq_some_iff.mp (page_image_loads 2 4 (Or.inl ⟨rfl, rfl⟩))
  obtain ⟨rfl, cell⟩ := Prod.mk.inj found
  rw [page_image_segments 2 4 (Or.inl ⟨rfl, rfl⟩)]
  refine ⟨after, boot_fresh, by decide, by decide, called, fun exact => ?_⟩
  have writes := (exact 0x8000000000 (by decide)).mpr ⟨⟨ptLoad, 2, 0, 0x8000000000, 1, 2⟩, by
    simp, by decide, rfl⟩
  have readOnly : (userMemory after.ram 0x4000 0x8000000000).map (·.write) = some false := by
    rw [cell]
    rfl
  have allowed := userWritable_iff.mp writes
  rw [show (0x8000000000 : UInt64).toNat = 0x8000000000 from rfl, readOnly] at allowed
  cases allowed

end Szczupak
