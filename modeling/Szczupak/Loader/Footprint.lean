import Szczupak.Loader.Elf

/-!
When a load keeps to the user range.  `elf_load` checks neither `p_vaddr` nor `p_memsz`; what a
header does is decided by its first page and, once all its pages are mapped, by the first byte
that leaves the user range.
-/

namespace Szczupak

/-- A load by which only pages of the user range are mapped and only bytes behind the directory's
own entries are stored. -/
structure LoadConfined (kernelRoot root : Nat) (kernel : Mem) (elfData elfSize : UInt64)
    (pmm after : Pmm) : Prop where
  state : KeepsOutside kernelRoot root pmm after
  pages : ∀ entry ∈ elfEntries pmm root kernel elfData elfSize, entry.used elfSize.toNat = true →
    ∀ page ∈ elfSegmentPages root entry.header entry.pmm, userSpaceStart ≤ page ∧ page < userSpaceEnd
  bytes : ∀ entry ∈ elfEntries pmm root kernel elfData elfSize, entry.used elfSize.toNat = true →
    ∀ address ∈ elfSegmentStores root kernel elfData.toNat entry.header entry.pmm, InUserSlots address

instance (address : Nat) : Decidable (InUserSlots address) :=
  inferInstanceAs (Decidable (_ < 256 ∧ (_ ≠ 0 ∨ true = false)))

/-- The bytes from `vaddr` on in front of the first one outside the directory's own entries. -/
def userRoom (vaddr : Nat) : Nat := if InUserSlots vaddr then 2 ^ 47 - vaddr % 2 ^ 48 else 0

/-- The segment ends before the first byte outside, or an unmapped page stops the copy or the
zeroing there at the latest. -/
def BytesConfined (root : Nat) (kernel : Mem) (elfData : Nat) (ph : ElfProgramHeader)
    (mapped : Pmm) : Prop :=
  ph.memsz ≤ userRoom ph.vaddr ∨
    if userRoom ph.vaddr < ph.filesz then
      (elfCopyToUser mapped root ph.vaddr kernel ((elfData + ph.offset) % 2 ^ 64)
        (userRoom ph.vaddr + 1)).map Prod.fst = some false
    else ∀ copied, elfCopySegment root kernel elfData ph mapped = some (true, copied) →
      (elfZeroUser copied root ((ph.vaddr + ph.filesz) % 2 ^ 64)
        (userRoom ph.vaddr - ph.filesz + 1)).map Prod.fst = some false

/-- A segment without pages (its end wrapped), or one whose first page is in the user range or is
refused before a table is touched. -/
structure SegmentConfined (root : Nat) (kernel : Mem) (elfData : Nat) (ph : ElfProgramHeader)
    (pmm : Pmm) : Prop where
  first : elfPageCount ph = 0 ∨ InUserSlots (alignDown ph.vaddr) ∨
    elfMapsInto root (alignDown ph.vaddr) pmm = false
  bytes : ∀ mapped, elfMapSegment root ph pmm = some (true, mapped) →
    BytesConfined root kernel elfData ph mapped

section Room

variable {vaddr skip count index : Nat}

theorem inUserSlots_iff : InUserSlots vaddr ↔ 0 < vaddr / 2 ^ 39 % 512 ∧
    vaddr / 2 ^ 39 % 512 < 256 := by
  simp only [InUserSlots, OwnSlot, pml4Index, reduceCtorEq, or_false]
  omega

theorem userSlots_room (bound : index < userRoom vaddr) : InUserSlots ((vaddr + index) % 2 ^ 64) := by
  rw [userRoom] at bound
  split at bound
  · rename_i own
    rw [inUserSlots_iff] at own ⊢
    omega
  · exact absurd bound (Nat.not_lt_zero index)

theorem userSlots_end : ¬InUserSlots ((vaddr + userRoom vaddr) % 2 ^ 64) := by
  rw [userRoom]
  split
  · rename_i own
    rw [inUserSlots_iff] at own ⊢
    omega
  · rename_i foreign
    rw [inUserSlots_iff] at foreign ⊢
    omega

theorem userSlots_count (inside : skip ≤ userRoom vaddr) :
    (∀ address ∈ (List.range count).map fun index => (vaddr + (skip + index)) % 2 ^ 64,
      InUserSlots address) ↔ count ≤ userRoom vaddr - skip := by
  rw [List.forall_mem_map]
  constructor
  · intro own
    refine Nat.le_of_not_lt fun more => ?_
    have last := own (userRoom vaddr - skip) (List.mem_range.mpr more)
    rw [Nat.add_sub_cancel' inside] at last
    exact userSlots_end last
  · intro fits index member
    have bound := List.mem_range.mp member
    exact userSlots_room (by omega)

end Room

section Segment

variable {root elfData : Nat} {kernel : Mem} {ph : ElfProgramHeader} {pmm mapped copied : Pmm}

theorem userSlots_range {page : Nat} (small : page < 2 ^ 64)
    (canonical : isCanonical (UInt64.ofNat page) = true) :
    InUserSlots page ↔ userSpaceStart ≤ page ∧ page < userSpaceEnd := by
  simp only [isCanonical, UInt64.toNat_ofNat', Nat.mod_eq_of_lt small, Bool.or_eq_true,
    decide_eq_true_eq] at canonical
  rw [inUserSlots_iff]
  simp only [userSpaceStart, userSpaceEnd]
  omega

theorem userSlots_until {vaddr index : Nat} (first : InUserSlots vaddr) (aligned : vaddr % 4096 = 0)
    (small : vaddr + 4096 * index < 2 ^ 64)
    (canonical : ∀ earlier ≤ index, isCanonical (UInt64.ofNat (vaddr + 4096 * earlier)) = true) :
    InUserSlots (vaddr + 4096 * index) := by
  have start := (userSlots_range (by omega) (canonical 0 (Nat.zero_le _))).mp first
  refine (userSlots_range small (canonical index (Nat.le_refl _))).mpr
    ⟨by omega, Nat.lt_of_not_le fun beyond => ?_⟩
  simp only [userSpaceEnd] at start beyond
  have last := canonical ((0x800000000000 - vaddr) / 4096) (by omega)
  have place : vaddr + 4096 * ((0x800000000000 - vaddr) / 4096) = 0x800000000000 := by omega
  rw [place] at last
  exact absurd last (by decide)

theorem segmentPages_confined : (∀ page ∈ elfSegmentPages root ph pmm, userSpaceStart ≤ page ∧
      page < userSpaceEnd) ↔
    elfPageCount ph = 0 ∨ InUserSlots (alignDown ph.vaddr) ∨
    elfMapsInto root (alignDown ph.vaddr) pmm = false := by
  have aligned : alignDown ph.vaddr % 4096 = 0 := alignDown_aligned ph.vaddr
  constructor
  · intro inside
    by_cases none : elfPageCount ph = 0
    · exact Or.inl none
    · right
      have small := @elfPageCount_small ph 0 (by omega)
      cases into : elfMapsInto root (alignDown ph.vaddr) pmm with
      | false => exact Or.inr rfl
      | true =>
          have stored : elfStoresFor root (alignDown ph.vaddr) pmm 0 = true := by
            rw [elfStoresFor_zero, into]
          have range := inside (alignDown ph.vaddr + 4096 * 0) (List.mem_map.mpr
            ⟨0, List.mem_filter.mpr ⟨List.mem_range.mpr (by omega), stored⟩, rfl⟩)
          rw [Nat.mul_zero, Nat.add_zero] at range
          exact Or.inl ((userSlots_range (by omega) (elfMapsInto_canonical into)).mpr range)
  · intro condition page member
    obtain ⟨index, counted, rfl⟩ := List.mem_map.mp member
    obtain ⟨inRange, stored⟩ := List.mem_filter.mp counted
    have bound := List.mem_range.mp inRange
    have small := elfPageCount_small bound
    have earlier : ∀ before ≤ index, elfStoresFor root (alignDown ph.vaddr) pmm before = true :=
      fun before order => elfStoresFor_earlier (by omega) order stored
    have canonical : ∀ before ≤ index,
      isCanonical (UInt64.ofNat (alignDown ph.vaddr + 4096 * before)) = true :=
      fun before order => elfStoresFor_canonical (earlier before order)
    have own : InUserSlots (alignDown ph.vaddr) := by
      rcases condition with none | own | refused
      · omega
      · exact own
      · have first := earlier 0 (Nat.zero_le _)
        rw [elfStoresFor_zero, refused] at first
        cases first
    exact (userSlots_range (by omega) (canonical index (Nat.le_refl _))).mp
      (userSlots_until own aligned (by omega) canonical)

theorem elfCopySegment_all (copying : elfCopySegment root kernel elfData ph mapped =
    some (true, copied)) : ph.filesz ≤ elfCopiedBytes root kernel elfData ph mapped := by
  rw [elfCopySegment] at copying
  split at copying
  · refine Nat.le_of_not_lt fun short => ?_
    have missed := (elfCopyCount_misses mapped kernel ((elfData + ph.offset) % 2 ^ 64)
      (by omega : ph.filesz - 1 < ph.filesz)).mp (Nat.le_sub_one_of_lt short)
    rw [Nat.sub_add_cancel (by omega), copying] at missed
    cases missed
  · omega

theorem segmentStores_confined (sizes : ph.filesz ≤ ph.memsz) :
    (∀ address ∈ elfSegmentStores root kernel elfData ph pmm, InUserSlots address) ↔
      ∀ mapped, elfMapSegment root ph pmm = some (true, mapped) →
      BytesConfined root kernel elfData ph mapped := by
  rw [elfSegmentStores]
  split
  next mapped mapping =>
    have copies := @userSlots_count ph.vaddr 0 (elfCopiedBytes root kernel elfData ph mapped) (Nat.zero_le _)
    simp only [Nat.zero_add, Nat.sub_zero] at copies
    have copiedAtMost : elfCopiedBytes root kernel elfData ph mapped ≤ ph.filesz :=
      elfCopyCount_le mapped kernel _
    have only : (∀ other, elfMapSegment root ph pmm = some (true, other) →
        BytesConfined root kernel elfData ph other) ↔ BytesConfined root kernel elfData ph mapped := by
      rw [mapping]
      simp
    rw [List.forall_mem_append, copies, only, BytesConfined]
    by_cases fits : ph.memsz ≤ userRoom ph.vaddr
    · refine iff_of_true ⟨by omega, ?_⟩ (Or.inl fits)
      split
      next copied copying =>
        have zeroedAtMost : elfZeroedBytes root ph copied ≤ ph.memsz - ph.filesz := elfZeroCount_le copied
        exact (userSlots_count (by omega)).mpr (by omega)
      next => exact fun _ member => by cases member
    · rw [or_iff_right fits]
      by_cases inCopy : userRoom ph.vaddr < ph.filesz
      · rw [if_pos inCopy, ← elfCopyCount_misses mapped kernel _ inCopy]
        refine and_iff_left_of_imp fun short => ?_
        split
        next copied copying =>
          have all := elfCopySegment_all copying
          omega
        next => exact fun _ member => by cases member
      · rw [if_neg inCopy, and_iff_right (by omega)]
        split
        next copied copying =>
          rw [userSlots_count (by omega)]
          have misses := @elfZeroCount_misses root ((ph.vaddr + ph.filesz) % 2 ^ 64)
            (ph.memsz - ph.filesz) copied (userRoom ph.vaddr - ph.filesz) (by omega)
          constructor
          · intro short other same
            obtain rfl : copied = other := by simpa [copying] using same
            exact misses.mp short
          · exact fun stops => misses.mpr (stops copied copying)
        next failed =>
          refine iff_of_true (fun _ member => by cases member) fun copied copying => ?_
          exact absurd copying (failed copied)
  next unmapped =>
    refine iff_of_true (fun _ member => by cases member) fun mapped mapping => ?_
    exact absurd mapping (unmapped mapped)

end Segment

section Load

variable {kernelRoot root entryPoint : Nat} {kernel : Mem} {elfData elfSize : UInt64} {pmm after : Pmm}

theorem ElfEntry.used_sizes {entry : ElfEntry} {size : Nat} (used : entry.used size = true) :
    entry.header.memsz ≠ 0 ∧ entry.header.filesz ≤ entry.header.memsz := by
  simp only [ElfEntry.used, elfSkips, elfSizesValid, Bool.and_eq_true, Bool.not_eq_true',
    Bool.or_eq_false_iff, beq_eq_false_iff_ne, decide_eq_true_eq] at used
  exact ⟨used.1.2, used.2.1⟩

theorem elf_load_confined (space : AddressSpace true kernelRoot root pmm)
    (condition : ∀ entry ∈ elfEntries pmm root kernel elfData elfSize, entry.used elfSize.toNat =
      true → SegmentConfined root kernel elfData.toNat entry.header entry.pmm)
    (called : elfLoad pmm (some root) kernel elfData elfSize = some (entryPoint, after)) :
    LoadConfined kernelRoot root kernel elfData elfSize pmm after := by
  have pages : ∀ entry ∈ elfEntries pmm root kernel elfData elfSize, entry.used elfSize.toNat = true →
      ∀ page ∈ elfSegmentPages root entry.header entry.pmm, userSpaceStart ≤ page ∧ page < userSpaceEnd :=
    fun entry reached used => segmentPages_confined.mpr (condition entry reached used).first
  have bytes : ∀ entry ∈ elfEntries pmm root kernel elfData elfSize, entry.used elfSize.toNat = true →
      ∀ address ∈ elfSegmentStores root kernel elfData.toNat entry.header entry.pmm, InUserSlots address :=
    fun entry reached used =>
      (segmentStores_confined (ElfEntry.used_sizes used).2).mpr (condition entry reached used).bytes
  refine ⟨elf_load_keeps_outside space ?_ bytes called, pages, bytes⟩
  intro entry reached used page member
  obtain ⟨lower, upper⟩ := pages entry reached used page member
  simp only [userSpaceStart, userSpaceEnd] at lower upper
  rw [inUserSlots_iff]
  omega

/-- Whatever the load returns, it keeps to the user range exactly when every header that it works on
does. -/
theorem elf_load_confined_iff (space : AddressSpace true kernelRoot root pmm)
    (called : elfLoad pmm (some root) kernel elfData elfSize = some (entryPoint, after)) :
    LoadConfined kernelRoot root kernel elfData elfSize pmm after ↔
      ∀ entry ∈ elfEntries pmm root kernel elfData elfSize, entry.used elfSize.toNat = true →
        SegmentConfined root kernel elfData.toNat entry.header entry.pmm := by
  constructor
  · intro confined entry reached used
    exact ⟨segmentPages_confined.mp (confined.pages entry reached used),
      (segmentStores_confined (ElfEntry.used_sizes used).2).mp (confined.bytes entry reached used)⟩
  · exact fun condition => elf_load_confined space condition called

end Load

def ElfProgramHeader.InUserRange (ph : ElfProgramHeader) : Prop :=
  userSpaceStart ≤ ph.vaddr ∧ ph.vaddr + ph.memsz ≤ userSpaceEnd

instance (ph : ElfProgramHeader) : Decidable ph.InUserRange :=
  inferInstanceAs (Decidable (userSpaceStart ≤ ph.vaddr ∧ ph.vaddr + ph.memsz ≤ userSpaceEnd))

theorem ElfProgramHeader.InUserRange.confined {root elfData : Nat} {kernel : Mem}
    {ph : ElfProgramHeader} {pmm : Pmm}
    (range : ph.InUserRange) (nonEmpty : ph.memsz ≠ 0) :
    SegmentConfined root kernel elfData ph pmm := by
  obtain ⟨lower, upper⟩ := range
  have own := user_slot lower (by omega)
  simp only [userSpaceStart, userSpaceEnd] at lower upper
  have inside : InUserSlots ph.vaddr := by
    rw [inUserSlots_iff]
    omega
  refine ⟨Or.inr (Or.inl own), fun _ _ => Or.inl ?_⟩
  rw [userRoom, if_pos inside]
  omega

/-- A page of the user range is loaded; the last byte of the address space has no page to map and
none to zero. -/
theorem elf_load_one_page :
    (∃ entry after, elfLoad bootSpace (some 0x4000) (segmentImage 0x8000000000) 0x10000 120 =
      some (entry, after) ∧
      LoadConfined 0x1000 0x4000 (segmentImage 0x8000000000) 0x10000 120 bootSpace after) ∧
    ∃ entry after, elfLoad bootSpace (some 0x4000) (segmentImage 0xFFFFFFFFFFFFFFFF) 0x10000 120 =
    some (entry, after) ∧
      LoadConfined 0x1000 0x4000 (segmentImage 0xFFFFFFFFFFFFFFFF) 0x10000 120 bootSpace after := by
  constructor
  · have runs : (elfLoad bootSpace (some 0x4000) (segmentImage 0x8000000000) 0x10000 120).isSome = true := by
      decide +kernel
    have range : ∀ entry ∈ elfEntries bootSpace 0x4000 (segmentImage 0x8000000000) 0x10000 120,
        entry.header.InUserRange := by
      decide +kernel
    obtain ⟨⟨entry, after⟩, called⟩ := Option.isSome_iff_exists.mp runs
    refine ⟨entry, after, called, (elf_load_confined_iff boot_space called).mpr ?_⟩
    exact fun entry reached used => (range entry reached).confined (ElfEntry.used_sizes used).1
  · have runs : (elfLoad bootSpace (some 0x4000) (segmentImage 0xFFFFFFFFFFFFFFFF) 0x10000
      120).isSome = true := by
      decide +kernel
    have wrapped : ∀ entry ∈ elfEntries bootSpace 0x4000 (segmentImage 0xFFFFFFFFFFFFFFFF) 0x10000 120,
        elfPageCount entry.header = 0 ∧ userRoom entry.header.vaddr = 0 ∧ entry.header.filesz = 0 ∧
          (elfZeroUser entry.pmm 0x4000 (entry.header.vaddr % 2 ^ 64) 1).map Prod.fst = some false := by
      decide +kernel
    obtain ⟨⟨entry, after⟩, called⟩ := Option.isSome_iff_exists.mp runs
    refine ⟨entry, after, called, (elf_load_confined_iff boot_space called).mpr ?_⟩
    intro entry reached used
    obtain ⟨noPages, noRoom, noCopy, unmapped⟩ := wrapped entry reached
    refine ⟨Or.inl noPages, fun mapped mapping => Or.inr ?_⟩
    have kept : entry.pmm = mapped := by simpa [elfMapSegment, noPages, elfMapPages] using mapping
    rw [noRoom, noCopy, if_neg (Nat.lt_irrefl 0), ← kept]
    intro copied copying
    have same : entry.pmm = copied := by simpa [elfCopySegment, noCopy] using copying
    rw [← same, Nat.add_zero]
    exact unmapped

/-- A segment at 0x1000 of the identity map: the kernel's PML4 is mapped for the user and its
first byte is zeroed. -/
theorem low_segment_overwrites_kernel : ∃ entry after, AddressSpace true 0x1000 0x4000 bootSpace ∧
    elfLoad bootSpace (some 0x4000) (segmentImage 0x1000) 0x10000 120 = some (entry, after) ∧
      ¬KeepsOutside 0x1000 0x4000 bootSpace after := by
  have runs : ((elfLoad bootSpace (some 0x4000) (segmentImage 0x1000) 0x10000 120).map
      fun result => result.2.ram 0x1000) = some 0 := by
    decide +kernel
  obtain ⟨⟨entry, after⟩, called, zeroed⟩ := Option.map_eq_some_iff.mp runs
  refine ⟨entry, after, boot_space, called, fun keeps => ?_⟩
  have reachable : Reachable bootSpace.ram 0x1000 0x1000 := ⟨[], ⟨by simp, by simp⟩, rfl⟩
  have kept := keeps.frames 0x1000 (boot_space.kernel.inUse 0x1000 reachable) (by
    rintro ⟨path, own, found⟩
    exact boot_space.foreign path 0x1000 own found reachable)
  have before : bootSpace.ram 0x1000 = 3 := by decide +kernel
  have wrong := zeroed.symm.trans (kept.trans before)
  exact absurd wrong (by decide)

end Szczupak
