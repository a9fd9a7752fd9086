import Szczupak.Loader.ElfRun
import Szczupak.Mm.Ownership

/-!
What loading an image can reach.  A segment inside the user range is mapped and filled
through frames of the task's own half only; `Confined` follows them through the loops.
-/

namespace Szczupak

structure PageView where
  phys : Nat
  user : Bool
  write : Bool
deriving DecidableEq

/-- The walk of the processor with the permissions of all its levels. -/
def pageView (ram : Mem) (root virt : Nat) : Option PageView :=
  let pml4Entry := entryAt ram root (pml4Index virt)
  let pdpEntry := entryAt ram (alignDown pml4Entry) (pdpIndex virt)
  let pdEntry := entryAt ram (alignDown pdpEntry) (pdIndex virt)
  let ptEntry := entryAt ram (alignDown pdEntry) (ptIndex virt)
  let all (bit : Nat) (entries : List Nat) : Bool := entries.all (·.testBit bit)
  let view (entries : List Nat) (phys : Nat) : Option PageView :=
    if all presentBit entries then some ⟨phys, all userBit entries, all writeBit entries⟩ else none
  if pdpEntry.testBit hugeBit then view [pml4Entry, pdpEntry] (pdpEntry / 2 ^ 30 * 2 ^ 30)
  else if pdEntry.testBit hugeBit then
    view [pml4Entry, pdpEntry, pdEntry] (pdEntry / 2 ^ 21 * 2 ^ 21)
  else view [pml4Entry, pdpEntry, pdEntry, ptEntry] (alignDown ptEntry)

def UserFrame (ram : Mem) (root frame : Nat) : Prop :=
  ∃ path, OwnPath true path ∧ nodeAt ram root path = some frame

/-- Outside the user range nothing changes: no translation or permission of the directory
or the kernel, and no byte of a frame in use that is not the directory's own. -/
structure KeepsOutside (kernelRoot root : Nat) (before after : Pmm) : Prop where
  directory : ∀ virt : UInt64, isCanonical virt = true →
    ¬(userSpaceStart ≤ virt.toNat ∧ virt.toNat < userSpaceEnd) →
    pageView after.ram root virt.toNat = pageView before.ram root virt.toNat
  kernel : ∀ virt : UInt64,
    pageView after.ram kernelRoot virt.toNat = pageView before.ram kernelRoot virt.toNat
  frames : ∀ address, ¬Available before (alignDown address) →
    ¬UserFrame before.ram root (alignDown address) → after.ram address = before.ram address

section Directory

variable {mine : Nat → Prop} {ram : Mem} {kernelRoot root : Nat} {pmm after : Pmm} {ok : Bool}
  {byte : Nat → UInt8}

/-- The PML4 entries that only the directory has; a walk ignores the bits above them. -/
def InUserSlots (address : Nat) : Prop := OwnSlot true (pml4Index address)

theorem user_slot {vaddr : Nat} (lower : userSpaceStart ≤ vaddr) (upper : vaddr < userSpaceEnd) :
    OwnSlot true (pml4Index (alignDown vaddr)) := by
  simp only [userSpaceStart, userSpaceEnd] at lower upper
  refine ⟨?_, Or.inl ?_⟩
  · simp only [pml4Index, alignDown, pageSize]
    omega
  · simp only [pml4Index, alignDown, pageSize]
    omega

theorem AddressSpace.physical (space : AddressSpace true kernelRoot root pmm) {virt : UInt64}
    (slot : OwnSlot true (pml4Index (alignDown virt.toNat)))
    (mapped : vmmGetPhysical pmm.ram root virt ≠ 0) :
    ∃ frame, nodeAt pmm.ram root (addressPath (alignDown virt.toNat)) = some frame ∧
      vmmGetPhysical pmm.ram root virt = frame + virt.toNat % 4096 := by
  have own := addressPath_own slot
  unfold vmmGetPhysical at mapped ⊢
  generalize alignDown virt.toNat = address at *
  dsimp only at mapped ⊢
  generalize firstEq : entryAt pmm.ram root (pml4Index address) = first at *
  generalize secondEq : entryAt pmm.ram (alignDown first) (pdpIndex address) = second at *
  generalize thirdEq : entryAt pmm.ram (alignDown second) (pdIndex address) = third at *
  cases space.walked own firstEq secondEq thirdEq with
  | noPdp absent => simp [absent] at mapped
  | noPd _ absent => simp [absent] at mapped
  | noPt small _ absent => simp [small, absent] at mapped
  | table small notHuge one two three _ _ pt =>
      cases four : (entryAt pmm.ram (alignDown third) (ptIndex address)).testBit presentBit with
      | false => simp [small, notHuge, four] at mapped
      | true =>
          refine ⟨_, nodeAt_child pt four (by simp) rfl, ?_⟩
          simp [one, two, three, small, notHuge]

section

variable (inside : Confined mine ram true kernelRoot root pmm)
include inside

theorem Confined.store {frame : Nat}
    {path : List Nat} {changed : Mem} (own : OwnPath true path) (deep : path.length = 4)
    (place : nodeAt pmm.ram root path = some frame)
    (outside : ∀ address, address < frame ∨ frame + 4096 ≤ address →
      changed address = pmm.ram address) :
    Confined mine ram true kernelRoot root { pmm with ram := changed } := by
  have space := inside.space
  have pool := PoolKept.of_ram space.kernel.based changed
  have entries : ∀ table position, table % pageSize = 0 → position < 512 → table ≠ frame →
      entryAt changed table position = entryAt pmm.ram table position := by
    intro table position aligned bound other
    have frameAligned := space.node_aligned place
    simp only [pageSize] at aligned frameAligned
    apply Mem.readU64_congr
    intro offset small
    exact outside _ (by omega)
  have tables : ∀ other table position, OwnPath true (position :: other) →
      nodeAt pmm.ram root other = some table →
      entryAt changed table position = entryAt pmm.ram table position := by
    intro other table position allowed found
    refine entries table position (space.node_aligned found) allowed.1.head ?_
    rintro rfl
    have same := space.apart other path table allowed.tail own found place
    have short := allowed.1.1
    simp only [List.length_cons] at short
    rw [same] at short
    omega
  have nodes : ∀ other, OwnPath true other →
      nodeAt changed root other = nodeAt pmm.ram root other := by
    intro other otherOwn
    refine walk_congr (fun _ _ => OwnPath.tail) ?_ otherOwn
    intro before step table allowed found
    exact childNode_congr (tables before table step allowed found)
  have kernelEntries : ∀ table position, Reachable pmm.ram kernelRoot table →
      table % pageSize = 0 → position < 512 →
      entryAt changed table position = entryAt pmm.ram table position := by
    intro table position reachable aligned bound
    refine entries table position aligned bound ?_
    rintro rfl
    exact space.foreign path table own place reachable
  obtain ⟨kernel, reach⟩ := @KernelDirectory.of_entries pmm { pmm with ram := changed } kernelRoot
    space.kernel pool kernelEntries
  refine ⟨⟨kernel, space.aligned, ?_, ?_, ?_, ?_, ?_⟩, ?_, ?_, ?_⟩
  · intro slot bound notOwn
    have rootEntry : entryAt changed root slot = entryAt pmm.ram root slot := by
      refine entries root slot space.aligned bound ?_
      rintro rfl
      have same := space.apart [] path root ownPath_nil own rfl place
      simp [← same] at deep
    have kernelEntry := kernelEntries kernelRoot slot ⟨[], ⟨by simp, by simp⟩, rfl⟩
      space.kernel.aligned bound
    exact rootEntry.trans ((space.shared slot bound notOwn).trans kernelEntry.symm)
  · intro left right node leftOwn rightOwn leftFound rightFound
    exact space.apart left right node leftOwn rightOwn ((nodes left leftOwn).symm.trans leftFound)
      ((nodes right rightOwn).symm.trans rightFound)
  · intro other node otherOwn found
    exact pool.holds node (space.held other node otherOwn ((nodes other otherOwn).symm.trans found))
  · intro other node otherOwn found
    rw [reach]
    exact space.foreign other node otherOwn ((nodes other otherOwn).symm.trans found)
  · intro other table position otherOwn positive short found bound
    have old := (nodes other otherOwn).symm.trans found
    have same := tables other table position
      (otherOwn.cons bound (by omega) (by rintro rfl; simp at positive)) old
    have small := space.small other table position otherOwn positive short old bound
    change (entryAt changed table position).testBit hugeBit = false
    rw [same, small]
  · intro other available
    exact inside.pool other (pool.fewer other available)
  · intro other node otherOwn found
    exact inside.nodes other node otherOwn ((nodes other otherOwn).symm.trans found)
  · intro other position aligned bound notMine
    rw [← inside.entries other position aligned bound notMine]
    refine entries other position aligned bound ?_
    rintro rfl
    exact notMine (inside.nodes path other own place)

theorem Confined.elf_frame_kept {vaddr phys : Nat}
    (called : elfFrame pmm root vaddr = some (phys, after)) :
    Confined mine ram true kernelRoot root after ∧
      (vmmGetPhysical pmm.ram root (UInt64.ofNat vaddr) = 0 → phys ≠ 0 → mine phys ∧
        Held after phys ∧ Spare true kernelRoot root after phys) := by
  unfold elfFrame at called
  dsimp only at called
  split at called
  · cases allocated : pmmAllocPage pmm with
    | none => simp [allocated] at called
    | some result =>
        obtain ⟨frame, taken⟩ := result
        simp only [allocated] at called
        split at called
        · rename_i null
          simp only [Option.some.injEq, Prod.mk.injEq] at called
          obtain ⟨rfl, rfl⟩ := called
          exact ⟨inside.change (inside.space.noFrame_changes (pmmAllocPage_none inside.space.kernel.based
            (null ▸ allocated))), fun _ nonZero => absurd rfl nonZero⟩
        · rename_i nonNull
          simp only [Option.some.injEq, Prod.mk.injEq] at called
          obtain ⟨rfl, rfl⟩ := called
          obtain ⟨took, zeroed⟩ := pmmAllocPage_took inside.space.kernel.based allocated nonNull
          -- zeroing the page once more changes nothing
          have twice : { taken with ram := taken.ram.fill frame 4096 0 } = taken := by
            have same : taken.ram.fill frame 4096 0 = taken.ram := by
              rw [zeroed]
              exact Mem.fill_fill pmm.ram frame pageSize 0
            rw [same]
          rw [twice]
          exact ⟨inside.change (inside.space.alloc_changes took zeroed), fun _ _ =>
            ⟨inside.pool frame took.available, took.held, (inside.space.alloc took zeroed).2⟩⟩
  · rename_i mapped
    simp only [Option.some.injEq, Prod.mk.injEq] at called
    obtain ⟨rfl, rfl⟩ := called
    exact ⟨inside, fun unmapped => absurd unmapped mapped⟩

theorem Confined.elf_frame {vaddr phys : Nat}
    (aligned : vaddr % 4096 = 0) (small : vaddr < 2 ^ 64) (slot : InUserSlots vaddr)
    (called : elfFrame pmm root vaddr = some (phys, after)) (nonNull : phys ≠ 0) : mine phys ∧
      ((Held after phys ∧ Spare true kernelRoot root after phys) ∨
        nodeAt after.ram root (addressPath vaddr) = some phys) := by
  have whole : (UInt64.ofNat vaddr).toNat = vaddr := UInt64.toNat_ofNat_of_lt' small
  have down : alignDown vaddr = vaddr := alignDown_of_aligned aligned
  by_cases mapped : vmmGetPhysical pmm.ram root (UInt64.ofNat vaddr) = 0
  · obtain ⟨granted, fresh⟩ := (inside.elf_frame_kept called).2 mapped nonNull
    exact ⟨granted, Or.inl fresh⟩
  · rw [elfFrame, if_neg mapped] at called
    simp only [Option.some.injEq, Prod.mk.injEq] at called
    obtain ⟨rfl, rfl⟩ := called
    have ownSlot : OwnSlot true (pml4Index (alignDown (UInt64.ofNat vaddr).toNat)) := by
      rw [whole, down]
      exact slot
    obtain ⟨frame, there, phys⟩ := inside.space.physical ownSlot mapped
    rw [whole, down] at there
    rw [phys, whole, aligned, Nat.add_zero]
    exact ⟨inside.nodes _ frame (addressPath_own slot) there, Or.inr there⟩

theorem mapWalk_noTable {address flags leaf : Nat} {forceUser ok : Bool}
    (noTable : hasTable pmm root (pml4Index address) = false)
    (called : mapWalk pmm root address flags forceUser leaf = some (ok, after)) :
    Confined mine ram true kernelRoot root after := by
  simp only [hasTable, Bool.or_eq_false_iff] at noTable
  obtain ⟨absent, noFrame⟩ := noTable
  rw [mapWalk, withTable, getOrCreateTable] at called
  split at called
  · contradiction
  · rename_i table made created
    split at created
    · simp only [Option.some.injEq, Prod.mk.injEq] at created
      obtain ⟨rfl, rfl⟩ := created
      simp only [if_true, Option.some.injEq, Prod.mk.injEq] at called
      exact called.2 ▸ inside
    · simp only [absent, Bool.false_eq_true, if_false] at created
      cases allocated : pmmAllocPage pmm with
      | none => simp [allocated] at created
      | some result =>
          obtain ⟨frame, taken⟩ := result
          simp only [allocated, bne_eq_false_iff_eq] at noFrame created
          rw [if_pos noFrame] at created
          simp only [Option.some.injEq, Prod.mk.injEq] at created
          obtain ⟨rfl, rfl⟩ := created
          simp only [if_true, Option.some.injEq, Prod.mk.injEq] at called
          rw [← called.2]
          exact inside.change (inside.space.noFrame_changes (pmmAllocPage_none inside.space.kernel.based
            (noFrame ▸ allocated)))

theorem Confined.elf_map_page {vaddr : Nat} (aligned : vaddr % 4096 = 0) (small : vaddr < 2 ^ 64)
    (own : elfMapsInto root vaddr pmm = true → InUserSlots vaddr)
    (called : elfMapPage root vaddr pmm = some (ok, after)) :
    Confined mine ram true kernelRoot root after := by
  have whole : (UInt64.ofNat vaddr).toNat = vaddr := UInt64.toNat_ofNat_of_lt' small
  have down : alignDown vaddr = vaddr := alignDown_of_aligned aligned
  rw [elfMapPage] at called
  cases found : elfFrame pmm root vaddr with
  | none => simp [found] at called
  | some result =>
      obtain ⟨phys, framed⟩ := result
      have framedInside := (inside.elf_frame_kept found).1
      simp only [found] at called
      split at called
      · simp only [Option.some.injEq, Prod.mk.injEq] at called
        exact called.2 ▸ framedInside
      · rename_i nonNull
        cases canonical : isCanonical (UInt64.ofNat vaddr) with
        | false =>
            simp only [vmmMapUserPage, canonical, Bool.not_false, if_true, Option.some.injEq,
              Prod.mk.injEq] at called
            exact called.2 ▸ framedInside
        | true =>
            cases table : hasTable framed root (pml4Index vaddr) with
            | false =>
                simp only [vmmMapUserPage, canonical, Bool.not_true, Bool.false_eq_true,
                  if_false, whole, down] at called
                exact mapWalk_noTable framedInside table called
            | true =>
                have slot := own (by simp [elfMapsInto, found, nonNull, canonical, table])
                obtain ⟨granted, place⟩ := inside.elf_frame aligned small slot found nonNull
                refine framedInside.map_user (by decide) ?_ granted ?_ called
                · rw [whole, down]
                  exact slot
                · rw [whole, down]
                  exact place

theorem Confined.elf_map_pages {count vaddr : Nat} (aligned : vaddr % 4096 = 0)
    (small : ∀ index < count, vaddr + 4096 * index < 2 ^ 64)
    (own : ∀ index < count, elfStoresFor root vaddr pmm index = true → InUserSlots (vaddr + 4096 * index))
    (called : elfMapPages root count vaddr pmm = some (ok, after)) :
    Confined mine ram true kernelRoot root after := by
  induction count generalizing vaddr pmm with
  | zero =>
      simp only [elfMapPages, Option.some.injEq, Prod.mk.injEq] at called
      exact called.2 ▸ inside
  | succ count ih =>
      rw [elfMapPages] at called
      refine onSuccess_keeps ?_ ?_ called
      · intro done middle mapped
        exact inside.elf_map_page aligned (small 0 (Nat.succ_pos count)) (own 0 (Nat.succ_pos count)) mapped
      · intro middle middleInside mapped rest
        have next : ∀ index, vaddr + 4096 + 4096 * index = vaddr + 4096 * (index + 1) := by omega
        refine ih middleInside (by omega) ?_ ?_ rest
        · intro index bound
          rw [next]
          exact small (index + 1) (by omega)
        · intro index bound stored
          rw [next]
          refine own (index + 1) (by omega) ?_
          rw [elfStoresFor_succ mapped]
          exact stored

end

theorem stores_outside {target count : Nat} (start : Mem) {address : Nat}
    (outside : address < target ∨ target + count ≤ address) :
    ((List.range count).foldl (fun ram index => Mem.set ram (target + index) (byte index)) start)
      address = start address := by
  refine @foldl_range_invariant _ (fun ram index => Mem.set ram (target + index) (byte index))
    (fun _ changed => changed address = start address) count start ?_ rfl
  intro index changed bound same
  rw [Mem.set_other _ _ (by omega), same]

theorem Confined.copy_chunk {dst len done : Nat}
    (inside : Confined mine ram true kernelRoot root pmm) (slot : InUserSlots ((dst + done) % 2 ^ 64))
    (mapped : vmmGetPhysical pmm.ram root (UInt64.ofNat ((dst + done) % 2 ^ 64)) ≠ 0) :
    Confined mine ram true kernelRoot root
      { pmm with ram := copyChunk root dst done byte (chunkSize dst len done) pmm.ram } := by
  have virt : (UInt64.ofNat ((dst + done) % 2 ^ 64)).toNat = (dst + done) % 2 ^ 64 := by
    rw [UInt64.toNat_ofNat', Nat.mod_mod]
  have size : chunkSize dst len done ≤ 4096 - (dst + done) % 2 ^ 64 % 4096 := by
    rw [chunkSize_eq]
    exact Nat.min_le_left _ _
  simp only [copyChunk]
  generalize (dst + done) % 2 ^ 64 = address at *
  have ownSlot : OwnSlot true (pml4Index (alignDown (UInt64.ofNat address).toNat)) := by
    have same : pml4Index (alignDown address) = pml4Index address := by
      simp only [pml4Index, alignDown, pageSize]
      omega
    rw [virt, same]
    exact slot
  obtain ⟨frame, place, phys⟩ := inside.space.physical ownSlot mapped
  have frameAligned := inside.space.node_aligned place
  have base : alignDown (vmmGetPhysical pmm.ram root (UInt64.ofNat address)) = frame := by
    rw [phys]
    simp only [pageSize] at frameAligned
    simp only [alignDown, pageSize]
    omega
  rw [base]
  refine inside.store (addressPath_own ownSlot) rfl place ?_
  intro other outside
  have inPage : address % 4096 < 4096 := Nat.mod_lt _ (by decide)
  exact stores_outside pmm.ram (by omega)

theorem Confined.elf_fill_user {dst len fuel done : Nat}
    (inside : Confined mine ram true kernelRoot root pmm) (begun : done ≤ len)
    (own : ∀ index, done ≤ index → index < (elfFillUser root dst len byte fuel done pmm.ram).done →
      InUserSlots ((dst + index) % 2 ^ 64)) :
    Confined mine ram true kernelRoot root
      { pmm with ram := (elfFillUser root dst len byte fuel done pmm.ram).ram } := by
  induction fuel generalizing done pmm with
  | zero => exact inside
  | succ fuel ih =>
      by_cases more : done < len
      · rw [fillUser_step more] at own ⊢
        split
        next => exact inside
        next mapped =>
          rw [if_neg mapped] at own
          have positive := @chunkSize_pos dst len done more
          have size := @chunkSize_le dst len done
          have reached := (@fillUser_bounds root dst len (done + chunkSize dst len done) byte
            (copyChunk root dst done byte (chunkSize dst len done) pmm.ram) fuel (by omega)).1
          have stored := @Confined.copy_chunk mine ram kernelRoot root pmm byte dst len done inside
            (own done (Nat.le_refl _) (by omega)) mapped
          exact ih stored (by omega) (fun index later => own index (by omega))
      · rw [fillUser_ended (by omega)]
        exact inside

theorem Confined.change_flags {virt : UInt64} {flags : UInt32}
    (inside : Confined mine ram true kernelRoot root pmm)
    (slot : OwnSlot true (pml4Index (alignDown virt.toNat))) (flagsSmall : flags.toNat < 2 ^ 12)
    (called : vmmChangeFlags pmm root virt flags = some (ok, after)) :
    Confined mine ram true kernelRoot root after := by
  have space := inside.space
  have own := addressPath_own slot
  unfold vmmChangeFlags at called
  generalize alignDown virt.toNat = address at *
  dsimp only at called
  generalize firstEq : entryAt pmm.ram root (pml4Index address) = first at *
  generalize secondEq : entryAt pmm.ram (alignDown first) (pdpIndex address) = second at *
  generalize thirdEq : entryAt pmm.ram (alignDown second) (pdIndex address) = third at *
  have unchanged : some (false, pmm) = some (ok, after) →
      Confined mine ram true kernelRoot root after := by
    intro same
    simp only [Option.some.injEq, Prod.mk.injEq] at same
    exact same.2 ▸ inside
  cases space.walked own firstEq secondEq thirdEq with
  | noPdp absent => exact unchanged (by simpa [absent] using called)
  | noPd _ absent => exact unchanged (by simpa [absent] using called)
  | noPt _ notHuge absent =>
      exact unchanged (by simpa [splitHugePage, thirdEq, notHuge, absent] using called)
  | table _ notHuge one two three _ _ pt =>
      have noSplit : splitHugePage pmm (alignDown second) (pdIndex address) = some (true, pmm) := by
        simp [splitHugePage, thirdEq, notHuge]
      simp only [one, two, thirdEq, three, Bool.not_true, Bool.false_eq_true, if_false, noSplit] at called
      cases four : (entryAt pmm.ram (alignDown third) (ptIndex address)).testBit presentBit with
      | false => exact unchanged (by simpa [four] using called)
      | true =>
          have leafNode := nodeAt_child pt four (by simp [addressPath]) rfl
          have held := space.held _ _ own leafNode
          have frameSmall := held.2.1
          have based := space.kernel.based.small
          simp only [pageSize, maxMemoryPages] at frameSmall based
          obtain ⟨leafSmall, leafPresent, leafFrame⟩ := leaf_kind held.1 (by omega) flagsSmall
          simp only [four, Bool.not_true, Bool.false_eq_true, if_false, Option.some.injEq,
            Prod.mk.injEq] at called
          rw [← called.2]
          exact inside.leaf own rfl pt (inside.nodes _ _ own leafNode) (Or.inr leafNode) leafSmall leafPresent
            leafFrame

theorem Confined.elf_tighten_pages {count vaddr : Nat}
    (inside : Confined mine ram true kernelRoot root pmm)
    (small : ∀ index < count, vaddr + 4096 * index < 2 ^ 64)
    (own : ∀ index < count, InUserSlots (vaddr + 4096 * index))
    (called : elfTightenPages root count vaddr pmm = some (ok, after)) :
    Confined mine ram true kernelRoot root after := by
  induction count generalizing vaddr pmm with
  | zero =>
      simp only [elfTightenPages, Option.some.injEq, Prod.mk.injEq] at called
      exact called.2 ▸ inside
  | succ count ih =>
      rw [elfTightenPages] at called
      refine onSuccess_keeps ?_ ?_ called
      · intro done middle changed
        have first := own 0 (Nat.succ_pos count)
        have firstSmall := small 0 (Nat.succ_pos count)
        have whole : (UInt64.ofNat vaddr).toNat = vaddr := UInt64.toNat_ofNat_of_lt' (show _ < 2 ^ 64 by omega)
        refine inside.change_flags ?_ (by decide) changed
        have same : pml4Index (alignDown vaddr) = pml4Index vaddr := by
          simp only [pml4Index, alignDown, pageSize]
          omega
        rw [whole, same]
        exact first
      · intro middle middleInside _ rest
        have next : ∀ index, vaddr + 4096 + 4096 * index = vaddr + 4096 * (index + 1) := by omega
        refine ih middleInside ?_ ?_ rest
        · intro index bound
          rw [next]
          exact small (index + 1) (by omega)
        · intro index bound
          rw [next]
          exact own (index + 1) (by omega)

/-- The pages for which the first page loop stores into the tables; the second one comes to
these pages only. -/
def elfSegmentPages (root : Nat) (ph : ElfProgramHeader) (pmm : Pmm) : List Nat :=
  ((List.range (elfPageCount ph)).filter (elfStoresFor root (alignDown ph.vaddr) pmm)).map fun index =>
    alignDown ph.vaddr + 4096 * index

def elfCopiedBytes (root : Nat) (kernel : Mem) (elfData : Nat) (ph : ElfProgramHeader)
    (mapped : Pmm) : Nat :=
  elfCopyCount mapped root ph.vaddr kernel ((elfData + ph.offset) % 2 ^ 64) ph.filesz

def elfZeroedBytes (root : Nat) (ph : ElfProgramHeader) (copied : Pmm) : Nat :=
  elfZeroCount copied root ((ph.vaddr + ph.filesz) % 2 ^ 64) (ph.memsz - ph.filesz)

def elfSegmentStores (root : Nat) (kernel : Mem) (elfData : Nat) (ph : ElfProgramHeader)
    (pmm : Pmm) : List Nat :=
  match elfMapSegment root ph pmm with
  | some (true, mapped) =>
      ((List.range (elfCopiedBytes root kernel elfData ph mapped)).map fun index =>
        (ph.vaddr + index) % 2 ^ 64) ++
        match elfCopySegment root kernel elfData ph mapped with
        | some (true, copied) =>
            (List.range (elfZeroedBytes root ph copied)).map fun index =>
              (ph.vaddr + (ph.filesz + index)) % 2 ^ 64
        | _ => []
  | _ => []

section Segment

variable {kernel : Mem} {elfData : Nat} {ph : ElfProgramHeader} {mapped : Pmm}

theorem elfPageCount_small {index : Nat} (bound : index < elfPageCount ph) :
    alignDown ph.vaddr + 4096 * (index + 1) < 2 ^ 64 := by
  have top : (ph.vaddr + ph.memsz + 0xFFF) % 2 ^ 64 < 2 ^ 64 := Nat.mod_lt _ (by decide)
  simp only [elfPageCount, alignDown, pageSize] at bound ⊢
  omega

theorem elfSegmentPages_mapped (mapping : elfMapSegment root ph pmm = some (true, mapped)) {index : Nat}
    (bound : index < elfPageCount ph) : alignDown ph.vaddr + 4096 * index ∈
    elfSegmentPages root ph pmm := by
  have small := @elfPageCount_small ph (elfPageCount ph - 1) (by omega)
  have stored := elfStoresFor_before (by omega) mapping index bound
  exact List.mem_map.mpr ⟨index, List.mem_filter.mpr ⟨List.mem_range.mpr bound, stored⟩, rfl⟩

section

variable (inside : Confined mine ram true kernelRoot root pmm)
include inside

theorem Confined.elf_copy_segment
    (own : ∀ index < elfCopiedBytes root kernel elfData ph pmm, InUserSlots ((ph.vaddr + index) % 2 ^ 64))
    (called : elfCopySegment root kernel elfData ph pmm = some (ok, after)) :
    Confined mine ram true kernelRoot root after := by
  rw [elfCopySegment] at called
  split at called
  · rw [elfCopyToUser] at called
    rw [elfCopiedBytes, elfCopyCount] at own
    split at called
    · simp only [Option.some.injEq, Prod.mk.injEq] at called
      exact called.2 ▸ inside
    · rename_i given
      simp only [Option.some.injEq, Prod.mk.injEq] at called
      rw [if_neg given] at own
      rw [← called.2]
      exact inside.elf_fill_user (Nat.zero_le _) fun index _ => own index
  · simp only [Option.some.injEq, Prod.mk.injEq] at called
    exact called.2 ▸ inside

theorem Confined.elf_zero_segment
    (own : ∀ index < elfZeroedBytes root ph pmm, InUserSlots ((ph.vaddr + (ph.filesz + index)) % 2 ^ 64))
    (called : elfZeroSegment root ph pmm = some (ok, after)) :
    Confined mine ram true kernelRoot root after := by
  rw [elfZeroSegment] at called
  split at called
  · rw [elfZeroUser] at called
    rw [elfZeroedBytes, elfZeroCount] at own
    split at called
    · simp only [Option.some.injEq, Prod.mk.injEq] at called
      exact called.2 ▸ inside
    · rename_i given
      simp only [Option.some.injEq, Prod.mk.injEq] at called
      rw [if_neg given] at own
      rw [← called.2]
      refine inside.elf_fill_user (Nat.zero_le _) fun index _ bound => ?_
      rw [Nat.mod_add_mod, Nat.add_assoc]
      exact own index bound
  · simp only [Option.some.injEq, Prod.mk.injEq] at called
    exact called.2 ▸ inside

theorem Confined.elf_load_segment (pages : ∀ page ∈ elfSegmentPages root ph pmm, InUserSlots page)
    (stores : ∀ address ∈ elfSegmentStores root kernel elfData ph pmm, InUserSlots address)
    (called : elfLoadSegment root kernel elfData ph pmm = some (ok, after)) :
    Confined mine ram true kernelRoot root after := by
  have aligned : alignDown ph.vaddr % 4096 = 0 := alignDown_aligned ph.vaddr
  have small : ∀ index < elfPageCount ph, alignDown ph.vaddr + 4096 * index < 2 ^ 64 := by
    intro index bound
    have top := elfPageCount_small bound
    omega
  refine onSuccess_keeps ?_ ?_ called
  · intro done middle mapping
    refine inside.elf_map_pages aligned small ?_ mapping
    intro index bound stored
    exact pages _ (List.mem_map.mpr ⟨index, List.mem_filter.mpr ⟨List.mem_range.mpr bound, stored⟩, rfl⟩)
  intro mapped mappedInside mapping called
  simp only [elfSegmentStores, mapping, List.forall_mem_append] at stores
  obtain ⟨copies, zeroes⟩ := stores
  refine onSuccess_keeps ?_ ?_ called
  · intro done middle copying
    refine mappedInside.elf_copy_segment ?_ copying
    intro index bound
    exact copies _ (List.mem_map.mpr ⟨index, List.mem_range.mpr bound, rfl⟩)
  intro copied copiedInside copying called
  simp only [copying] at zeroes
  refine onSuccess_keeps ?_ ?_ called
  · intro done middle zeroing
    refine copiedInside.elf_zero_segment ?_ zeroing
    intro index bound
    exact zeroes _ (List.mem_map.mpr ⟨index, List.mem_range.mpr bound, rfl⟩)
  intro zeroed zeroedInside _ called
  rw [elfTightenSegment] at called
  split at called
  · exact zeroedInside.elf_tighten_pages small
      (fun index bound => pages _ (elfSegmentPages_mapped mapping bound)) called
  · simp only [Option.some.injEq, Prod.mk.injEq] at called
    exact called.2 ▸ zeroedInside

end

end Segment

theorem pageView_congr {changed : Mem} {virt : Nat} (kernel : KernelDirectory pmm kernelRoot)
    (first : entryAt changed root (pml4Index virt) = entryAt pmm.ram root (pml4Index virt))
    (shared : entryAt pmm.ram root (pml4Index virt) = entryAt pmm.ram kernelRoot (pml4Index virt))
    (same : ∀ table position, Reachable pmm.ram kernelRoot table → table % pageSize = 0 →
      position < 512 → entryAt changed table position = entryAt pmm.ram table position) :
    pageView changed root virt = pageView pmm.ram root virt := by
  have slotBound : pml4Index virt < 512 := Nat.mod_lt _ (by decide)
  have pdpBound : pdpIndex virt < 512 := Nat.mod_lt _ (by decide)
  have pdBound : pdIndex virt < 512 := Nat.mod_lt _ (by decide)
  have ptBound : ptIndex virt < 512 := Nat.mod_lt _ (by decide)
  have rootNode : nodeAt pmm.ram kernelRoot [] = some kernelRoot := rfl
  have slotValid : PathUpTo 1 [pml4Index virt] := ⟨by simp, by simpa using slotBound⟩
  unfold pageView
  dsimp only
  rw [first, shared]
  cases slotPresent : (entryAt pmm.ram kernelRoot (pml4Index virt)).testBit presentBit with
  | false => simp [slotPresent]
  | true =>
      have pdpNode := nodeAt_child rootNode slotPresent (by simp) rfl
      have pdpAligned := nodeAt_aligned kernel.aligned pdpNode
      have pdpSame := same _ (pdpIndex virt) ⟨_, slotValid.mono (by decide), pdpNode⟩ pdpAligned
        pdpBound
      have notGiant := kernel.noGiant _ _ (pdpIndex virt) slotBound pdpNode pdpBound
      rw [pdpSame]
      generalize alignDown (entryAt pmm.ram kernelRoot (pml4Index virt)) = pdp at *
      cases pdpPresent : (entryAt pmm.ram pdp (pdpIndex virt)).testBit presentBit with
      | false => simp [pdpPresent]
      | true =>
          have pdNode := nodeAt_child pdpNode pdpPresent (fun _ _ => notGiant) rfl
          have pdAligned := nodeAt_aligned kernel.aligned pdNode
          have pdValid := slotValid.cons pdpBound
          have pdSame := same _ (pdIndex virt) ⟨_, pdValid.mono (by decide), pdNode⟩ pdAligned pdBound
          rw [pdSame]
          generalize alignDown (entryAt pmm.ram pdp (pdpIndex virt)) = pd at *
          cases pdPresent : (entryAt pmm.ram pd (pdIndex virt)).testBit presentBit with
          | false => simp [pdPresent, notGiant]
          | true =>
              cases huge : (entryAt pmm.ram pd (pdIndex virt)).testBit hugeBit with
              | true => simp [notGiant]
              | false =>
                  have ptNode := nodeAt_child pdNode pdPresent (fun _ _ => huge) rfl
                  have ptValid := pdValid.cons pdBound
                  have ptSame := same _ (ptIndex virt) ⟨_, ptValid.mono (by decide), ptNode⟩
                    (nodeAt_aligned kernel.aligned ptNode) ptBound
                  rw [ptSame]

def Usable (pmm : Pmm) (root frame : Nat) : Prop :=
  Available pmm frame ∨ UserFrame pmm.ram root frame

theorem Confined.keeps_outside (space : AddressSpace true kernelRoot root pmm)
    (inside : Confined (Usable pmm root) pmm.ram true kernelRoot root after) :
    KeepsOutside kernelRoot root pmm after := by
  have tables : ∀ table position, Reachable pmm.ram kernelRoot table → table % pageSize = 0 →
      position < 512 → entryAt after.ram table position = entryAt pmm.ram table position := by
    intro table position reachable aligned bound
    refine inside.entries table position aligned bound ?_
    rintro (available | ⟨path, own, found⟩)
    · exact space.kernel.inUse table reachable available
    · exact space.foreign path table own found reachable
  have kernelRootReachable : Reachable pmm.ram kernelRoot kernelRoot := ⟨[], ⟨by simp, by simp⟩, rfl⟩
  have kernelSlots : ∀ slot < 512, entryAt after.ram kernelRoot slot =
      entryAt pmm.ram kernelRoot slot := fun slot bound =>
    tables kernelRoot slot kernelRootReachable space.kernel.aligned bound
  refine ⟨?_, ?_, ?_⟩
  · intro virt canonical outside
    have bound : pml4Index virt.toNat < 512 := Nat.mod_lt _ (by decide)
    have notOwn : ¬OwnSlot true (pml4Index virt.toNat) := by
      rintro ⟨low, high⟩
      have top := virt.toNat_lt
      simp only [isCanonical, Bool.or_eq_true, decide_eq_true_eq] at canonical
      simp only [userSpaceStart, userSpaceEnd] at outside
      simp only [pml4Index, reduceCtorEq, or_false] at low high
      omega
    have shared := space.shared _ bound notOwn
    refine pageView_congr space.kernel ?_ shared tables
    rw [shared, ← kernelSlots _ bound]
    exact inside.space.shared _ bound notOwn
  · intro virt
    have bound : pml4Index virt.toNat < 512 := Nat.mod_lt _ (by decide)
    exact pageView_congr space.kernel (kernelSlots _ bound) rfl tables
  · intro address inUse notUser
    have notUsable : ¬Usable pmm root (alignDown address) := by
      rintro (available | own)
      · exact inUse available
      · exact notUser own
    have entry := inside.entries (alignDown address) (address % 4096 / 8)
      (alignDown_aligned address) (by omega) notUsable
    have place : alignDown address + 8 * (address % 4096 / 8) = address - address % 8 := by
      simp only [alignDown, pageSize]
      omega
    rw [entryAt, entryAt, place] at entry
    exact Mem.byte_of_readU64 entry

/-- A load that stores through addresses of the directory's own entries only. -/
theorem elf_load_keeps_outside {kernel : Mem} {elfData elfSize : UInt64} {entryPoint : Nat}
    (space : AddressSpace true kernelRoot root pmm)
    (pages : ∀ entry ∈ elfEntries pmm root kernel elfData elfSize, entry.used elfSize.toNat = true →
      ∀ page ∈ elfSegmentPages root entry.header entry.pmm, InUserSlots page)
    (stores : ∀ entry ∈ elfEntries pmm root kernel elfData elfSize, entry.used elfSize.toNat = true →
      ∀ address ∈ elfSegmentStores root kernel elfData.toNat entry.header entry.pmm, InUserSlots address)
    (called : elfLoad pmm (some root) kernel elfData elfSize = some (entryPoint, after)) :
    KeepsOutside kernelRoot root pmm after := by
  have start : Confined (Usable pmm root) pmm.ram true kernelRoot root pmm :=
    ⟨space, fun _ available => Or.inl available, fun path node own found =>
      Or.inr ⟨path, own, found⟩, fun _ _ _ _ _ => rfl⟩
  have finish : Confined (Usable pmm root) pmm.ram true kernelRoot root after := by
    refine elfLoad_keeps start ?_ called
    intro entry reached used inside ok loaded loading
    exact inside.elf_load_segment (pages entry reached used) (stores entry reached used) loading
  exact finish.keeps_outside space

end Directory

def segmentImage (vaddr : Nat) : Mem :=
  let blank : Mem := fun _ => 0
  let header : Mem := (blank.writeU32 0x10000 elfMagic).writeU64 0x10020 64
  let counts : Mem := (header.writeU16 0x10036 56).writeU16 0x10038 1
  let segment : Mem := (counts.writeU32 0x10040 ptLoad).writeU32 0x10044 2
  (segment.writeU64 0x10050 vaddr).writeU64 0x10068 1

theorem boot_space : AddressSpace true 0x1000 0x4000 bootSpace := by
  have space := (vmmCreateAddressSpace_space boot_kernel boot_created (by decide)).2.2.2
  have low : (entryAt bootPmm.ram 0x1000 0).testBit presentBit = true := by decide +kernel
  rwa [low] at space

end Szczupak
