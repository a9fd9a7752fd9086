import Szczupak.Loader.ElfReads
import Szczupak.Loader.UserPages

/-!
What user mode sees of its memory.  Each loop of the loader is an operation on that view, whatever
frames and tables it works with.
-/

namespace Szczupak

structure UserCell where
  write : Bool
  byte : UInt8
deriving DecidableEq

abbrev UserMemory := Nat → Option UserCell

def userMemory (ram : Mem) (root : Nat) : UserMemory := fun address =>
  (pageView ram root address).bind fun view =>
    if view.user then some ⟨view.write, ram (vmmGetPhysical ram root (UInt64.ofNat address))⟩ else none

def UserMemory.byteAt (memory : UserMemory) (address : Nat) : UInt8 :=
  (memory address).elim 0 (·.byte)

def UserMemory.mapPages (memory : UserMemory) (first count : Nat) : UserMemory := fun address =>
  if first ≤ address / 4096 ∧ address / 4096 < first + count then some ⟨true, memory.byteAt address⟩
  else memory address

def UserMemory.fill (memory : UserMemory) (dst len : Nat) (byte : Nat → UInt8) : UserMemory :=
  fun address =>
  if dst ≤ address ∧ address < dst + len then (memory address).map fun cell =>
    { cell with byte := byte (address - dst) }
  else memory address

def UserMemory.tighten (memory : UserMemory) (first count : Nat) : UserMemory := fun address =>
  if first ≤ address / 4096 ∧ address / 4096 < first + count then
    (memory address).map fun cell => { cell with write := false }
  else memory address

structure ShowsUser (kernelRoot root : Nat) (pmm : Pmm) (memory : UserMemory) : Prop where
  user : UserSpace kernelRoot root pmm
  cells : ∀ address, InUserSpace address → userMemory pmm.ram root address = memory address

section Cells

variable {kernelRoot root address : Nat} {pmm after : Pmm} {memory : UserMemory}

theorem UserSpace.cell (user : UserSpace kernelRoot root pmm) (inUser : InUserSpace address) :
    userMemory pmm.ram root address = if (leafEntry pmm.ram root address).testBit presentBit then
      some ⟨(leafEntry pmm.ram root address).testBit writeBit,
        pmm.ram (alignDown (leafEntry pmm.ram root address) + address % 4096)⟩ else none := by
  rw [userMemory, user.view inUser, user.physical inUser]
  cases present : (leafEntry pmm.ram root address).testBit presentBit with
  | false => simp
  | true => simp [user.users address inUser present]

theorem alignDown_offset {frame offset : Nat} (aligned : frame % pageSize = 0)
    (small : offset < 4096) : alignDown (frame + offset) = frame := by
  simp only [alignDown, pageSize] at aligned ⊢
  omega

theorem KeepsData.frame_byte {frame offset : Nat} (keeps : KeepsData root pmm after)
    (data : DataFrame root pmm frame)
    (small : offset < 4096) : after.ram (frame + offset) = pmm.ram (frame + offset) := by
  apply keeps.bytes
  rwa [alignDown_offset data.1.1 small]

theorem KeepsPages.cell (keeps : KeepsPages kernelRoot root pmm after)
    (user : UserSpace kernelRoot root pmm)
    (afterUser : UserSpace kernelRoot root after) (inUser : InUserSpace address) :
    userMemory after.ram root address = userMemory pmm.ram root address := by
  rw [afterUser.cell inUser, user.cell inUser, keeps.leaves address inUser]
  cases present : (leafEntry pmm.ram root address).testBit presentBit with
  | false => rfl
  | true =>
      have same := keeps.toKeepsData.frame_byte (user.leaf_frame inUser present).2
        (Nat.mod_lt address (by decide : 4096 > 0))
      simp [same]

theorem SetsPage.cell {value other : Nat} (sets : SetsPage root pmm after address value)
    (user : UserSpace kernelRoot root pmm) (afterUser : UserSpace kernelRoot root after)
    (inUser : InUserSpace other)
    (present : value.testBit presentBit = true) (data : DataFrame root pmm (alignDown value)) :
    userMemory after.ram root other = if other / 4096 = address / 4096 then
      some ⟨value.testBit writeBit, pmm.ram (alignDown value + other % 4096)⟩
      else userMemory pmm.ram root other := by
  have offset : other % 4096 < 4096 := Nat.mod_lt _ (by decide)
  rw [afterUser.cell inUser, sets.leaf other inUser]
  split
  · rw [sets.toKeepsData.frame_byte data offset]
  · rw [user.cell inUser]
    cases there : (leafEntry pmm.ram root other).testBit presentBit with
    | false => rfl
    | true => simp [sets.toKeepsData.frame_byte (user.leaf_frame inUser there).2 offset]

end Cells

section Mapping

variable {kernelRoot root address phys : Nat} {pmm middle after : Pmm} {memory : UserMemory}

@[simp] theorem UserMemory.byteAt_mapPages (first count : Nat) :
    (memory.mapPages first count).byteAt address = memory.byteAt address := by
  rw [UserMemory.byteAt, UserMemory.mapPages]
  split
  · rfl
  · rfl

theorem UserMemory.mapPages_zero (first : Nat) : memory.mapPages first 0 = memory := by
  funext address
  rw [UserMemory.mapPages, if_neg (by omega)]

theorem UserMemory.mapPages_succ (first count : Nat) :
    (memory.mapPages first 1).mapPages (first + 1) count = memory.mapPages first (count + 1) := by
  funext address
  rw [UserMemory.mapPages, UserMemory.byteAt_mapPages, UserMemory.mapPages, UserMemory.mapPages]
  by_cases later : first + 1 ≤ address / 4096 ∧ address / 4096 < first + 1 + count
  · rw [if_pos later, if_pos (by omega)]
  · rw [if_neg later]
    by_cases here : first ≤ address / 4096 ∧ address / 4096 < first + 1
    · rw [if_pos here, if_pos (by omega)]
    · rw [if_neg here, if_neg (by omega)]

theorem UserSpace.elf_frame (user : UserSpace kernelRoot root pmm) (inUser : InUserSpace address)
    (aligned : address % 4096 = 0) (nonNull : phys ≠ 0)
    (framed : elfFrame pmm root address = some (phys, middle)) :
    UserSpace kernelRoot root middle ∧ KeepsPages kernelRoot root pmm middle ∧
      DataFrame root middle phys ∧ ((Held middle phys ∧ Spare true kernelRoot root middle phys) ∨
        nodeAt middle.ram root (addressPath address) = some phys) ∧
      ∀ other, InUserSpace other → other / 4096 = address / 4096 →
        middle.ram (phys + other % 4096) = (userMemory pmm.ram root).byteAt other := by
  unfold elfFrame at framed
  dsimp only at framed
  rw [user.physical inUser, aligned, Nat.add_zero] at framed
  cases present : (leafEntry pmm.ram root address).testBit presentBit with
  | true =>
      obtain ⟨place, data⟩ := user.leaf_frame inUser present
      have mapped := user.nonNull _ _ inUser.path rfl place
      simp only [present, if_true, if_neg mapped, Option.some.injEq, Prod.mk.injEq] at framed
      obtain ⟨rfl, rfl⟩ := framed
      refine ⟨user, ⟨⟨fun _ data => data, fun _ _ => rfl⟩, fun _ _ => rfl, fun _ held => held,
        fun _ _ spare => spare, fun _ _ _ found => found⟩, data, Or.inr place, ?_⟩
      intro other otherUser same
      rw [UserMemory.byteAt, user.cell otherUser, leafEntry_page inUser otherUser same, if_pos present]
      rfl
  | false =>
      simp only [present, Bool.false_eq_true, if_false, if_true] at framed
      cases allocated : pmmAllocPage pmm with
      | none => simp [allocated] at framed
      | some result =>
          obtain ⟨frame, taken⟩ := result
          simp only [allocated] at framed
          split at framed
          · simp only [Option.some.injEq, Prod.mk.injEq] at framed
            exact absurd framed.1.symm nonNull
          · simp only [Option.some.injEq, Prod.mk.injEq] at framed
            obtain ⟨rfl, rfl⟩ := framed
            obtain ⟨took, zeroed⟩ := pmmAllocPage_took user.space.kernel.based allocated nonNull
            have cleared : taken.ram.fill frame 4096 0 = pmm.ram.fill frame pageSize 0 := by
              rw [zeroed]
              exact Mem.fill_fill pmm.ram frame pageSize 0
            obtain ⟨takenUser, keeps, spare, data⟩ := user.take (took.with_ram _) cleared
            refine ⟨takenUser, keeps, data, Or.inl ⟨data.1, spare⟩, ?_⟩
            intro other otherUser same
            rw [UserMemory.byteAt, user.cell otherUser, leafEntry_page inUser otherUser same, present]
            have offset : other % 4096 < 4096 := Nat.mod_lt _ (by decide)
            exact Mem.fill_inside _ _ (by omega) (by omega)

theorem mappedEntry_kind {frame : Nat} {flags : UInt32} (aligned : frame % pageSize = 0)
    (small : frame < 2 ^ 52) (flagsSmall : flags.toNat < 2 ^ 12) :
    (mappedEntry frame flags).testBit presentBit = true ∧ alignDown (mappedEntry frame flags) = frame :=
  (leaf_kind aligned small (Nat.or_lt_two_pow flagsSmall (by decide : pageUser < 2 ^ 12))).2

theorem ShowsUser.map_page (shows : ShowsUser kernelRoot root pmm memory) (inUser : InUserSpace address)
    (aligned : address % 4096 = 0) (nonNull : phys ≠ 0)
    (framed : elfFrame pmm root address = some (phys, middle))
    (mapped : vmmMapUserPage middle root (UInt64.ofNat address) (UInt64.ofNat phys) elfMapFlags =
    some (true, after)) : ShowsUser kernelRoot root after (memory.mapPages (address / 4096) 1) := by
  obtain ⟨middleUser, keeps, data, target, bytes⟩ := shows.user.elf_frame inUser aligned nonNull framed
  obtain ⟨afterUser, sets⟩ :=
    middleUser.map_page inUser aligned (by decide) (by decide) nonNull target mapped
  have small := held_small middleUser data.1
  obtain ⟨present, frame⟩ := @mappedEntry_kind phys elfMapFlags data.1.1
    (Nat.lt_trans small (by decide)) (by decide)
  have write : (mappedEntry phys elfMapFlags).testBit writeBit = true := by
    have own : (elfMapFlags.toNat ||| pageUser).testBit writeBit = true := by decide
    rw [mappedEntry, Nat.testBit_or, Nat.testBit_or, own, Bool.or_true, Bool.true_or]
  refine ⟨afterUser, fun other otherUser => ?_⟩
  rw [← frame] at data
  rw [sets.cell middleUser afterUser otherUser present data, frame, write, UserMemory.mapPages]
  by_cases here : other / 4096 = address / 4096
  · rw [if_pos here, if_pos (by omega), bytes other otherUser here]
    simp only [UserMemory.byteAt, shows.cells other otherUser]
  · rw [if_neg here, if_neg (by omega), keeps.cell shows.user middleUser otherUser,
      shows.cells other otherUser]

theorem ShowsUser.map_pages {count vaddr : Nat} (shows : ShowsUser kernelRoot root pmm memory)
    (aligned : vaddr % 4096 = 0)
    (lower : userSpaceStart ≤ vaddr) (upper : vaddr + 4096 * count ≤ userSpaceEnd)
    (called : elfMapPages root count vaddr pmm = some (true, after)) :
    ShowsUser kernelRoot root after (memory.mapPages (vaddr / 4096) count) := by
  induction count generalizing vaddr pmm memory with
  | zero =>
      simp only [elfMapPages, Option.some.injEq, Prod.mk.injEq, true_and] at called
      rwa [UserMemory.mapPages_zero, ← called]
  | succ count ih =>
      rw [elfMapPages] at called
      obtain ⟨stored, mapped, rest⟩ := onSuccess_true called
      rw [elfMapPage] at mapped
      cases framed : elfFrame pmm root vaddr with
      | none => simp [framed] at mapped
      | some result =>
          obtain ⟨phys, middle⟩ := result
          simp only [framed] at mapped
          split at mapped
          · simp at mapped
          · rename_i nonNull
            have first := shows.map_page ⟨lower, by omega⟩ aligned nonNull framed mapped
            have later := ih first (by omega) (by omega) (by omega) rest
            have next : (vaddr + 4096) / 4096 = vaddr / 4096 + 1 := by omega
            rwa [next, UserMemory.mapPages_succ] at later

end Mapping

section Filling

variable {kernelRoot root address frame chunk : Nat} {pmm after : Pmm} {memory : UserMemory}
    {byte : Nat → UInt8}

theorem stores_apply (start : Mem) (target count other : Nat) :
    ((List.range count).foldl (fun ram index => Mem.set ram (target + index) (byte index)) start)
    other =
      if target ≤ other ∧ other < target + count then byte (other - target) else start other := by
  induction count with
  | zero => simp
  | succ count ih =>
      rw [List.range_succ, List.foldl_append, List.foldl_cons, List.foldl_nil]
      by_cases last : other = target + count
      · rw [last, Mem.set_same, if_pos (by omega), Nat.add_sub_cancel_left]
      · rw [Mem.set_other _ _ last, ih]
        by_cases earlier : target ≤ other ∧ other < target + count
        · rw [if_pos earlier, if_pos (by omega)]
        · rw [if_neg earlier, if_neg (by omega)]

theorem UserMemory.fill_zero (dst : Nat) : memory.fill dst 0 byte = memory := by
  funext address
  rw [UserMemory.fill, if_neg (by omega)]

theorem UserMemory.fill_add (dst first second : Nat) :
    (memory.fill dst first byte).fill (dst + first) second (fun index => byte (first + index)) =
      memory.fill dst (first + second) byte := by
  funext address
  rw [UserMemory.fill, UserMemory.fill, UserMemory.fill]
  by_cases later : dst + first ≤ address ∧ address < dst + first + second
  · have place : first + (address - (dst + first)) = address - dst := by omega
    rw [if_pos later, if_neg (by omega), if_pos (by omega), place]
  · rw [if_neg later]
    by_cases earlier : dst ≤ address ∧ address < dst + first
    · rw [if_pos earlier, if_pos (by omega)]
    · rw [if_neg earlier, if_neg (by omega)]

theorem ShowsUser.store (shows : ShowsUser kernelRoot root pmm memory) (inUser : InUserSpace address)
    (present : (leafEntry pmm.ram root address).testBit presentBit = true)
    (frameEq : alignDown (leafEntry pmm.ram root address) = frame)
    (inPage : address % 4096 + chunk ≤ 4096) :
    ShowsUser kernelRoot root { pmm with ram := (List.range chunk).foldl (fun ram index =>
      Mem.set ram (frame + address % 4096 + index) (byte index)) pmm.ram }
        (memory.fill address chunk byte) := by
  have user := shows.user
  obtain ⟨place, data⟩ := user.leaf_frame inUser present
  rw [frameEq] at place data
  obtain ⟨afterUser, leaves⟩ := user.store inUser place (by
    intro other outside
    exact @stores_outside byte (frame + address % 4096) chunk pmm.ram other (by omega))
  refine ⟨afterUser, fun other otherUser => ?_⟩
  rw [afterUser.cell otherUser, leaves other otherUser]
  have before := user.cell otherUser
  rw [shows.cells other otherUser] at before
  rw [UserMemory.fill, before]
  cases there : (leafEntry pmm.ram root other).testBit presentBit with
  | false => simp
  | true =>
      obtain ⟨otherPlace, otherData⟩ := user.leaf_frame otherUser there
      have otherAligned := otherData.1.1
      have aligned := data.1.1
      have samePage : alignDown (leafEntry pmm.ram root other) = frame ↔ other / 4096 = address / 4096 := by
        rw [← inUser.same_page otherUser]
        constructor
        · intro same
          rw [same] at otherPlace
          exact user.space.apart _ _ frame otherUser.path inUser.path otherPlace place
        · intro same
          rw [same, place] at otherPlace
          exact (Option.some.inj otherPlace).symm
      generalize alignDown (leafEntry pmm.ram root other) = otherFrame at *
      simp only [if_true, stores_apply]
      have hit : (frame + address % 4096 ≤ otherFrame + other % 4096 ∧
          otherFrame + other % 4096 < frame + address % 4096 + chunk) ↔ address ≤ other ∧
          other < address + chunk := by
        simp only [pageSize] at otherAligned aligned
        by_cases same : other / 4096 = address / 4096
        · rw [samePage.mpr same]
          omega
        · have apart : otherFrame ≠ frame := fun equal => same (samePage.mp equal)
          omega
      by_cases inside : address ≤ other ∧ other < address + chunk
      · have page : otherFrame = frame := samePage.mpr (by omega)
        rw [if_pos (hit.mpr inside), if_pos inside, page]
        have offset : frame + other % 4096 - (frame + address % 4096) = other - address := by omega
        simp [offset]
      · rw [if_neg (fun both => inside (hit.mp both)), if_neg inside]

theorem ShowsUser.fill_user {filled : ElfFill} {dst len fuel done : Nat}
    (shows : ShowsUser kernelRoot root pmm memory)
    (lower : userSpaceStart ≤ dst) (upper : dst + len ≤ userSpaceEnd) (begun : done ≤ len)
    (enough : len ≤ done + fuel)
    (called : elfFillUser root dst len byte fuel done pmm.ram = filled)
    (success : filled.ok = true) : ShowsUser kernelRoot root { pmm with ram := filled.ram }
      (memory.fill (dst + done) (len - done) fun index => byte (done + index)) := by
  induction fuel generalizing done pmm memory with
  | zero =>
      have ended : len - done = 0 := by omega
      rw [elfFillUser] at called
      rwa [ended, UserMemory.fill_zero, ← called]
  | succ fuel ih =>
      by_cases more : done < len
      · have inUser : InUserSpace (dst + done) := ⟨by omega, by omega⟩
        have whole : (dst + done) % 2 ^ 64 = dst + done := by
          simp only [userSpaceEnd] at upper
          exact Nat.mod_eq_of_lt (by omega)
        have physical := shows.user.physical inUser
        rw [fillUser_step more, copyChunk, whole, physical] at called
        cases present : (leafEntry pmm.ram root (dst + done)).testBit presentBit with
        | false =>
            rw [present, if_neg Bool.false_ne_true, if_pos rfl] at called
            rw [← called] at success
            cases success
        | true =>
            obtain ⟨_, data⟩ := shows.user.leaf_frame inUser present
            have offset : (dst + done) % 4096 < 4096 := Nat.mod_lt _ (by decide)
            simp only [present, if_true, alignDown_offset data.1.1 offset] at called
            generalize frameEq : alignDown (leafEntry pmm.ram root (dst + done)) = frame at *
            split at called
            · rw [← called] at success
              cases success
            · have chunkEq : chunkSize dst len done = min (4096 - (dst + done) % 4096) (len - done) := by
                rw [chunkSize_eq, whole]
              generalize chunkSize dst len done = chunk at *
              have stored := @ShowsUser.store kernelRoot root (dst + done) frame chunk pmm memory
                (fun index => byte (done + index)) shows inUser present frameEq (by omega)
              have rest := ih stored (by omega) (by omega) called
              have next : dst + (done + chunk) = dst + done + chunk := by omega
              have left : chunk + (len - (done + chunk)) = len - done := by omega
              have bytes : (fun index => byte (done + chunk + index)) =
                  fun index => (fun index => byte (done + index)) (chunk + index) := by
                funext index
                simp only [Nat.add_assoc]
              rwa [next, bytes, UserMemory.fill_add, left] at rest
      · have ended : len - done = 0 := by omega
        rw [fillUser_ended (by omega)] at called
        rwa [ended, UserMemory.fill_zero, ← called]

end Filling

section Tightening

variable {kernelRoot root address : Nat} {pmm after : Pmm} {memory : UserMemory}

theorem UserMemory.tighten_zero (first : Nat) : memory.tighten first 0 = memory := by
  funext address
  rw [UserMemory.tighten, if_neg (by omega)]

theorem UserMemory.tighten_succ (first count : Nat) :
    (memory.tighten first 1).tighten (first + 1) count = memory.tighten first (count + 1) := by
  funext address
  rw [UserMemory.tighten, UserMemory.tighten, UserMemory.tighten]
  by_cases later : first + 1 ≤ address / 4096 ∧ address / 4096 < first + 1 + count
  · rw [if_pos later, if_neg (by omega), if_pos (by omega)]
  · rw [if_neg later]
    by_cases here : first ≤ address / 4096 ∧ address / 4096 < first + 1
    · rw [if_pos here, if_pos (by omega)]
    · rw [if_neg here, if_neg (by omega)]

theorem ShowsUser.tighten_page (shows : ShowsUser kernelRoot root pmm memory)
    (inUser : InUserSpace address)
    (changed : vmmChangeFlags pmm root (UInt64.ofNat address) elfReadFlags = some (true, after)) :
    ShowsUser kernelRoot root after (memory.tighten (address / 4096) 1) := by
  have user := shows.user
  obtain ⟨there, afterUser, sets⟩ := user.change_flags inUser (by decide) (by decide) changed
  have data := (user.leaf_frame inUser there).2
  obtain ⟨_, present, frame⟩ := leaf_kind data.1.1
    (Nat.lt_trans (held_small user data.1) (by decide)) (by decide : elfReadFlags.toNat < 2 ^ 12)
  have write : (alignDown (leafEntry pmm.ram root address) ||| elfReadFlags.toNat |||
      pagePresent).testBit writeBit = false := by
    have flags : elfReadFlags.toNat.testBit writeBit = false := by decide
    have low : Nat.testBit pagePresent writeBit = false := by decide
    simp only [Nat.testBit_or, flags, low, testBit_aligned data.1.1
      (by decide : writeBit < 12), Bool.or_self]
  refine ⟨afterUser, fun other otherUser => ?_⟩
  rw [← frame] at data
  rw [sets.cell user afterUser otherUser present data, frame, write, UserMemory.tighten,
    ← shows.cells other otherUser]
  by_cases here : other / 4096 = address / 4096
  · rw [if_pos here, if_pos (by omega), user.cell otherUser, leafEntry_page inUser otherUser here,
      if_pos there]
    rfl
  · rw [if_neg here, if_neg (by omega)]

theorem ShowsUser.tighten_pages {count vaddr : Nat} (shows : ShowsUser kernelRoot root pmm memory)
    (lower : userSpaceStart ≤ vaddr) (upper : vaddr + 4096 * count ≤ userSpaceEnd)
    (called : elfTightenPages root count vaddr pmm = some (true, after)) :
    ShowsUser kernelRoot root after (memory.tighten (vaddr / 4096) count) := by
  induction count generalizing vaddr pmm memory with
  | zero =>
      simp only [elfTightenPages, Option.some.injEq, Prod.mk.injEq, true_and] at called
      rwa [UserMemory.tighten_zero, ← called]
  | succ count ih =>
      rw [elfTightenPages] at called
      obtain ⟨_, impossible⟩ | ⟨middle, changed, rest⟩ := onSuccess_cases called
      · cases impossible
      · have first := shows.tighten_page ⟨lower, by omega⟩ changed
        have later := ih first (by omega) (by omega) rest
        have next : (vaddr + 4096) / 4096 = vaddr / 4096 + 1 := by omega
        rwa [next, UserMemory.tighten_succ] at later

end Tightening

end Szczupak
