import Mathlib.Data.List.Chain
import Szczupak.Mm.HeapCore

/-!
The heap as a list of blocks.  `Blocks` says that the headers in memory describe a
list that tiles the storage with inverse links; each operation of `HeapCore` is
shown to act on that list as the abstract operation does, and to leave every byte
of the other live payloads alone.
-/

namespace Szczupak

structure HeapBlock where
  size : Nat
  free : Bool

structure HeaderAt (mem : Mem) (address : Nat) (block : HeapBlock) (prev next : Nat) : Prop where
  magic : blockMagic mem address = heapMagic
  size : blockSize mem address = block.size
  free : blockFree mem address = block.free
  next : blockNext mem address = next
  prev : blockPrev mem address = prev

theorem HeaderAt.frame {mem changed : Mem} {address prev next : Nat} {block : HeapBlock}
    (header : HeaderAt mem address block prev next)
    (same : ∀ byte, address ≤ byte → byte < address + headerSize → changed byte = mem byte) :
    HeaderAt changed address block prev next := by
  have field (offset width : Nat) (inside : offset + width ≤ headerSize) :
      changed.readLE (address + offset) width = mem.readLE (address + offset) width := by
    apply Mem.readLE_congr
    intro index bound
    exact same _ (by omega) (by omega)
  constructor
  · rw [← header.magic]
    exact field 0 4 (by decide)
  · rw [← header.size]
    exact field 8 8 (by decide)
  · rw [← header.free]
    simp only [blockFree]
    rw [same _ (by omega) (by simp [headerSize])]
  · rw [← header.next]
    exact field 24 8 (by decide)
  · rw [← header.prev]
    exact field 32 8 (by decide)

variable {block value byte : Nat}

theorem setMagic_outside (mem : Mem) (outside : byte < block ∨ block + headerSize ≤ byte) :
    setMagic mem block value byte = mem byte :=
  Mem.writeLE_outside _ (by simp only [headerSize] at outside; omega)

theorem setSize_outside (mem : Mem) (outside : byte < block ∨ block + headerSize ≤ byte) :
    setSize mem block value byte = mem byte :=
  Mem.writeLE_outside _ (by simp only [headerSize] at outside; omega)

theorem setFree_outside (mem : Mem) {block byte : Nat} {value : Bool}
    (outside : byte < block ∨ block + headerSize ≤ byte) :
    setFree mem block value byte = mem byte :=
  Mem.set_other _ _ (by simp only [headerSize] at outside; omega)

theorem setNext_outside (mem : Mem) (outside : byte < block ∨ block + headerSize ≤ byte) :
    setNext mem block value byte = mem byte :=
  Mem.writeLE_outside _ (by simp only [headerSize] at outside; omega)

theorem setPrev_outside (mem : Mem) (outside : byte < block ∨ block + headerSize ≤ byte) :
    setPrev mem block value byte = mem byte :=
  Mem.writeLE_outside _ (by simp only [headerSize] at outside; omega)

section Setters

variable {mem : Mem} {address prev next : Nat} {block : HeapBlock}

section

variable (header : HeaderAt mem address block prev next)
include header

theorem HeaderAt.setSize {size : Nat} (small : size < 2 ^ 64) :
    HeaderAt (setSize mem address size) address { block with size } prev next := by
  constructor
  · rw [← header.magic]
    exact Mem.readLE_writeLE_disjoint _ (by omega)
  · simp only [blockSize, Szczupak.setSize, Mem.readU64_writeU64_same]
    exact Nat.mod_eq_of_lt small
  · rw [← header.free]
    simp only [blockFree, Szczupak.setSize]
    rw [Mem.writeU64_outside _ (by omega)]
  · rw [← header.next]
    exact Mem.readLE_writeLE_disjoint _ (by omega)
  · rw [← header.prev]
    exact Mem.readLE_writeLE_disjoint _ (by omega)

theorem HeaderAt.setFree (free : Bool) :
    HeaderAt (setFree mem address free) address { block with free } prev next := by
  have field (offset width : Nat) (apart : offset + width ≤ 16 ∨ 17 ≤ offset) :
      (Szczupak.setFree mem address free).readLE (address + offset) width =
        mem.readLE (address + offset) width := by
    apply Mem.readLE_congr
    intro index bound
    exact Mem.set_other _ _ (by omega)
  constructor
  · rw [← header.magic]
    exact field 0 4 (by omega)
  · rw [← header.size]
    exact field 8 8 (by omega)
  · cases free <;> simp [blockFree, Szczupak.setFree]
  · rw [← header.next]
    exact field 24 8 (by omega)
  · rw [← header.prev]
    exact field 32 8 (by omega)

theorem HeaderAt.setNext {link : Nat} (small : link < 2 ^ 64) :
    HeaderAt (setNext mem address link) address block prev link := by
  constructor
  · rw [← header.magic]
    exact Mem.readLE_writeLE_disjoint _ (by omega)
  · rw [← header.size]
    exact Mem.readLE_writeLE_disjoint _ (by omega)
  · rw [← header.free]
    simp only [blockFree, Szczupak.setNext]
    rw [Mem.writeU64_outside _ (by omega)]
  · simp only [blockNext, Szczupak.setNext, Mem.readU64_writeU64_same]
    exact Nat.mod_eq_of_lt small
  · rw [← header.prev]
    exact Mem.readLE_writeLE_disjoint _ (by omega)

theorem HeaderAt.setPrev {link : Nat} (small : link < 2 ^ 64) :
    HeaderAt (setPrev mem address link) address block link next := by
  constructor
  · rw [← header.magic]
    exact Mem.readLE_writeLE_disjoint _ (by omega)
  · rw [← header.size]
    exact Mem.readLE_writeLE_disjoint _ (by omega)
  · rw [← header.free]
    simp only [blockFree, Szczupak.setPrev]
    rw [Mem.writeU64_outside _ (by omega)]
  · rw [← header.next]
    exact Mem.readLE_writeLE_disjoint _ (by omega)
  · simp only [blockPrev, Szczupak.setPrev, Mem.readU64_writeU64_same]
    exact Nat.mod_eq_of_lt small

end

end Setters

theorem fresh_header (mem : Mem) (address : Nat) {size next prev : Nat}
    (sizeSmall : size < 2 ^ 64) (nextSmall : next < 2 ^ 64) (prevSmall : prev < 2 ^ 64) :
    HeaderAt (setPrev (setNext (setFree (setSize (setMagic mem address heapMagic) address size)
      address true) address next) address prev) address ⟨size, true⟩ prev next := by
  have magic : blockMagic (setMagic mem address heapMagic) address = heapMagic := by
    simp only [blockMagic, setMagic, Mem.readU32, Mem.writeU32, Mem.readLE_writeLE_same]
    rfl
  have start : HeaderAt (setMagic mem address heapMagic) address
      ⟨blockSize (setMagic mem address heapMagic) address,
        blockFree (setMagic mem address heapMagic) address⟩
      (blockPrev (setMagic mem address heapMagic) address)
      (blockNext (setMagic mem address heapMagic) address) := ⟨magic, rfl, rfl, rfl, rfl⟩
  exact (((start.setSize sizeSmall).setFree true).setNext nextSmall).setPrev prevSmall

def linkTo (address : Nat) (blocks : List HeapBlock) : Nat := if blocks.isEmpty then 0 else address

def blockEnd (address : Nat) (block : HeapBlock) : Nat := address + headerSize + block.size

/-- The headers from `address` on describe `blocks`, which reach exactly to `stop`. -/
def Blocks (mem : Mem) (stop : Nat) : Nat → Nat → List HeapBlock → Prop
  | _, address, [] => address = stop
  | prev, address, block :: rest =>
      HeaderAt mem address block prev (linkTo (blockEnd address block) rest) ∧
        Blocks mem stop address (blockEnd address block) rest

def InHeader : Nat → List HeapBlock → Nat → Prop
  | _, [], _ => False
  | address, block :: rest, byte =>
      (address ≤ byte ∧ byte < address + headerSize) ∨ InHeader (blockEnd address block) rest byte

def InLive : Nat → List HeapBlock → Nat → Prop
  | _, [], _ => False
  | address, block :: rest, byte =>
      (block.free = false ∧ address + headerSize ≤ byte ∧ byte < blockEnd address block) ∨
        InLive (blockEnd address block) rest byte

def livePayloads : Nat → List HeapBlock → List (Nat × Nat)
  | _, [] => []
  | address, block :: rest =>
      if block.free then livePayloads (blockEnd address block) rest
      else (address + headerSize, block.size) :: livePayloads (blockEnd address block) rest

section Layout

variable {mem changed : Mem} {stop prev address byte : Nat} {blocks : List HeapBlock}

theorem Blocks.le_stop (tiled : Blocks mem stop prev address blocks) : address ≤ stop := by
  induction blocks generalizing prev address with
  | nil => exact Nat.le_of_eq tiled
  | cons block rest ih =>
      have tail := ih tiled.2
      simp only [blockEnd] at tail
      omega

theorem InHeader.lower (inside : InHeader address blocks byte) : address ≤ byte := by
  induction blocks generalizing address with
  | nil => exact inside.elim
  | cons block rest ih =>
      rcases inside with here | later
      · exact here.1
      · have tail := ih later
        simp only [blockEnd] at tail
        omega

theorem InLive.lower (inside : InLive address blocks byte) : address + headerSize ≤ byte := by
  induction blocks generalizing address with
  | nil => exact inside.elim
  | cons block rest ih =>
      rcases inside with here | later
      · exact here.2.1
      · have tail := ih later
        simp only [blockEnd] at tail
        omega

theorem InLive.not_header (live : InLive address blocks byte) : ¬InHeader address blocks byte := by
  induction blocks generalizing address with
  | nil => exact live.elim
  | cons block rest ih =>
      intro header
      rcases live with hereLive | laterLive
      · rcases header with hereHeader | laterHeader
        · omega
        · have tail := laterHeader.lower
          omega
      · rcases header with hereHeader | laterHeader
        · have tail := laterLive.lower
          simp only [blockEnd] at tail
          omega
        · exact ih laterLive laterHeader

theorem Blocks.frame (tiled : Blocks mem stop prev address blocks)
    (same : ∀ byte, InHeader address blocks byte → changed byte = mem byte) :
    Blocks changed stop prev address blocks := by
  induction blocks generalizing prev address with
  | nil => exact tiled
  | cons block rest ih =>
      refine ⟨tiled.1.frame ?_, ih tiled.2 ?_⟩
      · intro byte lower upper
        exact same byte (Or.inl ⟨lower, upper⟩)
      · intro byte later
        exact same byte (Or.inr later)

theorem mem_livePayloads {ptr size : Nat} (member : (ptr, size) ∈ livePayloads address blocks)
    (lower : ptr ≤ byte) (upper : byte < ptr + size) : InLive address blocks byte := by
  induction blocks generalizing address with
  | nil => simp [livePayloads] at member
  | cons block rest ih =>
      simp only [livePayloads] at member
      split at member
      · exact Or.inr (ih member)
      · rename_i used
        rcases List.mem_cons.mp member with first | later
        · simp only [Prod.mk.injEq] at first
          refine Or.inl ⟨by simpa using used, by omega, ?_⟩
          simp only [blockEnd]
          omega
        · exact Or.inr (ih later)

theorem livePayloads_lower {ptr size : Nat} (member : (ptr, size) ∈ livePayloads address blocks) :
    address + headerSize ≤ ptr := by
  induction blocks generalizing address with
  | nil => simp [livePayloads] at member
  | cons block rest ih =>
      have step : (ptr, size) ∈ livePayloads (blockEnd address block) rest →
          address + headerSize ≤ ptr := by
        intro later
        have tail := ih later
        simp only [blockEnd] at tail
        omega
      simp only [livePayloads] at member
      split at member
      · exact step member
      · rcases List.mem_cons.mp member with first | later
        · simp only [Prod.mk.injEq] at first
          omega
        · exact step later

theorem livePayloads_pairwise (address : Nat) (blocks : List HeapBlock) :
    (livePayloads address blocks).Pairwise fun first second =>
      first.1 + first.2 + headerSize ≤ second.1 := by
  induction blocks generalizing address with
  | nil => exact List.Pairwise.nil
  | cons block rest ih =>
      simp only [livePayloads]
      split
      · exact ih _
      · refine List.Pairwise.cons ?_ (ih _)
        rintro ⟨ptr, size⟩ member
        have tail := livePayloads_lower member
        simp only [blockEnd] at tail
        exact tail

theorem Blocks.replace_rest {block : HeapBlock} {rest other : List HeapBlock}
    (tiled : Blocks mem stop prev address (block :: rest))
    (new : Blocks changed stop address (blockEnd address block) other)
    (alike : rest.isEmpty = other.isEmpty)
    (same : ∀ byte, byte < blockEnd address block → changed byte = mem byte) :
    Blocks changed stop prev address (block :: other) := by
  refine ⟨?_, new⟩
  have header := tiled.1
  simp only [linkTo, alike] at header ⊢
  apply header.frame
  intro byte _ upper
  exact same byte (by simp only [blockEnd]; omega)

end Layout

/-- The static array: a nonzero address with no wrap behind it. -/
structure HeapStorage where
  address : Nat
  nonNull : 0 < address
  fits : address + heapBytes < 2 ^ 64

def HeapStorage.stop (storage : HeapStorage) : Nat := storage.address + heapBytes

/-- `heap_merge_next` on the list: swallow the next block when it is free. -/
def coalesce (block : HeapBlock) : List HeapBlock → List HeapBlock
  | [] => [block]
  | next :: rest =>
      if next.free then ⟨block.size + (headerSize + next.size), block.free⟩ :: rest
      else block :: next :: rest

def Framed (storage : HeapStorage) (mem changed : Mem) (address : Nat)
    (blocks : List HeapBlock) : Prop :=
  ∀ byte, byte < address ∨ storage.stop ≤ byte ∨ InLive address blocks byte →
    changed byte = mem byte

variable {blocks : List HeapBlock}

theorem Framed.rfl {storage : HeapStorage} {mem : Mem} {address : Nat} :
    Framed storage mem mem address blocks := fun _ _ => Eq.refl _

theorem Framed.cons {storage : HeapStorage} {mem changed : Mem} {address : Nat} {block : HeapBlock}
    {rest : List HeapBlock} (framed : Framed storage mem changed (blockEnd address block) rest) :
    Framed storage mem changed address (block :: rest) := by
  rintro byte (before | behind | own | later)
  · exact framed byte (Or.inl (by simp only [blockEnd]; omega))
  · exact framed byte (Or.inr (Or.inl behind))
  · exact framed byte (Or.inl own.2.2)
  · exact framed byte (Or.inr (Or.inr later))

section Merge

variable {storage : HeapStorage} {mem : Mem} {prev address : Nat} {block next : HeapBlock}
  {rest : List HeapBlock}

theorem heapBlockPtrValid_inside {pointer : Nat} (lower : storage.address ≤ pointer)
    (upper : pointer + headerSize ≤ storage.stop) :
    heapBlockPtrValid storage.address pointer = true := by
  have nonNull := storage.nonNull
  have fits := storage.fits
  simp only [HeapStorage.stop] at upper
  simp only [heapBlockPtrValid, Bool.and_eq_true, decide_eq_true_eq]
  rw [Nat.mod_eq_of_lt (by omega)]
  exact ⟨⟨by omega, lower⟩, upper⟩

theorem heapBlockPtrValid_null : heapBlockPtrValid storage.address 0 = false := by
  simp [heapBlockPtrValid]

theorem Blocks.header_fits (tiled : Blocks mem storage.stop prev address (block :: rest)) :
    blockEnd address block ≤ storage.stop ∧ storage.stop < 2 ^ 64 :=
  ⟨tiled.2.le_stop, storage.fits⟩

theorem Blocks.head_valid (tiled : Blocks mem storage.stop prev address (block :: rest))
    (lower : storage.address ≤ address) :
    heapBlockPtrValid storage.address address = true := by
  have upper := tiled.header_fits.1
  simp only [blockEnd] at upper
  exact heapBlockPtrValid_inside lower (by omega)

def relink (mem : Mem) (address link : Nat) (blocks : List HeapBlock) : Mem :=
  if blocks.isEmpty then mem else setPrev mem address link

theorem relink_outside {link byte : Nat} (outside : byte < address ∨ address + headerSize ≤ byte) :
    relink mem address link blocks byte = mem byte := by
  unfold relink
  split
  · rfl
  · exact setPrev_outside mem outside

theorem relink_end {link : Nat} {stop byte : Nat}
    (tiled : Blocks mem stop prev address blocks) (outside : stop ≤ byte) :
    relink mem address link blocks byte = mem byte := by
  cases blocks with
  | nil => rfl
  | cons block rest =>
      have tail := tiled.2.le_stop
      simp only [blockEnd] at tail
      exact relink_outside (Or.inr (by omega))

theorem Blocks.relink {link stop : Nat}
    (tiled : Blocks mem stop prev address blocks) (small : link < 2 ^ 64) :
    Blocks (relink mem address link blocks) stop link address blocks := by
  cases blocks with
  | nil => exact tiled
  | cons block rest =>
      refine ⟨tiled.1.setPrev small, tiled.2.frame ?_⟩
      intro byte later
      have lower := later.lower
      simp only [blockEnd] at lower
      exact setPrev_outside mem (by omega)

theorem heapMergeNext_used (tiled : Blocks mem storage.stop prev address (block :: rest))
    (lower : storage.address ≤ address) (used : ∀ next ∈ rest.head?, next.free = false) :
    heapMergeNext storage.address mem address = mem := by
  unfold heapMergeNext
  rw [tiled.head_valid lower]
  cases rest with
  | nil =>
      have null : blockNext mem address = 0 := tiled.1.next
      simp [null, heapBlockPtrValid_null]
  | cons next rest =>
      have link : blockNext mem address = blockEnd address block := tiled.1.next
      have valid := tiled.2.head_valid (by simp only [blockEnd]; omega)
      have notFree : blockFree mem (blockEnd address block) = false :=
        tiled.2.1.free.trans (used next (by simp))
      simp [link, valid, notFree]

theorem heapMergeNext_free (tiled : Blocks mem storage.stop prev address (block :: next :: rest))
    (lower : storage.address ≤ address) (nextFree : next.free = true) :
    heapMergeNext storage.address mem address =
      relink (setNext (setSize mem address (block.size + (headerSize + next.size))) address
        (linkTo (blockEnd (blockEnd address block) next) rest))
        (blockEnd (blockEnd address block) next) address rest := by
  have link : blockNext mem address = blockEnd address block := tiled.1.next
  have valid := tiled.2.head_valid (by simp only [blockEnd]; omega)
  have magic : blockMagic mem (blockEnd address block) = heapMagic := tiled.2.1.magic
  have free : blockFree mem (blockEnd address block) = true := tiled.2.1.free.trans nextFree
  have ends : (address + headerSize + block.size) % 2 ^ 64 = blockEnd address block := by
    have fits := tiled.header_fits
    simp only [blockEnd] at fits ⊢
    exact Nat.mod_eq_of_lt (by omega)
  have afterLink : blockNext mem (blockEnd address block) =
      linkTo (blockEnd (blockEnd address block) next) rest := tiled.2.1.next
  unfold heapMergeNext
  simp only [tiled.head_valid lower, link, valid, magic, free, tiled.1.size, tiled.2.1.size, ends,
    afterLink, Bool.not_true, Bool.false_eq_true, if_false, ne_eq, not_true, decide_false,
    Bool.or_false]
  cases rest with
  | nil => simp [linkTo, relink, heapBlockPtrValid_null]
  | cons after rest =>
      have afterValid := tiled.2.2.head_valid (by simp only [blockEnd]; omega)
      simp [linkTo, relink, afterValid]

theorem blockEnd_joined {address : Nat} {block next : HeapBlock} :
    blockEnd address ⟨block.size + (headerSize + next.size), block.free⟩ =
      blockEnd (blockEnd address block) next := by
  simp only [blockEnd]
  omega

theorem heapMergeNext_spec (tiled : Blocks mem storage.stop prev address (block :: rest))
    (lower : storage.address ≤ address) :
    Blocks (heapMergeNext storage.address mem address) storage.stop prev address
        (coalesce block rest) ∧
      Framed storage mem (heapMergeNext storage.address mem address) address (block :: rest) := by
  cases rest with
  | nil =>
      rw [heapMergeNext_used tiled lower (by simp)]
      exact ⟨tiled, Framed.rfl⟩
  | cons next rest =>
      cases nextFree : next.free with
      | false =>
          rw [heapMergeNext_used tiled lower (by simp [nextFree])]
          simp only [coalesce, nextFree, Bool.false_eq_true, if_false]
          exact ⟨tiled, Framed.rfl⟩
      | true =>
          rw [heapMergeNext_free tiled lower nextFree]
          simp only [coalesce, nextFree, if_true]
          have fits := tiled.header_fits
          have nextFits := tiled.2.2.le_stop
          have joined := @blockEnd_joined address block next
          have linkSmall : linkTo (blockEnd (blockEnd address block) next) rest < 2 ^ 64 := by
            unfold linkTo
            split
            · omega
            · omega
          have sizeSmall : block.size + (headerSize + next.size) < 2 ^ 64 := by
            simp only [blockEnd] at fits nextFits
            omega
          generalize linkedEq : setNext (setSize mem address
            (block.size + (headerSize + next.size))) address
            (linkTo (blockEnd (blockEnd address block) next) rest) = linked
          have outside : ∀ byte, byte < address ∨ address + headerSize ≤ byte →
              linked byte = mem byte := by
            intro byte apart
            rw [← linkedEq, setNext_outside _ apart, setSize_outside _ apart]
          have header : HeaderAt linked address
              ⟨block.size + (headerSize + next.size), block.free⟩ prev
              (linkTo (blockEnd (blockEnd address block) next) rest) :=
            linkedEq ▸ (tiled.1.setSize sizeSmall).setNext linkSmall
          have tail : Blocks linked storage.stop (blockEnd address block)
              (blockEnd (blockEnd address block) next) rest := by
            apply tiled.2.2.frame
            intro byte later
            have lower := later.lower
            simp only [blockEnd] at lower
            exact outside byte (by omega)
          refine ⟨⟨?_, ?_⟩, ?_⟩
          · rw [joined]
            apply header.frame
            intro byte lower upper
            exact relink_outside (Or.inl (by simp only [blockEnd]; omega))
          · rw [joined]
            exact tail.relink (by simp only [blockEnd] at fits; omega)
          · intro byte kept
            rcases kept with before | behind | live
            · rw [relink_outside (Or.inl (by simp only [blockEnd]; omega)),
                outside byte (Or.inl before)]
            · rw [relink_end tail behind, outside byte (Or.inr (by
                simp only [blockEnd] at fits
                omega))]
            · -- a live byte lies in `block` or behind the header that is relinked
              rcases live with own | inNext | later
              · simp only [blockEnd] at own
                rw [relink_outside (Or.inl (by simp only [blockEnd]; omega)),
                  outside byte (Or.inr own.2.1)]
              · simp [nextFree] at inNext
              · have lower := later.lower
                simp only [blockEnd] at lower
                rw [relink_outside (Or.inr (by simp only [blockEnd]; omega)),
                  outside byte (Or.inr (by omega))]

end Merge

def takeBlock (size : Nat) (block : HeapBlock) (rest : List HeapBlock) : List HeapBlock :=
  if block.size > size + headerSize + heapMinSize then
    ⟨size, false⟩ :: ⟨block.size - size - headerSize, true⟩ :: rest
  else ⟨block.size, false⟩ :: rest

/-- First fit: the header address of the block taken and the resulting list. -/
def firstFit (size : Nat) : Nat → List HeapBlock → Option (Nat × List HeapBlock)
  | _, [] => none
  | address, block :: rest =>
      if block.free && size ≤ block.size then some (address, takeBlock size block rest)
      else (firstFit size (blockEnd address block) rest).map fun found =>
        (found.1, block :: found.2)

section Allocation

variable {storage : HeapStorage} {mem : Mem} {prev address size : Nat} {block : HeapBlock}
  {rest blocks : List HeapBlock} {after : List HeapBlock} {found : Nat}

def freshHeader (mem : Mem) (address size next prev : Nat) : Mem :=
  setPrev (setNext (setFree (setSize (setMagic mem address heapMagic) address size)
    address true) address next) address prev

theorem freshHeader_outside {next byte : Nat}
    (outside : byte < address ∨ address + headerSize ≤ byte) :
    freshHeader mem address size next prev byte = mem byte := by
  rw [freshHeader, setPrev_outside _ outside, setNext_outside _ outside, setFree_outside _ outside,
    setSize_outside _ outside, setMagic_outside _ outside]

theorem splitBlock_eq (tiled : Blocks mem storage.stop prev address (block :: rest))
    (lower : storage.address ≤ address) :
    splitBlock mem address size =
      setSize (setNext (relink (freshHeader mem (address + headerSize + size)
          (block.size - size - headerSize) (linkTo (blockEnd address block) rest) address)
        (blockEnd address block) (address + headerSize + size) rest)
        address (address + headerSize + size)) address size := by
  have nonNull := storage.nonNull
  -- the tail's header lies behind the header of `current`, whose fields are read meanwhile
  have intact : ∀ changed : Mem, (∀ byte, byte < address + headerSize → changed byte = mem byte) →
      HeaderAt changed address block prev (linkTo (blockEnd address block) rest) :=
    fun changed same => tiled.1.frame fun byte _ upper => same byte upper
  unfold splitBlock
  dsimp only
  rw [(intact (setMagic mem (address + headerSize + size) heapMagic) (by
    intro byte bound
    exact setMagic_outside _ (Or.inl (by omega)))).size]
  rw [(intact (setFree (setSize (setMagic mem (address + headerSize + size) heapMagic)
      (address + headerSize + size) (block.size - size - headerSize))
      (address + headerSize + size) true) (by
    intro byte bound
    rw [setFree_outside _ (Or.inl (by omega)), setSize_outside _ (Or.inl (by omega)),
      setMagic_outside _ (Or.inl (by omega))])).next]
  rw [← freshHeader, (intact (freshHeader mem (address + headerSize + size)
      (block.size - size - headerSize) (linkTo (blockEnd address block) rest) address) (by
    intro byte bound
    exact freshHeader_outside (Or.inl (by omega)))).next]
  cases rest with
  | nil => simp [linkTo, relink]
  | cons next rest =>
      have nonzero : blockEnd address block ≠ 0 := by
        simp only [blockEnd]
        omega
      simp [linkTo, relink, nonzero]

theorem splitBlock_spec (tiled : Blocks mem storage.stop prev address (block :: rest))
    (lower : storage.address ≤ address) (free : block.free = true)
    (roomy : size + headerSize + heapMinSize < block.size) :
    Blocks (splitBlock mem address size) storage.stop prev address
        (⟨size, true⟩ :: ⟨block.size - size - headerSize, true⟩ :: rest) ∧
      Framed storage mem (splitBlock mem address size) address (block :: rest) := by
  rw [splitBlock_eq tiled lower]
  have fits := tiled.header_fits
  have tailEnd : blockEnd (address + headerSize + size) ⟨block.size - size - headerSize, true⟩ =
      blockEnd address block := by
    simp only [blockEnd]
    omega
  have linkSmall : linkTo (blockEnd address block) rest < 2 ^ 64 := by
    unfold linkTo
    split <;> omega
  simp only [blockEnd] at fits
  have tailHeader := fresh_header mem (address + headerSize + size)
    (show block.size - size - headerSize < 2 ^ 64 by omega) linkSmall
    (show address < 2 ^ 64 by omega)
  generalize freshEq : freshHeader mem (address + headerSize + size)
    (block.size - size - headerSize) (linkTo (blockEnd address block) rest) address = fresh
  rw [← freshHeader, freshEq] at tailHeader
  have freshOutside : ∀ byte, byte < address + headerSize + size ∨
      address + headerSize + size + headerSize ≤ byte → fresh byte = mem byte := by
    intro byte outside
    rw [← freshEq, freshHeader_outside outside]
  have restBlocks : Blocks fresh storage.stop address (blockEnd address block) rest := by
    apply tiled.2.frame
    intro byte later
    have later := later.lower
    simp only [blockEnd] at later
    exact freshOutside byte (by omega)
  have relinked := restBlocks.relink (show address + headerSize + size < 2 ^ 64 by omega)
  generalize backEq : relink fresh (blockEnd address block) (address + headerSize + size) rest =
    back at relinked ⊢
  have backOutside : ∀ byte, byte < blockEnd address block ∨
      blockEnd address block + headerSize ≤ byte ∨ storage.stop ≤ byte → back byte = fresh byte := by
    intro byte outside
    rw [← backEq]
    rcases outside with before | after | behind
    · exact relink_outside (Or.inl before)
    · exact relink_outside (Or.inr after)
    · exact relink_end restBlocks behind
  have headHeader : HeaderAt back address block prev (linkTo (blockEnd address block) rest) := by
    apply tiled.1.frame
    intro byte _ upper
    rw [backOutside byte (Or.inl (by simp only [blockEnd]; omega)),
      freshOutside byte (Or.inl (by omega))]
  have finalHeader := (headHeader.setNext (show address + headerSize + size < 2 ^ 64 by
    omega)).setSize (show size < 2 ^ 64 by omega)
  have finalOutside : ∀ byte, byte < address ∨ address + headerSize ≤ byte →
      setSize (setNext back address (address + headerSize + size)) address size byte =
        back byte := by
    intro byte outside
    rw [setSize_outside _ outside, setNext_outside _ outside]
  refine ⟨⟨?_, ?_, ?_⟩, ?_⟩
  · simpa only [free, linkTo, blockEnd, List.isEmpty_cons, Bool.false_eq_true, if_false]
      using finalHeader
  · have start : blockEnd address ⟨size, true⟩ = address + headerSize + size := rfl
    rw [start, tailEnd]
    apply tailHeader.frame
    intro byte lowerByte upperByte
    rw [finalOutside byte (by omega), backOutside byte (Or.inl (by simp only [blockEnd]; omega))]
  · have start : blockEnd address ⟨size, true⟩ = address + headerSize + size := rfl
    rw [start, tailEnd]
    apply relinked.frame
    intro byte later
    have later := later.lower
    simp only [blockEnd] at later
    exact finalOutside byte (by omega)
  · intro byte kept
    rcases kept with before | behind | live
    · rw [finalOutside byte (Or.inl before), backOutside byte (Or.inl (by
        simp only [blockEnd]; omega)), freshOutside byte (by omega)]
    · rw [finalOutside byte (by omega), backOutside byte (Or.inr (Or.inr behind)),
        freshOutside byte (by omega)]
    · rcases live with own | later
      · simp [free] at own
      · have later := later.lower
        simp only [blockEnd] at later
        rw [finalOutside byte (by omega), backOutside byte (by simp only [blockEnd]; omega),
          freshOutside byte (by omega)]

theorem Blocks.setFree {stop : Nat} (tiled : Blocks mem stop prev address (block :: rest))
    (free : Bool) :
    Blocks (setFree mem address free) stop prev address ({ block with free } :: rest) := by
  refine ⟨tiled.1.setFree free, tiled.2.frame ?_⟩
  intro byte later
  have later := later.lower
  simp only [blockEnd] at later
  exact setFree_outside mem (by omega)

theorem takeBlock_spec (tiled : Blocks mem storage.stop prev address (block :: rest))
    (lower : storage.address ≤ address) (free : block.free = true) (small : size ≤ block.size) :
    let taken := if blockSize mem address > (size + headerSize + heapMinSize) % 2 ^ 64 then
        splitBlock mem address size
      else mem
    Blocks (setFree taken address false) storage.stop prev address (takeBlock size block rest) ∧
      Framed storage mem (setFree taken address false) address (block :: rest) := by
  intro taken
  have fits := tiled.header_fits
  simp only [blockEnd] at fits
  have noWrap : (size + headerSize + heapMinSize) % 2 ^ 64 = size + headerSize + heapMinSize := by
    have storageFits := storage.fits
    simp only [HeapStorage.stop, headerSize, heapMinSize, heapBytes] at fits storageFits ⊢
    exact Nat.mod_eq_of_lt (by omega)
  have headerByte : ∀ byte, byte < address ∨ storage.stop ≤ byte ∨
      InLive address (block :: rest) byte → byte < address ∨ address + headerSize ≤ byte := by
    rintro byte (before | behind | live)
    · exact Or.inl before
    · exact Or.inr (by omega)
    · exact Or.inr live.lower
  have taking : ∃ head tail, Blocks taken storage.stop prev address (head :: tail) ∧
      takeBlock size block rest = { head with free := false } :: tail ∧
      Framed storage mem taken address (block :: rest) := by
    simp only [taken, noWrap, tiled.1.size]
    by_cases roomy : size + headerSize + heapMinSize < block.size
    · rw [if_pos roomy]
      have cut := splitBlock_spec tiled lower free roomy
      exact ⟨_, _, cut.1, by simp [takeBlock, roomy], cut.2⟩
    · rw [if_neg roomy]
      exact ⟨_, _, tiled, by simp [takeBlock, roomy], Framed.rfl⟩
  obtain ⟨head, tail, tiledTaken, shape, framed⟩ := taking
  rw [shape]
  refine ⟨tiledTaken.setFree false, ?_⟩
  intro byte kept
  rw [setFree_outside _ (headerByte byte kept), framed byte kept]

def Separated (blocks : List HeapBlock) : Prop :=
  blocks.IsChain fun block next => block.free = true → next.free = false

theorem Separated.next_used (apart : Separated (block :: rest)) (free : block.free = true) :
    ∀ next ∈ rest.head?, next.free = false := by
  cases rest with
  | nil => simp
  | cons next rest =>
      simp only [Separated, List.isChain_cons_cons] at apart
      simpa using apart.1 free

theorem Separated.tail (apart : Separated (block :: rest)) : Separated rest :=
  List.IsChain.tail apart

theorem firstFit_cases (fit : firstFit size address (block :: rest) = some (found, after)) :
    (block.free = true ∧ size ≤ block.size ∧ found = address ∧ after = takeBlock size block rest) ∨
      ∃ later, firstFit size (blockEnd address block) rest = some (found, later) ∧
        after = block :: later := by
  rw [firstFit] at fit
  split at fit
  · rename_i fits
    simp only [Bool.and_eq_true, decide_eq_true_eq] at fits
    cases fit
    exact Or.inl ⟨fits.1, fits.2, rfl, rfl⟩
  · obtain ⟨⟨place, later⟩, fitRest, same⟩ := Option.map_eq_some_iff.mp fit
    cases same
    exact Or.inr ⟨later, fitRest, rfl⟩

theorem firstFit_isEmpty (fit : firstFit size address blocks = some (found, after)) :
    blocks.isEmpty = after.isEmpty := by
  cases blocks with
  | nil => simp [firstFit] at fit
  | cons block rest =>
      rcases firstFit_cases fit with ⟨_, _, _, rfl⟩ | ⟨later, _, rfl⟩
      · rw [takeBlock]
        split <;> rfl
      · rfl

theorem linkTo_cons (address : Nat) (block : HeapBlock) (rest : List HeapBlock) :
    linkTo address (block :: rest) = address := rfl

theorem kmallocFrom_step {fuel : Nat} (tiled : Blocks mem storage.stop prev address (block :: rest))
    (lower : storage.address ≤ address) (apart : Separated (block :: rest)) :
    kmallocFrom storage.address size (fuel + 1) mem address =
      if block.free && size ≤ block.size then
        (address + headerSize, setFree
          (if blockSize mem address > (size + headerSize + heapMinSize) % 2 ^ 64 then
            splitBlock mem address size
          else mem) address false)
      else kmallocFrom storage.address size fuel mem (linkTo (blockEnd address block) rest) := by
  have nonNull := storage.nonNull
  have merged : (if blockFree mem address then heapMergeNext storage.address mem address
      else mem) = mem := by
    split
    · rename_i free
      exact heapMergeNext_used tiled lower (apart.next_used (tiled.1.free.symm.trans free))
    · rfl
  have linkValid : linkTo (blockEnd address block) rest = 0 ∨
      heapBlockPtrValid storage.address (linkTo (blockEnd address block) rest) = true := by
    cases rest with
    | nil => exact Or.inl rfl
    | cons next rest => exact Or.inr (tiled.2.head_valid (by simp only [blockEnd]; omega))
  rw [kmallocFrom, if_neg (by omega), tiled.head_valid lower]
  simp only [Bool.not_true, Bool.false_eq_true, if_false, tiled.1.magic, ne_eq, not_true, merged]
  simp only [tiled.1.free, tiled.1.next, tiled.1.size]
  rcases linkValid with null | valid
  · simp [null]
  · simp [valid]

theorem kmallocFrom_none {fuel : Nat} (tiled : Blocks mem storage.stop prev address blocks)
    (lower : storage.address ≤ address) (apart : Separated blocks)
    (missing : firstFit size address blocks = none) :
    kmallocFrom storage.address size fuel mem (linkTo address blocks) = (0, mem) := by
  induction blocks generalizing prev address fuel with
  | nil => cases fuel <;> simp [kmallocFrom, linkTo]
  | cons block rest ih =>
      cases fuel with
      | zero => rfl
      | succ fuel =>
          rw [linkTo_cons, kmallocFrom_step tiled lower apart]
          rw [firstFit] at missing
          split at missing
          · contradiction
          · rename_i unfit
            rw [if_neg unfit]
            exact ih tiled.2 (by simp only [blockEnd]; omega) apart.tail (by simpa using missing)

theorem kmallocFrom_some {fuel found : Nat} (tiled : Blocks mem storage.stop prev address blocks)
    (lower : storage.address ≤ address) (apart : Separated blocks)
    (enough : blocks.length ≤ fuel) (fit : firstFit size address blocks = some (found, after)) :
    (kmallocFrom storage.address size fuel mem (linkTo address blocks)).1 = found + headerSize ∧
      Blocks (kmallocFrom storage.address size fuel mem (linkTo address blocks)).2
        storage.stop prev address after ∧
      Framed storage mem (kmallocFrom storage.address size fuel mem (linkTo address blocks)).2
        address blocks := by
  induction blocks generalizing prev address fuel found after with
  | nil => simp [firstFit] at fit
  | cons block rest ih =>
      cases fuel with
      | zero => simp at enough
      | succ fuel =>
          rw [linkTo_cons, kmallocFrom_step tiled lower apart]
          rw [firstFit] at fit
          by_cases fits : (block.free && decide (size ≤ block.size)) = true
          · rw [if_pos fits] at fit ⊢
            simp only [Option.some.injEq, Prod.mk.injEq] at fit
            obtain ⟨rfl, rfl⟩ := fit
            simp only [Bool.and_eq_true, decide_eq_true_eq] at fits
            exact ⟨rfl, takeBlock_spec tiled lower fits.1 fits.2⟩
          · rw [if_neg fits] at fit ⊢
            obtain ⟨⟨place, later⟩, fitRest, same⟩ := Option.map_eq_some_iff.mp fit
            simp only [Prod.mk.injEq] at same
            obtain ⟨rfl, rfl⟩ := same
            obtain ⟨pointer, tiledRest, framed⟩ := ih tiled.2 (by simp only [blockEnd]; omega)
              apart.tail (by simpa using enough) fitRest
            refine ⟨pointer, tiled.replace_rest tiledRest (firstFit_isEmpty fitRest) ?_, ?_⟩
            · intro byte before
              exact framed byte (Or.inl before)
            · exact Framed.cons framed

theorem separated_cons : Separated (block :: rest) ↔
    (block.free = true → ∀ next ∈ rest.head?, next.free = false) ∧ Separated rest := by
  simp only [Separated, List.isChain_cons]
  constructor
  · rintro ⟨first, later⟩
    exact ⟨fun free next member => first next member free, later⟩
  · rintro ⟨first, later⟩
    exact ⟨fun next member free => first free next member, later⟩

theorem firstFit_head_used (fit : firstFit size address blocks = some (found, after))
    (used : ∀ first ∈ blocks.head?, first.free = false) :
    ∀ first ∈ after.head?, first.free = false := by
  cases blocks with
  | nil => simp [firstFit] at fit
  | cons block rest =>
      have blockUsed : block.free = false := used block (by simp)
      rcases firstFit_cases fit with ⟨free, _⟩ | ⟨later, _, rfl⟩
      · cases blockUsed.symm.trans free
      · simpa using blockUsed

theorem firstFit_separated (apart : Separated blocks)
    (fit : firstFit size address blocks = some (found, after)) : Separated after := by
  induction blocks generalizing address found after with
  | nil => simp [firstFit] at fit
  | cons block rest ih =>
      rw [separated_cons] at apart
      rcases firstFit_cases fit with ⟨free, _, _, rfl⟩ | ⟨later, fitRest, rfl⟩
      · rw [takeBlock]
        split
        · rw [separated_cons, separated_cons]
          exact ⟨by simp, fun _ => apart.1 free, apart.2⟩
        · rw [separated_cons]
          exact ⟨by simp, apart.2⟩
      · rw [separated_cons]
        exact ⟨fun free => firstFit_head_used fitRest (apart.1 free), ih apart.2 fitRest⟩

def Roomy (blocks : List HeapBlock) : Prop := ∀ block ∈ blocks, heapMinSize ≤ block.size

theorem firstFit_roomy (roomy : Roomy blocks)
    (large : heapMinSize ≤ size) (fit : firstFit size address blocks = some (found, after)) :
    Roomy after := by
  induction blocks generalizing address found after with
  | nil => simp [firstFit] at fit
  | cons block rest ih =>
      simp only [Roomy, List.forall_mem_cons] at roomy
      rcases firstFit_cases fit with ⟨_, _, _, rfl⟩ | ⟨later, fitRest, rfl⟩
      · rw [takeBlock]
        split
        · simp only [Roomy, List.forall_mem_cons]
          exact ⟨large, by omega, roomy.2⟩
        · simp only [Roomy, List.forall_mem_cons]
          exact ⟨roomy.1, roomy.2⟩
      · simp only [Roomy, List.forall_mem_cons]
        exact ⟨roomy.1, ih roomy.2 fitRest⟩

theorem firstFit_live (fit : firstFit size address blocks = some (found, after)) :
    ∃ granted, size ≤ granted ∧ address ≤ found ∧
      (livePayloads address after).Perm
        ((found + headerSize, granted) :: livePayloads address blocks) := by
  induction blocks generalizing address found after with
  | nil => simp [firstFit] at fit
  | cons block rest ih =>
      rcases firstFit_cases fit with ⟨free, fits, here, rfl⟩ | ⟨later, fitRest, rfl⟩
      · subst here
        rw [takeBlock]
        split
        · refine ⟨size, Nat.le_refl _, Nat.le_refl _, ?_⟩
          have ends : blockEnd (blockEnd found ⟨size, false⟩)
              ⟨block.size - size - headerSize, true⟩ = blockEnd found block := by
            simp only [blockEnd]
            omega
          simp [livePayloads, free, ends]
        · refine ⟨block.size, fits, Nat.le_refl _, ?_⟩
          simp [livePayloads, free, blockEnd]
      · obtain ⟨granted, large, lower, perm⟩ := ih fitRest
        refine ⟨granted, large, by simp only [blockEnd] at lower; omega, ?_⟩
        simp only [livePayloads]
        split
        · exact perm
        · exact (perm.cons _).trans (List.Perm.swap _ _ _)

end Allocation

end Szczupak
