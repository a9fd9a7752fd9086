import Mathlib.Algebra.Order.BigOperators.Group.List
import Szczupak.Mm.Heap

/-!
Calls of the heap from `heap_init` on.  Callers free and resize only pointers they
hold and write only inside their payloads; the block list keeps its shape over any
number of such calls.
-/

namespace Szczupak

structure HeapInvariant (storage : HeapStorage) (mem : Mem) (blocks : List HeapBlock) : Prop where
  tiled : Blocks mem storage.stop 0 storage.address blocks
  separated : Separated blocks
  roomy : Roomy blocks

variable {blocks : List HeapBlock} {after : List HeapBlock} {between after : List HeapBlock}
  {stop prev address : Nat} {ptr size : Nat}

theorem Blocks.total {mem : Mem} (tiled : Blocks mem stop prev address blocks) :
    address + (blocks.map fun block => headerSize + block.size).sum = stop := by
  induction blocks generalizing prev address with
  | nil => exact tiled
  | cons block rest ih =>
      have tail := ih tiled.2
      simp only [blockEnd] at tail
      simp only [List.map_cons, List.sum_cons]
      omega

theorem Blocks.live_end {mem : Mem} {stop prev address ptr size : Nat}
    (tiled : Blocks mem stop prev address blocks)
    (live : (ptr, size) ∈ livePayloads address blocks) : ptr + size ≤ stop := by
  induction blocks generalizing prev address with
  | nil => simp [livePayloads] at live
  | cons block rest ih =>
      simp only [livePayloads] at live
      split at live
      · exact ih tiled.2 live
      · rcases List.mem_cons.mp live with first | later
        · have tail := tiled.2.le_stop
          simp only [Prod.mk.injEq] at first
          simp only [blockEnd] at tail
          omega
        · exact ih tiled.2 later

section Invariant

variable {storage : HeapStorage} {mem : Mem} {blocks : List HeapBlock}

section

variable (heap : HeapInvariant storage mem blocks)
include heap

theorem HeapInvariant.bytes :
    (blocks.map fun block => headerSize + block.size).sum = heapBytes := by
  have total := heap.tiled.total
  simp only [HeapStorage.stop] at total
  omega

theorem HeapInvariant.few :
    blocks.length ≤ heapMaxSteps := by
  have least : blocks.length * (headerSize + heapMinSize) ≤
      (blocks.map fun block => headerSize + block.size).sum := by
    have bound := List.card_nsmul_le_sum (blocks.map fun block => headerSize + block.size)
      (headerSize + heapMinSize) (by
        intro amount member
        obtain ⟨block, inside, rfl⟩ := List.mem_map.mp member
        exact Nat.add_le_add_left (heap.roomy block inside) headerSize)
    simpa using bound
  rw [heap.bytes] at least
  simp only [headerSize, heapMinSize, heapBytes, heapMaxSteps] at least ⊢
  omega

theorem HeapInvariant.start :
    linkTo storage.address blocks = storage.address := by
  have bytes := heap.bytes
  cases blocks with
  | nil => simp [heapBytes] at bytes
  | cons block rest => rfl

theorem HeapInvariant.live_bounds (live : (ptr, size) ∈ livePayloads storage.address blocks) :
    storage.address + headerSize ≤ ptr ∧ ptr + size ≤ storage.stop ∧ storage.stop < 2 ^ 64 := by
  exact ⟨livePayloads_lower live, heap.tiled.live_end live, storage.fits⟩

end

theorem heapInit_spec (storage : HeapStorage) (mem : Mem) :
    HeapInvariant storage (heapInit storage.address mem) [⟨heapBytes - headerSize, true⟩] := by
  refine ⟨⟨fresh_header mem storage.address ?_ ?_ ?_, ?_⟩, ?_, ?_⟩
  · decide
  · decide
  · decide
  · have covers : headerSize ≤ heapBytes := by decide
    change storage.address + headerSize + (heapBytes - headerSize) = storage.address + heapBytes
    omega
  · exact List.isChain_singleton _
  · simp [Roomy, heapMinSize, heapBytes, headerSize]

theorem roundRequest_bounds {size : Nat} (bounded : size ≤ 2 ^ 64 - 8) :
    size ≤ roundRequest size ∧ heapMinSize ≤ roundRequest size := by
  by_cases small : size < heapMinSize
  · simp only [roundRequest, if_pos small]
    simp only [heapMinSize] at small ⊢
    omega
  · simp only [roundRequest, if_neg small]
    simp only [heapMinSize] at small ⊢
    omega

theorem kmalloc_spec (heap : HeapInvariant storage mem blocks) {size : UInt64}
    (bounded : size.toNat ≤ 2 ^ 64 - 8) :
    kmalloc storage.address mem size = (0, mem) ∨
      ∃ after granted, HeapInvariant storage (kmalloc storage.address mem size).2 after ∧
        size.toNat ≤ granted ∧ 0 < (kmalloc storage.address mem size).1 ∧
        (livePayloads storage.address after).Perm
          (((kmalloc storage.address mem size).1, granted) ::
            livePayloads storage.address blocks) ∧
        Framed storage mem (kmalloc storage.address mem size).2 storage.address blocks := by
  unfold kmalloc
  split
  · exact Or.inl rfl
  · have rounded := roundRequest_bounds bounded
    have search : kmallocFrom storage.address (roundRequest size.toNat) heapMaxSteps mem
        storage.address = kmallocFrom storage.address (roundRequest size.toNat) heapMaxSteps mem
          (linkTo storage.address blocks) := by
      rw [heap.start]
    rw [search]
    cases fit : firstFit (roundRequest size.toNat) storage.address blocks with
    | none => exact Or.inl (kmallocFrom_none heap.tiled (Nat.le_refl _) heap.separated fit)
    | some result =>
        obtain ⟨found, after⟩ := result
        obtain ⟨pointer, tiled, framed⟩ := kmallocFrom_some heap.tiled (Nat.le_refl _)
          heap.separated heap.few fit
        obtain ⟨granted, large, _, perm⟩ := firstFit_live fit
        refine Or.inr ⟨after, granted, ⟨tiled, firstFit_separated heap.separated fit,
          firstFit_roomy heap.roomy rounded.2 fit⟩, by omega, ?_, ?_, framed⟩
        · rw [pointer]
          simp [headerSize]
        · rw [pointer]
          exact perm

end Invariant

def segmentEnd (address : Nat) (blocks : List HeapBlock) : Nat := blocks.foldl blockEnd address

def lastHeader : Nat → Nat → List HeapBlock → Nat
  | prev, _, [] => prev
  | _, address, block :: rest => lastHeader address (blockEnd address block) rest

section Segments

variable {mem changed : Mem} {stop prev address : Nat} {before middle other : List HeapBlock}

theorem le_segmentEnd (address : Nat) (blocks : List HeapBlock) :
    address ≤ segmentEnd address blocks := by
  induction blocks generalizing address with
  | nil => exact Nat.le_refl _
  | cons block rest ih =>
      have tail := ih (blockEnd address block)
      simp only [segmentEnd, List.foldl_cons] at tail ⊢
      have step : address ≤ blockEnd address block := by
        simp only [blockEnd]
        omega
      exact Nat.le_trans step tail

theorem Blocks.drop (tiled : Blocks mem stop prev address (before ++ middle)) :
    Blocks mem stop (lastHeader prev address before) (segmentEnd address before) middle := by
  induction before generalizing prev address with
  | nil => exact tiled
  | cons block rest ih => exact ih tiled.2

theorem Blocks.replace_tail (tiled : Blocks mem stop prev address (before ++ middle))
    (new : Blocks changed stop (lastHeader prev address before) (segmentEnd address before) other)
    (alike : middle.isEmpty = other.isEmpty)
    (same : ∀ byte, byte < segmentEnd address before → changed byte = mem byte) :
    Blocks changed stop prev address (before ++ other) := by
  induction before generalizing prev address with
  | nil => exact new
  | cons block rest ih =>
      refine tiled.replace_rest (ih tiled.2 new same) ?_ ?_
      · cases rest with
        | nil => simpa using alike
        | cons next rest => rfl
      · intro byte bound
        exact same byte (Nat.lt_of_lt_of_le bound (le_segmentEnd _ rest))

theorem Framed.append {storage : HeapStorage}
    (framed : Framed storage mem changed (segmentEnd address before) middle) :
    Framed storage mem changed address (before ++ middle) := by
  induction before generalizing address with
  | nil => exact framed
  | cons block rest ih => exact (ih framed).cons

theorem livePayloads_append (address : Nat) (before middle : List HeapBlock) :
    livePayloads address (before ++ middle) =
      livePayloads address before ++ livePayloads (segmentEnd address before) middle := by
  induction before generalizing address with
  | nil => rfl
  | cons block rest ih =>
      simp only [List.cons_append, livePayloads, ih, segmentEnd, List.foldl_cons]
      split <;> rfl

theorem live_block (live : (ptr, size) ∈ livePayloads address blocks) :
    ∃ before block rest, blocks = before ++ block :: rest ∧ block.free = false ∧
      block.size = size ∧ ptr = segmentEnd address before + headerSize := by
  induction blocks generalizing address with
  | nil => simp [livePayloads] at live
  | cons block rest ih =>
      have step : (ptr, size) ∈ livePayloads (blockEnd address block) rest →
          ∃ before chosen tail, block :: rest = before ++ chosen :: tail ∧ chosen.free = false ∧
            chosen.size = size ∧ ptr = segmentEnd address before + headerSize := by
        intro later
        obtain ⟨before, chosen, tail, shape, used, sized, place⟩ := ih later
        exact ⟨block :: before, chosen, tail, by rw [shape]; rfl, used, sized, place⟩
      simp only [livePayloads] at live
      split at live
      · exact step live
      · rename_i used
        rcases List.mem_cons.mp live with first | later
        · simp only [Prod.mk.injEq] at first
          exact ⟨[], block, rest, rfl, by simpa using used, first.2.symm, first.1⟩
        · exact step later

end Segments

section Coalesce

variable {address : Nat} {block : HeapBlock} {rest : List HeapBlock}

theorem livePayloads_coalesce (free : block.free = true) :
    livePayloads address (coalesce block rest) = livePayloads address (block :: rest) := by
  cases rest with
  | nil => rfl
  | cons next rest =>
      rw [coalesce]
      split
      · rename_i nextFree
        rw [livePayloads, if_pos free, blockEnd_joined]
        simp [livePayloads, free, nextFree]
      · rfl

theorem inLive_coalesce {byte : Nat} (free : block.free = true) :
    InLive address (coalesce block rest) byte ↔ InLive address (block :: rest) byte := by
  cases rest with
  | nil => rfl
  | cons next rest =>
      rw [coalesce]
      split
      · rename_i nextFree
        simp only [InLive, blockEnd_joined]
        simp [free, nextFree]
      · rfl

theorem coalesce_isEmpty : (coalesce block rest).isEmpty = false := by
  cases rest with
  | nil => rfl
  | cons next rest =>
      rw [coalesce]
      split <;> rfl

theorem coalesce_roomy (roomy : Roomy (block :: rest)) : Roomy (coalesce block rest) := by
  cases rest with
  | nil => exact roomy
  | cons next rest =>
      simp only [Roomy, List.forall_mem_cons] at roomy
      rw [coalesce]
      split
      · simp only [Roomy, List.forall_mem_cons]
        exact ⟨by omega, roomy.2.2⟩
      · simpa only [Roomy, List.forall_mem_cons] using roomy

theorem coalesce_head : ∀ first ∈ (coalesce block rest).head?, first.free = block.free := by
  cases rest with
  | nil => simp [coalesce]
  | cons next rest =>
      rw [coalesce]
      split <;> simp

theorem coalesce_separated (apart : Separated rest) : Separated (coalesce block rest) := by
  cases rest with
  | nil => exact List.isChain_singleton _
  | cons next rest =>
      rw [separated_cons] at apart
      rw [coalesce]
      split
      · rename_i nextFree
        rw [separated_cons]
        exact ⟨fun _ => apart.1 nextFree, apart.2⟩
      · rename_i nextUsed
        rw [separated_cons, separated_cons]
        exact ⟨fun _ => by simpa using nextUsed, apart⟩

end Coalesce

theorem separated_append {before after : List HeapBlock} : Separated (before ++ after) ↔
    Separated before ∧ Separated after ∧
      ∀ last ∈ before.getLast?, ∀ first ∈ after.head?, last.free = true → first.free = false :=
  List.isChain_append

section Free

variable {storage : HeapStorage} {mem : Mem} {before rest : List HeapBlock} {block : HeapBlock}

/-- The list after `kfree` of `block`: merged with the next block, then into the
previous one. -/
def releaseBlock (before : List HeapBlock) (block : HeapBlock) (rest : List HeapBlock) :
    List HeapBlock :=
  let merged := coalesce { block with free := true } rest
  match before.getLast? with
  | some last => if last.free then before.dropLast ++ coalesce last merged else before ++ merged
  | none => merged

theorem Framed.trans {mem middle changed : Mem} {address : Nat}
    (first : Framed storage mem middle address blocks)
    (second : Framed storage middle changed address blocks) :
    Framed storage mem changed address blocks :=
  fun byte kept => (second byte kept).trans (first byte kept)

theorem lastHeader_concat (prev address : Nat) (before : List HeapBlock) (last : HeapBlock) :
    lastHeader prev address (before ++ [last]) = segmentEnd address before := by
  induction before generalizing prev address with
  | nil => rfl
  | cons block rest ih => exact ih _ _

theorem Blocks.head_prev
    (tiled : Blocks mem stop prev address blocks) (some : blocks.isEmpty = false) :
    blockPrev mem address = prev := by
  cases blocks with
  | nil => simp at some
  | cons block rest => exact tiled.1.prev

def freeAndMerge (storage : Nat) (mem : Mem) (block : Nat) : Mem :=
  heapMergeNext storage (setFree mem block true) block

theorem freeAndMerge_spec {prev address : Nat}
    (tiled : Blocks mem storage.stop prev address (block :: rest))
    (lower : storage.address ≤ address) :
    Blocks (freeAndMerge storage.address mem address) storage.stop prev address
        (coalesce { block with free := true } rest) ∧
      Framed storage mem (freeAndMerge storage.address mem address) address
        ({ block with free := true } :: rest) := by
  have freed := tiled.setFree true
  have merged := heapMergeNext_spec freed lower
  refine ⟨merged.1, Framed.trans ?_ merged.2⟩
  rintro byte (before | behind | live)
  · exact setFree_outside mem (Or.inl before)
  · have fits := tiled.header_fits.1
    simp only [blockEnd] at fits
    exact setFree_outside mem (Or.inr (by omega))
  · exact setFree_outside mem (Or.inr live.lower)

theorem kfree_used {prev address : Nat}
    (tiled : Blocks mem storage.stop prev address (block :: rest))
    (lower : storage.address ≤ address) (used : block.free = false) :
    kfree storage.address mem (address + headerSize) =
      if heapBlockPtrValid storage.address prev &&
          blockMagic (freeAndMerge storage.address mem address) prev = heapMagic &&
          blockFree (freeAndMerge storage.address mem address) prev then
        heapMergeNext storage.address (freeAndMerge storage.address mem address) prev
      else freeAndMerge storage.address mem address := by
  have fits := tiled.header_fits
  simp only [blockEnd] at fits
  have back : (address + headerSize + 2 ^ 64 - headerSize) % 2 ^ 64 = address := by
    have same : address + headerSize + 2 ^ 64 - headerSize = address + 2 ^ 64 := by omega
    rw [same, Nat.add_mod_right]
    exact Nat.mod_eq_of_lt (by omega)
  have previous := (freeAndMerge_spec tiled lower).1.head_prev coalesce_isEmpty
  unfold kfree
  rw [if_neg (by simp only [headerSize]; omega), back]
  simp only [tiled.head_valid lower, Bool.not_true, Bool.false_eq_true, if_false, tiled.1.magic,
    ne_eq, not_true, tiled.1.free, used]
  rw [← freeAndMerge, previous]

theorem kfree_blocks (tiled : Blocks mem storage.stop 0 storage.address (before ++ block :: rest))
    (used : block.free = false) :
    Blocks (kfree storage.address mem (segmentEnd storage.address before + headerSize))
        storage.stop 0 storage.address (releaseBlock before block rest) ∧
      Framed storage mem
        (kfree storage.address mem (segmentEnd storage.address before + headerSize))
        storage.address (before ++ { block with free := true } :: rest) := by
  have lower := le_segmentEnd storage.address before
  rw [kfree_used tiled.drop lower used]
  obtain ⟨merged, framed⟩ := freeAndMerge_spec tiled.drop lower
  generalize freeAndMerge storage.address mem (segmentEnd storage.address before) = middle
    at merged framed ⊢
  have whole : Blocks middle storage.stop 0 storage.address
      (before ++ coalesce { block with free := true } rest) :=
    tiled.replace_tail merged (by rw [coalesce_isEmpty]; rfl) fun byte bound =>
      framed byte (Or.inl bound)
  rcases List.eq_nil_or_concat before with empty | ⟨front, last, shape⟩
  · subst empty
    simp only [lastHeader, heapBlockPtrValid_null, Bool.false_and, Bool.false_eq_true, if_false,
      releaseBlock, List.getLast?_nil]
    exact ⟨whole, framed⟩
  · rw [List.concat_eq_append] at shape
    subst shape
    rw [List.append_assoc] at whole
    have around := whole.drop
    have frontLower := le_segmentEnd storage.address front
    simp only [lastHeader_concat, around.head_valid frontLower, around.1.magic, around.1.free,
      Bool.true_and, decide_true, releaseBlock, List.getLast?_append, List.getLast?_singleton,
      Option.some_or, List.dropLast_concat]
    cases lastFree : last.free with
    | false =>
        simp only [Bool.false_eq_true, if_false]
        exact ⟨by simpa using whole, framed.append⟩
    | true =>
        simp only [if_true]
        obtain ⟨joined, joinFramed⟩ := heapMergeNext_spec around frontLower
        refine ⟨whole.replace_tail joined (by rw [coalesce_isEmpty]; rfl) ?_, ?_⟩
        · intro byte bound
          exact joinFramed byte (Or.inl bound)
        · have joinKept : Framed storage middle
              (heapMergeNext storage.address middle (segmentEnd storage.address front))
              (segmentEnd storage.address front)
              ([last] ++ { block with free := true } :: rest) := by
            rintro byte (ahead | behind | own | later)
            · exact joinFramed byte (Or.inl ahead)
            · exact joinFramed byte (Or.inr (Or.inl behind))
            · exact joinFramed byte (Or.inr (Or.inr (Or.inl own)))
            · exact joinFramed byte (Or.inr (Or.inr (Or.inr ((inLive_coalesce rfl).mpr later))))
          refine Framed.trans framed.append ?_
          rw [List.append_assoc]
          exact joinKept.append

theorem releaseBlock_separated (apart : Separated (before ++ block :: rest)) :
    Separated (releaseBlock before block rest) := by
  obtain ⟨front, tail, joint⟩ := separated_append.mp apart
  have merged : Separated (coalesce { block with free := true } rest) := coalesce_separated tail.tail
  rcases List.eq_nil_or_concat before with empty | ⟨start, last, shape⟩
  · subst empty
    exact merged
  · rw [List.concat_eq_append] at shape
    subst shape
    obtain ⟨startApart, _, startJoint⟩ := separated_append.mp front
    simp only [releaseBlock, List.getLast?_append, List.getLast?_singleton, Option.some_or,
      List.dropLast_concat]
    cases lastFree : last.free with
    | false =>
        simp only [Bool.false_eq_true, if_false]
        refine separated_append.mpr ⟨front, merged, ?_⟩
        simp [lastFree]
    | true =>
        simp only [if_true]
        refine separated_append.mpr ⟨startApart, coalesce_separated merged, ?_⟩
        intro before member first head free
        rw [coalesce_head first head]
        exact startJoint before member last (by simp) free

theorem releaseBlock_roomy (roomy : Roomy (before ++ block :: rest)) :
    Roomy (releaseBlock before block rest) := by
  simp only [Roomy, List.forall_mem_append, List.forall_mem_cons] at roomy
  have merged : Roomy (coalesce { block with free := true } rest) := by
    apply coalesce_roomy
    simp only [Roomy, List.forall_mem_cons]
    exact roomy.2
  rcases List.eq_nil_or_concat before with empty | ⟨start, last, shape⟩
  · subst empty
    exact merged
  · rw [List.concat_eq_append] at shape
    subst shape
    simp only [List.forall_mem_append, List.forall_mem_singleton] at roomy
    simp only [releaseBlock, List.getLast?_append, List.getLast?_singleton, Option.some_or,
      List.dropLast_concat]
    cases lastFree : last.free with
    | false =>
        simp only [Bool.false_eq_true, if_false, Roomy, List.forall_mem_append,
          List.forall_mem_singleton]
        exact ⟨roomy.1, merged⟩
    | true =>
        simp only [if_true, Roomy, List.forall_mem_append]
        refine ⟨roomy.1.1, coalesce_roomy ?_⟩
        simp only [Roomy, List.forall_mem_cons]
        exact ⟨roomy.1.2, merged⟩

theorem releaseBlock_live (address : Nat) :
    livePayloads address (releaseBlock before block rest) =
      livePayloads address (before ++ { block with free := true } :: rest) := by
  have merged (place : Nat) : livePayloads place (coalesce { block with free := true } rest) =
      livePayloads place ({ block with free := true } :: rest) := livePayloads_coalesce rfl
  rcases List.eq_nil_or_concat before with empty | ⟨start, last, shape⟩
  · subst empty
    exact merged address
  · rw [List.concat_eq_append] at shape
    subst shape
    simp only [releaseBlock, List.getLast?_append, List.getLast?_singleton, Option.some_or,
      List.dropLast_concat]
    cases lastFree : last.free with
    | false =>
        simp only [Bool.false_eq_true, if_false]
        rw [livePayloads_append, merged, ← livePayloads_append]
    | true =>
        simp only [if_true]
        rw [livePayloads_append, livePayloads_coalesce lastFree, List.append_assoc,
          livePayloads_append, List.singleton_append]
        simp only [livePayloads, lastFree, if_true]
        rw [merged]
        simp [livePayloads]

theorem kfree_spec (heap : HeapInvariant storage mem blocks)
    (live : (ptr, size) ∈ livePayloads storage.address blocks) :
    ∃ released after, HeapInvariant storage (kfree storage.address mem ptr) after ∧
      livePayloads storage.address after = livePayloads storage.address released ∧
      (livePayloads storage.address blocks).Perm
        ((ptr, size) :: livePayloads storage.address released) ∧
      Framed storage mem (kfree storage.address mem ptr) storage.address released := by
  obtain ⟨before, block, rest, rfl, used, rfl, rfl⟩ := live_block live
  obtain ⟨tiled, framed⟩ := kfree_blocks heap.tiled used
  refine ⟨_, _, ⟨tiled, releaseBlock_separated heap.separated, releaseBlock_roomy heap.roomy⟩,
    releaseBlock_live _, ?_, framed⟩
  rw [livePayloads_append, livePayloads_append]
  simp only [livePayloads, used, Bool.false_eq_true, if_false, if_true]
  exact List.perm_middle

end Free

/-- Every payload in use but the one at `target` stays in use with its size and bytes. -/
def OthersKept (storage : HeapStorage) (mem changed : Mem) (blocks after : List HeapBlock)
    (target : Nat) : Prop :=
  ∀ ptr size, (ptr, size) ∈ livePayloads storage.address blocks → ptr ≠ target →
    (ptr, size) ∈ livePayloads storage.address after ∧
      ∀ byte, ptr ≤ byte → byte < ptr + size → changed byte = mem byte

def livePointers (storage : HeapStorage) (blocks : List HeapBlock) : List Nat :=
  (livePayloads storage.address blocks).map Prod.fst

section Effects

variable {storage : HeapStorage} {mem changed : Mem} {blocks : List HeapBlock} {ptr size : Nat}

theorem livePointers_nodup (storage : HeapStorage) (blocks : List HeapBlock) :
    (livePointers storage blocks).Nodup := by
  rw [livePointers, List.Nodup, List.pairwise_map]
  apply (livePayloads_pairwise storage.address blocks).imp
  intro first second apart
  simp only [headerSize] at apart
  omega

def Apart (first second : Nat × Nat) : Prop :=
  first.1 + first.2 ≤ second.1 ∨ second.1 + second.2 ≤ first.1

instance : Std.Symm Apart := ⟨fun _ _ => Or.symm⟩

theorem livePayloads_apart (address : Nat) (blocks : List HeapBlock) :
    (livePayloads address blocks).Pairwise Apart := by
  apply (livePayloads_pairwise address blocks).imp
  intro first second apart
  exact Or.inl (by omega)

theorem live_disjoint {other amount : Nat} (live : (ptr, size) ∈ livePayloads storage.address blocks)
    (otherLive : (other, amount) ∈ livePayloads storage.address blocks) (apart : other ≠ ptr) :
    other + amount ≤ ptr ∨ ptr + size ≤ other :=
  (livePayloads_apart storage.address blocks).forall otherLive live (by simp [apart])

theorem Blocks.live_header (tiled : Blocks mem stop prev address blocks)
    (live : (ptr, size) ∈ livePayloads address blocks) :
    ∃ before after, HeaderAt mem (ptr - headerSize) ⟨size, false⟩ before after := by
  obtain ⟨before, block, rest, rfl, used, rfl, rfl⟩ := live_block live
  have header := tiled.drop.1
  rw [Nat.add_sub_cancel]
  have same : (⟨block.size, false⟩ : HeapBlock) = block := by
    rw [← used]
  rw [same]
  exact ⟨_, _, header⟩

theorem payload_write (heap : HeapInvariant storage mem blocks)
    (live : (ptr, size) ∈ livePayloads storage.address blocks)
    (outside : ∀ byte, byte < ptr ∨ ptr + size ≤ byte → changed byte = mem byte) :
    HeapInvariant storage changed blocks ∧ OthersKept storage mem changed blocks blocks ptr := by
  refine ⟨⟨heap.tiled.frame ?_, heap.separated, heap.roomy⟩, ?_⟩
  · intro byte header
    apply outside
    by_contra inside
    exact (mem_livePayloads live (by omega) (by omega)).not_header header
  · intro other amount otherLive apart
    refine ⟨otherLive, fun byte lower upper => outside byte ?_⟩
    have disjoint := live_disjoint live otherLive apart
    omega

theorem OthersKept.trans {middle : Mem} {target : Nat}
    (first : OthersKept storage mem middle blocks between target)
    (second : OthersKept storage middle changed between after target) :
    OthersKept storage mem changed blocks after target := by
  intro other amount live apart
  obtain ⟨between, same⟩ := first other amount live apart
  obtain ⟨after, sameAgain⟩ := second other amount between apart
  exact ⟨after, fun byte lower upper =>
    (sameAgain byte lower upper).trans (same byte lower upper)⟩

theorem OthersKept.refl {target : Nat} : OthersKept storage mem mem blocks blocks target :=
  fun _ _ live _ => ⟨live, fun _ _ _ => rfl⟩

/-- What an allocation that succeeds does: one more payload, none of the others touched. -/
structure Allocates (storage : HeapStorage) (mem changed : Mem) (blocks after : List HeapBlock)
    (ptr granted : Nat) : Prop where
  heap : HeapInvariant storage changed after
  live : (livePayloads storage.address after).Perm
    ((ptr, granted) :: livePayloads storage.address blocks)
  kept : ∀ target, OthersKept storage mem changed blocks after target

theorem Allocates.member {granted : Nat}
    (grants : Allocates storage mem changed blocks after ptr granted) :
    (ptr, granted) ∈ livePayloads storage.address after :=
  grants.live.mem_iff.mpr List.mem_cons_self

theorem Allocates.fresh {granted : Nat}
    (grants : Allocates storage mem changed blocks after ptr granted) {other amount : Nat}
    (live : (other, amount) ∈ livePayloads storage.address blocks) : other ≠ ptr := by
  have nodup := livePointers_nodup storage after
  rw [livePointers, (grants.live.map Prod.fst).nodup_iff, List.map_cons, List.nodup_cons] at nodup
  rintro rfl
  exact nodup.1 (List.mem_map.mpr ⟨_, live, rfl⟩)

theorem Allocates.write {granted : Nat} {written : Mem}
    (grants : Allocates storage mem changed blocks after ptr granted)
    (outside : ∀ byte, byte < ptr ∨ ptr + granted ≤ byte → written byte = changed byte) :
    Allocates storage mem written blocks after ptr granted := by
  obtain ⟨heap, kept⟩ := payload_write grants.heap grants.member outside
  refine ⟨heap, grants.live, ?_⟩
  intro target other amount live apart
  obtain ⟨stays, same⟩ := grants.kept target other amount live apart
  refine ⟨stays, fun byte lower upper => ?_⟩
  rw [(kept other amount stays (grants.fresh live)).2 byte lower upper, same byte lower upper]

theorem Framed.kept (target : Nat) (framed : Framed storage mem changed storage.address blocks)
    (stays : ∀ ptr size, (ptr, size) ∈ livePayloads storage.address blocks →
      (ptr, size) ∈ livePayloads storage.address after) :
    OthersKept storage mem changed blocks after target := by
  intro other amount live _
  refine ⟨stays other amount live, fun byte lower upper => framed byte (Or.inr (Or.inr ?_))⟩
  exact mem_livePayloads live lower upper

theorem kmalloc_allocates (heap : HeapInvariant storage mem blocks) {size : UInt64}
    (bounded : size.toNat ≤ 2 ^ 64 - 8) :
    kmalloc storage.address mem size = (0, mem) ∨
      0 < (kmalloc storage.address mem size).1 ∧
        ∃ after granted, size.toNat ≤ granted ∧
          Allocates storage mem (kmalloc storage.address mem size).2 blocks after
            (kmalloc storage.address mem size).1 granted := by
  rcases kmalloc_spec heap bounded with failed | ⟨after, granted, heap, large, nonNull, live, framed⟩
  · exact Or.inl failed
  · refine Or.inr ⟨nonNull, after, granted, large, heap, live, fun target => framed.kept target ?_⟩
    intro ptr size member
    exact live.mem_iff.mpr (List.mem_cons_of_mem _ member)

theorem kcalloc_allocates (heap : HeapInvariant storage mem blocks) {num size : UInt64}
    (bounded : num.toNat * size.toNat ≤ 2 ^ 64 - 8) :
    kcalloc storage.address mem num size = (0, mem) ∨
      0 < (kcalloc storage.address mem num size).1 ∧
        ∃ after granted, num.toNat * size.toNat ≤ granted ∧
          Allocates storage mem (kcalloc storage.address mem num size).2 blocks after
            (kcalloc storage.address mem num size).1 granted ∧
          ∀ index < num.toNat * size.toNat,
            (kcalloc storage.address mem num size).2
            ((kcalloc storage.address mem num size).1 + index) = 0 := by
  have product : (num * size).toNat = num.toNat * size.toNat := by
    rw [UInt64.toNat_mul]
    exact Nat.mod_eq_of_lt (by omega)
  unfold kcalloc
  split
  · exact Or.inl rfl
  · dsimp only
    split
    · exact Or.inl rfl
    · have request : (num * size).toNat ≤ 2 ^ 64 - 8 := by omega
      rcases kmalloc_allocates heap request with failed | ⟨nonNull, after, granted, large, grants⟩
      · rw [failed]
        exact Or.inl rfl
      · right
        rw [if_neg (by omega)]
        refine ⟨nonNull, after, granted, product ▸ large, grants.write ?_, fun index bound => ?_⟩
        · intro byte outside
          exact Mem.fill_outside _ _ (by omega)
        · exact Mem.fill_inside _ _ (by omega) (by omega)

theorem reallocCopy_outside {block target source limit fuel index byte : Nat}
    (outside : byte < target ∨ target + limit ≤ byte) :
    reallocCopy block target source limit fuel mem index byte = mem byte := by
  induction fuel generalizing mem index with
  | zero => rfl
  | succ fuel ih =>
      rw [reallocCopy]
      split
      · rename_i within
        simp only [Bool.and_eq_true, decide_eq_true_eq] at within
        rw [ih]
        exact Mem.set_other _ _ (by omega)
      · rfl

structure Releases (storage : HeapStorage) (mem changed : Mem) (blocks after : List HeapBlock)
    (ptr size : Nat) : Prop where
  heap : HeapInvariant storage changed after
  live : (livePayloads storage.address blocks).Perm
    ((ptr, size) :: livePayloads storage.address after)
  kept : OthersKept storage mem changed blocks after ptr

theorem kfree_releases (heap : HeapInvariant storage mem blocks)
    (live : (ptr, size) ∈ livePayloads storage.address blocks) :
    ∃ after, Releases storage mem (kfree storage.address mem ptr) blocks after ptr size := by
  obtain ⟨released, after, heap, same, gone, framed⟩ := kfree_spec heap live
  refine ⟨after, heap, by rw [same]; exact gone, ?_⟩
  intro other amount otherLive apart
  have stays : (other, amount) ∈ livePayloads storage.address released := by
    rcases List.mem_cons.mp (gone.mem_iff.mp otherLive) with first | later
    · exact absurd (congrArg Prod.fst first) apart
    · exact later
  refine ⟨by rw [same]; exact stays, fun byte lower upper => framed byte (Or.inr (Or.inr ?_))⟩
  exact mem_livePayloads stays lower upper

theorem HeapInvariant.live_place (heap : HeapInvariant storage mem blocks)
    (live : (ptr, size) ∈ livePayloads storage.address blocks) :
    ptr ≠ 0 ∧ (ptr + 2 ^ 64 - headerSize) % 2 ^ 64 = ptr - headerSize := by
  have bounds := heap.live_bounds live
  simp only [headerSize] at bounds ⊢
  omega

theorem krealloc_live (heap : HeapInvariant storage mem blocks) {request : UInt64}
    (live : (ptr, size) ∈ livePayloads storage.address blocks)
    (bounded : request.toNat ≤ 2 ^ 64 - 8) (nonzero : request ≠ 0) :
    krealloc storage.address mem ptr request = (0, mem) ∨
      krealloc storage.address mem ptr request = (ptr, mem) ∧ request.toNat ≤ size ∨
      0 < (krealloc storage.address mem ptr request).1 ∧
        ∃ between middle after granted, request.toNat ≤ granted ∧
          Allocates storage mem middle blocks between
            (krealloc storage.address mem ptr request).1 granted ∧
          Releases storage middle (krealloc storage.address mem ptr request).2 between after
            ptr size := by
  obtain ⟨_, _, header⟩ := heap.tiled.live_header live
  have bounds := heap.live_bounds live
  obtain ⟨nonNull, back⟩ := heap.live_place live
  unfold krealloc
  simp only [if_neg nonNull, if_neg nonzero, back, header.magic, header.size, ne_eq, not_true, if_false]
  split
  · rename_i enough
    exact Or.inr (Or.inl ⟨rfl, enough⟩)
  · rcases kmalloc_allocates heap bounded with failed | ⟨positive, between, granted, large, grants⟩
    · rw [failed]
      exact Or.inl rfl
    · rw [if_neg (by omega)]
      have copied : Allocates storage mem (reallocCopy (ptr - headerSize)
          (kmalloc storage.address mem request).1 ptr request.toNat request.toNat
          (kmalloc storage.address mem request).2 0) blocks between
          (kmalloc storage.address mem request).1 granted := by
        apply grants.write
        intro byte outside
        exact reallocCopy_outside (by omega)
      have still : (ptr, size) ∈ livePayloads storage.address between :=
        grants.live.mem_iff.mpr (List.mem_cons_of_mem _ live)
      obtain ⟨after, releases⟩ := kfree_releases copied.heap still
      exact Or.inr (Or.inr ⟨positive, between, _, after, granted, large, copied, releases⟩)

end Effects

structure HeapState where
  mem : Mem
  live : List Nat

inductive HeapCall where
  | kmalloc (size : UInt64)
  | kcalloc (num size : UInt64)
  | krealloc (ptr : Nat) (size : UInt64)
  | kfree (ptr : Nat)
  | write (ptr offset : Nat) (value : UInt8)

def HeapCall.target : HeapCall → Nat
  | .kmalloc _ => 0
  | .kcalloc _ _ => 0
  | .krealloc ptr _ => ptr
  | .kfree ptr => ptr
  | .write ptr _ _ => ptr

def maxRequest : Nat := 2 ^ 64 - 8

def payloadSize (mem : Mem) (ptr : Nat) : Nat := blockSize mem (ptr - headerSize)

def hold (live : List Nat) (ptr : Nat) : List Nat := if ptr = 0 then live else ptr :: live

/-- One call; `none` when the caller breaks its side of the contract. -/
def heapStep (storage : Nat) (state : HeapState) : HeapCall → Option HeapState
  | .kmalloc size =>
      if size.toNat ≤ maxRequest then
        let (ptr, mem) := kmalloc storage state.mem size
        some ⟨mem, hold state.live ptr⟩
      else none
  | .kcalloc num size =>
      if num.toNat * size.toNat ≤ maxRequest then
        let (ptr, mem) := kcalloc storage state.mem num size
        some ⟨mem, hold state.live ptr⟩
      else none
  | .krealloc ptr size =>
      if (ptr = 0 || state.live.contains ptr) && size.toNat ≤ maxRequest then
        let (moved, mem) := krealloc storage state.mem ptr size
        -- a failed resize leaves the old pointer with its holder
        if size = 0 then some ⟨mem, state.live.erase ptr⟩
        else if moved = 0 then some ⟨mem, state.live⟩
        else some ⟨mem, moved :: state.live.erase ptr⟩
      else none
  | .kfree ptr =>
      if ptr = 0 || state.live.contains ptr then
        some ⟨kfree storage state.mem ptr, state.live.erase ptr⟩
      else none
  | .write ptr offset value =>
      if state.live.contains ptr && offset < payloadSize state.mem ptr then
        some ⟨state.mem.set (ptr + offset) value, state.live⟩
      else none

def heapStart (storage : Nat) (mem : Mem) : HeapState := ⟨heapInit storage mem, []⟩

structure HeapIntact (storage : HeapStorage) (state : HeapState) (blocks : List HeapBlock) :
    Prop where
  heap : HeapInvariant storage state.mem blocks
  live : state.live.Perm (livePointers storage blocks)

def StepEffect (storage : HeapStorage) (state next : HeapState) (blocks : List HeapBlock)
    (target : Nat) : Prop :=
  ∃ after, HeapIntact storage next after ∧
    OthersKept storage state.mem next.mem blocks after target

section Steps

variable {storage : HeapStorage} {state next : HeapState} {blocks : List HeapBlock}

section

variable (intact : HeapIntact storage state blocks)
include intact

theorem HeapIntact.mem_live {ptr : Nat}
    (held : ptr ∈ state.live) : ∃ size, (ptr, size) ∈ livePayloads storage.address blocks := by
  obtain ⟨⟨pointer, size⟩, member, rfl⟩ := List.mem_map.mp (intact.live.mem_iff.mp held)
  exact ⟨size, member⟩

theorem HeapIntact.null_not_held : 0 ∉ state.live := by
  intro held
  obtain ⟨size, member⟩ := intact.mem_live held
  have lower := livePayloads_lower member
  simp only [headerSize] at lower
  omega

theorem HeapIntact.unchanged (target : Nat) :
    StepEffect storage state state blocks target := ⟨blocks, intact, OthersKept.refl⟩

theorem Allocates.step {mem : Mem} {ptr granted : Nat} (target : Nat) (nonNull : 0 < ptr)
    (grants : Allocates storage state.mem mem blocks after ptr granted) :
    StepEffect storage state ⟨mem, hold state.live ptr⟩ blocks target := by
  refine ⟨after, ⟨grants.heap, ?_⟩, grants.kept target⟩
  rw [hold, if_neg (by omega)]
  exact (intact.live.cons ptr).trans (grants.live.map Prod.fst).symm

end

theorem Releases.live_erase {mem changed : Mem}
    {live : List Nat} (releases : Releases storage mem changed blocks after ptr size)
    (held : live.Perm (livePointers storage blocks)) :
    (live.erase ptr).Perm (livePointers storage after) := by
  have gone := (held.trans (releases.live.map Prod.fst)).erase ptr
  simpa [livePointers] using gone

section

variable (intact : HeapIntact storage state blocks)
include intact

theorem step_kmalloc {size : UInt64}
    (stepped : heapStep storage.address state (.kmalloc size) = some next) :
    StepEffect storage state next blocks 0 := by
  rw [heapStep] at stepped
  split at stepped
  · rename_i bounded
    simp only [Option.some.injEq] at stepped
    subst stepped
    rcases kmalloc_allocates intact.heap bounded with failed | ⟨nonNull, after, granted, _, grants⟩
    · rw [failed]
      exact intact.unchanged 0
    · exact grants.step intact 0 nonNull
  · contradiction

theorem step_kcalloc {num size : UInt64}
    (stepped : heapStep storage.address state (.kcalloc num size) = some next) :
    StepEffect storage state next blocks 0 := by
  rw [heapStep] at stepped
  split at stepped
  · rename_i bounded
    simp only [Option.some.injEq] at stepped
    subst stepped
    rcases kcalloc_allocates intact.heap bounded with failed | ⟨nonNull, after, granted, _, grants, _⟩
    · rw [failed]
      exact intact.unchanged 0
    · exact grants.step intact 0 nonNull
  · contradiction

theorem step_kfree {ptr : Nat} (stepped : heapStep storage.address state (.kfree ptr) = some next) :
    StepEffect storage state next blocks ptr := by
  rw [heapStep] at stepped
  split at stepped
  · rename_i allowed
    simp only [Option.some.injEq] at stepped
    subst stepped
    by_cases null : ptr = 0
    · subst null
      rw [List.erase_of_not_mem intact.null_not_held]
      exact intact.unchanged 0
    · have held : ptr ∈ state.live := by simpa [null] using allowed
      obtain ⟨size, live⟩ := intact.mem_live held
      obtain ⟨after, releases⟩ := kfree_releases intact.heap live
      exact ⟨after, ⟨releases.heap, releases.live_erase intact.live⟩, releases.kept⟩
  · contradiction

theorem step_write {ptr offset : Nat} {value : UInt8}
    (stepped : heapStep storage.address state (.write ptr offset value) = some next) :
    StepEffect storage state next blocks ptr := by
  rw [heapStep] at stepped
  split at stepped
  · rename_i allowed
    simp only [Option.some.injEq] at stepped
    subst stepped
    simp only [Bool.and_eq_true, List.contains_iff_mem, decide_eq_true_eq] at allowed
    obtain ⟨size, live⟩ := intact.mem_live allowed.1
    obtain ⟨_, _, header⟩ := intact.heap.tiled.live_header live
    have inside : offset < size := by
      have bound := allowed.2
      rwa [payloadSize, header.size] at bound
    have outside : ∀ byte, byte < ptr ∨ ptr + size ≤ byte →
        state.mem.set (ptr + offset) value byte = state.mem byte :=
      fun byte apart => Mem.set_other _ _ (by omega)
    obtain ⟨heap, kept⟩ := payload_write intact.heap live outside
    exact ⟨blocks, ⟨heap, intact.live⟩, kept⟩
  · contradiction

end

theorem krealloc_null (mem : Mem) (size : UInt64) :
    krealloc storage.address mem 0 size = kmalloc storage.address mem size := rfl

theorem krealloc_zero {mem : Mem} {ptr : Nat} (nonNull : ptr ≠ 0) :
    krealloc storage.address mem ptr 0 = (0, kfree storage.address mem ptr) := by
  simp [krealloc, nonNull]

section

variable (intact : HeapIntact storage state blocks)
include intact

theorem Allocates.moved_intact {middle changed : Mem} {ptr size moved granted : Nat}
    (live : (ptr, size) ∈ livePayloads storage.address blocks)
    (grants : Allocates storage state.mem middle blocks between moved granted)
    (releases : Releases storage middle changed between after ptr size) :
    HeapIntact storage ⟨changed, moved :: state.live.erase ptr⟩ after := by
  refine ⟨releases.heap, ?_⟩
  have holding : (moved :: state.live).Perm (livePointers storage between) :=
    (intact.live.cons moved).trans (grants.live.map Prod.fst).symm
  have erased := releases.live_erase holding
  rwa [List.erase_cons_tail (by simpa using (grants.fresh live).symm)] at erased

theorem Allocates.move {middle changed : Mem} {ptr size moved granted : Nat}
    (live : (ptr, size) ∈ livePayloads storage.address blocks)
    (grants : Allocates storage state.mem middle blocks between moved granted)
    (releases : Releases storage middle changed between after ptr size) :
    StepEffect storage state ⟨changed, moved :: state.live.erase ptr⟩ blocks ptr :=
  ⟨after, grants.moved_intact intact live releases, (grants.kept ptr).trans releases.kept⟩

theorem step_krealloc {ptr : Nat} {size : UInt64}
    (stepped : heapStep storage.address state (.krealloc ptr size) = some next) :
    StepEffect storage state next blocks ptr := by
  rw [heapStep] at stepped
  split at stepped
  · rename_i allowed
    simp only [Bool.and_eq_true, Bool.or_eq_true, decide_eq_true_eq, List.contains_iff_mem]
      at allowed
    by_cases null : ptr = 0
    · -- a resize of the null pointer is an allocation
      subst null
      have malloced : heapStep storage.address state (.kmalloc size) = some next := by
        rw [heapStep, if_pos allowed.2, ← stepped, krealloc_null,
          List.erase_of_not_mem intact.null_not_held]
        simp only [hold]
        by_cases zero : size = 0
        · simp [zero, kmalloc]
        · simp only [if_neg zero]
          split <;> rfl
      exact step_kmalloc intact malloced
    · have held : ptr ∈ state.live := allowed.1.resolve_left null
      by_cases zero : size = 0
      · subst zero
        rw [krealloc_zero null] at stepped
        have freed : heapStep storage.address state (.kfree ptr) = some next := by
          rw [heapStep, if_pos (by simp [held]), ← stepped]
          rfl
        exact step_kfree intact freed
      · obtain ⟨amount, live⟩ := intact.mem_live held
        have positive : ptr ≠ 0 := null
        simp only [if_neg zero] at stepped
        rcases krealloc_live intact.heap live allowed.2 zero with
          failed | ⟨kept, _⟩ | ⟨nonNull, between, middle, after, granted, _, grants, releases⟩
        · rw [failed] at stepped
          simp only [if_true, Option.some.injEq] at stepped
          subst stepped
          exact intact.unchanged ptr
        · rw [kept] at stepped
          simp only [if_neg positive, Option.some.injEq] at stepped
          subst stepped
          refine ⟨blocks, ⟨intact.heap, ?_⟩, OthersKept.refl⟩
          exact (List.perm_cons_erase held).symm.trans intact.live
        · rw [if_neg (by omega)] at stepped
          simp only [Option.some.injEq] at stepped
          subst stepped
          exact grants.move intact live releases
  · contradiction

theorem heapStep_effect {call : HeapCall}
    (stepped : heapStep storage.address state call = some next) :
    StepEffect storage state next blocks call.target := by
  cases call with
  | kmalloc size => exact step_kmalloc intact stepped
  | kcalloc num size => exact step_kcalloc intact stepped
  | krealloc ptr size => exact step_krealloc intact stepped
  | kfree ptr => exact step_kfree intact stepped
  | write ptr offset value => exact step_write intact stepped

end

theorem heapStart_intact (storage : HeapStorage) (mem : Mem) :
    HeapIntact storage (heapStart storage.address mem) [⟨heapBytes - headerSize, true⟩] :=
  ⟨heapInit_spec storage mem, List.Perm.refl _⟩

end Steps

def payloadOf (mem : Mem) (ptr : Nat) : Nat × Nat := (ptr, payloadSize mem ptr)

theorem HeapIntact.payloads {storage : HeapStorage} {state : HeapState}
    (intact : HeapIntact storage state blocks) :
    (state.live.map (payloadOf state.mem)).Perm (livePayloads storage.address blocks) := by
  have same : (livePointers storage blocks).map (payloadOf state.mem) =
      livePayloads storage.address blocks := by
    rw [livePointers, List.map_map]
    conv_rhs => rw [← List.map_id (livePayloads storage.address blocks)]
    apply List.map_congr_left
    rintro ⟨ptr, size⟩ member
    obtain ⟨_, _, header⟩ := intact.heap.tiled.live_header member
    simp [payloadOf, payloadSize, header.size]
  rw [← same]
  exact intact.live.map _

/-- After any calls that respect the contract the headers describe a list of blocks that
tiles the storage with inverse links and intact magics, no two free blocks touch, the
pointers held are those of the blocks in use, their payloads are disjoint, and one more
call leaves every other payload where and as it was. -/
theorem heap_calls_keep_blocks (storage : HeapStorage) (mem : Mem) (calls : List HeapCall)
    (state : HeapState)
    (reached : runActions (heapStep storage.address) (heapStart storage.address mem) calls =
      some state) :
    (∃ blocks, Blocks state.mem storage.stop 0 storage.address blocks ∧
      (blocks.map fun block => headerSize + block.size).sum = heapBytes ∧
      Separated blocks ∧
      (state.live.map (payloadOf state.mem)).Perm (livePayloads storage.address blocks)) ∧
    (state.live.map (payloadOf state.mem)).Pairwise Apart ∧
    ∀ call next, heapStep storage.address state call = some next →
      ∀ ptr ∈ state.live, ptr ≠ call.target →
        ptr ∈ next.live ∧ payloadSize next.mem ptr = payloadSize state.mem ptr ∧
          ∀ offset < payloadSize state.mem ptr,
            next.mem (ptr + offset) = state.mem (ptr + offset) := by
  have invariant : ∃ blocks, HeapIntact storage state blocks := by
    refine @runActions_invariant _ _ _ (fun state => ∃ blocks, HeapIntact storage state blocks) ?_
      _ _ _ ⟨_, heapStart_intact storage mem⟩ reached
    rintro before call after ⟨blocks, intact⟩ stepped
    obtain ⟨later, kept, _⟩ := heapStep_effect intact stepped
    exact ⟨later, kept⟩
  obtain ⟨blocks, intact⟩ := invariant
  have payloads := intact.payloads
  refine ⟨⟨blocks, intact.heap.tiled, intact.heap.bytes, intact.heap.separated, payloads⟩, ?_, ?_⟩
  · exact payloads.symm.pairwise (livePayloads_apart storage.address blocks) Or.symm
  · intro call next stepped ptr held apart
    obtain ⟨after, nextIntact, kept⟩ := heapStep_effect intact stepped
    obtain ⟨size, live⟩ := intact.mem_live held
    obtain ⟨stays, same⟩ := kept ptr size live apart
    obtain ⟨_, _, header⟩ := intact.heap.tiled.live_header live
    obtain ⟨_, _, nextHeader⟩ := nextIntact.heap.tiled.live_header stays
    have sized : payloadSize state.mem ptr = size := header.size
    refine ⟨?_, ?_, ?_⟩
    · exact nextIntact.live.mem_iff.mpr (List.mem_map.mpr ⟨_, stays, rfl⟩)
    · rw [sized]
      exact nextHeader.size
    · intro offset bound
      exact same _ (by omega) (by omega)

def lowStorage : HeapStorage := ⟨0x100000, by decide, by decide⟩

theorem heap_calls_two_blocks : ∃ state,
    runActions (heapStep lowStorage.address) (heapStart lowStorage.address fun _ => 0)
      [.kmalloc 24, .kcalloc 2 8, .write 0x100028 3 7, .krealloc 0x100028 100, .kfree 0x100068] =
        some state ∧
      ∃ blocks, Blocks state.mem lowStorage.stop 0 lowStorage.address blocks ∧
        Separated blocks := by
  have runs : (runActions (heapStep lowStorage.address)
      (heapStart lowStorage.address fun _ => 0)
      [.kmalloc 24, .kcalloc 2 8, .write 0x100028 3 7, .krealloc 0x100028 100,
        .kfree 0x100068]).isSome = true := by
    decide +kernel
  obtain ⟨state, reached⟩ := Option.isSome_iff_exists.mp runs
  obtain ⟨⟨blocks, tiled, _, separated, _⟩, _⟩ :=
    heap_calls_keep_blocks lowStorage (fun _ => 0) _ state reached
  exact ⟨state, reached, blocks, tiled, separated⟩

end Szczupak
