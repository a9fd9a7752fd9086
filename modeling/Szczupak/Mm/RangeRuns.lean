import Szczupak.Lib.Transition
import Szczupak.Mm.KernelRanges

/-!
Runs of `vmm_alloc_pages` and `vmm_free_pages`.  An outstanding range keeps its frames from everyone
else, and freeing it gives back these frames; the cursor knows of no mapping it did not make itself.
-/

namespace Szczupak

structure KernelRange where
  virt : UInt64
  count : UInt64
  frames : List Nat

structure RangeTrace where
  vmm : Vmm
  live : List KernelRange

inductive RangeCall
  | allocPages (count : UInt64)
  | freePages (virt count : UInt64)

def framesOf (ram : Mem) (root : Nat) (virt : UInt64) (count : Nat) : List Nat :=
  (List.range count).map fun index => vmmGetPhysical ram root (pageAt virt index) / pageSize

def RangeTrace.step (kernelRoot : Nat) (trace : RangeTrace) : RangeCall → Option RangeTrace
  | .allocPages count =>
      match vmmAllocPages kernelRoot trace.vmm count with
      | none => none
      | some (result, vmm) =>
          let given := { virt := result, count, frames := framesOf vmm.pmm.ram kernelRoot result count.toNat }
          some { vmm, live := if result = 0 then trace.live else given :: trace.live }
  | .freePages virt count =>
      some { vmm := vmmFreePages kernelRoot trace.vmm virt count
             live := trace.live.filter fun range => !(range.virt == virt && range.count == count) }

def RangeTrace.boot (pmm : Pmm) : RangeTrace := ⟨⟨pmm, 0xFFFF800100000000⟩, []⟩

/-- Every page of the range was unmapped and now has a frame of its own that this call reserved. -/
structure GivesRange (root : Nat) (pmm after : Pmm) (virt : UInt64) (count : Nat) : Prop where
  unmapped : ∀ index < count, PageUnmapped pmm.ram root (pageAt virt index)
  mapped : ∀ index < count, ∃ frame, 0 < frame ∧ ∀ other : UInt64,
    other.toNat / pageSize = (pageAt virt index).toNat / pageSize →
      vmmGetPhysical after.ram root other = frame * pageSize + other.toNat % pageSize
  distinct : (framesOf after.ram root virt count).Nodup
  reserved : ∀ frame ∈ framesOf after.ram root virt count, frame ∉ usedSet pmm ∧ frame ∈ usedSet after

structure TakesNothing (root : Nat) (pmm after : Pmm) : Prop where
  same : ∀ other, isCanonical other = true → vmmGetPhysical after.ram root other =
    vmmGetPhysical pmm.ram root other
  used : usedSet after = usedSet pmm

def RangeHolds (root : Nat) (trace : RangeTrace) : RangeCall → Prop
  | .allocPages count => ∃ result vmm, vmmAllocPages root trace.vmm count = some (result, vmm) ∧
      (result ≠ 0 → GivesRange root trace.vmm.pmm vmm.pmm result count.toNat) ∧
      (result = 0 → TakesNothing root trace.vmm.pmm vmm.pmm)
  | .freePages virt count => ∀ range ∈ trace.live, range.virt = virt → range.count = count →
      usedSet (vmmFreePages root trace.vmm virt count).pmm = usedSet trace.vmm.pmm \ range.frames.toFinset

/-- An allocation takes nothing, or its range meets no other mapping and the pool can pay for it; a
range is freed as it was given. -/
def RangeSpares (root : Nat) (boot : Mem) (trace : RangeTrace) : RangeCall → Prop
  | .allocPages count =>
      count.toUInt32 = 0 ∨ (¬∃ page, ClearRun trace.vmm.pmm page count.toUInt32.toNat) ∨
        isCanonical trace.vmm.nextVirtAddr = false ∨
        (trace.vmm.nextVirtAddr ≠ 0 ∧ RangeFits trace.vmm.nextVirtAddr count.toNat ∧
          RangeUnmapped boot root trace.vmm.nextVirtAddr count.toNat ∧
          (∀ range ∈ trace.live, ∀ other, isCanonical other = true →
            pageNumber trace.vmm.nextVirtAddr other < count.toNat →
            ¬pageNumber range.virt other < range.count.toNat) ∧
          RangeAffordable root trace.vmm.pmm trace.vmm.nextVirtAddr count.toNat)
  | .freePages virt count => virt = 0 ∨ count = 0 ∨ ∃ range ∈ trace.live, range.virt = virt ∧
    range.count = count

structure RangeLive (root : Nat) (boot : Mem) (pmm : Pmm) (range : KernelRange) : Prop where
  fits : RangeFits range.virt range.count.toNat
  real : range.virt ≠ 0
  positive : 0 < range.count.toNat
  fresh : RangeUnmapped boot root range.virt range.count.toNat
  placed : ∀ index < range.count.toNat, nodeAt pmm.ram root (tablePath (pageAt range.virt index)) ≠ none
  maps : ∃ page, 0 < page ∧ range.frames = List.range' page range.count.toNat ∧
    ∀ other, isCanonical other = true → pageNumber range.virt other < range.count.toNat →
      vmmGetPhysical pmm.ram root other =
        (page + pageNumber range.virt other) * pageSize + other.toNat % pageSize
  used : ∀ frame ∈ range.frames, frame ∈ usedSet pmm
  noTable : ∀ path table, PathUpTo 3 path → nodeAt pmm.ram root path = some table →
    table / pageSize ∉ range.frames

def RangesApart (left right : KernelRange) : Prop :=
  (∀ other, isCanonical other = true → pageNumber left.virt other < left.count.toNat →
    ¬pageNumber right.virt other < right.count.toNat) ∧ ∀ frame ∈ left.frames, frame ∉ right.frames

structure RangeReady (root : Nat) (boot : Mem) (trace : RangeTrace) : Prop where
  dir : Directory trace.vmm.pmm root
  first : FirstPageHeld trace.vmm.pmm
  live : ∀ range ∈ trace.live, RangeLive root boot trace.vmm.pmm range
  apart : trace.live.Pairwise RangesApart
  others : ∀ other, isCanonical other = true →
    (∀ range ∈ trace.live, ¬pageNumber range.virt other < range.count.toNat) →
    vmmGetPhysical trace.vmm.pmm.ram root other = vmmGetPhysical boot root other

section Live

variable {root : Nat} {boot : Mem} {pmm after : Pmm} {range : KernelRange}

theorem RangesApart.symm {left right : KernelRange} (apart : RangesApart left right) :
    RangesApart right left := by
  constructor
  · intro other canonical inside within
    exact apart.1 other canonical within inside
  · intro frame inside within
    exact apart.2 frame within inside

instance : Std.Symm RangesApart := ⟨fun _ _ => RangesApart.symm⟩

theorem RangeLive.keep (live : RangeLive root boot pmm range)
    (stays : ∀ path table, PathUpTo 3 path → nodeAt pmm.ram root path = some table →
      nodeAt after.ram root path = some table)
    (tables : ∀ path table, PathUpTo 3 path → nodeAt after.ram root path = some table →
      nodeAt pmm.ram root path = some table ∨ table / pageSize ∉ range.frames)
    (used : ∀ frame ∈ range.frames, frame ∈ usedSet after)
    (same : ∀ other, isCanonical other = true → pageNumber range.virt other < range.count.toNat →
      vmmGetPhysical after.ram root other = vmmGetPhysical pmm.ram root other) :
      RangeLive root boot after range := by
  refine ⟨live.fits, live.real, live.positive, live.fresh, ?_, ?_, used, ?_⟩
  · intro index bound
    obtain ⟨table, found⟩ := Option.ne_none_iff_exists'.mp (live.placed index bound)
    rw [stays _ table (tablePath_valid _) found]
    simp
  · obtain ⟨page, positive, frames, maps⟩ := live.maps
    refine ⟨page, positive, frames, fun other canonical inside => ?_⟩
    rw [same other canonical inside, maps other canonical inside]
  · intro path table valid found
    rcases tables path table valid found with before | apart
    · exact live.noTable path table valid before
    · exact apart

theorem RangeLive.free {vmm : Vmm} (live : RangeLive root boot vmm.pmm range)
    (dir : Directory vmm.pmm root) :
    Directory (vmmFreePages root vmm range.virt range.count).pmm root ∧
      SameBounds vmm.pmm (vmmFreePages root vmm range.virt range.count).pmm ∧
      usedSet (vmmFreePages root vmm range.virt range.count).pmm = usedSet vmm.pmm \ range.frames.toFinset ∧
      (∀ path, PathUpTo 3 path → nodeAt (vmmFreePages root vmm range.virt range.count).pmm.ram root
        path = nodeAt vmm.pmm.ram root path) ∧
      ∀ other, isCanonical other = true →
        vmmGetPhysical (vmmFreePages root vmm range.virt range.count).pmm.ram root other =
          if pageNumber range.virt other < range.count.toNat then 0
            else vmmGetPhysical vmm.pmm.ram root other := by
  obtain ⟨page, positive, frames, maps⟩ := live.maps
  have start : pageAt range.virt 0 = range.virt := by simp [pageAt]
  have number : pageNumber range.virt range.virt = 0 := by simp [pageNumber]
  have canonical := live.fits.canonical 0 live.positive
  rw [start] at canonical
  have physical : vmmGetPhysical vmm.pmm.ram root range.virt = page * pageSize := by
    rw [maps range.virt canonical (number ▸ live.positive), number, live.fits.aligned,
      Nat.add_zero, Nat.add_zero]
  have real : page * pageSize ≠ 0 := Nat.mul_ne_zero (Nat.ne_of_gt positive) (by decide)
  have nonzero : range.count ≠ 0 := by
    intro zero
    have asked := live.positive
    rw [zero] at asked
    exact absurd asked (by decide)
  have short : range.count.toUInt32.toNat = range.count.toNat := by
    rw [UInt64.toNat_toUInt32, Nat.mod_eq_of_lt live.fits.short]
  have covers : range.frames.toFinset = Finset.Ico page (page + range.count.toNat) := by
    ext frame
    simp [frames, List.mem_range'_1]
  have inside : Finset.Ico page (page + range.count.toNat) ⊆ usedSet vmm.pmm := by
    intro frame member
    rw [← covers, List.mem_toFinset] at member
    exact live.used frame member
  have managed : page + range.count.toNat ≤ vmm.pmm.totalPages := by
    have asked := live.positive
    have last := inside (Finset.mem_Ico.mpr ⟨show page ≤ page + (range.count.toNat - 1) by omega, by omega⟩)
    have bound := (mem_usedSet.mp last).1
    omega
  obtain ⟨unmapped, nodes, translates⟩ := unmapPages_spec dir live.fits (Nat.le_refl _) live.placed
  have freed := @pmmFreePages_run page _ unmapped.based range.count.toUInt32 (short ▸ live.positive)
    (short ▸ managed) (short ▸ inside)
  rw [short] at freed
  have result : (vmmFreePages root vmm range.virt range.count).pmm =
      pmmFreePages { vmm.pmm with ram := unmapPages vmm.pmm.ram root range.virt range.count.toNat }
        (page * pageSize) range.count.toUInt32 := by
    unfold vmmFreePages
    rw [if_neg (by simp [live.real, nonzero])]
    simp only [physical, if_neg real, alignDown_of_aligned (Nat.mul_mod_left page pageSize)]
  rw [result]
  refine ⟨unmapped.give_run freed ?_, ⟨freed.bounds.totalPages, freed.bounds.start,
    freed.bounds.stop⟩, ?_, ?_, ?_⟩
  · intro path table valid found
    have before : nodeAt vmm.pmm.ram root path = some table := (nodes path valid).symm.trans found
    rw [← covers, List.mem_toFinset]
    exact live.noTable path table valid before
  · rw [freed.used, covers]
    rfl
  · intro path valid
    rw [freed.ram]
    exact nodes path valid
  · intro other otherCanonical
    rw [freed.ram]
    exact translates other otherCanonical

theorem RangeGiven.frames {start : UInt64} {count page : Nat}
    (given : RangeGiven root start count page pmm after)
    (fits : RangeFits start count) : framesOf after.ram root start count = List.range' page count := by
  rw [framesOf, List.range'_eq_map_range]
  apply List.map_congr_left
  intro index member
  have bound := List.mem_range.mp member
  have short := fits.short
  have number := @pageNumber_pageAt start index fits.aligned (by omega)
  rw [given.translates _ (fits.canonical index bound), number, if_pos bound,
    pageAt_aligned fits.aligned index, Nat.add_zero, Nat.mul_div_cancel _ (by decide)]

theorem RangeLive.apart (live : RangeLive root boot pmm range) {start other : UInt64} {count : Nat}
    (free : RangeUnmapped pmm.ram root start count) (canonical : isCanonical other = true)
    (inside : pageNumber start other < count) : ¬pageNumber range.virt other < range.count.toNat := by
  intro within
  obtain ⟨page, positive, _, maps⟩ := live.maps
  have mapped := maps other canonical within
  rw [free other canonical inside] at mapped
  simp only [pageSize] at mapped
  omega

theorem RangeGiven.live {start count : UInt64} {page : Nat}
    (given : RangeGiven root start count.toNat page pmm after) (dir : Directory pmm root)
    (fits : RangeFits start count.toNat) (real : start ≠ 0) (first : 0 < page)
    (positive : 0 < count.toNat) (fresh : RangeUnmapped boot root start count.toNat) :
    RangeLive root boot after ⟨start, count, framesOf after.ram root start count.toNat⟩ := by
  have frames := given.frames fits
  refine ⟨fits, real, positive, fresh, given.placed, ⟨page, first, frames, ?_⟩, ?_, ?_⟩
  · intro other canonical inside
    rw [given.translates other canonical, if_pos inside]
  · intro frame member
    rw [frames, List.mem_range'_1] at member
    exact given.taken (Finset.mem_Ico.mpr member)
  · intro path table valid found member
    rw [frames, List.mem_range'_1] at member
    have inside := Finset.mem_Ico.mpr member
    rcases given.nodes path table valid found with before | ⟨_, outside⟩
    · exact dir.apart_run given.managed given.fresh valid before inside
    · exact outside inside

theorem RangeGiven.keeps {start : UInt64} {count page : Nat}
    (given : RangeGiven root start count page pmm after)
    (free : RangeUnmapped pmm.ram root start count) (live : RangeLive root boot pmm range) :
    RangeLive root boot after range := by
  refine live.keep given.stays ?_ (fun frame member => given.grows (live.used frame member)) ?_
  · intro path table valid found
    refine (given.nodes path table valid found).imp_right fun apart member => ?_
    exact apart.1 (live.used _ member)
  · intro other canonical inside
    rw [given.translates other canonical, if_neg]
    exact fun within => live.apart free canonical within inside

theorem RangeFailed.keeps (failed : RangeFailed root pmm after)
    (live : RangeLive root boot pmm range) : RangeLive root boot after range := by
  refine live.keep ?_ ?_ ?_ fun other canonical _ => failed.same other canonical
  · intro path table valid found
    exact (failed.nodes path valid).trans found
  · intro path table valid found
    exact Or.inl ((failed.nodes path valid).symm.trans found)
  · intro frame member
    rw [failed.used]
    exact live.used frame member

end Live

section Step

variable {root : Nat} {boot : Mem} {trace next : RangeTrace}

section

variable (ready : RangeReady root boot trace)
include ready

theorem RangeReady.allowed {count : UInt64}
    (spares : RangeSpares root boot trace (.allocPages count)) : RangeAllowed root trace.vmm count := by
  rcases spares with small | noRun | outside | ⟨real, fits, fresh, apart, affordable⟩
  · exact Or.inl small
  · exact Or.inr (Or.inl noRun)
  · exact Or.inr (Or.inr (Or.inl outside))
  · refine Or.inr (Or.inr (Or.inr ⟨real, fits, fun other canonical inside => ?_, affordable⟩))
    rw [ready.others other canonical fun range member => apart range member other canonical inside]
    exact fresh other canonical inside

theorem RangeReady.fresh {start : UInt64} {count : Nat}
    (free : RangeUnmapped trace.vmm.pmm.ram root start count) :
    RangeUnmapped boot root start count := by
  intro other canonical inside
  rw [← ready.others other canonical fun range member =>
    (ready.live range member).apart free canonical inside]
  exact free other canonical inside

theorem RangeReady.alloc {count : UInt64} (spares : RangeSpares root boot trace (.allocPages count))
    (taken : trace.step root (.allocPages count) = some next) : RangeReady root boot next := by
  rw [RangeTrace.step] at taken
  rcases vmmAllocPages_outcome ready.dir ready.first (ready.allowed spares) with
    ⟨after, called, failed⟩ | ⟨page, after, called, real, positive, asked, fits, free, given⟩
  · rw [called] at taken
    simp only [if_true, Option.some.injEq] at taken
    subst taken
    refine ⟨failed.dir, ready.first.of_grows failed.bounds (by rw [failed.used]), ?_, ready.apart, ?_⟩
    · intro range member
      exact failed.keeps (ready.live range member)
    · intro other canonical outside
      exact (failed.same other canonical).trans (ready.others other canonical outside)
  · rw [called] at taken
    simp only [if_neg real, Option.some.injEq] at taken
    subst taken
    refine ⟨given.dir, ready.first.of_grows given.bounds given.grows, ?_, ?_, ?_⟩
    · intro range member
      rcases List.mem_cons.mp member with rfl | old
      · exact given.live ready.dir fits real positive asked (ready.fresh free)
      · exact given.keeps free (ready.live range old)
    · refine List.pairwise_cons.mpr ⟨fun range member => ⟨?_, ?_⟩, ready.apart⟩
      · intro other canonical inside
        exact (ready.live range member).apart free canonical inside
      · intro frame inside within
        rw [given.frames fits, List.mem_range'_1] at inside
        exact Finset.disjoint_left.mp given.fresh (Finset.mem_Ico.mpr inside)
          ((ready.live range member).used frame within)
    · intro other canonical outside
      have notHere := outside _ List.mem_cons_self
      rw [given.translates other canonical, if_neg notHere]
      exact ready.others other canonical fun range member => outside range (List.mem_cons_of_mem _ member)

theorem RangeReady.free {virt count : UInt64}
    (spares : RangeSpares root boot trace (.freePages virt count))
    (taken : trace.step root (.freePages virt count) = some next) : RangeReady root boot next := by
  simp only [RangeTrace.step, Option.some.injEq] at taken
  subst taken
  by_cases nothing : virt = 0 ∨ count = 0
  · have same : vmmFreePages root trace.vmm virt count = trace.vmm := by
      unfold vmmFreePages
      rw [if_pos nothing]
    have kept : (trace.live.filter fun range => !(range.virt == virt && range.count == count)) =
      trace.live := by
      apply List.filter_eq_self.mpr
      intro range member
      have live := ready.live range member
      have nonzero : range.count ≠ 0 := by
        intro zero
        have asked := live.positive
        rw [zero] at asked
        exact absurd asked (by decide)
      rcases nothing with rfl | rfl
      · simp [live.real]
      · simp [nonzero]
    rw [same, kept]
    exact ready
  · obtain ⟨range, member, sameVirt, sameCount⟩ := (or_assoc.mpr spares).resolve_left nothing
    subst sameVirt sameCount
    have live := ready.live range member
    obtain ⟨dir, bounds, used, nodes, translates⟩ := live.free ready.dir
    have kept : ∀ other, other ∈ (trace.live.filter fun other =>
        !(other.virt == range.virt && other.count == range.count)) → other ∈ trace.live ∧
          RangesApart range other := by
      intro other inside
      obtain ⟨old, different⟩ := List.mem_filter.mp inside
      refine ⟨old, ready.apart.forall member old ?_⟩
      rintro rfl
      simp at different
    refine ⟨dir, ⟨ready.first.based.of_sameBounds bounds, ?_⟩, ?_, ready.apart.filter _, ?_⟩
    · rw [used, Finset.mem_sdiff, List.mem_toFinset]
      obtain ⟨page, positive, frames, _⟩ := live.maps
      refine ⟨ready.first.held, ?_⟩
      rw [frames, List.mem_range'_1]
      omega
    · intro other inside
      obtain ⟨old, apart⟩ := kept other inside
      have otherLive := ready.live other old
      refine otherLive.keep ?_ ?_ ?_ ?_
      · intro path table valid found
        exact (nodes path valid).trans found
      · intro path table valid found
        exact Or.inl ((nodes path valid).symm.trans found)
      · intro frame within
        rw [used, Finset.mem_sdiff, List.mem_toFinset]
        exact ⟨otherLive.used frame within, fun freed => apart.2 frame freed within⟩
      · intro address canonical within
        rw [translates address canonical, if_neg fun freed => apart.1 address canonical freed within]
    · intro address canonical outside
      rw [translates address canonical]
      by_cases freed : pageNumber range.virt address < range.count.toNat
      · rw [if_pos freed, live.fresh address canonical freed]
      · rw [if_neg freed]
        refine ready.others address canonical fun other old within => ?_
        by_cases same : other.virt = range.virt ∧ other.count = range.count
        · rw [same.1, same.2] at within
          exact freed within
        · refine outside other (List.mem_filter.mpr ⟨old, ?_⟩) within
          simpa using not_and_or.mp same

theorem RangeReady.step {call : RangeCall} (spares : RangeSpares root boot trace call)
    (taken : trace.step root call = some next) : RangeReady root boot next := by
  cases call with
  | allocPages count => exact ready.alloc spares taken
  | freePages virt count => exact ready.free spares taken

theorem RangeReady.holds {call : RangeCall}
    (spares : RangeSpares root boot trace call) : RangeHolds root trace call := by
  cases call with
  | allocPages count =>
      rcases vmmAllocPages_outcome ready.dir ready.first (ready.allowed spares) with
        ⟨after, called, failed⟩ | ⟨page, after, called, real, positive, asked, fits, free, given⟩
      · exact ⟨0, _, called, fun wrong => absurd rfl wrong, fun _ => ⟨failed.same, failed.used⟩⟩
      · refine ⟨_, _, called, fun _ => ⟨fun index bound => free.single fits bound, ?_, ?_, ?_⟩,
          fun zero => absurd zero real⟩
        · intro index bound
          refine ⟨page + index, by omega, fun other same => ?_⟩
          have short := fits.short
          have here := (pageNumber_iff fits.aligned (by omega)).mpr same
          rw [given.translates other ((canonical_page same).trans (fits.canonical index bound)),
            here, if_pos bound]
        · rw [given.frames fits]
          exact List.nodup_range'
        · intro frame member
          rw [given.frames fits, List.mem_range'_1] at member
          have inside := Finset.mem_Ico.mpr member
          exact ⟨Finset.disjoint_left.mp given.fresh inside, given.taken inside⟩
  | freePages virt count =>
      intro range member sameVirt sameCount
      subst sameVirt sameCount
      exact ((ready.live range member).free ready.dir).2.2.1

end

end Step

section Cursor

variable {root : Nat} {trace next : RangeTrace}

def BelowCursor (trace : RangeTrace) : Prop :=
  ∀ range ∈ trace.live, range.virt.toNat + range.count.toNat * pageSize ≤ trace.vmm.nextVirtAddr.toNat

def CursorStays (trace : RangeTrace) : RangeCall → Prop
  | .allocPages count => trace.vmm.nextVirtAddr.toNat + count.toNat * pageSize < 2 ^ 64
  | .freePages _ _ => True

theorem vmmAllocPages_cursor {vmm after : Vmm} {count result : UInt64}
    (called : vmmAllocPages root vmm count = some (result, after)) :
    after.nextVirtAddr = vmm.nextVirtAddr + count * 4096 ∧
    (result = 0 ∨ result = vmm.nextVirtAddr) := by
  unfold vmmAllocPages at called
  split at called
  · rename_i zero
    cases called
    simp [zero]
  · dsimp only at called
    split at called
    · contradiction
    · split at called
      · cases called
        simp
      · split at called
        · contradiction
        · split at called
          · cases called
            simp
          · cases called
            simp

theorem BelowCursor.step {call : RangeCall} (below : BelowCursor trace) (stays : CursorStays trace call)
    (taken : trace.step root call = some next) : BelowCursor next := by
  cases call with
  | allocPages count =>
      rw [RangeTrace.step] at taken
      cases called : vmmAllocPages root trace.vmm count with
      | none => simp [called] at taken
      | some outcome =>
          obtain ⟨result, vmm⟩ := outcome
          obtain ⟨moved, place⟩ := vmmAllocPages_cursor called
          simp only [called, Option.some.injEq] at taken
          subst taken
          have sum : vmm.nextVirtAddr.toNat = trace.vmm.nextVirtAddr.toNat + count.toNat * pageSize := by
            have page : (4096 : UInt64).toNat = pageSize := rfl
            rw [moved, UInt64.toNat_add, UInt64.toNat_mul, page]
            simp only [CursorStays] at stays
            rw [Nat.mod_eq_of_lt (show count.toNat * pageSize < 2 ^ 64 by omega), Nat.mod_eq_of_lt stays]
          intro range member
          simp only at member ⊢
          split at member
          · have old := below range member
            omega
          · rename_i real
            rcases List.mem_cons.mp member with rfl | old
            · rw [place.resolve_left real, sum]
            · have earlier := below range old
              omega
  | freePages virt count =>
      simp only [RangeTrace.step, Option.some.injEq] at taken
      subst taken
      have still : (vmmFreePages root trace.vmm virt count).nextVirtAddr = trace.vmm.nextVirtAddr := by
        unfold vmmFreePages
        split
        · rfl
        · dsimp only
          split <;> rfl
      intro range member
      simp only [still]
      exact below range (List.mem_of_mem_filter member)

theorem cursor_avoids_ranges {pmm : Pmm} {calls : List RangeCall} {count : UInt64}
    (reached : runActions (RangeTrace.step root) (.boot pmm) calls = some trace)
    (forward : RunMeets (RangeTrace.step root) CursorStays (.boot pmm) calls)
    (stays : CursorStays trace (.allocPages count)) :
    ∀ range ∈ trace.live, ∀ other, pageNumber trace.vmm.nextVirtAddr other < count.toNat →
      ¬pageNumber range.virt other < range.count.toNat := by
  have below : BelowCursor trace := runActions_guarded (fun _ _ _ => BelowCursor.step)
    (fun range member => absurd member List.not_mem_nil) forward reached
  intro range member other inside within
  have earlier := below range member
  have otherSmall := other.toNat_lt
  simp only [CursorStays, pageNumber, UInt64.toNat_sub, pageSize] at *
  omega

end Cursor

/-- As long as ranges that take frames stay clear of the mappings made before the run and of each
other, and the pool can pay for their tables, every allocation gives a range of its own and every
range is freed whole. -/
theorem kernel_ranges_kept (root : Nat) (pmm : Pmm) (calls : List RangeCall)
    (dir : Directory pmm root) (first : FirstPageHeld pmm)
    (spares : RunMeets (RangeTrace.step root) (RangeSpares root pmm.ram) (.boot pmm) calls) :
    RunMeets (RangeTrace.step root) (RangeHolds root) (.boot pmm) calls := by
  have initial : RangeReady root pmm.ram (.boot pmm) :=
    ⟨dir, first, by simp [RangeTrace.boot], List.Pairwise.nil, fun _ _ _ => rfl⟩
  refine RunMeets.of_guard ?_ ?_ initial spares
  · intro trace call next ready meets taken
    exact ready.step meets taken
  · intro trace call ready meets
    exact ready.holds meets

theorem blank_firstPage : FirstPageHeld blankPmm := ⟨blank_directory.based, by decide⟩

theorem kernel_ranges_kept_page :
    RunMeets (RangeTrace.step 0x1000) (RangeHolds 0x1000) (.boot blankPmm)
      [.allocPages 1, .freePages 0xFFFF800100000000 1] := by
  have unmapped : ∀ virt, vmmGetPhysical blankPmm.ram 0x1000 virt = 0 := by
    intro virt
    simp [vmmGetPhysical, blank_entry]
  apply kernel_ranges_kept 0x1000 blankPmm _ blank_directory blank_firstPage
  refine ⟨Or.inr (Or.inr (Or.inr ⟨by decide, ⟨by decide, by decide, ?_⟩, fun other _ _ =>
    unmapped other, ?_, ?_⟩)), fun next taken => ⟨Or.inr (Or.inr ?_), fun _ _ => trivial⟩⟩
  · intro index bound
    rw [Nat.lt_one_iff.mp bound]
    decide
  · intro range member
    exact absurd member List.not_mem_nil
  · exact Or.inl (by decide +kernel)
  · have given : ((RangeTrace.boot blankPmm).step 0x1000 (.allocPages 1)).map (fun trace =>
        trace.live.map fun range => (range.virt, range.count)) = some [(0xFFFF800100000000, 1)] := by
      decide +kernel
    rw [taken, Option.map_some, Option.some.injEq] at given
    obtain ⟨range, rest, live, same, _⟩ := List.map_eq_cons_iff.mp given
    rw [Prod.mk.injEq] at same
    exact ⟨range, live ▸ List.mem_cons_self, same⟩

/-- A page of the framebuffer window is mapped before the run.  A request that cannot be met moves
the cursor onto the window, and the next range takes the page over. -/
theorem cursor_reaches_window : ∃ pmm,
    vmmMapPage blankPmm 0x1000 0xFFFF800210000000 0xFD000000 3 = some (true, pmm) ∧
      ¬RunMeets (RangeTrace.step 0x1000) (RangeHolds 0x1000) (.boot pmm)
        [.allocPages 0x110000, .allocPages 1] := by
  have runs : (vmmMapPage blankPmm 0x1000 0xFFFF800210000000 0xFD000000 3).map (fun mapped =>
      (mapped.1, ((RangeTrace.boot mapped.2).step 0x1000 (.allocPages 0x110000)).map fun trace =>
        (vmmGetPhysical trace.vmm.pmm.ram 0x1000 0xFFFF800210000000,
          (vmmAllocPages 0x1000 trace.vmm 1).map Prod.fst))) =
      some (true, some (0xFD000000, some 0xFFFF800210000000)) := by
    decide +kernel
  obtain ⟨⟨success, pmm⟩, called, results⟩ := Option.map_eq_some_iff.mp runs
  obtain ⟨rfl, results⟩ := Prod.mk.inj results
  obtain ⟨trace, moved, results⟩ := Option.map_eq_some_iff.mp results
  obtain ⟨mapped, given⟩ := Prod.mk.inj results
  refine ⟨pmm, called, fun meets => ?_⟩
  obtain ⟨result, vmm, allocated, gives, _⟩ := (meets.2 trace moved).1
  rw [allocated, Option.map_some, Option.some.injEq] at given
  change result = 0xFFFF800210000000 at given
  subst given
  have free := (gives (by decide)).unmapped 0 (by decide) 0xFFFF800210000000 (by decide)
  rw [mapped] at free
  exact absurd free (by decide)

end Szczupak
