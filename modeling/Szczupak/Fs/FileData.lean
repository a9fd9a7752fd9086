import Szczupak.Fs.Clusters

/-!
Reading what was written.  `Grown` relates the disk during a write to the disk before it: the
chain has at most grown at its end, its bytes are as expected, and nothing else has changed.
The read loop gives the bytes of the chain in order.
-/

namespace Szczupak

def patched (offset : Nat) (data : List UInt8) (old : Nat → UInt8) : Nat → UInt8 := fun position =>
  if offset ≤ position ∧ position < offset + data.length then data.getD (position - offset) 0
  else old position

variable {old : Nat → UInt8}

theorem patched_nil {offset : Nat} : patched offset [] old = old := by
  funext position
  exact if_neg (by simp only [List.length_nil]; omega)

theorem patched_append {offset : Nat} {first second : List UInt8} :
    patched (offset + first.length) second (patched offset first old) =
      patched offset (first ++ second) old := by
  funext position
  simp only [patched, List.length_append]
  by_cases inSecond : offset + first.length ≤ position ∧
    position < offset + first.length + second.length
  · have index : position - offset - first.length = position - (offset + first.length) := by omega
    rw [if_pos inSecond, if_pos ⟨by omega, by omega⟩, List.getD_append_right _ _ _ _ (by omega), index]
  · rw [if_neg inSecond]
    by_cases inFirst : offset ≤ position ∧ position < offset + first.length
    · rw [if_pos inFirst, if_pos ⟨inFirst.1, by omega⟩, List.getD_append _ _ _ _ (by omega)]
    · rw [if_neg inFirst, if_neg (by omega)]

structure Grown (v : Volume) (start : Disk) (chain : List Nat) (d : Disk) (now : List Nat)
    (expected : Nat → UInt8) : Prop where
  faults : d.faults = start.faults
  linked : Chain v d.bytes now
  grows : chain <+: now
  fresh : ∀ cluster ∈ now, cluster ∈ chain ∨ fatEntry v start.bytes cluster = 0
  contents : ∀ position < now.length * v.clusterSize,
    d.bytes (chainAddr v now position) = expected position
  beyond : ∀ position, now.length * v.clusterSize ≤ position → expected position = 0
  frame : ∀ address, (∀ cluster ∈ now, address ∉ fatWords v cluster ∧
    address ∉ clusterArea v cluster) → d.bytes address = start.bytes address
  entries : ∀ cluster < v.fatEntries, cluster ∉ now →
    fatEntry v d.bytes cluster = fatEntry v start.bytes cluster

section Write

variable {v : Volume} {start d after : Disk} {chain now : List Nat} {expected : Nat → UInt8}
  {data : List UInt8} {current fresh index intra : Nat}

theorem Grown.reliable (grown : Grown v start chain d now expected) (reliable : Reliable start) :
    Reliable d := by
  intro call
  rw [grown.faults]
  exact reliable call

def chainByte (v : Volume) (bytes : Mem) (chain : List Nat) (position : Nat) : UInt8 :=
  if position < chain.length * v.clusterSize then bytes (chainAddr v chain position) else 0

theorem Grown.initial (linked : Chain v start.bytes chain) :
    Grown v start chain start chain (chainByte v start.bytes chain) where
  faults := rfl
  linked := linked
  grows := List.prefix_refl chain
  fresh _ member := Or.inl member
  contents _ inside := (if_pos inside).symm
  beyond _ outside := if_neg (Nat.not_lt.mpr outside)
  frame _ _ := rfl
  entries _ _ _ := rfl

theorem Grown.called (grown : Grown v start chain d now expected) :
    Grown v start chain d.called now expected :=
  ⟨grown.faults, grown.linked, grown.grows, grown.fresh, grown.contents, grown.beyond, grown.frame,
    grown.entries⟩

theorem fatEntry_store {bytes : Mem} {base cluster : Nat} (known : cluster < v.fatEntries)
    (behind : v.dataStart * 512 ≤ base) :
    fatEntry v (bytes.store base data) cluster = fatEntry v bytes cluster := by
  refine Mem.readLE_congr fun offset bound =>
    Mem.store_outside _ (Or.inl (Nat.lt_of_lt_of_le ?_ behind))
  have copies : 1 * v.sectorsPerFat ≤ v.numFats * v.sectorsPerFat := Nat.mul_le_mul_right _ v.fatsPos
  rw [Volume.fatEntries] at known
  rw [Volume.dataStart, Volume.rootStart]
  omega

theorem Grown.store (grown : Grown v start chain d now expected) (here : now[index]? = some current)
    (fits : intra + data.length ≤ v.clusterSize)
    (stored : Becomes d after (d.bytes.store (clusterBase v current + intra) data)) :
    Grown v start chain after now (patched (index * v.clusterSize + intra) data expected) := by
  obtain ⟨bound, isCurrent⟩ := List.getElem?_eq_some_iff.mp here
  have member : current ∈ now := isCurrent ▸ List.getElem_mem bound
  have behind : v.dataStart * 512 ≤ clusterBase v current + intra := by
    rw [clusterBase_eq, Nat.add_assoc]
    exact Nat.le_add_right _ _
  have full : (index + 1) * v.clusterSize ≤ now.length * v.clusterSize := Nat.mul_le_mul_right _ bound
  rw [Nat.succ_mul] at full
  constructor
  case faults => exact stored.faults.trans grown.faults
  case linked =>
    refine grown.linked.congr fun cluster inNow => ?_
    rw [stored.bytes]
    exact fatEntry_store (grown.linked.valid inNow).2.2 behind
  case grows => exact grown.grows
  case fresh => exact grown.fresh
  case contents =>
    intro position inside
    have between := chainAddr_between grown.linked here fits inside
    rw [stored.bytes]
    simp only [Mem.store, patched]
    by_cases written : index * v.clusterSize + intra ≤ position ∧
        position < index * v.clusterSize + (intra + data.length)
    · obtain ⟨lower, upper⟩ := between.mpr written
      have address := @chainAddr_at v now current position index
        (position - index * v.clusterSize) here (by omega) (by omega)
      rw [if_pos ⟨lower, by omega⟩, if_pos ⟨written.1, by omega⟩, address]
      congr 1
      omega
    · have outside := mt between.mp written
      rw [if_neg (by omega), if_neg (by omega)]
      exact grown.contents position inside
  case beyond =>
    intro position outside
    have notWritten : ¬(index * v.clusterSize + intra ≤ position ∧
        position < index * v.clusterSize + intra + data.length) := by omega
    rw [patched, if_neg notWritten]
    exact grown.beyond position outside
  case frame =>
    intro address apart
    rw [stored.bytes, Mem.store_outside, grown.frame address apart]
    by_contra inside
    exact (apart current member).2 ⟨by omega, by omega⟩
  case entries =>
    intro cluster known absent
    rw [stored.bytes, fatEntry_store known behind]
    exact grown.entries cluster known absent

section

variable (takes : TakesCluster v d after fresh)
include takes

theorem TakesCluster.inTable (bound : fresh < max 1 v.fatEntries) :
    fresh < v.fatEntries := by
  have two := takes.two
  omega

theorem TakesCluster.entry (inTable : fresh < v.fatEntries)
    {cluster : Nat} (known : cluster < v.fatEntries) :
    fatEntry v after.bytes cluster = if cluster = fresh then 0xFFFF
    else fatEntry v d.bytes cluster := by
  have cleared : fatEntry v after.bytes cluster =
      fatEntry v (fatStored v fresh 0xFFFF v.numFats 0 d.bytes) cluster := by
    rw [takes.bytes]
    refine Mem.readLE_congr fun offset bound => Mem.fill_outside _ _ (Or.inl ?_)
    have copies : 1 * v.sectorsPerFat ≤ v.numFats * v.sectorsPerFat := Nat.mul_le_mul_right _ v.fatsPos
    rw [Volume.fatEntries] at known
    rw [clusterBase_eq, Volume.dataStart, Volume.rootStart]
    omega
  rw [cleared]
  split
  next same =>
    rw [same]
    exact fatStored_same inTable
  next different => exact fatStored_other known different

theorem TakesCluster.outside {address : Nat}
    (words : address ∉ fatWords v fresh) (area : address ∉ clusterArea v fresh) :
    after.bytes address = d.bytes address := by
  rw [takes.bytes, Mem.fill_outside]
  · exact fatStored_outside (by omega) words
  · by_contra inside
    exact area ⟨by omega, by omega⟩

theorem TakesCluster.zero {address : Nat}
    (area : address ∈ clusterArea v fresh) : after.bytes address = 0 := by
  rw [takes.bytes]
  exact Mem.fill_inside _ _ area.1 area.2

theorem TakesCluster.valid (inTable : fresh < v.fatEntries) :
    ValidCluster v fresh := by
  have two := takes.two
  have small := takes.small
  exact ⟨two, by omega, inTable⟩

theorem TakesCluster.absent (linked : Chain v d.bytes now) :
    fresh ∉ now := fun member => linked.nonzero member takes.free

end

theorem clusterArea_table {cluster other address : Nat} (known : other < v.fatEntries)
    (area : address ∈ clusterArea v cluster) : address ∉ fatWords v other := by
  intro words
  have below := (fatWords_table known words).2
  have above := clusterArea_data area
  have order : v.rootStart * 512 ≤ v.dataStart * 512 := Nat.mul_le_mul_right _ (Nat.le_add_right _ _)
  omega

theorem Grown.extend (grown : Grown v start chain d now expected) {linked : Disk}
    (takes : TakesCluster v d after fresh) (inTable : fresh < v.fatEntries)
    (linkedFaults : linked.faults = after.faults)
    (links : (now = [] ∧ linked.bytes = after.bytes) ∨ ∃ front last, now = front ++ [last] ∧
      linked.bytes = fatStored v last fresh v.numFats 0 after.bytes) :
    Grown v start chain linked (now ++ [fresh]) expected := by
  have absent := takes.absent grown.linked
  have valid := takes.valid inTable
  have freshSmall : fresh < 65536 := by
    have small := takes.small
    omega
  -- The link is a table entry of a cluster that was on the chain.
  have outside : ∀ address, (∀ cluster ∈ now, address ∉ fatWords v cluster) →
      linked.bytes address = after.bytes address := by
    intro address apart
    rcases links with ⟨_, same⟩ | ⟨front, last, isNow, stored⟩
    · rw [same]
    · rw [stored]
      exact fatStored_outside (by omega) (apart last (by rw [isNow]; simp))
  have entryOther : ∀ cluster < v.fatEntries, (∀ front last, now = front ++ [last] →
      cluster ≠ last) → fatEntry v linked.bytes cluster = fatEntry v after.bytes cluster := by
    intro cluster known notLast
    rcases links with ⟨_, same⟩ | ⟨front, last, isNow, stored⟩
    · rw [same]
    · rw [stored]
      exact fatStored_other known (notLast front last isNow)
  have freshNotLast : ∀ front last, now = front ++ [last] → fresh ≠ last := by
    rintro front last isNow rfl
    exact absent (by rw [isNow]; simp)
  have mark : 0xFFF8 ≤ fatEntry v linked.bytes fresh := by
    rw [entryOther fresh inTable freshNotLast, takes.entry inTable inTable, if_pos rfl]
    omega
  have dataKept : ∀ cluster ∈ now, ∀ address ∈ clusterArea v cluster,
      linked.bytes address = d.bytes address := by
    intro cluster member address area
    have different : cluster ≠ fresh := fun same => absent (same ▸ member)
    rw [outside address fun other inNow => clusterArea_table (grown.linked.valid inNow).2.2 area]
    exact takes.outside (clusterArea_table inTable area)
      (clusterArea_disjoint (grown.linked.valid member).1 valid.1 different area)
  constructor
  case faults => exact linkedFaults.trans (takes.faults.trans grown.faults)
  case linked =>
    rcases links with ⟨empty, _⟩ | ⟨front, last, isNow, stored⟩
    · rw [empty]
      exact ⟨valid, mark, trivial⟩
    · have linkedBefore := isNow ▸ grown.linked
      have lastValid := grown.linked.valid (show last ∈ now by rw [isNow]; simp)
      have distinct := isNow ▸ grown.linked.nodup
      rw [isNow]
      refine linkedBefore.snoc valid ?_ mark fun cluster member => ?_
      · rw [stored, fatStored_same lastValid.2.2]
        exact Nat.mod_eq_of_lt freshSmall
      · have inNow : cluster ∈ now := by
          rw [isNow]
          exact List.mem_append_left _ member
        have notLast : cluster ≠ last := by
          rintro rfl
          have apart := (List.nodup_append.mp distinct).2.2 cluster member cluster (by simp)
          exact apart rfl
        have notFresh : cluster ≠ fresh := fun same => absent (same ▸ inNow)
        have known := (grown.linked.valid inNow).2.2
        rw [stored, fatStored_other known notLast, takes.entry inTable known, if_neg notFresh]
  case grows => exact grown.grows.trans (List.prefix_append now [fresh])
  case fresh =>
    intro cluster member
    rcases List.mem_append.mp member with earlier | new
    · exact grown.fresh cluster earlier
    · rw [List.mem_singleton.mp new]
      rw [← grown.entries fresh inTable absent]
      exact Or.inr takes.free
  case contents =>
    intro position inside
    rw [List.length_append, List.length_singleton] at inside
    by_cases inNow : position < now.length * v.clusterSize
    · obtain ⟨cluster, member, here, area⟩ := chainAddr_area inNow
      have sameAddr : chainAddr v (now ++ [fresh]) position = chainAddr v now position := by
        rw [chainAddr, chainAddr, List.getD_append _ _ _ _ (position_cluster inNow)]
      rw [sameAddr, dataKept cluster member _ area]
      exact grown.contents position inNow
    · have size := clusterSize_pos v
      have here : (now ++ [fresh])[now.length]? = some fresh := by simp
      rw [Nat.succ_mul] at inside
      have address := @chainAddr_at v (now ++ [fresh]) fresh position now.length
        (position - now.length * v.clusterSize) here (by omega) (by omega)
      have area : chainAddr v (now ++ [fresh]) position ∈ clusterArea v fresh := by
        rw [address]
        exact ⟨Nat.le_add_right _ _, Nat.add_lt_add_left (by omega) _⟩
      rw [outside _ fun other inNow => clusterArea_table (grown.linked.valid inNow).2.2 area,
        takes.zero area]
      exact (grown.beyond position (by omega)).symm
  case beyond =>
    intro position outside
    rw [List.length_append, List.length_singleton, Nat.succ_mul] at outside
    exact grown.beyond position (by omega)
  case frame =>
    intro address apart
    have apartNow : ∀ cluster ∈ now, address ∉ fatWords v cluster ∧ address ∉ clusterArea v cluster :=
      fun cluster member => apart cluster (List.mem_append_left _ member)
    obtain ⟨words, area⟩ := apart fresh (by simp)
    rw [outside address fun cluster member => (apartNow cluster member).1, takes.outside words area]
    exact grown.frame address apartNow
  case entries =>
    intro cluster known notNow
    rw [List.mem_append, not_or, List.mem_singleton] at notNow
    have notLast : ∀ front last, now = front ++ [last] → cluster ≠ last := by
      rintro front last isNow rfl
      exact notNow.1 (by rw [isNow]; simp)
    rw [entryOther cluster known notLast, takes.entry inTable known, if_neg notNow.2]
    exact grown.entries cluster known notNow.1

theorem writeSectors_reliable (reliable : Reliable d)
    {first remaining s written count position : Nat} (isPosition : position = max intra (s * 512))
    (isCount : count = min ((s + remaining) * 512 - position) (data.length - written)) :
    ∃ after, writeSectors first intra data remaining s written d = (some (written + count), after) ∧
      Becomes d after (d.bytes.store (first * 512 + position) ((data.drop written).take count)) := by
  induction remaining generalizing s written count position d with
  | zero =>
      have none : count = 0 := by omega
      subst none
      refine ⟨d, rfl, ?_, rfl, rfl⟩
      rw [List.take_zero, Mem.store_nil]
  | succ remaining ih =>
      rw [writeSectors]
      split
      next all =>
        have none : count = 0 := by omega
        subst none
        refine ⟨d, rfl, ?_, rfl, rfl⟩
        rw [List.take_zero, Mem.store_nil]
      next more =>
        have range : s + 1 + remaining = s + (remaining + 1) := by omega
        split
        next skipped =>
          have position' : position = max intra ((s + 1) * 512) := by
            rw [isPosition, Nat.succ_mul, max_eq_left skipped, max_eq_left (Nat.le_of_add_right_le skipped)]
          exact ih reliable position' (by rw [range]; exact isCount)
        next inside =>
          rw [ataReadSector_reliable reliable]
          dsimp only
          rw [ataWriteSector_reliable (called_reliable reliable)]
          dsimp only
          generalize isSize : min (512 - (intra - s * 512)) (data.length - written) = size
          have length : ((data.drop written).take size).length = size := by
            rw [List.length_take, List.length_drop]
            omega
          have address : (first + s) * 512 + (intra - s * 512) = first * 512 + position := by
            rw [Nat.add_mul]
            omega
          have stored : d.called.overwrite (first + s)
              ((d.sector (first + s)).store (intra - s * 512) ((data.drop written).take size)) =
              d.bytes.store (first * 512 + position) ((data.drop written).take size) := by
            rw [← address]
            exact @overwrite_store d (first + s) _ _ (by rw [length]; omega)
          obtain ⟨after, done, becomes⟩ := @ih
            { d.called.called with bytes := (d.called.overwrite (first + s)
                ((d.sector (first + s)).store (intra - s * 512) ((data.drop written).take size))) }
            reliable (s + 1) (written + size) (count - size) (max intra ((s + 1) * 512)) rfl (by omega)
          refine ⟨after, ?_, ?_, becomes.faults, becomes.allocated⟩
          · rw [done]
            congr 2
            omega
          · rw [becomes.bytes]
            dsimp only
            rw [stored]
            have split : (data.drop written).take count = (data.drop written).take size ++
                (data.drop (written + size)).take (count - size) := by
              rw [← List.drop_drop, ← List.take_add]
              congr 1
              omega
            by_cases last : count = size
            · rw [last, Nat.sub_self, List.take_zero, Mem.store_nil]
            · have next : first * 512 + max intra ((s + 1) * 512) =
                  first * 512 + position + ((data.drop written).take size).length := by
                have reached : max intra ((s + 1) * 512) = s * 512 + 512 := by
                  rw [Nat.succ_mul]
                  exact max_eq_right (Nat.le_of_lt (Nat.lt_of_not_le inside))
                have whole : position + size = s * 512 + 512 := by
                  rw [reached] at *
                  omega
                rw [length, reached, ← whole, Nat.add_assoc]
              rw [next, Mem.store_append, split]

theorem Grown.next (grown : Grown v start chain d now expected) (reliable : Reliable start)
    (here : now[index]? = some current) {next : Nat}
    (stepped : nextOrAllocate v d current = (some next, after))
    (inside : ∀ cluster ∈ after.allocated, cluster < v.fatEntries) :
    ∃ longer, Grown v start chain after longer expected ∧ longer[index + 1]? = some next ∧
      now <+: longer := by
  obtain ⟨bound, isCurrent⟩ := List.getElem?_eq_some_iff.mp here
  have member : current ∈ now := isCurrent ▸ List.getElem_mem bound
  have two := (grown.linked.valid member).1
  have rel := grown.reliable reliable
  rw [nextOrAllocate, fat16ReadFatEntry_reliable rel two] at stepped
  dsimp only at stepped
  rcases grown.linked.next here with ⟨_, follows⟩ | ⟨last, mark⟩
  · have nextMember := List.mem_of_getElem? follows
    obtain ⟨nextTwo, nextSmall, _⟩ := grown.linked.valid nextMember
    rw [if_neg (by omega)] at stepped
    cases stepped
    exact ⟨now, grown.called, follows, List.prefix_refl now⟩
  · rw [if_pos (Or.inr mark)] at stepped
    split at stepped
    next => cases stepped
    next taken middle some took =>
      have takes := fat16AllocateCluster_reliable (called_reliable rel) took some
      have middleReliable : Reliable middle := by
        intro call
        rw [takes.faults]
        exact rel call
      obtain ⟨linked, done, writes⟩ :=
        @fat16WriteFatEntry_reliable middle v current taken middleReliable two
      rw [done] at stepped
      cases stepped
      have inTable : next < v.fatEntries := by
        refine inside next ?_
        rw [writes.allocated, takes.allocated]
        exact List.mem_cons_self
      have split : now = now.dropLast ++ [current] := by
        have nonempty : now ≠ [] := List.ne_nil_of_mem member
        have isLast : now.getLast nonempty = current := by
          rw [List.getLast_eq_getElem, ← isCurrent]
          congr 1
          omega
        rw [← isLast, List.dropLast_append_getLast]
      refine ⟨now ++ [next], grown.called.extend takes inTable writes.faults
        (Or.inr ⟨now.dropLast, current, split, writes.bytes⟩), ?_, List.prefix_append now [next]⟩
      rw [last, List.getElem?_append_right (Nat.le_refl _), Nat.sub_self]
      rfl

theorem nextOrAllocate_allocated (reliable : Reliable d) (two : 2 ≤ current) {next : Nat}
    (stepped : nextOrAllocate v d current = (some next, after)) :
    (∀ cluster ∈ d.allocated, cluster ∈ after.allocated) ∧ 2 ≤ next ∧ Reliable after := by
  rw [nextOrAllocate, fat16ReadFatEntry_reliable reliable two] at stepped
  dsimp only at stepped
  split at stepped
  next =>
    split at stepped
    next => cases stepped
    next fresh middle some took =>
      have takes := fat16AllocateCluster_reliable (called_reliable reliable) took some
      have middleReliable : Reliable middle := by
        intro call
        rw [takes.faults]
        exact reliable call
      obtain ⟨linked, done, writes⟩ :=
        @fat16WriteFatEntry_reliable middle v current fresh middleReliable two
      rw [done] at stepped
      cases stepped
      refine ⟨fun cluster member => ?_, takes.two, writes.reliable middleReliable⟩
      rw [writes.allocated, takes.allocated]
      exact List.mem_cons_of_mem _ member
  next valid =>
    cases stepped
    exact ⟨fun _ member => member, by omega, reliable⟩

theorem skipOrAllocate_allocated {skip next : Nat} (reliable : Reliable d) (two : 2 ≤ current)
    (skipped : skipOrAllocate v skip current d = (some next, after)) :
    (∀ cluster ∈ d.allocated, cluster ∈ after.allocated) ∧ 2 ≤ next ∧ Reliable after := by
  induction skip generalizing current d with
  | zero =>
      cases skipped
      exact ⟨fun _ member => member, two, reliable⟩
  | succ skip ih =>
      rw [skipOrAllocate] at skipped
      split at skipped
      next => cases skipped
      next reached middle stepped =>
        obtain ⟨kept, nextTwo, middleReliable⟩ := nextOrAllocate_allocated reliable two stepped
        obtain ⟨more, finalTwo, finalReliable⟩ := ih middleReliable nextTwo skipped
        exact ⟨fun cluster member => more cluster (kept cluster member), finalTwo, finalReliable⟩

theorem Grown.skip (grown : Grown v start chain d now expected) (reliable : Reliable start)
    {skip next : Nat} (here : now[index]? = some current)
    (skipped : skipOrAllocate v skip current d = (some next, after))
    (inside : ∀ cluster ∈ after.allocated, cluster < v.fatEntries) :
    ∃ longer, Grown v start chain after longer expected ∧ longer[index + skip]? = some next ∧
      now <+: longer := by
  induction skip generalizing current d now index with
  | zero =>
      cases skipped
      exact ⟨now, grown, here, List.prefix_refl now⟩
  | succ skip ih =>
      have two := (grown.linked.valid (List.mem_of_getElem? here)).1
      rw [skipOrAllocate] at skipped
      split at skipped
      next => cases skipped
      next reached middle stepped =>
        obtain ⟨_, nextTwo, middleReliable⟩ :=
          nextOrAllocate_allocated (grown.reliable reliable) two stepped
        obtain ⟨kept, _⟩ := skipOrAllocate_allocated middleReliable nextTwo skipped
        obtain ⟨longer, grownNext, follows, first⟩ := grown.next reliable here stepped
          fun cluster member => inside cluster (kept cluster member)
        obtain ⟨final, grownFinal, reachedFinal, second⟩ := ih grownNext follows skipped
        refine ⟨final, grownFinal, ?_, first.trans second⟩
        rw [← reachedFinal]
        congr 1
        omega

theorem writeClusters_allocated {turns written : Nat} (reliable : Reliable d) (two : 2 ≤ current)
    (wrote : writeClusters v data turns current intra written d = (some (), after)) :
    ∀ cluster ∈ d.allocated, cluster ∈ after.allocated := by
  induction turns generalizing current intra written d with
  | zero => cases wrote
  | succ turns ih =>
      obtain ⟨middle, done, stored⟩ := @writeSectors_reliable d data intra reliable
        (v.clusterSector current) v.sectorsPerCluster 0 written _ _ rfl rfl
      rw [writeClusters, done] at wrote
      dsimp only at wrote
      split at wrote
      next =>
        cases wrote
        rw [stored.allocated]
        exact fun _ member => member
      next =>
        split at wrote
        next => cases wrote
        next reached later stepped =>
          obtain ⟨kept, nextTwo, laterReliable⟩ :=
            nextOrAllocate_allocated (stored.reliable reliable) two stepped
          have more := ih laterReliable nextTwo wrote
          intro cluster member
          rw [← stored.allocated] at member
          exact more cluster (kept cluster member)

theorem Grown.writeClusters (reliable : Reliable start) {turns written offset : Nat}
    (grown : Grown v start chain d now (patched offset (data.take written) old))
    (here : now[index]? = some current) (within : intra < v.clusterSize)
    (isPosition : offset + written = index * v.clusterSize + intra) (rest : written ≤ data.length)
    (wrote : Szczupak.writeClusters v data turns current intra written d = (some (), after))
    (inside : ∀ cluster ∈ after.allocated, cluster < v.fatEntries) :
    ∃ longer, Grown v start chain after longer (patched offset data old) ∧ now <+: longer ∧
      offset + data.length ≤ longer.length * v.clusterSize := by
  induction turns generalizing current intra written d now index with
  | zero => cases wrote
  | succ turns ih =>
      have two := (grown.linked.valid (List.mem_of_getElem? here)).1
      obtain ⟨middle, done, stored⟩ := @writeSectors_reliable d data intra (grown.reliable reliable)
        (v.clusterSector current) v.sectorsPerCluster 0 written _ _ rfl rfl
      rw [Szczupak.writeClusters, done] at wrote
      dsimp only at wrote
      have position : max intra (0 * 512) = intra := by omega
      have room : (0 + v.sectorsPerCluster) * 512 = v.clusterSize := by rw [Nat.zero_add, Volume.clusterSize]
      rw [position, room] at stored wrote
      generalize isCount : min (v.clusterSize - intra) (data.length - written) = count at stored wrote
      have length : ((data.drop written).take count).length = count := by
        rw [List.length_take, List.length_drop]
        omega
      have written' : (data.take written).length = written := by
        rw [List.length_take]
        omega
      have grownStored := @Grown.store v start d middle chain now _ ((data.drop written).take count)
        current index intra grown here (by rw [length]; omega) stored
      have written'' : patched (index * v.clusterSize + intra) ((data.drop written).take count)
          (patched offset (data.take written) old) = patched offset (data.take (written + count)) old := by
        have whole : data.take (written + count) = data.take written ++ (data.drop written).take count :=
          List.take_add
        rw [whole, ← isPosition, ← patched_append, written']
      rw [written''] at grownStored
      split at wrote
      next all =>
        cases wrote
        rw [List.take_of_length_le all] at grownStored
        obtain ⟨bound, _⟩ := List.getElem?_eq_some_iff.mp here
        have full : (index + 1) * v.clusterSize ≤ now.length * v.clusterSize := Nat.mul_le_mul_right _ bound
        rw [Nat.succ_mul] at full
        exact ⟨now, grownStored, List.prefix_refl now, by omega⟩
      next more =>
        split at wrote
        next => cases wrote
        next reached later stepped =>
          have middleReliable := stored.reliable (grown.reliable reliable)
          obtain ⟨_, nextTwo, laterReliable⟩ := nextOrAllocate_allocated middleReliable two stepped
          have kept := writeClusters_allocated laterReliable nextTwo wrote
          obtain ⟨longer, grownNext, follows, first⟩ := grownStored.next reliable here stepped
            fun cluster member => inside cluster (kept cluster member)
          have full : count = v.clusterSize - intra := by omega
          have position' : offset + (written + count) = (index + 1) * v.clusterSize + 0 := by
            rw [Nat.succ_mul]
            omega
          obtain ⟨final, grownFinal, second, covers⟩ :=
            ih grownNext follows (clusterSize_pos v) position' (by omega) wrote
          exact ⟨final, grownFinal, first.trans second, covers⟩

end Write

end Szczupak
