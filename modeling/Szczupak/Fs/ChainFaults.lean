import Szczupak.Fs.HoldersCore

/-!
Chains on a disk whose requests fail as they like.  A write that takes and links its clusters
whole leaves a chain that has at most grown, whether or not it succeeds, and changes nothing
outside the clusters of that chain and their entries.
-/

namespace Szczupak

section Requests

variable {v : Volume} {d after : Disk} {cluster current value fresh : Nat}

theorem fat16ReadFatEntry_eq (two : 2 ≤ cluster) : fat16ReadFatEntry v d cluster =
    (if d.faults d.calls = true then 0 else fatEntry v d.bytes cluster, d.called) := by
  rw [fat16ReadFatEntry, if_neg (Nat.not_lt.mpr two)]
  cases fault : d.faults d.calls with
  | true =>
      rw [ataReadSector_fault fault]
      rfl
  | false =>
      rw [ataReadSector_clear fault]
      dsimp only
      rw [fatEntry_sector]
      rfl

theorem fat16WriteFatEntry_written (two : 2 ≤ cluster) (written : EntryWritten v d.faults d.calls) :
    ∃ after, fat16WriteFatEntry v d cluster value = (true, after) ∧
      Becomes d after (fatStored v cluster value v.numFats 0 d.bytes) ∧
      after.calls = d.calls + 2 * v.numFats := by
  have stops := @writeFatCopies_stops v d cluster value v.numFats 0
  have full := turnsDone_full.mpr written
  rw [fat16WriteFatEntry, if_neg (Nat.not_lt.mpr two)]
  generalize writeFatCopies v cluster value v.numFats 0 d = run at stops
  obtain ⟨ok, after⟩ := run
  obtain ⟨done, bytes, faults, allocated, calls⟩ := stops
  dsimp only at done bytes faults allocated calls
  rw [done.mpr full]
  rw [full] at bytes
  exact ⟨after, rfl, ⟨bytes, faults, allocated⟩, calls (done.mpr full)⟩

theorem fat16WriteFatEntry_stopped (two : 2 ≤ cluster)
    (fails : d.faults d.calls = true ∨ d.faults (d.calls + 1) = true) :
    ∃ after, fat16WriteFatEntry v d cluster value = (false, after) ∧ after.bytes = d.bytes ∧
      after.faults = d.faults := by
  have stops := @writeFatCopies_stops v d cluster value v.numFats 0
  have none : turnsDone d.faults 2 v.numFats d.calls = 0 := by
    by_contra some
    obtain ⟨reads, writes⟩ := marksDone_pos.mp (Nat.pos_of_ne_zero some)
    rw [reads, writes] at fails
    exact fails.elim Bool.false_ne_true Bool.false_ne_true
  rw [fat16WriteFatEntry, if_neg (Nat.not_lt.mpr two)]
  generalize writeFatCopies v cluster value v.numFats 0 d = run at stops
  obtain ⟨ok, after⟩ := run
  obtain ⟨done, bytes, faults, _, _⟩ := stops
  dsimp only at done bytes faults
  rw [none] at done bytes
  have partly : ok = false := Bool.not_eq_true _ ▸ fun whole =>
    absurd (done.mp whole) (Nat.ne_of_lt v.fatsPos)
  rw [partly]
  exact ⟨after, rfl, bytes, faults⟩

theorem fat16AllocateCluster_whole (whole : TakesWhole v d) :
    (∃ after, fat16AllocateCluster v d = (0, after) ∧ after.bytes = d.bytes ∧ after.faults = d.faults) ∨
      ∃ fresh after, fat16AllocateCluster v d = (fresh, after) ∧ TakesCluster v d after fresh ∧
        fresh < v.fatEntries ∧ FirstCandidate v d fresh ∧
        clearsDone v (d.later (fresh - 1)) = v.sectorsPerCluster ∧ after.calls = entryCall v d fresh := by
  rcases candidate_or_exhausted v d with ⟨fresh, first⟩ | none
  · have attempts := @takeCluster_attempts v (d.later (fresh - 1)) fresh first.two
    rw [(allocate_candidate first).1]
    generalize takeCluster v (d.later (fresh - 1)) fresh = run at attempts
    obtain ⟨result, after⟩ := run
    obtain ⟨isResult, bytes, faults, allocated, calls⟩ := attempts
    dsimp only at isResult bytes faults allocated calls
    rcases whole fresh first with stopped | ⟨free, all⟩
    · have positive := v.clusterPos
      have clears := marks_none (Nat.not_lt.mpr (Nat.le_of_eq stopped))
      rw [clears, if_neg (Nat.ne_of_lt positive)] at isResult
      rw [clears, stopped, fill_none] at bytes
      rw [isResult]
      exact Or.inl ⟨after, rfl, bytes, faults⟩
    · rw [if_pos all] at isResult
      rw [all, marksDone_full all] at bytes
      rw [isResult]
      exact Or.inr ⟨fresh, after, rfl, ⟨first.two, first.small, free.2.2, bytes, faults, allocated⟩,
        free.2.1, first, all, calls all⟩
  · rw [(allocate_exhausted none).1]
    exact Or.inl ⟨d.later (0xFFF0 - 2), rfl, rfl, rfl⟩

end Requests

section Release

variable {v : Volume} {d : Disk} {cluster guard : Nat} {chain : List Nat}

structure GivesUp (v : Volume) (d after : Disk) (chain : List Nat) : Prop where
  faults : after.faults = d.faults
  next : after.faults after.calls = false
  others : ∀ address, (∀ cluster ∈ chain, address ∉ fatWords v cluster) →
    after.bytes address = d.bytes address
  entries : ∀ cluster < v.fatEntries, fatEntry v after.bytes cluster =
    if cluster ∈ chain then 0 else fatEntry v d.bytes cluster

theorem Chain.goesOn {rest : List Nat} (linked : Chain v d.bytes (cluster :: rest)) :
    rest = [] ∨ ¬EndsChain v d.bytes cluster := by
  obtain ⟨_, links, later⟩ := linked
  cases rest with
  | nil => exact Or.inl rfl
  | cons next more =>
      have named : fatEntry v d.bytes cluster = next := links
      obtain ⟨two, small, _⟩ := later.1
      refine Or.inr ?_
      rw [EndsChain, named]
      exact not_or.mpr ⟨Nat.not_lt.mpr two, Nat.not_le.mpr small⟩

theorem releaseFrom_whole (linked : Chain v d.bytes chain)
    (starts : StartsAt cluster chain ∨ chain = [] ∧ 0xFFF8 ≤ cluster)
    (enough : chain.length < guard) (whole : ReleasesWhole v guard cluster d) :
    ∃ after, releaseFrom v guard cluster d = (true, after) ∧ GivesUp v d after chain := by
  induction chain generalizing cluster guard d with
  | nil =>
      obtain ⟨guard, rfl⟩ := Nat.exists_eq_succ_of_ne_zero (Nat.ne_of_gt enough)
      have stops : cluster < 2 ∨ 0xFFF8 ≤ cluster := starts.imp id fun both => both.2
      rw [ReleasesWhole, if_pos stops] at whole
      exact ⟨d, if_pos stops, rfl, whole, fun _ _ => rfl, fun _ _ => rfl⟩
  | cons first rest ih =>
      obtain ⟨guard, rfl⟩ := Nat.exists_eq_succ_of_ne_zero (Nat.ne_of_gt (Nat.zero_lt_of_lt enough))
      have isFirst : cluster = first := starts.resolve_right fun both => absurd both.1 (List.cons_ne_nil _ _)
      subst isFirst
      obtain ⟨continues, goesElsewhere⟩ := linked.follows
      have orEnds := linked.goesOn
      obtain ⟨two, small, known⟩ := linked.1
      have links := linked.2.1
      rw [ReleasesWhole, if_neg (by omega)] at whole
      obtain ⟨reads, written, further⟩ := whole
      obtain ⟨cleared, done, clears, _⟩ := @fat16WriteFatEntry_written v d.called cluster 0 two written
      rw [done] at further
      obtain ⟨still, zeroed⟩ := linked.cleared clears.bytes
      obtain ⟨after, released, faults, next, others, zeros⟩ :=
        ih still continues (Nat.lt_of_succ_lt_succ enough) further
      have wholeRelease : releaseFrom v (guard + 1) cluster d = (true, after) := by
        rw [releaseFrom, if_neg (by omega), fat16ReadFatEntry_eq two]
        dsimp only
        rw [done]
        dsimp only
        cases fault : d.faults d.calls with
        | false =>
            rw [if_neg Bool.false_ne_true, if_neg goesElsewhere]
            exact released
        | true =>
            -- The last entry could not be read, and none follows it.
            have last : rest = [] := orEnds.resolve_right fun goes =>
              goes (reads.resolve_left fun clear => Bool.false_ne_true (clear.symm.trans fault))
            subst last
            obtain ⟨guard, rfl⟩ := Nat.exists_eq_succ_of_ne_zero
              (Nat.ne_of_gt (Nat.zero_lt_of_lt (Nat.lt_of_succ_lt_succ enough)))
            have mark : 0xFFF8 ≤ fatEntry v d.bytes cluster := links
            rw [releaseFrom, if_pos (Or.inr mark)] at released
            rw [if_pos rfl, if_neg (Nat.ne_of_lt (Nat.zero_lt_of_lt two)), releaseFrom,
              if_pos (Or.inl (by decide))]
            exact released
      refine ⟨after, wholeRelease, faults.trans clears.faults, next, fun address outside => ?_,
        zeroed after.bytes zeros⟩
      rw [others address fun other member => outside other (List.mem_cons_of_mem _ member), clears.bytes]
      exact fatStored_outside (Nat.le_of_eq (Nat.zero_add _)) (outside cluster List.mem_cons_self)

theorem release_whole (chained : ChainFrom v d.bytes cluster chain)
    (whole : ReleasesWhole v 0x10000 cluster d) :
    ∃ after, (if 2 ≤ cluster then fat16ReleaseClusterChain v d cluster else (true, d)) =
      (true, after) ∧ GivesUp v d after chain := by
  obtain ⟨starts, linked⟩ := chained
  obtain ⟨after, released, releases⟩ := releaseFrom_whole linked (Or.inl starts) linked.short whole
  refine ⟨after, ?_, releases⟩
  by_cases two : 2 ≤ cluster
  · rw [if_pos two, fat16ReleaseClusterChain, if_neg (Nat.not_lt.mpr two)]
    exact released
  · rw [releaseFrom, if_pos (Or.inl (Nat.lt_of_not_le two))] at released
    rw [if_neg two]
    exact released

theorem release_stopped {start : Nat} (two : 2 ≤ start) (small : start < 0xFFF8)
    (stops : d.faults (d.calls + 1) = true ∨ d.faults (d.calls + 2) = true) :
    ∃ after, fat16ReleaseClusterChain v d start = (false, after) ∧ after.bytes = d.bytes ∧
    after.faults = d.faults := by
  obtain ⟨after, done, bytes, faults⟩ := @fat16WriteFatEntry_stopped v d.called start 0 two stops
  refine ⟨after, ?_, bytes, faults⟩
  rw [fat16ReleaseClusterChain, if_neg (Nat.not_lt.mpr two), releaseFrom, if_neg (by omega),
    fat16ReadFatEntry_eq two]
  dsimp only
  rw [done]

end Release

def Follows (v : Volume) (start : Disk) (chain : List Nat) (d : Disk) (now : List Nat) : Prop :=
  ∃ expected, Grown v start chain d now expected

section Growth

variable {v : Volume} {start d after : Disk} {chain now : List Nat} {current index : Nat}
  {data : List UInt8} {result : Option Nat}

theorem Follows.initial (linked : Chain v start.bytes chain) : Follows v start chain start chain :=
  ⟨_, Grown.initial linked⟩

theorem Follows.linked (follows : Follows v start chain d now) : Chain v d.bytes now := by
  obtain ⟨_, grown⟩ := follows
  exact grown.linked

theorem Follows.called (follows : Follows v start chain d now) :
    Follows v start chain d.called now := by
  obtain ⟨expected, grown⟩ := follows
  exact ⟨expected, grown.called⟩

theorem Follows.same (follows : Follows v start chain d now) (bytes : after.bytes = d.bytes)
    (faults : after.faults = d.faults) : Follows v start chain after now := by
  obtain ⟨expected, grown⟩ := follows
  exact ⟨expected, faults.trans grown.faults, bytes ▸ grown.linked, grown.grows, grown.fresh,
    bytes ▸ grown.contents, grown.beyond, bytes ▸ grown.frame, bytes ▸ grown.entries⟩

theorem tableEntry_congr {bytes other : Mem} {cluster : Nat} (known : cluster < v.fatEntries)
    (same : ∀ address < v.rootStart * 512, other address = bytes address) :
    fatEntry v other cluster = fatEntry v bytes cluster := by
  refine Mem.readLE_congr fun offset bound => same _ ?_
  refine (@fatWords_table v cluster _ known ⟨0, v.fatsPos, ?_⟩).2
  rw [fatWord, Nat.zero_mul, Nat.add_zero]
  exact ⟨Nat.le_add_right _ _, Nat.add_lt_add_left bound _⟩

theorem rootStart_le_data : v.rootStart * 512 ≤ v.dataStart * 512 :=
  Nat.mul_le_mul_right _ (Nat.le_add_right _ _)

theorem Follows.scribble (follows : Follows v start chain d now) (member : current ∈ now)
    (changes : Changes (clusterArea v current) d after) : Follows v start chain after now := by
  obtain ⟨expected, grown⟩ := follows
  have front : ∀ address < v.rootStart * 512, after.bytes address = d.bytes address :=
    fun address before =>
    changes.bytes address fun inside =>
      absurd (rootStart_le_data.trans (clusterArea_data inside)) (Nat.not_le.mpr before)
  refine ⟨chainByte v after.bytes now, changes.faults.trans grown.faults,
    grown.linked.congr fun cluster inNow =>
    tableEntry_congr (grown.linked.valid inNow).2.2 front, grown.grows, grown.fresh,
    fun position inside => (if_pos inside).symm, fun position outside =>
    if_neg (Nat.not_lt.mpr outside), fun address apart => ?_, fun cluster known absent => ?_⟩
  · rw [changes.bytes address (apart current member).2]
    exact grown.frame address apart
  · rw [tableEntry_congr known front]
    exact grown.entries cluster known absent

theorem last_split {list : List Nat} {current index : Nat} (here : list[index]? = some current)
    (last : index + 1 = list.length) : ∃ front, list = front ++ [current] := by
  refine List.getLast?_eq_some_iff.mp ?_
  rw [List.getLast?_eq_getElem?, ← last]
  exact here

theorem Follows.next (follows : Follows v start chain d now) (here : now[index]? = some current)
    (whole : LinksWhole v d current) (stepped : nextOrAllocate v d current = (result, after)) :
    ∃ longer, Follows v start chain after longer ∧ now <+: longer ∧
      ∀ next ∈ result, longer[index + 1]? = some next := by
  have two := (follows.linked.valid (List.mem_of_getElem? here)).1
  rw [nextOrAllocate, fat16ReadFatEntry_eq two] at stepped
  dsimp only at stepped
  rcases follows.linked.next here with ⟨_, goesOn⟩ | ⟨last, mark⟩
  · obtain ⟨nextTwo, nextSmall, _⟩ := follows.linked.valid (List.mem_of_getElem? goesOn)
    have inside : ¬(fatEntry v d.bytes current < 2 ∨ 0xFFF8 ≤ fatEntry v d.bytes current) :=
      not_or.mpr ⟨Nat.not_lt.mpr nextTwo, Nat.not_le.mpr nextSmall⟩
    cases fault : d.faults d.calls with
    | false =>
        rw [fault, if_neg Bool.false_ne_true, if_neg inside] at stepped
        cases stepped
        refine ⟨now, follows.called, List.prefix_refl now, fun next isNext => ?_⟩
        rw [Option.mem_some_iff] at isNext
        rw [← isNext]
        exact goesOn
    | true =>
        -- An entry that cannot be read counts as the end, so the rest of the chain is at stake.
        obtain ⟨takes, links⟩ := whole (Or.inl fault)
        rw [fault, if_pos rfl, if_pos (Or.inl (by decide))] at stepped
        rcases fat16AllocateCluster_whole takes with ⟨taken, none, bytes, faults⟩ |
          ⟨fresh, _, _, _, _, first, clears, _⟩
        · rw [none] at stepped
          cases stepped
          exact ⟨now, follows.same bytes faults, List.prefix_refl now, by simp⟩
        · exact absurd (links fresh first clears).1 inside
  · have atEnd : EndsChain v d.bytes current := Or.inr mark
    obtain ⟨takes, links⟩ := whole (Or.inr atEnd)
    have ends : (if d.faults d.calls = true then 0 else fatEntry v d.bytes current) < 2 ∨
        0xFFF8 ≤ if d.faults d.calls = true then 0 else fatEntry v d.bytes current := by
      split
      next => exact Or.inl (by decide)
      next => exact Or.inr mark
    rw [if_pos ends] at stepped
    rcases fat16AllocateCluster_whole takes with ⟨taken, none, bytes, faults⟩ |
      ⟨fresh, taken, some, took, inTable, first, clears, calls⟩
    · rw [none] at stepped
      cases stepped
      exact ⟨now, follows.same bytes faults, List.prefix_refl now, by simp⟩
    · have goes : EntryWritten v taken.faults taken.calls := by
        rw [took.faults, calls]
        exact (links fresh first clears).2
      obtain ⟨linked, done, writes, _⟩ := @fat16WriteFatEntry_written v taken current fresh two goes
      obtain ⟨positive, rfl⟩ := Nat.exists_eq_succ_of_ne_zero
        (Nat.ne_of_gt (Nat.lt_of_lt_of_le (by decide) took.two))
      rw [some] at stepped
      simp only [done] at stepped
      cases stepped
      obtain ⟨expected, grown⟩ := follows
      obtain ⟨front, split⟩ := last_split here last
      refine ⟨now ++ [positive.succ], ⟨expected, grown.called.extend took inTable writes.faults
        (Or.inr ⟨front, current, split, writes.bytes⟩)⟩, List.prefix_append _ _, fun next isNext => ?_⟩
      rw [Option.mem_some_iff] at isNext
      rw [← isNext, last, List.getElem?_append_right (Nat.le_refl _), Nat.sub_self]
      rfl

theorem Follows.skip (follows : Follows v start chain d now) (here : now[index]? = some current)
    {skip : Nat} (whole : SkipsWhole v skip current d)
    (skipped : skipOrAllocate v skip current d = (result, after)) :
    ∃ longer, Follows v start chain after longer ∧ now <+: longer ∧
      ∀ next ∈ result, longer[index + skip]? = some next := by
  induction skip generalizing current d now index with
  | zero =>
      cases skipped
      refine ⟨now, follows, List.prefix_refl now, fun next isNext => ?_⟩
      rw [Option.mem_some_iff] at isNext
      rw [← isNext]
      exact here
  | succ skip ih =>
      obtain ⟨links, further⟩ := whole
      rw [skipOrAllocate] at skipped
      split at skipped
      next middle stepped =>
        cases skipped
        obtain ⟨longer, grown, extends', _⟩ := follows.next here links stepped
        exact ⟨longer, grown, extends', by simp⟩
      next reached middle stepped =>
        obtain ⟨longer, grown, extends', goesOn⟩ := follows.next here links stepped
        obtain ⟨longest, final, again, ends⟩ :=
          ih grown (goesOn reached rfl) (further reached middle stepped) skipped
        refine ⟨longest, final, extends'.trans again, fun next isNext => ?_⟩
        rw [← ends next isNext, Nat.succ_add_eq_add_succ]

theorem writeSectors_changes {intra remaining s written : Nat}
    (inside : s + remaining ≤ v.sectorsPerCluster) : Changes (clusterArea v current) d
      (writeSectors (v.clusterSector current) intra data remaining s written d).2 := by
  induction remaining generalizing s written d with
  | zero => exact Changes.refl d
  | succ remaining ih =>
      rw [writeSectors]
      split
      next => exact Changes.refl d
      next =>
        split
        next => exact ih (by omega)
        next =>
          dsimp only
          have reads := @ataReadSector_changes d (clusterArea v current) (v.clusterSector current + s)
          split
          next failed => rwa [failed] at reads
          next sector middle got =>
            rw [got] at reads
            have inCluster : sectorArea (v.clusterSector current + s) ⊆ clusterArea v current := by
              rintro address ⟨lower, upper⟩
              have bound : (s + 1) * 512 ≤ v.sectorsPerCluster * 512 := Nat.mul_le_mul_right 512 (by omega)
              rw [Nat.succ_mul] at bound
              rw [Nat.add_mul] at lower upper
              refine ⟨(Nat.le_add_right _ _).trans lower, upper.trans_le ?_⟩
              rw [clusterBase, Nat.add_assoc]
              exact Nat.add_le_add_left bound _
            have writes := (@ataWriteSector_changes middle (v.clusterSector current + s)
              (sector.store (intra - s * 512) ((data.drop written).take
                (min (512 - (intra - s * 512)) (data.length - written))))).mono inCluster
            split
            next failed =>
              rw [failed] at writes
              exact reads.trans writes
            next put =>
              rw [put] at writes
              exact (reads.trans writes).trans (ih (by omega))

theorem Follows.writeClusters (follows : Follows v start chain d now)
    (here : now[index]? = some current)
    {turns intra written : Nat} (whole : WritesWhole v data turns current intra written d)
    {result : Option Unit}
    (wrote : writeClusters v data turns current intra written d = (result, after)) :
    ∃ longer, Follows v start chain after longer ∧ now <+: longer := by
  induction turns generalizing current intra written d now index with
  | zero =>
      cases wrote
      exact ⟨now, follows, List.prefix_refl now⟩
  | succ turns ih =>
      have member := List.mem_of_getElem? here
      have scribbles := @writeSectors_changes v d current data intra v.sectorsPerCluster 0 written
        (Nat.le_of_eq (Nat.zero_add _))
      rw [Szczupak.writeClusters] at wrote
      split at wrote
      next middle stopped =>
        cases wrote
        rw [stopped] at scribbles
        exact ⟨now, follows.scribble member scribbles, List.prefix_refl now⟩
      next reached middle stored =>
        rw [stored] at scribbles
        have grown := follows.scribble member scribbles
        split at wrote
        next =>
          cases wrote
          exact ⟨now, grown, List.prefix_refl now⟩
        next more =>
          obtain ⟨links, further⟩ := whole reached middle stored (Nat.lt_of_not_le more)
          split at wrote
          next later stepped =>
            cases wrote
            obtain ⟨longer, final, extends', _⟩ := grown.next here links stepped
            exact ⟨longer, final, extends'⟩
          next next' later stepped =>
            obtain ⟨longer, final, extends', goesOn⟩ := grown.next here links stepped
            obtain ⟨longest, last, again⟩ := ih final (goesOn next' rfl) (further next' later stepped) wrote
            exact ⟨longest, last, extends'.trans again⟩

theorem StartsAt.empty {cluster : Nat} (starts : StartsAt cluster chain) (small : cluster < 2)
    (linked : Chain v d.bytes chain) : chain = [] := by
  cases chain with
  | nil => rfl
  | cons head tail =>
      have same : cluster = head := starts
      have two := linked.1.1
      omega

theorem firstCluster_follows {node : Fat16Node} (chained : ChainFrom v d.bytes node.cluster chain)
    (whole : node.cluster < 2 → TakesWhole v d)
    (first : firstCluster v d node = (result, after)) :
    ∃ longer, Follows v d chain after longer ∧ (result = none → longer = chain) ∧
      ∀ cluster ∈ result, longer[0]? = some cluster ∧ (2 ≤ node.cluster → cluster = node.cluster) := by
  obtain ⟨starts, linked⟩ := chained
  rw [firstCluster] at first
  split at first
  next small =>
    have empty := starts.empty small linked
    subst empty
    rcases fat16AllocateCluster_whole (whole small) with ⟨taken, none, bytes, faults⟩ |
      ⟨fresh, taken, some, took, inTable, _⟩
    · rw [none] at first
      cases first
      exact ⟨[], (Follows.initial linked).same bytes faults, fun _ => rfl, by simp⟩
    · obtain ⟨positive, rfl⟩ := Nat.exists_eq_succ_of_ne_zero
        (Nat.ne_of_gt (Nat.lt_of_lt_of_le (by decide) took.two))
      rw [some] at first
      cases first
      refine ⟨[positive.succ], ⟨_, (@Grown.initial v d [] linked).extend took inTable rfl
        (Or.inl ⟨rfl, rfl⟩)⟩, by simp, fun cluster isCluster => ?_⟩
      rw [Option.mem_some_iff] at isCluster
      rw [← isCluster]
      exact ⟨rfl, fun two => absurd small (Nat.not_lt.mpr two)⟩
  next two =>
    cases first
    refine ⟨chain, Follows.initial linked, fun _ => rfl, fun cluster isCluster => ?_⟩
    rw [Option.mem_some_iff] at isCluster
    rw [← isCluster]
    cases chain with
    | nil => exact absurd starts two
    | cons head tail =>
        rw [show node.cluster = head from starts]
        exact ⟨rfl, fun _ => rfl⟩

theorem fat16WriteNode_follows {node written : Fat16Node} {offset : Nat} {ok : Bool}
    (chained : ChainFrom v d.bytes node.cluster chain) (whole : WriteWhole v d node data offset)
    (wrote : fat16WriteNode v d node data offset = (ok, written, after)) :
    ∃ longer, Follows v d chain after longer ∧ ChainFrom v after.bytes written.cluster longer ∧
      (2 ≤ node.cluster → written.cluster = node.cluster) := by
  have stays : Follows v d chain d chain := Follows.initial chained.2
  rw [fat16WriteNode] at wrote
  split at wrote
  next =>
    cases wrote
    exact ⟨chain, stays, chained, fun _ => rfl⟩
  next file =>
    split at wrote
    next =>
      cases wrote
      exact ⟨chain, stays, chained, fun _ => rfl⟩
    next some =>
      split at wrote
      next =>
        cases wrote
        exact ⟨chain, stays, chained, fun _ => rfl⟩
      next fits =>
        obtain ⟨takes, further⟩ := whole (Bool.not_eq_true _ ▸ file) some (Nat.lt_of_not_le fits)
        split at wrote
        next afterFirst first =>
          cases wrote
          obtain ⟨longer, grown, same, _⟩ := firstCluster_follows chained takes first
          have isChain := same rfl
          subst isChain
          exact ⟨longer, grown, ⟨chained.1, grown.linked⟩, fun _ => rfl⟩
        next cluster afterFirst first =>
          obtain ⟨skips, writes⟩ := further cluster afterFirst first
          obtain ⟨longer, grown, _, starts⟩ := firstCluster_follows chained takes first
          obtain ⟨head, keeps⟩ := starts cluster rfl
          have begins : ∀ {disk longest}, Follows v d chain disk longest → longer <+: longest →
              ChainFrom v disk.bytes cluster longest := by
            intro disk longest final extends'
            refine ⟨?_, final.linked⟩
            obtain ⟨rest, rfl⟩ := extends'
            cases longer with
            | nil => cases head
            | cons first tail => exact (Option.some.inj head).symm
          dsimp only at wrote
          split at wrote
          next afterSkip skipped =>
            cases wrote
            obtain ⟨longest, final, extends', _⟩ := grown.skip head skips skipped
            exact ⟨longest, final, begins final extends', keeps⟩
          next current afterSkip skipped =>
            obtain ⟨longest, final, extends', reaches⟩ := grown.skip head skips skipped
            have written := fun result disk => @Follows.writeClusters v d afterSkip disk chain longest current
              _ data final (reaches current rfl) _ _ _ (writes current afterSkip skipped) result
            split at wrote
            next afterWrite wrote' =>
              cases wrote
              obtain ⟨last, ends, again⟩ := written _ _ wrote'
              exact ⟨last, ends, begins ends (extends'.trans again), keeps⟩
            next afterWrite wrote' =>
              cases wrote
              obtain ⟨last, ends, again⟩ := written _ _ wrote'
              exact ⟨last, ends, begins ends (extends'.trans again), keeps⟩

end Growth

end Szczupak
