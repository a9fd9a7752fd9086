import Szczupak.Fs.Calls
import Szczupak.Fs.ReadWrite
import Szczupak.Fs.VfsCore

/-!
What the driver does to chains on a reliable disk.  The release of a chain clears the entries of
its clusters and no others.
-/

namespace Szczupak

def ChainFrom (v : Volume) (bytes : Mem) (cluster : Nat) (chain : List Nat) : Prop :=
  StartsAt cluster chain ∧ Chain v bytes chain

section ChainFrom

variable {v : Volume} {bytes other : Mem} {cluster : Nat} {chain again : List Nat}

theorem ChainFrom.unique (first : ChainFrom v bytes cluster chain)
    (second : ChainFrom v bytes cluster again) : chain = again := by
  obtain ⟨starts, linked⟩ := first
  obtain ⟨restarts, relinked⟩ := second
  cases chain with
  | nil =>
      cases again with
      | nil => rfl
      | cons head tail =>
          have small : cluster < 2 := starts
          have same : cluster = head := restarts
          have two := relinked.1.1
          omega
  | cons head tail =>
      have same : cluster = head := starts
      cases again with
      | nil =>
          have small : cluster < 2 := restarts
          have two := linked.1.1
          omega
      | cons next rest =>
          have resame : cluster = next := restarts
          subst same
          subst resame
          rw [linked.unique relinked]

theorem ChainFrom.congr (first : ChainFrom v bytes cluster chain)
    (same : ∀ cluster ∈ chain, fatEntry v other cluster = fatEntry v bytes cluster) :
    ChainFrom v other cluster chain := ⟨first.1, first.2.congr same⟩

theorem Chain.short (linked : Chain v bytes chain) : chain.length < 0x10000 := by
  have inRange : chain ⊆ List.range 0xFFF8 := fun cluster member =>
    List.mem_range.mpr (linked.valid member).2.1
  have bound := (List.subperm_of_subset linked.nodup inRange).length_le
  rw [List.length_range] at bound
  omega

/-- Where the chain goes on from its first cluster, which is not to that cluster itself. -/
theorem Chain.follows (linked : Chain v bytes (cluster :: chain)) :
    (StartsAt (fatEntry v bytes cluster) chain ∨ chain = [] ∧ 0xFFF8 ≤ fatEntry v bytes cluster) ∧
      fatEntry v bytes cluster ≠ cluster := by
  have apart := (List.nodup_cons.mp linked.nodup).1
  obtain ⟨⟨_, small, _⟩, links, _⟩ := linked
  cases chain with
  | nil =>
      have mark : 0xFFF8 ≤ fatEntry v bytes cluster := links
      exact ⟨Or.inr ⟨rfl, links⟩, by omega⟩
  | cons next more =>
      have named : fatEntry v bytes cluster = next := links
      exact ⟨Or.inl links, named ▸ fun same => apart (same ▸ List.mem_cons_self)⟩

/-- With the entry of its first cluster cleared the rest is still a chain, and clearing that too
clears the whole chain. -/
theorem Chain.cleared (linked : Chain v bytes (cluster :: chain))
    (stored : other = fatStored v cluster 0 v.numFats 0 bytes) :
    Chain v other chain ∧ ∀ after : Mem,
      (∀ cell < v.fatEntries, fatEntry v after cell = if cell ∈ chain then 0
      else fatEntry v other cell) → ∀ cell < v.fatEntries, fatEntry v after cell =
        if cell ∈ cluster :: chain then 0 else fatEntry v bytes cell := by
  have apart := (List.nodup_cons.mp linked.nodup).1
  obtain ⟨⟨_, _, known⟩, _, later⟩ := linked
  have entries : ∀ cell < v.fatEntries, fatEntry v other cell =
      if cell = cluster then 0 else fatEntry v bytes cell := by
    intro cell inTable
    rw [stored]
    split
    next same =>
      rw [same]
      exact fatStored_same known
    next different => exact fatStored_other inTable different
  constructor
  · refine later.congr fun cell member => ?_
    have different : cell ≠ cluster := by
      rintro rfl
      exact apart member
    rw [entries cell (later.valid member).2.2, if_neg different]
  · intro after zeros cell inTable
    rw [zeros cell inTable, entries cell inTable]
    by_cases same : cell = cluster
    · rw [same, if_neg apart, if_pos rfl, if_pos List.mem_cons_self]
    · rw [if_neg same]
      exact if_congr (List.mem_cons.trans (or_iff_right same)).symm rfl rfl

end ChainFrom

theorem Changes.tableEntry {v : Volume} {d after : Disk} {area : Set Nat} {cluster : Nat}
    (changes : Changes area d after) (behind : ∀ address ∈ area, v.rootStart * 512 ≤ address)
    (known : cluster < v.fatEntries) : fatEntry v after.bytes cluster = fatEntry v d.bytes cluster := by
  refine Mem.readLE_congr fun offset bound => changes.bytes _ fun inside => ?_
  have above := behind _ inside
  have inWord : v.fatStart * 512 + cluster * 2 + offset ∈ fatWords v cluster := by
    refine ⟨0, v.fatsPos, ?_⟩
    rw [fatWord, Nat.zero_mul, Nat.add_zero]
    exact ⟨Nat.le_add_right _ _, Nat.add_lt_add_left bound _⟩
  exact absurd above (Nat.not_le.mpr (fatWords_table known inWord).2)

section Release

variable {v : Volume} {d after : Disk} {cluster guard : Nat} {chain : List Nat}

theorem releaseFrom_chain (reliable : Reliable d) (linked : Chain v d.bytes chain)
    (starts : StartsAt cluster chain ∨ chain = [] ∧ 0xFFF8 ≤ cluster) (enough : chain.length < guard) :
    ∃ after, releaseFrom v guard cluster d = (true, after) ∧ Changes (fatArea v) d after ∧
      ∀ other < v.fatEntries, fatEntry v after.bytes other =
        if other ∈ chain then 0 else fatEntry v d.bytes other := by
  induction chain generalizing cluster guard d with
  | nil =>
      obtain ⟨guard, rfl⟩ := Nat.exists_eq_succ_of_ne_zero (Nat.ne_of_gt enough)
      exact ⟨d, if_pos (starts.imp id fun both => both.2), Changes.refl d, fun _ _ => rfl⟩
  | cons first rest ih =>
      obtain ⟨guard, rfl⟩ := Nat.exists_eq_succ_of_ne_zero (Nat.ne_of_gt (Nat.zero_lt_of_lt enough))
      have isFirst : cluster = first := starts.resolve_right fun both => absurd both.1 (List.cons_ne_nil _ _)
      subst isFirst
      obtain ⟨continues, goesOn⟩ := linked.follows
      obtain ⟨two, small, known⟩ := linked.1
      obtain ⟨cleared, done, clears⟩ :=
        @fat16WriteFatEntry_reliable d.called v cluster 0 (called_reliable reliable) two
      have writes := @fat16WriteFatEntry_changes v d.called cluster 0 known
      rw [done] at writes
      obtain ⟨still, whole⟩ := linked.cleared clears.bytes
      obtain ⟨after, released, changes, zeros⟩ := @ih cleared (fatEntry v d.bytes cluster) guard
        (clears.reliable (called_reliable reliable)) still continues (Nat.lt_of_succ_lt_succ enough)
      refine ⟨after, ?_, (called_changes.trans writes).trans changes, whole after.bytes zeros⟩
      rw [releaseFrom, if_neg (by omega), fat16ReadFatEntry_reliable reliable two]
      dsimp only
      rw [done]
      dsimp only
      rw [if_neg goesOn, released]

theorem release_chain (reliable : Reliable d) (chained : ChainFrom v d.bytes cluster chain) :
    ∃ after, (if 2 ≤ cluster then fat16ReleaseClusterChain v d cluster else (true, d)) = (true, after) ∧
      Changes (fatArea v) d after ∧ ∀ other < v.fatEntries, fatEntry v after.bytes other =
        if other ∈ chain then 0 else fatEntry v d.bytes other := by
  obtain ⟨starts, linked⟩ := chained
  by_cases two : 2 ≤ cluster
  · rw [if_pos two, fat16ReleaseClusterChain, if_neg (by omega)]
    exact releaseFrom_chain reliable linked (Or.inl starts) linked.short
  · have none : chain = [] := by
      cases chain with
      | nil => rfl
      | cons head tail =>
          have same : cluster = head := starts
          have valid := linked.1.1
          omega
    refine ⟨d, if_neg two, Changes.refl d, fun other _ => ?_⟩
    rw [none, if_neg List.not_mem_nil]

theorem fat16Delete_chain {name : List UInt8} {slot : Nat} (reliable : Reliable d)
    (deleted : fat16Delete v d name = (true, after))
    (first : FirstNamed (rootMem v d.bytes) (fat16NameTo83 name) slot)
    (chained : ChainFrom v d.bytes (entryCluster (rootMem v d.bytes) slot) chain) :
    Changes (fatArea v ∪ slotArea v slot) d after ∧
      EntryGone v (rootMem v d.bytes) (rootMem v after.bytes) slot ∧
      ∀ other < v.fatEntries, fatEntry v after.bytes other =
        if other ∈ chain then 0 else fatEntry v d.bytes other := by
  obtain ⟨found, looked, released, steps⟩ := fat16Delete_steps deleted
  have isSlot := steps.first.unique first
  subst isSlot
  have bytes := steps.foundIn.same.none
  have fromLooked : ChainFrom v looked.bytes (entryCluster (rootMem v d.bytes) found.index) chain := by
    rw [bytes]
    exact chained
  have done := steps.releases
  obtain ⟨cleared, releases, changes, entries⟩ :=
    release_chain (steps.foundIn.same.reliable reliable) fromLooked
  rw [releases] at done
  cases done
  obtain ⟨table, slots, gone⟩ := steps.gone changes Set.subset_union_left
  refine ⟨(table.mono Set.subset_union_left).trans (slots.mono Set.subset_union_right), gone,
    fun other known => ?_⟩
  rw [slots.tableEntry (fun _ inside => (Nat.le_add_right _ _).trans inside.1) known,
    entries other known, bytes]

end Release

end Szczupak
