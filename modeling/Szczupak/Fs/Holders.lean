import Szczupak.Fs.InnerEntries
import Szczupak.Fs.VolumeTree
import Szczupak.Lib.Shares

/-!
No cluster is lost on a mounted volume by a call that takes and gives up its clusters whole.  Every
such call changes the share of one holder: it takes free clusters, or what it gives up is free
afterwards.
-/

namespace Szczupak

def Holder.AtRoot : Holder → Prop
  | .inner _ => False
  | _ => True

namespace VolumeTree

section Change

variable {v : Volume} {s after : VolumeTree} {holder other : Holder} {cluster : Nat}

theorem mem_tops : cluster ∈ s.tops v ↔
    ∃ holder : Holder, holder.AtRoot ∧ s.Holds v holder ∧ s.IsDirectory v holder ∧
    s.first v holder = cluster := by
  constructor
  · rintro (⟨node, known, directory, isFirst⟩ | ⟨slot, live, unowned, directory, isFirst⟩)
    · exact ⟨.node node, trivial, known, directory, isFirst⟩
    · exact ⟨.slot slot, trivial, ⟨live, unowned⟩, directory, isFirst⟩
  · rintro ⟨holder, atRoot, holds, directory, isFirst⟩
    cases holder with
    | node node => exact Or.inl ⟨node, holds, directory, isFirst⟩
    | slot slot => exact Or.inr ⟨slot, holds.1, holds.2, directory, isFirst⟩
    | inner address => exact atRoot.elim

theorem share_inUse : s.share v holder ⊆ inUse v s.bytes := by
  rintro cluster ⟨_, chain, chained, member⟩
  have valid := chained.2.valid member
  exact ⟨valid.1, valid.2.2, chained.2.nonzero member⟩

theorem Accounted.divided (accounted : s.Accounted v) : Divided (s.share v) (inUse v s.bytes) :=
  divided_iff.mpr ⟨fun _ => share_inUse, accounted.owner⟩

def Stays (v : Volume) (s after : VolumeTree) (holder : Holder) : Prop :=
  (after.Holds v holder ↔ s.Holds v holder) ∧ (s.Holds v holder →
      after.first v holder = s.first v holder ∧ (after.IsDirectory v holder ↔ s.IsDirectory v holder)) ∨
    (s.Holds v holder → s.first v holder < 2) ∧ (after.Holds v holder → after.first v holder < 2)

theorem entryIn_two {bytes : Mem} {address : Nat} (entry : EntryIn v bytes cluster address) :
    2 ≤ cluster := by
  by_contra small
  obtain ⟨chain, index, ⟨starts, linked⟩, inside, _⟩ := entry
  have empty : chain = [] := @StartsAt.empty v ⟨bytes, fun _ => false, 0, []⟩ chain cluster starts
    (Nat.lt_of_not_le small) linked
  rw [empty, List.length_nil, Nat.zero_mul] at inside
  exact absurd inside (Nat.not_lt_zero _)

theorem share_small (small : s.Holds v holder → s.first v holder < 2) : s.share v holder = ∅ := by
  refine Set.eq_empty_of_forall_notMem ?_
  rintro cluster ⟨holds, chain, ⟨starts, linked⟩, member⟩
  have empty : chain = [] := @StartsAt.empty v s.vfs.disk chain _ starts (small holds) linked
  rw [empty] at member
  exact absurd member List.not_mem_nil

/-- What a call does to the clusters when one share changes at most: it takes free clusters, and
those it gives up are free afterwards. -/
structure Moves (v : Volume) (s after : VolumeTree) (holder : Holder) : Prop where
  atRoot : holder.AtRoot
  fresh : ∀ cluster ∈ after.share v holder, cluster ∈ s.share v holder ∨ fatEntry v s.bytes cluster = 0
  freed : ∀ cluster ∈ s.share v holder, cluster ∉ after.share v holder →
    fatEntry v after.bytes cluster = 0
  kept : ∀ cluster ∈ inUse v s.bytes, cluster ∉ s.share v holder →
    KeepsCluster v s.bytes after.bytes cluster
  free : ∀ cluster < v.fatEntries, fatEntry v s.bytes cluster = 0 → cluster ∉ after.share v holder →
    fatEntry v after.bytes cluster = 0
  chained : after.Holds v holder → ∃ chain, ChainFrom v after.bytes (after.first v holder) chain
  others : ∀ other : Holder, other.AtRoot → other ≠ holder → Stays v s after other
  emptied : s.Holds v holder → s.IsDirectory v holder → ∀ address,
    ¬EntryIn v s.bytes (s.first v holder) address
  empty : after.Holds v holder → after.IsDirectory v holder →
    ∀ address, ¬EntryIn v after.bytes (after.first v holder) address

section

variable (moves : Moves v s after holder) (accounted : s.Accounted v)
include moves accounted

theorem Moves.keptChain (different : other ≠ holder)
    (holds : s.Holds v other) : KeptChain v s.bytes after.bytes (s.first v other) := by
  obtain ⟨chain, chained⟩ := accounted.chained other holds
  refine ⟨chain, chained, fun cluster member => ?_⟩
  have owns : cluster ∈ s.share v other := ⟨holds, chain, chained, member⟩
  exact moves.kept cluster (share_inUse owns) fun also =>
    different (accounted.divided.apart other holder cluster owns also)

theorem Moves.inner (address : Nat) :
    (after.Holds v (.inner address) ↔ s.Holds v (.inner address)) ∧
      (s.Holds v (.inner address) → ∀ k < 32, after.bytes (address + k) = s.bytes (address + k)) := by
  have notHolder : ∀ address, Holder.inner address ≠ holder := by
    rintro address rfl
    exact moves.atRoot
  refine inner_iff (fun dir holds => moves.keptChain accounted (notHolder dir) holds)
    (fun cluster isTop address entry => ?_) (fun cluster isTop address entry => ?_) address
  · obtain ⟨other, atRoot, holds, directory, rfl⟩ := mem_tops.mp isTop
    by_cases same : other = holder
    · subst same
      exact absurd entry (moves.emptied holds directory address)
    · have kept := moves.keptChain accounted same holds
      rcases moves.others other atRoot same with ⟨holdsToo, stays⟩ | ⟨small, _⟩
      · obtain ⟨isFirst, isDirectory⟩ := stays holds
        exact ⟨mem_tops.mpr ⟨other, atRoot, holdsToo.mpr holds, isDirectory.mpr directory, isFirst⟩, kept⟩
      · exact absurd (small holds) (Nat.not_lt.mpr (entryIn_two entry))
  · obtain ⟨other, atRoot, holds, directory, rfl⟩ := mem_tops.mp isTop
    by_cases same : other = holder
    · subst same
      exact absurd entry (moves.empty holds directory address)
    · rcases moves.others other atRoot same with ⟨holdsToo, stays⟩ | ⟨_, small⟩
      · have before := holdsToo.mp holds
        obtain ⟨isFirst, isDirectory⟩ := stays before
        rw [isFirst]
        exact ⟨mem_tops.mpr ⟨other, atRoot, before, isDirectory.mp directory, rfl⟩,
          moves.keptChain accounted same before⟩
      · exact absurd (small holds) (Nat.not_lt.mpr (entryIn_two entry))

theorem Moves.stays (different : other ≠ holder) :
    Stays v s after other := by
  cases other with
  | node node => exact moves.others _ trivial different
  | slot slot => exact moves.others _ trivial different
  | inner address =>
      obtain ⟨holdsToo, same⟩ := moves.inner accounted address
      refine Or.inl ⟨holdsToo, fun holds => ?_⟩
      obtain ⟨attr, start⟩ := entry_same (same holds)
      refine ⟨start, ?_⟩
      rw [IsDirectory, IsDirectory, attr]

theorem Moves.share (different : other ≠ holder) :
    after.share v other = s.share v other := by
  rcases moves.stays accounted different with ⟨holdsToo, stays⟩ | ⟨small, smallToo⟩
  · ext cluster
    constructor
    · rintro ⟨holds, chain, chained, member⟩
      have before := holdsToo.mp holds
      obtain ⟨again, rechained, keeps⟩ := moves.keptChain accounted different before
      rw [(stays before).1] at chained
      rw [chained.unique (rechained.kept keeps)] at member
      exact ⟨before, again, rechained, member⟩
    · rintro ⟨before, chain, chained, member⟩
      obtain ⟨again, rechained, keeps⟩ := moves.keptChain accounted different before
      rw [chained.unique rechained] at member
      refine ⟨holdsToo.mpr before, again, ?_, member⟩
      rw [(stays before).1]
      exact rechained.kept keeps
  · rw [share_small small, share_small smallToo]

end

theorem Accounted.moves (accounted : s.Accounted v) (holder : Holder)
    (moves : Moves v s after holder) : after.Accounted v := by
  have divided : Divided (after.share v) (inUse v after.bytes) := by
    refine accounted.divided.change holder (fun other different => moves.share accounted different)
      (fun cluster owns => ?_) (fun cluster => ⟨fun used => ?_, ?_⟩)
    · exact (moves.fresh cluster owns).imp id fun free used => used.2.2 free
    · by_cases owns : cluster ∈ after.share v holder
      · exact Or.inl owns
      · refine Or.inr ⟨⟨used.1, used.2.1, fun free => ?_⟩, fun before =>
          used.2.2 (moves.freed cluster before owns)⟩
        exact used.2.2 (moves.free cluster used.2.1 free owns)
    · rintro (owns | ⟨used, notShare⟩)
      · exact share_inUse owns
      · refine ⟨used.1, used.2.1, ?_⟩
        rw [(moves.kept cluster used notShare).1]
        exact used.2.2
  refine ⟨fun other holds => ?_, (divided_iff.mp divided).2⟩
  by_cases same : other = holder
  · rw [same] at holds ⊢
    exact moves.chained holds
  · rcases moves.stays accounted same with ⟨holdsToo, stays⟩ | ⟨_, small⟩
    · have before := holdsToo.mp holds
      obtain ⟨chain, chained, keeps⟩ := moves.keptChain accounted same before
      rw [(stays before).1]
      exact ⟨chain, chained.kept keeps⟩
    · exact ⟨[], small holds, trivial⟩

theorem Accounted.quiet (accounted : s.Accounted v) (null : 0 ∉ s.vfs.nodes ∧ 0 ∉ after.vfs.nodes)
    (kept : ∀ cluster ∈ inUse v s.bytes, KeepsCluster v s.bytes after.bytes cluster)
    (free : ∀ cluster < v.fatEntries, fatEntry v s.bytes cluster = 0 → fatEntry v after.bytes cluster = 0)
    (stays : ∀ other : Holder, other.AtRoot → Stays v s after other) : after.Accounted v := by
  refine accounted.moves (.node 0) ⟨trivial, ?_, ?_, fun cluster used _ => kept cluster used,
    fun cluster known zero _ => free cluster known zero, ?_, fun other atRoot _ =>
    stays other atRoot, ?_, ?_⟩
  · exact fun _ owns => absurd owns.1 null.2
  · exact fun _ owns => absurd owns.1 null.1
  · exact fun holds => absurd holds null.2
  · exact fun holds => absurd holds null.1
  · exact fun holds => absurd holds null.2

end Change

end VolumeTree

end Szczupak
