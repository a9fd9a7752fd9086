import Szczupak.Desktop.Geometry
import Szczupak.Lib.Absorb
import Szczupak.Lib.Transition

/-!
The dirty regions of `desktop/window.c`.  A rectangle takes in the stored ones that it meets, and
those that the union meets; where too many are left the whole screen is drawn.
-/

namespace Szczupak

def maxDirtyRects : Nat := 48

structure DirtySet where
  rects : List Rect
  fullRedraw : Bool

def dirtyInit : DirtySet := { rects := [], fullRedraw := false }

structure DirtyCall where
  fb : FbInfo
  rect : Rect

/-- `none` when the loop takes more turns than it is given. -/
def dirtyAdd (turns : Nat) (d : DirtySet) (call : DirtyCall) : Option DirtySet :=
  if d.fullRedraw then some d
  else
    let merged := clipToFb call.fb call.rect
    if !rectValid merged then some d
    else
      match absorb rectIntersects rectUnion turns d.rects merged 0 with
      | none => none
      | some (rects, merged) =>
          if rects.length < maxDirtyRects then some { d with rects := rects ++ [merged] }
          else some { rects := [], fullRedraw := true }

/-- The stored rectangles are few, not empty, on a screen that encloses those of the calls, apart
from each other, and cover what was added. -/
structure Regions (width height : Nat) (added : List DirtyCall) (rects : List Rect) : Prop where
  few : rects.length ≤ maxDirtyRects
  inside : ∀ r ∈ rects, r.Inside width height
  apart : rects.Pairwise Rect.Apart
  covered : ∀ call ∈ added, ∀ x y, call.rect.Has x y → call.fb.Has x y → ∃ r ∈ rects, r.Has x y

structure DirtyCall.Fits (width height : Nat) (call : DirtyCall) : Prop where
  sums : call.rect.SumsFit
  width : call.fb.width.toNat ≤ width
  height : call.fb.height.toNat ≤ height

section Dirty

variable {width height : Nat} {call : DirtyCall} {added : List DirtyCall}

theorem Rect.Inside.enclosed {r : Rect} {narrower lower : Nat} (inside : r.Inside narrower lower)
    (wide : narrower ≤ width) (high : lower ≤ height) : r.Inside width height := by
  obtain ⟨left, positive, right, top, tall, bottom⟩ := inside
  constructor <;> omega

theorem Rect.Apart.symm {a b : Rect} (apart : a.Apart b) : b.Apart a :=
  fun x y inB inA => apart x y inA inB

structure Growing (width height : Nat) (wanted : Int → Int → Prop) (count : Nat) (rects : List Rect)
    (merged : Rect) : Prop where
  few : rects.length ≤ count
  inside : ∀ r ∈ rects, r.Inside width height
  apart : rects.Pairwise Rect.Apart
  grown : merged.Inside width height
  covered : ∀ x y, wanted x y → merged.Has x y ∨ ∃ r ∈ rects, r.Has x y

theorem Growing.takes (narrow : width < 2 ^ 31) (low : height < 2 ^ 31) {wanted : Int → Int → Prop}
    {count : Nat} {rects rest : List Rect} {r merged : Rect} (order : rects.Perm (r :: rest))
    (growing : Growing width height wanted count rects merged) :
    Growing width height wanted count rest (rectUnion r merged) := by
  have rInside := growing.inside r (order.mem_iff.mpr List.mem_cons_self)
  have shorter := order.length_eq
  have few := growing.few
  have apart := (order.pairwise_iff Rect.Apart.symm).mp growing.apart
  have unionHas : ∀ x y, r.Has x y ∨ merged.Has x y → (rectUnion r merged).Has x y :=
    fun x y has => rectUnion_has rInside growing.grown narrow low has
  refine { few := ?_, inside := ?_, apart := ?_, grown := ?_, covered := ?_ }
  · rw [List.length_cons] at shorter
    omega
  · intro other member
    exact growing.inside other (order.mem_iff.mpr (List.mem_cons_of_mem _ member))
  · exact (List.pairwise_cons.mp apart).2
  · exact rectUnion_inside rInside growing.grown narrow low
  · intro x y want
    rcases growing.covered x y want with inMerged | ⟨other, member, has⟩
    · exact Or.inl (unionHas x y (Or.inr inMerged))
    · rcases List.mem_cons.mp (order.mem_iff.mp member) with rfl | later
      · exact Or.inl (unionHas x y (Or.inl has))
      · exact Or.inr ⟨other, later, has⟩

theorem Regions.nothing_new {rects : List Rect} (regions : Regions width height added rects)
    (outside : ∀ x y, call.rect.Has x y → ¬call.fb.Has x y) :
    Regions width height (added ++ [call]) rects := by
  refine ⟨regions.few, regions.inside, regions.apart, ?_⟩
  intro other member x y has onScreen
  rcases List.mem_append.mp member with old | new
  · exact regions.covered other old x y has onScreen
  · rw [List.mem_singleton.mp new] at has onScreen
    exact absurd onScreen (outside x y has)

theorem Growing.regions (narrow : width < 2 ^ 31) (low : height < 2 ^ 31)
    {wanted : Int → Int → Prop} {count : Nat}
    {rects : List Rect} {merged : Rect} (growing : Growing width height wanted count rects merged)
    (misses : ∀ r ∈ rects, rectIntersects r merged = false) (room : rects.length < maxDirtyRects)
    (wants : ∀ call ∈ added, ∀ x y, call.rect.Has x y → call.fb.Has x y → wanted x y) :
    Regions width height added (rects ++ [merged]) := by
  refine { few := ?_, inside := ?_, apart := ?_, covered := ?_ }
  · rw [List.length_append, List.length_singleton]
    exact room
  · intro r member
    rcases List.mem_append.mp member with old | new
    · exact growing.inside r old
    · exact List.mem_singleton.mp new ▸ growing.grown
  · refine List.pairwise_append.mpr ⟨growing.apart, List.pairwise_singleton _ _, ?_⟩
    intro r member other new
    rw [List.mem_singleton.mp new]
    exact rectIntersects_apart (growing.inside r member) growing.grown narrow low (misses r member)
  · intro call member x y has onScreen
    rcases growing.covered x y (wants call member x y has onScreen) with inMerged | ⟨r, member, inR⟩
    · exact ⟨merged, by simp, inMerged⟩
    · exact ⟨r, List.mem_append_left _ member, inR⟩

theorem dirtyAdd_spec {turns : Nat} (enough : (maxDirtyRects + 1) * (maxDirtyRects + 1) ≤ turns)
    (narrow : width < 2 ^ 31) (low : height < 2 ^ 31) (fits : call.Fits width height) {d : DirtySet}
    (sound : d.fullRedraw = true ∨ Regions width height added d.rects) :
    ∃ next, dirtyAdd turns d call = some next ∧
      (next.fullRedraw = true ∨ Regions width height (added ++ [call]) next.rects) := by
  rw [dirtyAdd]
  split
  next full => exact ⟨d, rfl, Or.inl full⟩
  next partly =>
    have regions := sound.resolve_left partly
    have screen : call.fb.SumsFit := ⟨by have wide := fits.width; omega, by have high := fits.height; omega⟩
    dsimp only
    split
    next invalid =>
      refine ⟨d, rfl, Or.inr (regions.nothing_new fun x y has onScreen => ?_)⟩
      obtain ⟨left, right, top, bottom⟩ := clipToFb_has fits.sums screen has onScreen
      refine absurd (rectValid_iff.mpr ⟨?_, ?_⟩) (by simpa using invalid)
      · omega
      · omega
    next valid =>
      have grown : (clipToFb call.fb call.rect).Inside width height :=
        (clipToFb_inside fits.sums screen (by simpa using valid)).enclosed fits.width fits.height
      have few := regions.few
      have square : (d.rects.length + 1) * (d.rects.length + 1) ≤ turns :=
        Nat.le_trans (Nat.mul_le_mul (by omega) (by omega)) enough
      obtain ⟨⟨rects, merged⟩, scanned⟩ := @absorb_returns Rect rectIntersects rectUnion
        turns 0 d.rects (clipToFb call.fb call.rect) (Nat.zero_le _) square
      rw [scanned]
      dsimp only
      let wanted (x y : Int) : Prop := ∃ other ∈ added ++ [call], other.rect.Has x y ∧ other.fb.Has x y
      have start : Growing width height wanted d.rects.length d.rects (clipToFb call.fb call.rect) := by
        refine ⟨Nat.le_refl _, regions.inside, regions.apart, grown, ?_⟩
        rintro x y ⟨other, member, has, onScreen⟩
        rcases List.mem_append.mp member with old | new
        · exact Or.inr (regions.covered other old x y has onScreen)
        · rw [List.mem_singleton.mp new] at has onScreen
          exact Or.inl (clipToFb_has fits.sums screen has onScreen)
      obtain ⟨growing, misses⟩ := absorb_spec
        (fun _ _ _ _ order _ growing => Growing.takes narrow low order growing) start
        (fun j before => absurd before (Nat.not_lt_zero j)) scanned
      split
      next room =>
        refine ⟨_, rfl, Or.inr (growing.regions narrow low misses room ?_)⟩
        intro other member x y has onScreen
        exact ⟨other, member, has, onScreen⟩
      next => exact ⟨_, rfl, Or.inl rfl⟩

theorem Regions.none : Regions width height [] dirtyInit.rects :=
  ⟨Nat.zero_le _, fun _ member => absurd member List.not_mem_nil, List.Pairwise.nil,
    fun _ member => absurd member List.not_mem_nil⟩

theorem dirtyRun_spec {turns : Nat} (enough : (maxDirtyRects + 1) * (maxDirtyRects + 1) ≤ turns)
    (narrow : width < 2 ^ 31) (low : height < 2 ^ 31) {calls : List DirtyCall} {d : DirtySet}
    (fits : ∀ call ∈ calls, call.Fits width height)
    (sound : d.fullRedraw = true ∨ Regions width height added d.rects) :
    ∃ last, runActions (dirtyAdd turns) d calls = some last ∧
      (last.fullRedraw = true ∨ Regions width height (added ++ calls) last.rects) := by
  induction calls generalizing d added with
  | nil => exact ⟨d, rfl, by simpa using sound⟩
  | cons call rest ih =>
      obtain ⟨next, stepped, nextSound⟩ := dirtyAdd_spec enough narrow low (fits call List.mem_cons_self) sound
      obtain ⟨last, reached, lastSound⟩ :=
        ih (fun other member => fits other (List.mem_cons_of_mem _ member)) nextSound
      refine ⟨last, ?_, ?_⟩
      · rw [runActions, stepped]
        exact reached
      · rwa [List.append_assoc] at lastSound

end Dirty

theorem dirty_regions (turns width height : Nat)
    (enough : (maxDirtyRects + 1) * (maxDirtyRects + 1) ≤ turns)
    (narrow : width < 2 ^ 31) (low : height < 2 ^ 31) (calls : List DirtyCall)
    (fits : ∀ call ∈ calls, call.Fits width height) :
    ∃ d, runActions (dirtyAdd turns) dirtyInit calls = some d ∧
      (d.fullRedraw = true ∨ Regions width height calls d.rects) :=
  dirtyRun_spec enough narrow low fits (Or.inr Regions.none)

theorem dirty_regions_joined : ∃ d,
    runActions (dirtyAdd 2401) dirtyInit [⟨⟨640, 480⟩, ⟨0, 0, 10, 10⟩⟩,
      ⟨⟨640, 480⟩, ⟨20, 0, 10, 10⟩⟩, ⟨⟨640, 480⟩, ⟨5, 5, 20, 20⟩⟩] = some d ∧
    (d.fullRedraw = true ∨ Regions 640 480 [⟨⟨640, 480⟩, ⟨0, 0, 10, 10⟩⟩,
      ⟨⟨640, 480⟩, ⟨20, 0, 10, 10⟩⟩, ⟨⟨640, 480⟩, ⟨5, 5, 20, 20⟩⟩] d.rects) := by
  refine dirty_regions 2401 640 480 (by decide) (by decide) (by decide) _ ?_
  intro call member
  simp only [List.mem_cons, List.not_mem_nil, or_false] at member
  rcases member with rfl | rfl | rfl
  · exact ⟨⟨by decide, by decide, by decide, by decide⟩, by decide, by decide⟩
  · exact ⟨⟨by decide, by decide, by decide, by decide⟩, by decide, by decide⟩
  · exact ⟨⟨by decide, by decide, by decide, by decide⟩, by decide, by decide⟩

end Szczupak
