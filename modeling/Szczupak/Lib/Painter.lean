import Mathlib.Data.List.Pairwise

/-!
Pictures made of strokes, the last one on top.  A part of a picture is painted again with strokes
that are cut at its edge, or that go over the edge where nothing later in the picture is.
-/

namespace Szczupak

variable {Stroke Point Colour Region : Type}

section Paint

variable (ink : Stroke → Point → Option Colour)

def paint (strokes : List Stroke) (picture : Point → Colour) : Point → Colour :=
  strokes.foldl (fun picture stroke point => (ink stroke point).getD (picture point)) picture

def coloursAt (strokes : List Stroke) (point : Point) : List Colour :=
  strokes.filterMap (ink · point)

/-- The strokes `part` paint the inside as those of `whole` do; what they paint outside is from
strokes of `whole` that may cross the edge. -/
structure Cut (inside : Point → Prop) (crosses : Stroke → Prop) (part whole : List Stroke) : Prop where
  exact : ∀ point, inside point → coloursAt ink part point = coloursAt ink whole point
  spills : ∀ stroke ∈ part, ∀ point, ¬inside point → (ink stroke point).isSome → stroke ∈ whole ∧
    crosses stroke

def PaintsOnly (area : Point → Prop) (strokes : List Stroke) : Prop :=
  ∀ point, ¬area point → coloursAt ink strokes point = []

def Uncovered (inside : Point → Prop) (crosses : Stroke → Prop) (whole : List Stroke) : Prop :=
  whole.Pairwise fun stroke later => crosses stroke →
    ∀ point, ¬inside point → (ink stroke point).isSome → ink later point = none

end Paint

section Colours

variable {ink : Stroke → Point → Option Colour} {point : Point} {strokes : List Stroke}

@[simp] theorem coloursAt_nil : coloursAt ink [] point = [] := rfl

@[simp] theorem coloursAt_append (front back : List Stroke) :
    coloursAt ink (front ++ back) point = coloursAt ink front point ++ coloursAt ink back point :=
  List.filterMap_append

theorem coloursAt_flatMap {Item : Type} (items : List Item) (strokes : Item → List Stroke) :
    coloursAt ink (items.flatMap strokes) point = items.flatMap fun item =>
    coloursAt ink (strokes item) point := by
  induction items with
  | nil => rfl
  | cons item items ih => rw [List.flatMap_cons, coloursAt_append, ih, List.flatMap_cons]

theorem coloursAt_eq_nil :
    coloursAt ink strokes point = [] ↔ ∀ stroke ∈ strokes, ink stroke point = none :=
  List.filterMap_eq_nil_iff

theorem coloursAt_cons_none {stroke : Stroke} (misses : ink stroke point = none) :
    coloursAt ink (stroke :: strokes) point = coloursAt ink strokes point :=
  List.filterMap_cons_none misses

theorem coloursAt_cons_some {stroke : Stroke} {colour : Colour}
    (coloured : ink stroke point = some colour) :
    coloursAt ink (stroke :: strokes) point = colour :: coloursAt ink strokes point :=
  List.filterMap_cons_some coloured

theorem paint_apply (strokes : List Stroke) (picture : Point → Colour) (point : Point) :
    paint ink strokes picture point = (coloursAt ink strokes point).getLast?.getD (picture point) := by
  induction strokes generalizing picture with
  | nil => rfl
  | cons stroke strokes ih =>
      rw [paint, List.foldl_cons, ← paint, ih]
      cases coloured : ink stroke point with
      | none => rw [coloursAt_cons_none coloured, Option.getD_none]
      | some colour => rw [coloursAt_cons_some coloured, List.getLast?_cons, Option.getD_some, Option.getD_some]

theorem paint_untouched {picture : Point → Colour}
    (untouched : coloursAt ink strokes point = []) : paint ink strokes picture point =
    picture point := by
  rw [paint_apply, untouched]
  rfl

theorem paint_congr {picture other : Point → Colour} (same : picture point = other point) :
    paint ink strokes picture point = paint ink strokes other point := by
  rw [paint_apply, paint_apply, same]

theorem paint_covered {below other : Point → Colour}
    (covered : coloursAt ink strokes point ≠ []) : paint ink strokes below point =
    paint ink strokes other point := by
  rw [paint_apply, paint_apply, List.getLast?_eq_some_getLast covered]
  rfl

theorem paint_uniform {picture : Point → Colour} {colour : Colour}
    (touched : coloursAt ink strokes point ≠ []) (uniform : ∀ other ∈ coloursAt ink strokes point,
    other = colour) : paint ink strokes picture point = colour := by
  rw [paint_apply, List.getLast?_eq_some_getLast touched]
  exact uniform _ (List.getLast_mem touched)

theorem mem_coloursAt {colour : Colour} :
    colour ∈ coloursAt ink strokes point ↔ ∃ stroke ∈ strokes, ink stroke point = some colour :=
  List.mem_filterMap

theorem paint_same_strokes {one two : List Stroke} (same : ∀ stroke, stroke ∈ one ↔ stroke ∈ two)
    (agree : ∀ stroke ∈ one, ∀ other ∈ one, ∀ point colour tint, ink stroke point = some colour →
      ink other point = some tint → tint = colour) (picture : Point → Colour) :
    paint ink one picture = paint ink two picture := by
  funext point
  have colours : ∀ colour, colour ∈ coloursAt ink one point ↔ colour ∈ coloursAt ink two point := by
    intro colour
    simp only [mem_coloursAt, same]
  cases first : coloursAt ink one point with
  | nil =>
      have second : coloursAt ink two point = [] := by
        rw [List.eq_nil_iff_forall_not_mem]
        intro colour member
        rw [← colours, first] at member
        exact List.not_mem_nil member
      rw [paint_untouched first, paint_untouched second]
  | cons colour rest =>
      have here : colour ∈ coloursAt ink one point := by rw [first]; exact List.mem_cons_self
      obtain ⟨stroke, member, coloured⟩ := mem_coloursAt.mp here
      have uniform : ∀ tint ∈ coloursAt ink one point, tint = colour := by
        intro tint tinted
        obtain ⟨other, otherMember, otherColoured⟩ := mem_coloursAt.mp tinted
        exact agree stroke member other otherMember point colour tint coloured otherColoured
      rw [paint_uniform (List.ne_nil_of_mem here) uniform,
        paint_uniform (List.ne_nil_of_mem ((colours colour).mp here))
        (fun tint tinted => uniform tint ((colours tint).mpr tinted))]

theorem paint_append (front back : List Stroke) (picture : Point → Colour) :
    paint ink (front ++ back) picture = paint ink back (paint ink front picture) :=
  List.foldl_append

end Colours

section Areas

variable {ink : Stroke → Point → Option Colour} {area : Point → Prop} {strokes : List Stroke}

theorem PaintsOnly.nil : PaintsOnly ink area [] := fun _ _ => rfl

theorem PaintsOnly.append {back : List Stroke} (first : PaintsOnly ink area strokes)
    (second : PaintsOnly ink area back) : PaintsOnly ink area (strokes ++ back) := by
  intro point outside
  rw [coloursAt_append, first point outside, second point outside, List.append_nil]

theorem PaintsOnly.flatMap {Item : Type} {items : List Item} {parts : Item → List Stroke}
    (each : ∀ item ∈ items, PaintsOnly ink area (parts item)) :
    PaintsOnly ink area (items.flatMap parts) := by
  induction items with
  | nil => exact PaintsOnly.nil
  | cons item items ih =>
      rw [List.flatMap_cons]
      exact (each item List.mem_cons_self).append
        (ih fun other member => each other (List.mem_cons_of_mem _ member))

theorem PaintsOnly.mono {larger : Point → Prop} (confined : PaintsOnly ink area strokes)
    (inside : ∀ point, area point → larger point) : PaintsOnly ink larger strokes :=
  fun point outside => confined point fun within => outside (inside point within)

end Areas

section Cuts

variable {ink : Stroke → Point → Option Colour} {inside : Point → Prop} {crosses : Stroke → Prop}
  {part whole : List Stroke}

theorem Cut.nil : Cut ink inside crosses [] [] :=
  ⟨fun _ _ => rfl, fun _ member => absurd member List.not_mem_nil⟩

theorem Cut.append {laterPart laterWhole : List Stroke} (front : Cut ink inside crosses part whole)
    (back : Cut ink inside crosses laterPart laterWhole) :
    Cut ink inside crosses (part ++ laterPart) (whole ++ laterWhole) where
  exact point inPoint := by
    rw [coloursAt_append, coloursAt_append, front.exact point inPoint, back.exact point inPoint]
  spills stroke member point outside touched := by
    rcases List.mem_append.mp member with first | second
    · obtain ⟨drawn, crossing⟩ := front.spills stroke first point outside touched
      exact ⟨List.mem_append_left _ drawn, crossing⟩
    · obtain ⟨drawn, crossing⟩ := back.spills stroke second point outside touched
      exact ⟨List.mem_append_right _ drawn, crossing⟩

theorem Cut.flatMap {Item : Type} {items : List Item} {parts wholes : Item → List Stroke}
    (each : ∀ item ∈ items, Cut ink inside crosses (parts item) (wholes item)) :
    Cut ink inside crosses (items.flatMap parts) (items.flatMap wholes) := by
  induction items with
  | nil => exact Cut.nil
  | cons item items ih =>
      rw [List.flatMap_cons, List.flatMap_cons]
      exact (each item List.mem_cons_self).append
        (ih fun other member => each other (List.mem_cons_of_mem _ member))

theorem Cut.skip (outside : ∀ point, inside point → coloursAt ink whole point = []) :
    Cut ink inside crosses [] whole :=
  ⟨fun point inPoint => (outside point inPoint).symm, fun _ member => absurd member List.not_mem_nil⟩

theorem Cut.paint_inside (cut : Cut ink inside crosses part whole) {point : Point}
    (inPoint : inside point)
    (covered : coloursAt ink whole point ≠ []) (below blank : Point → Colour) :
    paint ink part below point = paint ink whole blank point := by
  have touched : coloursAt ink part point ≠ [] := by rwa [cut.exact point inPoint]
  rw [paint_apply, paint_apply, ← cut.exact point inPoint, List.getLast?_eq_some_getLast touched,
    Option.getD_some, Option.getD_some]

theorem Cut.paint_outside (cut : Cut ink inside crosses part whole)
    (uncovered : Uncovered ink inside crosses whole)
    {point : Point} (outside : ¬inside point) (below blank : Point → Colour) :
    paint ink part below point = below point ∨ paint ink part below point =
    paint ink whole blank point := by
  rw [paint_apply part, paint_apply whole]
  cases last : (coloursAt ink part point).getLast? with
  | none => exact Or.inl rfl
  | some colour =>
      right
      obtain ⟨stroke, member, coloured⟩ := List.mem_filterMap.mp (List.mem_of_getLast? last)
      have touched : (ink stroke point).isSome := by rw [coloured]; rfl
      obtain ⟨drawn, crossing⟩ := cut.spills stroke member point outside touched
      obtain ⟨before, after, rfl⟩ := List.append_of_mem drawn
      have later : coloursAt ink after point = [] := by
        refine coloursAt_eq_nil.mpr fun other above => ?_
        have pairs := (List.pairwise_append.mp uncovered).2.1
        exact (List.pairwise_cons.mp pairs).1 other above crossing point outside touched
      have top : coloursAt ink (stroke :: after) point = [colour] := by
        rw [coloursAt_cons_some coloured, later]
      rw [coloursAt_append, top, List.getLast?_concat]
      rfl

theorem Uncovered.of_inside (kept : ∀ stroke ∈ whole, crosses stroke → ∀ point,
    (ink stroke point).isSome → inside point) : Uncovered ink inside crosses whole := by
  refine List.pairwise_of_forall_mem_list fun stroke member _ _ crossing point outside touched => ?_
  exact absurd (kept stroke member crossing point touched) outside

end Cuts

/-- Regions painted one after another leave the whole picture, where it was before or where one of
them lies. -/
theorem repaint_regions {ink : Stroke → Point → Option Colour} {inside : Region → Point → Prop}
    {crosses : Region → Stroke → Prop} {part : Region → List Stroke} {whole : List Stroke}
    {regions : List Region}
    (cut : ∀ region ∈ regions, Cut ink (inside region) (crosses region) (part region) whole)
    (uncovered : ∀ region ∈ regions, Uncovered ink (inside region) (crosses region) whole)
    {point : Point} (covered : coloursAt ink whole point ≠ []) {picture blank : Point → Colour}
    (start : picture point = paint ink whole blank point ∨ ∃ region ∈ regions, inside region point) :
    regions.foldl (fun picture region => paint ink (part region) picture) picture point =
      paint ink whole blank point := by
  induction regions generalizing picture with
  | nil =>
      rcases start with same | ⟨region, member, _⟩
      · exact same
      · exact absurd member List.not_mem_nil
  | cons region regions ih =>
      rw [List.foldl_cons]
      have later := @ih
        (fun other member => cut other (List.mem_cons_of_mem _ member))
        (fun other member => uncovered other (List.mem_cons_of_mem _ member))
        (paint ink (part region) picture)
      have first := cut region List.mem_cons_self
      by_cases here : inside region point
      · exact later (Or.inl (first.paint_inside here covered picture blank))
      · have outside := first.paint_outside (uncovered region List.mem_cons_self) here picture blank
        rcases start with same | ⟨other, member, inOther⟩
        · rw [same, or_self] at outside
          exact later (Or.inl outside)
        · rcases List.mem_cons.mp member with rfl | rest
          · exact absurd inOther here
          · exact later (Or.inr ⟨other, rest, inOther⟩)

end Szczupak
