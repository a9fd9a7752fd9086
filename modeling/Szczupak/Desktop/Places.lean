import Szczupak.Desktop.Shown

/-!
Where the windows may be: `clamp_window` keeps their titles within reach,
so that no text of theirs is drawn outside of them.
-/

namespace Szczupak

/-- Behind the bars, and not too far away. -/
structure InReach (w : DesktopWindow) : Prop where
  left : 0 ≤ w.win.x.toInt
  right : w.win.x.toInt ≤ 2 ^ 27
  top : 0 ≤ w.win.y.toInt
  bottom : w.win.y.toInt ≤ 2 ^ 27

structure Display.Roomy (d : Display) : Prop extends Display.Sound d where
  width : d.fb.width.toNat ≤ 2 ^ 27
  height : d.fb.height.toNat ≤ 2 ^ 27

section Places

variable {d : Display} {w : DesktopWindow} {i : Fin windowCount} {r : Rect} {x y : Int32}
  {s : DesktopSnapshot}

theorem initialWindow_decorated (i : Fin windowCount) :
    Decorated i (windowApplyTheme (initialWindow i)) := by
  refine ⟨rfl, rfl, rfl, rfl, rfl, rfl, rfl, ?_⟩
  revert i
  decide

theorem Decorated.shown (decorated : Decorated i w) : Decorated i (w.shown i) := by
  rw [DesktopWindow.shown]
  split
  next => exact decorated
  next => exact (initialWindow_decorated i).withVisible false

theorem shown_placed (placed : w.visible = true → InReach w) : InReach (w.shown i) := by
  rw [DesktopWindow.shown]
  split
  next visible => exact placed visible
  next =>
    have sides : ∀ i, 0 ≤ (initialWindow i).win.x.toInt ∧ (initialWindow i).win.x.toInt ≤ 2 ^ 27 ∧
        0 ≤ (initialWindow i).win.y.toInt ∧ (initialWindow i).win.y.toInt ≤ 2 ^ 27 := by decide
    obtain ⟨left, right, top, bottom⟩ := sides i
    exact ⟨left, right, top, bottom⟩

theorem initialWindow_sizes (i : Fin windowCount) : 390 ≤ (initialWindow i).win.width.toNat ∧
    (initialWindow i).win.width.toNat ≤ 500 ∧ 220 ≤ (initialWindow i).win.height.toNat ∧
      (initialWindow i).win.height.toNat ≤ 286 := by
  revert i
  decide

theorem Decorated.modest (decorated : Decorated i w) (placed : InReach w) : w.Modest := by
  obtain ⟨left, right, top, bottom⟩ := placed
  obtain ⟨wideLow, wide, highLow, high⟩ := initialWindow_sizes i
  rw [← decorated.width] at wideLow wide
  rw [← decorated.height] at highLow high
  have lines := decorated.lines
  rw [panelLineMax] at lines
  constructor <;> omega

theorem clampI32_within {v low high : Int32} (order : low.toInt ≤ high.toInt) :
    low.toInt ≤ (clampI32 v low high).toInt ∧ (clampI32 v low high).toInt ≤ high.toInt := by
  rw [clampI32]
  split
  next => exact ⟨Int.le_refl _, order⟩
  next notBelow =>
    rw [Int32.lt_iff_toInt_lt, Int.not_lt] at notBelow
    split
    next => exact ⟨order, Int.le_refl _⟩
    next notAbove =>
      rw [gt_iff_lt, Int32.lt_iff_toInt_lt, Int.not_lt] at notAbove
      exact ⟨notBelow, notAbove⟩

theorem clampSide_within {v low : Int32} {screen size : UInt32}
    (lowRange : 0 ≤ low.toInt ∧ low.toInt ≤ 2 ^ 27)
    (screenFits : screen.toNat ≤ 2 ^ 27) (sizeFits : size.toNat ≤ 2 ^ 27) :
    0 ≤ (clampSide v low screen size).toInt ∧ (clampSide v low screen size).toInt ≤ 2 ^ 27 := by
  have screenIs : screen.toInt32.toInt = screen.toNat := UInt32.toInt_toInt32_fits (by omega)
  have sizeIs : size.toInt32.toInt = size.toNat := UInt32.toInt_toInt32_fits (by omega)
  have first := Int32.toInt_sub_fits (a := screen.toInt32) (b := size.toInt32) (by omega) (by omega)
  have high : (screen.toInt32 - size.toInt32 - 10).toInt = screen.toNat - size.toNat - 10 := by
    rw [Int32.toInt_sub_fits (by rw [first]; change _ ≤ _ - (10 : Int); omega)
      (by rw [first]; change _ - (10 : Int) < _; omega), first, screenIs, sizeIs]
    rfl
  rw [clampSide]
  split
  next =>
    obtain ⟨lower, upper⟩ := @clampI32_within v low low (Int.le_refl _)
    omega
  next notBelow =>
    rw [Int32.lt_iff_toInt_lt, Int.not_lt] at notBelow
    obtain ⟨lower, upper⟩ := clampI32_within (v := v) notBelow
    omega

theorem clampWindow_placed (roomy : d.Roomy) (decorated : Decorated i w) :
    InReach (clampWindow d.fb w).2 := by
  obtain ⟨-, wide, -, high⟩ := initialWindow_sizes i
  rw [← decorated.width] at wide
  rw [← decorated.height] at high
  obtain ⟨left, right⟩ := @clampSide_within w.win.x (desktopSideW + 20) d.fb.width w.win.width
    (by decide) roomy.width (by omega)
  obtain ⟨top, bottom⟩ := @clampSide_within w.win.y (desktopTopH + 16) d.fb.height w.win.height
    (by decide) roomy.height (by omega)
  exact ⟨left, right, top, bottom⟩

theorem charCell_sides (sound : d.Sound) : (charCell d x y).x.toInt = x.toInt ∧
    (charCell d x y).y.toInt = y.toInt ∧
    (charCell d x y).w.toInt = 8 ∧ 0 < (charCell d x y).h.toInt ∧ (charCell d x y).h.toInt < 256 := by
  obtain ⟨isHeight, tall, low⟩ := desktopFontH_toInt sound
  refine ⟨rfl, rfl, desktopFontW_toInt sound, ?_, ?_⟩
  · change 0 < (desktopFontH d).toInt
    omega
  · change (desktopFontH d).toInt < 256
    omega

theorem charCell_near (sound : d.Sound) (small : r.Small) (left : 0 ≤ x.toInt)
    (right : x.toInt ≤ 2 ^ 28) (top : 0 ≤ y.toInt)
    (bottom : y.toInt ≤ 2 ^ 28) (begins : d.fb.Has x.toInt y.toInt → r.Has x.toInt y.toInt)
    (meets : rectIntersects (fullRect d.fb) (charCell d x y) = true) :
    rectIntersects (rectIntersection (fullRect d.fb) r) (charCell d x y) = true := by
  obtain ⟨isX, isY, wide, tall, low⟩ := @charCell_sides d x y sound
  have cellSmall : (charCell d x y).Small := by
    constructor <;> omega
  have fullSmall := fullRect_small sound.screen
  obtain ⟨px, py, inFull, inCell⟩ := rectIntersects_has fullSmall cellSmall meets
  have onScreen := (fullRect_has sound.screen).mp inFull
  obtain ⟨cellLeft, cellRight, cellTop, cellBottom⟩ := inCell
  have corner : d.fb.Has x.toInt y.toInt :=
    ⟨left, by have before := onScreen.right; omega, top, by have above := onScreen.bottom; omega⟩
  refine rectIntersects_of_has (rectIntersection_small fullSmall small) cellSmall
    ((rectIntersection_has fullSmall small).mpr ⟨(fullRect_has sound.screen).mpr corner, begins corner⟩) ?_
  exact ⟨by omega, by omega, by omega, by omega⟩

theorem textCells_row (sound : d.Sound) {startX cx cy : Int32} {text : List UInt8} (row : 10 ∉ text)
    (left : 0 ≤ cx.toInt)
    (right : cx.toInt + 8 * text.length < 2 ^ 31) : ∀ cell ∈ textCells d startX cx cy text,
      ∃ x, cell = charCell d x cy ∧ cx.toInt ≤ x.toInt ∧ x.toInt + 8 ≤ cx.toInt + 8 * text.length := by
  induction text generalizing cx with
  | nil => exact fun _ member => absurd member List.not_mem_nil
  | cons c text ih =>
      rw [List.mem_cons, not_or] at row
      rw [List.length_cons, Nat.cast_add_one] at right ⊢
      have width := desktopFontW_toInt sound
      have next : (cx + desktopFontW d).toInt = cx.toInt + 8 := by
        rw [Int32.toInt_add_fits (by omega) (by omega), width]
      rw [textCells, if_neg fun isFeed => row.1 isFeed.symm]
      intro cell member
      rcases List.mem_cons.mp member with rfl | later
      · exact ⟨cx, rfl, Int.le_refl _, by omega⟩
      · obtain ⟨x, isCell, lower, upper⟩ := ih row.2 (by omega) (by omega) cell later
        exact ⟨x, isCell, by omega, by omega⟩

theorem textCells_near (sound : d.Sound) (small : r.Small) {startX cx cy : Int32}
    {text : List UInt8} (row : 10 ∉ text)
    (left : 0 ≤ cx.toInt) (right : cx.toInt + 8 * text.length ≤ 2 ^ 28) (top : 0 ≤ cy.toInt)
    (bottom : cy.toInt ≤ 2 ^ 28)
    (begins : ∀ x : Int, cx.toInt ≤ x → x + 8 ≤ cx.toInt + 8 * text.length → d.fb.Has x cy.toInt →
      r.Has x cy.toInt) :
    ∀ cell ∈ textCells d startX cx cy text, rectIntersects (fullRect d.fb) cell = true →
      rectIntersects (rectIntersection (fullRect d.fb) r) cell = true := by
  intro cell member meets
  obtain ⟨x, rfl, lower, upper⟩ := textCells_row sound row left (by omega) cell member
  exact charCell_near sound small (by omega) (by omega) top bottom (begins x.toInt lower upper) meets

def ShortText (text : List UInt8) : Prop := 10 ∉ text ∧ text.length ≤ 9

instance (text : List UInt8) : Decidable (ShortText text) := inferInstanceAs (Decidable (_ ∧ _))

theorem titles_short (decorated : ∀ i, Decorated i (s.windows i)) (i : Fin windowCount) :
    ∀ title ∈ (s.windows i).win.title, ShortText title := by
  have initial : ∀ i, ∀ title ∈ (initialWindow i).win.title, ShortText title := by decide
  rw [(decorated i).title]
  exact initial i

theorem activeTitle_short (decorated : ∀ i, Decorated i (s.windows i)) (idx : Int32) :
    ShortText (activeTitle s.windows idx) := by
  have desktop : ShortText (cText "Desktop") := by decide
  rw [activeTitle]
  split
  next i _ =>
    split
    next =>
      cases title : (s.windows i).win.title with
      | none => exact desktop
      | some text => exact titles_short decorated i text title
    next => exact desktop
  next => exact desktop

theorem kOpenLabels_short (count : Nat) : ShortText (kOpenLabels count) := by
  have few : ∀ count ≤ 3, ShortText (kOpenLabels count) := by decide
  rcases Nat.le_total count 3 with below | above
  · exact few count below
  · rcases Nat.eq_or_lt_of_le above with rfl | more
    · exact few 3 (Nat.le_refl 3)
    · obtain ⟨rest, rfl⟩ : ∃ rest, count = rest + 4 := ⟨count - 4, by omega⟩
      exact few 3 (Nat.le_refl 3)

theorem barText_near (roomy : d.Roomy) {cx : Int32} (left : 0 ≤ cx.toInt) (right : cx.toInt ≤ 400)
    {text : List UInt8}
    (short : ShortText text) : ∀ cell ∈ textCells d cx cx 8 text,
    rectIntersects (fullRect d.fb) cell = true →
      rectIntersects (rectIntersection (fullRect d.fb) (desktopTopRect d.fb)) cell = true := by
  obtain ⟨row, few⟩ := short
  obtain ⟨x, y, w, h⟩ := desktopTopRect_sides roomy.screen
  have eight : (8 : Int32).toInt = 8 := rfl
  refine textCells_near roomy.toSound (desktopTopRect_small roomy.screen) row
    left (by omega) (by decide) (by decide) fun place lower upper onScreen => ?_
  have before := onScreen.right
  exact ⟨by omega, by omega, by omega, by omega⟩

theorem placed_near (roomy : d.Roomy) (decorated : ∀ i, Decorated i (s.windows i))
    (placed : ∀ i, InReach (s.windows i)) : TextNear d s where
  titles i _ := by
    have modest := (decorated i).modest (placed i)
    obtain ⟨left, right, top, bottom⟩ := placed i
    obtain ⟨rectX, rectY, rectW, rectH⟩ := windowRect_sides modest
    obtain ⟨wide, -, high, -⟩ := initialWindow_sizes i
    rw [← (decorated i).width] at wide
    rw [← (decorated i).height] at high
    rw [titleCells]
    cases title : (s.windows i).win.title with
    | none => exact fun _ member => absurd member List.not_mem_nil
    | some text =>
        obtain ⟨row, few⟩ := titles_short decorated i text title
        have isX : ((s.windows i).win.x + 8).toInt = (s.windows i).win.x.toInt + 8 :=
          Int32.toInt_add_fits (a := (s.windows i).win.x) (b := 8)
            (by change _ ≤ _ + (8 : Int); omega) (by change _ + (8 : Int) < _; omega)
        have isY : ((s.windows i).win.y + 4).toInt = (s.windows i).win.y.toInt + 4 :=
          Int32.toInt_add_fits (a := (s.windows i).win.y) (b := 4)
            (by change _ ≤ _ + (4 : Int); omega) (by change _ + (4 : Int) < _; omega)
        refine textCells_near roomy.toSound (windowRect_small modest) row (by omega) (by omega)
          (by omega) (by omega) fun place lower upper _ => ?_
        exact ⟨by omega, by omega, by omega, by omega⟩
  labels i := by
    have sides : ∀ i, 0 ≤ ((iconRect i).x + 8).toInt ∧
      ((iconRect i).x + 8).toInt + 8 * (kIconLabels i).length ≤ 400 ∧
        0 ≤ ((iconRect i).y + 60).toInt ∧ ((iconRect i).y + 60).toInt ≤ 400 ∧ 10 ∉ kIconLabels i ∧
        (iconRect i).x.toInt ≤ ((iconRect i).x + 8).toInt ∧
        ((iconRect i).x + 8).toInt + 8 * (kIconLabels i).length ≤ (iconRect i).x.toInt +
        (iconRect i).w.toInt ∧ (iconRect i).y.toInt ≤ ((iconRect i).y + 60).toInt ∧
        ((iconRect i).y + 60).toInt < (iconRect i).y.toInt + (iconRect i).h.toInt := by decide
    obtain ⟨left, right, top, bottom, row, inLeft, inRight, inTop, inBottom⟩ := sides i
    have small : (iconRect i).Small := (iconRect_parts i).1.bounded.small
    refine textCells_near roomy.toSound small row left (by omega) top (by omega)
      fun place lower upper _ => ?_
    exact ⟨by omega, by omega, by omega, by omega⟩
  bar cell member := by
    rw [barCells] at member
    rcases List.mem_append.mp member with label | title
    · exact barText_near roomy (by decide) (by decide) (kOpenLabels_short _) cell label
    · exact barText_near roomy (by decide) (by decide) (activeTitle_short decorated _) cell title

end Places

end Szczupak
