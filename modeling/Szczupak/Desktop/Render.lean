import Szczupak.Desktop.Layout
import Szczupak.Lib.Painter

/-!
A region of the desktop is painted with the calls of the whole desktop, cut at its edge; only
characters go over it.
-/

namespace Szczupak

def GuiCall.crosses (d : Display) (c : Rect) : GuiCall → Prop
  | .drawChar x y _ _ _ => rectIntersects c (charCell d x.toInt32 y.toInt32) = true
  | _ => False

abbrev Cuts (d : Display) (c : Rect) (part whole : List GuiCall) : Prop :=
  Cut (GuiCall.ink d) (fun point => c.Has point.1 point.2) (GuiCall.crosses d c) part whole

structure Clips (d : Display) (c clip whole : Rect) : Prop where
  small : clip.Small
  wholeSmall : whole.Small
  inside : ∀ x y, clip.Has x y → c.Has x y ∧ whole.Has x y
  agrees : ∀ x y, c.Has x y → whole.Has x y → clip.Has x y
  onScreen : ∀ x y, whole.Has x y → d.fb.Has x y

def textCells (d : Display) (startX : Int32) : Int32 → Int32 → List UInt8 → List Rect
  | _, _, [] => []
  | cx, cy, c :: text =>
      if c = 10 then textCells d startX startX (cy + desktopFontH d) text
      else charCell d cx cy :: textCells d startX (cx + desktopFontW d) cy text

def titleCells (d : Display) (w : DesktopWindow) : List Rect :=
  match w.win.title with
  | some title => textCells d (w.win.x + 8) (w.win.x + 8) (w.win.y + 4) title
  | none => []

def lineCellsFrom (d : Display) (lineX : Int32) : Int32 → List (Option (List UInt8)) → List Rect
  | _, [] => []
  | lineY, line :: lines =>
      textCells d lineX lineX lineY (line.getD []) ++ lineCellsFrom d lineX (lineY + desktopLineAdvance d) lines

def lineCells (d : Display) (w : DesktopWindow) : List Rect :=
  lineCellsFrom d (w.win.x + 14) (w.win.y + 1 + (windowTitleHeight d w.win).toInt32 + 10) w.lines

def iconLabelCells (d : Display) (i : Fin windowCount) : List Rect :=
  textCells d ((iconRect i).x + 8) ((iconRect i).x + 8) ((iconRect i).y + 60) (kIconLabels i)

structure WindowHeld (d : Display) (c : Rect) (w : DesktopWindow) : Prop where
  title : ∀ cell ∈ titleCells d w, rectIntersects c cell = true →
    rectIntersects c (windowRect w.win) = true
  lines : ∀ cell ∈ lineCells d w, rectIntersects c cell = true →
    rectIntersects (rectIntersection (fullRect d.fb) (windowBodyRect d w)) cell = true →
    rectIntersects (rectIntersection c (windowBodyRect d w)) cell = true

section Fills

variable {d : Display} {c clip whole target : Rect} {color : FbColor} {point : Int × Int}

theorem toNat_toUInt32_nonneg {a : Int32} (nonneg : 0 ≤ a.toInt) :
    (a.toUInt32.toNat : Int) = a.toInt := by
  have word := toNat_toUInt32_add a 0
  have upper := a.toInt_lt
  rw [UInt32.add_zero, UInt32.toNat_zero] at word
  omega

theorem guiFillRect_colours {r : Rect} (onScreen : ∀ x y, r.Has x y → d.fb.Has x y)
    (valid : rectValid r = true) :
    coloursAt (GuiCall.ink d) (guiFillRect r.x.toUInt32 r.y.toUInt32 r.w.toUInt32 r.h.toUInt32 color) point =
      if r.Has point.1 point.2 then [d.layout.pack color] else [] := by
  obtain ⟨wide, high⟩ := rectValid_iff.mp valid
  obtain ⟨left, right, top, bottom⟩ := onScreen _ _ (rectValid_corner valid)
  have x := toNat_toUInt32_nonneg left
  have y := toNat_toUInt32_nonneg top
  have w := toNat_toUInt32_nonneg (Int.le_of_lt wide)
  have h := toNat_toUInt32_nonneg (Int.le_of_lt high)
  have filled : ¬(r.w.toUInt32 = 0 ∨ r.h.toUInt32 = 0) := by
    rintro (zero | zero)
    · rw [zero, UInt32.toNat_zero] at w
      omega
    · rw [zero, UInt32.toNat_zero] at h
      omega
  rw [guiFillRect, if_neg filled]
  by_cases has : r.Has point.1 point.2
  · rw [if_pos has, coloursAt_cons_some, coloursAt_nil]
    rw [GuiCall.ink, fbFillRect_eq, if_pos]
    exact ⟨onScreen _ _ has, by rw [x]; exact has.left, by rw [x, w]; exact has.right, by
      rw [y]; exact has.top, by rw [y, h]; exact has.bottom⟩
  · rw [if_neg has, coloursAt_cons_none, coloursAt_nil]
    rw [GuiCall.ink, fbFillRect_eq, if_neg]
    rintro ⟨_, fromX, toX, fromY, toY⟩
    rw [x] at fromX
    rw [x, w] at toX
    rw [y] at fromY
    rw [y, h] at toY
    exact has ⟨fromX, toX, fromY, toY⟩

theorem fillRectClipped_colours (small : target.Small) (clipSmall : clip.Small)
    (onScreen : ∀ x y, clip.Has x y → d.fb.Has x y) :
    coloursAt (GuiCall.ink d) (fillRectClipped target color clip) point =
      if target.Has point.1 point.2 ∧ clip.Has point.1 point.2 then [d.layout.pack color] else [] := by
  rw [fillRectClipped]
  simp only [← rectIntersection_has small clipSmall]
  split
  next empty =>
    rw [if_neg, coloursAt_nil]
    intro has
    simp [has.valid] at empty
  next valid =>
    refine guiFillRect_colours ?_ (by simpa using valid)
    intro x y has
    exact onScreen x y ((rectIntersection_has small clipSmall).mp has).2

theorem Cut.contained {part all : List GuiCall}
    (exact : ∀ point : Int × Int, c.Has point.1 point.2 →
      coloursAt (GuiCall.ink d) part point = coloursAt (GuiCall.ink d) all point)
    (contained : ∀ point : Int × Int, ¬c.Has point.1 point.2 →
    coloursAt (GuiCall.ink d) part point = []) : Cuts d c part all where
  exact := exact
  spills call member point outside touched := by
    rw [coloursAt_eq_nil.mp (contained point outside) call member] at touched
    simp at touched

theorem Clips.cuts_fill (clips : Clips d c clip whole) (small : target.Small) (color : FbColor) :
    Cuts d c (fillRectClipped target color clip) (fillRectClipped target color whole) := by
  have onClip : ∀ x y, clip.Has x y → d.fb.Has x y :=
    fun x y has => clips.onScreen x y (clips.inside x y has).2
  refine Cut.contained ?_ ?_
  · intro point inRegion
    rw [fillRectClipped_colours small clips.small onClip,
      fillRectClipped_colours small clips.wholeSmall clips.onScreen]
    refine if_congr (and_congr_right fun _ => ⟨fun has => ?_, fun has => ?_⟩) rfl rfl
    · exact (clips.inside _ _ has).2
    · exact clips.agrees _ _ inRegion has
  · intro point outside
    rw [fillRectClipped_colours small clips.small onClip, if_neg]
    exact fun both => outside (clips.inside _ _ both.2).1

theorem fillRectClipped_only (small : target.Small) (clipSmall : clip.Small)
    (onScreen : ∀ x y, clip.Has x y → d.fb.Has x y) (color : FbColor) :
    PaintsOnly (GuiCall.ink d) (fun point => target.Has point.1 point.2 ∧ clip.Has point.1 point.2)
      (fillRectClipped target color clip) := by
  intro point outside
  rw [fillRectClipped_colours small clipSmall onScreen, if_neg outside]

def frameRects (target : Rect) : List Rect :=
  if !rectValid target then []
  else
    [makeRect target.x target.y target.w 1] ++
    (if target.h > 1 then [makeRect target.x (target.y + target.h - 1) target.w 1] else []) ++
    if target.h > 2 then
      [makeRect target.x (target.y + 1) 1 (target.h - 2)] ++
      if target.w > 1 then [makeRect (target.x + target.w - 1) (target.y + 1) 1 (target.h - 2)] else []
    else []

theorem drawFrameClipped_eq :
    drawFrameClipped target color clip = (frameRects target).flatMap fun side =>
    fillRectClipped side color clip := by
  rw [drawFrameClipped, frameRects]
  split
  · rfl
  · simp only [List.flatMap_append, List.flatMap_singleton]
    refine congrArg₂ (· ++ ·) (congrArg (_ ++ ·) ?_) ?_
    · split
      · rw [List.flatMap_singleton]
      · rfl
    · split
      · rw [List.flatMap_append, List.flatMap_singleton]
        refine congrArg (_ ++ ·) ?_
        split
        · rw [List.flatMap_singleton]
        · rfl
      · rfl

theorem frameRects_held (bounded : target.Bounded (2 ^ 28)) :
    ∀ side ∈ frameRects target, side.Small ∧ ∀ x y, side.Has x y → target.Has x y := by
  obtain ⟨left, right, top, bottom, narrow, wide, short, high⟩ := bounded
  have one : (1 : Int32).toInt = 1 := rfl
  have two : (2 : Int32).toInt = 2 := rfl
  have below : (target.y + 1).toInt = target.y.toInt + 1 := Int32.toInt_add_fits (by omega) (by omega)
  have shorter : (target.h - 2).toInt = target.h.toInt - 2 := Int32.toInt_sub_fits (by omega) (by omega)
  have ends : (target.x + target.w).toInt = target.x.toInt + target.w.toInt :=
    Int32.toInt_add_fits (by omega) (by omega)
  have foot : (target.y + target.h).toInt = target.y.toInt + target.h.toInt :=
    Int32.toInt_add_fits (by omega) (by omega)
  have last : (target.x + target.w - 1).toInt = target.x.toInt + target.w.toInt - 1 := by
    rw [Int32.toInt_sub_fits (by omega) (by omega), ends, one]
  have lowest : (target.y + target.h - 1).toInt = target.y.toInt + target.h.toInt - 1 := by
    rw [Int32.toInt_sub_fits (by omega) (by omega), foot, one]
  intro side member
  rw [frameRects] at member
  split at member
  next => simp at member
  next valid =>
    obtain ⟨positive, tall⟩ := rectValid_iff.mp (by simpa using valid)
    simp only [List.mem_append, List.mem_singleton, List.mem_ite_nil_right] at member
    rcases member with (rfl | ⟨_, rfl⟩) | ⟨_, rfl | ⟨_, rfl⟩⟩
    · constructor
      · constructor <;> simp only [makeRect, one] <;> omega
      · rintro x y ⟨hasLeft, hasRight, hasTop, hasBottom⟩
        simp only [makeRect, one] at hasLeft hasRight hasTop hasBottom
        constructor <;> omega
    · constructor
      · constructor <;> simp only [makeRect, lowest, one] <;> omega
      · rintro x y ⟨hasLeft, hasRight, hasTop, hasBottom⟩
        simp only [makeRect, lowest, one] at hasLeft hasRight hasTop hasBottom
        constructor <;> omega
    · constructor
      · constructor <;> simp only [makeRect, below, shorter, one] <;> omega
      · rintro x y ⟨hasLeft, hasRight, hasTop, hasBottom⟩
        simp only [makeRect, below, shorter, one] at hasLeft hasRight hasTop hasBottom
        constructor <;> omega
    · constructor
      · constructor <;> simp only [makeRect, last, below, shorter, one] <;> omega
      · rintro x y ⟨hasLeft, hasRight, hasTop, hasBottom⟩
        simp only [makeRect, last, below, shorter, one] at hasLeft hasRight hasTop hasBottom
        constructor <;> omega

theorem Clips.cuts_frame (clips : Clips d c clip whole) (bounded : target.Bounded (2 ^ 28))
    (color : FbColor) :
    Cuts d c (drawFrameClipped target color clip) (drawFrameClipped target color whole) := by
  rw [drawFrameClipped_eq, drawFrameClipped_eq]
  exact Cut.flatMap fun side member => clips.cuts_fill (frameRects_held bounded side member).1 color

theorem drawFrameClipped_only (bounded : target.Bounded (2 ^ 28)) (clipSmall : clip.Small)
    (onScreen : ∀ x y, clip.Has x y → d.fb.Has x y) (color : FbColor) :
    PaintsOnly (GuiCall.ink d) (fun point => target.Has point.1 point.2 ∧ clip.Has point.1 point.2)
      (drawFrameClipped target color clip) := by
  rw [drawFrameClipped_eq]
  refine PaintsOnly.flatMap fun side member => ?_
  obtain ⟨small, inside⟩ := frameRects_held bounded side member
  exact (fillRectClipped_only small clipSmall onScreen color).mono fun point both =>
    ⟨inside _ _ both.1, both.2⟩

end Fills

section Texts

variable {d : Display} {c clip whole : Rect} {point : Int × Int}

theorem drawChar_cell (sound : d.Sound) {x y : Int32} {ch : UInt8} {fg bg : FbColor}
    (touched : (GuiCall.ink d (.drawChar x.toUInt32 y.toUInt32 ch fg bg) point).isSome) :
    (charCell d x y).Small ∧ (charCell d x y).Has point.1 point.2 := by
  have width := sound.screen.width
  have height := sound.screen.height
  obtain ⟨fontH, tall, low⟩ := desktopFontH_toInt sound
  have fontW := desktopFontW_toInt sound
  obtain ⟨⟨hasLeft, hasRight, hasTop, hasBottom⟩, fromX, toX, fromY, toY⟩ :=
    psfDrawChar_cell sound.font (by omega) (by omega) touched
  constructor
  · constructor <;> simp only [charCell, makeRect, fontW, fontH] <;> omega
  · constructor <;> simp only [charCell, makeRect, fontW, fontH] <;> omega

theorem Clips.cuts_char (sound : d.Sound) (region : c.Small) (clips : Clips d c clip whole)
    {x y : Int32}
    (held : rectIntersects c (charCell d x y) = true → rectIntersects whole (charCell d x y) =
      true → rectIntersects clip (charCell d x y) = true) (ch : UInt8) (fg bg : FbColor) :
    Cuts d c (if rectIntersects clip (charCell d x y) then
      [.drawChar x.toUInt32 y.toUInt32 ch fg bg] else [])
      (if rectIntersects whole (charCell d x y) then [.drawChar x.toUInt32 y.toUInt32 ch fg bg]
      else []) := by
  by_cases meets : rectIntersects clip (charCell d x y) = true
  · have meetsWhole := rectIntersects_mono clips.small clips.wholeSmall
      (fun px py has => (clips.inside px py has).2) meets
    have meetsRegion := rectIntersects_mono clips.small region (fun px py has =>
      (clips.inside px py has).1) meets
    rw [if_pos meets, if_pos meetsWhole]
    refine ⟨fun _ _ => rfl, fun call member _ _ _ => ⟨member, ?_⟩⟩
    rw [List.mem_singleton.mp member, GuiCall.crosses, Int32.toInt32_toUInt32, Int32.toInt32_toUInt32]
    exact meetsRegion
  · rw [if_neg meets]
    refine Cut.skip fun point inRegion => ?_
    split
    next meetsWhole =>
      refine coloursAt_eq_nil.mpr fun call member => Option.not_isSome_iff_eq_none.mp fun touched => ?_
      rw [List.mem_singleton.mp member] at touched
      obtain ⟨small, has⟩ := drawChar_cell sound touched
      exact meets (held (rectIntersects_of_has region small inRegion has) meetsWhole)
    next => rfl

theorem Clips.cuts_text (sound : d.Sound) (region : c.Small) (clips : Clips d c clip whole)
    {startX cx cy : Int32} {text : List UInt8}
    (held : ∀ cell ∈ textCells d startX cx cy text, rectIntersects c cell = true →
      rectIntersects whole cell = true → rectIntersects clip cell = true) (fg bg : FbColor) :
    Cuts d c (drawTextFrom d clip startX fg bg cx cy text)
    (drawTextFrom d whole startX fg bg cx cy text) := by
  induction text generalizing cx cy with
  | nil => exact Cut.nil
  | cons ch text ih =>
      rw [textCells] at held
      rw [drawTextFrom, drawTextFrom]
      split
      next newline =>
        rw [if_pos newline] at held
        exact ih held
      next visible =>
        rw [if_neg visible] at held
        refine (clips.cuts_char sound region ?_ ch fg bg).append (ih ?_)
        · exact held _ List.mem_cons_self
        · exact fun cell member => held cell (List.mem_cons_of_mem _ member)

theorem drawTextFrom_only (sound : d.Sound) {startX cx cy : Int32} {text : List UInt8}
    (fg bg : FbColor) :
    PaintsOnly (GuiCall.ink d) (fun point => ∃ cell ∈ textCells d startX cx cy text,
      rectIntersects clip cell = true ∧ cell.Small ∧ cell.Has point.1 point.2)
      (drawTextFrom d clip startX fg bg cx cy text) := by
  induction text generalizing cx cy with
  | nil => exact PaintsOnly.nil
  | cons ch text ih =>
      rw [textCells, drawTextFrom]
      split
      next => exact ih
      next =>
        refine PaintsOnly.append ?_ (ih.mono ?_)
        · split
          next meets =>
            intro point outside
            refine coloursAt_eq_nil.mpr fun call member => Option.not_isSome_iff_eq_none.mp fun touched => ?_
            rw [List.mem_singleton.mp member] at touched
            obtain ⟨small, has⟩ := drawChar_cell sound touched
            exact outside ⟨_, List.mem_cons_self, meets, small, has⟩
          next => exact PaintsOnly.nil
        · rintro point ⟨cell, member, meets, small, has⟩
          exact ⟨cell, List.mem_cons_of_mem _ member, meets, small, has⟩

end Texts

section Gates

variable {d : Display} {c clip whole body : Rect}

theorem Clips.meet (clips : Clips d c clip whole) (small : body.Small) :
    Clips d c (rectIntersection clip body) (rectIntersection whole body) where
  small := rectIntersection_small clips.small small
  wholeSmall := rectIntersection_small clips.wholeSmall small
  inside x y has := by
    obtain ⟨inClip, inBody⟩ := (rectIntersection_has clips.small small).mp has
    obtain ⟨inRegion, inWhole⟩ := clips.inside x y inClip
    exact ⟨inRegion, (rectIntersection_has clips.wholeSmall small).mpr ⟨inWhole, inBody⟩⟩
  agrees x y inRegion has := by
    obtain ⟨inWhole, inBody⟩ := (rectIntersection_has clips.wholeSmall small).mp has
    exact (rectIntersection_has clips.small small).mpr ⟨clips.agrees x y inRegion inWhole, inBody⟩
  onScreen x y has := clips.onScreen x y ((rectIntersection_has clips.wholeSmall small).mp has).1

theorem Clips.cuts_gate (clips : Clips d c clip whole) {part all : List GuiCall}
    (cuts : Cuts d c part all)
    (boxed : ∀ point : Int × Int, c.Has point.1 point.2 → rectIntersects clip body = false →
      coloursAt (GuiCall.ink d) part point = []) :
    Cuts d c (if rectIntersects clip body then part else []) (if rectIntersects whole body then all
      else []) := by
  by_cases meets : rectIntersects clip body = true
  · rw [if_pos meets, if_pos (rectIntersects_mono clips.small clips.wholeSmall
      (fun x y has => (clips.inside x y has).2) meets)]
    exact cuts
  · rw [if_neg meets]
    refine Cut.skip fun point inRegion => ?_
    split
    next => rw [← cuts.exact point inRegion, boxed point inRegion (Bool.not_eq_true _ |>.mp meets)]
    next => rfl

end Gates

section Lines

variable {d : Display} {w : DesktopWindow} {c clip whole body : Rect}

theorem selectedBar_small (sound : d.Sound) (bounded : body.Bounded (2 ^ 28)) (wide : body.w > 4)
    {lineY : Int32} (above : -2 ^ 28 ≤ lineY.toInt) (below : lineY.toInt ≤ 2 ^ 28) :
    (makeRect (body.x + 2) (lineY - 1) (body.w - 4) (desktopFontH d + 2)).Small := by
  obtain ⟨left, right, top, bottom, narrow, wide', short, high⟩ := bounded
  obtain ⟨fontH, tall, low⟩ := desktopFontH_toInt sound
  have order := Int32.lt_iff_toInt_lt.mp wide
  have one : (1 : Int32).toInt = 1 := rfl
  have two : (2 : Int32).toInt = 2 := rfl
  have four : (4 : Int32).toInt = 4 := rfl
  have x : (body.x + 2).toInt = body.x.toInt + 2 := Int32.toInt_add_fits (by omega) (by omega)
  have y : (lineY - 1).toInt = lineY.toInt - 1 := Int32.toInt_sub_fits (by omega) (by omega)
  have width : (body.w - 4).toInt = body.w.toInt - 4 := Int32.toInt_sub_fits (by omega) (by omega)
  have height : (desktopFontH d + 2).toInt = (desktopFontH d).toInt + 2 :=
    Int32.toInt_add_fits (by omega) (by omega)
  constructor <;> simp only [makeRect, x, y, width, height] <;> omega

theorem desktopLineAdvance_toInt (sound : d.Sound) :
    0 < (desktopLineAdvance d).toInt ∧ (desktopLineAdvance d).toInt < 258 := by
  obtain ⟨fontH, tall, low⟩ := desktopFontH_toInt sound
  have two : (2 : Int32).toInt = 2 := rfl
  have sum : (desktopFontH d + 2).toInt = (desktopFontH d).toInt + 2 :=
    Int32.toInt_add_fits (by omega) (by omega)
  rw [desktopLineAdvance]
  omega

theorem nextLine (sound : d.Sound) {lineY : Int32} {count : Nat} (above : -2 ^ 28 ≤ lineY.toInt)
    (below : lineY.toInt + 258 * (count + 1 : Nat) ≤ 2 ^ 28) :
    -2 ^ 28 ≤ (lineY + desktopLineAdvance d).toInt ∧
      (lineY + desktopLineAdvance d).toInt + 258 * count ≤ 2 ^ 28 := by
  obtain ⟨forward, small⟩ := desktopLineAdvance_toInt sound
  have sum : (lineY + desktopLineAdvance d).toInt = lineY.toInt + (desktopLineAdvance d).toInt :=
    Int32.toInt_add_fits (by omega) (by omega)
  omega

theorem Clips.cuts_lines (sound : d.Sound) (region : c.Small) (clips : Clips d c clip whole)
    (bounded : body.Bounded (2 ^ 28)) (bodyColor textColor : FbColor) {lineX lineY : Int32}
    {i : Nat} {lines : List (Option (List UInt8))} (above : -2 ^ 28 ≤ lineY.toInt)
    (below : lineY.toInt + 258 * lines.length ≤ 2 ^ 28)
    (held : ∀ cell ∈ lineCellsFrom d lineX lineY lines, rectIntersects c cell = true →
      rectIntersects whole cell = true → rectIntersects clip cell = true) :
    Cuts d c (drawLines d w clip body bodyColor textColor lineX i lineY lines)
      (drawLines d w whole body bodyColor textColor lineX i lineY lines) := by
  induction lines generalizing i lineY with
  | nil => exact Cut.nil
  | cons line lines ih =>
      rw [List.length_cons] at below
      obtain ⟨nextAbove, nextBelow⟩ := nextLine sound above below
      rw [lineCellsFrom] at held
      rw [drawLines, drawLines]
      refine Cut.append (Cut.append ?_ ?_) (ih nextAbove nextBelow ?_)
      · split
        next selected =>
          simp only [Bool.and_eq_true, decide_eq_true_eq] at selected
          exact clips.cuts_fill (selectedBar_small sound bounded selected.2 above (by omega)) _
        next => exact Cut.nil
      · exact clips.cuts_text sound region (fun cell member => held cell (List.mem_append_left _ member)) _ _
      · exact fun cell member => held cell (List.mem_append_right _ member)

theorem drawLines_only (sound : d.Sound) (bounded : body.Bounded (2 ^ 28)) (clipSmall : clip.Small)
    (onScreen : ∀ x y, clip.Has x y → d.fb.Has x y) (bodyColor textColor : FbColor)
    {lineX lineY : Int32} {i : Nat}
    {lines : List (Option (List UInt8))} (above : -2 ^ 28 ≤ lineY.toInt)
    (below : lineY.toInt + 258 * lines.length ≤ 2 ^ 28) :
    PaintsOnly (GuiCall.ink d) (fun point => clip.Has point.1 point.2 ∨
      ∃ cell ∈ lineCellsFrom d lineX lineY lines,
        rectIntersects clip cell = true ∧ cell.Small ∧ cell.Has point.1 point.2)
      (drawLines d w clip body bodyColor textColor lineX i lineY lines) := by
  induction lines generalizing i lineY with
  | nil => exact PaintsOnly.nil
  | cons line lines ih =>
      rw [List.length_cons] at below
      obtain ⟨nextAbove, nextBelow⟩ := nextLine sound above below
      rw [lineCellsFrom, drawLines]
      refine PaintsOnly.append (PaintsOnly.append ?_ ?_) ((ih nextAbove nextBelow).mono ?_)
      · split
        next selected =>
          simp only [Bool.and_eq_true, decide_eq_true_eq] at selected
          exact (fillRectClipped_only (selectedBar_small sound bounded selected.2 above (by omega))
            clipSmall onScreen _).mono fun point both => Or.inl both.2
        next => exact PaintsOnly.nil
      · refine (drawTextFrom_only sound _ _).mono ?_
        rintro point ⟨cell, member, meets, small, has⟩
        exact Or.inr ⟨cell, List.mem_append_left _ member, meets, small, has⟩
      · rintro point (inClip | ⟨cell, member, meets, small, has⟩)
        · exact Or.inl inClip
        · exact Or.inr ⟨cell, List.mem_append_right _ member, meets, small, has⟩

end Lines

section Windows

variable {d : Display} {w : DesktopWindow} {c clip whole : Rect} {focused : Bool}

theorem firstLine (sound : d.Sound) (modest : w.Modest) (high : 4 ≤ w.win.height.toNat) :
    -2 ^ 28 ≤ (w.win.y + 1 + (windowTitleHeight d w.win).toInt32 + 10).toInt ∧
      (w.win.y + 1 + (windowTitleHeight d w.win).toInt32 + 10).toInt + 258 * w.lines.length ≤ 2 ^ 28 := by
  obtain ⟨titleFits, titleLow⟩ := windowTitleHeight_fits sound high
  obtain ⟨left, right, top, bottom, wide, high', lines⟩ := modest
  have one : (1 : Int32).toInt = 1 := rfl
  have ten : (10 : Int32).toInt = 10 := rfl
  have titleH := UInt32.toInt_toInt32_fits (n := windowTitleHeight d w.win) (by omega)
  have y1 : (w.win.y + 1).toInt = w.win.y.toInt + 1 := Int32.toInt_add_fits (by omega) (by omega)
  have y2 : (w.win.y + 1 + (windowTitleHeight d w.win).toInt32).toInt =
      w.win.y.toInt + 1 + (windowTitleHeight d w.win).toNat := by
    rw [Int32.toInt_add_fits (by omega) (by omega), y1, titleH]
  rw [Int32.toInt_add_fits (by omega) (by omega), y2, ten]
  omega

def WindowArea (d : Display) (w : DesktopWindow) (clip : Rect) (point : Int × Int) : Prop :=
  (windowRect w.win).Has point.1 point.2 ∧ clip.Has point.1 point.2 ∨
  (∃ cell ∈ titleCells d w, rectIntersects clip cell = true ∧ cell.Small ∧
  cell.Has point.1 point.2) ∨
  ∃ cell ∈ lineCells d w, rectIntersects (rectIntersection clip (windowBodyRect d w)) cell = true ∧
    cell.Small ∧ cell.Has point.1 point.2

theorem Rect.Bounded.small {r : Rect} (bounded : r.Bounded (2 ^ 28)) : r.Small :=
  bounded.mono (by omega)

theorem Clips.cuts_parts (sound : d.Sound) (region : c.Small) (clips : Clips d c c (fullRect d.fb))
    (modest : w.Modest) (wide : 4 ≤ w.win.width.toNat) (high : 4 ≤ w.win.height.toNat)
    (held : WindowHeld d c w) :
    Cuts d c (drawWindowParts d w focused c) (drawWindowParts d w focused (fullRect d.fb)) := by
  have body := windowBodyRect_held sound modest wide high
  have close := closeButtonRect_held sound modest high
  obtain ⟨lineAbove, lineBelow⟩ := firstLine sound modest high
  rw [drawWindowParts, drawWindowParts]
  refine Cut.append (Cut.append (Cut.append (Cut.append (Cut.append ?_ ?_) ?_) ?_) ?_) ?_
  · exact clips.cuts_fill (windowRect_small modest) _
  · exact clips.cuts_fill (titleBarRect_held sound modest wide high).small.small _
  · split
    next => exact clips.cuts_fill body.small.small _
    next => exact Cut.nil
  · split
    next title _ => exact clips.cuts_text sound region (fun cell _ meets _ => meets) _ _
    next => exact Cut.nil
  · refine clips.cuts_gate ((clips.cuts_fill close.small.small _).append (clips.cuts_frame close.small _)) ?_
    intro point inRegion misses
    have onRegion : ∀ x y, c.Has x y → d.fb.Has x y := fun x y has =>
      clips.onScreen x y (clips.inside x y has).2
    refine ((fillRectClipped_only close.small.small region onRegion _).append
      (drawFrameClipped_only close.small region onRegion _)) point fun both => ?_
    rw [rectIntersects_of_has region close.small.small both.2 both.1] at misses
    cases misses
  · exact (clips.meet body.small.small).cuts_lines sound region body.small _ _ lineAbove lineBelow held.lines

theorem drawWindowParts_only (sound : d.Sound) (modest : w.Modest) (wide : 4 ≤ w.win.width.toNat)
    (high : 4 ≤ w.win.height.toNat) (clipSmall : clip.Small)
    (onScreen : ∀ x y, clip.Has x y → d.fb.Has x y) :
    PaintsOnly (GuiCall.ink d) (WindowArea d w clip) (drawWindowParts d w focused clip) := by
  have body := windowBodyRect_held sound modest wide high
  have close := closeButtonRect_held sound modest high
  have title := titleBarRect_held sound modest wide high
  obtain ⟨lineAbove, lineBelow⟩ := firstLine sound modest high
  rw [drawWindowParts]
  refine PaintsOnly.append (PaintsOnly.append (PaintsOnly.append (PaintsOnly.append
    (PaintsOnly.append ?_ ?_) ?_) ?_) ?_) ?_
  · exact (fillRectClipped_only (windowRect_small modest) clipSmall onScreen _).mono fun _ both =>
      Or.inl both
  · exact (fillRectClipped_only title.small.small clipSmall onScreen _).mono fun _ both =>
      Or.inl ⟨title.inside _ _ both.1, both.2⟩
  · split
    next =>
      exact (fillRectClipped_only body.small.small clipSmall onScreen _).mono fun _ both =>
        Or.inl ⟨body.inside _ _ both.1, both.2⟩
    next => exact PaintsOnly.nil
  · split
    next text titled =>
      refine (drawTextFrom_only sound _ _).mono fun point drawn => Or.inr (Or.inl ?_)
      rw [titleCells, titled]
      exact drawn
    next => exact PaintsOnly.nil
  · split
    next =>
      refine PaintsOnly.append ?_ ?_
      · exact (fillRectClipped_only close.small.small clipSmall onScreen _).mono fun _ both =>
          Or.inl ⟨close.inside _ _ both.1, both.2⟩
      · exact (drawFrameClipped_only close.small clipSmall onScreen _).mono fun _ both =>
          Or.inl ⟨close.inside _ _ both.1, both.2⟩
    next => exact PaintsOnly.nil
  · refine (drawLines_only sound body.small (rectIntersection_small clipSmall body.small.small)
      ?_ _ _ lineAbove lineBelow).mono ?_
    · exact fun x y has => onScreen x y ((rectIntersection_has clipSmall body.small.small).mp has).1
    · rintro point (inBody | drawn)
      · obtain ⟨inClip, has⟩ := (rectIntersection_has clipSmall body.small.small).mp inBody
        exact Or.inl ⟨body.inside _ _ has, inClip⟩
      · exact Or.inr (Or.inr drawn)

end Windows

section Icons

variable {d : Display} {c clip : Rect} {i : Fin windowCount} {accent : FbColor} {visible focused : Bool}

instance (n : Int) (r : Rect) : Decidable (r.Bounded n) :=
  decidable_of_iff (-n ≤ r.x.toInt ∧ r.x.toInt ≤ n ∧ -n ≤ r.y.toInt ∧ r.y.toInt ≤ n ∧
      -n ≤ r.w.toInt ∧ r.w.toInt ≤ n ∧ -n ≤ r.h.toInt ∧ r.h.toInt ≤ n)
    ⟨fun h => ⟨h.1, h.2.1, h.2.2.1, h.2.2.2.1, h.2.2.2.2.1, h.2.2.2.2.2.1, h.2.2.2.2.2.2.1, h.2.2.2.2.2.2.2⟩,
      fun h => ⟨h.left, h.right, h.top, h.bottom, h.narrow, h.wide, h.short, h.high⟩⟩

structure IconParts (i : Fin windowCount) (part : Rect) : Prop where
  bounded : part.Bounded (2 ^ 28)
  left : (iconRect i).x.toInt ≤ part.x.toInt
  right : part.x.toInt + part.w.toInt ≤ (iconRect i).x.toInt + (iconRect i).w.toInt
  top : (iconRect i).y.toInt ≤ part.y.toInt
  bottom : part.y.toInt + part.h.toInt ≤ (iconRect i).y.toInt + (iconRect i).h.toInt

theorem IconParts.inside {part : Rect} (parts : IconParts i part) {x y : Int} (has : part.Has x y) :
    (iconRect i).Has x y := by
  obtain ⟨_, left, right, top, bottom⟩ := parts
  obtain ⟨hasLeft, hasRight, hasTop, hasBottom⟩ := has
  exact ⟨by omega, by omega, by omega, by omega⟩

theorem iconRect_parts (i : Fin windowCount) :
    IconParts i (makeRect (iconRect i).x (iconRect i).y iconW iconH) ∧
    IconParts i (makeRect ((iconRect i).x + 2) ((iconRect i).y + 2) (iconW - 4) (iconH - 4)) ∧
    IconParts i (makeRect ((iconRect i).x + 24) ((iconRect i).y + 16) 36 36) ∧
    IconParts i (makeRect ((iconRect i).x + 66) ((iconRect i).y + 8) 10 10) := by
  refine ⟨⟨?_, ?_, ?_, ?_, ?_⟩, ⟨?_, ?_, ?_, ?_, ?_⟩, ⟨?_, ?_, ?_, ?_, ?_⟩,
    ?_, ?_, ?_, ?_, ?_⟩ <;> revert i <;> decide

def placedIcon (d : Display) (i : Fin windowCount) (accent : FbColor) (visible focused : Bool)
    (clip : Rect) : List GuiCall :=
  drawIcon d (iconRect i).x.toUInt32 (iconRect i).y.toUInt32 (kIconLabels i) accent visible focused clip

def IconArea (d : Display) (i : Fin windowCount) (clip : Rect) (point : Int × Int) : Prop :=
  (iconRect i).Has point.1 point.2 ∧ clip.Has point.1 point.2 ∨
  ∃ cell ∈ iconLabelCells d i, rectIntersects clip cell = true ∧ cell.Small ∧
  cell.Has point.1 point.2

theorem Clips.cuts_icon (sound : d.Sound) (region : c.Small) (clips : Clips d c c (fullRect d.fb)) :
    Cuts d c (placedIcon d i accent visible focused c)
    (placedIcon d i accent visible focused (fullRect d.fb)) := by
  obtain ⟨outer, inner, picture, lamp⟩ := iconRect_parts i
  rw [placedIcon, placedIcon, drawIcon, drawIcon]
  simp only [Int32.toInt32_toUInt32]
  refine Cut.append (Cut.append (Cut.append (Cut.append (Cut.append ?_ ?_) ?_) ?_) ?_) ?_
  · exact clips.cuts_fill outer.bounded.small _
  · exact clips.cuts_frame outer.bounded _
  · split
    next => exact clips.cuts_frame inner.bounded _
    next => exact Cut.nil
  · exact clips.cuts_fill picture.bounded.small _
  · exact clips.cuts_fill lamp.bounded.small _
  · exact clips.cuts_text sound region (fun cell _ meets _ => meets) _ _

theorem placedIcon_only (sound : d.Sound) (clipSmall : clip.Small)
    (onScreen : ∀ x y, clip.Has x y → d.fb.Has x y) :
    PaintsOnly (GuiCall.ink d) (IconArea d i clip) (placedIcon d i accent visible focused clip) := by
  obtain ⟨outer, inner, picture, lamp⟩ := iconRect_parts i
  have filled : ∀ {part : Rect} (color : FbColor), IconParts i part →
      PaintsOnly (GuiCall.ink d) (IconArea d i clip) (fillRectClipped part color clip) := fun color parts =>
    (fillRectClipped_only parts.bounded.small clipSmall onScreen color).mono fun _ both =>
      Or.inl ⟨parts.inside both.1, both.2⟩
  have framed : ∀ {part : Rect} (color : FbColor), IconParts i part →
      PaintsOnly (GuiCall.ink d) (IconArea d i clip) (drawFrameClipped part color clip) := fun color parts =>
    (drawFrameClipped_only parts.bounded clipSmall onScreen color).mono fun _ both =>
      Or.inl ⟨parts.inside both.1, both.2⟩
  rw [placedIcon, drawIcon]
  simp only [Int32.toInt32_toUInt32]
  refine PaintsOnly.append (PaintsOnly.append (PaintsOnly.append (PaintsOnly.append
    (PaintsOnly.append ?_ ?_) ?_) ?_) ?_) ?_
  · exact filled _ outer
  · exact framed _ outer
  · split
    next => exact framed _ inner
    next => exact PaintsOnly.nil
  · exact filled _ picture
  · exact filled _ lamp
  · exact (drawTextFrom_only sound _ _).mono fun _ drawn => Or.inr drawn

end Icons

section Regions

variable {d : Display} {s : DesktopSnapshot} {c region : Rect} {point : Int × Int}

structure RegionHeld (d : Display) (s : DesktopSnapshot) (c : Rect) : Prop where
  windows : ∀ i, (s.windows i).visible = true → WindowHeld d c (s.windows i)
  labels : ∀ i, ∀ cell ∈ iconLabelCells d i, rectIntersects c cell = true →
    rectIntersects c (iconRect i) = true

theorem Clips.ofRegion (sound : d.Sound) (small : c.Small)
    (onScreen : ∀ x y, c.Has x y → d.fb.Has x y) : Clips d c c (fullRect d.fb) where
  small := small
  wholeSmall := fullRect_small sound.screen
  inside x y has := ⟨has, (fullRect_has sound.screen).mpr (onScreen x y has)⟩
  agrees _ _ inRegion _ := inRegion
  onScreen _ _ has := (fullRect_has sound.screen).mp has

theorem unless_eq {Item : Type} (skips : Bool) (items : List Item) :
    (if (!skips) = true then [] else items) = if skips = true then items else [] := by
  cases skips <;> rfl

theorem Clips.cuts_window (sound : d.Sound) (clips : Clips d c c (fullRect d.fb)) {w : DesktopWindow}
    (modest : w.Modest) (held : w.visible = true → WindowHeld d c w) (focused : Bool) :
    Cuts d c (drawWindowRegion d w focused c) (drawWindowRegion d w focused (fullRect d.fb)) := by
  have onRegion : ∀ x y, c.Has x y → d.fb.Has x y := fun x y has => clips.onScreen x y (clips.inside x y has).2
  rw [drawWindowRegion, drawWindowRegion]
  split
  next => exact Cut.nil
  next shown =>
    have visible := held (by simpa using shown)
    split
    next => exact Cut.nil
    next roomy =>
      simp only [Bool.or_eq_true, decide_eq_true_eq, UInt32.lt_iff_toNat_lt, not_or, Nat.not_lt] at roomy
      have wide : 4 ≤ w.win.width.toNat := roomy.1
      have high : 4 ≤ w.win.height.toNat := roomy.2
      have body := windowBodyRect_held sound modest wide high
      rw [unless_eq, unless_eq]
      refine clips.cuts_gate (clips.cuts_parts sound clips.small modest wide high visible) ?_
      intro point inRegion misses
      refine drawWindowParts_only sound modest wide high clips.small onRegion point fun area => ?_
      rw [Bool.eq_false_iff] at misses
      rcases area with ⟨inWindow, _⟩ | ⟨cell, member, meets, _⟩ | ⟨cell, member, meets, _⟩
      · exact misses (rectIntersects_of_has clips.small (windowRect_small modest) inRegion inWindow)
      · exact misses (visible.title cell member meets)
      · have valid : rectValid (rectIntersection c (windowBodyRect d w)) = true := by
          rw [rectIntersects] at meets
          by_contra empty
          simp [empty] at meets
        obtain ⟨inC, inBody⟩ := (rectIntersection_has clips.small body.small.small).mp (rectValid_corner valid)
        exact misses (rectIntersects_of_has clips.small (windowRect_small modest) inC (body.inside _ _ inBody))

theorem Clips.cuts_desktop (sound : d.Sound) (clips : Clips d c c (fullRect d.fb))
    (clipped : clipToFb d.fb c = c)
    (labels : ∀ i, ∀ cell ∈ iconLabelCells d i, rectIntersects c cell = true →
      rectIntersects c (iconRect i) = true)
    (windows : Fin windowCount → DesktopWindow) (activeIdx : Int32) :
    Cuts d c (drawDesktopRegion d c windows activeIdx)
    (drawDesktopRegion d (fullRect d.fb) windows activeIdx) := by
  have onRegion : ∀ x y, c.Has x y → d.fb.Has x y := fun x y has => clips.onScreen x y (clips.inside x y has).2
  have text : ∀ (x y : Int32) (bytes : List UInt8), Cuts d c
      (drawTextIfVisible d c x y bytes desktopBarFg desktopBarBg)
      (drawTextIfVisible d (fullRect d.fb) x y bytes desktopBarFg desktopBarBg) :=
    fun x y bytes => clips.cuts_text sound clips.small (fun cell _ meets _ => meets) _ _
  rw [drawDesktopRegion, drawDesktopRegion]
  simp only [clipped, clipToFb_full sound.screen]
  by_cases valid : rectValid c = true
  · obtain ⟨_, inFull⟩ := clips.inside _ _ (rectValid_corner valid)
    have fullValid := inFull.valid
    simp only [valid, fullValid, Bool.not_true, Bool.false_eq_true, if_false]
    refine Cut.append (Cut.append (Cut.append (Cut.append (Cut.append (Cut.append (Cut.append (Cut.append
      ?_ ?_) ?_) ?_) ?_) ?_) ?_) ?_) ?_
    · refine Cut.contained ?_ ?_
      · intro point inRegion
        rw [guiFillRect_colours onRegion valid, guiFillRect_colours clips.onScreen fullValid,
          if_pos inRegion, if_pos (clips.inside _ _ inRegion).2]
      · intro point outside
        rw [guiFillRect_colours onRegion valid, if_neg outside]
    · exact clips.cuts_fill (desktopTopRect_small sound.screen) _
    · exact clips.cuts_fill (desktopSideRect_small sound.screen) _
    · exact text _ _ _
    · exact text _ _ _
    · exact text _ _ _
    · exact text _ _ _
    · exact text _ _ _
    · refine Cut.flatMap fun i _ => ?_
      rw [unless_eq, unless_eq]
      refine clips.cuts_gate (clips.cuts_icon sound clips.small) ?_
      intro point inRegion misses
      refine placedIcon_only sound clips.small onRegion point fun area => ?_
      rw [Bool.eq_false_iff] at misses
      have small : (iconRect i).Small := (iconRect_parts i).1.bounded.small
      rcases area with ⟨inIcon, _⟩ | ⟨cell, member, meets, _⟩
      · exact misses (rectIntersects_of_has clips.small small inRegion inIcon)
      · exact misses (labels i cell member meets)
  · simp only [valid, Bool.not_false, if_true]
    exact Cut.skip fun point has => absurd has.valid valid

theorem repaint_cuts (region : Rect) (sound : d.Sound) (modest : ∀ i, (s.windows i).Modest)
    (small : region.Small) (held : RegionHeld d s (clipToFb d.fb region)) :
    Cuts d (clipToFb d.fb region) (s.repaint d region) (s.repaint d (fullRect d.fb)) := by
  have clipSmall := clipToFb_small sound.screen small
  have clipped := clipToFb_again sound.screen small
  have onScreen : ∀ x y, (clipToFb d.fb region).Has x y → d.fb.Has x y :=
    fun x y has => ((clipToFb_has_iff sound.screen small).mp has).2
  generalize clipRegion : clipToFb d.fb region = c at clipSmall clipped onScreen held
  have clips := Clips.ofRegion sound clipSmall onScreen
  rw [DesktopSnapshot.repaint, DesktopSnapshot.repaint, repaintRegion, repaintRegion]
  simp only [clipRegion, clipToFb_full sound.screen]
  by_cases valid : rectValid c = true
  · have fullValid := (clips.inside _ _ (rectValid_corner valid)).2.valid
    simp only [valid, fullValid, Bool.not_true, Bool.false_eq_true, if_false]
    refine (clips.cuts_desktop sound clipped held.labels s.windows s.activeIdx).append
      (Cut.flatMap fun i _ => ?_)
    split
    next => exact Cut.nil
    next idx _ => exact clips.cuts_window sound (modest idx) (held.windows idx) _
  · simp only [valid, Bool.not_false, if_true]
    exact Cut.skip fun point has => absurd has.valid valid

end Regions

end Szczupak
