import Szczupak.Desktop.Cursor
import Szczupak.Desktop.Render

/-!
Two full pictures of the desktop differ near the places that the frame makes dirty, at most a
character cell away from them.
-/

namespace Szczupak

def fullPicture (d : Display) (s : DesktopSnapshot) : Framebuffer :=
  paint (GuiCall.ink d) (s.repaint d (fullRect d.fb)) fun _ => ⟨0, 0, 0⟩

section Pictures

variable {d : Display} {s : DesktopSnapshot} {point : Int × Int}

theorem ink_packed {call : GuiCall} {pixel : FbPixel} (ink : call.ink d point = some pixel) :
    ∃ color, pixel = d.layout.pack color := by
  have filled : ∀ {x y w h : UInt32} {color : FbColor},
      fbFillRect d x y w h color point = some pixel → ∃ color, pixel = d.layout.pack color := by
    intro x y w h color written
    rw [fbFillRect_eq] at written
    split at written
    · exact ⟨color, (Option.some.inj written).symm⟩
    · cases written
  cases call with
  | fillRect x y w h color => exact filled ink
  | putpixel x y color =>
      rw [GuiCall.ink, fbPutpixel_eq] at ink
      split at ink
      · exact ⟨color, (Option.some.inj ink).symm⟩
      · cases ink
  | drawChar x y c fg bg =>
      rw [GuiCall.ink] at ink
      cases glyphs : d.font.glyphs with
      | none =>
          simp only [psfDrawChar, glyphs, psfDrawFallbackChar] at ink
          split at ink
          · exact filled ink
          · rw [Option.or_eq_some_iff, Option.or_eq_some_iff] at ink
            rcases ink with inner | ⟨_, outer | ⟨_, back⟩⟩
            · exact filled inner
            · exact filled outer
            · exact filled back
      | some bytes =>
          simp only [psfDrawChar, glyphs] at ink
          exact fbDrawMono8_packed ink

theorem repaint_covers (screen : d.fb.Small) (has : d.fb.Has point.1 point.2) :
    coloursAt (GuiCall.ink d) (s.repaint d (fullRect d.fb)) point ≠ [] := by
  have inFull := (fullRect_has screen).mpr has
  rw [DesktopSnapshot.repaint, repaintRegion, clipToFb_full screen]
  simp only [inFull.valid, drawDesktopRegion, clipToFb_full screen, Bool.not_true,
    Bool.false_eq_true, if_false, List.append_assoc]
  rw [coloursAt_append, guiFillRect_colours (fun x y => (fullRect_has screen).mp) inFull.valid,
    if_pos inFull]
  exact List.cons_ne_nil _ _

theorem fullPicture_packed (screen : d.fb.Small) : Packed d (fullPicture d s) := by
  intro point has
  have covered := repaint_covers (s := s) screen has
  rw [fullPicture, paint_apply, List.getLast?_eq_some_getLast covered, Option.getD_some]
  obtain ⟨call, _, ink⟩ := List.mem_filterMap.mp (List.getLast_mem covered)
  exact ink_packed ink

end Pictures

/-- A pixel at most one character cell away from what is shown of the rectangle. -/
def Reached (d : Display) (r : Rect) (point : Int × Int) : Prop :=
  ∃ x y, r.Has x y ∧ d.fb.Has x y ∧ x - 8 ≤ point.1 ∧ point.1 ≤ x + 8 ∧
    y - d.font.metrics.charHeight.toNat ≤ point.2 ∧ point.2 ≤ y + d.font.metrics.charHeight.toNat

def barCells (d : Display) (s : DesktopSnapshot) : List Rect :=
  let openCount := countVisibleWindows s.windows
  textCells d 184 184 8 (kOpenLabels (if openCount > 3 then 3 else openCount)) ++
    textCells d 304 304 8 (activeTitle s.windows s.activeIdx)

/-- No title, no label of an icon and no text of the bar has a character on the screen that is
wholly outside of the window, the icon or the bar. -/
structure TextNear (d : Display) (s : DesktopSnapshot) : Prop where
  titles : ∀ i, (s.windows i).visible = true → ∀ cell ∈ titleCells d (s.windows i),
    rectIntersects (fullRect d.fb) cell = true →
      rectIntersects (rectIntersection (fullRect d.fb) (windowRect (s.windows i).win)) cell = true
  labels : ∀ i, ∀ cell ∈ iconLabelCells d i, rectIntersects (fullRect d.fb) cell = true →
    rectIntersects (rectIntersection (fullRect d.fb) (iconRect i)) cell = true
  bar : ∀ cell ∈ barCells d s, rectIntersects (fullRect d.fb) cell = true →
    rectIntersects (rectIntersection (fullRect d.fb) (desktopTopRect d.fb)) cell = true

section Reach

variable {d : Display} {r cell : Rect} {point : Int × Int}

theorem textCells_cell {startX cx cy : Int32} {text : List UInt8}
    (member : cell ∈ textCells d startX cx cy text) : ∃ x y, cell = charCell d x y := by
  induction text generalizing cx cy with
  | nil => simp [textCells] at member
  | cons c text ih =>
      rw [textCells] at member
      split at member
      · exact ih member
      · rcases List.mem_cons.mp member with rfl | rest
        · exact ⟨cx, cy, rfl⟩
        · exact ih rest

variable {w : DesktopWindow}

theorem titleCells_cell (member : cell ∈ titleCells d w) : ∃ x y, cell = charCell d x y := by
  rw [titleCells] at member
  split at member
  · exact textCells_cell member
  · simp at member

theorem lineCellsFrom_cell {lineX lineY : Int32} {lines : List (Option (List UInt8))}
    (member : cell ∈ lineCellsFrom d lineX lineY lines) : ∃ x y, cell = charCell d x y := by
  induction lines generalizing lineY with
  | nil => simp [lineCellsFrom] at member
  | cons line lines ih =>
      rw [lineCellsFrom] at member
      rcases List.mem_append.mp member with first | rest
      · exact textCells_cell first
      · exact ih rest

theorem cell_reached (sound : d.Sound) (small : r.Small) (shape : ∃ x y, cell = charCell d x y)
    (meets : rectIntersects (rectIntersection (fullRect d.fb) r) cell = true) (cellSmall : cell.Small)
    (has : cell.Has point.1 point.2) : Reached d r point := by
  have fullSmall := fullRect_small sound.screen
  obtain ⟨x, y, inBoth, inCell⟩ := rectIntersects_has (rectIntersection_small fullSmall small)
    cellSmall meets
  obtain ⟨inFull, inRect⟩ := (rectIntersection_has fullSmall small).mp inBoth
  obtain ⟨fontH, tall, low⟩ := desktopFontH_toInt sound
  have fontW := desktopFontW_toInt sound
  obtain ⟨left, top, rfl⟩ := shape
  obtain ⟨hasLeft, hasRight, hasTop, hasBottom⟩ := has
  obtain ⟨fromX, toX, fromY, toY⟩ := inCell
  simp only [charCell, makeRect, fontW, fontH] at hasLeft hasRight hasTop hasBottom fromX toX fromY toY
  exact ⟨x, y, inRect, (fullRect_has sound.screen).mp inFull, by omega, by omega, by omega, by omega⟩

theorem has_reached (inRect : r.Has point.1 point.2) (onScreen : d.fb.Has point.1 point.2) :
    Reached d r point :=
  ⟨point.1, point.2, inRect, onScreen, by omega, by omega, by omega, by omega⟩

theorem windowArea_reached (sound : d.Sound) (modest : w.Modest)
    (near : ∀ cell ∈ titleCells d w, rectIntersects (fullRect d.fb) cell = true →
      rectIntersects (rectIntersection (fullRect d.fb) (windowRect w.win)) cell = true)
    (area : WindowArea d w (fullRect d.fb) point) : Reached d (windowRect w.win) point := by
  have body := windowBodyRect_held sound modest modest.notNarrow modest.notLow
  rcases area with ⟨inWindow, onScreen⟩ | ⟨cell, member, meets, small, has⟩ | ⟨cell, member,
    meets, small, has⟩
  · exact has_reached inWindow ((fullRect_has sound.screen).mp onScreen)
  · exact cell_reached sound (windowRect_small modest) (titleCells_cell member)
      (near cell member meets) small has
  · obtain ⟨x, y, inBody, close⟩ := cell_reached sound body.small.small
      (lineCellsFrom_cell member) meets small has
    exact ⟨x, y, body.inside x y inBody, close⟩

theorem drawWindowRegion_reached (sound : d.Sound) (modest : w.Modest)
    (near : w.visible = true → ∀ cell ∈ titleCells d w, rectIntersects (fullRect d.fb) cell = true →
      rectIntersects (rectIntersection (fullRect d.fb) (windowRect w.win)) cell = true) {focused : Bool}
    (far : w.visible = true → ¬Reached d (windowRect w.win) point) :
    coloursAt (GuiCall.ink d) (drawWindowRegion d w focused (fullRect d.fb)) point = [] := by
  rw [drawWindowRegion]
  split
  next => rfl
  next shown =>
    have visible : w.visible = true := by simpa using shown
    split
    next => rfl
    next =>
      split
      next => rfl
      next =>
        refine drawWindowParts_only sound modest modest.notNarrow modest.notLow (fullRect_small sound.screen)
          (fun x y => (fullRect_has sound.screen).mp) point fun area => far visible ?_
        exact windowArea_reached sound modest (near visible) area

end Reach

section Regions

variable {d : Display} {stored : Rect} {point : Int × Int}

theorem toInt_double {a : Int32} (lower : -2 ^ 30 ≤ a.toInt) (upper : a.toInt < 2 ^ 30) :
    (a * 2).toInt = a.toInt * 2 := by
  rw [Int32.toInt_mul]
  apply Int.bmod_eq_of_le
  · change _ ≤ a.toInt * 2
    omega
  · change a.toInt * 2 < _
    omega

theorem rectExpand_sides (sound : d.Sound) (inside : stored.Inside d.fb.width.toNat d.fb.height.toNat) :
    (rectExpand stored (desktopFontW d) (desktopFontH d)).x.toInt = stored.x.toInt - 8 ∧
    (rectExpand stored (desktopFontW d) (desktopFontH d)).w.toInt = stored.w.toInt + 16 ∧
    (rectExpand stored (desktopFontW d) (desktopFontH d)).y.toInt =
      stored.y.toInt - d.font.metrics.charHeight.toNat ∧
    (rectExpand stored (desktopFontW d) (desktopFontH d)).h.toInt =
      stored.h.toInt + d.font.metrics.charHeight.toNat * 2 := by
  obtain ⟨fontH, tall, low⟩ := desktopFontH_toInt sound
  have fontW := desktopFontW_toInt sound
  have doubleW := toInt_double (a := desktopFontW d) (by omega) (by omega)
  have doubleH := toInt_double (a := desktopFontH d) (by omega) (by omega)
  have width := sound.screen.width
  have height := sound.screen.height
  obtain ⟨left, wide, right, top, high, bottom⟩ := inside
  refine ⟨?_, ?_, ?_, ?_⟩
  · rw [rectExpand, Int32.toInt_sub_fits (by omega) (by omega), fontW]
  · rw [rectExpand, Int32.toInt_add_fits (by omega) (by omega), doubleW, fontW]
    rfl
  · rw [rectExpand, Int32.toInt_sub_fits (by omega) (by omega), fontH]
  · rw [rectExpand, Int32.toInt_add_fits (by omega) (by omega), doubleH, fontH]

theorem rectExpand_small (sound : d.Sound) (inside : stored.Inside d.fb.width.toNat d.fb.height.toNat) :
    (rectExpand stored (desktopFontW d) (desktopFontH d)).Small := by
  obtain ⟨fontH, tall, low⟩ := desktopFontH_toInt sound
  obtain ⟨x, w, y, h⟩ := rectExpand_sides sound inside
  have width := sound.screen.width
  have height := sound.screen.height
  obtain ⟨left, wide, right, top, high, bottom⟩ := inside
  constructor <;> omega

theorem expandRepaintRegion_has (sound : d.Sound)
    (inside : stored.Inside d.fb.width.toNat d.fb.height.toNat)
    {x y : Int} (has : stored.Has x y) (onScreen : d.fb.Has point.1 point.2) (left : x - 8 ≤ point.1)
    (right : point.1 ≤ x + 8) (top : y - d.font.metrics.charHeight.toNat ≤ point.2)
    (bottom : point.2 ≤ y + d.font.metrics.charHeight.toNat) :
    (expandRepaintRegion d stored).Has point.1 point.2 := by
  obtain ⟨sideX, sideW, sideY, sideH⟩ := rectExpand_sides sound inside
  refine (clipToFb_has_iff sound.screen (rectExpand_small sound inside)).mpr ⟨?_, onScreen⟩
  obtain ⟨hasLeft, hasRight, hasTop, hasBottom⟩ := has
  exact ⟨by omega, by omega, by omega, by omega⟩

theorem reached_painted (sound : d.Sound) {added : List DirtyCall} {rects : List Rect}
    (regions : Regions d.fb.width.toNat d.fb.height.toNat added rects) {r : Rect}
    (member : DirtyCall.mk d.fb r ∈ added) (onScreen : d.fb.Has point.1 point.2)
    (reached : Reached d r point) :
    ∃ stored ∈ rects, (expandRepaintRegion d stored).Has point.1 point.2 := by
  obtain ⟨x, y, inRect, shown, left, right, top, bottom⟩ := reached
  obtain ⟨stored, placed, has⟩ := regions.covered _ member x y inRect shown
  exact ⟨stored, placed, expandRepaintRegion_has sound (regions.inside stored placed) has onScreen
    left right top bottom⟩

end Regions

structure StyleKept (before after : DesktopWindow) : Prop where
  title : after.win.title = before.win.title
  colors : after.themeIdx = before.themeIdx →
    after.win.borderColor = before.win.borderColor ∧ after.win.titleBgColor = before.win.titleBgColor ∧
      after.win.bodyColor = before.win.bodyColor ∧ after.win.titleFgColor = before.win.titleFgColor

section Same

variable {d : Display} {prev rt : DesktopSnapshot} {point : Int × Int} {i : Fin windowCount}

def Clear (d : Display) (prev rt : DesktopSnapshot) (point : Int × Int) : Prop :=
  ∀ rect ∈ frameDirtyRects d prev rt true, ¬Reached d rect point

section

variable (clear : Clear d prev rt point)
include clear

variable {rect : Rect}

theorem Clear.window (member : rect ∈ windowDirty prev rt i) : ¬Reached d rect point := by
  refine clear rect ?_
  simp only [frameDirtyRects, List.mem_append, List.append_assoc]
  exact Or.inl (List.mem_flatMap.mpr ⟨i, List.mem_finRange i, member⟩)

theorem Clear.stacked (changed : zOrderChanged prev rt = true)
    (member : rect ∈ openDirty (fun w => windowRect w.win) prev rt i) : ¬Reached d rect point := by
  refine clear rect ?_
  simp only [frameDirtyRects, List.mem_append, List.append_assoc, changed, if_true]
  exact Or.inr (Or.inl (List.mem_flatMap.mpr ⟨i, List.mem_finRange i, member⟩))

theorem Clear.bar
    (changed : countVisibleWindows prev.windows ≠ countVisibleWindows rt.windows ∨
    prev.activeIdx ≠ rt.activeIdx) : ¬Reached d (desktopTopRect d.fb) point := by
  refine clear _ ?_
  have taken : (countVisibleWindows prev.windows != countVisibleWindows rt.windows ||
      prev.activeIdx != rt.activeIdx) = true := by simpa using changed
  simp only [frameDirtyRects, List.mem_append, List.append_assoc, taken, if_true]
  exact Or.inr (Or.inr (Or.inl List.mem_cons_self))

theorem Clear.icon (member : rect ∈ iconDirty prev rt i) : ¬Reached d rect point := by
  refine clear rect ?_
  simp only [frameDirtyRects, List.mem_append, List.append_assoc]
  exact Or.inr (Or.inr (Or.inr (Or.inl (List.mem_flatMap.mpr ⟨i, List.mem_finRange i, member⟩))))

theorem Clear.body
    (member : rect ∈ openDirty (windowBodyRect d) prev rt i) : ¬Reached d rect point := by
  refine clear rect ?_
  simp only [frameDirtyRects, List.mem_append, List.append_assoc, if_true]
  exact Or.inr (Or.inr (Or.inr (Or.inr (List.mem_flatMap.mpr ⟨i, List.mem_finRange i, member⟩))))

end

theorem windowIdx_some {z : Int32} (found : windowIdx z = some i) : z = Int32.ofNat i := by
  rw [windowIdx] at found
  split at found
  next inside =>
    cases found
    apply Int32.toInt_inj.mp
    have small : z.toInt.toNat < 2 ^ 31 := by
      have low : z.toInt.toNat < 3 := inside.2
      omega
    rw [Int32.toInt_ofNat_of_lt small]
    have nonneg := inside.1
    omega
  next => cases found

theorem contents_far (sound : d.Sound) (modest : w.Modest)
    (far : ¬Reached d (windowBodyRect d w) point) (bodyColor textColor : FbColor) :
    coloursAt (GuiCall.ink d)
    (drawWindowContentsRegion d w (rectIntersection (fullRect d.fb) (windowBodyRect d w))
      bodyColor textColor (windowTitleHeight d w.win).toInt32) point = [] := by
  have fullSmall := fullRect_small sound.screen
  have body := windowBodyRect_held sound modest modest.notNarrow modest.notLow
  obtain ⟨lineAbove, lineBelow⟩ := firstLine sound modest modest.notLow
  refine drawLines_only sound body.small (rectIntersection_small fullSmall body.small.small)
    ?_ _ _ lineAbove lineBelow point fun area => far ?_
  · exact fun x y has =>
      (fullRect_has sound.screen).mp ((rectIntersection_has fullSmall body.small.small).mp has).1
  · rcases area with inBody | ⟨cell, member, meets, small, has⟩
    · obtain ⟨inFull, has⟩ := (rectIntersection_has fullSmall body.small.small).mp inBody
      exact has_reached has ((fullRect_has sound.screen).mp inFull)
    · exact cell_reached sound body.small.small (lineCellsFrom_cell member) meets small has

theorem sameFrame_colours (sound : d.Sound) {before after : DesktopWindow} (modest : before.Modest)
    (modest' : after.Modest) (same : after.win = before.win) (visible : after.visible = before.visible)
    (far : ¬Reached d (windowBodyRect d before) point)
    (far' : ¬Reached d (windowBodyRect d after) point) (focused : Bool) :
    coloursAt (GuiCall.ink d) (drawWindowRegion d before focused (fullRect d.fb)) point =
      coloursAt (GuiCall.ink d) (drawWindowRegion d after focused (fullRect d.fb)) point := by
  have body : windowBodyRect d after = windowBodyRect d before := by
    rw [windowBodyRect, windowBodyRect, same]
  have parts : coloursAt (GuiCall.ink d) (drawWindowParts d before focused (fullRect d.fb)) point =
      coloursAt (GuiCall.ink d) (drawWindowParts d after focused (fullRect d.fb)) point := by
    simp only [drawWindowParts, coloursAt_append, contents_far sound modest far,
      contents_far sound modest' far']
    rw [same, body]
  rw [drawWindowRegion, drawWindowRegion, same, visible]
  split
  · rfl
  · split
    · rfl
    · split
      · rfl
      · exact parts

theorem window_same (sound : d.Sound) (modest : ∀ i, (prev.windows i).Modest)
    (modest' : ∀ i, (rt.windows i).Modest)
    (near : TextNear d prev) (near' : TextNear d rt) (style : ∀ i, StyleKept (prev.windows i) (rt.windows i))
    (clear : Clear d prev rt point) (i : Fin windowCount) :
    coloursAt (GuiCall.ink d)
        (drawWindowRegion d (prev.windows i) (Int32.ofNat i == prev.activeIdx) (fullRect d.fb)) point =
      coloursAt (GuiCall.ink d)
        (drawWindowRegion d (rt.windows i) (Int32.ofNat i == rt.activeIdx) (fullRect d.fb)) point := by
  have gone : ∀ focused, ((prev.windows i).visible = true →
    ¬Reached d (windowRect (prev.windows i).win) point) →
      coloursAt (GuiCall.ink d) (drawWindowRegion d (prev.windows i) focused (fullRect d.fb)) point = [] :=
    fun focused far => drawWindowRegion_reached sound (modest i) (near.titles i) far
  have come : ∀ focused, ((rt.windows i).visible = true →
    ¬Reached d (windowRect (rt.windows i).win) point) →
      coloursAt (GuiCall.ink d) (drawWindowRegion d (rt.windows i) focused (fullRect d.fb)) point = [] :=
    fun focused far => drawWindowRegion_reached sound (modest' i) (near'.titles i) far
  cases was : (prev.windows i).visible with
  | false =>
      rw [gone _ fun visible => by simp [was] at visible]
      refine (come _ fun visible => clear.window (i := i) ?_).symm
      simp [windowDirty, was, visible]
  | true =>
      cases is : (rt.windows i).visible with
      | false =>
          rw [come _ fun visible => by simp [is] at visible]
          refine gone _ fun visible => clear.window (i := i) ?_
          simp [windowDirty, was, is]
      | true =>
          cases moved : windowGeometryChanged (prev.windows i) (rt.windows i) with
          | true =>
              rw [gone _ fun _ => clear.window (i := i) (by simp [windowDirty, was, is, moved]),
                come _ fun _ => clear.window (i := i) (by simp [windowDirty, was, is, moved])]
          | false =>
              obtain ⟨⟨⟨sameX, sameY⟩, sameWidth⟩, sameHeight⟩ := by
                simpa only [windowGeometryChanged, Bool.or_eq_false_iff, bne_eq_false_iff_eq] using moved
              have place : windowRect (rt.windows i).win = windowRect (prev.windows i).win := by
                rw [windowRect, windowRect, sameX, sameY, sameWidth, sameHeight]
              cases styled : windowStyleChanged (prev.windows i) (rt.windows i) ||
                  ((Int32.ofNat i == prev.activeIdx) != (Int32.ofNat i == rt.activeIdx)) with
              | true =>
                  have far : ¬Reached d (windowRect (rt.windows i).win) point :=
                    clear.window (i := i) (by simp [windowDirty, was, is, moved, styled])
                  rw [gone _ fun _ => place ▸ far, come _ fun _ => far]
              | false =>
                  obtain ⟨theme, focus⟩ := Bool.or_eq_false_iff.mp styled
                  rw [bne_eq_false_iff_eq] at focus
                  have sameTheme : (rt.windows i).themeIdx = (prev.windows i).themeIdx := by
                    rw [windowStyleChanged, bne_eq_false_iff_eq] at theme
                    exact theme.symm
                  obtain ⟨border, titleBg, body, titleFg⟩ := (style i).colors sameTheme
                  have same : (rt.windows i).win = (prev.windows i).win := by
                    have title := (style i).title
                    cases before : (prev.windows i).win
                    cases after : (rt.windows i).win
                    simp_all
                  rw [focus]
                  refine sameFrame_colours sound (modest i) (modest' i) same (is.trans was.symm) ?_ ?_ _
                  · exact clear.body (i := i) (by simp [openDirty, was])
                  · exact clear.body (i := i) (by simp [openDirty, is])

theorem text_far (sound : d.Sound) {r : Rect} (small : r.Small) {x y : Int32} {text : List UInt8}
    (near : ∀ cell ∈ textCells d x x y text, rectIntersects (fullRect d.fb) cell = true →
      rectIntersects (rectIntersection (fullRect d.fb) r) cell = true)
    (far : ¬Reached d r point) (fg bg : FbColor) :
    coloursAt (GuiCall.ink d) (drawTextIfVisible d (fullRect d.fb) x y text fg bg) point = [] := by
  refine drawTextFrom_only sound fg bg point ?_
  rintro ⟨cell, member, meets, cellSmall, has⟩
  exact far (cell_reached sound small (textCells_cell member) (near cell member meets) cellSmall has)

theorem icon_far (sound : d.Sound) {s : DesktopSnapshot} (near : TextNear d s)
    (far : ¬Reached d (iconRect i) point) (accent : FbColor) (visible focused : Bool) :
    coloursAt (GuiCall.ink d) (placedIcon d i accent visible focused (fullRect d.fb)) point = [] := by
  refine placedIcon_only sound (fullRect_small sound.screen) (fun x y =>
    (fullRect_has sound.screen).mp) point fun area => far ?_
  rcases area with ⟨inIcon, onScreen⟩ | ⟨cell, member, meets, small, has⟩
  · exact has_reached inIcon ((fullRect_has sound.screen).mp onScreen)
  · exact cell_reached sound (iconRect_parts i).1.bounded.small (textCells_cell member)
      (near.labels i cell member meets) small has

def ActiveOpen (s : DesktopSnapshot) : Prop := ∀ i, windowIdx s.activeIdx = some i →
    (s.windows i).visible = true

theorem activeTitle_same (open_ : ActiveOpen prev) (open' : ActiveOpen rt)
    (style : ∀ i, StyleKept (prev.windows i) (rt.windows i)) (same : prev.activeIdx = rt.activeIdx) :
    activeTitle prev.windows prev.activeIdx = activeTitle rt.windows rt.activeIdx := by
  rw [activeTitle, activeTitle, same]
  cases active : windowIdx rt.activeIdx with
  | none => rfl
  | some i =>
      have was := open_ i (same ▸ active)
      have is := open' i active
      simp only [was, is, if_true, (style i).title]

theorem desktop_same (sound : d.Sound) (near : TextNear d prev) (near' : TextNear d rt)
    (style : ∀ i, StyleKept (prev.windows i) (rt.windows i)) (open_ : ActiveOpen prev)
    (open' : ActiveOpen rt) (clear : Clear d prev rt point) :
    coloursAt (GuiCall.ink d) (drawDesktopRegion d (fullRect d.fb) prev.windows prev.activeIdx) point =
      coloursAt (GuiCall.ink d) (drawDesktopRegion d (fullRect d.fb) rt.windows rt.activeIdx) point := by
  have top := desktopTopRect_small sound.screen
  have openLabel :
      coloursAt (GuiCall.ink d) (drawTextIfVisible d (fullRect d.fb) 184 8 (kOpenLabels
        (if countVisibleWindows prev.windows > 3 then 3 else countVisibleWindows prev.windows))
        desktopBarFg desktopBarBg) point =
      coloursAt (GuiCall.ink d) (drawTextIfVisible d (fullRect d.fb) 184 8 (kOpenLabels
        (if countVisibleWindows rt.windows > 3 then 3 else countVisibleWindows rt.windows))
        desktopBarFg desktopBarBg) point := by
    by_cases same : countVisibleWindows prev.windows = countVisibleWindows rt.windows
    · rw [same]
    · have far := clear.bar (Or.inl same)
      rw [text_far sound top (fun cell member => near.bar cell (List.mem_append_left _ member)) far,
        text_far sound top (fun cell member => near'.bar cell (List.mem_append_left _ member)) far]
  have title :
      coloursAt (GuiCall.ink d) (drawTextIfVisible d (fullRect d.fb) 304 8
        (activeTitle prev.windows prev.activeIdx) desktopBarFg desktopBarBg) point =
      coloursAt (GuiCall.ink d) (drawTextIfVisible d (fullRect d.fb) 304 8
        (activeTitle rt.windows rt.activeIdx) desktopBarFg desktopBarBg) point := by
    by_cases same : prev.activeIdx = rt.activeIdx
    · rw [activeTitle_same open_ open' style same]
    · have far := clear.bar (Or.inr same)
      rw [text_far sound top (fun cell member => near.bar cell (List.mem_append_right _ member)) far,
        text_far sound top (fun cell member => near'.bar cell (List.mem_append_right _ member)) far]
  have icon : ∀ i, coloursAt (GuiCall.ink d) (placedIcon d i (kIconColors i)
        (prev.windows i).visible (Int32.ofNat i == prev.activeIdx) (fullRect d.fb)) point =
      coloursAt (GuiCall.ink d) (placedIcon d i (kIconColors i) (rt.windows i).visible
        (Int32.ofNat i == rt.activeIdx) (fullRect d.fb)) point := by
    intro i
    cases changed : (prev.windows i).visible != (rt.windows i).visible ||
        ((Int32.ofNat i == prev.activeIdx) != (Int32.ofNat i == rt.activeIdx)) with
    | true =>
        have far : ¬Reached d (iconRect i) point := clear.icon (i := i) (by simp [iconDirty, changed])
        rw [icon_far sound near far, icon_far sound near' far]
    | false =>
        obtain ⟨visible, focused⟩ := Bool.or_eq_false_iff.mp changed
        rw [bne_eq_false_iff_eq] at visible focused
        rw [visible, focused]
  rw [drawDesktopRegion, drawDesktopRegion]
  simp only [clipToFb_full sound.screen]
  split
  · rfl
  · simp only [coloursAt_append, coloursAt_flatMap, openLabel, title]
    refine congrArg (List.append _) (List.flatMap_congr fun i _ => ?_)
    split
    · rfl
    · exact icon i

theorem repaint_same (sound : d.Sound) (modest : ∀ i, (prev.windows i).Modest)
    (modest' : ∀ i, (rt.windows i).Modest)
    (near : TextNear d prev) (near' : TextNear d rt) (style : ∀ i, StyleKept (prev.windows i) (rt.windows i))
    (open_ : ActiveOpen prev) (open' : ActiveOpen rt) (clear : Clear d prev rt point) :
    coloursAt (GuiCall.ink d) (prev.repaint d (fullRect d.fb)) point =
      coloursAt (GuiCall.ink d) (rt.repaint d (fullRect d.fb)) point := by
  rw [DesktopSnapshot.repaint, DesktopSnapshot.repaint, repaintRegion, repaintRegion]
  simp only [clipToFb_full sound.screen]
  split
  · rfl
  · rw [coloursAt_append, coloursAt_append, desktop_same sound near near' style open_ open' clear,
      coloursAt_flatMap, coloursAt_flatMap]
    refine congrArg (List.append _) (List.flatMap_congr fun i _ => ?_)
    cases restacked : zOrderChanged prev rt with
    | false =>
        have same : prev.zOrder i = rt.zOrder i := by
          rw [zOrderChanged, List.any_eq_false] at restacked
          simpa using restacked i (List.mem_finRange i)
        rw [same]
        cases found : windowIdx (rt.zOrder i) with
        | none => rfl
        | some idx =>
            simp only [windowIdx_some found]
            exact window_same sound modest modest' near near' style clear idx
    | true =>
        have before : ∀ j focused,
            coloursAt (GuiCall.ink d) (drawWindowRegion d (prev.windows j) focused (fullRect d.fb))
            point = [] :=
          fun j focused => drawWindowRegion_reached sound (modest j) (near.titles j) fun visible =>
            clear.stacked restacked (i := j) (by simp [openDirty, visible])
        have after : ∀ j focused,
            coloursAt (GuiCall.ink d) (drawWindowRegion d (rt.windows j) focused (fullRect d.fb)) point = [] :=
          fun j focused => drawWindowRegion_reached sound (modest' j) (near'.titles j) fun visible =>
            clear.stacked restacked (i := j) (by simp [openDirty, visible])
        cases windowIdx (prev.zOrder i) with
        | none =>
            cases windowIdx (rt.zOrder i) with
            | none => rfl
            | some k => exact (after k _).symm
        | some j =>
            cases windowIdx (rt.zOrder i) with
            | none => exact before j _
            | some k => exact (before j _).trans (after k _).symm

end Same

end Szczupak
