import Szczupak.Desktop.Places
import Szczupak.Desktop.Repaint

/-!
Whole runs of the desktop: after every turn the screen shows the desktop as it is,
with the cursor on top.
-/

namespace Szczupak

structure CursorInside (fb : FbInfo) (x y : Int32) : Prop where
  left : 0 ≤ x.toInt
  right : x.toInt < max 1 fb.width.toNat
  top : 0 ≤ y.toInt
  bottom : y.toInt < max 1 fb.height.toNat

structure DesktopHolds (d : Display) (s : DesktopScreen) : Prop where
  place : DesktopPlace s.rt
  placed : ∀ i, (s.rt.windows i).visible = true → InReach (s.rt.windows i)
  cursor : CursorInside d.fb s.rt.cursorX s.rt.cursorY
  shows : Shows d s.rt.toDesktopSnapshot s.rt.cursorX s.rt.cursorY s.rt.cursorSave s.buffer

/-- Where the turn paints regions, no text is left out of one, and no character that crosses the
edge of one has anything drawn over its part outside. -/
def TurnHeld (d : Display) (s : DesktopScreen) (input : TurnInput) : Prop :=
  ∀ p, desktopPolls d s.rt input = some p → p.frame.sceneChanged = true →
    p.frame.forceFullRedraw = false → (sanitizeRuntimeState d.fb p.rt.toDesktopRuntime).1 = false →
    ∀ dirty, frameDirty d s.rt.toDesktopSnapshot p.rt.toDesktopRuntime true false = some dirty →
    dirty.fullRedraw = false →
      ∀ rect ∈ dirty.rects, RegionHeld d p.rt.toDesktopSnapshot (expandRepaintRegion d rect) ∧
        Uncovered (GuiCall.ink d) (fun point => (expandRepaintRegion d rect).Has point.1 point.2)
          (GuiCall.crosses d (expandRepaintRegion d rect)) (p.rt.toDesktopSnapshot.repaint d (fullRect d.fb))

instance (d : Display) (c : Rect) (w : DesktopWindow) : Decidable (WindowHeld d c w) :=
  decidable_of_iff ((∀ cell ∈ titleCells d w, rectIntersects c cell = true →
    rectIntersects c (windowRect w.win) = true) ∧
      ∀ cell ∈ lineCells d w, rectIntersects c cell = true →
        rectIntersects (rectIntersection (fullRect d.fb) (windowBodyRect d w)) cell = true →
          rectIntersects (rectIntersection c (windowBodyRect d w)) cell = true)
    ⟨fun both => ⟨both.1, both.2⟩, fun held => ⟨held.title, held.lines⟩⟩

instance (d : Display) (s : DesktopSnapshot) (c : Rect) : Decidable (RegionHeld d s c) :=
  decidable_of_iff ((∀ i, (s.windows i).visible = true → WindowHeld d c (s.windows i)) ∧
      ∀ i, ∀ cell ∈ iconLabelCells d i, rectIntersects c cell = true → rectIntersects c (iconRect i) = true)
    ⟨fun both => ⟨both.1, both.2⟩, fun held => ⟨held.windows, held.labels⟩⟩

def turnKept (d : Display) (s : DesktopScreen) (input : TurnInput) : Bool :=
  match desktopPolls d s.rt input with
  | none => true
  | some p =>
      match frameDirty d s.rt.toDesktopSnapshot p.rt.toDesktopRuntime true false with
      | none => true
      | some dirty =>
          !p.frame.sceneChanged || p.frame.forceFullRedraw || dirty.fullRedraw || dirty.rects.all fun rect =>
            decide (RegionHeld d p.rt.toDesktopSnapshot (expandRepaintRegion d rect)) &&
              (p.rt.toDesktopSnapshot.repaint d (fullRect d.fb)).all
              (GuiCall.keptIn d (expandRepaintRegion d rect))

theorem turnKept_held {d : Display} {s : DesktopScreen} {input : TurnInput} (sound : d.Sound)
    (kept : turnKept d s input = true) : TurnHeld d s input := by
  intro p polled scene unforced _ dirty found partly rect member
  rw [turnKept, polled] at kept
  dsimp only at kept
  rw [found] at kept
  dsimp only at kept
  rw [scene, unforced, partly] at kept
  obtain ⟨held, inside⟩ := Bool.and_eq_true_iff.mp (List.all_eq_true.mp kept rect member)
  exact ⟨of_decide_eq_true held, uncovered_of_kept sound inside⟩

section Turns

variable {d : Display} {p next : DesktopPoll} {rt : DesktopState} {s : DesktopScreen}
    {input : TurnInput}

theorem clampWindow_decorated {i : Fin windowCount} {w : DesktopWindow} (fb : FbInfo)
    (decorated : Decorated i w) : Decorated i (clampWindow fb w).2 := decorated.movedTo _ _

theorem clampWindow_kept {fb : FbInfo} {w : DesktopWindow} (still : (clampWindow fb w).1 = false) :
    (clampWindow fb w).2 = w := by
  obtain ⟨sameX, sameY⟩ := Bool.or_eq_false_iff.mp still
  rw [bne_eq_false_iff_eq] at sameX sameY
  rw [clampWindow]
  dsimp only
  rw [← sameX, ← sameY]

theorem finalizeWindow_tells (fb : FbInfo) (p : DesktopPoll) (i : Fin windowCount) :
    Tells p (finalizeWindow fb p i) := by
  rw [finalizeWindow]
  split
  next => exact Tells.refl p
  next =>
    have moves : Moves p.rt (p.rt.setWindow i (clampWindow fb (p.rt.windows i)).2) :=
      setWindow_moves (clampWindow_decorated fb) rfl
    refine moves.marked fun still => ?_
    rw [clampWindow_kept still, DesktopState.setWindow, Function.update_eq_self]

theorem finalizeWindow_placed (roomy : d.Roomy) (place : DesktopPlace p.rt) (i j : Fin windowCount)
    (placed : j = i ∨ ((p.rt.windows j).visible = true → InReach (p.rt.windows j)))
    (visible : ((finalizeWindow d.fb p i).rt.windows j).visible = true) :
    InReach ((finalizeWindow d.fb p i).rt.windows j) := by
  rw [finalizeWindow] at visible ⊢
  cases open_ : (p.rt.windows i).visible with
  | false =>
      rw [open_, Bool.not_false, if_pos rfl] at visible
      rw [Bool.not_false, if_pos rfl]
      rcases placed with rfl | placed
      · rw [open_] at visible
        cases visible
      · exact placed visible
  | true =>
      rw [open_, Bool.not_true, if_neg Bool.false_ne_true] at visible
      rw [Bool.not_true, if_neg Bool.false_ne_true]
      change InReach (Function.update p.rt.windows i _ j)
      change (Function.update p.rt.windows i _ j).visible = true at visible
      by_cases here : j = i
      · subst here
        rw [Function.update_self]
        exact clampWindow_placed roomy (place.decorated j)
      · rw [Function.update_of_ne here] at visible ⊢
        exact placed.resolve_left here visible

theorem finalizeWindows_spec (roomy : d.Roomy) (place : DesktopPlace p.rt)
    (order : List (Fin windowCount)) : Tells p (order.foldl (finalizeWindow d.fb) p) ∧
      ∀ j, j ∈ order ∨ ((p.rt.windows j).visible = true → InReach (p.rt.windows j)) →
        ((order.foldl (finalizeWindow d.fb) p).rt.windows j).visible = true →
          InReach ((order.foldl (finalizeWindow d.fb) p).rt.windows j) := by
  induction order generalizing p with
  | nil => exact ⟨Tells.refl p, fun j placed => placed.resolve_left List.not_mem_nil⟩
  | cons i order ih =>
      have tells := finalizeWindow_tells d.fb p i
      obtain ⟨rest, later⟩ := ih (tells.place place)
      refine ⟨tells.trans rest, fun j placed => later j ?_⟩
      rw [List.mem_cons] at placed
      rcases placed with (here | member) | placed
      · exact Or.inr (finalizeWindow_placed roomy place i j (Or.inl here))
      · exact Or.inl member
      · exact Or.inr (finalizeWindow_placed roomy place i j (Or.inr placed))

theorem DesktopPlace.activeOpen (place : DesktopPlace rt) : ActiveOpen rt.toDesktopSnapshot ∧
    (rt.activeIdx = -1 ∨ isVisible rt.windows rt.activeIdx = true) := by
  have shown : rt.activeIdx = -1 ∨ isVisible rt.windows rt.activeIdx = true := by
    rcases place.active with none | top
    · exact Or.inl none
    · rw [top]
      exact topVisibleWindow_open _ _
  refine ⟨fun i active => ?_, shown⟩
  rcases shown with none | shown
  · rw [none] at active
    cases active
  · rwa [windowIdx_some active, isVisible_ofNat] at shown

theorem indexClosed_open {windows : Fin windowCount → DesktopWindow} {idx : Int32}
    (shown : idx = -1 ∨ isVisible windows idx = true) :
    ((windowIdx idx).isNone && idx != -1) = false ∧
    ((windowIdx idx).isSome && indexClosed windows idx) = false ∧
      (indexClosed windows idx && idx != -1) = false := by
  rcases shown with rfl | shown
  · exact ⟨rfl, rfl, Bool.and_false _⟩
  · have open_ : indexClosed windows idx = false := congrArg not shown
    rw [open_]
    refine ⟨?_, Bool.and_false _, rfl⟩
    cases isWindow : windowIdx idx with
    | none =>
        rw [isVisible, isWindow] at shown
        cases shown
    | some i => rfl

theorem desktopFinalizeState_spec (roomy : d.Roomy) (place : DesktopPlace p.rt) :
    Tells p (desktopFinalizeState d.fb p) ∧
    ∀ j, ((desktopFinalizeState d.fb p).rt.windows j).visible = true →
    InReach ((desktopFinalizeState d.fb p).rt.windows j) := by
  obtain ⟨tells, placed⟩ := finalizeWindows_spec roomy place (List.finRange windowCount)
  rw [desktopFinalizeState]
  generalize (List.finRange windowCount).foldl (finalizeWindow d.fb) p = moved at tells placed ⊢
  obtain ⟨missing, closed, -⟩ := indexClosed_open (tells.place place).activeOpen.2
  have isShown : ((windowIdx moved.rt.activeIdx).isSome && !isVisible moved.rt.windows
    moved.rt.activeIdx) = false := closed
  rw [isShown, missing]
  exact ⟨tells, fun j => placed j (Or.inl (List.mem_finRange j))⟩

theorem desktopPolls_spec (roomy : d.Roomy) (place : DesktopPlace rt)
    (polled : desktopPolls d rt input = some p) :
    Tells ⟨rt, ⟨false, false, false⟩⟩ p ∧ ∀ i, (p.rt.windows i).visible = true →
    InReach (p.rt.windows i) := by
  rw [desktopPolls, Option.map_eq_some_iff] at polled
  obtain ⟨typed, keys, rfl⟩ := polled
  have tells := (desktopPollKeyboard_tells keys).trans
    ((desktopPollMouse_tells d input.events typed).trans
    ((pumpShell_tells input.pump _).trans (refreshPanels_tells input.panels _)))
  obtain ⟨finalized, placed⟩ := desktopFinalizeState_spec roomy (tells.place place)
  exact ⟨tells.trans finalized, placed⟩

theorem clampI32_kept {v low high : Int32} (lower : low.toInt ≤ v.toInt)
    (upper : v.toInt ≤ high.toInt) : clampI32 v low high = v := by
  rw [clampI32, if_neg, if_neg]
  · rw [gt_iff_lt, Int32.lt_iff_toInt_lt]
    omega
  · rw [Int32.lt_iff_toInt_lt]
    omega

theorem screenLast_toInt {size : UInt32} (small : size.toNat ≤ 2 ^ 28) :
    (if size > 0 then size.toInt32 - 1 else (0 : Int32)).toInt = max 1 size.toNat - 1 := by
  split
  next some_ =>
    rw [gt_iff_lt, UInt32.lt_iff_toNat_lt] at some_
    change 0 < size.toNat at some_
    have isSize : size.toInt32.toInt = size.toNat := UInt32.toInt_toInt32_fits (by omega)
    rw [Int32.toInt_sub_fits (by rw [isSize]; change _ ≤ _ - (1 : Int); omega)
      (by rw [isSize]; change _ - (1 : Int) < _; omega), isSize]
    change _ - (1 : Int) = _
    omega
  next none =>
    rw [gt_iff_lt, UInt32.lt_iff_toNat_lt] at none
    change ¬0 < size.toNat at none
    change (0 : Int) = _
    omega

theorem repairCursor_inside (screen : d.fb.Small) (rt : DesktopRuntime) :
    CursorInside d.fb (repairCursor d.fb (false, rt)).2.cursorX
    (repairCursor d.fb (false, rt)).2.cursorY ∧
      (CursorInside d.fb rt.cursorX rt.cursorY → repairCursor d.fb (false, rt) = (false, rt)) := by
  have lastX := screenLast_toInt screen.width
  have lastY := screenLast_toInt screen.height
  rw [repairCursor]
  generalize (if d.fb.width > 0 then d.fb.width.toInt32 - 1 else (0 : Int32)) = maxX at lastX ⊢
  generalize (if d.fb.height > 0 then d.fb.height.toInt32 - 1 else (0 : Int32)) = maxY at lastY ⊢
  have zero : (0 : Int32).toInt = 0 := rfl
  obtain ⟨left, right⟩ := @clampI32_within rt.cursorX 0 maxX (by omega)
  obtain ⟨top, bottom⟩ := @clampI32_within rt.cursorY 0 maxY (by omega)
  have clamped : CursorInside d.fb (clampI32 rt.cursorX 0 maxX) (clampI32 rt.cursorY 0 maxY) :=
    ⟨by omega, by omega, by omega, by omega⟩
  dsimp only
  refine ⟨?_, fun inside => ?_⟩
  · split
    next => exact clamped
    next same =>
      rw [Bool.or_eq_true, not_or, bne_iff_ne, bne_iff_ne, not_not, not_not] at same
      rw [same.1, same.2] at clamped
      exact clamped
  · have sameX : clampI32 rt.cursorX 0 maxX = rt.cursorX :=
      clampI32_kept (by have := inside.left; omega) (by have := inside.right; omega)
    have sameY : clampI32 rt.cursorY 0 maxY = rt.cursorY :=
      clampI32_kept (by have := inside.top; omega) (by have := inside.bottom; omega)
    rw [sameX, sameY, bne_self_eq_false, bne_self_eq_false]
    rfl

theorem sanitizeRuntimeState_place (fb : FbInfo) (place : DesktopPlace rt) :
    sanitizeRuntimeState fb rt.toDesktopRuntime = repairCursor fb (false, rt.toDesktopRuntime) := by
  have zOrder : repairZOrder rt.toDesktopRuntime = (false, rt.toDesktopRuntime) := by
    rw [repairZOrder, sanitizeZOrder, zOrderBroken_stacked place.stacked]
    rfl
  obtain ⟨missing, closed, -⟩ := indexClosed_open place.activeOpen.2
  have active : repairActive (false, rt.toDesktopRuntime) = (false, rt.toDesktopRuntime) := by
    simp only [repairActive, missing, closed, Bool.false_eq_true, if_false]
  have dragging : repairDragging (false, rt.toDesktopRuntime) = (false, rt.toDesktopRuntime) := by
    rw [repairDragging, (indexClosed_open place.dragging).2.2]
    rfl
  rw [sanitizeRuntimeState, zOrder, active, dragging]

theorem drawn_placed (decorated : ∀ i, Decorated i (rt.windows i))
    (placed : ∀ i, (rt.windows i).visible = true → InReach (rt.windows i)) :
    (∀ i, Decorated i (rt.toDesktopSnapshot.shown.windows i)) ∧
    ∀ i, InReach (rt.toDesktopSnapshot.shown.windows i) :=
  ⟨fun i => (decorated i).shown, fun i => shown_placed (placed i)⟩

theorem regionHeld_shown {c : Rect} (held : RegionHeld d rt.toDesktopSnapshot c) :
    RegionHeld d rt.toDesktopSnapshot.shown c where
  windows i visible := by
    have open_ : (rt.windows i).visible = true :=
      (shown_windows_visible rt.toDesktopSnapshot i).symm.trans visible
    rw [show rt.toDesktopSnapshot.shown.windows i = rt.windows i from shown_open open_]
    exact held.windows i open_
  labels := held.labels

theorem styleKept_decorated {i : Fin windowCount} {before after : DesktopWindow}
    (decorated : Decorated i before) (still : Decorated i after) : StyleKept before after where
  title := still.title.trans decorated.title.symm
  colors same := by
    rw [still.borderColor, still.titleBgColor, still.bodyColor, still.titleFgColor, decorated.borderColor,
      decorated.titleBgColor, decorated.bodyColor, decorated.titleFgColor, same]
    exact ⟨rfl, rfl, rfl, rfl⟩

theorem turn_repaints (roomy : d.Roomy) (holds : DesktopHolds d s) (held : TurnHeld d s input)
    (polled : desktopPolls d s.rt input = some p) :
    RepaintHolds d s.rt.toDesktopSnapshot.shown p.rt.toDesktopRuntime.shown p.frame := by
  obtain ⟨tells, placed⟩ := desktopPolls_spec roomy holds.place polled
  have place := tells.place holds.place
  have repair : sanitizeRuntimeState d.fb p.rt.toDesktopRuntime.shown =
      shownRepair (repairCursor d.fb (false, p.rt.toDesktopRuntime)) := by
    rw [sanitizeRuntimeState_shown, sanitizeRuntimeState_place d.fb place]
  obtain ⟨wasDecorated, wasPlaced⟩ := drawn_placed holds.place.decorated holds.placed
  obtain ⟨isDecorated, isPlaced⟩ := drawn_placed place.decorated placed
  refine ⟨roomy.toSound, fun i => (wasDecorated i).modest (wasPlaced i),
    fun i => (isDecorated i).modest (isPlaced i), ?_, ?_⟩
  · cases cursor : p.frame.cursorChanged with
    | true => exact Or.inl rfl
    | false =>
        cases scene : p.frame.sceneChanged with
        | true => exact Or.inr (Or.inl rfl)
        | false =>
            refine Or.inr (Or.inr ⟨?_, ?_⟩)
            · by_contra forces
              rcases tells.forced (by simpa using forces) with forced | changed
              · cases forced
              · rw [scene] at changed
                cases changed
            · obtain ⟨-, sameX, sameY⟩ := tells.cursor cursor
              have inside : CursorInside d.fb p.rt.cursorX p.rt.cursorY := by
                rw [sameX, sameY]
                exact holds.cursor
              rw [repair, (repairCursor_inside roomy.screen p.rt.toDesktopRuntime).2 inside, shownRepair_fst]
  · intro scene unforced unrepaired dirty found partly
    rw [sanitizeRuntimeState_shown, shownRepair_fst] at unrepaired
    rw [frameDirty_shown] at found
    rw [DesktopRuntime.shown_snapshot]
    have regions := held p polled scene unforced unrepaired dirty found partly
    refine ⟨?_, ?_, ?_, ?_, ?_, ?_⟩
    · intro i active
      rw [shown_windows_visible]
      exact holds.place.activeOpen.1 i active
    · exact fun i => styleKept_decorated (wasDecorated i) (isDecorated i)
    · exact placed_near roomy wasDecorated wasPlaced
    · exact placed_near roomy isDecorated isPlaced
    · exact fun rect member => regionHeld_shown (regions rect member).1
    · intro rect member
      have uncovered := (regions rect member).2
      rw [← repaint_shown] at uncovered
      exact uncovered

theorem desktopRenderFrame_state {rt drawn : DesktopRuntime} {prev : DesktopSnapshot}
    {frame : DesktopFrameState}
    {buffer after : Framebuffer}
    (ran : desktopRenderFrame d rt prev frame buffer = some (drawn, after)) :
    drawn = { (sanitizeRuntimeState d.fb rt).2 with cursorSave := drawn.cursorSave } := by
  rw [desktopRenderFrame] at ran
  generalize sanitizeRuntimeState d.fb rt = repaired at ran ⊢
  obtain ⟨changed, rt⟩ := repaired
  dsimp only at ran ⊢
  obtain ⟨dirty, -, ran⟩ := Option.bind_eq_some_iff.mp ran
  split at ran
  next =>
    cases ran
    rfl
  next =>
    cases ran
    rfl

theorem repairCursor_state (fb : FbInfo) (rt : DesktopRuntime) : (repairCursor fb (false, rt)).2 =
    { rt with cursorX := (repairCursor fb (false, rt)).2.cursorX, cursorY :=
        (repairCursor fb (false, rt)).2.cursorY } := by
  rw [repairCursor]
  generalize (if fb.width > 0 then fb.width.toInt32 - 1 else (0 : Int32)) = maxX
  generalize (if fb.height > 0 then fb.height.toInt32 - 1 else (0 : Int32)) = maxY
  dsimp only
  split
  next => rfl
  next => rfl

theorem DesktopPlace.cursorMoved (place : DesktopPlace rt) (cursorX cursorY : Int32)
    (cursorSave : CursorSave) : DesktopPlace { rt with cursorX, cursorY, cursorSave } :=
  ⟨⟨place.stacked, place.dragging, place.decorated⟩, place.active⟩

theorem desktopTurn_spec (roomy : d.Roomy) (holds : DesktopHolds d s) (held : TurnHeld d s input)
    (polled : desktopPolls d s.rt input = some p) : ∃ next, desktopTurn d s input = some next ∧
    DesktopHolds d next := by
  obtain ⟨tells, placed⟩ := desktopPolls_spec roomy holds.place polled
  have place := tells.place holds.place
  have shows_ : Shows d s.rt.toDesktopSnapshot.shown s.rt.cursorX s.rt.cursorY
    p.rt.toDesktopRuntime.shown.cursorSave s.buffer := by
    obtain ⟨screen, saved⟩ := holds.shows
    have kept : p.rt.toDesktopRuntime.shown.cursorSave = s.rt.cursorSave := tells.cursorSave
    rw [kept]
    constructor
    · rwa [fullPicture_shown]
    · rwa [fullPicture_shown]
  have reports : Reports s.rt.toDesktopSnapshot.shown s.rt.cursorX s.rt.cursorY
    p.rt.toDesktopRuntime.shown p.frame := by
    constructor
    · intro changed
      by_contra still
      exact changed (tells.scene (by simpa using still)).2
    · intro moved
      by_contra still
      obtain ⟨-, sameX, sameY⟩ := tells.cursor (by simpa using still)
      exact moved.elim (fun moved => moved sameX) fun moved => moved sameY
  obtain ⟨shown, after, ran, -, shows'⟩ :=
    render_frame_repaints shows_ reports (turn_repaints roomy holds held polled)
  rw [desktopRenderFrame_shown, Option.map_eq_some_iff] at ran
  obtain ⟨⟨drawn, painted⟩, ran, isShown⟩ := ran
  cases isShown
  have state := desktopRenderFrame_state ran
  rw [sanitizeRuntimeState_place d.fb place, repairCursor_state] at state
  obtain ⟨inside, -⟩ := repairCursor_inside roomy.screen p.rt.toDesktopRuntime
  generalize (repairCursor d.fb (false, p.rt.toDesktopRuntime)).2.cursorX = cursorX at state inside
  generalize (repairCursor d.fb (false, p.rt.toDesktopRuntime)).2.cursorY = cursorY at state inside
  generalize drawn.cursorSave = cursorSave at state
  subst state
  refine ⟨⟨{ p.rt with cursorX, cursorY, cursorSave }, painted⟩, ?_,
    place.cursorMoved _ _ _, placed, inside, ?_⟩
  · rw [desktopTurn, polled]
    dsimp only [Option.bind_eq_bind, Option.bind_some]
    rw [ran]
    rfl
  · obtain ⟨screen, saved⟩ := shows'
    rw [DesktopRuntime.shown_snapshot, fullPicture_shown] at screen saved
    exact ⟨screen, saved⟩

theorem desktopRuntimeInit_spec (roomy : d.Roomy) (answers : PanelAnswers) : ∃ rt : DesktopState,
    Refills rt (desktopRuntimeInit d.fb answers) ∧ DesktopPlace rt ∧ (∀ i, InReach (rt.windows i)) ∧
      CursorInside d.fb rt.cursorX rt.cursorY := by
  have decorated : ∀ i, Decorated i (clampWindow d.fb (windowApplyTheme (initialWindow i))).2 :=
    fun i =>
    clampWindow_decorated d.fb (initialWindow_decorated i)
  have stacked : Stacked fun i : Fin windowCount => Int32.ofNat i := List.Perm.refl _
  obtain ⟨ordered, front⟩ := bringToFront_spec stacked shellWindowIdx
  refine ⟨_, (syncShellWindow_refills _).trans
    ((desktopRefreshFilesPanel_refills _ _).trans (desktopRefreshNetworkPanel_refills _ _)),
      ⟨⟨ordered, Or.inl rfl, decorated⟩, Or.inr ?_⟩,
      fun i => clampWindow_placed roomy (initialWindow_decorated i), ?_⟩
  · exact (topVisibleWindow_front front (isVisible_ofNat _ shellWindowIdx)).symm
  · have width := roomy.width
    have height := roomy.height
    have half : ∀ size : UInt32, size.toNat ≤ 2 ^ 27 → (size / 2).toInt32.toInt =
      (size.toNat / 2 : Nat) := by
      intro size small
      have isHalf : (size / 2).toNat = size.toNat / 2 := UInt32.toNat_div size 2
      rw [UInt32.toInt_toInt32_fits (by omega), isHalf]
    have isX := half _ width
    have isY := half _ height
    change CursorInside d.fb (d.fb.width / 2).toInt32 (d.fb.height / 2).toInt32
    exact ⟨by omega, by omega, by omega, by omega⟩

theorem desktopStart_holds (roomy : d.Roomy) (answers : PanelAnswers) (buffer : Framebuffer) :
    DesktopHolds d (desktopStart d answers buffer) := by
  obtain ⟨rt, refills, place, placed, cursor⟩ := desktopRuntimeInit_spec roomy answers
  have moves := refills.moves
  have painted : SameScreen d (paint (GuiCall.ink d)
      ((desktopRuntimeInit d.fb answers).toDesktopSnapshot.repaint d (fullRect d.fb)) buffer)
      (fullPicture d (desktopRuntimeInit d.fb answers).toDesktopSnapshot) :=
    fun _ has => paint_covered (repaint_covers roomy.toSound.screen has)
  refine ⟨(moves.place place).cursorMoved _ _ _, fun i _ => ?_, ?_,
    fun _ has => paint_congr (painted _ has), cursorCaptureUnder_same roomy.screen painted⟩
  · obtain ⟨left, right, top, bottom⟩ := placed i
    rw [← (refills.windows i).win] at left right top bottom
    exact ⟨left, right, top, bottom⟩
  · change CursorInside d.fb (desktopRuntimeInit d.fb answers).cursorX
      (desktopRuntimeInit d.fb answers).cursorY
    rw [moves.cursorX, moves.cursorY]
    exact cursor

theorem desktopKey_leaves {key : KeyInput} (leaves : desktopKey p key = none) : key.c = 27 ∨
    key.isLetter 'q' = true := by
  rw [desktopKey] at leaves
  split at leaves
  next escape => exact Or.inl escape
  next =>
    split at leaves
    next => cases leaves
    next =>
      split at leaves
      next => cases leaves
      next =>
        split at leaves
        next => cases leaves
        next =>
          split at leaves
          next quits => exact Or.inr quits
          next =>
            split at leaves
            next => cases leaves
            next => cases leaves

theorem desktopPollKeyboard_leaves {keys : List KeyInput} (leaves :
    desktopPollKeyboard keys p = none) : ∃ key ∈ keys, key.c = 27 ∨ key.isLetter 'q' = true := by
  induction keys generalizing p with
  | nil => cases leaves
  | cons key keys ih =>
      rw [desktopPollKeyboard, List.foldlM_cons] at leaves
      cases taken : desktopKey p key with
      | none => exact ⟨key, List.mem_cons_self, desktopKey_leaves taken⟩
      | some next =>
          rw [taken] at leaves
          obtain ⟨last, member, left⟩ := ih leaves
          exact ⟨last, List.mem_cons_of_mem key member, left⟩

end Turns

/-- As long as no repainted region cuts a text, the screen shows after every turn the desktop as it
is, with the cursor on top, every window is in its place, and only a key leaves the desktop. -/
theorem desktop_shows_state {d : Display} (roomy : d.Roomy) (answers : PanelAnswers)
    (buffer : Framebuffer) (inputs : List TurnInput) {s : DesktopScreen}
    (meets : RunMeets (desktopTurn d) (TurnHeld d) (desktopStart d answers buffer) inputs)
    (reached : runActions (desktopTurn d) (desktopStart d answers buffer) inputs = some s) :
    DesktopHolds d s ∧ ∀ input, TurnHeld d s input → desktopTurn d s input = none →
      ∃ key ∈ input.keys, key.c = 27 ∨ key.isLetter 'q' = true := by
  have holds : DesktopHolds d s := by
    refine runActions_guarded (fun s input next holds held taken => ?_)
      (desktopStart_holds roomy answers buffer) meets reached
    cases polled : desktopPolls d s.rt input with
    | none =>
        rw [desktopTurn, polled] at taken
        cases taken
    | some p =>
        obtain ⟨after, ran, still⟩ := desktopTurn_spec roomy holds held polled
        cases ran.symm.trans taken
        exact still
  refine ⟨holds, fun input held leaves => ?_⟩
  cases polled : desktopPolls d s.rt input with
  | none => exact desktopPollKeyboard_leaves (Option.map_eq_none_iff.mp polled)
  | some p =>
      obtain ⟨after, ran, -⟩ := desktopTurn_spec roomy holds held polled
      cases ran.symm.trans leaves

def quietAnswers : ShellAnswers where
  sysinfo := none
  listdir _ := some (cText "BIN/\nREADME.TXT\n")
  touch _ := false
  mkdir _ := false
  delete _ := false
  ptyOpen := -1
  ptySpawn _ _ := -1
  ptyWrite _ _ := false
  drained := []

def quietPanels (now : UInt64) : PanelAnswers :=
  ⟨now, quietAnswers, ⟨now, none, none, fun _ _ => none, fun _ _ => none⟩⟩

def mouseAt (x y : Int32) (buttons changed : UInt8) : MouseInput :=
  ⟨x, y, buttons, changed, 0, quietAnswers⟩

def draggedTurn : TurnInput :=
  ⟨[], [mouseAt 300 91 1 1, mouseAt 260 91 1 0], ⟨[], false, none⟩, quietPanels 1⟩

def closedTurn : TurnInput :=
  ⟨[⟨108, quietAnswers⟩], [mouseAt 860 124 0 1, mouseAt 860 124 1 1], ⟨[], false, none⟩, quietPanels 2⟩

def plainStart : DesktopScreen := desktopStart plainDisplay (quietPanels 0) fun _ => ⟨0, 0, 0⟩

theorem plainRun_meets : RunMeets (desktopTurn plainDisplay) (TurnHeld plainDisplay) plainStart
    [draggedTurn, closedTurn] := by
  have first : turnKept plainDisplay plainStart draggedTurn = true := by decide +kernel
  have second : (desktopTurn plainDisplay plainStart draggedTurn).map
    (turnKept plainDisplay · closedTurn) = some true := by
    decide +kernel
  refine ⟨turnKept_held plainDisplay_sound first, fun next taken =>
    ⟨turnKept_held plainDisplay_sound ?_, fun _ _ => trivial⟩⟩
  rw [taken] at second
  exact Option.some.inj second

theorem plainRun_shows : ∃ s, runActions (desktopTurn plainDisplay) plainStart
    [draggedTurn, closedTurn] = some s ∧
    DesktopHolds plainDisplay s ∧ (s.rt.windows networkWindowIdx).visible = false ∧
      s.rt.shellState.input = cText "l" := by
  have ran : (runActions (desktopTurn plainDisplay) plainStart [draggedTurn, closedTurn]).map
      (fun s => ((s.rt.windows networkWindowIdx).visible, s.rt.shellState.input)) =
        some (false, cText "l") := by decide +kernel
  obtain ⟨s, reached, seen⟩ := Option.map_eq_some_iff.mp ran
  refine ⟨s, reached, (desktop_shows_state ⟨plainDisplay_sound, by decide, by decide⟩
    (quietPanels 0) (fun _ => ⟨0, 0, 0⟩) [draggedTurn, closedTurn] plainRun_meets reached).1, ?_⟩
  exact Prod.ext_iff.mp seen

end Szczupak
