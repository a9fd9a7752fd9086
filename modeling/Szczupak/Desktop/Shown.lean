import Szczupak.Desktop.Events
import Szczupak.Desktop.Frame

/-!
What is closed is not drawn: a frame is that of the open windows alone.
-/

namespace Szczupak

def DesktopRuntime.shown (rt : DesktopRuntime) : DesktopRuntime :=
  { rt with windows := rt.toDesktopSnapshot.shown.windows }

theorem DesktopRuntime.shown_snapshot (rt : DesktopRuntime) :
    rt.shown.toDesktopSnapshot = rt.toDesktopSnapshot.shown := rfl

@[simp] theorem DesktopRuntime.shown_zOrder (rt : DesktopRuntime) : rt.shown.zOrder = rt.zOrder := rfl

@[simp] theorem DesktopRuntime.shown_activeIdx (rt : DesktopRuntime) :
    rt.shown.activeIdx = rt.activeIdx := rfl

section Shown

variable {d : Display} {fb : FbInfo} {s prev : DesktopSnapshot} {rt : DesktopRuntime}
    {w : DesktopWindow} {i : Fin windowCount}

theorem shown_visible (i : Fin windowCount) (w : DesktopWindow) : (w.shown i).visible = w.visible := by
  cases visible : w.visible with
  | true => rw [DesktopWindow.shown, visible, if_pos rfl, visible]
  | false => rw [DesktopWindow.shown, visible, if_neg Bool.false_ne_true]

theorem shown_open (visible : w.visible = true) : w.shown i = w := if_pos visible

theorem shown_windows_visible (s : DesktopSnapshot) (i : Fin windowCount) :
    (s.shown.windows i).visible = (s.windows i).visible := shown_visible i _

theorem isVisible_shown (s : DesktopSnapshot) : isVisible s.shown.windows = isVisible s.windows :=
  isVisible_congr (shown_windows_visible s)

theorem countVisible_shown (s : DesktopSnapshot) : countVisibleWindows s.shown.windows =
    countVisibleWindows s.windows := by
  rw [countVisibleWindows, countVisibleWindows]
  exact congrArg (fun test => (List.finRange windowCount).countP test)
    (funext (shown_windows_visible s))

theorem topVisibleWindow_shown (s : DesktopSnapshot) (zOrder : Fin windowCount → Int32) :
    topVisibleWindow s.shown.windows zOrder = topVisibleWindow s.windows zOrder :=
  topVisibleWindow_congr (shown_windows_visible s)

theorem activeTitle_shown (s : DesktopSnapshot) (idx : Int32) :
    activeTitle s.shown.windows idx = activeTitle s.windows idx := by
  rw [activeTitle, activeTitle]
  cases windowIdx idx with
  | none => rfl
  | some i =>
      dsimp only
      rw [shown_windows_visible]
      cases visible : (s.windows i).visible with
      | true => rw [show s.shown.windows i = s.windows i from shown_open visible]
      | false => rfl

theorem drawWindowRegion_shown (focused : Bool) (clip : Rect) :
    drawWindowRegion d (w.shown i) focused clip = drawWindowRegion d w focused clip := by
  cases visible : w.visible with
  | true => rw [shown_open visible]
  | false => rw [drawWindowRegion, drawWindowRegion, shown_visible, visible, Bool.not_false,
    if_pos rfl, if_pos rfl]

theorem repaint_shown (d : Display) (s : DesktopSnapshot) (region : Rect) :
    s.shown.repaint d region = s.repaint d region := by
  rw [DesktopSnapshot.repaint, DesktopSnapshot.repaint, repaintRegion, repaintRegion]
  split
  next => rfl
  next =>
    refine congrArg₂ List.append ?_ ?_
    · rw [drawDesktopRegion, drawDesktopRegion]
      simp only [countVisible_shown, activeTitle_shown, shown_windows_visible]
      rfl
    · refine List.flatMap_congr fun i _ => ?_
      have same : windowIdx (s.shown.zOrder i) = windowIdx (s.zOrder i) := rfl
      rw [same]
      cases windowIdx (s.zOrder i) with
      | none => rfl
      | some idx => exact drawWindowRegion_shown _ _

theorem fullPicture_shown (d : Display) (s : DesktopSnapshot) :
    fullPicture d s.shown = fullPicture d s := by
  rw [fullPicture, fullPicture, repaint_shown]

theorem openDirty_shown (rect : DesktopWindow → Rect) (i : Fin windowCount) :
    openDirty rect prev.shown s.shown i = openDirty rect prev s i := by
  have part : ∀ s : DesktopSnapshot,
    (if (s.shown.windows i).visible then [rect (s.shown.windows i)] else []) =
      if (s.windows i).visible then [rect (s.windows i)] else [] := by
    intro s
    rw [shown_windows_visible]
    cases visible : (s.windows i).visible with
    | true => rw [show s.shown.windows i = s.windows i from shown_open visible]
    | false => rfl
  rw [openDirty, openDirty, part, part]

theorem windowDirty_shown (i : Fin windowCount) : windowDirty prev.shown s.shown i =
    windowDirty prev s i := by
  rw [windowDirty, windowDirty]
  simp only [shown_windows_visible]
  cases before : (prev.windows i).visible with
  | true =>
      rw [show prev.shown.windows i = prev.windows i from shown_open before]
      cases after : (s.windows i).visible with
      | true =>
          rw [show s.shown.windows i = s.windows i from shown_open after]
          rfl
      | false => rfl
  | false =>
      cases after : (s.windows i).visible with
      | true =>
          rw [show s.shown.windows i = s.windows i from shown_open after]
          rfl
      | false => rfl

theorem frameDirtyRects_shown (d : Display) (prev s : DesktopSnapshot) (scene : Bool) :
    frameDirtyRects d prev.shown s.shown scene = frameDirtyRects d prev s scene := by
  have windows : windowDirty prev.shown s.shown = windowDirty prev s := funext windowDirty_shown
  have opened : ∀ rect, openDirty rect prev.shown s.shown = openDirty rect prev s := fun rect =>
    funext (openDirty_shown rect)
  have icons : iconDirty prev.shown s.shown = iconDirty prev s := by
    funext i
    rw [iconDirty, iconDirty]
    simp only [shown_windows_visible]
    rfl
  rw [frameDirtyRects, frameDirtyRects, windows, opened, opened, icons, countVisible_shown,
    countVisible_shown]
  rfl

theorem frameDirty_shown (d : Display) (prev : DesktopSnapshot) (rt : DesktopRuntime)
    (scene full : Bool) :
    frameDirty d prev.shown rt.shown scene full = frameDirty d prev rt scene full := by
  have rects : frameDirtyRects d prev.shown rt.shown.toDesktopSnapshot scene =
    frameDirtyRects d prev rt.toDesktopSnapshot scene :=
    frameDirtyRects_shown d prev rt.toDesktopSnapshot scene
  rw [frameDirty, frameDirty, rects]
  rfl

theorem paintDirty_shown (d : Display) (s : DesktopSnapshot) (dirty : DirtySet)
    (buffer : Framebuffer) : paintDirty d s.shown dirty buffer = paintDirty d s dirty buffer := by
  rw [paintDirty, paintDirty]
  simp only [repaint_shown]

def shownRepair (state : Bool × DesktopRuntime) : Bool × DesktopRuntime := (state.1, state.2.shown)

@[simp] theorem shownRepair_fst (state : Bool × DesktopRuntime) : (shownRepair state).1 = state.1 := rfl

theorem indexClosed_shown (s : DesktopSnapshot) (idx : Int32) :
    indexClosed s.shown.windows idx = indexClosed s.windows idx :=
  congrArg (fun test : Int32 → Bool => !test idx) (isVisible_shown s)

theorem repairActive_shown (state : Bool × DesktopRuntime) :
    repairActive (shownRepair state) = shownRepair (repairActive state) := by
  obtain ⟨changed, rt⟩ := state
  have top : topVisibleWindow rt.shown.windows rt.zOrder = topVisibleWindow rt.windows rt.zOrder :=
    topVisibleWindow_shown rt.toDesktopSnapshot rt.zOrder
  have closed : ∀ idx, indexClosed rt.shown.windows idx = indexClosed rt.windows idx :=
    indexClosed_shown rt.toDesktopSnapshot
  cases missing : (windowIdx rt.activeIdx).isNone && rt.activeIdx != -1 with
  | true =>
      simp only [repairActive, shownRepair, DesktopRuntime.shown_activeIdx,
        DesktopRuntime.shown_zOrder, missing, if_true, top, closed]
      split
      next => rfl
      next => rfl
  | false =>
      simp only [repairActive, shownRepair, DesktopRuntime.shown_activeIdx,
        DesktopRuntime.shown_zOrder, missing, Bool.false_eq_true, if_false, top, closed]
      split
      next => rfl
      next => rfl

theorem repairDragging_shown (state : Bool × DesktopRuntime) :
    repairDragging (shownRepair state) = shownRepair (repairDragging state) := by
  obtain ⟨changed, rt⟩ := state
  have closed : indexClosed rt.shown.windows rt.draggingIdx = indexClosed rt.windows rt.draggingIdx :=
    indexClosed_shown rt.toDesktopSnapshot _
  rw [repairDragging, repairDragging]
  change (if indexClosed rt.shown.windows rt.draggingIdx && rt.draggingIdx != -1 then _ else _) = _
  rw [closed]
  split
  next => rfl
  next => rfl

theorem shownRepair_ite {changes : Bool} {next : DesktopRuntime} {state : Bool × DesktopRuntime} :
    shownRepair (if changes = true then (true, next) else state) =
      if changes = true then (true, next.shown) else shownRepair state := by
  cases changes with
  | true => rfl
  | false => rfl

theorem repairCursor_shown (fb : FbInfo) (state : Bool × DesktopRuntime) :
    repairCursor fb (shownRepair state) = shownRepair (repairCursor fb state) := by
  rw [repairCursor, repairCursor, shownRepair_ite]
  rfl

theorem sanitizeRuntimeState_shown (fb : FbInfo) (rt : DesktopRuntime) :
    sanitizeRuntimeState fb rt.shown = shownRepair (sanitizeRuntimeState fb rt) := by
  rw [sanitizeRuntimeState,
    sanitizeRuntimeState, ← repairCursor_shown, ← repairDragging_shown, ← repairActive_shown]
  rfl

theorem desktopRenderFrame_shown (d : Display) (rt : DesktopRuntime) (prev : DesktopSnapshot)
    (frame : DesktopFrameState)
    (buffer : Framebuffer) : desktopRenderFrame d rt.shown prev.shown frame buffer =
      (desktopRenderFrame d rt prev frame buffer).map fun result => (result.1.shown, result.2) := by
  rw [desktopRenderFrame, desktopRenderFrame, sanitizeRuntimeState_shown]
  generalize sanitizeRuntimeState d.fb rt = repaired
  obtain ⟨runtimeRepaired, rt⟩ := repaired
  dsimp only [shownRepair]
  rw [frameDirty_shown]
  cases frameDirty d prev rt frame.sceneChanged (frame.forceFullRedraw || runtimeRepaired) with
  | none => rfl
  | some dirty =>
      have painted : paintDirty d rt.shown.toDesktopSnapshot = paintDirty d rt.toDesktopSnapshot := by
        funext dirty buffer
        exact paintDirty_shown d rt.toDesktopSnapshot dirty buffer
      dsimp only [Option.bind_eq_bind, Option.bind_some]
      rw [painted]
      cases overlay : frame.cursorChanged || frame.sceneChanged with
      | true => rfl
      | false => rfl

end Shown

end Szczupak
