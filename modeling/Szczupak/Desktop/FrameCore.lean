import Szczupak.Desktop.Dirty
import Szczupak.Desktop.RenderCore
import Szczupak.Lib.Painter

/-!
A frame of the desktop, `desktop/frame.c` and `desktop/cursor.c`: the state is repaired, what has
changed is painted again, and the cursor is taken off before and put back after.
-/

namespace Szczupak

/-- A pixel is kept for every point of the cursor. -/
structure CursorSave where
  x : Int32
  y : Int32
  valid : Bool
  pixels : List FbColor

structure DesktopRuntime extends DesktopSnapshot where
  cursorX : Int32
  cursorY : Int32
  draggingIdx : Int32
  cursorSave : CursorSave

structure DesktopFrameState where
  sceneChanged : Bool
  cursorChanged : Bool
  forceFullRedraw : Bool

def kCursorPoints : List (Int32 × Int32 × Bool) :=
  [(0, 0, true), (1, 0, false), (2, 0, true), (3, 0, true), (4, 0, true), (5, 0, true),
    (0, 1, false), (1, 1, false), (2, 1, false), (3, 1, false), (4, 1, false), (5, 1, false),
    (0, 2, true), (1, 2, false), (2, 2, true),
    (0, 3, true), (1, 3, false), (3, 3, true),
    (0, 4, true), (1, 4, false), (4, 4, true),
    (0, 5, true), (1, 5, false), (5, 5, true),
    (0, 6, true), (1, 6, false),
    (0, 7, true), (1, 7, false),
    (0, 8, true), (1, 8, false), (3, 8, true),
    (0, 9, true), (1, 9, false), (3, 9, true),
    (3, 10, true),
    (3, 11, true)]

def drawCursor (d : Display) (x y : Int32) : List GuiCall :=
  kCursorPoints.flatMap fun (dx, dy, white) =>
    if pointInFb d.fb (x + dx) (y + dy) then
      [.putpixel (x + dx).toUInt32 (y + dy).toUInt32 (if white then ⟨252, 252, 252⟩ else ⟨0, 0, 0⟩)]
    else []

def cursorCaptureUnder (d : Display) (buffer : Framebuffer) (x y : Int32) : CursorSave where
  x := x
  y := y
  valid := true
  pixels := kCursorPoints.map fun (dx, dy, _) =>
    if pointInFb d.fb (x + dx) (y + dy) then
      (fbGetpixelRgb d buffer (x + dx).toUInt32 (y + dy).toUInt32).getD desktopBg
    else desktopBg

def cursorRestoreUnder (d : Display) (save : CursorSave) : List GuiCall × CursorSave :=
  if !save.valid then ([], save)
  else
    ((kCursorPoints.zip save.pixels).flatMap fun ((dx, dy, _), color) =>
      if pointInFb d.fb (save.x + dx) (save.y + dy) then
        [.putpixel (save.x + dx).toUInt32 (save.y + dy).toUInt32 color]
      else [], { save with valid := false })

def zOrderBroken : List Int32 → List (Fin windowCount) → Bool
  | [], _ => false
  | idx :: zOrder, seen =>
      match windowIdx idx with
      | none => true
      | some i => seen.contains i || zOrderBroken zOrder (i :: seen)

def sanitizeZOrder (zOrder : Fin windowCount → Int32) : Bool × (Fin windowCount → Int32) :=
  if zOrderBroken ((List.finRange windowCount).map zOrder) [] then (true, fun j => Int32.ofNat j)
    else (false, zOrder)

def indexClosed (windows : Fin windowCount → DesktopWindow) (idx : Int32) : Bool :=
  !(windowIdx idx).any fun i => (windows i).visible

def repairZOrder (rt : DesktopRuntime) : Bool × DesktopRuntime :=
  let (changed, zOrder) := sanitizeZOrder rt.zOrder
  (changed, { rt with zOrder })

def repairActive (state : Bool × DesktopRuntime) : Bool × DesktopRuntime :=
  let rt := state.2
  let top := topVisibleWindow rt.windows rt.zOrder
  let (changed, rt) :=
    if (windowIdx rt.activeIdx).isNone && rt.activeIdx != -1 then
      (true, { rt with activeIdx := top }) else state
  if (windowIdx rt.activeIdx).isSome && indexClosed rt.windows rt.activeIdx then
    (true, { rt with activeIdx := top })
  else (changed, rt)

def repairDragging (state : Bool × DesktopRuntime) : Bool × DesktopRuntime :=
  let rt := state.2
  if indexClosed rt.windows rt.draggingIdx && rt.draggingIdx != -1 then
    (true, { rt with draggingIdx := -1 })
  else state

def repairCursor (fb : FbInfo) (state : Bool × DesktopRuntime) : Bool × DesktopRuntime :=
  let rt := state.2
  let maxX := if fb.width > 0 then fb.width.toInt32 - 1 else 0
  let maxY := if fb.height > 0 then fb.height.toInt32 - 1 else 0
  let clampedX := clampI32 rt.cursorX 0 maxX
  let clampedY := clampI32 rt.cursorY 0 maxY
  if clampedX != rt.cursorX || clampedY != rt.cursorY then
    (true, { rt with cursorX := clampedX, cursorY := clampedY })
  else state

def sanitizeRuntimeState (fb : FbInfo) (rt : DesktopRuntime) : Bool × DesktopRuntime :=
  repairCursor fb (repairDragging (repairActive (repairZOrder rt)))

def windowDirty (prev rt : DesktopSnapshot) (i : Fin windowCount) : List Rect :=
  let before := prev.windows i
  let after := rt.windows i
  if before.visible && !after.visible then [windowRect before.win]
  else if !before.visible && after.visible then [windowRect after.win]
  else if before.visible && after.visible then
    let moved := windowGeometryChanged before after
    let styleChanged := windowStyleChanged before after
    let focusStyleChanged := (Int32.ofNat i == prev.activeIdx) != (Int32.ofNat i == rt.activeIdx)
    if moved then [windowRect before.win, windowRect after.win]
    else if styleChanged || focusStyleChanged then [windowRect after.win]
    else []
  else []

def zOrderChanged (prev rt : DesktopSnapshot) : Bool :=
  (List.finRange windowCount).any fun i => prev.zOrder i != rt.zOrder i

def openDirty (rect : DesktopWindow → Rect) (prev rt : DesktopSnapshot)
    (i : Fin windowCount) : List Rect :=
  (if (prev.windows i).visible then [rect (prev.windows i)] else []) ++
    if (rt.windows i).visible then [rect (rt.windows i)] else []

def iconDirty (prev rt : DesktopSnapshot) (i : Fin windowCount) : List Rect :=
  let visChanged := (prev.windows i).visible != (rt.windows i).visible
  let focusChanged := (Int32.ofNat i == prev.activeIdx) != (Int32.ofNat i == rt.activeIdx)
  if visChanged || focusChanged then [iconRect i] else []

/-- The calls of `dirty_add`, in order. -/
def frameDirtyRects (d : Display) (prev rt : DesktopSnapshot) (sceneChanged : Bool) : List Rect :=
  (List.finRange windowCount).flatMap (windowDirty prev rt) ++
  (if zOrderChanged prev rt then
    (List.finRange windowCount).flatMap (openDirty (fun w => windowRect w.win) prev rt)
  else []) ++
  (if countVisibleWindows prev.windows != countVisibleWindows rt.windows || prev.activeIdx !=
  rt.activeIdx then
    [desktopTopRect d.fb]
  else []) ++
  (List.finRange windowCount).flatMap (iconDirty prev rt) ++
  if sceneChanged then (List.finRange windowCount).flatMap (openDirty (windowBodyRect d) prev rt)
    else []

def dirtyTurns : Nat := (maxDirtyRects + 1) * (maxDirtyRects + 1)

/-- The set after the first branches of the frame; `full` says that all is painted in any case. -/
def frameDirty (d : Display) (prev : DesktopSnapshot) (rt : DesktopRuntime)
    (sceneChanged full : Bool) : Option DirtySet := do
  let calls := (frameDirtyRects d prev rt.toDesktopSnapshot sceneChanged).map (DirtyCall.mk d.fb)
  let dirty ← runActions (dirtyAdd dirtyTurns) { dirtyInit with fullRedraw := full } calls
  let dirty := if (windowIdx rt.draggingIdx).isSome && sceneChanged then
    { rects := [], fullRedraw := true } else dirty
  if sceneChanged && !dirty.fullRedraw && dirty.rects.isEmpty then
    dirtyAdd dirtyTurns dirty ⟨d.fb, fullRect d.fb⟩
  else some dirty

def paintDirty (d : Display) (s : DesktopSnapshot) (dirty : DirtySet)
    (buffer : Framebuffer) : Framebuffer :=
  if dirty.fullRedraw then paint (GuiCall.ink d) (s.repaint d (fullRect d.fb)) buffer
  else
    dirty.rects.foldl (fun buffer rect => paint (GuiCall.ink d)
      (s.repaint d (expandRepaintRegion d rect)) buffer) buffer

/-- `none` when `dirty_add` takes more turns than it is given. -/
def desktopRenderFrame (d : Display) (rt : DesktopRuntime) (prev : DesktopSnapshot)
    (frame : DesktopFrameState) (buffer : Framebuffer) : Option (DesktopRuntime × Framebuffer) := do
  let (runtimeRepaired, rt) := sanitizeRuntimeState d.fb rt
  let dirty ← frameDirty d prev rt frame.sceneChanged (frame.forceFullRedraw || runtimeRepaired)
  let overlay := frame.cursorChanged || frame.sceneChanged
  let dirty := if overlay && !rt.cursorSave.valid then { dirty with fullRedraw := true } else dirty
  if overlay then
    let (restore, _) := cursorRestoreUnder d rt.cursorSave
    let buffer := paintDirty d rt.toDesktopSnapshot dirty (paint (GuiCall.ink d) restore buffer)
    let cursorSave := cursorCaptureUnder d buffer rt.cursorX rt.cursorY
    some ({ rt with cursorSave }, paint (GuiCall.ink d) (drawCursor d rt.cursorX rt.cursorY) buffer)
  else some (rt, paintDirty d rt.toDesktopSnapshot dirty buffer)

end Szczupak
