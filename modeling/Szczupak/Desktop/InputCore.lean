import Szczupak.Desktop.PanelsCore

/-!
The loop of the desktop: the focus and the places of the windows in `desktop/window.c`,
the keys and the
mouse in `desktop/input.c`, the start in `desktop/runtime.c`, and a turn of `desktop/main.c`.
-/

namespace Szczupak

structure Theme where
  border : FbColor
  titleBg : FbColor
  bodyBg : FbColor

def themes : Vector Theme 4 :=
  #v[⟨⟨45, 70, 102⟩, ⟨59, 100, 146⟩, ⟨224, 233, 244⟩⟩, ⟨⟨71, 52, 103⟩, ⟨106, 72, 146⟩, ⟨230, 224, 242⟩⟩,
    ⟨⟨66, 72, 42⟩, ⟨102, 114, 66⟩, ⟨234, 238, 221⟩⟩, ⟨⟨103, 58, 49⟩, ⟨143, 84, 71⟩, ⟨244, 230, 225⟩⟩]

def desktopThemeCount : UInt32 := 4

def themeAt (idx : UInt32) : Theme := themes.get ⟨idx.toNat % 4, Nat.mod_lt _ (by decide)⟩

def windowApplyTheme (w : DesktopWindow) : DesktopWindow :=
  let themeIdx := w.themeIdx % desktopThemeCount
  let theme := themeAt themeIdx
  { w with
    themeIdx
    win := { w.win with
      borderColor := theme.border, titleBgColor := theme.titleBg, bodyColor := theme.bodyBg
      titleFgColor := ⟨245, 248, 253⟩ }
    selectedBgColor := ⟨52, 96, 141⟩
    selectedFgColor := ⟨246, 250, 255⟩ }

def zPosition (zOrder : Fin windowCount → Int32) (idx : Int32) : Option (Fin windowCount) :=
  (List.finRange windowCount).find? fun i => zOrder i == idx

def bringToFront (zOrder : Fin windowCount → Int32) (idx : Int32) : Bool × (Fin windowCount → Int32) :=
  match zPosition zOrder idx with
  | none => (false, zOrder)
  | some pos =>
      if pos = Fin.last (windowCount - 1) then (false, zOrder)
      else
        (true, fun i =>
          if i < pos then zOrder i
          else if more : i.val + 1 < windowCount then zOrder ⟨i.val + 1, more⟩
          else idx)

def isVisible (windows : Fin windowCount → DesktopWindow) (idx : Int32) : Bool :=
  (windowIdx idx).any fun i => (windows i).visible

def cycleFocusWindow (windows : Fin windowCount → DesktopWindow) (zOrder : Fin windowCount → Int32)
    (activeIdx : Int32) : Int32 :=
  let top := topVisibleWindow windows zOrder
  if countVisibleWindows windows = 0 then -1
  else if !isVisible windows activeIdx then top
  else
    let next := (zPosition zOrder activeIdx).bind fun activePos =>
      ((List.range windowCount).map fun step =>
        zOrder ⟨(activePos.val + (step + 1)) % windowCount, Nat.mod_lt _ (Nat.succ_pos _)⟩).find?
          (isVisible windows)
    next.getD top

def hitTestIcon (x y : Int32) : Option (Fin windowCount) :=
  (List.finRange windowCount).find? fun i => pointInRect x y (iconRect i)

def hitTestWindow (windows : Fin windowCount → DesktopWindow) (zOrder : Fin windowCount → Int32)
    (x y : Int32) : Option (Fin windowCount) :=
  ((List.finRange windowCount).reverse.map zOrder).findSome? fun idx =>
    (windowIdx idx).filter fun i => (windows i).visible && pointInRect x y (windowRect (windows i).win)

def windowTitleHit (d : Display) (w : DesktopWindow) (x y : Int32) : Bool :=
  w.visible &&
    pointInRect x y (makeRect w.win.x w.win.y w.win.width.toInt32 ((windowTitleHeight d w.win).toInt32 + 1))

def windowCloseHit (d : Display) (w : DesktopWindow) (x y : Int32) : Bool :=
  w.visible && pointInRect x y (closeButtonRect d w.win)

def clampSide (v low : Int32) (screen size : UInt32) : Int32 :=
  let high := screen.toInt32 - size.toInt32 - 10
  clampI32 v low (if high < low then low else high)

def clampWindow (fb : FbInfo) (w : DesktopWindow) : Bool × DesktopWindow :=
  let x := clampSide w.win.x (desktopSideW + 20) fb.width w.win.width
  let y := clampSide w.win.y (desktopTopH + 16) fb.height w.win.height
  (w.win.x != x || w.win.y != y, { w with win := { w.win with x, y } })

structure DesktopPoll where
  rt : DesktopState
  frame : DesktopFrameState

def DesktopPoll.marked (p : DesktopPoll) (changed : Bool) (rt : DesktopState) : DesktopPoll where
  rt := rt
  frame := { p.frame with sceneChanged := p.frame.sceneChanged || changed }

def DesktopPoll.changed (p : DesktopPoll) (rt : DesktopState) : DesktopPoll := p.marked true rt

def topVisible (rt : DesktopState) : Int32 := topVisibleWindow rt.windows rt.zOrder

def hideWindow (rt : DesktopState) (i : Fin windowCount) : DesktopState :=
  let idx := Int32.ofNat i
  let rt := rt.setWindow i { rt.windows i with visible := false }
  let rt := if rt.draggingIdx = idx then { rt with draggingIdx := -1 } else rt
  if rt.activeIdx = idx then { rt with activeIdx := topVisible rt } else rt

def showWindow (rt : DesktopState) (i : Fin windowCount) : DesktopState :=
  let rt := rt.setWindow i { rt.windows i with visible := true }
  if i = shellWindowIdx then syncShellWindow rt else rt

def focusWindow (p : DesktopPoll) (i : Fin windowCount) : DesktopPoll :=
  let idx := Int32.ofNat i
  let (raised, zOrder) := bringToFront p.rt.zOrder idx
  p.marked (p.rt.activeIdx != idx || raised) { p.rt with activeIdx := idx, zOrder }

def applyShellAction (p : DesktopPoll) : ShellAction → DesktopPoll
  | .none => p
  | .hideWindow => p.changed (hideWindow p.rt shellWindowIdx)
  | .forceFullRepaint => { p with frame := { p.frame with forceFullRedraw := true } }

def activateFiles (answers : ShellAnswers) (p : DesktopPoll) : DesktopPoll :=
  let (action, changed, rt) := desktopFilesActivateSelected answers p.rt
  let p := applyShellAction { p with rt } action
  p.marked changed p.rt

structure KeyInput where
  c : UInt8
  answers : ShellAnswers

def KeyInput.isLetter (key : KeyInput) (letter : Char) : Bool :=
  key.c == UInt8.ofNat letter.toNat || key.c == UInt8.ofNat letter.toUpper.toNat

def KeyInput.isEnter (key : KeyInput) : Bool := key.c == 10 || key.c == 13

def toggleKeyToWindowIdx (c : UInt8) : Option (Fin windowCount) :=
  if inside : 49 ≤ c.toNat ∧ c.toNat - 49 < windowCount then some ⟨c.toNat - 49, inside.2⟩ else none

def shellEdit (shell : WindowShell) (c : UInt8) : WindowShell :=
  if c = 8 then shellHandleBackspace shell else shellHandleChar shell c

def shellKey (key : KeyInput) (p : DesktopPoll) : DesktopPoll :=
  if key.isEnter then
    let (shellState, action) := shellSubmitInput key.answers p.rt.shellState
    let p := applyShellAction { p with rt := { p.rt with shellState } } action
    p.changed (syncShellWindow p.rt)
  else
    let shellState := shellEdit p.rt.shellState key.c
    let rt := { p.rt with shellState }
    if shellState.input.length ≠ p.rt.shellState.input.length then p.changed (syncShellWindow rt)
      else { p with rt }

/-- A key for the files; `none` where it is not one of theirs. -/
def filesKey (key : KeyInput) (p : DesktopPoll) : Option DesktopPoll :=
  let reports (result : Bool × DesktopState) := p.marked result.1 result.2
  if key.isLetter 'j' then some (reports (desktopFilesSelectNext p.rt 1))
  else if key.isLetter 'k' then some (reports (desktopFilesSelectNext p.rt (-1)))
  else if key.isLetter 'u' || key.c == 8 then
    some (activateFiles key.answers
      { p with rt := { p.rt with files := { p.rt.files with selectedEntry := 0 } } })
  else if key.isLetter 'o' || key.isEnter then some (activateFiles key.answers p)
  else if key.isLetter 'd' then some (reports (desktopFilesDeleteSelected key.answers p.rt))
  else if key.isLetter 'r' then some (p.changed (desktopRefreshFilesPanel key.answers p.rt))
  else none

def toggleWindow (p : DesktopPoll) (i : Fin windowCount) : DesktopPoll :=
  if (p.rt.windows i).visible then p.changed (hideWindow p.rt i)
  else
    let p := focusWindow { p with rt := showWindow p.rt i } i
    p.changed p.rt

def windowMoveStep : Int32 := 12

def moveWindow (rt : DesktopState) (i : Fin windowCount) (x y : Int32) : DesktopState :=
  let w := rt.windows i
  rt.setWindow i { w with win := { w.win with x := w.win.x + x, y := w.win.y + y } }

def windowKey (key : KeyInput) (p : DesktopPoll) : DesktopPoll :=
  match (windowIdx p.rt.activeIdx).filter fun i => (p.rt.windows i).visible with
  | none => p
  | some i =>
      if key.isLetter 'w' then p.changed (moveWindow p.rt i 0 (-windowMoveStep))
      else if key.isLetter 's' then p.changed (moveWindow p.rt i 0 windowMoveStep)
      else if key.isLetter 'a' then p.changed (moveWindow p.rt i (-windowMoveStep) 0)
      else if key.isLetter 'd' then p.changed (moveWindow p.rt i windowMoveStep 0)
      else if key.isLetter 'c' then
        let w := p.rt.windows i
        p.changed (p.rt.setWindow i
          (windowApplyTheme { w with themeIdx := (w.themeIdx + 1) % desktopThemeCount }))
      else if key.isLetter 'x' then p.changed (hideWindow p.rt i)
      else p

def cycleKey (p : DesktopPoll) : DesktopPoll :=
  match windowIdx (cycleFocusWindow p.rt.windows p.rt.zOrder p.rt.activeIdx) with
  | none => if p.rt.activeIdx ≠ -1 then p.changed { p.rt with activeIdx := -1 } else p
  | some next => focusWindow p next

def isFocused (rt : DesktopState) (i : Fin windowCount) : Bool :=
  rt.activeIdx == Int32.ofNat i && (rt.windows i).visible

/-- `none` when the desktop is left. -/
def desktopKey (p : DesktopPoll) (key : KeyInput) : Option DesktopPoll :=
  if key.c = 27 then none
  else if key.c = 9 then some (cycleKey p)
  else if isFocused p.rt shellWindowIdx then some (shellKey key p)
  else
    match if isFocused p.rt filesWindowIdx then filesKey key p else none with
    | some p => some p
    | none =>
        if key.isLetter 'q' then none
        else
          match toggleKeyToWindowIdx key.c with
          | some i => some (toggleWindow p i)
          | none => some (windowKey key p)

def desktopPollKeyboard (keys : List KeyInput) (p : DesktopPoll) : Option DesktopPoll :=
  keys.foldlM desktopKey p

structure MouseInput where
  x : Int32
  y : Int32
  buttons : UInt8
  changed : UInt8
  now : UInt64
  answers : ShellAnswers

def filesDoubleClickTicks : UInt64 := 30

def mouseMove (event : MouseInput) (p : DesktopPoll) : DesktopPoll :=
  if event.x ≠ p.rt.cursorX ∨ event.y ≠ p.rt.cursorY then
    { rt := { p.rt with cursorX := event.x, cursorY := event.y },
      frame := { p.frame with cursorChanged := true } }
  else p

def stopDragging (p : DesktopPoll) : DesktopPoll := { p with rt := { p.rt with draggingIdx := -1 } }

def pressIcon (p : DesktopPoll) (i : Fin windowCount) : DesktopPoll :=
  let p := if !(p.rt.windows i).visible then p.changed (showWindow p.rt i) else p
  stopDragging (focusWindow p i)

def pressEntry (d : Display) (event : MouseInput) (p : DesktopPoll) (entryIdx : Nat) : DesktopPoll :=
  let (selected, rt) := desktopFilesSelectAtPoint d p.rt p.rt.cursorX p.rt.cursorY
  let p := p.marked selected rt
  let files := p.rt.files
  if files.lastClickEntry = entryIdx ∧ event.now - files.lastClickTick ≤ filesDoubleClickTicks then
    let p := activateFiles event.answers p
    stopDragging { p with rt := { p.rt with files := { p.rt.files with lastClickEntry := -1 } } }
  else
    stopDragging { p with rt := { p.rt with files :=
      { files with lastClickEntry := entryIdx, lastClickTick := event.now } } }

/-- A press on a window, behind the files: whether the event ends with it. -/
def pressFrame (d : Display) (p : DesktopPoll) (i : Fin windowCount) : Bool × DesktopPoll :=
  let w := p.rt.windows i
  if windowCloseHit d w p.rt.cursorX p.rt.cursorY then (true, p.changed (hideWindow p.rt i))
  else if windowTitleHit d w p.rt.cursorX p.rt.cursorY then
    (false, { p with rt := { p.rt with
      draggingIdx := Int32.ofNat i, dragOffX := p.rt.cursorX - w.win.x, dragOffY := p.rt.cursorY - w.win.y } })
  else (false, stopDragging p)

/-- The left button goes down: whether the event ends with it. -/
def leftPress (d : Display) (event : MouseInput) (p : DesktopPoll) : Bool × DesktopPoll :=
  match hitTestIcon p.rt.cursorX p.rt.cursorY with
  | some i => (true, pressIcon p i)
  | none =>
      match hitTestWindow p.rt.windows p.rt.zOrder p.rt.cursorX p.rt.cursorY with
      | some i =>
          let p := focusWindow p i
          match if i = filesWindowIdx then filesEntryAtPoint d p.rt p.rt.cursorX p.rt.cursorY else none with
          | some entryIdx => (true, pressEntry d event p entryIdx)
          | none => pressFrame d p i
      | none =>
          let p := if p.rt.activeIdx ≠ -1 then p.changed { p.rt with activeIdx := -1 } else p
          (false, stopDragging p)

def dragWindow (p : DesktopPoll) : DesktopPoll :=
  match (windowIdx p.rt.draggingIdx).filter fun i => (p.rt.windows i).visible with
  | none => p
  | some i =>
      let w := p.rt.windows i
      let nx := p.rt.cursorX - p.rt.dragOffX
      let ny := p.rt.cursorY - p.rt.dragOffY
      if nx ≠ w.win.x ∨ ny ≠ w.win.y then
        p.changed (p.rt.setWindow i { w with win := { w.win with x := nx, y := ny } })
      else p

def desktopMouse (d : Display) (p : DesktopPoll) (event : MouseInput) : DesktopPoll :=
  let leftNow := event.buttons &&& 1 != 0
  let leftChanged := event.changed &&& 1 != 0
  let (ends, p) := if leftChanged && leftNow then leftPress d event (mouseMove event p)
    else (false, mouseMove event p)
  if ends then p
  else
    let p := if leftChanged && !leftNow then stopDragging p else p
    if leftNow then dragWindow p else p

def desktopPollMouse (d : Display) (events : List MouseInput) (p : DesktopPoll) : DesktopPoll :=
  events.foldl (desktopMouse d) p

def pumpShell (answers : PumpAnswers) (p : DesktopPoll) : DesktopPoll :=
  let (changed, shellState) := shellPumpExternal answers p.rt.shellState
  let rt := { p.rt with shellState }
  if changed then p.marked (p.rt.windows shellWindowIdx).visible (syncShellWindow rt) else { p with rt }

def refreshPanels (answers : PanelAnswers) (p : DesktopPoll) : DesktopPoll :=
  let (changed, rt) := desktopRefreshDynamicPanels answers p.rt
  p.marked changed rt

def finalizeWindow (fb : FbInfo) (p : DesktopPoll) (i : Fin windowCount) : DesktopPoll :=
  if !(p.rt.windows i).visible then p
  else
    let (moved, w) := clampWindow fb (p.rt.windows i)
    p.marked moved (p.rt.setWindow i w)

def desktopFinalizeState (fb : FbInfo) (p : DesktopPoll) : DesktopPoll :=
  let p := (List.finRange windowCount).foldl (finalizeWindow fb) p
  let rt := p.rt
  if (windowIdx rt.activeIdx).isSome && !isVisible rt.windows rt.activeIdx ||
      (windowIdx rt.activeIdx).isNone && rt.activeIdx != -1 then
    p.changed { rt with activeIdx := topVisible rt }
  else p

structure TurnInput where
  keys : List KeyInput
  events : List MouseInput
  pump : PumpAnswers
  panels : PanelAnswers

/-- What a turn makes of the state before it is drawn. -/
def desktopPolls (d : Display) (rt : DesktopState) (input : TurnInput) : Option DesktopPoll :=
  (desktopPollKeyboard input.keys ⟨rt, ⟨false, false, false⟩⟩).map fun p =>
    desktopFinalizeState d.fb
      (refreshPanels input.panels (pumpShell input.pump (desktopPollMouse d input.events p)))

structure DesktopScreen where
  rt : DesktopState
  buffer : Framebuffer

def desktopTurn (d : Display) (s : DesktopScreen) (input : TurnInput) : Option DesktopScreen := do
  let p ← desktopPolls d s.rt input
  let (drawn, buffer) ← desktopRenderFrame d p.rt.toDesktopRuntime s.rt.toDesktopSnapshot
    p.frame s.buffer
  some ⟨{ p.rt with toDesktopRuntime := drawn }, buffer⟩

def initWindow (x y : Int32) (width height : UInt32) (title : String)
    (themeIdx : UInt32) : DesktopWindow where
  win := { x, y, width, height, title := some (cText title), borderColor := ⟨0, 0, 0⟩,
           titleBgColor := ⟨0, 0, 0⟩, bodyColor := ⟨0, 0, 0⟩, titleFgColor := ⟨0, 0, 0⟩ }
  themeIdx
  lines := []
  selectedLine := -1
  selectedBgColor := ⟨0, 0, 0⟩
  selectedFgColor := ⟨0, 0, 0⟩
  visible := true

def initialWindow : Fin windowCount → DesktopWindow
  | 0 => initWindow 220 86 500 286 "Shell.elf" 0
  | 1 => initWindow 360 170 390 230 "Files" 1
  | 2 => initWindow 470 116 400 220 "Network" 2

def initZOrder : Fin windowCount → Int32 :=
  (bringToFront (fun i => Int32.ofNat i) (Int32.ofNat shellWindowIdx)).2

def desktopRuntimeInit (fb : FbInfo) (answers : PanelAnswers) : DesktopState :=
  let rt : DesktopState :=
    { windows := fun i => (clampWindow fb (windowApplyTheme (initialWindow i))).2
      zOrder := initZOrder
      activeIdx := Int32.ofNat shellWindowIdx
      cursorX := (fb.width / 2).toInt32
      cursorY := (fb.height / 2).toInt32
      draggingIdx := -1
      cursorSave := ⟨0, 0, false, List.replicate kCursorPoints.length ⟨0, 0, 0⟩⟩
      shellState := shellInit
      files := ⟨[], [], List.replicate panelLineMax 0, [], 0, 0, 0, -1, kFilesHint⟩
      net := ⟨[], -1, -1, [0, 0, 0, 0], -1, 0⟩
      lastPanelRefreshTick := answers.now
      dragOffX := 0
      dragOffY := 0 }
  desktopRefreshNetworkPanel answers.net
  (desktopRefreshFilesPanel answers.shell (syncShellWindow rt))

def desktopStart (d : Display) (answers : PanelAnswers) (buffer : Framebuffer) : DesktopScreen :=
  let rt := desktopRuntimeInit d.fb answers
  let buffer := paint (GuiCall.ink d) (rt.toDesktopSnapshot.repaint d (fullRect d.fb)) buffer
  { rt := { rt with cursorSave := cursorCaptureUnder d buffer rt.cursorX rt.cursorY }
    buffer := paint (GuiCall.ink d) (drawCursor d rt.cursorX rt.cursorY) buffer }

end Szczupak
