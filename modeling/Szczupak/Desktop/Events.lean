import Szczupak.Desktop.Focus
import Szczupak.Desktop.Panels

/-!
What an event does to the desktop: the windows stay in order,
and what is drawn differently is reported.
-/

namespace Szczupak

/-- A window keeps its title and its size, has the colours of its theme, and no more lines than fit.
-/
structure Decorated (i : Fin windowCount) (w : DesktopWindow) : Prop where
  title : w.win.title = (initialWindow i).win.title
  width : w.win.width = (initialWindow i).win.width
  height : w.win.height = (initialWindow i).win.height
  borderColor : w.win.borderColor = (themeAt w.themeIdx).border
  titleBgColor : w.win.titleBgColor = (themeAt w.themeIdx).titleBg
  bodyColor : w.win.bodyColor = (themeAt w.themeIdx).bodyBg
  titleFgColor : w.win.titleFgColor = ⟨245, 248, 253⟩
  lines : w.lines.length ≤ panelLineMax

structure Settled (rt : DesktopState) : Prop where
  stacked : Stacked rt.zOrder
  dragging : rt.draggingIdx = -1 ∨ isVisible rt.windows rt.draggingIdx = true
  decorated : ∀ i, Decorated i (rt.windows i)

/-- The active window is the topmost that is open. -/
structure DesktopPlace (rt : DesktopState) : Prop extends Settled rt where
  active : rt.activeIdx = -1 ∨ rt.activeIdx = topVisible rt

def DesktopWindow.shown (i : Fin windowCount) (w : DesktopWindow) : DesktopWindow :=
  if w.visible then w else { windowApplyTheme (initialWindow i) with visible := false }

def DesktopSnapshot.shown (s : DesktopSnapshot) : DesktopSnapshot :=
  { s with windows := fun i => (s.windows i).shown i }

structure Tells (p next : DesktopPoll) : Prop where
  place : DesktopPlace p.rt → DesktopPlace next.rt
  scene : next.frame.sceneChanged = false →
    p.frame.sceneChanged = false ∧ next.rt.toDesktopSnapshot.shown = p.rt.toDesktopSnapshot.shown
  cursor : next.frame.cursorChanged = false →
    p.frame.cursorChanged = false ∧ next.rt.cursorX = p.rt.cursorX ∧ next.rt.cursorY = p.rt.cursorY
  forced : next.frame.forceFullRedraw = true → p.frame.forceFullRedraw = true ∨
    next.frame.sceneChanged = true
  cursorSave : next.rt.cursorSave = p.rt.cursorSave

structure Moves (rt next : DesktopState) : Prop where
  place : DesktopPlace rt → DesktopPlace next
  cursorX : next.cursorX = rt.cursorX
  cursorY : next.cursorY = rt.cursorY
  cursorSave : next.cursorSave = rt.cursorSave

section Reports

variable {p next last : DesktopPoll} {rt after : DesktopState} {i : Fin windowCount}
  {w : DesktopWindow}

theorem Tells.refl (p : DesktopPoll) : Tells p p :=
  ⟨id, fun still => ⟨still, rfl⟩, fun still => ⟨still, rfl, rfl⟩, Or.inl, rfl⟩

theorem Tells.trans (first : Tells p next) (second : Tells next last) : Tells p last where
  place place := second.place (first.place place)
  scene still := by
    obtain ⟨before, same⟩ := second.scene still
    exact ⟨(first.scene before).1, same.trans (first.scene before).2⟩
  cursor still := by
    obtain ⟨before, sameX, sameY⟩ := second.cursor still
    obtain ⟨first', firstX, firstY⟩ := first.cursor before
    exact ⟨first', sameX.trans firstX, sameY.trans firstY⟩
  forced forces := by
    rcases second.forced forces with forces | changed
    · rcases first.forced forces with forces | changed
      · exact Or.inl forces
      · refine Or.inr ?_
        by_contra still
        rw [(second.scene (by simpa using still)).1] at changed
        cases changed
    · exact Or.inr changed
  cursorSave := second.cursorSave.trans first.cursorSave

theorem Moves.marked (moves : Moves p.rt after) {changed : Bool}
    (quiet : changed = false → after.toDesktopSnapshot.shown = p.rt.toDesktopSnapshot.shown) :
    Tells p (p.marked changed after) where
  place := moves.place
  scene still := by
    obtain ⟨before, unchanged⟩ := Bool.or_eq_false_iff.mp still
    exact ⟨before, quiet unchanged⟩
  cursor still := ⟨still, moves.cursorX, moves.cursorY⟩
  forced := Or.inl
  cursorSave := moves.cursorSave

theorem Moves.changed (moves : Moves p.rt after) : Tells p (p.changed after) :=
  moves.marked fun unchanged => by cases unchanged

theorem Moves.quiet (moves : Moves p.rt after)
    (same : after.toDesktopSnapshot.shown = p.rt.toDesktopSnapshot.shown) :
    Tells p { p with rt := after } where
  place := moves.place
  scene still := ⟨still, same⟩
  cursor still := ⟨still, moves.cursorX, moves.cursorY⟩
  forced := Or.inl
  cursorSave := moves.cursorSave

theorem Moves.reported (moves : Moves p.rt next.rt)
    (cursor : next.frame.cursorChanged = p.frame.cursorChanged)
    (changed : next.frame.sceneChanged = true) : Tells p next where
  place := moves.place
  scene still := by
    rw [changed] at still
    cases still
  cursor still := ⟨cursor ▸ still, moves.cursorX, moves.cursorY⟩
  forced _ := Or.inr changed
  cursorSave := moves.cursorSave

theorem Moves.trans {last : DesktopState} (first : Moves rt after) (second : Moves after last) :
    Moves rt last where
  place place := second.place (first.place place)
  cursorX := second.cursorX.trans first.cursorX
  cursorY := second.cursorY.trans first.cursorY
  cursorSave := second.cursorSave.trans first.cursorSave

theorem Decorated.refilled {w other : DesktopWindow} (decorated : Decorated i w)
    (refilled : Refilled w other) : Decorated i other := by
  obtain ⟨title, width, height, borderColor, titleBgColor, bodyColor, titleFgColor, lines⟩ := decorated
  rw [← refilled.win] at title width height borderColor titleBgColor bodyColor titleFgColor
  rw [← refilled.themeIdx] at borderColor titleBgColor bodyColor
  exact ⟨title, width, height, borderColor, titleBgColor, bodyColor, titleFgColor, refilled.lines lines⟩

theorem isVisible_congr {windows others : Fin windowCount → DesktopWindow}
    (same : ∀ i, (others i).visible = (windows i).visible) :
    isVisible others = isVisible windows := by
  funext idx
  rw [isVisible, isVisible]
  exact congrArg (fun test => (windowIdx idx).any test) (funext same)

theorem Refills.settled (refills : Refills rt after) (settled : Settled rt) : Settled after where
  stacked := refills.zOrder ▸ settled.stacked
  dragging := by
    rw [refills.draggingIdx, isVisible_congr fun i => (refills.windows i).visible]
    exact settled.dragging
  decorated i := (settled.decorated i).refilled (refills.windows i)

theorem Refills.moves (refills : Refills rt after) : Moves rt after where
  place place := by
    refine ⟨refills.settled place.toSettled, ?_⟩
    rw [refills.activeIdx, topVisible, refills.zOrder, topVisibleWindow_congr fun i =>
      (refills.windows i).visible]
    exact place.active
  cursorX := refills.cursorX
  cursorY := refills.cursorY
  cursorSave := refills.cursorSave

theorem same_moves (rt after : DesktopState) (same : after.toDesktopRuntime = rt.toDesktopRuntime) :
    Moves rt after :=
  (Refills.of_same same).moves

theorem Reported.marked {changed : Bool} (reported : Reported p.rt changed after) :
    Tells p (p.marked changed after) :=
  reported.refills.moves.marked fun quiet => by rw [reported.quiet quiet]

theorem isVisible_update (windows : Fin windowCount → DesktopWindow) (i : Fin windowCount)
    (w : DesktopWindow) (idx : Int32) :
    isVisible (Function.update windows i w) idx = if idx = Int32.ofNat i then w.visible
    else isVisible windows idx := by
  split
  next here =>
    rw [here, isVisible_ofNat, Function.update_self]
  next other =>
    rw [isVisible, isVisible]
    cases isWindow : windowIdx idx with
    | none => rfl
    | some j =>
        have different : j ≠ i := fun same => other (same ▸ windowIdx_some isWindow)
        exact congrArg DesktopWindow.visible (Function.update_of_ne different w windows)

theorem setWindow_decorated (decorated : ∀ i, Decorated i (rt.windows i))
    (also : Decorated i w) : ∀ j, Decorated j ((rt.setWindow i w).windows j) := by
  intro j
  change Decorated j (Function.update rt.windows i w j)
  by_cases here : j = i
  · subst here
    rwa [Function.update_self]
  · rw [Function.update_of_ne here]
    exact decorated j

theorem setWindow_moves (also : Decorated i (rt.windows i) → Decorated i w)
    (visible : w.visible = (rt.windows i).visible) : Moves rt (rt.setWindow i w) where
  place place := by
    have same : ∀ j, ((rt.setWindow i w).windows j).visible = (rt.windows j).visible := by
      intro j
      change (Function.update rt.windows i w j).visible = _
      by_cases here : j = i
      · subst here
        rwa [Function.update_self]
      · rw [Function.update_of_ne here]
    refine ⟨⟨place.stacked, ?_, setWindow_decorated place.decorated (also (place.decorated i))⟩, ?_⟩
    · rw [isVisible_congr same]
      exact place.dragging
    · rw [topVisible, topVisibleWindow_congr same]
      exact place.active
  cursorX := rfl
  cursorY := rfl
  cursorSave := rfl

theorem Decorated.withVisible (decorated : Decorated i w) (visible : Bool) :
    Decorated i { w with visible } :=
  ⟨decorated.title, decorated.width, decorated.height, decorated.borderColor,
    decorated.titleBgColor, decorated.bodyColor, decorated.titleFgColor, decorated.lines⟩

theorem Decorated.movedTo (decorated : Decorated i w) (x y : Int32) :
    Decorated i { w with win := { w.win with x, y } } :=
  ⟨decorated.title, decorated.width, decorated.height, decorated.borderColor,
    decorated.titleBgColor, decorated.bodyColor, decorated.titleFgColor, decorated.lines⟩

theorem Decorated.themed (decorated : Decorated i w) (themeIdx : UInt32) :
    Decorated i (windowApplyTheme { w with themeIdx }) :=
  ⟨decorated.title, decorated.width, decorated.height, rfl, rfl, rfl, rfl, decorated.lines⟩

structure Hidden (rt after : DesktopState) (i : Fin windowCount) : Prop where
  windows : after.windows = Function.update rt.windows i { rt.windows i with visible := false }
  zOrder : after.zOrder = rt.zOrder
  draggingIdx : after.draggingIdx = if rt.draggingIdx = Int32.ofNat i then -1 else rt.draggingIdx
  activeIdx : after.activeIdx = if rt.activeIdx = Int32.ofNat i then topVisible after else rt.activeIdx
  cursorX : after.cursorX = rt.cursorX
  cursorY : after.cursorY = rt.cursorY
  cursorSave : after.cursorSave = rt.cursorSave

theorem hideWindow_hidden (rt : DesktopState) (i : Fin windowCount) :
    Hidden rt (hideWindow rt i) i := by
  by_cases drags : rt.draggingIdx = Int32.ofNat i
  · by_cases acts : rt.activeIdx = Int32.ofNat i
    · constructor <;> simp [hideWindow, DesktopState.setWindow, drags, acts, topVisible]
    · constructor <;> simp [hideWindow, DesktopState.setWindow, drags, acts]
  · by_cases acts : rt.activeIdx = Int32.ofNat i
    · constructor <;> simp [hideWindow, DesktopState.setWindow, drags, acts, topVisible]
    · constructor <;> simp [hideWindow, DesktopState.setWindow, drags, acts]

theorem hideWindow_moves (rt : DesktopState) (i : Fin windowCount) : Moves rt (hideWindow rt i) := by
  have hidden := hideWindow_hidden rt i
  refine ⟨fun place => ⟨⟨hidden.zOrder ▸ place.stacked, ?_, ?_⟩, ?_⟩,
    hidden.cursorX, hidden.cursorY, hidden.cursorSave⟩
  · rw [hidden.draggingIdx]
    split
    next => exact Or.inl rfl
    next other =>
      rw [hidden.windows, isVisible_update, if_neg other]
      exact place.dragging
  · rw [hidden.windows]
    exact setWindow_decorated place.decorated ((place.decorated i).withVisible false)
  · rw [hidden.activeIdx]
    split
    next => exact Or.inr rfl
    next other =>
      rcases place.active with none | top
      · exact Or.inl none
      · rcases topVisibleWindow_open rt.windows rt.zOrder with none | shown
        · exact Or.inl (top.trans none)
        · right
          rw [topVisible, hidden.zOrder, hidden.windows, top, topVisible]
          refine (topVisibleWindow_less (fun j open_ => ?_) ?_).symm
          · by_cases here : j = i
            · subst here
              rw [Function.update_self] at open_
              cases open_
            · rwa [Function.update_of_ne here] at open_
          · rw [isVisible_update]
            exact (if_neg fun same => other (top.trans same)).trans shown

theorem focusWindow_place (settled : Settled p.rt) (visible : (p.rt.windows i).visible = true) :
    DesktopPlace (focusWindow p i).rt := by
  obtain ⟨stacked, front⟩ := bringToFront_spec settled.stacked i
  refine ⟨⟨stacked, settled.dragging, settled.decorated⟩, Or.inr ?_⟩
  exact (topVisibleWindow_front front ((isVisible_ofNat _ i).trans visible)).symm

theorem focusWindow_tells (visible : (p.rt.windows i).visible = true) : Tells p (focusWindow p i) where
  place place := focusWindow_place place.toSettled visible
  scene still := by
    obtain ⟨before, unchanged⟩ := Bool.or_eq_false_iff.mp still
    obtain ⟨active, unraised⟩ := Bool.or_eq_false_iff.mp unchanged
    refine ⟨before, ?_⟩
    change DesktopSnapshot.shown ⟨p.rt.windows, (bringToFront p.rt.zOrder (Int32.ofNat i)).2,
      Int32.ofNat i⟩ = _
    rw [bringToFront_kept unraised, ← bne_eq_false_iff_eq.mp active]
  cursor still := ⟨still, rfl, rfl⟩
  forced := Or.inl
  cursorSave := rfl

theorem showWindow_shown (rt : DesktopState) (i : Fin windowCount) :
    (Settled rt → Settled (showWindow rt i)) ∧ ((showWindow rt i).windows i).visible = true ∧
      (showWindow rt i).cursorX = rt.cursorX ∧ (showWindow rt i).cursorY = rt.cursorY ∧
      (showWindow rt i).cursorSave = rt.cursorSave := by
  have opened : Settled rt → Settled (rt.setWindow i { rt.windows i with visible := true }) := by
    intro settled
    refine ⟨settled.stacked, settled.dragging.imp_right fun shown => ?_,
      setWindow_decorated settled.decorated ((settled.decorated i).withVisible true)⟩
    change isVisible (Function.update rt.windows i _) rt.draggingIdx = true
    rw [isVisible_update]
    split
    next => rfl
    next => exact shown
  have here : ((rt.setWindow i { rt.windows i with visible := true }).windows i).visible = true :=
    congrArg DesktopWindow.visible (Function.update_self i _ rt.windows)
  rw [showWindow]
  dsimp only
  split
  next =>
    have refills := syncShellWindow_refills (rt.setWindow i { rt.windows i with visible := true })
    exact ⟨fun settled => refills.settled (opened settled), (refills.windows i).visible.trans here,
      refills.cursorX, refills.cursorY, refills.cursorSave⟩
  next => exact ⟨opened, here, rfl, rfl, rfl⟩

theorem showFocus_place (place : DesktopPlace rt) (isRt : p.rt = showWindow rt i) :
    DesktopPlace (focusWindow p i).rt := by
  obtain ⟨settled, visible, -⟩ := showWindow_shown rt i
  rw [← isRt] at settled visible
  exact focusWindow_place (settled place.toSettled) visible

theorem showFocus_moves (isRt : p.rt = showWindow rt i) : Moves rt (focusWindow p i).rt := by
  obtain ⟨-, -, cursorX, cursorY, cursorSave⟩ := showWindow_shown rt i
  rw [← isRt] at cursorX cursorY cursorSave
  exact ⟨fun place => showFocus_place place isRt, cursorX, cursorY, cursorSave⟩

theorem toggleWindow_tells (p : DesktopPoll) (i : Fin windowCount) : Tells p (toggleWindow p i) := by
  rw [toggleWindow]
  split
  next => exact (hideWindow_moves p.rt i).changed
  next =>
    have moves := @showFocus_moves { p with rt := showWindow p.rt i } p.rt i rfl
    exact @Moves.reported _ (DesktopPoll.changed _ _) moves rfl (Bool.or_true _)

theorem stopDragging_tells (p : DesktopPoll) : Tells p (stopDragging p) := by
  refine Moves.quiet ⟨fun place => ?_, rfl, rfl, rfl⟩ rfl
  exact ⟨⟨place.stacked, Or.inl rfl, place.decorated⟩, place.active⟩

theorem pressIcon_tells (p : DesktopPoll) (i : Fin windowCount) : Tells p (pressIcon p i) := by
  refine Tells.trans ?_ (stopDragging_tells _)
  split
  next =>
    have moves := @showFocus_moves (p.changed (showWindow p.rt i)) p.rt i rfl
    refine moves.reported rfl (Bool.or_eq_true_iff.mpr (Or.inl (Bool.or_true _)))
  next visible => exact focusWindow_tells (by simpa using visible)

theorem applyShellAction_moves (p : DesktopPoll) (action : ShellAction) :
    Moves p.rt (applyShellAction p action).rt ∧
      (applyShellAction p action).frame.cursorChanged = p.frame.cursorChanged := by
  cases action with
  | none => exact ⟨(Refills.of_same rfl).moves, rfl⟩
  | hideWindow => exact ⟨hideWindow_moves p.rt shellWindowIdx, rfl⟩
  | forceFullRepaint => exact ⟨(Refills.of_same rfl).moves, rfl⟩

theorem same_tells (p : DesktopPoll) (rt : DesktopState)
    (same : rt.toDesktopRuntime = p.rt.toDesktopRuntime) : Tells p { p with rt } :=
  (Refills.of_same same).moves.quiet (by rw [same])

theorem activateFiles_tells (answers : ShellAnswers) (p : DesktopPoll) :
    Tells p (activateFiles answers p) := by
  rw [activateFiles, desktopFilesActivateSelected]
  cases filesSelected p.rt with
  | none => exact (Reported.same rfl).marked
  | some entry =>
      have refills := filesOpenEntry_refills answers p.rt entry
      obtain ⟨moves, cursor⟩ := applyShellAction_moves
        { p with rt := (filesOpenEntry answers p.rt entry).2 } (filesOpenEntry answers p.rt entry).1
      exact @Moves.reported _ (DesktopPoll.marked _ true _) (refills.moves.trans moves) cursor (Bool.or_true _)

theorem shellKey_tells (key : KeyInput) (p : DesktopPoll) : Tells p (shellKey key p) := by
  rw [shellKey]
  split
  next =>
    have typed : Moves p.rt { p.rt with shellState := (shellSubmitInput key.answers p.rt.shellState).1 } :=
      same_moves _ _ rfl
    obtain ⟨moves, cursor⟩ := applyShellAction_moves
      { p with rt := { p.rt with shellState := (shellSubmitInput key.answers p.rt.shellState).1 } }
      (shellSubmitInput key.answers p.rt.shellState).2
    exact @Moves.reported _ (DesktopPoll.changed _ _)
      (typed.trans (moves.trans (syncShellWindow_refills _).moves)) cursor (Bool.or_true _)
  next =>
    dsimp only
    split
    next =>
      have typed : Moves p.rt { p.rt with shellState := shellEdit p.rt.shellState key.c } := same_moves _ _ rfl
      exact (typed.trans (syncShellWindow_refills _).moves).changed
    next => exact same_tells p _ rfl

theorem filesKey_tells {key : KeyInput} (taken : filesKey key p = some next) : Tells p next := by
  rw [filesKey] at taken
  dsimp only at taken
  split at taken
  next =>
    cases taken
    exact (desktopFilesSelectNext_reported 1).marked
  next =>
    split at taken
    next =>
      cases taken
      exact (desktopFilesSelectNext_reported (-1)).marked
    next =>
      split at taken
      next =>
        cases taken
        refine Tells.trans (same_tells p _ ?_) (activateFiles_tells key.answers _)
        rfl
      next =>
        split at taken
        next =>
          cases taken
          exact activateFiles_tells key.answers p
        next =>
          split at taken
          next =>
            cases taken
            exact (desktopFilesDeleteSelected_reported key.answers).marked
          next =>
            split at taken
            next =>
              cases taken
              exact (desktopRefreshFilesPanel_refills key.answers p.rt).moves.changed
            next => cases taken

theorem moveWindow_moves (rt : DesktopState) (i : Fin windowCount) (x y : Int32) :
    Moves rt (moveWindow rt i x y) :=
  setWindow_moves (fun decorated => decorated.movedTo _ _) rfl

theorem windowKey_tells (key : KeyInput) (p : DesktopPoll) : Tells p (windowKey key p) := by
  rw [windowKey]
  split
  next => exact Tells.refl p
  next i _ =>
    split
    next => exact (moveWindow_moves p.rt i _ _).changed
    next =>
      split
      next => exact (moveWindow_moves p.rt i _ _).changed
      next =>
        split
        next => exact (moveWindow_moves p.rt i _ _).changed
        next =>
          split
          next => exact (moveWindow_moves p.rt i _ _).changed
          next =>
            split
            next => exact Moves.changed (setWindow_moves (fun decorated => decorated.themed _) rfl)
            next =>
              split
              next => exact (hideWindow_moves p.rt i).changed
              next => exact Tells.refl p

theorem unfocus_tells (p : DesktopPoll) : Tells p (p.changed { p.rt with activeIdx := -1 }) :=
  Moves.changed ⟨fun place => ⟨⟨place.stacked, place.dragging, place.decorated⟩, Or.inl rfl⟩,
    rfl, rfl, rfl⟩

theorem cycleFocusWindow_open {windows : Fin windowCount → DesktopWindow}
    {zOrder : Fin windowCount → Int32} {activeIdx : Int32}
    (found : windowIdx (cycleFocusWindow windows zOrder activeIdx) = some i) :
    (windows i).visible = true := by
  have isOpen : ∀ idx, idx = -1 ∨ isVisible windows idx = true → windowIdx idx = some i →
    (windows i).visible = true := by
    rintro idx (rfl | shown) isWindow
    · cases isWindow
    · rw [windowIdx_some isWindow, isVisible_ofNat] at shown
      exact shown
  have top := topVisibleWindow_open windows zOrder
  rw [cycleFocusWindow] at found
  dsimp only at found
  split at found
  next => exact isOpen _ (Or.inl rfl) found
  next =>
    split at found
    next => exact isOpen _ top found
    next =>
      refine isOpen _ ?_ found
      cases next : (zPosition zOrder activeIdx).bind fun pos =>
          ((List.range windowCount).map fun step =>
            zOrder ⟨(pos.val + (step + 1)) % windowCount, Nat.mod_lt _ (Nat.succ_pos _)⟩).find?
              (isVisible windows) with
      | none => exact top
      | some idx =>
          obtain ⟨pos, _, isNext⟩ := Option.bind_eq_some_iff.mp next
          exact Or.inr (List.find?_some isNext)

theorem cycleKey_tells (p : DesktopPoll) : Tells p (cycleKey p) := by
  rw [cycleKey]
  split
  next =>
    split
    next => exact unfocus_tells p
    next => exact Tells.refl p
  next i found => exact focusWindow_tells (cycleFocusWindow_open found)

theorem desktopKey_tells {key : KeyInput} (taken : desktopKey p key = some next) : Tells p next := by
  rw [desktopKey] at taken
  split at taken
  next => cases taken
  next =>
    split at taken
    next =>
      cases taken
      exact cycleKey_tells p
    next =>
      split at taken
      next =>
        cases taken
        exact shellKey_tells key p
      next =>
        split at taken
        next files =>
          cases taken
          split at files
          next => exact filesKey_tells files
          next => cases files
        next =>
          split at taken
          next => cases taken
          next =>
            split at taken
            next i _ =>
              cases taken
              exact toggleWindow_tells p i
            next =>
              cases taken
              exact windowKey_tells key p

theorem desktopPollKeyboard_tells {keys : List KeyInput}
    (polled : desktopPollKeyboard keys p = some next) : Tells p next := by
  induction keys generalizing p with
  | nil =>
      cases polled
      exact Tells.refl _
  | cons key keys ih =>
      rw [desktopPollKeyboard, List.foldlM_cons] at polled
      obtain ⟨middle, taken, rest⟩ := Option.bind_eq_some_iff.mp polled
      exact (desktopKey_tells taken).trans (ih rest)

theorem mouseMove_tells (event : MouseInput) (p : DesktopPoll) : Tells p (mouseMove event p) := by
  rw [mouseMove]
  split
  next =>
    refine ⟨fun place => ⟨⟨place.stacked, place.dragging, place.decorated⟩, place.active⟩,
      fun still => ⟨still, rfl⟩, fun still => ?_, Or.inl, rfl⟩
    cases still
  next => exact Tells.refl p

theorem pressEntry_tells (d : Display) (event : MouseInput) (p : DesktopPoll) (entryIdx : Nat) :
    Tells p (pressEntry d event p entryIdx) := by
  have selects := (@desktopFilesSelectAtPoint_reported p.rt d p.rt.cursorX p.rt.cursorY).marked
  rw [pressEntry]
  dsimp only
  split
  next =>
    refine selects.trans ((activateFiles_tells event.answers _).trans
      (Tells.trans (same_tells _ _ ?_) (stopDragging_tells _)))
    rfl
  next =>
    refine selects.trans (Tells.trans (same_tells _ _ ?_) (stopDragging_tells _))
    rfl

theorem hitTestWindow_open {windows : Fin windowCount → DesktopWindow}
    {zOrder : Fin windowCount → Int32} {x y : Int32}
    (hit : hitTestWindow windows zOrder x y = some i) : (windows i).visible = true := by
  obtain ⟨idx, -, found⟩ := List.exists_of_findSome?_eq_some hit
  rw [Option.filter_eq_some_iff, Bool.and_eq_true] at found
  exact found.2.1

theorem pressFrame_tells (d : Display) (p : DesktopPoll)
    (visible : (p.rt.windows i).visible = true) : Tells p (pressFrame d p i).2 := by
  rw [pressFrame]
  dsimp only
  split
  next => exact (hideWindow_moves p.rt i).changed
  next =>
    split
    next =>
      refine Moves.quiet ⟨fun place => ⟨⟨place.stacked, Or.inr ?_, place.decorated⟩, place.active⟩,
        rfl, rfl, rfl⟩ rfl
      exact (isVisible_ofNat _ i).trans visible
    next => exact stopDragging_tells p

theorem leftPress_tells (d : Display) (event : MouseInput) (p : DesktopPoll) :
    Tells p (leftPress d event p).2 := by
  rw [leftPress]
  split
  next i _ => exact pressIcon_tells p i
  next =>
    split
    next i hit =>
      have visible := hitTestWindow_open hit
      refine (focusWindow_tells visible).trans ?_
      dsimp only
      split
      next => exact pressEntry_tells d event _ _
      next => exact pressFrame_tells d _ visible
    next =>
      dsimp only
      refine Tells.trans ?_ (stopDragging_tells _)
      split
      next => exact unfocus_tells p
      next => exact Tells.refl p

theorem dragWindow_tells (p : DesktopPoll) : Tells p (dragWindow p) := by
  rw [dragWindow]
  split
  next => exact Tells.refl p
  next =>
    dsimp only
    split
    next => exact Moves.changed (setWindow_moves (fun decorated => decorated.movedTo _ _) rfl)
    next => exact Tells.refl p

theorem desktopMouse_tells (d : Display) (p : DesktopPoll) (event : MouseInput) :
    Tells p (desktopMouse d p event) := by
  have pressed : Tells p (if (event.changed &&& 1 != 0) && (event.buttons &&& 1 != 0) then
    leftPress d event (mouseMove event p)
      else (false, mouseMove event p)).2 := by
    split
    next => exact (mouseMove_tells event p).trans (leftPress_tells d event _)
    next => exact mouseMove_tells event p
  rw [desktopMouse]
  generalize (if (event.changed &&& 1 != 0) && (event.buttons &&& 1 != 0) then
    leftPress d event (mouseMove event p)
      else (false, mouseMove event p)) = outcome at pressed
  obtain ⟨ends, next⟩ := outcome
  dsimp only at pressed ⊢
  refine pressed.trans ?_
  split
  next => exact Tells.refl next
  next =>
    have released : Tells next (if (event.changed &&& 1 != 0) && !(event.buttons &&& 1 != 0) then
      stopDragging next else next) := by
      split
      next => exact stopDragging_tells next
      next => exact Tells.refl next
    generalize (if (event.changed &&& 1 != 0) && !(event.buttons &&& 1 != 0) then
      stopDragging next else next) = last at released ⊢
    refine released.trans ?_
    split
    next => exact dragWindow_tells _
    next => exact Tells.refl _

theorem desktopPollMouse_tells (d : Display) (events : List MouseInput) (p : DesktopPoll) :
    Tells p (desktopPollMouse d events p) := by
  induction events generalizing p with
  | nil => exact Tells.refl p
  | cons event events ih => exact (desktopMouse_tells d p event).trans (ih _)

theorem setWindow_unseen (rt : DesktopState) (closed : (rt.windows i).visible = false)
    (stays : w.visible = false) : (rt.setWindow i w).toDesktopSnapshot.shown =
    rt.toDesktopSnapshot.shown := by
  have windows : (fun j => ((rt.setWindow i w).windows j).shown j) = fun j =>
    (rt.windows j).shown j := by
    funext j
    change (Function.update rt.windows i w j).shown j = _
    by_cases here : j = i
    · subst here
      rw [Function.update_self, DesktopWindow.shown, DesktopWindow.shown, stays, closed]
      rfl
    · rw [Function.update_of_ne here]
  exact congrArg (fun windows => DesktopSnapshot.mk windows rt.zOrder rt.activeIdx) windows


theorem pumpShell_tells (answers : PumpAnswers) (p : DesktopPoll) : Tells p (pumpShell answers p) := by
  rw [pumpShell]
  dsimp only
  split
  next =>
    have pumped : Moves p.rt { p.rt with shellState := (shellPumpExternal answers p.rt.shellState).2
      } := same_moves _ _ rfl
    exact (pumped.trans (syncShellWindow_refills _).moves).marked fun hidden =>
      setWindow_unseen { p.rt with shellState := (shellPumpExternal answers p.rt.shellState).2 } hidden hidden
  next => exact same_tells p _ rfl

theorem refreshPanels_tells (answers : PanelAnswers) (p : DesktopPoll) :
    Tells p (refreshPanels answers p) :=
  (desktopRefreshDynamicPanels_reported answers).marked

end Reports

end Szczupak
