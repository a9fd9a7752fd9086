import Szczupak.Desktop.PanelsCore

/-!
What the panels and the shell do to the windows: they fill them with other lines, and say so.
-/

namespace Szczupak

structure Refilled (w next : DesktopWindow) : Prop where
  win : next.win = w.win
  themeIdx : next.themeIdx = w.themeIdx
  visible : next.visible = w.visible
  lines : w.lines.length ≤ panelLineMax → next.lines.length ≤ panelLineMax

structure Refills (rt next : DesktopState) : Prop where
  windows : ∀ i, Refilled (rt.windows i) (next.windows i)
  zOrder : next.zOrder = rt.zOrder
  activeIdx : next.activeIdx = rt.activeIdx
  cursorX : next.cursorX = rt.cursorX
  cursorY : next.cursorY = rt.cursorY
  draggingIdx : next.draggingIdx = rt.draggingIdx
  cursorSave : next.cursorSave = rt.cursorSave

structure Reported (rt : DesktopState) (changed : Bool) (next : DesktopState) : Prop where
  refills : Refills rt next
  quiet : changed = false → next.toDesktopRuntime = rt.toDesktopRuntime

section Refills

variable {rt next last : DesktopState} {w middle : DesktopWindow} {i : Fin windowCount}

theorem Refilled.refl (w : DesktopWindow) : Refilled w w := ⟨rfl, rfl, rfl, id⟩

theorem Refilled.trans {last : DesktopWindow} (first : Refilled w middle)
    (second : Refilled middle last) : Refilled w last :=
  ⟨second.win.trans first.win, second.themeIdx.trans first.themeIdx,
    second.visible.trans first.visible, fun few => second.lines (first.lines few)⟩

theorem Refills.of_same (same : next.toDesktopRuntime = rt.toDesktopRuntime) : Refills rt next where
  windows i := by
    rw [same]
    exact Refilled.refl _
  zOrder := by rw [same]
  activeIdx := by rw [same]
  cursorX := by rw [same]
  cursorY := by rw [same]
  draggingIdx := by rw [same]
  cursorSave := by rw [same]

theorem Refills.trans (first : Refills rt next) (second : Refills next last) : Refills rt last where
  windows i := (first.windows i).trans (second.windows i)
  zOrder := second.zOrder.trans first.zOrder
  activeIdx := second.activeIdx.trans first.activeIdx
  cursorX := second.cursorX.trans first.cursorX
  cursorY := second.cursorY.trans first.cursorY
  draggingIdx := second.draggingIdx.trans first.draggingIdx
  cursorSave := second.cursorSave.trans first.cursorSave

theorem setWindow_refills (refilled : Refilled (rt.windows i) w) : Refills rt (rt.setWindow i w) where
  windows j := by
    change Refilled (rt.windows j) (Function.update rt.windows i w j)
    by_cases here : j = i
    · subst here
      rwa [Function.update_self]
    · rw [Function.update_of_ne here]
      exact Refilled.refl _
  zOrder := rfl
  activeIdx := rfl
  cursorX := rfl
  cursorY := rfl
  draggingIdx := rfl
  cursorSave := rfl

theorem Reported.same {changed : Bool} (same : next.toDesktopRuntime = rt.toDesktopRuntime) :
    Reported rt changed next :=
  ⟨Refills.of_same same, fun _ => same⟩

theorem Refills.reported (refills : Refills rt next) : Reported rt true next :=
  ⟨refills, fun quiet => by cases quiet⟩

end Refills

section Panels

variable {rt : DesktopState}

theorem shellRefreshView_few (shell : WindowShell) :
    (shellRefreshView shell).length ≤ panelLineMax := by
  rw [shellRefreshView]
  rw [List.length_append, List.length_map, List.length_range, List.length_singleton]
  split
  next => exact Nat.le_refl _
  next few => exact Nat.succ_le_succ (Nat.le_of_not_gt few)

theorem syncShellWindow_refills (rt : DesktopState) : Refills rt (syncShellWindow rt) := by
  refine setWindow_refills ⟨rfl, rfl, rfl, fun _ => ?_⟩
  rw [shellSyncWindow, List.length_map]
  exact shellRefreshView_few _

theorem filesPanelView_few (cwd : List UInt8) (panel : FilesPanel) :
    (filesPanelView cwd panel).lines.length ≤ panelLineMax := by
  have slots : panelLineMax = 2 + filesVisibleSlots := rfl
  have someSlots : 1 ≤ filesVisibleSlots := by decide
  rw [filesPanelView]
  dsimp only
  rw [List.length_append, List.length_cons, List.length_singleton, slots]
  have rows : ∀ rows : List (List UInt8), rows.length ≤ filesVisibleSlots →
      (if rows = [] then [cText "  (empty)"] else rows).length ≤ filesVisibleSlots := by
    intro rows few
    split
    next => exact someSlots
    next => exact few
  refine Nat.add_le_add_left (rows _ ?_) 2
  rw [List.length_map, List.length_take]
  exact Nat.min_le_left _ _

theorem filesRebuildView_refills (rt : DesktopState) : Refills rt (filesRebuildView rt) := by
  refine Refills.trans (Refills.of_same ?_) (setWindow_refills ⟨rfl, rfl, rfl, fun _ => ?_⟩)
  · rfl
  · rw [List.length_map]
    exact filesPanelView_few _ _

theorem filesRebuildView_files (rt : DesktopState) (files : FilesPanel) :
    Refills rt (filesRebuildView { rt with files }) := by
  refine Refills.trans (Refills.of_same ?_) (filesRebuildView_refills _)
  rfl

theorem desktopRefreshFilesPanel_refills (answers : ShellAnswers) (rt : DesktopState) :
    Refills rt (desktopRefreshFilesPanel answers rt) := by
  rw [desktopRefreshFilesPanel]
  cases answers.listdir rt.shellState.cwd with
  | none => exact filesRebuildView_files rt _
  | some listing => exact filesRebuildView_files rt _

theorem filesSelect_reported (entryIdx : Int) :
    Reported rt (filesSelect rt entryIdx).1 (filesSelect rt entryIdx).2 := by
  rw [filesSelect]
  split
  next => exact Reported.same rfl
  next => exact (filesRebuildView_files rt _).reported

theorem desktopFilesSelectNext_reported (delta : Int) :
    Reported rt (desktopFilesSelectNext rt delta).1 (desktopFilesSelectNext rt delta).2 := by
  rw [desktopFilesSelectNext]
  split
  next => exact Reported.same rfl
  next => exact filesSelect_reported _

theorem desktopFilesSelectAtPoint_reported (d : Display) (x y : Int32) :
    Reported rt (desktopFilesSelectAtPoint d rt x y).1 (desktopFilesSelectAtPoint d rt x y).2 := by
  rw [desktopFilesSelectAtPoint]
  split
  next => exact Reported.same rfl
  next => exact filesSelect_reported _

theorem filesOpened_refills (answers : ShellAnswers) {opened : Bool × DesktopState} (status : String)
    (same : opened.2.toDesktopRuntime = rt.toDesktopRuntime) : Refills rt
    (filesOpened answers opened status) := by
  have told : Refills rt (filesSetStatus opened.2 status) := Refills.of_same same
  rw [filesOpened]
  split
  next => exact (told.trans (syncShellWindow_refills _)).trans (desktopRefreshFilesPanel_refills
    answers _)
  next => exact told.trans (desktopRefreshFilesPanel_refills answers _)

theorem filesApplyCwd_same (rt : DesktopState) (newCwd : List UInt8) :
    (filesApplyCwd rt newCwd).2.toDesktopRuntime = rt.toDesktopRuntime := by
  rw [filesApplyCwd]
  split
  next => rfl
  next => rfl

theorem filesOpenEntry_refills (answers : ShellAnswers) (rt : DesktopState) (entry : FilesEntry) :
    Refills rt (filesOpenEntry answers rt entry).2 := by
  rw [filesOpenEntry]
  dsimp only
  split
  next => exact filesOpened_refills answers _ (filesApplyCwd_same rt _)
  next =>
    split
    next =>
      split
      next => exact filesOpened_refills answers _ (filesApplyCwd_same rt _)
      next => exact desktopRefreshFilesPanel_refills answers rt
    next =>
      split
      next => exact filesRebuildView_files rt _
      next =>
        split
        next => exact filesRebuildView_files rt _
        next =>
          refine Refills.trans (Refills.of_same ?_)
            ((syncShellWindow_refills _).trans (filesRebuildView_files _ _))
          rfl

theorem desktopFilesDeleteSelected_reported (answers : ShellAnswers) :
    Reported rt (desktopFilesDeleteSelected answers rt).1
    (desktopFilesDeleteSelected answers rt).2 := by
  rw [desktopFilesDeleteSelected]
  split
  next => exact Reported.same rfl
  next entry =>
    split
    next => exact (filesRebuildView_files rt _).reported
    next =>
      split
      next => exact (filesRebuildView_files rt _).reported
      next =>
        refine Refills.reported (Refills.trans (Refills.of_same ?_)
          (desktopRefreshFilesPanel_refills answers _))
        rfl

theorem panelAddLine_few {lines : List (List UInt8)} (few : lines.length ≤ panelLineMax)
    (text : List UInt8) : (panelAddLine lines text).length ≤ panelLineMax := by
  rw [panelAddLine]
  split
  next => exact few
  next room =>
    rw [List.length_append, List.length_singleton]
    omega

theorem desktopRefreshNetworkPanel_refills (answers : NetAnswers) (rt : DesktopState) :
    Refills rt (desktopRefreshNetworkPanel answers rt) := by
  have few : ∀ texts lines : List (List UInt8), lines.length ≤ panelLineMax →
      (texts.foldl panelAddLine lines).length ≤ panelLineMax := by
    intro texts
    induction texts with
    | nil => exact fun _ few => few
    | cons text texts ih => exact fun lines few => ih _ (panelAddLine_few few text)
  rw [desktopRefreshNetworkPanel]
  dsimp only
  refine Refills.trans (Refills.of_same ?_) (setWindow_refills ⟨rfl, rfl, rfl, fun _ => ?_⟩)
  · rfl
  · rw [List.length_map]
    exact few _ _ (Nat.zero_le _)

theorem refreshOpen_reported {state : Bool × DesktopState} {refresh : DesktopState → DesktopState}
    (reported : Reported rt state.1 state.2) (refills : ∀ rt, Refills rt (refresh rt)) (looked : Bool) :
    Reported rt (refreshOpen looked refresh state).1 (refreshOpen looked refresh state).2 := by
  rw [refreshOpen]
  split
  next => exact (reported.refills.trans (refills state.2)).reported
  next => exact reported

theorem desktopRefreshDynamicPanels_reported (answers : PanelAnswers) :
    Reported rt (desktopRefreshDynamicPanels answers rt).1
    (desktopRefreshDynamicPanels answers rt).2 := by
  have files := @refreshOpen_reported rt (false, rt) _ (Reported.same rfl)
    (desktopRefreshFilesPanel_refills answers.shell)
  have both := fun looked => refreshOpen_reported (files looked)
    (desktopRefreshNetworkPanel_refills answers.net)
  rw [desktopRefreshDynamicPanels]
  dsimp only
  split
  next => exact ⟨(both _ _).refills.trans (Refills.of_same rfl), (both _ _).quiet⟩
  next => exact both _ _

end Panels

end Szczupak
