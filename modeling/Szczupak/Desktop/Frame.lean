import Szczupak.Desktop.Changes

/-!
A frame of the desktop: from the full picture of the state before, with the cursor over it, to
that of the state after.
-/

namespace Szczupak

/-- The screen shows the desktop with the cursor over it, and what is under the cursor is kept. -/
structure Shows (d : Display) (s : DesktopSnapshot) (x y : Int32) (save : CursorSave)
    (buffer : Framebuffer) : Prop where
  screen : SameScreen d buffer (paint (GuiCall.ink d) (drawCursor d x y) (fullPicture d s))
  saved : save = cursorCaptureUnder d (fullPicture d s) x y

structure Reports (prev : DesktopSnapshot) (x y : Int32) (rt : DesktopRuntime)
    (frame : DesktopFrameState) : Prop where
  scene : rt.toDesktopSnapshot ≠ prev → frame.sceneChanged = true
  cursor : rt.cursorX ≠ x ∨ rt.cursorY ≠ y → frame.cursorChanged = true

section Repairs

variable {fb : FbInfo} {state : Bool × DesktopRuntime} {rt : DesktopRuntime}

theorem unchanged {changes : Bool} {next : DesktopRuntime}
    (kept : (if changes = true then (true, next) else state).1 = false) :
    (if changes = true then (true, next) else state) = state := by
  cases changes with
  | false => rfl
  | true => cases kept

theorem repairZOrder_kept (kept : (repairZOrder rt).1 = false) : repairZOrder rt = (false, rt) := by
  cases broken : zOrderBroken ((List.finRange windowCount).map rt.zOrder) [] with
  | false => simp [repairZOrder, sanitizeZOrder, broken]
  | true => simp [repairZOrder, sanitizeZOrder, broken] at kept

theorem repairActive_kept (kept : (repairActive state).1 = false) : repairActive state = state ∧
    ∀ i, windowIdx state.2.activeIdx = some i → (state.2.windows i).visible = true := by
  obtain ⟨changed, rt⟩ := state
  cases missing : (windowIdx rt.activeIdx).isNone && rt.activeIdx != -1 with
  | true =>
      simp only [repairActive, missing, if_true] at kept
      split at kept
      · cases kept
      · cases kept
  | false =>
      simp only [repairActive, missing, Bool.false_eq_true, if_false] at kept ⊢
      cases closed : (windowIdx rt.activeIdx).isSome && indexClosed rt.windows rt.activeIdx with
      | true => simp [closed] at kept
      | false =>
          refine ⟨by simp, fun i active => ?_⟩
          simpa [active, indexClosed] using closed

theorem repairDragging_kept (kept : (repairDragging state).1 = false) : repairDragging state = state :=
  unchanged kept

theorem repairCursor_kept (kept : (repairCursor fb state).1 = false) : repairCursor fb state = state :=
  unchanged kept

theorem sanitizeRuntimeState_kept (fb : FbInfo) (rt : DesktopRuntime)
    (kept : (sanitizeRuntimeState fb rt).1 = false) :
    (sanitizeRuntimeState fb rt).2 = rt ∧ ∀ i, windowIdx rt.activeIdx = some i →
    (rt.windows i).visible = true := by
  rw [sanitizeRuntimeState] at kept ⊢
  have cursor := repairCursor_kept kept
  rw [cursor] at kept ⊢
  have dragging := repairDragging_kept kept
  rw [dragging] at kept ⊢
  obtain ⟨active, visible⟩ := repairActive_kept kept
  rw [active] at kept ⊢
  have zOrder := repairZOrder_kept kept
  rw [zOrder] at visible ⊢
  exact ⟨rfl, visible⟩

def SameWindows (before after : DesktopRuntime) : Prop :=
  after.windows = before.windows ∧ after.cursorSave = before.cursorSave

theorem SameWindows.trans {before middle after : DesktopRuntime} (first : SameWindows before middle)
    (second : SameWindows middle after) : SameWindows before after :=
  ⟨second.1.trans first.1, second.2.trans first.2⟩

theorem sameWindows_ite {changes : Bool} {next : DesktopRuntime} (same : SameWindows state.2 next) :
    SameWindows state.2 (if changes = true then (true, next) else state).2 := by
  cases changes with
  | false => exact ⟨rfl, rfl⟩
  | true => exact same

theorem repairZOrder_keeps : SameWindows rt (repairZOrder rt).2 := by
  cases repaired : sanitizeZOrder rt.zOrder with
  | mk changed zOrder =>
      rw [repairZOrder, repaired]
      exact ⟨rfl, rfl⟩

theorem repairActive_keeps : SameWindows state.2 (repairActive state).2 := by
  obtain ⟨changed, rt⟩ := state
  cases missing : (windowIdx rt.activeIdx).isNone && rt.activeIdx != -1 with
  | true =>
      simp only [repairActive, missing, if_true]
      split
      · exact ⟨rfl, rfl⟩
      · exact ⟨rfl, rfl⟩
  | false =>
      simp only [repairActive, missing, Bool.false_eq_true, if_false]
      split
      · exact ⟨rfl, rfl⟩
      · exact ⟨rfl, rfl⟩

theorem repairDragging_keeps : SameWindows state.2 (repairDragging state).2 :=
  sameWindows_ite ⟨rfl, rfl⟩

theorem repairCursor_keeps : SameWindows state.2 (repairCursor fb state).2 :=
  sameWindows_ite ⟨rfl, rfl⟩

theorem sanitizeRuntimeState_keeps (fb : FbInfo) (rt : DesktopRuntime) :
    SameWindows rt (sanitizeRuntimeState fb rt).2 := by
  rw [sanitizeRuntimeState]
  exact repairZOrder_keeps.trans
    (repairActive_keeps.trans (repairDragging_keeps.trans repairCursor_keeps))

end Repairs

section Dirty

variable {d : Display} {prev : DesktopSnapshot} {rt : DesktopRuntime} {scene full : Bool}

theorem dirtyRun_full {calls : List DirtyCall} {dirty : DirtySet} (given : dirty.fullRedraw = true) :
    runActions (dirtyAdd dirtyTurns) dirty calls = some dirty := by
  induction calls with
  | nil => rfl
  | cons call calls ih => rw [runActions, dirtyAdd, if_pos given]; exact ih

theorem frameDirty_spec (full : Bool) (sound : d.Sound)
    (small : ∀ rect ∈ frameDirtyRects d prev rt.toDesktopSnapshot scene, rect.Small) :
    ∃ dirty, frameDirty d prev rt scene full = some dirty ∧ (dirty.fullRedraw = true ∨
      full = false ∧ ∃ added, (∀ rect ∈ frameDirtyRects d prev rt.toDesktopSnapshot scene,
        DirtyCall.mk d.fb rect ∈ added) ∧
        Regions d.fb.width.toNat d.fb.height.toNat added dirty.rects) := by
  have width := sound.screen.width
  have height := sound.screen.height
  have fits : ∀ rect : Rect, rect.Small →
    (DirtyCall.mk d.fb rect).Fits d.fb.width.toNat d.fb.height.toNat :=
    fun rect small => ⟨small.sumsFit, Nat.le_refl _, Nat.le_refl _⟩
  obtain ⟨calls, callsEq⟩ : ∃ calls,
      (frameDirtyRects d prev rt.toDesktopSnapshot scene).map (DirtyCall.mk d.fb) = calls := ⟨_, rfl⟩
  have added : ∀ rect ∈ frameDirtyRects d prev rt.toDesktopSnapshot scene,
    DirtyCall.mk d.fb rect ∈ calls :=
    fun rect member => callsEq ▸ List.mem_map_of_mem member
  have callsFit : ∀ call ∈ calls, call.Fits d.fb.width.toNat d.fb.height.toNat := by
    intro call member
    rw [← callsEq] at member
    obtain ⟨rect, placed, rfl⟩ := List.mem_map.mp member
    exact fits rect (small rect placed)
  obtain ⟨first, ran, kept⟩ : ∃ first,
      runActions (dirtyAdd dirtyTurns) { dirtyInit with fullRedraw := full } calls = some first ∧
        (first.fullRedraw = true ∨
          full = false ∧ Regions d.fb.width.toNat d.fb.height.toNat calls first.rects) := by
    cases full with
    | true => exact ⟨_, dirtyRun_full rfl, Or.inl rfl⟩
    | false =>
        obtain ⟨first, ran, kept⟩ := dirtyRun_spec (Nat.le_refl dirtyTurns) (by omega)
          (by omega) callsFit (Or.inr (a := dirtyInit.fullRedraw = true) Regions.none)
        exact ⟨first, ran, kept.imp id fun regions => ⟨rfl, regions⟩⟩
  rw [frameDirty, callsEq]
  simp only [ran, Option.bind_eq_bind, Option.bind_some]
  cases dragged : (windowIdx rt.draggingIdx).isSome && scene with
  | true => exact ⟨⟨[], true⟩, by simp, Or.inl rfl⟩
  | false =>
      simp only [Bool.false_eq_true, if_false]
      cases nothing : scene && !first.fullRedraw && first.rects.isEmpty with
      | false =>
          simp only [Bool.false_eq_true, if_false]
          exact ⟨first, rfl, kept.imp id fun regions => ⟨regions.1, calls, added, regions.2⟩⟩
      | true =>
          simp only [if_true]
          have partly : full = false ∧ Regions d.fb.width.toNat d.fb.height.toNat calls first.rects := by
            refine kept.resolve_left fun given => ?_
            simp [given] at nothing
          obtain ⟨last, stepped, lastKept⟩ := dirtyAdd_spec (Nat.le_refl dirtyTurns) (by omega) (by omega)
            (fits _ (fullRect_small sound.screen)) (Or.inr (a := first.fullRedraw = true) partly.2)
          refine ⟨last, stepped, lastKept.imp id fun regions => ⟨partly.1, _, ?_, regions⟩⟩
          exact fun rect member => List.mem_append_left _ (added rect member)

theorem frameDirty_nothing (same : rt.toDesktopSnapshot = prev) :
    frameDirty d prev rt false false = some { rects := [], fullRedraw := false } := by
  have none : frameDirtyRects d prev rt.toDesktopSnapshot false = [] := by
    have still : ∀ i, windowDirty prev prev i = [] := by
      intro i
      cases visible : (prev.windows i).visible with
      | true => simp [windowDirty, visible, windowGeometryChanged, windowStyleChanged]
      | false => simp [windowDirty, visible]
    simp [same, frameDirtyRects, still, zOrderChanged, iconDirty]
  rw [frameDirty, none]
  simp [runActions, dirtyInit]

end Dirty

/-- What a frame that paints regions needs: the active window was open, windows keep their style,
texts stay near, no text is left out of a region, and no character that crosses the edge of a
region has anything drawn over its part outside. -/
structure PartHolds (d : Display) (prev rt : DesktopSnapshot) (rects : List Rect) : Prop where
  wasOpen : ActiveOpen prev
  style : ∀ i, StyleKept (prev.windows i) (rt.windows i)
  near : TextNear d prev
  stillNear : TextNear d rt
  held : ∀ rect ∈ rects, RegionHeld d rt (expandRepaintRegion d rect)
  uncovered : ∀ rect ∈ rects, Uncovered (GuiCall.ink d)
    (fun point => (expandRepaintRegion d rect).Has point.1 point.2)
    (GuiCall.crosses d (expandRepaintRegion d rect)) (rt.repaint d (fullRect d.fb))

structure RepaintHolds (d : Display) (prev : DesktopSnapshot) (rt : DesktopRuntime)
    (frame : DesktopFrameState) : Prop where
  display : d.Sound
  before : ∀ i, (prev.windows i).Modest
  after : ∀ i, (rt.windows i).Modest
  overlay : frame.cursorChanged = true ∨ frame.sceneChanged = true ∨
    frame.forceFullRedraw = false ∧ (sanitizeRuntimeState d.fb rt).1 = false
  part : frame.sceneChanged = true → frame.forceFullRedraw = false →
    (sanitizeRuntimeState d.fb rt).1 = false →
    ∀ dirty, frameDirty d prev rt true false = some dirty → dirty.fullRedraw = false →
      PartHolds d prev rt.toDesktopSnapshot dirty.rects

section Frame

variable {d : Display} {prev : DesktopSnapshot} {rt : DesktopRuntime} {frame : DesktopFrameState}
  {buffer : Framebuffer} {dirty : DirtySet} {now : DesktopSnapshot}

theorem frameDirtyRects_small (scene : Bool) (sound : d.Sound)
    (before : ∀ i, (prev.windows i).Modest) (after : ∀ i, (now.windows i).Modest) :
    ∀ rect ∈ frameDirtyRects d prev now scene, rect.Small := by
  have opened : ∀ (place : DesktopWindow → Rect) (i : Fin windowCount) (rect : Rect),
    (∀ w : DesktopWindow, w.Modest →
      (place w).Small) → rect ∈ openDirty place prev now i → rect.Small := by
    intro place i rect small member
    simp only [openDirty, List.mem_append, List.mem_ite_nil_right, List.mem_singleton] at member
    rcases member with ⟨_, rfl⟩ | ⟨_, rfl⟩
    · exact small _ (before i)
    · exact small _ (after i)
  intro rect member
  simp only [frameDirtyRects, List.mem_append, List.mem_ite_nil_right, List.mem_flatMap,
    List.mem_singleton] at member
  rcases member with (((⟨i, _, dirty⟩ | ⟨_, i, _, dirty⟩) | ⟨_, rfl⟩) | ⟨i, _, dirty⟩) | ⟨_, i, _,
    dirty⟩
  · have small := windowRect_small (before i)
    have small' := windowRect_small (after i)
    rw [windowDirty] at dirty
    grind
  · exact opened _ i rect (fun w modest => windowRect_small modest) dirty
  · exact desktopTopRect_small sound.screen
  · rw [iconDirty] at dirty
    have small : (iconRect i).Small := (iconRect_parts i).1.bounded.small
    grind
  · exact opened _ i rect
      (fun w modest => (windowBodyRect_held sound modest modest.notNarrow modest.notLow).small.small) dirty

theorem paintDirty_full (screen : d.fb.Small) (given : dirty.fullRedraw = true) :
    SameScreen d (paintDirty d now dirty buffer) (fullPicture d now) := by
  intro point has
  rw [paintDirty, if_pos given, fullPicture]
  exact paint_covered (repaint_covers screen has)

theorem paintDirty_regions (sound : d.Sound) (before : ∀ i, (prev.windows i).Modest)
    (after : ∀ i, (now.windows i).Modest) (openNow : ActiveOpen now) {added : List DirtyCall}
    (dirtied : ∀ rect ∈ frameDirtyRects d prev now true, DirtyCall.mk d.fb rect ∈ added)
    (regions : Regions d.fb.width.toNat d.fb.height.toNat added dirty.rects)
    (partly : dirty.fullRedraw = false)
    (holds : PartHolds d prev now dirty.rects) (shown : SameScreen d buffer (fullPicture d prev)) :
    SameScreen d (paintDirty d now dirty buffer) (fullPicture d now) := by
  intro point has
  have clipped : ∀ rect ∈ dirty.rects, clipToFb d.fb (expandRepaintRegion d rect) =
    expandRepaintRegion d rect :=
    fun rect member => clipToFb_again sound.screen (rectExpand_small sound (regions.inside rect member))
  rw [paintDirty, if_neg (by simp [partly])]
  refine repaint_regions (fun rect member => ?_) holds.uncovered (repaint_covers sound.screen has) ?_
  · have small := clipToFb_small sound.screen (rectExpand_small sound (regions.inside rect member))
    have cuts := repaint_cuts (expandRepaintRegion d rect) sound after small
      ((clipped rect member).symm ▸ holds.held rect member)
    rwa [clipped rect member] at cuts
  · by_cases inRegion : ∃ rect ∈ dirty.rects, (expandRepaintRegion d rect).Has point.1 point.2
    · exact Or.inr inRegion
    · left
      have clear : Clear d prev now point := by
        intro rect member reached
        exact inRegion (reached_painted sound regions (dirtied rect member) has reached)
      have same := repaint_same sound before after holds.near holds.stillNear holds.style
        holds.wasOpen openNow clear
      rw [shown point has, fullPicture, paint_apply, paint_apply, same]

theorem paintDirty_picture (holds : RepaintHolds d prev rt frame) {x y : Int32}
    (reports : Reports prev x y rt frame)
    {repaired : Bool} {now : DesktopRuntime} (repair : sanitizeRuntimeState d.fb rt = (repaired, now))
    (found : frameDirty d prev now frame.sceneChanged (frame.forceFullRedraw || repaired) =
    some dirty) (shown : SameScreen d buffer (fullPicture d prev)) :
    SameScreen d (paintDirty d now.toDesktopSnapshot dirty buffer)
    (fullPicture d now.toDesktopSnapshot) := by
  have sound := holds.display
  have keeps := sanitizeRuntimeState_keeps d.fb rt
  have kept := sanitizeRuntimeState_kept d.fb rt
  have partHolds := holds.part
  rw [repair] at keeps kept partHolds
  have after : ∀ i, (now.windows i).Modest := fun i => keeps.1 ▸ holds.after i
  cases given : dirty.fullRedraw with
  | true => exact paintDirty_full sound.screen given
  | false =>
      obtain ⟨same, exists_, outcome⟩ := frameDirty_spec (frame.forceFullRedraw || repaired) sound
        (frameDirtyRects_small frame.sceneChanged sound holds.before after)
      cases found.symm.trans exists_
      obtain ⟨part, added, dirtied, regions⟩ := outcome.resolve_left (by simp [given])
      obtain ⟨unforced, unrepaired⟩ := Bool.or_eq_false_iff.mp part
      obtain ⟨still, openNow⟩ := kept unrepaired
      change now = rt at still
      subst still
      cases scene : frame.sceneChanged with
      | true =>
          rw [scene] at found dirtied
          rw [part] at found
          exact paintDirty_regions sound holds.before after openNow dirtied regions given
            (partHolds scene unforced unrepaired dirty found given) shown
      | false =>
          have unchanged : now.toDesktopSnapshot = prev := by
            by_contra changed
            rw [reports.scene changed] at scene
            cases scene
          rw [scene, part, frameDirty_nothing unchanged] at found
          cases found
          rw [unchanged]
          exact shown

end Frame

def GuiCall.keptIn (d : Display) (c : Rect) : GuiCall → Bool
  | .drawChar x y _ _ _ =>
      let cell := charCell d x.toInt32 y.toInt32
      !rectIntersects c cell || c.x.toInt ≤ cell.x.toInt && cell.x.toInt + cell.w.toInt ≤
      c.x.toInt + c.w.toInt &&
        c.y.toInt ≤ cell.y.toInt && cell.y.toInt + cell.h.toInt ≤ c.y.toInt + c.h.toInt
  | _ => true

theorem uncovered_of_kept {d : Display} (sound : d.Sound) {c : Rect} {calls : List GuiCall}
    (kept : calls.all (GuiCall.keptIn d c) = true) :
    Uncovered (GuiCall.ink d) (fun point => c.Has point.1 point.2) (GuiCall.crosses d c) calls := by
  refine Uncovered.of_inside fun call member crossing point touched => ?_
  have fits := List.all_eq_true.mp kept call member
  cases call with
  | fillRect x y w h color => exact crossing.elim
  | putpixel x y color => exact crossing.elim
  | drawChar x y ch fg bg =>
      change rectIntersects c (charCell d x.toInt32 y.toInt32) = true at crossing
      simp only [GuiCall.keptIn, crossing, Bool.not_true, Bool.false_or, Bool.and_eq_true,
        decide_eq_true_eq] at fits
      have reached : _ ∧ (charCell d x.toInt32 y.toInt32).Has point.1 point.2 := drawChar_cell sound touched
      obtain ⟨_, hasLeft, hasRight, hasTop, hasBottom⟩ := reached
      exact ⟨by omega, by omega, by omega, by omega⟩

def plainDisplay : Display where
  fb := ⟨1024, 768⟩
  layout := { indexed := false, redSize := 8, greenSize := 8, blueSize := 8 }
  font := { glyphs := none, metrics := ⟨8, 16, 256⟩ }

theorem plainDisplay_sound : plainDisplay.Sound where
  screen := ⟨by decide, by decide⟩
  font := ⟨by decide, by decide, by decide, fun _ => rfl⟩

end Szczupak
