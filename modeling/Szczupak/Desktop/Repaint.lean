import Szczupak.Desktop.Shown

/-!
Exactly when a frame shows the new desktop: on every pixel of the screen the last call that draws
there has to be the right one.
-/

namespace Szczupak

def leftColour (d : Display) (calls : List GuiCall) (point : Int × Int) : Option FbPixel :=
  (coloursAt (GuiCall.ink d) calls point).getLast?

def regionCalls (d : Display) (now : DesktopSnapshot) (rects : List Rect) : List GuiCall :=
  rects.flatMap fun rect => now.repaint d (expandRepaintRegion d rect)

/-- A pixel that the regions draw on is left as a full repaint leaves it, and the full repaints of
both states leave the same on every other pixel. -/
def RegionsRight (d : Display) (prev now : DesktopSnapshot) (rects : List Rect) : Prop :=
  ∀ point : Int × Int, d.fb.Has point.1 point.2 → leftColour d (now.repaint d (fullRect d.fb)) point =
    (leftColour d (regionCalls d now rects) point).or
    (leftColour d (prev.repaint d (fullRect d.fb)) point)

/-- A full repaint that leaves out the cursor shows it all the same, and over the pixels that were
kept for the cursor before. -/
structure CursorKept (d : Display) (prev : DesktopSnapshot) (x y : Int32)
    (now : DesktopRuntime) : Prop where
  shown : ∀ point : Int × Int, d.fb.Has point.1 point.2 →
    leftColour d (now.repaint d (fullRect d.fb)) point =
      leftColour d (now.repaint d (fullRect d.fb) ++ drawCursor d now.cursorX now.cursorY) point
  kept : cursorCaptureUnder d (fullPicture d prev) x y =
    cursorCaptureUnder d (fullPicture d now.toDesktopSnapshot) now.cursorX now.cursorY

/-- A frame that takes the cursor off and puts it back may paint regions only where these show the
new state rightly; one that does not may paint only where the cursor is seen all the same. -/
structure RepaintRight (d : Display) (prev : DesktopSnapshot) (x y : Int32) (rt : DesktopRuntime)
    (frame : DesktopFrameState) : Prop where
  overlay : (frame.cursorChanged || frame.sceneChanged) = true →
    ∃ dirty, frameDirty d prev (sanitizeRuntimeState d.fb rt).2 frame.sceneChanged
        (frame.forceFullRedraw || (sanitizeRuntimeState d.fb rt).1) = some dirty ∧
      (dirty.fullRedraw = false →
        RegionsRight d prev (sanitizeRuntimeState d.fb rt).2.toDesktopSnapshot dirty.rects)
  bare : (frame.cursorChanged || frame.sceneChanged) = false →
    (frame.forceFullRedraw || (sanitizeRuntimeState d.fb rt).1) = true →
    CursorKept d prev x y (sanitizeRuntimeState d.fb rt).2

def FrameShows (d : Display) (prev : DesktopSnapshot) (rt : DesktopRuntime)
    (frame : DesktopFrameState) (buffer : Framebuffer) : Prop :=
  ∃ next after, desktopRenderFrame d rt prev frame buffer = some (next, after) ∧
    next = { (sanitizeRuntimeState d.fb rt).2 with cursorSave := next.cursorSave } ∧
    Shows d next.toDesktopSnapshot next.cursorX next.cursorY next.cursorSave after

section Pixels

variable {d : Display} {prev now : DesktopSnapshot} {x y : Int32}
  {painted picture buffer : Framebuffer} {point : Int × Int} {rects : List Rect}

theorem paint_left (calls : List GuiCall) :
    paint (GuiCall.ink d) calls picture point = (leftColour d calls point).getD (picture point) :=
  paint_apply calls picture point

theorem full_left (screen : d.fb.Small) (s : DesktopSnapshot) (has : d.fb.Has point.1 point.2) :
    leftColour d (s.repaint d (fullRect d.fb)) point = some (fullPicture d s point) := by
  have covered := repaint_covers (s := s) screen has
  rw [fullPicture, paint_left, leftColour, List.getLast?_eq_some_getLast covered, Option.getD_some]

theorem paint_regionCalls : rects.foldl (fun buffer rect =>
    paint (GuiCall.ink d) (now.repaint d (expandRepaintRegion d rect)) buffer) buffer =
      paint (GuiCall.ink d) (regionCalls d now rects) buffer := by
  induction rects generalizing buffer with
  | nil => rfl
  | cons rect rects ih => rw [List.foldl_cons, ih, ← paint_append]; rfl

theorem paint_packed (calls : List GuiCall) (packed : Packed d picture) :
    Packed d (paint (GuiCall.ink d) calls picture) := by
  intro point has
  rw [paint_apply]
  cases colours : coloursAt (GuiCall.ink d) calls point with
  | nil => exact packed point has
  | cons colour rest =>
      have written : coloursAt (GuiCall.ink d) calls point ≠ [] := colours ▸ List.cons_ne_nil _ _
      rw [← colours, List.getLast?_eq_some_getLast written, Option.getD_some]
      obtain ⟨call, _, ink⟩ := mem_coloursAt.mp (List.getLast_mem written)
      exact ink_packed ink

theorem picture_of_capture (screen : d.fb.Small) (paintedPacked : Packed d painted)
    (packed : Packed d picture)
    (beside : SameScreen d (paint (GuiCall.ink d) (drawCursor d x y) painted)
      (paint (GuiCall.ink d) (drawCursor d x y) picture))
    (under : cursorCaptureUnder d painted x y = cursorCaptureUnder d picture x y) :
    SameScreen d painted picture := by
  intro point has
  by_cases untouched : coloursAt (GuiCall.ink d) (drawCursor d x y) point = []
  · have same := beside point has
    rwa [paint_untouched untouched, paint_untouched untouched] at same
  · obtain ⟨pixel, written⟩ := List.exists_mem_of_ne_nil _ untouched
    obtain ⟨at_, member, inside, place, _⟩ := cursorCalls_colour screen (drawCursor_eq ▸ written)
    obtain ⟨onScreen, left, top⟩ := pointInFb_has screen inside
    have pixels := congrArg CursorSave.pixels under
    simp only [cursorCaptureUnder, List.map_inj_left] at pixels
    have kept := pixels at_ member
    have beyond : ¬((x + at_.1).toUInt32 ≥ d.fb.width ∨ (y + at_.2.1).toUInt32 ≥ d.fb.height) := by
      have right := onScreen.right
      have bottom := onScreen.bottom
      simp only [ge_iff_le, UInt32.le_iff_toNat_le]
      omega
    simp only [inside, if_true, fbGetpixelRgb, if_neg beyond, left, top, Option.getD_some, ← place] at kept
    obtain ⟨color, paintedColor⟩ := paintedPacked point has
    obtain ⟨other, pictureColor⟩ := packed point has
    rw [paintedColor, pictureColor] at kept ⊢
    rw [← d.layout.pack_back color, kept, d.layout.pack_back]

theorem regions_right (screen : d.fb.Small) (shown : SameScreen d buffer (fullPicture d prev)) :
    SameScreen d (paint (GuiCall.ink d) (regionCalls d now rects) buffer) (fullPicture d now) ↔
      RegionsRight d prev now rects := by
  refine forall₂_congr fun point has => ?_
  rw [full_left screen now has, full_left screen prev has, paint_left, shown point has,
    Option.or_some, Option.some.injEq]
  exact eq_comm

theorem overlay_shows (screen : d.fb.Small) (packed : Packed d painted) :
    Shows d now x y (cursorCaptureUnder d painted x y) (paint (GuiCall.ink d)
      (drawCursor d x y) painted) ↔ SameScreen d painted (fullPicture d now) := by
  constructor
  · rintro ⟨beside, under⟩
    exact picture_of_capture screen packed (fullPicture_packed screen) beside under
  · intro same
    exact ⟨fun point has => paint_congr (same point has), cursorCaptureUnder_same screen same⟩

end Pixels

section Frame

variable {d : Display} {prev : DesktopSnapshot} {rt now : DesktopRuntime} {x y : Int32}
  {buffer : Framebuffer} {dirty : DirtySet}

theorem paintDirty_right (screen : d.fb.Small) (shown : SameScreen d buffer (fullPicture d prev)) :
    SameScreen d (paintDirty d now.toDesktopSnapshot dirty buffer)
    (fullPicture d now.toDesktopSnapshot) ↔
      (dirty.fullRedraw = false → RegionsRight d prev now.toDesktopSnapshot dirty.rects) := by
  cases full : dirty.fullRedraw with
  | true => exact iff_of_true (paintDirty_full screen full) (fun none => by cases none)
  | false =>
      simp only [paintDirty, full, Bool.false_eq_true, if_false, forall_const]
      rw [paint_regionCalls]
      exact regions_right screen shown

theorem paintDirty_packed (packed : Packed d buffer) :
    Packed d (paintDirty d now.toDesktopSnapshot dirty buffer) := by
  rw [paintDirty]
  split
  · exact paint_packed _ packed
  · rw [paint_regionCalls]
    exact paint_packed _ packed

theorem frameDirty_forced : frameDirty d prev now false true =
    some { rects := [], fullRedraw := true } := by
  rw [frameDirty, dirtyRun_full rfl]
  simp [dirtyInit]

theorem forced_shows (screen : d.fb.Small) (save : CursorSave)
    (saved : save = cursorCaptureUnder d (fullPicture d prev) x y) :
    Shows d now.toDesktopSnapshot now.cursorX now.cursorY save
      (paint (GuiCall.ink d) (now.repaint d (fullRect d.fb)) buffer) ↔ CursorKept d prev x y now := by
  have pixels : SameScreen d (paint (GuiCall.ink d) (now.repaint d (fullRect d.fb)) buffer)
      (paint (GuiCall.ink d) (drawCursor d now.cursorX now.cursorY) (fullPicture d now.toDesktopSnapshot)) ↔
      ∀ point : Int × Int, d.fb.Has point.1 point.2 → leftColour d (now.repaint d (fullRect d.fb)) point =
        leftColour d (now.repaint d (fullRect d.fb) ++ drawCursor d now.cursorX now.cursorY) point := by
    refine forall₂_congr fun point has => ?_
    have covered := full_left screen now.toDesktopSnapshot has
    have whole : leftColour d (now.repaint d (fullRect d.fb) ++ drawCursor d now.cursorX now.cursorY) point =
        (leftColour d (drawCursor d now.cursorX now.cursorY) point).or
        (some (fullPicture d now.toDesktopSnapshot point)) := by
      rw [← covered, leftColour, coloursAt_append, List.getLast?_append]
      rfl
    rw [whole, covered, paint_left, paint_left, covered, Option.or_some, Option.getD_some, Option.some.injEq]
  constructor
  · rintro ⟨screenSame, saveSame⟩
    exact ⟨pixels.mp screenSame, saved.symm.trans saveSame⟩
  · rintro ⟨shown, kept⟩
    exact ⟨pixels.mpr shown, saved.trans kept⟩

theorem RepaintRight.alike {other : DesktopRuntime} {frame : DesktopFrameState}
    (right : RepaintRight d prev x y rt frame)
    (scene : frame.sceneChanged = true) (sane : sanitizeRuntimeState d.fb rt = (false, rt))
    (otherSane : sanitizeRuntimeState d.fb other = (false, other))
    (dirtied : frameDirty d prev other true frame.forceFullRedraw =
      frameDirty d prev rt true frame.forceFullRedraw)
    (repaints : ∀ region, other.repaint d region = rt.repaint d region) :
    RepaintRight d prev x y other frame := by
  have overlay : (frame.cursorChanged || frame.sceneChanged) = true := by rw [scene, Bool.or_true]
  obtain ⟨dirty, found, regions⟩ := right.overlay overlay
  rw [sane, scene, Bool.or_false] at found
  rw [sane] at regions
  have calls : regionCalls d other.toDesktopSnapshot dirty.rects =
    regionCalls d rt.toDesktopSnapshot dirty.rects := by
    simp only [regionCalls, repaints]
  constructor
  · intro _
    rw [otherSane, scene, Bool.or_false]
    refine ⟨dirty, dirtied.trans found, fun partly => ?_⟩
    rw [RegionsRight, repaints, calls]
    exact regions partly
  · intro bare
    rw [overlay] at bare
    cases bare

theorem overlay_frame_shows {frame : DesktopFrameState} (screen : d.fb.Small)
    (shown : Shows d prev x y rt.cursorSave buffer)
    (overlay : (frame.cursorChanged || frame.sceneChanged) = true) : FrameShows d prev rt frame buffer ↔
      ∃ dirty, frameDirty d prev (sanitizeRuntimeState d.fb rt).2 frame.sceneChanged
          (frame.forceFullRedraw || (sanitizeRuntimeState d.fb rt).1) = some dirty ∧
        (dirty.fullRedraw = false →
        RegionsRight d prev (sanitizeRuntimeState d.fb rt).2.toDesktopSnapshot dirty.rects) := by
  have keeps := sanitizeRuntimeState_keeps d.fb rt
  rw [FrameShows]
  cases repair : sanitizeRuntimeState d.fb rt with
  | mk repaired now =>
      rw [repair] at keeps
      have save : now.cursorSave = cursorCaptureUnder d (fullPicture d prev) x y := keeps.2.trans shown.saved
      have valid : now.cursorSave.valid = true := by rw [save]; rfl
      have restored := restore_picture screen (fullPicture_packed screen) shown.screen
      rw [← save] at restored
      have packed : Packed d (paint (GuiCall.ink d) (cursorRestoreUnder d now.cursorSave).1 buffer) := by
        intro point has
        rw [restored point has]
        exact fullPicture_packed screen point has
      cases found : frameDirty d prev now frame.sceneChanged (frame.forceFullRedraw || repaired) with
      | none => simp [desktopRenderFrame, repair, found]
      | some dirty =>
          have right := @paintDirty_right d prev now _ dirty screen restored
          have shows := @overlay_shows d now.toDesktopSnapshot now.cursorX now.cursorY _ screen
            (@paintDirty_packed d now _ dirty packed)
          simp only [desktopRenderFrame, repair, found, overlay, valid, Option.bind_eq_bind, Option.bind_some,
            Bool.not_true, Bool.and_false, Bool.false_eq_true, if_false, if_true, Option.some.injEq]
          constructor
          · rintro ⟨next, after, ran, -, after_⟩
            cases ran
            exact ⟨dirty, rfl, right.mp (shows.mp after_)⟩
          · rintro ⟨_, rfl, regions⟩
            exact ⟨_, _, rfl, rfl, shows.mpr (right.mpr regions)⟩

theorem bare_frame_shows {frame : DesktopFrameState} (screen : d.fb.Small)
    (shown : Shows d prev x y rt.cursorSave buffer)
    (reports : Reports prev x y rt frame) (bare : (frame.cursorChanged || frame.sceneChanged) = false) :
    FrameShows d prev rt frame buffer ↔
    ((frame.forceFullRedraw || (sanitizeRuntimeState d.fb rt).1) = true →
      CursorKept d prev x y (sanitizeRuntimeState d.fb rt).2) := by
  have keeps := sanitizeRuntimeState_keeps d.fb rt
  have kept := sanitizeRuntimeState_kept d.fb rt
  obtain ⟨moved, scene⟩ := Bool.or_eq_false_iff.mp bare
  rw [FrameShows]
  cases repair : sanitizeRuntimeState d.fb rt with
  | mk repaired now =>
      rw [repair] at keeps kept
      have save : now.cursorSave = cursorCaptureUnder d (fullPicture d prev) x y := keeps.2.trans shown.saved
      have unchanged : rt.toDesktopSnapshot = prev := by
        by_contra changed
        rw [reports.scene changed] at scene
        cases scene
      have cursor : rt.cursorX = x ∧ rt.cursorY = y := by
        by_contra changed
        rw [reports.cursor (Classical.not_and_iff_not_or_not.mp changed)] at moved
        cases moved
      cases full : frame.forceFullRedraw || repaired with
      | false =>
          have still : now = rt := (kept (Bool.or_eq_false_iff.mp full).2).1
          subst still
          have shows : Shows d now.toDesktopSnapshot now.cursorX now.cursorY now.cursorSave buffer := by
            rw [unchanged, cursor.1, cursor.2]
            exact shown
          refine iff_of_true ⟨now, buffer, ?_, rfl, shows⟩ (fun none => by cases none)
          simp [desktopRenderFrame, repair, scene, moved, full, frameDirty_nothing unchanged, paintDirty]
      | true =>
          have painted := @forced_shows d prev now x y buffer screen _ save
          have ran : desktopRenderFrame d rt prev frame buffer =
              some (now, paint (GuiCall.ink d) (now.repaint d (fullRect d.fb)) buffer) := by
            simp [desktopRenderFrame, repair, scene, moved, full, frameDirty_forced, paintDirty]
          rw [ran]
          constructor
          · rintro ⟨next, after, same, -, after_⟩ -
            cases same
            exact painted.mp after_
          · exact fun stays => ⟨now, _, rfl, rfl, painted.mpr (stays rfl)⟩

theorem render_frame_repaints {frame : DesktopFrameState}
    (shown : Shows d prev x y rt.cursorSave buffer)
    (reports : Reports prev x y rt frame) (holds : RepaintHolds d prev rt frame) :
    FrameShows d prev rt frame buffer := by
  have sound := holds.display
  have keeps := sanitizeRuntimeState_keeps d.fb rt
  cases overlay : frame.cursorChanged || frame.sceneChanged with
  | true =>
      refine (overlay_frame_shows sound.screen shown overlay).mpr ?_
      cases repair : sanitizeRuntimeState d.fb rt with
      | mk repaired now =>
          rw [repair] at keeps
          have after : ∀ i, (now.windows i).Modest := by
            intro i
            rw [keeps.1]
            exact holds.after i
          have same : SameScreen d (fullPicture d prev) (fullPicture d prev) := fun _ _ => rfl
          obtain ⟨dirty, found, _⟩ := frameDirty_spec (frame.forceFullRedraw || repaired) sound
            (frameDirtyRects_small frame.sceneChanged sound holds.before after)
          have painted := paintDirty_picture holds reports repair found same
          exact ⟨dirty, found, (paintDirty_right sound.screen same).mp painted⟩
  | false =>
      refine (bare_frame_shows sound.screen shown reports overlay).mpr fun full => ?_
      obtain ⟨moved, scene⟩ := Bool.or_eq_false_iff.mp overlay
      rcases holds.overlay with changed | changed | ⟨unforced, unrepaired⟩
      · exact absurd (moved.symm.trans changed) (by decide)
      · exact absurd (scene.symm.trans changed) (by decide)
      · rw [unforced, unrepaired] at full
        cases full

end Frame

end Szczupak
