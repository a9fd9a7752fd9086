import Szczupak.Desktop.FrameCore
import Szczupak.Desktop.Layout

/-!
The cursor over a picture: what was kept under it is put back, and what is shown under it is kept.
-/

namespace Szczupak

def Packed (d : Display) (picture : Framebuffer) : Prop :=
  ∀ point : Int × Int, d.fb.Has point.1 point.2 → ∃ color, picture point = d.layout.pack color

def SameScreen (d : Display) (a b : Framebuffer) : Prop :=
  ∀ point : Int × Int, d.fb.Has point.1 point.2 → a point = b point

def cursorCalls (d : Display) (x y : Int32) (color : Int32 × Int32 × Bool → FbColor) : List GuiCall :=
  kCursorPoints.flatMap fun at_ =>
    if pointInFb d.fb (x + at_.1) (y + at_.2.1) then
      [.putpixel (x + at_.1).toUInt32 (y + at_.2.1).toUInt32 (color at_)]
    else []

section Cursor

variable {d : Display} {x y : Int32} {picture buffer : Framebuffer} {point : Int × Int}

theorem drawCursor_eq : drawCursor d x y = cursorCalls d x y fun at_ =>
    if at_.2.2 then ⟨252, 252, 252⟩ else ⟨0, 0, 0⟩ :=
  rfl

section

variable (screen : d.fb.Small)
include screen

theorem pointInFb_has (inside : pointInFb d.fb x y = true) :
    d.fb.Has x.toInt y.toInt ∧ (x.toUInt32.toNat : Int) = x.toInt ∧
    (y.toUInt32.toNat : Int) = y.toInt := by
  obtain ⟨_, _, width, height⟩ := fullRect_sides screen
  change d.fb.width.toInt32.toInt = _ at width
  change d.fb.height.toInt32.toInt = _ at height
  have has : d.fb.Has x.toInt y.toInt := by
    simp [pointInFb, Int32.lt_iff_toInt_lt, Int32.le_iff_toInt_le, width, height] at inside
    exact ⟨by omega, by omega, by omega, by omega⟩
  have left := toNat_toUInt32_add x 0
  have top := toNat_toUInt32_add y 0
  have right := x.toInt_lt
  have bottom := y.toInt_lt
  rw [UInt32.add_zero, UInt32.toNat_zero] at left top
  exact ⟨has, by have low := has.left; omega, by have low := has.top; omega⟩

theorem putpixel_ink {color : FbColor} (inside : pointInFb d.fb x y = true) :
    GuiCall.ink d (.putpixel x.toUInt32 y.toUInt32 color) point =
      if point = (x.toInt, y.toInt) then some (d.layout.pack color) else none := by
  obtain ⟨has, left, top⟩ := pointInFb_has screen inside
  rw [GuiCall.ink, fbPutpixel_eq, left, top]
  refine if_congr ⟨fun both => both.2, fun same => ⟨?_, same⟩⟩ rfl rfl
  subst same
  exact has

theorem cursorCalls_colour {color : Int32 × Int32 × Bool → FbColor} {pixel : FbPixel}
    (written : pixel ∈ coloursAt (GuiCall.ink d) (cursorCalls d x y color) point) :
    ∃ at_ ∈ kCursorPoints, pointInFb d.fb (x + at_.1) (y + at_.2.1) = true ∧
      point = ((x + at_.1).toInt, (y + at_.2.1).toInt) ∧ pixel = d.layout.pack (color at_) := by
  rw [cursorCalls, coloursAt_flatMap] at written
  obtain ⟨at_, member, here⟩ := List.mem_flatMap.mp written
  split at here
  next inside =>
    obtain ⟨call, one, ink⟩ := List.mem_filterMap.mp here
    rw [List.mem_singleton.mp one, putpixel_ink screen inside] at ink
    split at ink
    next same => exact ⟨at_, member, inside, same, (Option.some.inj ink).symm⟩
    next => cases ink
  next => simp at here

theorem cursorCalls_touches {color other : Int32 × Int32 × Bool → FbColor}
    (untouched : coloursAt (GuiCall.ink d) (cursorCalls d x y color) point = []) :
    coloursAt (GuiCall.ink d) (cursorCalls d x y other) point = [] := by
  by_contra touched
  obtain ⟨pixel, written⟩ := List.exists_mem_of_ne_nil _ touched
  obtain ⟨at_, member, inside, same, _⟩ := cursorCalls_colour screen written
  refine List.ne_nil_of_mem (a := d.layout.pack (color at_)) ?_ untouched
  rw [cursorCalls, coloursAt_flatMap]
  refine List.mem_flatMap.mpr ⟨at_, member, ?_⟩
  rw [if_pos inside, coloursAt_cons_some]
  · exact List.mem_cons_self
  · rw [putpixel_ink screen inside, if_pos same]

theorem cursorCaptureUnder_same (same : SameScreen d buffer picture) :
    cursorCaptureUnder d buffer x y = cursorCaptureUnder d picture x y := by
  rw [cursorCaptureUnder, cursorCaptureUnder, CursorSave.mk.injEq]
  refine ⟨rfl, rfl, rfl, List.map_congr_left fun at_ _ => ?_⟩
  dsimp only
  split
  next inside =>
    obtain ⟨has, left, top⟩ := pointInFb_has screen inside
    rw [fbGetpixelRgb, fbGetpixelRgb, left, top, same _ has]
  next => rfl

end

theorem flatMap_zip_map {A B C : Type} (items : List A) (value : A → B) (part : A × B → List C) :
    (items.zip (items.map value)).flatMap part = items.flatMap fun item => part (item, value item) := by
  induction items with
  | nil => rfl
  | cons item items ih => rw [List.map_cons, List.zip_cons_cons, List.flatMap_cons,
    List.flatMap_cons, ih]

theorem cursorRestoreUnder_eq : (cursorRestoreUnder d (cursorCaptureUnder d picture x y)).1 =
    cursorCalls d x y fun at_ => if pointInFb d.fb (x + at_.1) (y + at_.2.1) then
      (fbGetpixelRgb d picture (x + at_.1).toUInt32 (y + at_.2.1).toUInt32).getD desktopBg else desktopBg := by
  simp only [cursorRestoreUnder, cursorCaptureUnder, Bool.not_true, Bool.false_eq_true, if_false]
  rw [flatMap_zip_map]
  rfl

theorem restore_picture (screen : d.fb.Small) (packed : Packed d picture)
    (shown : SameScreen d buffer (paint (GuiCall.ink d) (drawCursor d x y) picture)) :
    SameScreen d (paint (GuiCall.ink d) (cursorRestoreUnder d (cursorCaptureUnder d picture x y)).1 buffer)
      picture := by
  intro point has
  have before := shown point has
  rw [cursorRestoreUnder_eq]
  by_cases touched : coloursAt (GuiCall.ink d) (cursorCalls d x y fun at_ =>
      if pointInFb d.fb (x + at_.1) (y + at_.2.1) then
        (fbGetpixelRgb d picture (x + at_.1).toUInt32 (y + at_.2.1).toUInt32).getD desktopBg
          else desktopBg) point = []
  · rw [paint_untouched touched, before, drawCursor_eq, paint_untouched (cursorCalls_touches screen touched)]
  · refine paint_uniform touched fun pixel written => ?_
    obtain ⟨at_, _, inside, same, rfl⟩ := cursorCalls_colour screen written
    obtain ⟨onScreen, left, top⟩ := pointInFb_has screen inside
    obtain ⟨color, kept⟩ := packed ((x + at_.1).toInt, (y + at_.2.1).toInt) onScreen
    have beyond : ¬((x + at_.1).toUInt32 ≥ d.fb.width ∨ (y + at_.2.1).toUInt32 ≥ d.fb.height) := by
      have right := onScreen.right
      have bottom := onScreen.bottom
      simp only [ge_iff_le, UInt32.le_iff_toNat_le]
      omega
    rw [if_pos inside, fbGetpixelRgb, if_neg beyond, left, top, Option.getD_some, kept, same, kept,
      d.layout.pack_back]

end Cursor

end Szczupak
