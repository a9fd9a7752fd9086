import Szczupak.Desktop.Geometry
import Szczupak.Drivers.PsfCore

/-!
The drawing of `drivers/framebuffer.c` and `drivers/psf.c` on a screen that is mapped, pixel by
pixel: what a call writes, and where.  A pixel is the values of its three fields, which do not
overlap in the words of the buffer.
-/

namespace Szczupak

/-- The alpha of `fb_color_t` is never read. -/
structure FbColor where
  r : UInt8
  g : UInt8
  b : UInt8
deriving DecidableEq

/-- `indexed` is a palette with one byte for a pixel, written as RGB332. -/
structure ColorLayout where
  indexed : Bool
  redSize : Nat
  greenSize : Nat
  blueSize : Nat

structure FbPixel where
  red : Nat
  green : Nat
  blue : Nat
deriving DecidableEq

abbrev Framebuffer : Type := Int × Int → FbPixel

structure PsfFont where
  glyphs : Option (List UInt8)
  metrics : PsfMetrics

structure Display where
  fb : FbInfo
  layout : ColorLayout
  font : PsfFont

def fbMaskU32 (bits : Nat) : Nat :=
  if bits = 0 then 0
  else if bits ≥ 32 then 0xFFFFFFFF
  else 2 ^ bits - 1

def fbScale8ToN (value8 : UInt8) (bits : Nat) : Nat :=
  let mask := fbMaskU32 bits
  if mask = 0 then 0 else (value8.toNat * mask + 127) / 255

def fbScaleNTo8 (valueN bits : Nat) : UInt8 :=
  let mask := fbMaskU32 bits
  if mask = 0 then 0
  else
    let valueN := if valueN > mask then mask else valueN
    UInt8.ofNat ((valueN * 255 + mask / 2) / mask)

def ColorLayout.pack (layout : ColorLayout) (color : FbColor) : FbPixel :=
  if layout.indexed then
    { red := color.r.toNat / 32, green := color.g.toNat / 32, blue := color.b.toNat / 64 }
  else
    { red := fbScale8ToN color.r layout.redSize
      green := fbScale8ToN color.g layout.greenSize
      blue := fbScale8ToN color.b layout.blueSize }

def ColorLayout.rgb (layout : ColorLayout) (pixel : FbPixel) : FbColor :=
  if layout.indexed then
    { r := UInt8.ofNat (pixel.red * 255 / 7)
      g := UInt8.ofNat (pixel.green * 255 / 7)
      b := UInt8.ofNat (pixel.blue * 255 / 3) }
  else
    { r := fbScaleNTo8 pixel.red layout.redSize
      g := fbScaleNTo8 pixel.green layout.greenSize
      b := fbScaleNTo8 pixel.blue layout.blueSize }

def fbPutpixel (d : Display) (x y : UInt32) (color : FbColor) (point : Int × Int) : Option FbPixel :=
  if x ≥ d.fb.width ∨ y ≥ d.fb.height then none
  else if point = ((x.toNat : Int), (y.toNat : Int)) then some (d.layout.pack color) else none

def fbGetpixelRgb (d : Display) (buffer : Framebuffer) (x y : UInt32) : Option FbColor :=
  if x ≥ d.fb.width ∨ y ≥ d.fb.height then none
  else some (d.layout.rgb (buffer ((x.toNat : Int), (y.toNat : Int))))

def fbClipRect (fb : FbInfo) (x y w h : UInt32) : Option (UInt32 × UInt32) :=
  if w = 0 ∨ h = 0 then none
  else if x ≥ fb.width ∨ y ≥ fb.height then none
  else
    let maxW := fb.width - x
    let maxH := fb.height - y
    let w := if w > maxW then maxW else w
    let h := if h > maxH then maxH else h
    if w > 0 ∧ h > 0 then some (w, h) else none

def fbFillRect (d : Display) (x y w h : UInt32) (color : FbColor) (point : Int × Int) :
    Option FbPixel :=
  match fbClipRect d.fb x y w h with
  | none => none
  | some (w, h) =>
      if x.toNat ≤ point.1 ∧ point.1 < x.toNat + w.toNat ∧ y.toNat ≤ point.2 ∧ point.2 < y.toNat + h.toNat then
        some (d.layout.pack color)
      else none

def psfDrawFallbackChar (d : Display) (x y : UInt32) (c : UInt8) (fg bg : FbColor)
    (point : Int × Int) : Option FbPixel :=
  if c = 32 then fbFillRect d x y 8 16 bg point
  else
    (fbFillRect d (x + 2) (y + 2) 4 12 bg point).or
      ((fbFillRect d (x + 1) (y + 1) 6 14 fg point).or (fbFillRect d x y 8 16 bg point))

def fbDrawMono8 (d : Display) (x y : UInt32) (rows : List UInt8) (rowCount : UInt32)
    (fg bg : FbColor) (point : Int × Int) : Option FbPixel :=
  if rowCount = 0 then none
  else if x ≥ d.fb.width ∨ y ≥ d.fb.height then none
  else
    let drawW := if d.fb.width - x > 8 then 8 else d.fb.width - x
    let drawH := if d.fb.height - y > rowCount then rowCount else d.fb.height - y
    if drawW = 0 ∨ drawH = 0 then none
    else if x.toNat ≤ point.1 ∧ point.1 < x.toNat + drawW.toNat ∧
        y.toNat ≤ point.2 ∧ point.2 < y.toNat + drawH.toNat then
      let bits := rows.getD (point.2 - y.toNat).toNat 0
      let col := (point.1 - x.toNat).toNat
      some (d.layout.pack (if bits &&& (0x80 >>> UInt8.ofNat col) ≠ 0 then fg else bg))
    else none

def psfDrawChar (d : Display) (x y : UInt32) (c : UInt8) (fg bg : FbColor) : Int × Int →
    Option FbPixel :=
  match d.font.glyphs with
  | none => psfDrawFallbackChar d x y c fg bg
  | some glyphs =>
      let ch := if c.toUInt32 ≥ d.font.metrics.charsCount then 0 else c
      let glyph := glyphs.drop (ch.toUInt32 * d.font.metrics.charHeight).toNat
      fbDrawMono8 d x y glyph d.font.metrics.charHeight fg bg

structure PsfFont.Sound (font : PsfFont) : Prop where
  width : font.metrics.charWidth = 8
  tall : 0 < font.metrics.charHeight.toNat
  low : font.metrics.charHeight.toNat < 256
  plain : font.glyphs = none → font.metrics.charHeight = 16

section Colors

theorem rescale_back {value mask field back : Nat} (small : value < 256) (positive : 0 < mask)
    (scaled : (value * mask + 127) / 255 = field) (restored : (field * 255 + mask / 2) / mask = back) :
    field ≤ mask ∧ back < 256 ∧ (back * mask + 127) / 255 = field := by
  have most : value * mask ≤ 255 * mask := Nat.mul_le_mul_right mask (by omega)
  have below : back * mask ≤ field * 255 + mask / 2 := restored ▸ Nat.div_mul_le_self _ _
  have above : field * 255 + mask / 2 < back * mask + mask := restored ▸ Nat.lt_div_mul_add positive
  refine ⟨by omega, ?_, ?_⟩
  · by_contra large
    have product : 256 * mask ≤ back * mask := Nat.mul_le_mul_right mask (by omega)
    omega
  · by_cases coarse : mask ≤ 255
    · omega
    · -- the field is finer than a byte, so that the byte comes back
      have same : back = value := by
        rcases Nat.lt_trichotomy back value with less | same | greater
        · have product : (back + 1) * mask ≤ value * mask := Nat.mul_le_mul_right mask less
          rw [Nat.succ_mul] at product
          omega
        · exact same
        · have product : (value + 1) * mask ≤ back * mask := Nat.mul_le_mul_right mask greater
          rw [Nat.succ_mul] at product
          omega
      rw [same, scaled]

theorem fbScale8ToN_back (value8 : UInt8) (bits : Nat) :
    fbScale8ToN (fbScaleNTo8 (fbScale8ToN value8 bits) bits) bits = fbScale8ToN value8 bits := by
  unfold fbScale8ToN fbScaleNTo8
  generalize fbMaskU32 bits = mask
  dsimp only
  by_cases zero : mask = 0
  · simp only [zero, if_true]
  · obtain ⟨fits, small, again⟩ := rescale_back value8.toNat_lt (Nat.pos_of_ne_zero zero) rfl rfl
    simp only [zero, if_false]
    rw [if_neg (Nat.not_lt.mpr fits), UInt8.toNat_ofNat_of_lt' small]
    exact again

theorem rgb332_back : (∀ field < 8, (UInt8.ofNat (field * 255 / 7)).toNat / 32 = field) ∧
    ∀ field < 4, (UInt8.ofNat (field * 255 / 3)).toNat / 64 = field := by
  decide

theorem ColorLayout.pack_back (layout : ColorLayout) (color : FbColor) :
    layout.pack (layout.rgb (layout.pack color)) = layout.pack color := by
  have red := color.r.toNat_lt
  have green := color.g.toNat_lt
  have blue := color.b.toNat_lt
  cases indexed : layout.indexed with
  | false => simp [ColorLayout.pack, ColorLayout.rgb, indexed, fbScale8ToN_back]
  | true =>
      simp only [ColorLayout.pack, ColorLayout.rgb, indexed, if_true]
      rw [rgb332_back.1 _ (by omega), rgb332_back.1 _ (by omega), rgb332_back.2 _ (by omega)]

end Colors

section Written

variable {d : Display} {x y w h : UInt32} {c : UInt8} {color fg bg : FbColor} {point : Int × Int}

theorem fbPutpixel_eq : fbPutpixel d x y color point =
    if d.fb.Has point.1 point.2 ∧ point = ((x.toNat : Int), (y.toNat : Int)) then some (d.layout.pack color)
    else none := by
  rw [fbPutpixel]
  split
  next beyond =>
    rw [if_neg]
    rintro ⟨has, rfl⟩
    have right := has.right
    have bottom := has.bottom
    simp only [ge_iff_le, UInt32.le_iff_toNat_le] at beyond
    omega
  next onScreen =>
    simp only [ge_iff_le, UInt32.le_iff_toNat_le, not_or, Nat.not_le] at onScreen
    refine if_congr ⟨fun same => ⟨?_, same⟩, fun both => both.2⟩ rfl rfl
    subst same
    exact ⟨by omega, Int.ofNat_lt.mpr onScreen.1, by omega, Int.ofNat_lt.mpr onScreen.2⟩

theorem toNat_smaller (left right : UInt32) :
    (if left > right then right else left).toNat = min left.toNat right.toNat := by
  split
  next more =>
    have order := UInt32.lt_iff_toNat_lt.mp more
    omega
  next less =>
    have order := UInt32.lt_iff_toNat_lt.not.mp less
    omega

theorem toNat_left {side : UInt32} (onScreen : x.toNat < side.toNat) :
    (if w > side - x then side - x else w).toNat = min w.toNat (side.toNat - x.toNat) := by
  rw [toNat_smaller, UInt32.toNat_sub_of_le side x (UInt32.le_iff_toNat_le.mpr (Nat.le_of_lt onScreen))]

theorem toNat_capped {side : UInt32} (onScreen : x.toNat < side.toNat) :
    (if side - x > w then w else side - x).toNat = min w.toNat (side.toNat - x.toNat) := by
  rw [toNat_smaller, UInt32.toNat_sub_of_le side x (UInt32.le_iff_toNat_le.mpr (Nat.le_of_lt onScreen)),
    Nat.min_comm]

theorem fbClipRect_spec {fb : FbInfo} :
    fbClipRect fb x y w h = none ∧
      (w.toNat = 0 ∨ h.toNat = 0 ∨ fb.width.toNat ≤ x.toNat ∨ fb.height.toNat ≤ y.toNat) ∨
    ∃ left top, fbClipRect fb x y w h = some (left, top) ∧ x.toNat < fb.width.toNat ∧
    y.toNat < fb.height.toNat ∧
      left.toNat = min w.toNat (fb.width.toNat - x.toNat) ∧
      top.toNat = min h.toNat (fb.height.toNat - y.toNat) := by
  rw [fbClipRect]
  split
  next empty =>
    refine Or.inl ⟨rfl, ?_⟩
    rcases empty with rfl | rfl
    · exact Or.inl rfl
    · exact Or.inr (Or.inl rfl)
  next filled =>
    split
    next beyond =>
      refine Or.inl ⟨rfl, ?_⟩
      rcases beyond with right | bottom
      · exact Or.inr (Or.inr (Or.inl (UInt32.le_iff_toNat_le.mp right)))
      · exact Or.inr (Or.inr (Or.inr (UInt32.le_iff_toNat_le.mp bottom)))
    next onScreen =>
      simp only [ge_iff_le, UInt32.le_iff_toNat_le, not_or, Nat.not_le] at onScreen
      have wide : w.toNat ≠ 0 := fun zero => filled (Or.inl (UInt32.toNat_inj.mp zero))
      have high : h.toNat ≠ 0 := fun zero => filled (Or.inr (UInt32.toNat_inj.mp zero))
      have left := toNat_left (w := w) onScreen.1
      have top := toNat_left (w := h) onScreen.2
      dsimp only
      rw [if_pos]
      · exact Or.inr ⟨_, _, rfl, onScreen.1, onScreen.2, left, top⟩
      · constructor
        · rw [gt_iff_lt, UInt32.lt_iff_toNat_lt, left, UInt32.toNat_zero]
          omega
        · rw [gt_iff_lt, UInt32.lt_iff_toNat_lt, top, UInt32.toNat_zero]
          omega

theorem fbFillRect_eq : fbFillRect d x y w h color point =
    if d.fb.Has point.1 point.2 ∧ x.toNat ≤ point.1 ∧ point.1 < x.toNat + w.toNat ∧
      y.toNat ≤ point.2 ∧ point.2 < y.toNat + h.toNat then some (d.layout.pack color) else none := by
  rw [fbFillRect]
  rcases @fbClipRect_spec x y w h d.fb with ⟨clipped, empty⟩ | ⟨left, top, clipped, right, bottom,
    leftEq, topEq⟩
  · rw [clipped, if_neg]
    rintro ⟨⟨hasLeft, hasRight, hasTop, hasBottom⟩, fromX, toX, fromY, toY⟩
    omega
  · rw [clipped]
    refine if_congr ⟨?_, ?_⟩ rfl rfl
    · rintro ⟨fromX, toX, fromY, toY⟩
      exact ⟨⟨by omega, by omega, by omega, by omega⟩, fromX, by omega, fromY, by omega⟩
    · rintro ⟨⟨hasLeft, hasRight, hasTop, hasBottom⟩, fromX, toX, fromY, toY⟩
      exact ⟨fromX, by omega, fromY, by omega⟩

theorem fbFillRect_touches (touched : (fbFillRect d x y w h color point).isSome) :
    d.fb.Has point.1 point.2 ∧ x.toNat ≤ point.1 ∧ point.1 < x.toNat + w.toNat ∧
      y.toNat ≤ point.2 ∧ point.2 < y.toNat + h.toNat := by
  rw [fbFillRect_eq] at touched
  split at touched
  next within => exact within
  next => simp at touched

end Written

section Characters

variable {d : Display} {x y : Int32} {c : UInt8} {fg bg : FbColor} {point : Int × Int}

theorem toNat_toUInt32_add (x : Int32) (k : UInt32) :
    ((x.toUInt32 + k).toNat : Int) = (x.toInt + k.toNat) % 2 ^ 32 := by
  have signed : x.toInt = if 2 * x.toUInt32.toNat < 2 ^ 32 then (x.toUInt32.toNat : Int)
    else x.toUInt32.toNat - 2 ^ 32 :=
    BitVec.toInt_eq_toNat_cond x.toBitVec
  have low := x.toUInt32.toNat_lt
  rw [UInt32.toNat_add]
  split at signed
  · omega
  · omega

theorem from_signed {side : Nat} {k : UInt32} {p : Int} (small : side ≤ 2 ^ 30) (inset : k.toNat ≤ 8)
    (onScreen : p < side) (right : (x.toUInt32 + k).toNat ≤ p) :
    (x.toUInt32 + k).toNat = x.toInt + k.toNat := by
  have word := toNat_toUInt32_add x k
  have lower := x.le_toInt
  have upper := x.toInt_lt
  omega

theorem fbFillRect_cell {k w h : UInt32} (narrow : d.fb.width.toNat ≤ 2 ^ 30)
    (low : d.fb.height.toNat ≤ 2 ^ 30)
    (wide : k.toNat + w.toNat ≤ 8) (high : k.toNat + h.toNat ≤ d.font.metrics.charHeight.toNat)
    {color : FbColor}
    (touched : (fbFillRect d (x.toUInt32 + k) (y.toUInt32 + k) w h color point).isSome) :
    d.fb.Has point.1 point.2 ∧ x.toInt ≤ point.1 ∧ point.1 < x.toInt + 8 ∧
      y.toInt ≤ point.2 ∧ point.2 < y.toInt + d.font.metrics.charHeight.toNat := by
  obtain ⟨has, fromX, toX, fromY, toY⟩ := fbFillRect_touches touched
  have column := from_signed narrow (by omega) has.right fromX
  have row := from_signed low (by omega) has.bottom fromY
  exact ⟨has, by omega, by omega, by omega, by omega⟩

theorem psfDrawFallbackChar_cell (high : d.font.metrics.charHeight = 16)
    (narrow : d.fb.width.toNat ≤ 2 ^ 30) (low : d.fb.height.toNat ≤ 2 ^ 30)
    (touched : (psfDrawFallbackChar d x.toUInt32 y.toUInt32 c fg bg point).isSome) :
    d.fb.Has point.1 point.2 ∧ x.toInt ≤ point.1 ∧ point.1 < x.toInt + 8 ∧
      y.toInt ≤ point.2 ∧ point.2 < y.toInt + d.font.metrics.charHeight.toNat := by
  have tall : d.font.metrics.charHeight.toNat = 16 := congrArg UInt32.toNat high
  have whole : (fbFillRect d x.toUInt32 y.toUInt32 8 16 bg point).isSome →
      d.fb.Has point.1 point.2 ∧ x.toInt ≤ point.1 ∧ point.1 < x.toInt + 8 ∧
        y.toInt ≤ point.2 ∧ point.2 < y.toInt + d.font.metrics.charHeight.toNat := by
    intro filled
    rw [← UInt32.add_zero x.toUInt32, ← UInt32.add_zero y.toUInt32] at filled
    exact fbFillRect_cell narrow low (by decide) (by rw [tall]; decide) filled
  rw [psfDrawFallbackChar] at touched
  split at touched
  · exact whole touched
  · rw [Option.isSome_or, Option.isSome_or, Bool.or_eq_true, Bool.or_eq_true] at touched
    rcases touched with inner | outer | filled
    · exact fbFillRect_cell narrow low (by decide) (by rw [tall]; decide) inner
    · exact fbFillRect_cell narrow low (by decide) (by rw [tall]; decide) outer
    · exact whole filled

theorem fbDrawMono8_cell {rows : List UInt8} (narrow : d.fb.width.toNat ≤ 2 ^ 30)
    (low : d.fb.height.toNat ≤ 2 ^ 30)
    (touched : (fbDrawMono8 d x.toUInt32 y.toUInt32 rows d.font.metrics.charHeight fg bg
    point).isSome) : d.fb.Has point.1 point.2 ∧ x.toInt ≤ point.1 ∧ point.1 < x.toInt + 8 ∧
      y.toInt ≤ point.2 ∧ point.2 < y.toInt + d.font.metrics.charHeight.toNat := by
  rw [fbDrawMono8] at touched
  split at touched
  next => simp at touched
  next =>
    split at touched
    next => simp at touched
    next onScreen =>
      simp only [ge_iff_le, UInt32.le_iff_toNat_le, not_or, Nat.not_le] at onScreen
      have width := toNat_capped (w := 8) onScreen.1
      have height := toNat_capped (w := d.font.metrics.charHeight) onScreen.2
      dsimp only at touched
      generalize (if d.fb.width - x.toUInt32 > 8 then (8 : UInt32) else d.fb.width - x.toUInt32) =
        drawW at touched width
      generalize (if d.fb.height - y.toUInt32 > d.font.metrics.charHeight then d.font.metrics.charHeight
        else d.fb.height - y.toUInt32) = drawH at touched height
      split at touched
      next => simp at touched
      next =>
        split at touched
        next within =>
          obtain ⟨fromX, toX, fromY, toY⟩ := within
          have eight : (8 : UInt32).toNat = 8 := rfl
          have has : d.fb.Has point.1 point.2 := ⟨by omega, by omega, by omega, by omega⟩
          rw [← UInt32.add_zero x.toUInt32] at fromX toX
          rw [← UInt32.add_zero y.toUInt32] at fromY toY
          have column := from_signed narrow (by decide) has.right fromX
          have row := from_signed low (by decide) has.bottom fromY
          rw [UInt32.toNat_zero] at column row
          exact ⟨has, by omega, by omega, by omega, by omega⟩
        next => simp at touched

theorem fbDrawMono8_packed {rows : List UInt8} {left top rowCount : UInt32} {pixel : FbPixel}
    (written : fbDrawMono8 d left top rows rowCount fg bg point = some pixel) :
    ∃ color, pixel = d.layout.pack color := by
  rw [fbDrawMono8] at written
  split at written
  next => cases written
  next =>
    split at written
    next => cases written
    next =>
      dsimp only at written
      generalize (if d.fb.width - left > 8 then (8 : UInt32) else d.fb.width - left) = drawW at written
      generalize (if d.fb.height - top > rowCount then rowCount else d.fb.height - top) = drawH at written
      split at written
      next => cases written
      next =>
        split at written
        next => exact ⟨_, (Option.some.inj written).symm⟩
        next => cases written

theorem psfDrawChar_cell (sound : d.font.Sound) (narrow : d.fb.width.toNat ≤ 2 ^ 30)
    (low : d.fb.height.toNat ≤ 2 ^ 30)
    (touched : (psfDrawChar d x.toUInt32 y.toUInt32 c fg bg point).isSome) :
    d.fb.Has point.1 point.2 ∧ x.toInt ≤ point.1 ∧ point.1 < x.toInt + 8 ∧
      y.toInt ≤ point.2 ∧ point.2 < y.toInt + d.font.metrics.charHeight.toNat := by
  cases glyphs : d.font.glyphs with
  | none =>
      simp only [psfDrawChar, glyphs] at touched
      exact psfDrawFallbackChar_cell (sound.plain glyphs) narrow low touched
  | some bytes =>
      simp only [psfDrawChar, glyphs] at touched
      exact fbDrawMono8_cell narrow low touched

end Characters

end Szczupak
