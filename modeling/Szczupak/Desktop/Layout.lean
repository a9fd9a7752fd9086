import Szczupak.Desktop.RenderCore

/-!
The rectangles of the desktop as sets of pixels, where no coordinate is near the ends of 32 bits.
-/

namespace Szczupak

structure Rect.Bounded (n : Int) (r : Rect) : Prop where
  left : -n ≤ r.x.toInt
  right : r.x.toInt ≤ n
  top : -n ≤ r.y.toInt
  bottom : r.y.toInt ≤ n
  narrow : -n ≤ r.w.toInt
  wide : r.w.toInt ≤ n
  short : -n ≤ r.h.toInt
  high : r.h.toInt ≤ n

abbrev Rect.Small (r : Rect) : Prop := r.Bounded (2 ^ 29)

structure FbInfo.Small (fb : FbInfo) : Prop where
  width : fb.width.toNat ≤ 2 ^ 28
  height : fb.height.toNat ≤ 2 ^ 28

theorem Rect.Bounded.mono {m n : Int} {r : Rect} (bounded : r.Bounded m)
    (order : m ≤ n) : r.Bounded n := by
  obtain ⟨left, right, top, bottom, narrow, wide, short, high⟩ := bounded
  constructor <;> omega

section Sets

variable {a b : Rect} {fb : FbInfo} {x y : Int}

theorem Rect.Small.ends (small : a.Small) :
    (a.x + a.w).toInt = a.x.toInt + a.w.toInt ∧ (a.y + a.h).toInt = a.y.toInt + a.h.toInt := by
  obtain ⟨left, right, top, bottom, narrow, wide, short, high⟩ := small
  constructor
  · exact Int32.toInt_add_fits (by omega) (by omega)
  · exact Int32.toInt_add_fits (by omega) (by omega)

theorem Rect.Small.sumsFit (small : a.Small) : a.SumsFit := by
  obtain ⟨left, right, top, bottom, narrow, wide, short, high⟩ := small
  constructor <;> omega

theorem overlap_sides {start other stop otherStop : Int32} (low : -2 ^ 29 ≤ max start.toInt other.toInt)
    (high : max start.toInt other.toInt ≤ 2 ^ 29) (stopLow :
    -2 ^ 30 ≤ min stop.toInt otherStop.toInt) (stopHigh : min stop.toInt otherStop.toInt ≤ 2 ^ 30) :
    let first := if start > other then start else other
    let last := if stop < otherStop then stop else otherStop
    first.toInt = max start.toInt other.toInt ∧ (if last - first < 0 then 0 else last - first).toInt =
      max 0 (min stop.toInt otherStop.toInt - max start.toInt other.toInt) := by
  intro first last
  have firstIs : first.toInt = max start.toInt other.toInt := toInt_larger
  have lastIs : last.toInt = min stop.toInt otherStop.toInt := toInt_smaller
  refine ⟨firstIs, ?_⟩
  rw [← firstIs] at low high ⊢
  rw [← lastIs] at stopLow stopHigh ⊢
  rw [toInt_positive, Int32.toInt_sub_fits (by omega) (by omega)]

theorem overlap_has {start length other otherLength place : Int} :
    max start other ≤ place ∧
        place < max start other + max 0 (min (start + length) (other + otherLength) - max start other) ↔
      (start ≤ place ∧ place < start + length) ∧ other ≤ place ∧ place < other + otherLength := by
  omega

theorem overlap_again {start length other otherLength : Int} :
    max (max start other) other = max start other ∧
      max 0 (min (max start other + max 0 (min (start + length) (other + otherLength) - max start
        other)) (other + otherLength) - max (max start other) other) =
        max 0 (min (start + length) (other + otherLength) - max start other) := by
  omega

theorem overlap_bounded {bound start length other otherLength : Int} (low : -bound ≤ start)
    (high : start ≤ bound)
    (otherLow : -bound ≤ other) (otherHigh : other ≤ bound) (short : length ≤ bound) :
    (-bound ≤ max start other ∧ max start other ≤ bound) ∧
      -bound ≤ max 0 (min (start + length) (other + otherLength) - max start other) ∧
      max 0 (min (start + length) (other + otherLength) - max start other) ≤ bound := by
  omega

theorem rectIntersection_sides (aSmall : a.Small) (bSmall : b.Small) :
    (rectIntersection a b).x.toInt = max a.x.toInt b.x.toInt ∧
    (rectIntersection a b).y.toInt = max a.y.toInt b.y.toInt ∧
    (rectIntersection a b).w.toInt =
      max 0 (min (a.x.toInt + a.w.toInt) (b.x.toInt + b.w.toInt) - max a.x.toInt b.x.toInt) ∧
    (rectIntersection a b).h.toInt =
      max 0 (min (a.y.toInt + a.h.toInt) (b.y.toInt + b.h.toInt) - max a.y.toInt b.y.toInt) := by
  obtain ⟨aRight, aBottom⟩ := aSmall.ends
  obtain ⟨bRight, bBottom⟩ := bSmall.ends
  obtain ⟨aLeft, aLeft', aTop, aTop', aNarrow, aWide, aShort, aHigh⟩ := aSmall
  obtain ⟨bLeft, bLeft', bTop, bTop', bNarrow, bWide, bShort, bHigh⟩ := bSmall
  obtain ⟨x, w⟩ := @overlap_sides a.x b.x (a.x + a.w) (b.x + b.w) (by omega) (by omega)
    (by omega) (by omega)
  obtain ⟨y, h⟩ := @overlap_sides a.y b.y (a.y + a.h) (b.y + b.h) (by omega) (by omega)
    (by omega) (by omega)
  rw [aRight, bRight] at w
  rw [aBottom, bBottom] at h
  exact ⟨x, y, w, h⟩

theorem rectIntersection_small (aSmall : a.Small) (bSmall : b.Small) :
    (rectIntersection a b).Small := by
  obtain ⟨x, y, w, h⟩ := rectIntersection_sides aSmall bSmall
  obtain ⟨⟨left, right⟩, narrow, wide⟩ :=
    @overlap_bounded _ _ _ _ b.w.toInt aSmall.left aSmall.right bSmall.left bSmall.right aSmall.wide
  obtain ⟨⟨top, bottom⟩, short, high⟩ := @overlap_bounded _ _ _ _ b.h.toInt aSmall.top aSmall.bottom
    bSmall.top bSmall.bottom aSmall.high
  rw [← w] at narrow wide
  rw [← h] at short high
  rw [← x] at left right
  rw [← y] at top bottom
  exact ⟨left, right, top, bottom, narrow, wide, short, high⟩

theorem rectIntersection_has (aSmall : a.Small) (bSmall : b.Small) :
    (rectIntersection a b).Has x y ↔ a.Has x y ∧ b.Has x y := by
  obtain ⟨left, top, w, h⟩ := rectIntersection_sides aSmall bSmall
  have across := @overlap_has a.x.toInt a.w.toInt b.x.toInt b.w.toInt x
  have down := @overlap_has a.y.toInt a.h.toInt b.y.toInt b.h.toInt y
  rw [← w, ← left] at across
  rw [← h, ← top] at down
  constructor
  · rintro ⟨hasLeft, hasRight, hasTop, hasBottom⟩
    obtain ⟨⟨aLeft, aRight⟩, bLeft, bRight⟩ := across.mp ⟨hasLeft, hasRight⟩
    obtain ⟨⟨aTop, aBottom⟩, bTop, bBottom⟩ := down.mp ⟨hasTop, hasBottom⟩
    exact ⟨⟨aLeft, aRight, aTop, aBottom⟩, bLeft, bRight, bTop, bBottom⟩
  · rintro ⟨⟨aLeft, aRight, aTop, aBottom⟩, bLeft, bRight, bTop, bBottom⟩
    obtain ⟨hasLeft, hasRight⟩ := across.mpr ⟨⟨aLeft, aRight⟩, bLeft, bRight⟩
    obtain ⟨hasTop, hasBottom⟩ := down.mpr ⟨⟨aTop, aBottom⟩, bTop, bBottom⟩
    exact ⟨hasLeft, hasRight, hasTop, hasBottom⟩

theorem rectValid_corner (valid : rectValid a = true) : a.Has a.x.toInt a.y.toInt := by
  obtain ⟨wide, high⟩ := rectValid_iff.mp valid
  exact ⟨by omega, by omega, by omega, by omega⟩

theorem Rect.Has.valid (has : a.Has x y) : rectValid a = true := by
  obtain ⟨left, right, top, bottom⟩ := has
  exact rectValid_iff.mpr ⟨by omega, by omega⟩

theorem rectIntersects_of_has (aSmall : a.Small) (bSmall : b.Small) (inA : a.Has x y)
    (inB : b.Has x y) : rectIntersects a b = true := by
  obtain ⟨aRight, aBottom⟩ := aSmall.ends
  obtain ⟨bRight, bBottom⟩ := bSmall.ends
  have aValid := inA.valid
  have bValid := inB.valid
  obtain ⟨aLeft, aUpToX, aTop, aUpToY⟩ := inA
  obtain ⟨bLeft, bUpToX, bTop, bUpToY⟩ := inB
  simp [rectIntersects, aValid, bValid, Int32.le_iff_toInt_le, aRight, aBottom, bRight, bBottom]
  omega

theorem rectIntersects_has (aSmall : a.Small) (bSmall : b.Small)
    (meets : rectIntersects a b = true) : ∃ x y, a.Has x y ∧ b.Has x y := by
  obtain ⟨aRight, aBottom⟩ := aSmall.ends
  obtain ⟨bRight, bBottom⟩ := bSmall.ends
  simp [rectIntersects, rectValid_iff, Int32.le_iff_toInt_le, aRight, aBottom, bRight, bBottom] at meets
  exact ⟨max a.x.toInt b.x.toInt, max a.y.toInt b.y.toInt,
    ⟨by omega, by omega, by omega, by omega⟩, by omega, by omega, by omega, by omega⟩

theorem rectIntersects_mono {whole : Rect} (small : a.Small) (wholeSmall : whole.Small)
    (inside : ∀ x y, a.Has x y → whole.Has x y) (meets : rectIntersects a b = true) :
    rectIntersects whole b = true := by
  obtain ⟨aRight, aBottom⟩ := small.ends
  obtain ⟨wholeRight, wholeBottom⟩ := wholeSmall.ends
  simp [rectIntersects, rectValid_iff, Int32.le_iff_toInt_le, aRight, aBottom] at meets
  obtain ⟨⟨⟨wide, high⟩, bWide, bHigh⟩, fromX, toX, fromY, toY⟩ := meets
  obtain ⟨left, right, top, bottom⟩ := inside a.x.toInt a.y.toInt ⟨by omega, by omega, by
    omega, by omega⟩
  obtain ⟨left', right', top', bottom'⟩ := inside (a.x.toInt + a.w.toInt - 1)
    (a.y.toInt + a.h.toInt - 1) ⟨by omega, by omega, by omega, by omega⟩
  simp [rectIntersects, rectValid_iff, Int32.le_iff_toInt_le, wholeRight, wholeBottom]
  omega

theorem fullRect_sides (screen : fb.Small) :
    (fullRect fb).x.toInt = 0 ∧ (fullRect fb).y.toInt = 0 ∧ (fullRect fb).w.toInt = fb.width.toNat ∧
      (fullRect fb).h.toInt = fb.height.toNat := by
  have width := screen.width
  have height := screen.height
  exact ⟨rfl, rfl, UInt32.toInt_toInt32_fits (by omega), UInt32.toInt_toInt32_fits (by omega)⟩

theorem fullRect_small (screen : fb.Small) : (fullRect fb).Small := by
  obtain ⟨x, y, w, h⟩ := fullRect_sides screen
  have width := screen.width
  have height := screen.height
  constructor <;> omega

theorem fullRect_has (screen : fb.Small) : (fullRect fb).Has x y ↔ fb.Has x y := by
  obtain ⟨left, top, w, h⟩ := fullRect_sides screen
  constructor
  · rintro ⟨hasLeft, hasRight, hasTop, hasBottom⟩
    exact ⟨by omega, by omega, by omega, by omega⟩
  · rintro ⟨hasLeft, hasRight, hasTop, hasBottom⟩
    exact ⟨by omega, by omega, by omega, by omega⟩

theorem clipToFb_small (screen : fb.Small) (small : a.Small) : (clipToFb fb a).Small :=
  rectIntersection_small small (fullRect_small screen)

theorem clipToFb_has_iff (screen : fb.Small) (small : a.Small) :
    (clipToFb fb a).Has x y ↔ a.Has x y ∧ fb.Has x y := by
  rw [← fullRect_has screen]
  exact rectIntersection_has small (fullRect_small screen)

theorem Rect.ext_toInt (x : a.x.toInt = b.x.toInt) (y : a.y.toInt = b.y.toInt)
    (w : a.w.toInt = b.w.toInt) (h : a.h.toInt = b.h.toInt) : a = b := by
  obtain ⟨ax, ay, aw, ah⟩ := a
  obtain ⟨bx, bY, bw, bh⟩ := b
  rw [Rect.mk.injEq]
  exact ⟨Int32.toInt_inj.mp x, Int32.toInt_inj.mp y, Int32.toInt_inj.mp w, Int32.toInt_inj.mp h⟩

theorem clipToFb_again (screen : fb.Small) (small : a.Small) :
    clipToFb fb (clipToFb fb a) = clipToFb fb a := by
  obtain ⟨x, y, w, h⟩ := rectIntersection_sides small (fullRect_small screen)
  obtain ⟨againX, againY, againW, againH⟩ :=
    rectIntersection_sides (rectIntersection_small small (fullRect_small screen)) (fullRect_small screen)
  obtain ⟨acrossStart, acrossLength⟩ := @overlap_again a.x.toInt a.w.toInt (fullRect fb).x.toInt
    (fullRect fb).w.toInt
  obtain ⟨downStart, downLength⟩ := @overlap_again a.y.toInt a.h.toInt (fullRect fb).y.toInt
    (fullRect fb).h.toInt
  rw [← w, ← x] at acrossLength
  rw [← h, ← y] at downLength
  rw [← x] at acrossStart
  rw [← y] at downStart
  exact Rect.ext_toInt (againX.trans acrossStart) (againY.trans downStart)
    (againW.trans acrossLength) (againH.trans downLength)

theorem clipToFb_full (screen : fb.Small) : clipToFb fb (fullRect fb) = fullRect fb := by
  obtain ⟨fullX, fullY, fullW, fullH⟩ := fullRect_sides screen
  obtain ⟨x, y, w, h⟩ := rectIntersection_sides (fullRect_small screen) (fullRect_small screen)
  refine Rect.ext_toInt (x.trans ?_) (y.trans ?_) (w.trans ?_) (h.trans ?_)
  · exact max_self _
  · exact max_self _
  · omega
  · omega

theorem desktopTopRect_sides (screen : fb.Small) :
    (desktopTopRect fb).x.toInt = 0 ∧ (desktopTopRect fb).y.toInt = 0 ∧
      (desktopTopRect fb).w.toInt = fb.width.toNat ∧ (desktopTopRect fb).h.toInt = 32 := by
  obtain ⟨x, y, w, h⟩ := fullRect_sides screen
  exact ⟨rfl, rfl, w, rfl⟩

theorem desktopTopRect_small (screen : fb.Small) : (desktopTopRect fb).Small := by
  obtain ⟨x, y, w, h⟩ := desktopTopRect_sides screen
  have width := screen.width
  constructor <;> omega

theorem desktopSideRect_small (screen : fb.Small) : (desktopSideRect fb).Small := by
  obtain ⟨x, y, w, h⟩ := fullRect_sides screen
  have height := screen.height
  change fb.height.toInt32.toInt = _ at h
  have top : desktopTopH.toInt = 32 := rfl
  have left := Int32.toInt_sub_fits (a := fb.height.toInt32) (b := desktopTopH) (by omega) (by omega)
  have sideX : (desktopSideRect fb).x.toInt = 0 := rfl
  have sideY : (desktopSideRect fb).y.toInt = 32 := rfl
  have sideW : (desktopSideRect fb).w.toInt = 150 := rfl
  have sideH : (desktopSideRect fb).h.toInt = max 0 (fb.height.toInt32 - desktopTopH).toInt :=
    toInt_positive
  constructor <;> omega

end Sets

structure DesktopWindow.Modest (w : DesktopWindow) : Prop where
  left : -2 ^ 27 ≤ w.win.x.toInt
  right : w.win.x.toInt ≤ 2 ^ 27
  top : -2 ^ 27 ≤ w.win.y.toInt
  bottom : w.win.y.toInt ≤ 2 ^ 27
  wide : w.win.width.toNat ≤ 2 ^ 27
  high : w.win.height.toNat ≤ 2 ^ 27
  lines : w.lines.length ≤ 2 ^ 16
  notNarrow : 4 ≤ w.win.width.toNat
  notLow : 4 ≤ w.win.height.toNat

instance (w : DesktopWindow) : Decidable w.Modest :=
  decidable_of_iff ((-2 ^ 27 ≤ w.win.x.toInt ∧ w.win.x.toInt ≤ 2 ^ 27) ∧
      (-2 ^ 27 ≤ w.win.y.toInt ∧ w.win.y.toInt ≤ 2 ^ 27) ∧
      (w.win.width.toNat ≤ 2 ^ 27 ∧ w.win.height.toNat ≤ 2 ^ 27 ∧ w.lines.length ≤ 2 ^ 16) ∧
      4 ≤ w.win.width.toNat ∧ 4 ≤ w.win.height.toNat)
    ⟨fun h => ⟨h.1.1, h.1.2, h.2.1.1, h.2.1.2, h.2.2.1.1, h.2.2.1.2.1, h.2.2.1.2.2, h.2.2.2.1, h.2.2.2.2⟩,
      fun h => ⟨⟨h.left, h.right⟩, ⟨h.top, h.bottom⟩, ⟨h.wide, h.high, h.lines⟩, h.notNarrow, h.notLow⟩⟩

structure Display.Sound (d : Display) : Prop where
  screen : d.fb.Small
  font : d.font.Sound

section Windows

variable {d : Display} {w : DesktopWindow}

theorem desktopFontW_toInt (sound : d.Sound) : (desktopFontW d).toInt = 8 := by
  have width : guiFontWidth d = 8 := by
    rw [guiFontWidth, sound.font.width]
    rfl
  rw [desktopFontW, width]
  rfl

theorem desktopFontH_toInt (sound : d.Sound) :
    (desktopFontH d).toInt = d.font.metrics.charHeight.toNat ∧ 0 < d.font.metrics.charHeight.toNat ∧
      d.font.metrics.charHeight.toNat < 256 := by
  have tall := sound.font.tall
  have low := sound.font.low
  have height : guiFontHeight d = d.font.metrics.charHeight := by
    rw [guiFontHeight, if_pos]
    intro zero
    rw [zero, UInt32.toNat_zero] at tall
    exact Nat.lt_irrefl 0 tall
  rw [desktopFontH, height, UInt32.toInt_toInt32_fits (by omega)]
  exact ⟨rfl, tall, low⟩

theorem windowTitleHeight_fits (sound : d.Sound) {win : GuiWindow} (high : 4 ≤ win.height.toNat) :
    (windowTitleHeight d win).toNat + 2 ≤ win.height.toNat ∧ (windowTitleHeight d win).toNat < 262 := by
  obtain ⟨height, tall, low⟩ := desktopFontH_toInt sound
  have titleH : (desktopFontH d + 6).toUInt32.toNat = d.font.metrics.charHeight.toNat + 6 := by
    have word := toNat_toUInt32_add (desktopFontH d) 6
    rw [Int32.toUInt32_add]
    change _ = ((desktopFontH d).toInt + 6) % 2 ^ 32 at word
    change ((desktopFontH d).toUInt32 + 6).toNat = _
    omega
  have padded : ((desktopFontH d + 6).toUInt32 + 2).toNat = d.font.metrics.charHeight.toNat + 8 := by
    rw [UInt32.toNat_add, titleH]
    change (_ + 2) % 2 ^ 32 = _
    omega
  rw [windowTitleHeight]
  split
  next cut =>
    have order := UInt32.lt_iff_toNat_lt.mp cut
    have two : (2 : UInt32).toNat = 2 := rfl
    have room : win.height > 2 := UInt32.lt_iff_toNat_lt.mpr (by omega)
    rw [if_pos room, UInt32.toNat_sub_of_le _ _ (UInt32.le_of_lt room)]
    omega
  next fits =>
    have order := UInt32.lt_iff_toNat_lt.not.mp fits
    omega

theorem windowRect_sides (modest : w.Modest) :
    (windowRect w.win).x.toInt = w.win.x.toInt ∧ (windowRect w.win).y.toInt = w.win.y.toInt ∧
      (windowRect w.win).w.toInt = w.win.width.toNat ∧ (windowRect w.win).h.toInt = w.win.height.toNat := by
  have wide := modest.wide
  have high := modest.high
  exact ⟨rfl, rfl, UInt32.toInt_toInt32_fits (by omega), UInt32.toInt_toInt32_fits (by omega)⟩

theorem windowRect_small (modest : w.Modest) : (windowRect w.win).Small := by
  obtain ⟨x, y, width, height⟩ := windowRect_sides modest
  obtain ⟨left, right, top, bottom, wide, high, lines⟩ := modest
  constructor <;> omega

def titleBarRect (d : Display) (w : DesktopWindow) : Rect :=
  makeRect (w.win.x + 1) (w.win.y + 1) (w.win.width.toInt32 - 2) (windowTitleHeight d w.win).toInt32

theorem titleBarRect_sides (sound : d.Sound) (modest : w.Modest) (wide : 4 ≤ w.win.width.toNat)
    (high : 4 ≤ w.win.height.toNat) :
    (titleBarRect d w).x.toInt = w.win.x.toInt + 1 ∧ (titleBarRect d w).y.toInt =
      w.win.y.toInt + 1 ∧ (titleBarRect d w).w.toInt = w.win.width.toNat - 2 ∧
      (titleBarRect d w).h.toInt = (windowTitleHeight d w.win).toNat := by
  obtain ⟨titleFits, titleLow⟩ := windowTitleHeight_fits sound high
  obtain ⟨left, right, top, bottom, wide', high', lines⟩ := modest
  have one : (1 : Int32).toInt = 1 := rfl
  have two : (2 : Int32).toInt = 2 := rfl
  have width := UInt32.toInt_toInt32_fits (n := w.win.width) (by omega)
  refine ⟨Int32.toInt_add_fits (by omega) (by omega), Int32.toInt_add_fits (by omega) (by omega),
    ?_, UInt32.toInt_toInt32_fits (by omega)⟩
  rw [titleBarRect, makeRect, Int32.toInt_sub_fits (by omega) (by omega), width, two]

theorem windowBodyRect_sides (sound : d.Sound) (modest : w.Modest) (wide : 4 ≤ w.win.width.toNat)
    (high : 4 ≤ w.win.height.toNat) :
    (windowBodyRect d w).x.toInt = w.win.x.toInt + 1 ∧
      (windowBodyRect d w).y.toInt = w.win.y.toInt + 1 + (windowTitleHeight d w.win).toNat ∧
      (windowBodyRect d w).w.toInt = w.win.width.toNat - 2 ∧
      (windowBodyRect d w).h.toInt = w.win.height.toNat - (windowTitleHeight d w.win).toNat - 2 := by
  obtain ⟨titleFits, titleLow⟩ := windowTitleHeight_fits sound high
  obtain ⟨left, right, top, bottom, wide', high', lines⟩ := modest
  have one : (1 : Int32).toInt = 1 := rfl
  have two : (2 : Int32).toInt = 2 := rfl
  have width := UInt32.toInt_toInt32_fits (n := w.win.width) (by omega)
  have height := UInt32.toInt_toInt32_fits (n := w.win.height) (by omega)
  have titleH := UInt32.toInt_toInt32_fits (n := windowTitleHeight d w.win) (by omega)
  have y1 : (w.win.y + 1).toInt = w.win.y.toInt + 1 := Int32.toInt_add_fits (by omega) (by omega)
  have h1 : (w.win.height.toInt32 - (windowTitleHeight d w.win).toInt32).toInt =
      w.win.height.toNat - (windowTitleHeight d w.win).toNat := by
    rw [Int32.toInt_sub_fits (by omega) (by omega), height, titleH]
  refine ⟨Int32.toInt_add_fits (by omega) (by omega), ?_, ?_, ?_⟩
  · rw [windowBodyRect, makeRect, Int32.toInt_add_fits (by omega) (by omega), y1, titleH]
  · rw [windowBodyRect, makeRect, Int32.toInt_sub_fits (by omega) (by omega), width, two]
  · rw [windowBodyRect, makeRect, Int32.toInt_sub_fits (by omega) (by omega), h1, two]

structure DesktopWindow.Holds (w : DesktopWindow) (r : Rect) : Prop where
  small : r.Bounded (2 ^ 28)
  inside : ∀ x y, r.Has x y → (windowRect w.win).Has x y

theorem titleBarRect_held (sound : d.Sound) (modest : w.Modest) (wide : 4 ≤ w.win.width.toNat)
    (high : 4 ≤ w.win.height.toNat) : w.Holds (titleBarRect d w) := by
  obtain ⟨titleFits, titleLow⟩ := windowTitleHeight_fits sound high
  obtain ⟨winX, winY, winW, winH⟩ := windowRect_sides modest
  obtain ⟨x, y, width, height⟩ := titleBarRect_sides sound modest wide high
  obtain ⟨left, right, top, bottom, wide', high', lines⟩ := modest
  constructor
  · constructor <;> omega
  · rintro px py ⟨hasLeft, hasRight, hasTop, hasBottom⟩
    exact ⟨by omega, by omega, by omega, by omega⟩

theorem windowBodyRect_held (sound : d.Sound) (modest : w.Modest) (wide : 4 ≤ w.win.width.toNat)
    (high : 4 ≤ w.win.height.toNat) : w.Holds (windowBodyRect d w) := by
  obtain ⟨titleFits, titleLow⟩ := windowTitleHeight_fits sound high
  obtain ⟨winX, winY, winW, winH⟩ := windowRect_sides modest
  obtain ⟨x, y, width, height⟩ := windowBodyRect_sides sound modest wide high
  obtain ⟨left, right, top, bottom, wide', high', lines⟩ := modest
  constructor
  · constructor <;> omega
  · rintro px py ⟨hasLeft, hasRight, hasTop, hasBottom⟩
    exact ⟨by omega, by omega, by omega, by omega⟩

theorem closeButtonRect_held (sound : d.Sound) (modest : w.Modest) (high : 4 ≤ w.win.height.toNat) :
    w.Holds (closeButtonRect d w.win) := by
  obtain ⟨titleFits, titleLow⟩ := windowTitleHeight_fits sound high
  obtain ⟨winX, winY, winW, winH⟩ := windowRect_sides modest
  obtain ⟨left, right, top, bottom, wide', high', lines⟩ := modest
  rw [closeButtonRect]
  split
  next =>
    constructor
    · constructor <;> decide
    · rintro px py ⟨hasLeft, hasRight, hasTop, hasBottom⟩
      change (0 : Int) ≤ px at hasLeft
      change px < (0 : Int) + 0 at hasRight
      omega
  next roomy =>
    simp only [Bool.or_eq_true, decide_eq_true_eq, UInt32.lt_iff_toNat_lt, not_or, Nat.not_lt] at roomy
    have wideEnough : 38 ≤ w.win.width.toNat := roomy.1
    have highEnough : 12 ≤ (windowTitleHeight d w.win).toNat := roomy.2
    have four : (4 : Int32).toInt = 4 := rfl
    have ten : (10 : Int32).toInt = 10 := rfl
    have sixteen : (16 : Int32).toInt = 16 := rfl
    have width := UInt32.toInt_toInt32_fits (n := w.win.width) (by omega)
    have x1 : (w.win.x + w.win.width.toInt32).toInt = w.win.x.toInt + w.win.width.toNat := by
      rw [Int32.toInt_add_fits (by omega) (by omega), width]
    have x : (w.win.x + w.win.width.toInt32 - 16).toInt = w.win.x.toInt + w.win.width.toNat - 16 := by
      rw [Int32.toInt_sub_fits (by omega) (by omega), x1, sixteen]
    have y : (w.win.y + 4).toInt = w.win.y.toInt + 4 := Int32.toInt_add_fits (by omega) (by omega)
    constructor
    · constructor <;> simp only [makeRect, x, y, ten] <;> omega
    · rintro px py ⟨hasLeft, hasRight, hasTop, hasBottom⟩
      simp only [makeRect, x, y, ten] at hasLeft hasRight hasTop hasBottom
      exact ⟨by omega, by omega, by omega, by omega⟩

end Windows

end Szczupak
