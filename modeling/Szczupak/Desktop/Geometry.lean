import Mathlib.Algebra.Order.Group.Int
import Mathlib.Data.Int.Order.Basic
import Mathlib.Tactic.Ring

/-!
The rectangles of `desktop/geometry.c`, on 32-bit integers, and the pixels in them.
-/

namespace Szczupak

structure Rect where
  x : Int32
  y : Int32
  w : Int32
  h : Int32
deriving DecidableEq

structure FbInfo where
  width : UInt32
  height : UInt32

def clampI32 (v lo hi : Int32) : Int32 := if v < lo then lo else if v > hi then hi else v

def makeRect (x y w h : Int32) : Rect := { x, y, w, h }

def rectValid (r : Rect) : Bool := r.w > 0 && r.h > 0

def rectIntersects (a b : Rect) : Bool :=
  if !rectValid a || !rectValid b then false
  else if a.x + a.w ≤ b.x then false
  else if b.x + b.w ≤ a.x then false
  else if a.y + a.h ≤ b.y then false
  else if b.y + b.h ≤ a.y then false
  else true

def rectIntersection (a b : Rect) : Rect :=
  let x1 := if a.x > b.x then a.x else b.x
  let y1 := if a.y > b.y then a.y else b.y
  let x2 := if a.x + a.w < b.x + b.w then a.x + a.w else b.x + b.w
  let y2 := if a.y + a.h < b.y + b.h then a.y + a.h else b.y + b.h
  let w := x2 - x1
  let h := y2 - y1
  { x := x1, y := y1, w := if w < 0 then 0 else w, h := if h < 0 then 0 else h }

def rectUnion (a b : Rect) : Rect :=
  if !rectValid a then b
  else if !rectValid b then a
  else
    let x1 := if a.x < b.x then a.x else b.x
    let y1 := if a.y < b.y then a.y else b.y
    let x2 := if a.x + a.w > b.x + b.w then a.x + a.w else b.x + b.w
    let y2 := if a.y + a.h > b.y + b.h then a.y + a.h else b.y + b.h
    makeRect x1 y1 (x2 - x1) (y2 - y1)

def clipToFb (fb : FbInfo) (r : Rect) : Rect :=
  let fbRect := makeRect 0 0 fb.width.toInt32 fb.height.toInt32
  rectIntersection r fbRect

structure Rect.Has (r : Rect) (x y : Int) : Prop where
  left : r.x.toInt ≤ x
  right : x < r.x.toInt + r.w.toInt
  top : r.y.toInt ≤ y
  bottom : y < r.y.toInt + r.h.toInt

instance (r : Rect) (x y : Int) : Decidable (r.Has x y) :=
  decidable_of_iff
    (r.x.toInt ≤ x ∧ x < r.x.toInt + r.w.toInt ∧ r.y.toInt ≤ y ∧ y < r.y.toInt + r.h.toInt)
    ⟨fun has => ⟨has.1, has.2.1, has.2.2.1, has.2.2.2⟩, fun has => ⟨has.left, has.right, has.top, has.bottom⟩⟩

def Rect.Apart (a b : Rect) : Prop := ∀ x y, a.Has x y → ¬b.Has x y

structure Rect.SumsFit (r : Rect) : Prop where
  left : -2 ^ 31 ≤ r.x.toInt + r.w.toInt
  right : r.x.toInt + r.w.toInt < 2 ^ 31
  top : -2 ^ 31 ≤ r.y.toInt + r.h.toInt
  bottom : r.y.toInt + r.h.toInt < 2 ^ 31

structure FbInfo.SumsFit (fb : FbInfo) : Prop where
  width : fb.width.toNat < 2 ^ 31
  height : fb.height.toNat < 2 ^ 31

structure FbInfo.Has (fb : FbInfo) (x y : Int) : Prop where
  left : 0 ≤ x
  right : x < fb.width.toNat
  top : 0 ≤ y
  bottom : y < fb.height.toNat

instance (fb : FbInfo) (x y : Int) : Decidable (fb.Has x y) :=
  decidable_of_iff (0 ≤ x ∧ x < fb.width.toNat ∧ 0 ≤ y ∧ y < fb.height.toNat)
    ⟨fun has => ⟨has.1, has.2.1, has.2.2.1, has.2.2.2⟩, fun has => ⟨has.left, has.right, has.top, has.bottom⟩⟩

structure Rect.Inside (r : Rect) (width height : Nat) : Prop where
  left : 0 ≤ r.x.toInt
  wide : 0 < r.w.toInt
  right : r.x.toInt + r.w.toInt ≤ width
  top : 0 ≤ r.y.toInt
  high : 0 < r.h.toInt
  bottom : r.y.toInt + r.h.toInt ≤ height

section Words

variable {a b : Int32}

theorem Int32.toInt_add_fits (lower : -2 ^ 31 ≤ a.toInt + b.toInt)
    (upper : a.toInt + b.toInt < 2 ^ 31) : (a + b).toInt = a.toInt + b.toInt := by
  rw [Int32.toInt_add]
  apply Int.bmod_eq_of_le
  · omega
  · omega

theorem Int32.toInt_sub_fits (lower : -2 ^ 31 ≤ a.toInt - b.toInt)
    (upper : a.toInt - b.toInt < 2 ^ 31) : (a - b).toInt = a.toInt - b.toInt := by
  rw [Int32.toInt_sub]
  apply Int.bmod_eq_of_le
  · omega
  · omega

theorem toInt_larger : (if a > b then a else b).toInt = max a.toInt b.toInt := by
  split
  next greater =>
    have order := Int32.lt_iff_toInt_lt.mp greater
    omega
  next greater =>
    have order := Int32.lt_iff_toInt_lt.not.mp greater
    omega

theorem toInt_smaller : (if a < b then a else b).toInt = min a.toInt b.toInt := by
  split
  next less =>
    have order := Int32.lt_iff_toInt_lt.mp less
    omega
  next less =>
    have order := Int32.lt_iff_toInt_lt.not.mp less
    omega

theorem toInt_positive : (if a < 0 then 0 else a).toInt = max 0 a.toInt := by
  split
  next negative =>
    have order := Int32.lt_iff_toInt_lt.mp negative
    rw [Int32.toInt_zero] at order ⊢
    omega
  next negative =>
    have order := Int32.lt_iff_toInt_lt.not.mp negative
    rw [Int32.toInt_zero] at order
    omega

theorem UInt32.toInt_toInt32_fits {n : UInt32} (fits : n.toNat < 2 ^ 31) :
    n.toInt32.toInt = n.toNat := by
  rw [← Int32.toInt_toBitVec, UInt32.toBitVec_toInt32, BitVec.toInt_eq_toNat_of_lt]
  · rfl
  · change 2 * n.toNat < 2 ^ 32
    omega

end Words

section Rects

variable {a b : Rect} {fb : FbInfo} {width height : Nat}

theorem rectValid_iff : rectValid a = true ↔ 0 < a.w.toInt ∧ 0 < a.h.toInt := by
  simp [rectValid, Int32.lt_iff_toInt_lt]

theorem Rect.Inside.valid (inside : a.Inside width height) : rectValid a = true :=
  rectValid_iff.mpr ⟨inside.wide, inside.high⟩

theorem Rect.Inside.ends (inside : a.Inside width height) (narrow : width < 2 ^ 31)
    (low : height < 2 ^ 31) :
    (a.x + a.w).toInt = a.x.toInt + a.w.toInt ∧ (a.y + a.h).toInt = a.y.toInt + a.h.toInt := by
  obtain ⟨left, wide, right, top, high, bottom⟩ := inside
  constructor
  · exact Int32.toInt_add_fits (by omega) (by omega)
  · exact Int32.toInt_add_fits (by omega) (by omega)

section

variable (aInside : a.Inside width height) (bInside : b.Inside width height)
include aInside bInside

theorem rectIntersects_apart
    (narrow : width < 2 ^ 31) (low : height < 2 ^ 31) (misses : rectIntersects a b = false) :
    a.Apart b := by
  obtain ⟨aRight, aBottom⟩ := aInside.ends narrow low
  obtain ⟨bRight, bBottom⟩ := bInside.ends narrow low
  intro x y inA inB
  obtain ⟨aLeft, aUpToX, aTop, aUpToY⟩ := inA
  obtain ⟨bLeft, bUpToX, bTop, bUpToY⟩ := inB
  simp [rectIntersects, aInside.valid, bInside.valid, Int32.le_iff_toInt_le, aRight, aBottom,
    bRight, bBottom] at misses
  omega

theorem rectUnion_sides (narrow : width < 2 ^ 31) (low : height < 2 ^ 31) :
    (rectUnion a b).x.toInt = min a.x.toInt b.x.toInt ∧
    (rectUnion a b).y.toInt = min a.y.toInt b.y.toInt ∧
    (rectUnion a b).x.toInt + (rectUnion a b).w.toInt = max (a.x.toInt + a.w.toInt)
    (b.x.toInt + b.w.toInt) ∧
    (rectUnion a b).y.toInt + (rectUnion a b).h.toInt = max (a.y.toInt + a.h.toInt)
    (b.y.toInt + b.h.toInt) := by
  obtain ⟨aRight, aBottom⟩ := aInside.ends narrow low
  obtain ⟨bRight, bBottom⟩ := bInside.ends narrow low
  have aValid := aInside.valid
  have bValid := bInside.valid
  obtain ⟨aLeft, aWide, aInRight, aTop, aHigh, aInBottom⟩ := aInside
  obtain ⟨bLeft, bWide, bInRight, bTop, bHigh, bInBottom⟩ := bInside
  have x1 := @toInt_smaller a.x b.x
  have y1 := @toInt_smaller a.y b.y
  have x2 := @toInt_larger (a.x + a.w) (b.x + b.w)
  have y2 := @toInt_larger (a.y + a.h) (b.y + b.h)
  rw [aRight, bRight] at x2
  rw [aBottom, bBottom] at y2
  simp only [rectUnion, aValid, bValid, makeRect, Bool.not_true, Bool.false_eq_true, if_false]
  rw [Int32.toInt_sub_fits (by omega) (by omega), Int32.toInt_sub_fits (by omega) (by omega),
    x1, y1, x2, y2]
  omega

theorem rectUnion_inside
    (narrow : width < 2 ^ 31) (low : height < 2 ^ 31) : (rectUnion a b).Inside width height := by
  obtain ⟨x, y, right, bottom⟩ := rectUnion_sides aInside bInside narrow low
  obtain ⟨aLeft, aWide, aInRight, aTop, aHigh, aInBottom⟩ := aInside
  obtain ⟨bLeft, bWide, bInRight, bTop, bHigh, bInBottom⟩ := bInside
  constructor <;> omega

theorem rectUnion_has
    (narrow : width < 2 ^ 31) (low : height < 2 ^ 31) {x y : Int} (has : a.Has x y ∨ b.Has x y) :
    (rectUnion a b).Has x y := by
  obtain ⟨left, top, right, bottom⟩ := rectUnion_sides aInside bInside narrow low
  rcases has with ⟨hasLeft, hasRight, hasTop, hasBottom⟩ | ⟨hasLeft, hasRight, hasTop, hasBottom⟩
  · constructor <;> omega
  · constructor <;> omega

end

theorem clipToFb_sides (fits : a.SumsFit) (screen : fb.SumsFit) :
    (clipToFb fb a).x.toInt = max a.x.toInt 0 ∧ (clipToFb fb a).y.toInt = max a.y.toInt 0 ∧
    (clipToFb fb a).w.toInt = max 0 (min (a.x.toInt + a.w.toInt) fb.width.toNat - max a.x.toInt 0) ∧
    (clipToFb fb a).h.toInt =
    max 0 (min (a.y.toInt + a.h.toInt) fb.height.toNat - max a.y.toInt 0) := by
  have width := UInt32.toInt_toInt32_fits screen.width
  have height := UInt32.toInt_toInt32_fits screen.height
  have narrow := screen.width
  have low := screen.height
  have xLow := a.x.le_toInt
  have xHigh := a.x.toInt_lt
  have yLow := a.y.le_toInt
  have yHigh := a.y.toInt_lt
  have wLow := a.w.le_toInt
  have hLow := a.h.le_toInt
  have right := Int32.toInt_add_fits fits.left fits.right
  have bottom := Int32.toInt_add_fits fits.top fits.bottom
  obtain ⟨fitLeft, fitRight, fitTop, fitBottom⟩ := fits
  have x1 : (clipToFb fb a).x.toInt = max a.x.toInt (0 : Int32).toInt := toInt_larger
  have y1 : (clipToFb fb a).y.toInt = max a.y.toInt (0 : Int32).toInt := toInt_larger
  have x2 := @toInt_smaller (a.x + a.w) (0 + fb.width.toInt32)
  have y2 := @toInt_smaller (a.y + a.h) (0 + fb.height.toInt32)
  rw [right, Int32.zero_add, width] at x2
  rw [bottom, Int32.zero_add, height] at y2
  rw [Int32.toInt_zero] at x1 y1
  have w : (clipToFb fb a).w.toInt =
      max 0 ((if a.x + a.w < 0 + fb.width.toInt32 then a.x + a.w
        else 0 + fb.width.toInt32) - (clipToFb fb a).x).toInt :=
    toInt_positive
  have h : (clipToFb fb a).h.toInt =
      max 0 ((if a.y + a.h < 0 + fb.height.toInt32 then a.y + a.h
        else 0 + fb.height.toInt32) - (clipToFb fb a).y).toInt :=
    toInt_positive
  rw [Int32.zero_add, Int32.toInt_sub_fits (by omega) (by omega), x2, x1] at w
  rw [Int32.zero_add, Int32.toInt_sub_fits (by omega) (by omega), y2, y1] at h
  exact ⟨x1, y1, w, h⟩

theorem clipToFb_inside (fits : a.SumsFit) (screen : fb.SumsFit)
    (valid : rectValid (clipToFb fb a) = true) :
    (clipToFb fb a).Inside fb.width.toNat fb.height.toNat := by
  obtain ⟨x, y, w, h⟩ := clipToFb_sides fits screen
  obtain ⟨wide, high⟩ := rectValid_iff.mp valid
  constructor <;> omega

theorem clipToFb_has (fits : a.SumsFit) (screen : fb.SumsFit) {x y : Int} (has : a.Has x y)
    (onScreen : fb.Has x y) : (clipToFb fb a).Has x y := by
  obtain ⟨left, top, wide, high⟩ := clipToFb_sides fits screen
  obtain ⟨hasLeft, hasRight, hasTop, hasBottom⟩ := has
  obtain ⟨screenLeft, screenRight, screenTop, screenBottom⟩ := onScreen
  constructor <;> omega

end Rects

end Szczupak
