import Mathlib.Data.List.FinRange
import Szczupak.Drivers.Framebuffer
import Szczupak.Lib.Numeral

/-!
The windows of the desktop, `desktop/window.c` and the rest of `desktop/geometry.c`.  A text is the
bytes of a C string; `lines` are as many as `line_count` says.
-/

namespace Szczupak

abbrev windowCount : Nat := 3

structure GuiWindow where
  x : Int32
  y : Int32
  width : UInt32
  height : UInt32
  title : Option (List UInt8)
  borderColor : FbColor
  titleBgColor : FbColor
  bodyColor : FbColor
  titleFgColor : FbColor

structure DesktopWindow where
  win : GuiWindow
  themeIdx : UInt32
  lines : List (Option (List UInt8))
  selectedLine : Int32
  selectedBgColor : FbColor
  selectedFgColor : FbColor
  visible : Bool

structure DesktopSnapshot where
  windows : Fin windowCount → DesktopWindow
  zOrder : Fin windowCount → Int32
  activeIdx : Int32

def guiFontWidth (d : Display) : UInt32 :=
  if d.font.metrics.charWidth ≠ 0 then d.font.metrics.charWidth else 8

def guiFontHeight (d : Display) : UInt32 :=
  if d.font.metrics.charHeight ≠ 0 then d.font.metrics.charHeight else 16

def desktopFontW (d : Display) : Int32 := (guiFontWidth d).toInt32

def desktopFontH (d : Display) : Int32 := (guiFontHeight d).toInt32

def desktopLineAdvance (d : Display) : Int32 := desktopFontH d + 2

def desktopTopH : Int32 := 32

def desktopSideW : Int32 := 150

def rectExpand (r : Rect) (padX padY : Int32) : Rect :=
  { x := r.x - padX, y := r.y - padY, w := r.w + padX * 2, h := r.h + padY * 2 }

def fullRect (fb : FbInfo) : Rect := makeRect 0 0 fb.width.toInt32 fb.height.toInt32

def desktopTopRect (fb : FbInfo) : Rect := makeRect 0 0 fb.width.toInt32 desktopTopH

def desktopSideRect (fb : FbInfo) : Rect :=
  let h := fb.height.toInt32 - desktopTopH
  let h := if h < 0 then 0 else h
  makeRect 0 desktopTopH desktopSideW h

def iconW : Int32 := 84

def iconH : Int32 := 84

def iconRect (index : Fin windowCount) : Rect :=
  makeRect 20 (52 + Int32.ofNat index * (iconH + 20)) iconW iconH

def pointInFb (fb : FbInfo) (x y : Int32) : Bool :=
  if x < 0 || y < 0 then false
  else if x ≥ fb.width.toInt32 then false
  else if y ≥ fb.height.toInt32 then false
  else true

def windowTitleHeight (d : Display) (win : GuiWindow) : UInt32 :=
  let titleH := (desktopFontH d + 6).toUInt32
  if titleH + 2 > win.height then if win.height > 2 then win.height - 2 else 0
  else titleH

def windowRect (win : GuiWindow) : Rect := makeRect win.x win.y win.width.toInt32 win.height.toInt32

def closeButtonRect (d : Display) (win : GuiWindow) : Rect :=
  let titleH := windowTitleHeight d win
  if win.width < 38 || titleH < 12 then makeRect 0 0 0 0
  else makeRect (win.x + win.width.toInt32 - 16) (win.y + 4) 10 10

def windowBodyRect (d : Display) (w : DesktopWindow) : Rect :=
  let titleH := (windowTitleHeight d w.win).toInt32
  makeRect (w.win.x + 1) (w.win.y + 1 + titleH) (w.win.width.toInt32 - 2)
  (w.win.height.toInt32 - titleH - 2)

def windowGeometryChanged (a b : DesktopWindow) : Bool :=
  a.win.x != b.win.x || a.win.y != b.win.y || a.win.width != b.win.width || a.win.height != b.win.height

def windowStyleChanged (a b : DesktopWindow) : Bool := a.themeIdx != b.themeIdx

def countVisibleWindows (windows : Fin windowCount → DesktopWindow) : Nat :=
  (List.finRange windowCount).countP fun i => (windows i).visible

def windowIdx (idx : Int32) : Option (Fin windowCount) :=
  if inside : 0 ≤ idx.toInt ∧ idx.toInt.toNat < windowCount then some ⟨idx.toInt.toNat, inside.2⟩
    else none

def topVisibleWindow (windows : Fin windowCount → DesktopWindow)
    (zOrder : Fin windowCount → Int32) : Int32 :=
  let isVisible (idx : Int32) : Bool := (windowIdx idx).any fun i => (windows i).visible
  (((List.finRange windowCount).reverse.map zOrder).find? isVisible).getD (-1)

end Szczupak
