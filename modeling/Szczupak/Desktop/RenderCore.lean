import Szczupak.Desktop.WindowCore

/-!
The drawing of the desktop, `desktop/render.c`: the calls that it makes to the kernel, in order.
What they return is not looked at.
-/

namespace Szczupak

inductive GuiCall where
  | fillRect (x y w h : UInt32) (color : FbColor)
  | drawChar (x y : UInt32) (c : UInt8) (fg bg : FbColor)
  | putpixel (x y : UInt32) (color : FbColor)

def GuiCall.ink (d : Display) : GuiCall → Int × Int → Option FbPixel
  | .fillRect x y w h color => fbFillRect d x y w h color
  | .drawChar x y c fg bg => psfDrawChar d x y c fg bg
  | .putpixel x y color => fbPutpixel d x y color

def desktopBg : FbColor := ⟨23, 53, 84⟩

def desktopBarBg : FbColor := ⟨15, 30, 49⟩

def desktopBarFg : FbColor := ⟨218, 231, 243⟩

def desktopSideBg : FbColor := ⟨30, 66, 102⟩

def iconBg : FbColor := ⟨44, 88, 133⟩

def iconBgOff : FbColor := ⟨27, 56, 84⟩

def iconFg : FbColor := ⟨237, 244, 252⟩

def windowTextFg : FbColor := ⟨33, 44, 58⟩

def kIconLabels : Fin windowCount → List UInt8
  | 0 => cText "SHELL"
  | 1 => cText "FILES"
  | 2 => cText "NET"

def kTitle : List UInt8 := cText "SzczupakOS Desktop"

def kHint : List UInt8 :=
  cText "Tab focus  WASD move  C theme  X close  Files: J/K O U D  1-3 toggle  ESC quit"

def kOpenLabels : Nat → List UInt8
  | 0 => cText "Open:0"
  | 1 => cText "Open:1"
  | 2 => cText "Open:2"
  | _ => cText "Open:3"

def kIconColors : Fin windowCount → FbColor
  | 0 => ⟨88, 186, 158⟩
  | 1 => ⟨228, 158, 83⟩
  | 2 => ⟨104, 151, 232⟩

def guiFillRect (x y w h : UInt32) (color : FbColor) : List GuiCall :=
  if w = 0 ∨ h = 0 then [] else [.fillRect x y w h color]

def fillRectClipped (target : Rect) (color : FbColor) (clip : Rect) : List GuiCall :=
  let r := rectIntersection target clip
  if !rectValid r then [] else guiFillRect r.x.toUInt32 r.y.toUInt32 r.w.toUInt32 r.h.toUInt32 color

def drawFrameClipped (target : Rect) (color : FbColor) (clip : Rect) : List GuiCall :=
  if !rectValid target then []
  else
    fillRectClipped (makeRect target.x target.y target.w 1) color clip ++
    (if target.h > 1 then fillRectClipped (makeRect target.x (target.y + target.h - 1) target.w 1) color clip
      else []) ++
    if target.h > 2 then
      fillRectClipped (makeRect target.x (target.y + 1) 1 (target.h - 2)) color clip ++
      if target.w > 1 then
        fillRectClipped (makeRect (target.x + target.w - 1) (target.y + 1) 1 (target.h - 2)) color clip
      else []
    else []

def charCell (d : Display) (x y : Int32) : Rect := makeRect x y (desktopFontW d) (desktopFontH d)

def drawTextFrom (d : Display) (clip : Rect) (startX : Int32) (fg bg : FbColor) :
    Int32 → Int32 → List UInt8 → List GuiCall
  | _, _, [] => []
  | cx, cy, c :: text =>
      if c = 10 then drawTextFrom d clip startX fg bg startX (cy + desktopFontH d) text
      else
        (if rectIntersects clip (charCell d cx cy) then [.drawChar cx.toUInt32 cy.toUInt32 c fg bg]
          else []) ++ drawTextFrom d clip startX fg bg (cx + desktopFontW d) cy text

def drawTextIfVisible (d : Display) (clip : Rect) (x y : Int32) (text : List UInt8)
    (fg bg : FbColor) : List GuiCall :=
  drawTextFrom d clip x fg bg x y text

def expandRepaintRegion (d : Display) (region : Rect) : Rect :=
  clipToFb d.fb (rectExpand region (desktopFontW d) (desktopFontH d))

def colorScale (color : FbColor) (percent : Nat) : FbColor :=
  let r := color.r.toNat * percent / 100
  let g := color.g.toNat * percent / 100
  let b := color.b.toNat * percent / 100
  { r := UInt8.ofNat (if r > 255 then 255 else r)
    g := UInt8.ofNat (if g > 255 then 255 else g)
    b := UInt8.ofNat (if b > 255 then 255 else b) }

def drawIcon (d : Display) (x y : UInt32) (label : List UInt8) (accent : FbColor)
    (visible focused : Bool) (clip : Rect) : List GuiCall :=
  let bg := if visible then iconBg else iconBgOff
  let accentColor := if visible then accent else colorScale accent 55
  let statusColor : FbColor := if visible then ⟨92, 218, 153⟩ else ⟨196, 86, 96⟩
  let frameColor : FbColor := if focused then ⟨245, 250, 255⟩ else accentColor
  let outer := makeRect x.toInt32 y.toInt32 iconW iconH
  fillRectClipped outer bg clip ++
  drawFrameClipped outer frameColor clip ++
  (if focused then
    drawFrameClipped (makeRect (x.toInt32 + 2) (y.toInt32 + 2) (iconW - 4) (iconH - 4)) accentColor clip
  else []) ++
  fillRectClipped (makeRect (x.toInt32 + 24) (y.toInt32 + 16) 36 36) accentColor clip ++
  fillRectClipped (makeRect (x.toInt32 + 66) (y.toInt32 + 8) 10 10) statusColor clip ++
  drawTextIfVisible d clip (x.toInt32 + 8) (y.toInt32 + 60) label iconFg bg

def drawLines (d : Display) (w : DesktopWindow) (clip body : Rect) (bodyColor textColor : FbColor)
    (lineX : Int32) : Nat → Int32 → List (Option (List UInt8)) → List GuiCall
  | _, _, [] => []
  | i, lineY, line :: lines =>
      let selected := w.selectedLine ≥ 0 && Int32.ofNat i == w.selectedLine
      (if selected && rectValid body && body.w > 4 then
        fillRectClipped (makeRect (body.x + 2) (lineY - 1) (body.w - 4) (desktopFontH d + 2))
          w.selectedBgColor clip
      else []) ++
      drawTextIfVisible d clip lineX lineY (line.getD []) (if selected then w.selectedFgColor
        else textColor) (if selected then w.selectedBgColor else bodyColor) ++
      drawLines d w clip body bodyColor textColor lineX (i + 1) (lineY + desktopLineAdvance d) lines

def drawWindowContentsRegion (d : Display) (w : DesktopWindow) (clip : Rect)
    (bodyColor textColor : FbColor) (titleH : Int32) : List GuiCall :=
  drawLines d w clip (windowBodyRect d w) bodyColor textColor (w.win.x + 14) 0
    (w.win.y + 1 + titleH + 10) w.lines

def drawWindowParts (d : Display) (w : DesktopWindow) (focused : Bool) (clip : Rect) : List GuiCall :=
  let titleH := windowTitleHeight d w.win
  let border := if focused then w.win.borderColor else colorScale w.win.borderColor 60
  let titleBg := if focused then w.win.titleBgColor else colorScale w.win.titleBgColor 58
  let bodyBg := if focused then w.win.bodyColor else colorScale w.win.bodyColor 92
  let titleFg : FbColor := if focused then w.win.titleFgColor else ⟨204, 215, 230⟩
  let bodyFg := if focused then windowTextFg else colorScale windowTextFg 75
  let bodyRect := windowBodyRect d w
  let closeRect := closeButtonRect d w.win
  fillRectClipped (windowRect w.win) border clip ++
  fillRectClipped (makeRect (w.win.x + 1) (w.win.y + 1) (w.win.width.toInt32 - 2) titleH.toInt32)
  titleBg clip ++
  (if w.win.height > titleH + 2 then fillRectClipped bodyRect bodyBg clip else []) ++
  (match w.win.title with
    | some title => drawTextIfVisible d clip (w.win.x + 8) (w.win.y + 4) title titleFg titleBg
    | none => []) ++
  (if rectIntersects clip closeRect then
    fillRectClipped closeRect (if focused then ⟨195, 62, 79⟩ else ⟨137, 66, 78⟩) clip ++
    drawFrameClipped closeRect (if focused then ⟨246, 191, 198⟩ else ⟨196, 152, 161⟩) clip
  else []) ++
  drawWindowContentsRegion d w (rectIntersection clip bodyRect) bodyBg bodyFg titleH.toInt32

def drawWindowRegion (d : Display) (w : DesktopWindow) (focused : Bool) (clip : Rect) : List GuiCall :=
  if !w.visible then []
  else if w.win.width < 4 || w.win.height < 4 then []
  else if !rectIntersects clip (windowRect w.win) then []
  else drawWindowParts d w focused clip

def activeTitle (windows : Fin windowCount → DesktopWindow) (activeIdx : Int32) : List UInt8 :=
  match windowIdx activeIdx with
  | some i => if (windows i).visible then (windows i).win.title.getD (cText "Desktop") else cText "Desktop"
  | none => cText "Desktop"

def rightHintX (d : Display) : Int32 :=
  let hintW := Int32.ofNat kHint.length * desktopFontW d
  if d.fb.width.toInt32 > hintW + 10 then d.fb.width.toInt32 - hintW - 10 else 10

def drawDesktopRegion (d : Display) (clip : Rect) (windows : Fin windowCount → DesktopWindow)
    (activeIdx : Int32) : List GuiCall :=
  let c := clipToFb d.fb clip
  if !rectValid c then []
  else
    let openCount := countVisibleWindows windows
    guiFillRect c.x.toUInt32 c.y.toUInt32 c.w.toUInt32 c.h.toUInt32 desktopBg ++
    fillRectClipped (desktopTopRect d.fb) desktopBarBg c ++
    fillRectClipped (desktopSideRect d.fb) desktopSideBg c ++
    drawTextIfVisible d c 10 8 kTitle desktopBarFg desktopBarBg ++
    drawTextIfVisible d c 184 8 (kOpenLabels (if openCount > 3 then 3 else openCount)) desktopBarFg
    desktopBarBg ++ drawTextIfVisible d c 248 8 (cText "Focus:") desktopBarFg desktopBarBg ++
    drawTextIfVisible d c 304 8 (activeTitle windows activeIdx) desktopBarFg desktopBarBg ++
    drawTextIfVisible d c (rightHintX d) 8 kHint desktopBarFg desktopBarBg ++
    (List.finRange windowCount).flatMap fun i =>
      if !rectIntersects c (iconRect i) then []
      else
        drawIcon d (iconRect i).x.toUInt32 (iconRect i).y.toUInt32 (kIconLabels i) (kIconColors i)
          (windows i).visible (Int32.ofNat i == activeIdx) c

def repaintRegion (d : Display) (windows : Fin windowCount → DesktopWindow)
    (zOrder : Fin windowCount → Int32) (activeIdx : Int32) (region : Rect) : List GuiCall :=
  let c := clipToFb d.fb region
  if !rectValid c then []
  else
    drawDesktopRegion d c windows activeIdx ++
    (List.finRange windowCount).flatMap fun i =>
      match windowIdx (zOrder i) with
      | none => []
      | some idx => drawWindowRegion d (windows idx) (zOrder i == activeIdx) c

def DesktopSnapshot.repaint (d : Display) (s : DesktopSnapshot) (region : Rect) : List GuiCall :=
  repaintRegion d s.windows s.zOrder s.activeIdx region

end Szczupak
