import Szczupak.Desktop.Geometry
import Szczupak.Tty.TerminalCore

/-!
The PS/2 side of `drivers/mouse.c`: bytes from the controller become packets,
packets move the pointer.  `fb` is what `framebuffer_get_info` gives.
-/

namespace Szczupak.Mouse

/-- `packet` holds the bytes of a packet below `packet_index`. -/
structure MouseState where
  packet : List UInt8
  mouseX : Int32
  mouseY : Int32
  buttons : UInt8
  seq : UInt32
  usbHidActive : Bool
  events : MouseQueue

def screenSize (fb : Option FbInfo) : Int32 × Int32 :=
  match fb with
  | none => (1024, 768)
  | some fb => if fb.width > 0 ∧ fb.height > 0 then (fb.width.toInt32, fb.height.toInt32)
    else (1024, 768)

def mouseApplyDelta (fb : Option FbInfo) (dx dy : Int32) (buttons : UInt8)
    (mouse : MouseState) : MouseState :=
  let buttons := buttons &&& 0x07
  let (screenW, screenH) := screenSize fb
  let nx := clampI32 (mouse.mouseX + dx) 0 (screenW - 1)
  let ny := clampI32 (mouse.mouseY - dy) 0 (screenH - 1)
  let changed := buttons ^^^ mouse.buttons
  if nx = mouse.mouseX ∧ ny = mouse.mouseY ∧ changed = 0 then mouse
  else
    let seq := mouse.seq + 1
    { mouse with
      mouseX := nx
      mouseY := ny
      buttons := buttons
      seq := seq
      events := mouseQueuePush mouse.events
        { x := nx.toUInt32, y := ny.toUInt32, dx := dx.toUInt32, dy := dy.toUInt32, buttons, changed, seq } }

def packetDelta (b0 flag data : UInt8) : Int32 :=
  if b0 &&& flag ≠ 0 then 0 else data.toInt8.toInt32

def mouseHandlePacket (fb : Option FbInfo) (b0 b1 b2 : UInt8) (mouse : MouseState) : MouseState :=
  mouseApplyDelta fb (packetDelta b0 0x40 b1) (packetDelta b0 0x80 b2) (b0 &&& 0x07) mouse

def mouseInit (fb : Option FbInfo) : MouseState :=
  let (x, y) := match fb with
    | none => (512, 384)
    | some fb =>
        if fb.width > 0 ∧ fb.height > 0 then ((fb.width / 2).toInt32, (fb.height / 2).toInt32) else (512, 384)
  { packet := [], mouseX := x, mouseY := y, buttons := 0, seq := 0, usbHidActive := false
    events := { queue := fun _ => ⟨0, 0, 0, 0, 0, 0, 0⟩, head := ⟨0, by decide⟩, tail :=
      ⟨0, by decide⟩, overruns := 0 } }

def mouseByte (fb : Option FbInfo) (mouse : MouseState) (data : UInt8) : MouseState :=
  if mouse.packet = [] ∧ data &&& 0x08 = 0 then mouse
  else
    match mouse.packet ++ [data] with
    | [b0, b1, b2] => mouseHandlePacket fb b0 b1 b2 { mouse with packet := [] }
    | packet => { mouse with packet }

/-- The loop of `mouse_handler`: `port` is what the controller answers from now on, its status and
its data, and the status after that is zero. -/
def mouseHandlerLoop (fb : Option FbInfo) : Nat → List (UInt8 × UInt8) → MouseState → MouseState
  | 0, _, mouse => mouse
  | _ + 1, [], mouse => mouse
  | left + 1, (status, data) :: port, mouse =>
      if status &&& 0x01 = 0 then mouse
      else if status &&& 0x20 = 0 then mouse
      else mouseHandlerLoop fb left port (mouseByte fb mouse data)

/-- With a USB mouse the bytes are read and dropped. -/
def mouseHandler (fb : Option FbInfo) (port : List (UInt8 × UInt8)) (mouse : MouseState) : MouseState :=
  if mouse.usbHidActive then mouse else mouseHandlerLoop fb 16 port mouse

inductive MouseCall where
  | interrupt (port : List (UInt8 × UInt8))
  | poll

def mouseCall (fb : Option FbInfo) (mouse : MouseState) : MouseCall → MouseState
  | .interrupt port => mouseHandler fb port mouse
  | .poll => { mouse with events := ((mousePollEvent mouse.events).map Prod.snd).getD mouse.events }

end Szczupak.Mouse
