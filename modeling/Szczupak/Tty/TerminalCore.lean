import Szczupak.Mm.UaccessCore
import Szczupak.Tty.PtyCore

/-!
`terminal_write` of `terminal.c`, the event queue of `drivers/mouse.c`,
and the calls of `task/syscall.c` that move
bytes between them, the pseudo terminals and user memory.  `buffer` is the address of the call's
buffer on the kernel stack.
-/

namespace Szczupak

/-- The framebuffer and the font, when there is one; zero stands for an unknown size. -/
structure Screen where
  available : Bool
  width : UInt32
  height : UInt32
  fontWidth : UInt32
  fontHeight : UInt32

inductive ConsoleMark where
  | glyph (x y : UInt32) (c : UInt8)
  | clear
  | vga (c : UInt8)

structure Console where
  termX : UInt32
  termY : UInt32
  shown : List ConsoleMark
  serial : List UInt8

namespace Screen

variable (screen : Screen)

def charW : UInt32 := if screen.fontWidth = 0 then 8 else screen.fontWidth
def charH : UInt32 := if screen.fontHeight = 0 then 16 else screen.fontHeight
def fbW : UInt32 := if screen.available && screen.width != 0 then screen.width else 1024
def fbH : UInt32 := if screen.available && screen.height != 0 then screen.height else 768

def nextLine (console : Console) : Console :=
  let termY := console.termY + screen.charH
  if termY + screen.charH > screen.fbH then
    { console with termX := 0, termY := 0, shown := console.shown ++ [.clear] }
  else { console with termX := 0, termY := termY }

def draw (console : Console) (c : UInt8) : Console :=
  if c = 10 then screen.nextLine console
  else if c = 9 then
    let tab := 4 * screen.charW
    let termX := (console.termX + tab) / tab * tab
    if termX + screen.charW > screen.fbW then screen.nextLine console else { console with termX := termX }
  else if c = 8 then
    if console.termX ≥ screen.charW then { console with termX := console.termX - screen.charW } else console
  else if 32 ≤ c ∧ c < 127 then
    let drawn := { console with
      termX := console.termX + screen.charW
      shown := console.shown ++ [.glyph console.termX console.termY c] }
    if drawn.termX + screen.charW > screen.fbW then screen.nextLine drawn else drawn
  else console

def put (console : Console) (c : UInt8) : Console :=
  let shown := if screen.available then screen.draw console c
    else { console with shown := console.shown ++ [.vga c] }
  { shown with serial := shown.serial ++ [c] }

end Screen

def mouseQueueSize : Nat := 64

structure MouseEvent where
  x : UInt32
  y : UInt32
  dx : UInt32
  dy : UInt32
  buttons : UInt8
  changed : UInt8
  seq : UInt32

structure MouseQueue where
  queue : Fin mouseQueueSize → MouseEvent
  head : Fin mouseQueueSize
  tail : Fin mouseQueueSize
  overruns : UInt32

def nextCell (cell : Fin mouseQueueSize) : Fin mouseQueueSize :=
  ⟨(cell.val + 1) % mouseQueueSize, Nat.mod_lt _ (by decide)⟩

def mouseQueuePush (mouse : MouseQueue) (event : MouseEvent) : MouseQueue :=
  let next := nextCell mouse.head
  let full := next == mouse.tail
  { queue := Function.update mouse.queue mouse.head event
    head := next
    tail := if full then nextCell mouse.tail else mouse.tail
    overruns := if full then mouse.overruns + 1 else mouse.overruns }

def mousePollEvent (mouse : MouseQueue) : Option (MouseEvent × MouseQueue) :=
  if mouse.head = mouse.tail then none
  else some (mouse.queue mouse.tail, { mouse with tail := nextCell mouse.tail })

def mouseEventBytes (event : MouseEvent) : List UInt8 :=
  Mem.leBytes 4 event.x.toNat ++ Mem.leBytes 4 event.y.toNat ++ Mem.leBytes 4 event.dx.toNat ++
    Mem.leBytes 4 event.dy.toNat ++ [event.buttons, event.changed, 0, 0] ++ Mem.leBytes 4 event.seq.toNat

structure TtyState where
  ptys : Ptys
  console : Console
  mouse : MouseQueue
  user : UserState

def currentPty (task : Option PtyTask) (ptys : Ptys) : Option (PtyTask × Fin ptyMaxCount) :=
  task.bind fun task => (ptyTaskAttached ptys task).map fun slot => (task, slot)

def terminalWrite (screen : Screen) (task : Option PtyTask) (bytes : List UInt8)
    (state : TtyState) : TtyState :=
  match currentPty task state.ptys with
  | some (task, _) => { state with ptys := (ptySlaveWrite state.ptys task bytes).2 }
  | none => { state with console := bytes.foldl screen.put state.console }

section Calls

variable (dir : Option Nat) (buffer : UInt64) (state : TtyState)

def writeBytes (strAddr size : UInt64) : List UInt8 :=
  (copyFromUser state.user dir buffer strAddr size).2.kernel.read buffer.toNat size.toNat

def sysWrite (screen : Screen) (task : Option PtyTask) (strAddr size : UInt64) : UInt64 × TtyState :=
  if strAddr = 0 ∨ size = 0 then (0, state)
  else if size > 4096 then (-1, state)
  else
    let (code, user) := copyFromUser state.user dir buffer strAddr size
    if code ≠ 0 then (-1, { state with user := user })
    else (size, terminalWrite screen task (user.kernel.read buffer.toNat size.toNat)
      { state with user := user })

def giveUser (user : UserState) (addr : UInt64) (bytes : List UInt8) : Int × UserState :=
  copyToUser { user with kernel := user.kernel.store buffer.toNat bytes } dir addr buffer
    (UInt64.ofNat bytes.length)

def ptyArgument (ptyId : UInt64) : Int := ptyId.toUInt32.toInt32.toInt

def sysPtyRead (ptyId bufAddr size : UInt64) : UInt64 × TtyState :=
  if bufAddr = 0 ∨ size = 0 then (0, state)
  else if (ptySlotValid state.ptys (ptyArgument ptyId)).isNone then (-1, state)
  else
    let (bytes, ptys) := ptyHostRead state.ptys (ptyArgument ptyId) (min size.toNat 4096)
    if bytes = [] then (0, { state with ptys := ptys })
    else
      let (code, user) := giveUser dir buffer state.user bufAddr bytes
      (if code ≠ 0 then -1 else UInt64.ofNat bytes.length, { state with ptys := ptys, user := user })

/-- `arrivals` are the events that `usb_poll` injects. -/
def sysMousePoll (arrivals : List MouseEvent) (eventAddr : UInt64) : UInt64 × TtyState :=
  if eventAddr = 0 then (-1, state)
  else
    let mouse := arrivals.foldl mouseQueuePush state.mouse
    match mousePollEvent mouse with
    | none => (0, { state with mouse := mouse })
    | some (event, mouse) =>
        let (code, user) := giveUser dir buffer state.user eventAddr (mouseEventBytes event)
        (if code ≠ 0 then -1 else 1, { state with mouse := mouse, user := user })

end Calls

end Szczupak
