import Szczupak.Drivers.Framebuffer
import Szczupak.Lib.ByteMemory

/-! The bytes behind the drawing of `drivers/framebuffer.c`: the set-up from the boot loader's tag,
the address of a pixel, and the loops of `fb_fill_rect`. -/

namespace Szczupak.FrameBytes

structure FramebufferTag where
  size : UInt32
  framebufferAddr : UInt64
  framebufferPitch : UInt32
  framebufferWidth : UInt32
  framebufferHeight : UInt32
  framebufferBpp : UInt8
  framebufferType : UInt8
  redFieldPosition : UInt8
  redMaskSize : UInt8
  greenFieldPosition : UInt8
  greenMaskSize : UInt8
  blueFieldPosition : UInt8
  blueMaskSize : UInt8

structure FramebufferInfo extends FbInfo where
  address : UInt64
  virtAddress : UInt64
  pitch : UInt32
  bpp : UInt8
  type : UInt8
  redPosition : UInt8
  redSize : UInt8
  greenPosition : UInt8
  greenSize : UInt8
  bluePosition : UInt8
  blueSize : UInt8
  bytesPerPixel : UInt32
  bufferSize : UInt64

def fbVirtBase : UInt64 := 0xFFFF800210000000
def multibootFbRgbTagMinSize : UInt32 := 38
def multibootFramebufferTypeIndexed : UInt8 := 0

def fbIsCanonical (addr : UInt64) : Bool :=
  addr ≤ 0x00007FFFFFFFFFFF || addr ≥ 0xFFFF800000000000

def fbEnsureRuntimeSane (fb : FramebufferInfo) : Bool :=
  fb.virtAddress != 0 && fb.width != 0 && fb.height != 0 && fb.pitch != 0 &&
    fb.bytesPerPixel > 0 && fb.bytesPerPixel ≤ 4

def fbPixelPtr (fb : FramebufferInfo) (x y : UInt32) : Option UInt64 :=
  if !fbEnsureRuntimeSane fb then none
  else if x ≥ fb.width ∨ y ≥ fb.height then none
  else
    let rowOff := y.toUInt64 * fb.pitch.toUInt64
    let colOff := x.toUInt64 * fb.bytesPerPixel.toUInt64
    if rowOff > fb.bufferSize then none
    else if colOff > fb.bufferSize then none
    else
      let offset := rowOff + colOff
      if offset < rowOff then none
      else if offset > fb.bufferSize - fb.bytesPerPixel.toUInt64 then none
      else
        let addr := fb.virtAddress + offset
        if !fbIsCanonical addr then none
        else if !fbIsCanonical (addr + fb.bytesPerPixel.toUInt64 - 1) then none
        else some addr

def fbPackColor8 (color : FbColor) : UInt8 :=
  (color.r &&& (0xE0 : UInt8)) ||| (color.g &&& (0xE0 : UInt8)) >>> (3 : UInt8) ||| color.b >>> (6 : UInt8)

/-- A shift count is taken modulo 32, as the processor does. -/
def fbPackNativeColor (fb : FramebufferInfo) (color : FbColor) : UInt32 :=
  UInt32.ofNat (fbScale8ToN color.r fb.redSize.toNat) <<< fb.redPosition.toUInt32 |||
    UInt32.ofNat (fbScale8ToN color.g fb.greenSize.toNat) <<< fb.greenPosition.toUInt32 |||
    UInt32.ofNat (fbScale8ToN color.b fb.blueSize.toNat) <<< fb.bluePosition.toUInt32

def storeBytes (pixel : UInt64) (value : UInt32) (count : Nat) (mem : Mem) : Mem :=
  (List.range count).foldl (fun mem i =>
    mem.set (pixel + UInt64.ofNat i).toNat (value >>> (UInt32.ofNat i * 8) &&& 0xFF).toUInt8) mem

def fbStoreNativePixel (fb : FramebufferInfo) (pixel : UInt64) (value : UInt32) (mem : Mem) : Mem :=
  if !fbEnsureRuntimeSane fb then mem
  else if !fbIsCanonical pixel || !fbIsCanonical fb.virtAddress then mem
  else if pixel < fb.virtAddress then mem
  else
    let offset := pixel - fb.virtAddress
    if offset > fb.bufferSize - fb.bytesPerPixel.toUInt64 then mem
    else if fb.bytesPerPixel = 4 then mem.writeU32 pixel.toNat value.toNat
    else if fb.bytesPerPixel = 2 then mem.writeU16 pixel.toNat (value &&& 0xFFFF).toNat
    else storeBytes pixel value fb.bytesPerPixel.toNat mem

def applyDefaultColorLayout (fb : FramebufferInfo) : FramebufferInfo :=
  if fb.bpp = 16 then
    { fb with redPosition := 11, redSize := 5, greenPosition := 5, greenSize := 6,
              bluePosition := 0, blueSize := 5 }
  else
    { fb with redPosition := 16, redSize := 8, greenPosition := 8, greenSize := 8,
              bluePosition := 0, blueSize := 8 }

def configureColorLayout (tag : FramebufferTag) (fb : FramebufferInfo) : FramebufferInfo :=
  let fb := applyDefaultColorLayout fb
  if fb.type ≠ 1 then fb
  else if tag.size < multibootFbRgbTagMinSize then fb
  else if tag.redMaskSize = 0 ∨ tag.greenMaskSize = 0 ∨ tag.blueMaskSize = 0 then fb
  else
    { fb with
      redPosition := tag.redFieldPosition, redSize := tag.redMaskSize
      greenPosition := tag.greenFieldPosition, greenSize := tag.greenMaskSize
      bluePosition := tag.blueFieldPosition, blueSize := tag.blueMaskSize }

def readTag (tag : FramebufferTag) : FramebufferInfo :=
  let bytesPerPixel := (tag.framebufferBpp.toUInt32 + 7) / 8
  { address := tag.framebufferAddr, virtAddress := 0
    width := tag.framebufferWidth, height := tag.framebufferHeight
    pitch := tag.framebufferPitch, bpp := tag.framebufferBpp, type := tag.framebufferType
    redPosition := 0, redSize := 0, greenPosition := 0, greenSize := 0, bluePosition := 0, blueSize := 0
    bytesPerPixel, bufferSize := tag.framebufferPitch.toUInt64 * tag.framebufferHeight.toUInt64 }

/-- `kernelDir` is `vmm_map_page` on the kernel's page directory, or nothing where there is none. -/
def framebufferInit (tag : FramebufferTag) (kernelDir : Option (UInt64 → UInt64 → Bool)) :
    Option FramebufferInfo :=
  let fb := readTag tag
  if fb.address = 0 ∨ fb.width = 0 ∨ fb.height = 0 ∨ fb.bytesPerPixel = 0 ∨ fb.bytesPerPixel > 4 then none
  else if fb.pitch.toUInt64 < fb.width.toUInt64 * fb.bytesPerPixel.toUInt64 then none
  else if fb.type ≠ multibootFramebufferTypeIndexed ∧ fb.type ≠ 1 then none
  else
    let fb := configureColorLayout tag fb
    let physStart := fb.address &&& ~~~0xFFF
    let physEnd := (fb.address + fb.bufferSize + 0xFFF) &&& ~~~0xFFF
    let pages := (physEnd - physStart) / 4096
    match kernelDir with
    | none => none
    | some mapPage =>
        if (List.range pages.toNat).all fun i =>
            mapPage (fbVirtBase + UInt64.ofNat i * 4096) (physStart + UInt64.ofNat i * 4096) then
          some { fb with virtAddress := fbVirtBase + (fb.address - physStart) }
        else none

def palettized (fb : FramebufferInfo) : Bool :=
  fb.type = multibootFramebufferTypeIndexed && fb.bytesPerPixel = 1

def fbPutpixel (fb : FramebufferInfo) (x y : UInt32) (color : FbColor) (mem : Mem) : Mem :=
  if !fbEnsureRuntimeSane fb ∨ x ≥ fb.width ∨ y ≥ fb.height then mem
  else
    match fbPixelPtr fb x y with
    | none => mem
    | some pixel =>
        if palettized fb then mem.set pixel.toNat (fbPackColor8 color)
        else fbStoreNativePixel fb pixel (fbPackNativeColor fb color) mem

/-- The inner loop of `fb_fill_rect`: `put` writes one pixel, `size` is how far the pointer moves.
-/
def fillSpan (put : UInt64 → Mem → Mem) (size : UInt64) : Nat → UInt64 → Mem → Mem
  | 0, _, mem => mem
  | cols + 1, dst, mem => fillSpan put size cols (dst + size) (put dst mem)

def fillRows (fb : FramebufferInfo) (x y w h : UInt32) (put : UInt64 → Mem → Mem) (size : UInt64)
    (mem : Mem) : Mem :=
  (List.range h.toNat).foldl (fun mem row =>
    match fbPixelPtr fb x (y + UInt32.ofNat row) with
    | none => mem
    | some dst => fillSpan put size w.toNat dst mem) mem

def fbFillRect (fb : FramebufferInfo) (x y w h : UInt32) (color : FbColor) (mem : Mem) : Mem :=
  if !fbEnsureRuntimeSane fb then mem
  else
    match fbClipRect fb.toFbInfo x y w h with
    | none => mem
    | some (w, h) =>
        if palettized fb then
          let pixel := fbPackColor8 color
          fillRows fb x y w h (fun dst mem => mem.set dst.toNat pixel) 1 mem
        else
          let packed := fbPackNativeColor fb color
          if fb.bytesPerPixel = 4 then
            fillRows fb x y w h (fun dst mem => mem.writeU32 dst.toNat packed.toNat) 4 mem
          else if fb.bytesPerPixel = 2 then
            let packed16 := packed &&& 0xFFFF
            fillRows fb x y w h (fun dst mem => mem.writeU16 dst.toNat packed16.toNat) 2 mem
          else
            fillRows fb x y w h (fun dst mem => fbStoreNativePixel fb dst packed mem)
              fb.bytesPerPixel.toUInt64 mem

end Szczupak.FrameBytes
