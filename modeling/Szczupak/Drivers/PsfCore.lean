import Szczupak.Fs.ReadWrite
import Szczupak.Fs.TmpfsFile

/-!
The font of the framebuffer console, `drivers/psf.c`.  One loader takes a blob, the other reads a
file in two parts; the glyphs lie in a block of the kernel heap.
-/

namespace Szczupak

structure Psf1Header where
  magic0 : UInt8
  magic1 : UInt8
  mode : UInt8
  charsize : UInt8

def Psf1Header.over (old : Psf1Header) (bytes : List UInt8) : Psf1Header where
  magic0 := bytes.getD 0 old.magic0
  magic1 := bytes.getD 1 old.magic1
  mode := bytes.getD 2 old.mode
  charsize := bytes.getD 3 old.charsize

def psf1HeaderSize : Nat := 4

structure PsfMetrics where
  charWidth : UInt32
  charHeight : UInt32
  charsCount : UInt32
deriving DecidableEq

structure PsfState where
  heap : HeapState
  fontData : Nat
  metrics : PsfMetrics

def psfStart (storage : Nat) (mem : Mem) : PsfState where
  heap := heapStart storage mem
  fontData := 0
  metrics := { charWidth := 8, charHeight := 16, charsCount := 256 }

def psfValidateHeader (header : Psf1Header) : Bool :=
  if header.magic0 ≠ 0x36 ∨ header.magic1 ≠ 0x04 then false
  else if header.charsize = 0 then false
  else true

def Psf1Header.metrics (header : Psf1Header) : PsfMetrics where
  charWidth := 8
  charHeight := header.charsize.toUInt32
  charsCount := if header.mode &&& 1 ≠ 0 then 512 else 256

def installFont (storage : Nat) (s : PsfState) (mem : Mem) (newFontData : Nat)
    (metrics : PsfMetrics) : PsfState :=
  if s.fontData ≠ 0 then
    { heap := ⟨kfree storage mem s.fontData, newFontData :: s.heap.live.erase s.fontData⟩
      fontData := newFontData, metrics }
  else { heap := ⟨mem, newFontData :: s.heap.live⟩, fontData := newFontData, metrics }

def psfLoadFromMemory (storage : Nat) (s : PsfState) (blob : List UInt8) : Bool × PsfState :=
  if blob.length < psf1HeaderSize then (false, s)
  else
    let header := Psf1Header.over ⟨0, 0, 0, 0⟩ blob
    if !psfValidateHeader header then (false, s)
    else
      let metrics := header.metrics
      let glyphBytes := metrics.charsCount.toUInt64 * metrics.charHeight.toUInt64
      if psf1HeaderSize + glyphBytes.toNat > blob.length then (false, s)
      else
        let (newFontData, mem) := kmalloc storage s.heap.mem glyphBytes
        if newFontData = 0 then (false, { s with heap := ⟨mem, s.heap.live⟩ })
        else
          let mem := mem.store newFontData ((blob.drop psf1HeaderSize).take glyphBytes.toNat)
          (true, installFont storage s mem newFontData metrics)

structure PsfFile where
  read : Nat → Nat → Bool × List UInt8
  short : ∀ offset count, (read offset count).2.length ≤ count

/-- `stack` is what the header variable holds before the file is read. -/
def psfLoad (storage : Nat) (s : PsfState) (stack : Psf1Header) (file : Option PsfFile) :
    Bool × PsfState :=
  match file with
  | none => (false, s)
  | some file =>
      let (ok, bytes) := file.read 0 psf1HeaderSize
      if !ok then (false, s)
      else
        let header := stack.over bytes
        if !psfValidateHeader header then (false, s)
        else
          let s := { s with metrics := header.metrics }
          let fontSize := (s.metrics.charsCount * s.metrics.charHeight).toUInt64
          let (loadedFont, mem) := kmalloc storage s.heap.mem fontSize
          if loadedFont = 0 then (false, { s with heap := ⟨mem, s.heap.live⟩ })
          else
            let (ok, bytes) := file.read psf1HeaderSize fontSize.toNat
            let mem := mem.store loadedFont bytes
            if !ok then (false, { s with heap := ⟨kfree storage mem loadedFont, s.heap.live⟩ })
            else (true, installFont storage s mem loadedFont s.metrics)

def psfDrawReads (s : PsfState) (c : UInt8) : List Nat :=
  if s.fontData = 0 then []
  else
    let ch := if c.toUInt32 ≥ s.metrics.charsCount then 0 else c
    (List.range s.metrics.charHeight.toNat).map fun row =>
    (ch.toUInt32 * s.metrics.charHeight).toNat + row

def fileRead (content : List UInt8) (offset count : Nat) : Bool × List UInt8 :=
  if content.length ≤ offset then (false, []) else (true, (content.drop offset).take count)

def PsfFile.ofContent (content : List UInt8) : PsfFile where
  read := fileRead content
  short offset count := by
    rw [fileRead]
    split
    next => exact Nat.zero_le _
    next => exact List.length_take_le _ _

inductive PsfCall where
  | load (stack : Psf1Header) (file : Option PsfFile)
  | loadFromMemory (blob : List UInt8)
  | other (call : HeapCall)

/-- The rest of the kernel does not hold the font. -/
def psfStep (storage : Nat) (s : PsfState) : PsfCall → Option PsfState
  | .load stack file => some (psfLoad storage s stack file).2
  | .loadFromMemory blob => some (psfLoadFromMemory storage s blob).2
  | .other call =>
      if call.target = 0 ∨ call.target ≠ s.fontData then
        (heapStep storage s.heap call).map fun heap => { s with heap }
      else none

def PsfMetrics.bytes (metrics : PsfMetrics) : Nat :=
  metrics.charsCount.toNat * metrics.charHeight.toNat

def FontFits (s : PsfState) : Prop := s.fontData = 0 ∨
    s.metrics.bytes ≤ payloadSize s.heap.mem s.fontData

instance (s : PsfState) : Decidable (FontFits s) := inferInstanceAs (Decidable (_ ∨ _))

def PsfState.font (s : PsfState) : List UInt8 :=
  if s.fontData = 0 then [] else s.heap.mem.read s.fontData (payloadSize s.heap.mem s.fontData)

structure LoadAlike (storage : Nat) (s : PsfState) (stack : Psf1Header)
    (content : List UInt8) : Prop where
  result : (psfLoad storage s stack (some (.ofContent content))).1 =
    (psfLoadFromMemory storage s content).1
  font : (psfLoad storage s stack (some (.ofContent content))).2.font =
    (psfLoadFromMemory storage s content).2.font
  metrics : (psfLoad storage s stack (some (.ofContent content))).2.metrics =
    (psfLoadFromMemory storage s content).2.metrics

def FontRoom (storage : Nat) (s : PsfState) (header : Psf1Header) : Prop :=
  (kmalloc storage s.heap.mem (UInt64.ofNat header.metrics.bytes)).1 ≠ 0

/-- There is no content, or no valid header; or the content is whole and there is room for it; or
the load fails for want of room or of any glyph, and the header says nothing new. -/
def ContentWhole (storage : Nat) (s : PsfState) (stack : Psf1Header) (content : List UInt8) : Prop :=
  let header := stack.over (content.take psf1HeaderSize)
  content = [] ∨ psfValidateHeader header = false ∨
    psf1HeaderSize + header.metrics.bytes ≤ content.length ∧ FontRoom storage s header ∨
    (¬FontRoom storage s header ∨ content.length ≤ psf1HeaderSize) ∧ header.metrics = s.metrics

/-- A load that gets as far as a valid header goes through, or leaves a font that is large enough.
-/
def LoadKeeps (storage : Nat) (s : PsfState) : PsfCall → Prop
  | .load stack (some file) =>
      let header := stack.over (file.read 0 psf1HeaderSize).2
      (file.read 0 psf1HeaderSize).1 = true → psfValidateHeader header = true →
        FontRoom storage s header ∧ (file.read psf1HeaderSize header.metrics.bytes).1 = true ∨
          s.fontData = 0 ∨ header.metrics.bytes ≤ payloadSize s.heap.mem s.fontData
  | _ => True

end Szczupak
