import Mathlib.Data.List.Basic
import Mathlib.Tactic.Ring

/-!
The boot-protocol keyboard of `drivers/usb/uhci.c`: what one report types.  Every character that is
injected is noted together with its key and with the branch that injects it.
-/

namespace Szczupak.Usb

structure BootReport where
  modifiers : UInt8
  reserved : UInt8
  keys : List UInt8
  six : keys.length = 6

structure HidKeyboard where
  capsLock : Bool
  lastReport : BootReport
  repeatUsage : UInt8
  repeatNextTick : UInt64

inductive KeyEvent where
  | typed (usage c : UInt8)
  | capsLock
  | repeated (usage c : UInt8)
deriving DecidableEq

def usageCapsLock : UInt8 := 57
def usbKbdRepeatDelayTicks : UInt64 := 35
def usbKbdRepeatRateTicks : UInt64 := 5

def usbHidUsageToAscii (usage : UInt8) (shift capsLock : Bool) : UInt8 :=
  if 4 ≤ usage ∧ usage ≤ 29 then
    let base := 97 + (usage - 4)
    if shift != capsLock then base - 32 else base
  else if usage = 30 then (if shift then 33 else 49)
  else if usage = 31 then (if shift then 64 else 50)
  else if usage = 32 then (if shift then 35 else 51)
  else if usage = 33 then (if shift then 36 else 52)
  else if usage = 34 then (if shift then 37 else 53)
  else if usage = 35 then (if shift then 94 else 54)
  else if usage = 36 then (if shift then 38 else 55)
  else if usage = 37 then (if shift then 42 else 56)
  else if usage = 38 then (if shift then 40 else 57)
  else if usage = 39 then (if shift then 41 else 48)
  else if usage = 40 then 10
  else if usage = 42 then 8
  else if usage = 43 then 9
  else if usage = 44 then 32
  else if usage = 45 then (if shift then 95 else 45)
  else if usage = 46 then (if shift then 43 else 61)
  else if usage = 47 then (if shift then 123 else 91)
  else if usage = 48 then (if shift then 125 else 93)
  else if usage = 49 then (if shift then 124 else 92)
  else if usage = 51 then (if shift then 58 else 59)
  else if usage = 52 then (if shift then 34 else 39)
  else if usage = 53 then (if shift then 126 else 96)
  else if usage = 54 then (if shift then 60 else 44)
  else if usage = 55 then (if shift then 62 else 46)
  else if usage = 56 then (if shift then 63 else 47)
  else 0

def BootReport.shift (report : BootReport) : Bool := report.modifiers &&& 0x22 != 0

/-- The loop over the keys of a report: caps lock, the candidate for the repeat, and what has been
typed. -/
def pressKeys (shift : Bool) (last : List UInt8) : List UInt8 → Bool → UInt8 →
    Bool × UInt8 × List KeyEvent
  | [], capsLock, candidate => (capsLock, candidate, [])
  | key :: keys, capsLock, candidate =>
      if key = 0 then pressKeys shift last keys capsLock candidate
      else if key ∈ last then pressKeys shift last keys capsLock candidate
      else if key = usageCapsLock then
        let (capsLock, candidate, events) := pressKeys shift last keys (!capsLock) candidate
        (capsLock, candidate, .capsLock :: events)
      else
        let c := usbHidUsageToAscii key shift capsLock
        if c ≠ 0 then
          let (capsLock, candidate, events) :=
            pressKeys shift last keys capsLock (if candidate = 0 then key else candidate)
          (capsLock, candidate, .typed key c :: events)
        else pressKeys shift last keys capsLock candidate

def firstPrintable (shift capsLock : Bool) (keys : List UInt8) : UInt8 :=
  (keys.find? fun key => key ≠ 0 ∧ key ≠ usageCapsLock ∧
    usbHidUsageToAscii key shift capsLock ≠ 0).getD 0

/-- The loop that puts the next repeat after `now`.  A tick has 2^64 values, so a loop with more
turns has no end. -/
def advanceRepeat : Nat → UInt64 → UInt64 → Option UInt64
  | 0, _, _ => none
  | turns + 1, next, now =>
      let next := next + usbKbdRepeatRateTicks
      if next ≤ now then advanceRepeat turns next now else some next

def repeatKey (shift : Bool) (candidate : UInt8) (now : UInt64) (hid : HidKeyboard) :
    Option (HidKeyboard × List KeyEvent) :=
  if candidate = 0 then some ({ hid with repeatUsage := 0, repeatNextTick := 0 }, [])
  else if candidate ≠ hid.repeatUsage then
    some ({ hid with repeatUsage := candidate, repeatNextTick := now + usbKbdRepeatDelayTicks }, [])
  else if hid.repeatNextTick ≠ 0 ∧ now ≥ hid.repeatNextTick then
    let c := usbHidUsageToAscii candidate shift hid.capsLock
    (advanceRepeat (2 ^ 64) hid.repeatNextTick now).map fun next =>
      ({ hid with repeatNextTick := next }, if c ≠ 0 then [.repeated candidate c] else [])
  else some (hid, [])

/-- `none` is a call that does not return. -/
def usbHidProcessKeyboard (hid : HidKeyboard) (report : BootReport) (reportLen : UInt32)
    (now : UInt64) : Option (HidKeyboard × List KeyEvent) :=
  if reportLen < 8 then some (hid, [])
  else
    let (capsLock, candidate, typed) := pressKeys report.shift hid.lastReport.keys report.keys hid.capsLock 0
    let candidate := if candidate = 0 then firstPrintable report.shift capsLock report.keys else candidate
    (repeatKey report.shift candidate now { hid with capsLock }).map fun (hid, repeated) =>
      ({ hid with lastReport := report }, typed ++ repeated)

def keyboardInit : HidKeyboard :=
  { capsLock := false, lastReport := ⟨0, 0, List.replicate 6 0, rfl⟩,
    repeatUsage := 0, repeatNextTick := 0 }

def runKeyboard : HidKeyboard → List (BootReport × UInt64) → Option (List (HidKeyboard × List KeyEvent))
  | _, [] => some []
  | hid, (report, now) :: inputs =>
      match usbHidProcessKeyboard hid report 8 now with
      | none => none
      | some (hid, events) => (runKeyboard hid inputs).map ((hid, events) :: ·)

end Szczupak.Usb
