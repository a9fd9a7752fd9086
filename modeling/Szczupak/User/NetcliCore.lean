import Szczupak.User.PrintfCore

/-!
Addresses as texts, `netcli_print_ip4` and `netcli_parse_ipv4` of `userland/lib/netcli.c`.
-/

namespace Szczupak.User

def ipFormat : CString where
  byte := fun index => (cText "%u.%u.%u.%u").getD index 0
  length := 11
  ended := by decide
  plain := by decide

def ipArgs (a b c d : UInt8) : PrintfArgs where
  slot := fun index => ([a, b, c, d].getD index 0).toUInt64
  string := fun _ => ⟨fun _ => 0, 0, rfl, by simp⟩

def netcliPrintIp4 (a b c d : UInt8) (turns : Nat) : Option PrintfOutcome :=
  (printf ipFormat.byte (ipArgs a b c d) turns).result

/-- The digits of one part: its value, their number and what is behind them; `none` when the value
has become too large. -/
def readPart : Nat → Nat → List UInt8 → Option (Nat × Nat × List UInt8)
  | value, digits, [] => some (value, digits, [])
  | value, digits, c :: p =>
      if isDigit c then
        let value := value * 10 + digitOf c
        if value > 255 then none else readPart value (digits + 1) p
      else some (value, digits, c :: p)

def readParts : Nat → List UInt8 → List UInt8 → Int × List UInt8
  | 0, p, out => (if p.headD 0 = 0 then 0 else -1, out)
  | left + 1, p, out =>
      if !isDigit (p.headD 0) then (-1, out)
      else
        match readPart 0 0 p with
        | none => (-1, out)
        | some (value, digits, p) =>
            if digits = 0 then (-1, out)
            else
              let out := out ++ [UInt8.ofNat value]
              if left > 0 then
                if p.headD 0 ≠ 46 then (-1, out) else readParts left p.tail out
              else readParts left p out

/-- The result, and what is in the caller's array from its start on. -/
def netcliParseIpv4 (s : List UInt8) : Int × List UInt8 := readParts 4 s []

end Szczupak.User
