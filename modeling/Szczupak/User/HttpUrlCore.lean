import Szczupak.Lib.Separators
import Szczupak.User.StdlibCore

/-!
The addresses that the `http` program takes, `parse_http_url` of `userland/programs/http.c`.
-/

namespace Szczupak.User

def netHttpHostMax : Nat := 128

def netHttpPathMax : Nat := 192

structure HttpUrlOut where
  host : List UInt8
  path : List UInt8
  port : UInt16

def startsWith : List UInt8 → List UInt8 → Bool
  | _, [] => true
  | s, c :: front => if s.headD 0 ≠ c then false else startsWith s.tail front

def copyText (dst : List UInt8) (cap : Nat) (src : List UInt8) : Bool × List UInt8 :=
  let len := src.length
  if cap = 0 then (false, dst)
  else if len + 1 > cap then (false, dst)
  else (true, src ++ 0 :: dst.drop (len + 1))

def copySlice (dst : List UInt8) (cap : Nat) (start : List UInt8) (len : Nat) : Bool × List UInt8 :=
  if cap = 0 then (false, dst)
  else if len + 1 > cap then (false, dst)
  else (true, start.take len ++ 0 :: dst.drop (len + 1))

def parsePortValue (s : List UInt8) (outPort : UInt16) : Int × UInt16 :=
  if s.headD 0 = 0 then (-1, outPort)
  else
    let v := atoi s
    if v ≤ 0 ∨ v > 65535 then (-1, outPort) else (0, v.toUInt64.toUInt16)

/-- The host and the port, from what is before the path; the text of the port is not cut off at its
end. -/
def parseHostPort (p : List UInt8) (hostEnd : Nat) (out : HttpUrlOut) : Int × HttpUrlOut :=
  match lastPlace 58 (p.take hostEnd) with
  | some colon =>
      let host := copySlice out.host netHttpHostMax p colon
      let out := { out with host := host.2 }
      if !host.1 then (-1, out)
      else
        let port := parsePortValue (p.drop (colon + 1)) 0
        if port.1 ≠ 0 then (-1, out) else (0, { out with port := port.2 })
  | none =>
      let host := copySlice out.host netHttpHostMax p hostEnd
      let out := { out with host := host.2 }
      if !host.1 then (-1, out) else (0, { out with port := 80 })

def parseHttpUrl (url : List UInt8) (out : HttpUrlOut) : Int × HttpUrlOut :=
  if !startsWith url (cText "http://") then (-1, out)
  else
    let p := url.drop 7
    if p.headD 0 = 0 then (-1, out)
    else
      let slash := p.findIdx? (· = 47)
      let parsed := parseHostPort p (slash.getD p.length) out
      let out := parsed.2
      if parsed.1 ≠ 0 then (-1, out)
      else if out.host.headD 0 = 0 then (-1, out)
      else
        let path := copyText out.path netHttpPathMax ((slash.map (p.drop ·)).getD (cText "/"))
        (if path.1 then 0 else -1, { out with path := path.2 })

end Szczupak.User
