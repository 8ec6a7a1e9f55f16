import LightPeer.Net.Ip

/-!
# Endpoints

An endpoint is an IP address and a port.  An address of version 6 stands in
square brackets, with the number of its scope behind a percent sign unless that
is zero.
-/

namespace LightPeer

/-- An address with a port. -/
inductive Endpoint
  | v4 (address : IPv4) (port : UInt16)
  | v6 (address : IPv6) (scope : UInt32) (port : UInt16)
  deriving DecidableEq, Inhabited

namespace Endpoint

/-- The endpoint at an address. -/
def ofIp (ip : Ip) (port : UInt16) : Endpoint :=
  match ip with
  | .v4 a => .v4 a port
  | .v6 a => .v6 a 0 port

/-- The port of an endpoint. -/
def port : Endpoint → UInt16
  | .v4 _ port => port
  | .v6 _ _ port => port

/-- The address as one of version 6; an address of version 4 is embedded. -/
def toIPv6 : Endpoint → IPv6
  | .v4 a _ => IPv6.ofIPv4 a
  | .v6 a _ _ => a

/-- The text of an endpoint. -/
def text : Endpoint → String
  | .v4 a port => a.text ++ ":" ++ toString port.toNat
  | .v6 a scope port =>
    let tail := if scope = 0 then "" else "%" ++ toString scope.toNat
    "[" ++ a.text ++ tail ++ "]:" ++ toString port.toNat

/-- A colon and a port number. -/
def readPort? (cs : List Char) : Option (UInt16 × List Char) := do
  let cs ← Ip.readChar? ':' cs
  let (n, cs) ← Ip.readNumber? 10 65536 cs.length true cs
  return (UInt16.ofNat n, cs)

/-- A percent sign and the number of a scope. -/
def readScope? (cs : List Char) : Option (UInt32 × List Char) := do
  let cs ← Ip.readChar? '%' cs
  let (n, cs) ← Ip.readNumber? 10 (2 ^ 32) cs.length true cs
  return (UInt32.ofNat n, cs)

/-- An endpoint of version 4 in front of a text. -/
def readV4? (cs : List Char) : Option (Endpoint × List Char) := do
  let (a, cs) ← Ip.readV4? cs
  let (port, cs) ← readPort? cs
  return (.v4 a port, cs)

/-- An endpoint of version 6 in front of a text. -/
def readV6? (cs : List Char) : Option (Endpoint × List Char) := do
  let cs ← Ip.readChar? '[' cs
  let (a, cs) ← Ip.readV6? cs
  let (scope, cs) := (readScope? cs).getD (0, cs)
  let cs ← Ip.readChar? ']' cs
  let (port, cs) ← readPort? cs
  return (.v6 a scope port, cs)

/-- The endpoint that is the whole text. -/
def ofText? (text : String) : Option Endpoint :=
  match (readV4? text.toList).orElse fun _ => readV6? text.toList with
  | some (e, []) => some e
  | _ => none

end Endpoint

end LightPeer
