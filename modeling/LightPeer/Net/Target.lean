import LightPeer.Net.Endpoint
import LightPeer.Network.Basic
import LightPeer.Text.Blank

/-!
# What a person calls a peer

A peer is given as an address with or without a port, or as a host with or without
a port; a missing port is the usual one of the network.  A host can be a number in
one of the loose old forms of an address, with one to four parts of base eight, ten
or sixteen, the last of which fills the bytes that are left.  Any other host is a
name, which has to be looked up.
-/

namespace LightPeer

/-- What a text for a peer stands for. -/
inductive Target
  | endpoint (e : Endpoint)
  | name (host : String) (port : UInt16)
  deriving DecidableEq

namespace Target

/-- The value of digits of a base, if there is at least one and nothing else. -/
def wholeNumber? (base : Nat) (cs : List Char) : Option Nat :=
  let (count, n, rest) := Ip.readDigits base 0 0 cs
  if count = 0 || ! rest.isEmpty then none else some n

/-- A part of a loose address: hexadecimal behind `0x`, octal behind `0`, or decimal. -/
def looseNumber? (cs : List Char) : Option Nat :=
  match cs with
  | '0' :: x :: digits =>
    if x = 'x' ∨ x = 'X' then wholeNumber? 16 digits else wholeNumber? 8 (x :: digits)
  | _ => wholeNumber? 10 cs

/-- The number of a loose address: every part but the last is a byte, and the last fills
the bytes that are `left`. -/
def joinParts? (value left : Nat) : List Nat → Option Nat
  | [] => none
  | [last] => if last < 256 ^ left then some (value * 256 ^ left + last) else none
  | part :: parts =>
    if part < 256 ∧ 1 < left then joinParts? (value * 256 + part) (left - 1) parts else none

/-- The address of version 4 in a loose form. -/
def looseIPv4? (host : List Char) : Option IPv4 :=
  (((Text.splitAll '.' host).mapM looseNumber?).bind (joinParts? 0 4)).map fun n => ⟨UInt32.ofNat n⟩

/-- The endpoint at a host that is a number. -/
def numeric? (host : List Char) (port : UInt16) : Option Endpoint :=
  match looseIPv4? host with
  | some a => some (.v4 a port)
  | none =>
    match Ip.readV6? host with
    | some (a, []) => some (.v6 a 0 port)
    | some (a, '%' :: scope) =>
      match wholeNumber? 10 scope with
      | some n => if n < 2 ^ 32 then some (.v6 a (UInt32.ofNat n) port) else none
      | none => none
    | _ => none

/-- A port behind a host; a plus sign before it is allowed. -/
def port? (cs : List Char) : Option UInt16 :=
  let digits := if cs.head? = some '+' then cs.drop 1 else cs
  match wholeNumber? 10 digits with
  | some n => if n < 65536 then some (UInt16.ofNat n) else none
  | none => none

/-- What a host and a port stand for. -/
def ofHost (host : List Char) (port : UInt16) : Target :=
  match numeric? host port with
  | some e => .endpoint e
  | none => .name (String.ofList host) port

/-- What a text stands for on a network; there is none if its port is no port. -/
def ofText? (network : Network) (text : String) : Option Target :=
  match Endpoint.ofText? text with
  | some e => some (.endpoint e)
  | none =>
    let cs := text.toList
    match Ip.ofText? (Text.strip (fun c => c = '[' || c = ']') cs) with
    | some ip => some (.endpoint (.ofIp ip network.defaultPort))
    | none =>
      match Text.splitLast? ':' cs with
      | none => some (ofHost cs network.defaultPort)
      | some (host, port) => (port? port).map (ofHost host)

end Target

end LightPeer
