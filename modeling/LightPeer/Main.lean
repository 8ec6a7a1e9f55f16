import LightPeer.Command.Address
import LightPeer.Command.Arguments
import LightPeer.Command.Listen
import Std.Async.DNS
import Std.Async.Select
import Std.Async.Signal
import Std.Async.TCP
import Std.Time.DateTime.Timestamp

/-!
# The program

Reads the command line, carries bytes between a socket and a connection, and
prints what the connection says.
-/

open LightPeer
open Std.Async

namespace LightPeer.Program

/-- The address of an endpoint, for a socket. -/
def socketAddress : Endpoint → Std.Net.SocketAddress
  | .v4 a port =>
    .v4 ⟨⟨Vector.ofFn fun (i : Fin 4) => a.bytes.getD i.val 0⟩, port⟩
  | .v6 a _ port =>
    .v6 ⟨⟨Vector.ofFn fun (i : Fin 8) => UInt16.ofNat (a.groups.getD i.val 0)⟩, port⟩

/-- The endpoint at an address that was looked up. -/
def endpointOf (port : UInt16) : Std.Net.IPAddr → Endpoint
  | .v4 a => .v4 (IPv4.ofBytes a.octets.toList) port
  | .v6 a => .v6 (IPv6.ofGroups (a.segments.toList.map UInt16.toNat)) 0 port

/-- The endpoint that a target stands for; names are looked up. -/
def resolve (target : Target) : IO (Except CommandError Endpoint) :=
  match target with
  | .endpoint e => return .ok e
  | .name host port =>
    try
      let found ← Async.block (DNS.getAddrInfo host (toString port.toNat))
      match found[0]? with
      | some ip => return .ok (endpointOf port ip)
      | none => return .error (.lookup host)
    catch _ => return .error (.lookup host)

/-- The settings file at a path. -/
def settingsAt (path : Option String) : IO SettingsFile :=
  match path with
  | none => return .notNamed
  | some path => do
    match ← (IO.FS.Handle.mk path .read).toBaseIO with
    | .error _ => return .unreadable
    | .ok file =>
      match ← file.readBinToEnd.toBaseIO with
      | .error _ => return .broken
      | .ok bytes => return .content bytes.toList

/-- Prints what happened, and empties the journal. -/
def report (c : Connection) : IO Connection := do
  for entry in c.journal do
    match entry with
    | .said line => IO.println line
    | .noticed n => IO.eprintln (n.line ListenerId.text)
    | _ => pure ()
  (← IO.getStdout).flush
  return { c with journal := [] }

/-- Gives the socket what was written, and prints what happened. -/
def pour (socket : TCP.Socket.Client) (c : Connection) : IO Connection := do
  let c ← report c
  let bytes := c.link.outbound
  let c := { c with link := { c.link with outbound := [] } }
  if bytes.isEmpty then return c
  try
    Async.block (socket.send ⟨bytes.toArray⟩)
    return c
  catch e => report (c.deliver [] (some (.failed (toString e))))

/-- What the program waits for. -/
inductive Arrival
  | bytes (data : Option ByteArray)
  | interrupt

/-- Waits for the peer or the person. -/
def await (socket : TCP.Socket.Client) (interrupts : Signal.Waiter) : IO Arrival :=
  Async.block <| Selectable.one #[
    .case (socket.recvSelector 65536) fun data => return .bytes data,
    .case interrupts.selector fun _ => return .interrupt]

/-- Carries bytes until the session has ended. -/
partial def serve (socket : TCP.Socket.Client) (interrupts : Signal.Waiter) (c : Connection) :
    IO Unit := do
  let c ← pour socket c
  if ! c.session.isConnected then return
  let arrival ← try some <$> await socket interrupts catch _ => pure none
  match arrival with
  | some (.bytes (some data)) => serve socket interrupts (c.deliver data.toList none)
  | some (.bytes none) => serve socket interrupts (c.deliver [] (some .closed))
  | none => serve socket interrupts (c.deliver [] (some (.failed "connection reset")))
  | some .interrupt =>
    IO.println "\n📴 Shutting down..."
    let (c, _) := c.disconnect
    discard (pour socket c)

/-- Reports the failure of a command. -/
def failure (e : CommandError) : IO UInt32 := do
  IO.eprintln ("Error: " ++ e.debugText)
  return 1

/-- Listens to a peer. -/
def listen (o : ListenOptions) : IO UInt32 := do
  let seed := (← IO.getRandomBytes 8).toList
  match Listen.prepare o ⟨1⟩ ⟨UInt64.ofNat (Bytes.toNat .little seed)⟩ with
  | .error e => failure e
  | .ok (c, target) =>
    match ← resolve target with
    | .error e => failure e
    | .ok peer =>
      for line in Listen.banner o c.config.network peer do IO.println line
      let socket ← TCP.Socket.Client.mk
      let interrupts ← Signal.Waiter.mk .sigint false
      try
        Async.block (socket.connect (socketAddress peer))
        socket.noDelay
      catch e =>
        let (c, progress) := c.dialFailed peer (toString e)
        discard (report c)
        match progress with
        | .failed cause => return ← failure (.session cause)
        | _ => return 1
      let now := (← Std.Time.Timestamp.now).toSecondsSinceUnixEpoch.val
      let (c, progress) := c.connect peer {} (Int64.ofInt now)
      match progress with
      | .failed cause =>
        discard (pour socket c)
        failure (.session cause)
      | _ =>
        serve socket interrupts c
        try Async.block socket.shutdown catch _ => pure ()
        return 0

/-- Prints the hashes of addresses. -/
def address (addresses : List String) : IO UInt32 := do
  let (lines, failed) := Address.lines addresses
  for line in lines do IO.println line
  match failed with
  | none => return 0
  | some e => failure e

end LightPeer.Program

/-- Does what the command line asks for. -/
def main (args : List String) : IO UInt32 := do
  match Arguments.request? args with
  | none =>
    IO.eprintln "error: the arguments are wrong\n\nFor more information, try '--help'."
    return 2
  | some (.help topic) =>
    for line in topic.lines do IO.println line
    return 0
  | some .version =>
    IO.println Arguments.versionLine
    return 0
  | some (.address addresses) => Program.address addresses
  | some (.listen peer v) =>
    let settings ← Program.settingsAt v.config
    Program.listen ⟨peer, v.network, v.addresses, v.rate, settings⟩
