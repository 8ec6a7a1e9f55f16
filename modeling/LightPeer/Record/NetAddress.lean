import LightPeer.Net.Endpoint
import LightPeer.Network.Services
import LightPeer.Wire.Decoder

/-!
# Peer addresses on the wire

Services, sixteen bytes of address and a port.  The port is the one field of the
protocol whose most significant byte comes first; none of the fields depends on
the byte order in force.
-/

namespace LightPeer

open Wire

/-- The address of a peer with the services it offers. -/
structure NetAddress where
  services : Services
  ip : IPv6
  port : UInt16
  deriving DecidableEq, Inhabited

namespace NetAddress

/-- The address of an endpoint. -/
def ofEndpoint (services : Services) (e : Endpoint) : NetAddress := ⟨services, e.toIPv6, e.port⟩

/-- The address `0.0.0.0:0`, for an address that is not known. -/
def unspecified (services : Services) : NetAddress := ofEndpoint services (.v4 ⟨0⟩ 0)

/-- The endpoint of an address; an embedded address of version 4 is taken out. -/
def endpoint (a : NetAddress) : Endpoint :=
  match a.ip.toIPv4? with
  | some v4 => .v4 v4 a.port
  | none => .v6 a.ip 0 a.port

/-- The fields of an address. -/
def pieces (a : NetAddress) : List Bytes :=
  [Bytes.ofNat .little 8 a.services.bits.toNat, a.ip.bytes, Bytes.ofNat .big 2 a.port.toNat]

/-- Reads an address. -/
def decoder : Decoder NetAddress :=
  Decoder.withOrder .little do
    let services ← Decoder.uint64
    let ip ← Decoder.exactly 16
    let port ← Decoder.withOrder .big Decoder.uint16
    return ⟨⟨services⟩, ⟨ip.val, ip.property⟩, port⟩

end NetAddress

end LightPeer
