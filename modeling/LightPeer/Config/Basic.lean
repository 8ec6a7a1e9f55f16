import LightPeer.Message.FilterLoad
import LightPeer.Message.Handshake
import LightPeer.Network.Basic

/-!
# Settings of a connection

What a connection is created with: the network, how it introduces itself, and how
its filter is built.
-/

namespace LightPeer

/-- How a filter is built. -/
structure FilterPolicy where
  /-- The rate of false positives aimed at. -/
  rate : Rate := .ofFloat 0.0001
  update : FilterUpdate := .pubKeyOnly
  deriving DecidableEq, Inhabited

/-- The settings of a connection. -/
structure Config where
  network : Network := .mainnet
  protocolVersion : Int32 := LightPeer.protocolVersion
  userAgent : String := "/btc-listener:0.1.0/"
  /-- The height that the peer is told; -1 says that it is not known. -/
  startHeight : Int32 := -1
  filter : FilterPolicy := {}
  deriving DecidableEq, Inhabited

namespace Config

/-- The usual settings on a network. -/
def ofNetwork (network : Network) : Config := { network }

end Config

end LightPeer
