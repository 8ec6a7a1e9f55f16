import LightPeer.Bytes.Basic

/-!
# Networks

The chains a peer can serve.  The frames of each begin with four bytes of its
own, and its peers listen on a port of its own.
-/

namespace LightPeer

/-- A chain. -/
inductive Network
  | mainnet
  | testnet3
  | regtest
  | signet
  deriving DecidableEq, Repr, Inhabited

namespace Network

/-- The bytes that begin every frame, as they appear on the wire. -/
def magic : Network → Bytes
  | .mainnet => [0xF9, 0xBE, 0xB4, 0xD9]
  | .testnet3 => [0x0B, 0x11, 0x09, 0x07]
  | .regtest => [0xFA, 0xBF, 0xB5, 0xDA]
  | .signet => [0x0A, 0x03, 0xCF, 0x40]

/-- The port that peers listen on unless told otherwise. -/
def defaultPort : Network → UInt16
  | .mainnet => 8333
  | .testnet3 => 18333
  | .regtest => 18444
  | .signet => 38333

/-- The name of a network. -/
def name : Network → String
  | .mainnet => "mainnet"
  | .testnet3 => "testnet3"
  | .regtest => "regtest"
  | .signet => "signet"

/-- All networks. -/
def all : List Network := [.mainnet, .testnet3, .regtest, .signet]

/-- The network with this exact name. -/
def ofName? (text : String) : Option Network := all.find? fun n => n.name = text

/-- The network that a person means: names and their common short forms, in any case. -/
def ofText? (text : String) : Option Network :=
  let lower := String.ofList (text.toList.map Char.toLower)
  if lower = "mainnet" || lower = "main" || lower = "bitcoin" then some .mainnet
  else if lower = "testnet" || lower = "testnet3" || lower = "test" then some .testnet3
  else if lower = "regtest" then some .regtest
  else if lower = "signet" then some .signet
  else none

/-- The text that reports an unknown name. -/
def unknownMessage (text : String) : String := "Unknown network: " ++ text

end Network

end LightPeer
