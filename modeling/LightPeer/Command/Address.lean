import LightPeer.Command.Options

/-!
# The command that shows what addresses commit to

Addresses are shown in order, each behind its hash, up to the first that has none.
-/

namespace LightPeer

/-- The line for an address. -/
def Address.line (address : String) (hash : Hash160) : String :=
  Hex.encode hash.bytes ++ " " ++ address

/-- The lines for addresses, and the failure that ends them if there is one. -/
def Address.lines : List String → List String × Option CommandError
  | [] => ([], none)
  | address :: addresses =>
    match Address.hash address with
    | .error cause => ([], some (.address cause))
    | .ok hash =>
      let (rest, failure) := lines addresses
      (line address hash :: rest, failure)

end LightPeer
