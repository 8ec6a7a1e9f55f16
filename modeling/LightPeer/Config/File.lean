import LightPeer.Config.Basic
import LightPeer.Json.Typed
import LightPeer.Record.Inventory
import LightPeer.Text.Blank

/-!
# Settings in a file

Settings are kept as a JSON record, all fields of which may be missing.  The
readers of the values that can stand in such files, and their written forms, are
in this module.
-/

namespace LightPeer

open Json

/-- A text between quotation marks; it must hold no character that needs an escape. -/
def Json.plain (text : String) : String := "\"" ++ text ++ "\""

namespace Network

/-- Reads a network, by its exact name. -/
def ofJson? (v : Value) : Option Network := v.bareChoice?.bind ofName?

/-- A network as it is written. -/
def json (n : Network) : String := Json.plain n.name

end Network

namespace FilterUpdate

/-- The name of a choice in a file. -/
def name : FilterUpdate → String
  | .none => "none"
  | .all => "all"
  | .pubKeyOnly => "p2_pub_key_only"

/-- Reads a choice. -/
def ofJson? (v : Value) : Option FilterUpdate :=
  v.bareChoice?.bind fun text => [FilterUpdate.none, .all, .pubKeyOnly].find? fun u => u.name = text

/-- A choice as it is written. -/
def json (u : FilterUpdate) : String := Json.plain u.name

end FilterUpdate

namespace InventoryKind

/-- Reads a kind; one that is not acted on comes with its number. -/
def ofJson? (v : Value) : Option InventoryKind :=
  match v.choice? with
  | some ("Other", some v) => v.uint32?.map .other
  | some _ =>
    v.bareChoice?.bind fun text =>
      [InventoryKind.error, .tx, .block, .filteredBlock].find? fun k => k.name = text
  | none => Option.none

/-- A kind as it is written. -/
def json : InventoryKind → String
  | .other number => "\x7b\"Other\":" ++ toString number.toNat ++ "\x7d"
  | kind => Json.plain kind.name

end InventoryKind

namespace Hash256

/-- Reads a hash, as an array of its bytes. -/
def ofJson? : Value → Option Hash256
  | .array items => (items.mapM Value.uint8?).bind ofBytes?
  | _ => none

/-- A hash as it is written. -/
def json (h : Hash256) : String :=
  "[" ++ String.intercalate "," (h.bytes.map fun b => toString b.toNat) ++ "]"

end Hash256

namespace Services

/-- Reads a set of services. -/
def ofJson? (v : Value) : Option Services := v.text?.bind ofText?

/-- A set of services as it is written. -/
def json (s : Services) : String := Json.plain s.text

end Services

/-- Reads a rate of false positives. -/
def Rate.ofJson? (v : Value) : Option Rate := v.float?.map ofFloat

/-- Reads how a filter is built. -/
def FilterPolicy.ofJson? (v : Value) : Option FilterPolicy := do
  let fields ← v.record? ["false_positive_rate", "update_flags"]
  let default : FilterPolicy := {}
  return {
    rate := ← field? fields "false_positive_rate" Rate.ofJson? default.rate
    update := ← field? fields "update_flags" FilterUpdate.ofJson? default.update }

namespace Config

/-- The names of the settings, in order. -/
def names : List String :=
  ["network", "protocol_version", "user_agent", "start_height", "filter"]

/-- Reads settings. -/
def ofJson? (v : Value) : Option Config := do
  let fields ← v.record? names
  let default : Config := {}
  return {
    network := ← field? fields "network" Network.ofJson? default.network
    protocolVersion := ← field? fields "protocol_version" Value.int32? default.protocolVersion
    userAgent := ← field? fields "user_agent" Value.text? default.userAgent
    startHeight := ← field? fields "start_height" Value.int32? default.startHeight
    filter := ← field? fields "filter" FilterPolicy.ofJson? default.filter }

/-- The settings in the bytes of a file. -/
def ofFile? (bytes : Bytes) : Option Config := (Json.parse? bytes).bind ofJson?

end Config

end LightPeer
