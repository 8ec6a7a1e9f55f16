import LightPeer.Config.File
import LightPeer.Decimal.Shortest
import LightPeer.Net.Target
import LightPeer.Session.Basic
import LightPeer.Text.Quoted

/-!
# Options of the commands

Settings come from a file, if one is named, and single ones are then replaced by
options.  A rate of false positives given as an option must lie between zero and
one.
-/

namespace LightPeer

/-- Why a command fails. -/
inductive CommandError
  | settingsUnreadable
  | settingsMalformed
  | rate (rate : Rate)
  | address (cause : Address.Error)
  | port
  /-- A host whose name could not be looked up. -/
  | lookup (host : String)
  | session (cause : SessionError)

/-- The form of a refused address for diagnosis. -/
def Address.Error.debugText : Address.Error → String
  | .unrecognized text => "Unrecognized(" ++ Text.quoted text ++ ")"
  | .unexpectedLength length => s!"UnexpectedLength({length})"

/-- The form of a failure for diagnosis. -/
def SessionError.debugText : SessionError → String
  | .alreadyConnected => "AlreadyConnected"
  | .notConnected => "NotConnected"
  | .filterNotSupported => "FilterNotSupported"
  | .io text => "Io(" ++ Text.quoted text ++ ")"
  | .framing cause => "Framing(" ++ Text.quoted cause.message ++ ")"
  | .address cause => "Address(" ++ cause.debugText ++ ")"
  | .invalidMerkleBlock block cause =>
    "InvalidMerkleBlock(" ++ block.debugText ++ ", " ++ Text.quoted cause.message ++ ")"

namespace CommandError

/-- The text of a failure. -/
def message : CommandError → String
  | .settingsUnreadable => "IO error"
  | .settingsMalformed => "Parse error"
  | .rate r => "false positive rate must be in (0, 1), got " ++ Decimal.text r.value
  | .address cause => cause.message
  | .port => "invalid port value"
  | .lookup host => "could not resolve " ++ host
  | .session cause => cause.message

/-- The form of a failure for diagnosis. -/
def debugText (e : CommandError) : String :=
  match e with
  | .settingsUnreadable => "Io"
  | .settingsMalformed => "Parse"
  | .rate _ => Text.quoted e.message
  | .address cause => cause.debugText
  | .port => "Error \x7b kind: InvalidInput, message: " ++ Text.quoted e.message ++ " \x7d"
  | .lookup _ => Text.quoted e.message
  | .session cause => cause.debugText

end CommandError

/-- The file with settings. -/
inductive SettingsFile
  | notNamed
  /-- It cannot be opened. -/
  | unreadable
  /-- It can be opened, but gives no bytes: a folder is such a file. -/
  | broken
  | content (bytes : Bytes)
  deriving Inhabited

/-- The settings in a file, or the usual ones if none is named. -/
def SettingsFile.config : SettingsFile → Except CommandError Config
  | .notNamed => .ok {}
  | .unreadable => .error .settingsUnreadable
  | .broken => .error .settingsMalformed
  | .content bytes =>
    match Config.ofFile? bytes with
    | some config => .ok config
    | none => .error .settingsMalformed

/-- What the command that listens is told. -/
structure ListenOptions where
  peer : String
  network : Option Network := none
  addresses : List String := []
  rate : Option Rate := none
  settings : SettingsFile := .notNamed
  deriving Inhabited

namespace ListenOptions

/-- Whether a rate of false positives can be asked for. -/
def isRate (rate : Rate) : Bool := 0 < rate.value && rate.value < 1

/-- The settings in the file with a network and a rate from the options in their place. -/
def config (o : ListenOptions) : Except CommandError Config :=
  match o.settings.config with
  | .error e => .error e
  | .ok config =>
    let config := { config with network := o.network.getD config.network }
    match o.rate with
    | none => .ok config
    | some rate =>
      if isRate rate then .ok { config with filter := { config.filter with rate } }
      else .error (.rate rate)

end ListenOptions

/-- What the peer of a command stands for. -/
def Target.ofPeer (network : Network) (peer : String) : Except CommandError Target :=
  match Target.ofText? network peer with
  | some target => .ok target
  | none => .error .port

end LightPeer
