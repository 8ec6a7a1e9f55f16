import LightPeer.Config.Basic
import LightPeer.Listener.Registry
import LightPeer.Session.Basic

/-!
# The journal of a connection

All that happens on a connection is written down in order: stages, messages of the
peer and messages sent, what comes to be watched and how filters come to be built, events and what
listeners did with them, and reports of trouble.
-/

namespace LightPeer

/-- What a connection reports of trouble. -/
inductive Notice
  | listener (complaint : Complaint)
  | dialFailed (peer : Endpoint) (cause : String)
  | versionUnsent (peer : Endpoint) (cause : SessionError)
  | sessionFailed (peer : Option Endpoint) (cause : SessionError)
  | readerAborted

namespace Notice

/-- Whether a report is about a failure of the connection itself. -/
def isError : Notice → Bool
  | .listener _ => false
  | .dialFailed .. => true
  | .versionUnsent .. => true
  | .sessionFailed .. => true
  | .readerAborted => false

/-- The text of an endpoint that may be missing. -/
def peerText : Option Endpoint → String
  | some peer => "Some(" ++ peer.text ++ ")"
  | Option.none => "None"

/-- The text of a report, in which handles of listeners are shown as `label` says. -/
def text (label : ListenerId → String) : Notice → String
  | .listener complaint => complaint.text label
  | .dialFailed peer cause => "Failed to connect to " ++ peer.text ++ ": " ++ cause
  | .versionUnsent peer cause => "Failed to send version to " ++ peer.text ++ ": " ++ cause.message
  | .sessionFailed peer cause =>
    "Connection to " ++ peerText peer ++ " failed: " ++ cause.message
  | .readerAborted => "Dispatch task did not stop within 5s, aborting"

/-- A report as a line, with its weight in front. -/
def line (label : ListenerId → String) (n : Notice) : String :=
  (if n.isError then "ERROR: " else "WARN: ") ++ n.text label

end Notice

/-- Something that happened on a connection. -/
inductive Entry
  /-- The session came to a stage. -/
  | entered (stage : Stage)
  /-- A message of the peer came up to be handled. -/
  | received (message : Message)
  /-- A message was handed to the writer. -/
  | sent (message : Outgoing)
  /-- From here on these addresses were watched. -/
  | watching (addresses : List String)
  /-- From here on filters were built in this way. -/
  | tuning (policy : FilterPolicy)
  /-- An event happened that listeners are told. -/
  | emitted (event : Event)
  /-- A listener was told an event. -/
  | called (id : ListenerId) (stage : Stage) (event : Event)
  /-- A listener said a line. -/
  | said (line : String)
  | noticed (notice : Notice)

end LightPeer
