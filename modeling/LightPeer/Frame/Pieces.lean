import LightPeer.Frame.Basic

/-!
# Streams that arrive in pieces

A stream is cut anywhere on its way.  After every piece the messages that are
complete are taken, and the bytes of the unfinished frame wait for the next piece.
-/

namespace LightPeer.Frame

/-- The messages of a stream that arrives in pieces behind the bytes that are held.  No
piece behind a fault is looked at. -/
def drainPieces (magic held : Bytes) : List Bytes → Drained
  | [] => ⟨[], none, held⟩
  | piece :: pieces =>
    let now := drain magic (held ++ piece)
    match now.fault with
    | some _ => now
    | none =>
      let later := drainPieces magic now.rest pieces
      { later with messages := now.messages ++ later.messages }

end LightPeer.Frame
