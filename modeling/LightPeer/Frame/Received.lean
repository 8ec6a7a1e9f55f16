import LightPeer.Frame.Basic

/-!
# Frames as a peer receives them

The other side of a link sees a row of bytes.  `received` cuts it into frames by
the lengths in the headers alone, and tells of each whether it begins with the
bytes of the network and its checksum is right.
-/

namespace LightPeer.Frame

/-- A whole frame, whatever its content. -/
structure Received where
  command : String
  payload : Bytes
  /-- Whether the bytes of the network and the checksum are right. -/
  intact : Bool
  deriving DecidableEq, Repr

/-- The whole frames of a stream, and the bytes behind them. -/
def received (magic stream : Bytes) : List Received × Bytes :=
  if _size : Bytes.hasAtLeast headerSize stream then
    let header := Header.ofBytes (stream.take headerSize)
    let body := stream.drop headerSize
    if Bytes.hasAtLeast header.length body then
      let payload := body.take header.length
      let intact := stream.take 4 = magic && checksum payload = header.checksum
      let (frames, rest) := received magic (body.drop header.length)
      (⟨header.command, payload, intact⟩ :: frames, rest)
    else ([], stream)
  else ([], stream)
termination_by stream.length
decreasing_by
  have := Bytes.hasAtLeast_iff.mp _size
  simp only [body, headerSize, List.length_drop] at *
  omega

end LightPeer.Frame
