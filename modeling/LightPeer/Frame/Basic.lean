import LightPeer.Message.Basic

/-!
# Frames

Messages travel in frames: the four bytes of the network, the name of the command
in a field of twelve bytes, the length of the payload, its checksum, and the
payload.  A stream is a row of frames; `next` takes the first message from the
bytes received so far, passing over frames whose command is not known, and
`drain` takes all of them.

A fault is found as early as the bytes allow: the bytes of the network and the
length are checked before the payload has arrived, the checksum and the payload
afterwards.
-/

namespace LightPeer.Frame

open Wire

/-- The length of everything before the payload. -/
def headerSize : Nat := 24

/-- The width of the field that names the command. -/
def commandSize : Nat := 12

/-- The length of the longest payload that is accepted. -/
def maxPayload : Nat := 32 * 1024 * 1024

/-- Why a stream cannot be read any further. -/
inductive Error
  | magicMismatch (expected found : Bytes)
  | checksumMismatch (command : String)
  | payloadTooLarge (command : String) (length : Nat)
  | decode (command : String) (cause : Wire.Error)
  | io (text : String)
  deriving DecidableEq, Repr

/-- The text of a fault. -/
def Error.message : Error → String
  | .magicMismatch expected found =>
    "Magic mismatch: expected " ++ Hex.encode expected ++ ", found " ++ Hex.encode found
  | .checksumMismatch command => "Checksum mismatch for '" ++ command ++ "'"
  | .payloadTooLarge command length =>
    "Payload of '" ++ command ++ s!"' too large: {length} bytes"
  | .decode command cause => "Malformed '" ++ command ++ "' payload: " ++ cause.message
  | .io text => "IO error: " ++ text

/-- What a header says of its payload. -/
structure Header where
  command : String
  length : Nat
  checksum : Bytes
  deriving DecidableEq, Repr

/-- The header in these bytes, the first four of which have been checked. -/
def Header.ofBytes (bs : Bytes) : Header where
  command := Utf8.decodeLossy (((bs.drop 4).take commandSize).takeWhile (· ≠ 0))
  length := Bytes.toNat .little ((bs.drop 16).take 4)
  checksum := (bs.drop 20).take 4

/-- How many bytes of the frame at the front of a stream are still to come, as far as the
stream tells: nothing is known of a frame without a whole header. -/
def missing (stream : Bytes) : Nat :=
  if Bytes.hasAtLeast headerSize stream then
    headerSize + (Header.ofBytes (stream.take headerSize)).length - stream.length
  else 0

/-- The front of a stream: a whole frame with the right checksum and what follows it,
too little to tell, or a fault and the bytes that are left then. -/
inductive Front (stream : Bytes)
  | incomplete
  | fault (error : Error) (rest : Bytes)
  | frame (command : String) (payload rest : Bytes) (shorter : rest.length < stream.length)

/-- The frame at the front of a stream. -/
def front (magic stream : Bytes) : Front stream :=
  if size : Bytes.hasAtLeast headerSize stream then
    let header := Header.ofBytes (stream.take headerSize)
    let body := stream.drop headerSize
    if stream.take 4 ≠ magic then .fault (.magicMismatch magic (stream.take 4)) stream
    else if maxPayload < header.length then
      .fault (.payloadTooLarge header.command header.length) stream
    else if Bytes.hasAtLeast header.length body then
      let payload := body.take header.length
      if checksum payload = header.checksum then
        .frame header.command payload (body.drop header.length) (by
          have := Bytes.hasAtLeast_iff.mp size
          simp only [body, headerSize, List.length_drop] at *
          omega)
      else .fault (.checksumMismatch header.command) (body.drop header.length)
    else .incomplete
  else .incomplete

/-- What the bytes received so far give, and the bytes that are kept. -/
inductive Next
  | message (m : Message) (rest : Bytes)
  | incomplete (rest : Bytes)
  | fault (error : Error) (rest : Bytes)

/-- The bytes that are kept. -/
def Next.rest : Next → Bytes
  | .message _ rest => rest
  | .incomplete rest => rest
  | .fault _ rest => rest

/-- The first message of a stream; frames of commands that are not known are passed over. -/
def next (magic stream : Bytes) : Next :=
  match front magic stream with
  | .incomplete => .incomplete stream
  | .fault error rest => .fault error rest
  | .frame command payload rest _ =>
    match Message.decode command payload with
    | .ok (some m) => .message m rest
    | .ok none => next magic rest
    | .error cause => .fault (.decode command cause) rest
termination_by stream.length

/-- A message takes at least one byte from the stream. -/
theorem length_lt_of_next_eq_message {magic stream rest : Bytes} {m : Message}
    (h : next magic stream = .message m rest) : rest.length < stream.length := by
  fun_induction next magic stream with
  | case1 stream => cases h
  | case2 stream => cases h
  | case3 stream command payload rest' shorter _ m' _ => cases h; exact shorter
  | case4 stream command payload rest' shorter _ _ ih => exact Nat.lt_trans (ih h) shorter
  | case5 stream => cases h

/-- The messages of a stream, the fault that ends it if there is one, and the bytes
that are left. -/
structure Drained where
  messages : List Message
  fault : Option Error
  rest : Bytes

/-- All messages of a stream up to its end or the first fault. -/
def drain (magic stream : Bytes) : Drained :=
  match _taken : next magic stream with
  | .incomplete rest => ⟨[], none, rest⟩
  | .fault error rest => ⟨[], some error, rest⟩
  | .message m rest =>
    let more := drain magic rest
    { more with messages := m :: more.messages }
termination_by stream.length
decreasing_by exact length_lt_of_next_eq_message _taken

/-- The first message of a stream that has ended: bytes of an unfinished frame are a fault. -/
def nextAtEnd (magic stream : Bytes) : Next :=
  match next magic stream with
  | .incomplete rest =>
    if rest.isEmpty then .incomplete rest else .fault (.io "bytes remaining on stream") rest
  | other => other

/-- A frame of a command and a payload. -/
def encode (magic : Bytes) (command : String) (payload : Bytes) : Bytes :=
  magic ++ fixedStringBytes commandSize command ++ Bytes.ofNat .little 4 payload.length ++
    checksum payload ++ payload

end LightPeer.Frame
