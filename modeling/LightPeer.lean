import LightPeer.Frame.Received
import LightPeer.Listener.Board
import LightPeer.Main
import LightPeer.Wire.Cursor
import LightPeer.Wire.Unchecked
import LightPeer.Proofs.Merkle.Soundness
import LightPeer.Proofs.Message.MerkleBlock
import LightPeer.Proofs.Session.Confirmations
import LightPeer.Proofs.Session.Conversation
import LightPeer.Proofs.Session.Outcomes
import LightPeer.Proofs.Session.Reconnection
import LightPeer.Proofs.Session.Filtering
import LightPeer.Proofs.Session.Watching
import LightPeer.Proofs.Text.Utf8
import LightPeer.Proofs.Wire.Reading
import LightPeer.Proofs.Wire.Forms
import LightPeer.Proofs.Record.Spelling
import LightPeer.Proofs.Wire.Store
import LightPeer.Proofs.Message.Safety
import LightPeer.Proofs.Message.Block
import LightPeer.Proofs.Message.RoundTrip
import LightPeer.Proofs.Frame.Stream
import LightPeer.Proofs.Frame.Splitting
import LightPeer.Proofs.Message.Commands
import LightPeer.Proofs.Frame.Heading
import LightPeer.Proofs.Merkle.Descent
import LightPeer.Proofs.Merkle.Comparison
import LightPeer.Proofs.Frame.Grammar
import LightPeer.Proofs.Bloom.Contents
import LightPeer.Proofs.Text.Ascii
import LightPeer.Proofs.Message.Extent
import LightPeer.Message.Writing
import LightPeer.Proofs.Wire.Growth
import LightPeer.Proofs.Wire.Order
import LightPeer.Proofs.Message.Writing
import LightPeer.Proofs.Message.Order
import LightPeer.Proofs.Message.Introduction
import LightPeer.Proofs.Session.Requests
import LightPeer.Proofs.Listener.Handles
import LightPeer.Proofs.Listener.Snapshot
import LightPeer.Proofs.Message.Beyond
import LightPeer.Address.Writing
import LightPeer.Proofs.Address.Checksum
import LightPeer.Proofs.Address.Spelling
import LightPeer.Proofs.Address.Witness
import LightPeer.Proofs.Command.Rate
import LightPeer.Proofs.Command.Reporting
import LightPeer.Proofs.Wire.Counts
import LightPeer.Proofs.Merkle.Rounds
import LightPeer.Proofs.Digest.Display
import LightPeer.Proofs.Net.Literals
import LightPeer.Proofs.Bloom.Functions
