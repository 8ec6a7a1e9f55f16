import LightPeer.Record.Hash

/-!
# Transactions

A transaction spends outputs of earlier ones and has outputs of its own.  It is
named by the hash of its bytes: of those it was read from, or of those it is
written as.

The parts of a transaction are written in the byte order in force; a transaction
sets that order for its parts.
-/

namespace LightPeer

open Wire

/-- An output of an earlier transaction. -/
structure OutPoint where
  hash : Hash256
  index : UInt32
  deriving DecidableEq, Inhabited

namespace OutPoint

/-- The output that a coinbase input spends: none at all. -/
def isNull (o : OutPoint) : Bool := o.hash = Hash256.zero && o.index = 0xFFFFFFFF

/-- The fields of an output's name. -/
def pieces (order : ByteOrder) (o : OutPoint) : List Bytes :=
  [o.hash.bytes, Bytes.ofNat order 4 o.index.toNat]

/-- Reads an output's name. -/
def decoder : Decoder OutPoint := do
  let hash ← hashDecoder
  let index ← Decoder.uint32
  return ⟨hash, index⟩

end OutPoint

/-- An input of a transaction. -/
structure TxIn where
  previous : OutPoint
  script : Bytes
  sequence : UInt32
  deriving DecidableEq, Inhabited

namespace TxIn

/-- The fields of an input. -/
def pieces (order : ByteOrder) (i : TxIn) : List Bytes :=
  i.previous.pieces order ++ varBytesPieces i.script ++ [Bytes.ofNat order 4 i.sequence.toNat]

/-- Reads an input. -/
def decoder : Decoder TxIn := do
  let previous ← OutPoint.decoder
  let script ← Decoder.varBytes
  let sequence ← Decoder.uint32
  return ⟨previous, script, sequence⟩

end TxIn

/-- An output of a transaction; the value counts the smallest units of the currency. -/
structure TxOut where
  value : Int64
  script : Bytes
  deriving DecidableEq, Inhabited

namespace TxOut

/-- The fields of an output. -/
def pieces (order : ByteOrder) (o : TxOut) : List Bytes :=
  int64Bytes order o.value :: varBytesPieces o.script

/-- Reads an output. -/
def decoder : Decoder TxOut := do
  let value ← Decoder.int64
  let script ← Decoder.varBytes
  return ⟨value, script⟩

end TxOut

/-- The fields of a transaction that its bytes are made of. -/
structure TxBody where
  version : Int32
  inputs : List TxIn
  outputs : List TxOut
  lockTime : UInt32
  deriving DecidableEq, Inhabited

namespace TxBody

/-- The fields of a transaction, in order. -/
def pieces (t : TxBody) : List Bytes :=
  int32Bytes .little t.version :: (vectorPieces (TxIn.pieces .little) t.inputs ++
    vectorPieces (TxOut.pieces .little) t.outputs ++ [Bytes.ofNat .little 4 t.lockTime.toNat])

/-- The bytes of a transaction. -/
def encode (t : TxBody) : Bytes := t.pieces.flatten

/-- Reads the fields of a transaction. -/
def decoder : Decoder TxBody :=
  Decoder.withOrder .little do
    let version ← Decoder.int32
    let inputs ← Decoder.vector TxIn.decoder
    let outputs ← Decoder.vector TxOut.decoder
    let lockTime ← Decoder.uint32
    return ⟨version, inputs, outputs, lockTime⟩

end TxBody

/-- A transaction with its name. -/
structure Tx extends TxBody where
  txid : Hash256
  deriving DecidableEq, Inhabited

namespace Tx

/-- A transaction named by the bytes it is written as. -/
def ofBody (body : TxBody) : Tx := ⟨body, Hash256.digest body.encode⟩

/-- Reads a transaction, which is named by the bytes it was read from. -/
def decoder : Decoder Tx := do
  let (body, consumed) ← Decoder.withConsumed TxBody.decoder
  return ⟨body, Hash256.digest consumed⟩

/-- Whether the transaction creates new coins: its one input spends nothing. -/
def isCoinbase (t : Tx) : Bool :=
  match t.inputs with
  | [i] => i.previous.isNull
  | _ => false

/-- The sum of two amounts, if it fits into 64 bits.  The program is the one that is built with
overflow checks, as builds for development and for tests are:  there a sum that does not fit is no
number, but a panic.  Built without them it would come round to the other end of the range. -/
def add? (a b : Int64) : Option Int64 :=
  let sum := a.toInt + b.toInt
  if -(2 ^ 63) ≤ sum ∧ sum < 2 ^ 63 then some (Int64.ofInt sum) else none

/-- The running sum of amounts behind `total`, unless it leaves the range of 64 bits. -/
def sumFrom? (total : Int64) : List Int64 → Option Int64
  | [] => some total
  | v :: vs => (add? total v).bind fun total => sumFrom? total vs

/-- The sum of the outputs, unless a partial sum does not fit into 64 bits.  With overflow checks
whoever asks for it then panics. -/
def totalOutput? (t : Tx) : Option Int64 := sumFrom? 0 (t.outputs.map TxOut.value)

/-- A short form for diagnosis: name, version, counts and lock time. -/
def debugText (t : Tx) : String :=
  "Tx \x7b txid: " ++ t.txid.debugText ++ s!", version: {t.version}, inputs: {t.inputs.length}" ++
    s!", outputs: {t.outputs.length}, lock_time: {t.lockTime} \x7d"

end Tx

end LightPeer
