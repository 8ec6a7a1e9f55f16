import LightPeer.Bytes.Hex

/-!
# JSON trees

A JSON text is read into a tree that keeps strings and numbers as they are
written: what a string or number means is asked only of those that are used.  So a
tree can hold strings that are no text and numbers that fit no type.

The reader is strict: one value, blanks around it, and nothing else.
-/

namespace LightPeer.Json

/-- A piece of a string: a byte, as it stands or behind a backslash, or a unit of
sixteen bits given by four digits. -/
inductive Piece
  | byte (b : UInt8)
  | unit (n : Nat)
  deriving DecidableEq, Repr

/-- A number by its digits. -/
structure Number where
  negative : Bool
  whole : List Nat
  fraction : Option (List Nat)
  exponent : Option Int
  deriving DecidableEq, Repr

/-- A JSON value. -/
inductive Value
  | null
  | bool (b : Bool)
  | number (n : Number)
  | string (pieces : List Piece)
  | array (items : List Value)
  | object (members : List (List Piece × Value))

/-- The byte of a character below 128. -/
def code (c : Char) : UInt8 := UInt8.ofNat c.toNat

/-- The bytes behind blanks. -/
def skipBlanks (bs : Bytes) : Bytes :=
  bs.dropWhile fun b => b = code ' ' || b = code '\t' || b = code '\n' || b = code '\r'

/-- The bytes behind a word, if they begin with it. -/
def skipWord? (word : String) (bs : Bytes) : Option Bytes :=
  let ws := word.toList.map code
  if ws.isPrefixOf bs then some (bs.drop ws.length) else none

/-- What a character behind a backslash stands for, if it needs no digits. -/
def shortEscape? (b : UInt8) : Option UInt8 :=
  if b = code '"' || b = code '\\' || b = code '/' then some b
  else if b = code 'b' then some 8
  else if b = code 'f' then some 12
  else if b = code 'n' then some 10
  else if b = code 'r' then some 13
  else if b = code 't' then some 9
  else none

/-- The unit that four digits stand for. -/
def unitOf? (digits : Bytes) : Option Nat :=
  match digits.mapM Hex.digitValue? with
  | some [a, b, c, d] => some (((a.toNat * 16 + b.toNat) * 16 + c.toNat) * 16 + d.toNat)
  | _ => none

/-- The first piece of a string, and the bytes behind it. -/
def pieceOf? (b : UInt8) (bs : Bytes) : Option (Piece × Bytes) :=
  if b < 32 then none
  else if b = code '\\' then
    match bs with
    | [] => none
    | e :: rest =>
      if e = code 'u' then (unitOf? (rest.take 4)).map fun n => (.unit n, rest.drop 4)
      else (shortEscape? e).map fun b => (.byte b, rest)
  else some (.byte b, bs)

theorem length_le_of_pieceOf? {b : UInt8} {bs rest : Bytes} {p : Piece}
    (h : pieceOf? b bs = some (p, rest)) : rest.length ≤ bs.length := by
  unfold pieceOf? at h
  split at h
  · cases h
  split at h
  · split at h
    · cases h
    · split at h
      · obtain ⟨n, _, hn⟩ := Option.map_eq_some_iff.mp h
        cases hn
        simp only [List.length_drop, List.length_cons]
        omega
      · obtain ⟨n, _, hn⟩ := Option.map_eq_some_iff.mp h
        cases hn
        simp
  · cases h
    exact Nat.le_refl _

/-- The pieces of a string up to the closing mark, and the bytes behind that. -/
def stringOf? : Bytes → Option (List Piece × Bytes)
  | [] => none
  | b :: bs =>
    if b = code '"' then some ([], bs)
    else
      match _piece : pieceOf? b bs with
      | none => none
      | some (p, rest) => (stringOf? rest).map fun (ps, rest) => (p :: ps, rest)
termination_by bs => bs.length
decreasing_by
  have := length_le_of_pieceOf? _piece
  simp only [List.length_cons]
  omega

/-- Whether a byte is a decimal digit. -/
def isDigit (b : UInt8) : Bool := code '0' ≤ b && b ≤ code '9'

/-- The digits in front, and the bytes behind them. -/
def digitsOf (bs : Bytes) : List Nat × Bytes :=
  ((bs.takeWhile isDigit).map fun b => b.toNat - 48, bs.dropWhile isDigit)

/-- The value of a row of digits. -/
def valueOf (digits : List Nat) : Nat := digits.foldl (fun n d => 10 * n + d) 0

/-- The digits behind a point, if there is a point. -/
def fractionOf? (bs : Bytes) : Option (Option (List Nat) × Bytes) :=
  match bs with
  | b :: rest =>
    if b = code '.' then
      let (digits, rest) := digitsOf rest
      if digits.isEmpty then none else some (some digits, rest)
    else some (none, bs)
  | [] => some (none, [])

/-- A sign in front of a power of ten: whether it is a minus, and what follows. -/
def exponentSign (bs : Bytes) : Bool × Bytes :=
  match bs with
  | b :: rest =>
    if b = code '-' then (true, rest) else if b = code '+' then (false, rest) else (false, bs)
  | [] => (false, [])

/-- The power of ten behind its letter, if there is one. -/
def exponentOf? (bs : Bytes) : Option (Option Int × Bytes) :=
  match bs with
  | b :: rest =>
    if b = code 'e' || b = code 'E' then
      let (negative, rest) := exponentSign rest
      let (digits, rest) := digitsOf rest
      if digits.isEmpty then none
      else some (some (if negative then -(valueOf digits : Int) else valueOf digits), rest)
    else some (none, bs)
  | [] => some (none, [])

/-- The number in front; its whole part has no zero in front of other digits. -/
def numberOf? (bs : Bytes) : Option (Number × Bytes) :=
  let (negative, unsigned) :=
    match bs with
    | b :: rest => if b = code '-' then (true, rest) else (false, bs)
    | [] => (false, [])
  let (whole, rest) := digitsOf unsigned
  if whole.isEmpty || (whole.head? = some 0 && 1 < whole.length) then none
  else
    match fractionOf? rest with
    | none => none
    | some (fraction, rest) =>
      match exponentOf? rest with
      | none => none
      | some (exponent, rest) => some (⟨negative, whole, fraction, exponent⟩, rest)

mutual

/-- The value in front, nested at most `fuel` steps deep. -/
def valueOf? : Nat → Bytes → Option (Value × Bytes)
  | 0, _ => none
  | fuel + 1, bs =>
    match skipBlanks bs with
    | [] => none
    | b :: rest =>
      if b = code '"' then (stringOf? rest).map fun (ps, rest) => (.string ps, rest)
      else if b = code '[' then
        match skipBlanks rest with
        | [] => none
        | c :: more =>
          if c = code ']' then some (.array [], more)
          else (itemsOf? fuel (c :: more)).map fun (vs, rest) => (.array vs, rest)
      else if b = code '\x7b' then
        match skipBlanks rest with
        | [] => none
        | c :: more =>
          if c = code '\x7d' then some (.object [], more)
          else (membersOf? fuel (c :: more)).map fun (ms, rest) => (.object ms, rest)
      else if b = code 'n' then (skipWord? "null" (b :: rest)).map fun rest => (.null, rest)
      else if b = code 't' then (skipWord? "true" (b :: rest)).map fun rest => (.bool true, rest)
      else if b = code 'f' then (skipWord? "false" (b :: rest)).map fun rest => (.bool false, rest)
      else (numberOf? (b :: rest)).map fun (n, rest) => (.number n, rest)

/-- One or more values with commas between them, up to the closing bracket. -/
def itemsOf? : Nat → Bytes → Option (List Value × Bytes)
  | 0, _ => none
  | fuel + 1, bs =>
    match valueOf? fuel bs with
    | none => none
    | some (v, rest) =>
      match skipBlanks rest with
      | [] => none
      | c :: rest =>
        if c = code ']' then some ([v], rest)
        else if c = code ',' then (itemsOf? fuel rest).map fun (vs, rest) => (v :: vs, rest)
        else none

/-- One or more members with commas between them, up to the closing brace. -/
def membersOf? : Nat → Bytes → Option (List (List Piece × Value) × Bytes)
  | 0, _ => none
  | fuel + 1, bs =>
    match (skipWord? "\"" (skipBlanks bs)).bind stringOf? with
    | none => none
    | some (name, rest) =>
      match (skipWord? ":" (skipBlanks rest)).bind (valueOf? fuel) with
      | none => none
      | some (v, rest) =>
        match skipBlanks rest with
        | [] => none
        | c :: rest =>
          if c = code '\x7d' then some ([(name, v)], rest)
          else if c = code ',' then
            (membersOf? fuel rest).map fun (ms, rest) => ((name, v) :: ms, rest)
          else none

end

/-- The value that is the whole text.  Every second step into the tree takes a byte. -/
def parse? (text : Bytes) : Option Value :=
  match valueOf? (2 * text.length + 2) text with
  | none => none
  | some (v, rest) => if (skipBlanks rest).isEmpty then some v else none

end LightPeer.Json
