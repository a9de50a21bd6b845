import Relay.Toml.Document
import Relay.Toml.Scalar

/-! # Reading TOML

A document has one key with its value, one header or nothing on each line. Arrays may go over
several lines. Neither values nor keys may nest too deep. -/

namespace Relay.Toml

/-- How deep arrays and tables may nest, and how many parts a key may have. -/
def deepest : Nat := 79

/-- Drop blanks. -/
def skipBlanks (text : List Char) : List Char :=
  text.dropWhile isBlank

/-- Drop a remark up to the line end. -/
def skipRemark : List Char → List Char
  | '#' :: rest => rest.dropWhile isPlain
  | text => text

/-- Drop what may stand at the end of a line together with the line end. -/
def endLine? (text : List Char) : Option (List Char) :=
  match skipRemark (skipBlanks text) with
  | [] => some []
  | '\n' :: rest => some rest
  | _ => none

/-- Drop blanks, remarks and line ends, from inside a remark or not. -/
def skipFrom (remark : Bool) : List Char → List Char
  | [] => []
  | c :: rest =>
    if c = '\n' then skipFrom false rest
    else if remark then if isPlain c then skipFrom true rest else c :: rest
    else if isBlank c then skipFrom false rest
    else if c = '#' then skipFrom true rest
    else c :: rest

/-- Drop all blanks, remarks and line ends. -/
def skipGap (text : List Char) : List Char :=
  skipFrom false text

/-- Whether a character may stand in a key without quotes. -/
def isKeyChar (c : Char) : Bool :=
  c.isAlphanum || c == '-' || c == '_'

/-- One part of a key. -/
def takeKeyPart? (text : List Char) : Option (String × List Char) :=
  match takeShort? text with
  | some found => some found
  | none =>
    match text.takeWhile isKeyChar with
    | [] => none
    | part => some (String.ofList part, text.dropWhile isKeyChar)

/-- The parts of a key with blanks around them, of which there are at most so many. -/
def takeKeyParts? : Nat → List Char → Option (List String × List Char)
  | 0, _ => none
  | fuel + 1, text => do
    let (part, rest) ← takeKeyPart? (skipBlanks text)
    match skipBlanks rest with
    | '.' :: rest =>
      let (parts, rest) ← takeKeyParts? fuel rest
      pure (part :: parts, rest)
    | rest => pure ([part], rest)

/-- The parts of a key, of which the last stands apart. -/
def takeKey? (text : List Char) : Option (List String × String × List Char) := do
  let (parts, rest) ← takeKeyParts? deepest text
  pure (parts.dropLast, ← parts.getLast?, rest)

/-- The items of an array behind its bracket, of which there are at most `fuel`. A comma may follow
the last. -/
def takeItems? (item : List Char → Option (Value × List Char)) (found : List Value) :
    Nat → List Char → Option (Value × List Char)
  | 0, _ => none
  | fuel + 1, text =>
    match skipGap text with
    | ']' :: rest => some (.array found.reverse, rest)
    | text => do
      let (value, rest) ← item text
      match skipGap rest with
      | ',' :: rest => takeItems? item (value :: found) fuel rest
      | ']' :: rest => some (.array (value :: found).reverse, rest)
      | _ => none

/-- A key with its value. -/
def takePair? (item : List Char → Option (Value × List Char)) (text : List Char) :
    Option (List String × String × Value × List Char) := do
  let (path, key, rest) ← takeKey? text
  match rest with
  | '=' :: rest =>
    let (value, rest) ← item (skipBlanks rest)
    pure (path, key, value, rest)
  | _ => none

/-- The pairs of a table on one line, of which there are at most `fuel`. -/
def takePairs? (item : List Char → Option (Value × List Char)) (entries : Entries) :
    Nat → List Char → Option (Value × List Char)
  | 0, _ => none
  | fuel + 1, text => do
    let (path, key, value, rest) ← takePair? item text
    let entries ← entries.insert path key (.value value)
    match skipBlanks rest with
    | ',' :: rest => takePairs? item entries fuel rest
    | '\x7d' :: rest => pure (.table (finishEntries entries), rest)
    | _ => none

/-- The value that a word stands for. -/
def Scalar.value : Scalar → Value
  | .boolean value => .boolean value
  | .integer value => .integer value
  | .real => .real
  | .moment => .moment

/-- A value at the front in which arrays and tables nest at most so deep and have at most `room`
items. -/
def takeValue? (room : Nat) : Nat → List Char → Option (Value × List Char)
  | depth + 1, '[' :: rest => takeItems? (takeValue? room depth) [] room rest
  | depth + 1, '\x7b' :: rest =>
    match skipBlanks rest with
    | '\x7d' :: rest => some (.table [], rest)
    | rest => takePairs? (takeValue? room depth) [] room rest
  | _, text =>
    match takeText? text with
    | some (text, rest) => some (.text text, rest)
    | none => (takeScalar? text).map fun (scalar, rest) => (scalar.value, rest)

/-- A document that is being read, and the header of the table that is open. -/
structure Draft where
  entries : Entries
  header : List String

/-- Read a header behind its first bracket. -/
def Draft.readHeader (draft : Draft) (text : List Char) : Option (Draft × List Char) :=
  match text with
  | '[' :: text => do
    let (path, key, rest) ← takeKey? text
    match rest with
    | ']' :: ']' :: rest => pure (⟨← draft.entries.openRow path key, path ++ [key]⟩, rest)
    | _ => none
  | text => do
    let (path, key, rest) ← takeKey? text
    match rest with
    | ']' :: rest => pure (⟨← draft.entries.openTable path key, path ++ [key]⟩, rest)
    | _ => none

/-- Read a key with its value, in which arrays and tables have at most `room` items. -/
def Draft.readPair (room : Nat) (draft : Draft) (text : List Char) :
    Option (Draft × List Char) := do
  let (path, key, value, rest) ← takePair? (takeValue? room deepest) text
  pure ({ draft with entries := ← draft.entries.insertBelow draft.header path key value }, rest)

/-- Read lines, of which there are fewer than `fuel`. A line and an item take a character each, so
that what is longer than the text is enough for both. -/
def Draft.readLines : Nat → Draft → List Char → Option Draft
  | 0, _, _ => none
  | fuel + 1, draft, text =>
    match skipGap text with
    | [] => some draft
    | '[' :: rest => do
      let (draft, rest) ← draft.readHeader rest
      readLines fuel draft (← endLine? rest)
    | text => do
      let (draft, rest) ← draft.readPair (fuel + 1) text
      readLines fuel draft (← endLine? rest)

/-- The text with line feeds for line ends and without a mark of byte order. -/
def plainText : List Char → List Char
  | '\r' :: '\n' :: rest => '\n' :: plainText rest
  | c :: rest => c :: plainText rest
  | [] => []

/-- The value of a document. -/
def read (source : String) : Option Value :=
  let text :=
    match source.toList with
    | '\uFEFF' :: rest => rest
    | text => text
  let text := plainText text
  (Draft.readLines (text.length + 1) ⟨[], []⟩ text).map fun draft =>
    .table (finishEntries draft.entries)

end Relay.Toml
