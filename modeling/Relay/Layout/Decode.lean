import Relay.Frame.Header
import Relay.Layout.Chain
import Relay.Layout.Check
import Relay.Stream.Reader
import Relay.Value

/-! # Reading a message

The fields of a level are read one after the other. Where the header of a field says that it lies
elsewhere, the cursor goes there, and goes on behind it. The elements of arrays are linked: each
begins with its own position and that of the next element of its chain, zero for none. -/

namespace Relay

open Relay.Stream

/-- Why a message cannot be read. -/
inductive DecodeError where
  | tooSmall (length : Nat)
  | stream (path : String) (cause : StreamError)
  | offsetInsideHeader (path : String) (offset : UInt16)
  | elementMismatch (path : String) (position : Nat) (found : UInt16)
  | arrayOverflow (path : String) (index expected : Nat)
  | lengthMismatch (path : String) (found expected : Nat)
  deriving DecidableEq, Repr

/-- The wording of a refusal. -/
def DecodeError.message : DecodeError → String
  | .tooSmall length => s!"message too small: {length} bytes"
  | .stream path cause => s!"{path}: {cause.message}"
  | .offsetInsideHeader path offset => s!"{path}: invalid offset {offset} (inside header)"
  | .elementMismatch path position found =>
    s!"{path}: cannot find next element of array at {position} (found value {found})"
  | .arrayOverflow path index expected =>
    s!"{path}: found out of bounds element {index} (expected length {expected})"
  | .lengthMismatch path found expected =>
    s!"{path}: array length mismatch, found {found} (expected {expected})"

/-- The wording of what led to a refusal. -/
def DecodeError.causes : DecodeError → List String
  | .stream _ cause => [cause.message]
  | _ => []

namespace Layout

/-- Reading that may fail and moves a cursor. -/
abbrev Decode := EStateM DecodeError Reader

namespace Decode

/-- A read whose failure is reported for a path. -/
def within (path : String) (read : Read α) : Decode α :=
  fun reader =>
    match read reader with
    | .ok value reader => .ok value reader
    | .error cause reader => .error (.stream path cause) reader

/-- Note an oddity. -/
def warn (text : String) (details : List (String × String)) : Decode Unit :=
  modify (·.remark (.warning text details))

/-- A scalar. -/
def scalar (type : Scalar) (path : String) : Decode Value :=
  within path <|
    match type with
    | .bool => .bool <$> Read.bool
    | .byte => .byte <$> Read.uint8
    | .int16 => .int16 <$> Read.int16
    | .uint16 => .uint16 <$> Read.uint16
    | .int32 => .int32 <$> Read.int32
    | .uint32 => .uint32 <$> Read.uint32
    | .int64 => .int64 <$> Read.int64
    | .uint64 => .uint64 <$> Read.uint64
    | .float => .float <$> Read.single
    | .double => .double <$> Read.double
    | .vector => .vector <$> Read.vector
    | .rotation => .vector <$> Read.rotation
    | .angle => .angle <$> Read.angle
    | .skill32 => .skill <$> Read.skill32
    | .skill => .skill <$> Read.skill
    | .appearance => .appearance <$> Read.appearance

end Decode

/-- The headers of a level that were read so far, by kind and dotted key. -/
structure HeaderValues where
  values : List ((HeaderKind × String) × UInt16)

namespace HeaderValues

/-- The value of a header. -/
def get? (headers : HeaderValues) (kind : HeaderKind) (key : String) : Option UInt16 :=
  headers.values.lookup (kind, key)

/-- Note the value of a header. A later one replaces an earlier one. -/
def insert (headers : HeaderValues) (kind : HeaderKind) (key : String) (value : UInt16) :
    HeaderValues :=
  ⟨((kind, key), value) :: headers.values.eraseP fun (other, _) => other == (kind, key)⟩

/-- Where the headers of the level end if they stand at the front of a message. -/
def finish (headers : HeaderValues) : Nat :=
  Frame.Header.size + 2 * headers.values.length

end HeaderValues

/-- What was read of a level. -/
structure LevelRead where
  headers : HeaderValues
  object : Object

/-- An array of a chain: where it stands, what its headers say, and how an element is read. -/
structure ReadColumn where
  name : String
  path : String
  count : Nat
  offset : UInt16
  element : String → Decode Value

namespace Decode

/-- Go where the offset of a field points. -/
def seekTarget (headers : HeaderValues) (key path : String) : Decode Unit :=
  match headers.get? .offset key with
  | none => pure ()
  | some offset => do
    if offset.toNat < headers.finish then throw (.offsetInsideHeader path offset)
    let position := (← get).position
    if position ≠ offset.toNat then
      warn "offset mismatch" [("path", path), ("position", toString position),
        ("expected", toString offset.toNat)]
      within path (Read.seek offset.toNat)

/-- Go to the next element of a chain and read its two links. The first is its own position, the
second that of the element after it. -/
def enterElement (column : ReadColumn) (place : Nat) (target : UInt16) : Decode UInt16 := do
  if place = 0 ∧ column.offset ≠ target then
    warn "interleaved array starts away from its offset" [("path", column.path),
      ("position", toString target.toNat), ("expected", toString column.offset.toNat)]
  let position := (← get).position
  if position ≠ target.toNat then
    warn "offset mismatch for array" [("path", column.path), ("position", toString position),
      ("expected", toString target.toNat)]
    within column.path (Read.seek target.toNat)
  let here ← within column.path Read.uint16
  if here ≠ target then throw (.elementMismatch column.path target.toNat here)
  within column.path Read.uint16

/-- Follow the links of a chain, the next of which is `target`. -/
def followLinks (columns : Array ReadColumn) (total : Nat) (target : UInt16) (index : Nat)
    (found : List (Nat × Value)) : List Link → Decode (List (Nat × Value))
  | [] => pure found.reverse
  | link :: rest =>
    match columns[link.array]? with
    | none => pure found.reverse
    | some column =>
      if target = 0 then throw (.lengthMismatch column.path link.place column.count)
      else do
        let next ← enterElement column link.place target
        let value ← column.element s!"{column.path}[{link.place}]"
        if next ≠ 0 ∧ rest.isEmpty then
          throw (.arrayOverflow column.path (index + 1) total)
        followLinks columns total next (index + 1) ((link.array, value) :: found) rest

/-- The elements of one array of a chain. -/
def itemsOf (found : List (Nat × Value)) (array : Nat) : List Value :=
  (found.filter fun (owner, _) => owner == array).map Prod.snd

/-- Read the arrays of a chain. -/
def chain (columns : List ReadColumn) (level : LevelRead) : Decode LevelRead := do
  let order := roundRobin (columns.map (·.count))
  let table := columns.toArray
  let first := (order.head?.bind fun link => table[link.array]?).elim 0 (·.offset)
  let found ← followLinks table order.length first 0 [] order
  pure { level with
    object := columns.zipIdx.foldl
      (fun object (column, array) => object.insert column.name (.array (itemsOf found array)))
      level.object }

/-- The array that a field is, by the headers read so far. -/
def column (headers : HeaderValues) (base path name : String) (element : String → Decode Value) :
    ReadColumn :=
  let key := dotted base name
  ⟨name, dotted path name, (headers.get? .count key).elim 0 (·.toNat),
    (headers.get? .offset key).getD 0, element⟩

end Decode

open Decode in
mutual

/-- Read one field that is no array. -/
def decodeField (base path : String) (level : LevelRead) : Field → Decode LevelRead
  | .header kind key => do
    let value ← within (dotted path key) Read.uint16
    pure { level with headers := level.headers.insert kind (dotted base key) value }
  | .scalar name type => do
    let value ← scalar type (dotted path name)
    pure { level with object := level.object.insert name value }
  | .string name => do
    seekTarget level.headers (dotted base name) (dotted path name)
    let value ← within (dotted path name) Read.string
    pure { level with object := level.object.insert name (.string value) }
  | .bytes name => do
    let count := (level.headers.get? .count (dotted base name)).elim 0 (·.toNat)
    if 0 < count then seekTarget level.headers (dotted base name) (dotted path name)
    let value ← within (dotted path name) (Read.bytes count)
    pure { level with object := level.object.insert name (.bytes value) }
  | .object name fields => do
    let inner ← decodeFields (dotted base name) (dotted path name) ⟨level.headers, .empty⟩ [] fields
    pure ⟨inner.headers, level.object.insert name (.object inner.object.fields)⟩
  | .scalars name type _ =>
    chain [column level.headers base path name (scalar type)] level
  | .items name fields _ =>
    chain [column level.headers base path name fun place => do
      let inner ← decodeFields "" place ⟨⟨[]⟩, .empty⟩ [] fields
      pure (.object inner.object.fields)] level

/-- Read the fields of a level. The interleaved arrays that stand together before them are still to
be read. -/
def decodeFields (base path : String) (level : LevelRead) (waiting : List ReadColumn) :
    List Field → Decode LevelRead
  | [] => chain waiting level
  | .scalars name type true :: rest =>
    decodeFields base path level
      (waiting ++ [column level.headers base path name (scalar type)]) rest
  | .items name fields true :: rest =>
    decodeFields base path level
      (waiting ++ [column level.headers base path name fun place => do
        let inner ← decodeFields "" place ⟨⟨[]⟩, .empty⟩ [] fields
        pure (.object inner.object.fields)]) rest
  | field :: rest => do
    let level ← chain waiting level
    let level ← decodeField base path level field
    decodeFields base path level [] rest

end

/-- Read the fields of a message. -/
def readMessage (layout : Layout) : Decode Object := do
  let length := (← get).data.size
  if length < Frame.Header.size then throw (.tooSmall length)
  Decode.within "" (Read.seek Frame.Header.size)
  let level ← decodeFields "" "" ⟨⟨[]⟩, .empty⟩ [] layout.fields
  pure level.object

/-- The object in a message, and what is odd about the message. -/
def decode (layout : Layout) (message : Bytes) : Except DecodeError Object × Journal :=
  match layout.readMessage (.ofBytes message) with
  | .ok object reader => (.ok object, reader.remarks)
  | .error error reader => (.error error, reader.remarks)

end Layout

end Relay
