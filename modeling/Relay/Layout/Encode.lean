import Relay.Layout.Chain
import Relay.Layout.Check
import Relay.Stream.Writer
import Relay.Value

/-! # Writing a message

Fields are written one after the other. Headers are reserved where they stand and filled in when
their field is reached; one whose field has nothing to say becomes zero. What an object leaves out
is written as zero or as empty. -/

namespace Relay

open Relay.Stream Relay.Floating

/-- Why an object cannot be written. -/
inductive EncodeError where
  | typeMismatch (path expected found : String)
  | outOfRange (path expected : String) (value : Int)
  | countOverflow (path : String) (length : Nat)
  | tooLarge (length : Nat)
  deriving DecidableEq, Repr

/-- The wording of a refusal. -/
def EncodeError.message : EncodeError → String
  | .typeMismatch path expected found => s!"{path}: expected {expected}, found {found}"
  | .outOfRange path expected value => s!"{path}: value {value} out of range for {expected}"
  | .countOverflow path length => s!"{path}: {length} elements exceed the 16-bit count"
  | .tooLarge length => s!"message too large: {length} bytes"

namespace Layout

/-- Writing that may fail. -/
abbrev Encode := StateT Writer (Except EncodeError)

/-- The reserved headers of a level that are not filled in yet, by kind and dotted key. -/
structure OpenSlots where
  slots : List ((HeaderKind × String) × Slot)

namespace OpenSlots

/-- Take a reserved header out. -/
def take (waiting : OpenSlots) (kind : HeaderKind) (key : String) : Option Slot × OpenSlots :=
  (waiting.slots.lookup (kind, key),
    ⟨waiting.slots.eraseP fun (other, _) => other == (kind, key)⟩)

/-- Add a reserved header. -/
def add (waiting : OpenSlots) (kind : HeaderKind) (key : String) (slot : Slot) : OpenSlots :=
  ⟨((kind, key), slot) :: waiting.slots⟩

end OpenSlots

/-- An array of a chain: where it stands, what it holds, its offset header, and how an element is
written. -/
structure WriteColumn where
  path : String
  items : Array Value
  first : Option Slot
  element : String → Value → Encode Unit

namespace Encode

/-- Write something. -/
def write (change : Writer → Writer) : Encode Unit :=
  modify change

/-- The position of the cursor, which must be a number of two bytes. -/
def here : Encode UInt16 := do
  match (← get).shortPosition with
  | .ok position => pure position
  | .error _ => throw (.tooLarge (← get).position)

/-- Fill in a header that was reserved. -/
def resolve (slot : Option Slot) (value : UInt16) : Encode Unit :=
  match slot with
  | none => pure ()
  | some slot => write (·.resolve slot value)

/-- Fill in an offset that was reserved with the position of the cursor. -/
def resolveHere (slot : Option Slot) : Encode Unit :=
  match slot with
  | none => pure ()
  | some slot => do resolve (some slot) (← here)

/-- Fill in a count that was reserved. -/
def resolveCount (slot : Option Slot) (path : String) (count : Nat) : Encode Unit :=
  match slot with
  | none => pure ()
  | some slot =>
    if count < UInt16.size then resolve (some slot) (.ofNat count)
    else throw (.countOverflow path count)

/-- Set headers that nobody filled in to zero. -/
def resolveRest (waiting : OpenSlots) : Encode Unit :=
  write fun writer => waiting.slots.foldl (fun writer (_, slot) => writer.resolve slot 0) writer

/-- Refuse a value. -/
def mismatch (path expected : String) (found : Value) : Encode α :=
  throw (.typeMismatch path expected found.kind)

/-- A whole number between two bounds, zero if it is left out. -/
def integer (lowest highest : Int) (path expected : String) : Option Value → Encode Int
  | none => pure 0
  | some value =>
    match value.integer? with
    | none => mismatch path expected value
    | some n =>
      if lowest ≤ n ∧ n ≤ highest then pure n else throw (.outOfRange path expected n)

/-- A whole number of `bits` bits without a sign. -/
def natural (bits : Nat) (path expected : String) (item : Option Value) : Encode Nat :=
  Int.toNat <$> integer 0 (Nat.pow 2 bits - 1) path expected item

/-- A whole number of `bits` bits with a sign. -/
def signed (bits : Nat) (path expected : String) (item : Option Value) : Encode Int :=
  integer (-Nat.pow 2 (bits - 1)) (Nat.pow 2 (bits - 1) - 1) path expected item

/-- A number, zero if it is left out. -/
def number (path expected : String) : Option Value → Encode Double
  | none => pure .zero
  | some value =>
    match value.number? with
    | some n => pure n
    | none => mismatch path expected value

/-- A truth value. A whole number is true unless it is zero. -/
def truth (path expected : String) : Option Value → Encode Bool
  | none => pure false
  | some (.bool value) => pure value
  | some value =>
    match value.integer? with
    | some n => pure (n != 0)
    | none => mismatch path expected value

/-- A vector. -/
def vector (path expected : String) : Option Value → Encode Vector3
  | none => pure .zero
  | some (.vector value) => pure value
  | some value => mismatch path expected value

/-- An angle, or a number of radians. -/
def angle (path expected : String) : Option Value → Encode Angle
  | some (.angle value) => pure value
  | item => Angle.ofRadians <$> number path expected item

/-- A skill, or the number of a skill of a player. -/
def skill (path expected : String) : Option Value → Encode Skill
  | none => pure .zero
  | some (.skill value) => pure value
  | item => do pure (.player (.ofNat (← natural 32 path expected item)))

/-- An appearance, or its word. -/
def appearance (path expected : String) : Option Value → Encode Appearance
  | some (.appearance value) => pure value
  | item => do pure (.ofWord (.ofNat (← natural 64 path expected item)))

/-- Write a scalar. -/
def scalar (type : Scalar) (item : Option Value) (path : String) : Encode Unit :=
  match type with
  | .bool => do let value ← truth path type.name item; write (·.bool value)
  | .byte => do let value ← natural 8 path type.name item; write (·.number 1 value)
  | .int16 => do let value ← signed 16 path type.name item; write (·.int16 (.ofInt value))
  | .uint16 => do let value ← natural 16 path type.name item; write (·.number 2 value)
  | .int32 => do let value ← signed 32 path type.name item; write (·.int32 (.ofInt value))
  | .uint32 => do let value ← natural 32 path type.name item; write (·.number 4 value)
  | .int64 => do let value ← signed 64 path type.name item; write (·.int64 (.ofInt value))
  | .uint64 => do let value ← natural 64 path type.name item; write (·.number 8 value)
  | .float => do let value ← number path type.name item; write (·.single value.narrow)
  | .double => do let value ← number path type.name item; write (·.double value)
  | .vector => do let value ← vector path type.name item; write (·.vector value)
  | .rotation => do let value ← vector path type.name item; write (·.rotation value)
  | .angle => do let value ← angle path type.name item; write (·.angle value)
  | .skill32 => do let value ← skill path type.name item; write (·.skill32 value)
  | .skill => do let value ← skill path type.name item; write (·.skill value)
  | .appearance => do let value ← appearance path type.name item; write (·.appearance value)

/-- Write the elements of a chain. The links of an element are its own position and, once that is
known, the position of the next. -/
def writeLinks (columns : Array WriteColumn) (previous : Option Slot) : List Link → Encode Unit
  | [] => resolve previous 0
  | link :: rest => do
    let position ← here
    match columns[link.array]? with
    | none => resolve previous 0
    | some column =>
      if link.place = 0 then resolve column.first position
      resolve previous position
      write (·.uint16 position)
      let slot : Slot := ⟨(← get).position⟩
      write (·.uint16 0)
      column.element s!"{column.path}[{link.place}]" (column.items.getD link.place default)
      writeLinks columns (some slot) rest

/-- Write the arrays of a chain. -/
def chain (columns : List WriteColumn) : Encode Unit :=
  writeLinks columns.toArray none (roundRobin (columns.map (·.items.size)))

/-- Prepare the array that a field is. The headers of an empty array stay reserved. -/
def column (base path name : String) (object : Option Object) (waiting : OpenSlots)
    (element : String → Value → Encode Unit) : Encode (WriteColumn × OpenSlots) := do
  let items ←
    match object.bind (·.get? name) with
    | none => pure []
    | some (.array items) => pure items
    | some other => mismatch (dotted path name) "array" other
  if items.isEmpty then pure (⟨dotted path name, #[], none, element⟩, waiting)
  else
    if UInt16.size ≤ items.length then throw (.countOverflow (dotted path name) items.length)
    let (count, waiting) := waiting.take .count (dotted base name)
    resolve count (.ofNat items.length)
    let (first, waiting) := waiting.take .offset (dotted base name)
    pure (⟨dotted path name, items.toArray, first, element⟩, waiting)

/-- Reserve a header. One of the same kind and key that is still open becomes zero. -/
def header (kind : HeaderKind) (key : String) (waiting : OpenSlots) : Encode OpenSlots := do
  let slot : Slot := ⟨(← get).position⟩
  write (·.uint16 0)
  let (stale, waiting) := waiting.take kind key
  resolve stale 0
  pure (waiting.add kind key slot)

/-- Write a text behind its headers. -/
def string (base path name : String) (object : Option Object) (waiting : OpenSlots) :
    Encode OpenSlots := do
  let text ←
    match object.bind (·.get? name) with
    | none => pure ""
    | some (.string text) => pure text
    | some other => mismatch (dotted path name) "string" other
  let (count, waiting) := waiting.take .count (dotted base name)
  resolveCount count (dotted path name) (Text.units text.toList).length
  let (offset, waiting) := waiting.take .offset (dotted base name)
  resolveHere offset
  write (·.string text)
  pure waiting

/-- Write a run of bytes behind its headers. -/
def bytes (base path name : String) (object : Option Object) (waiting : OpenSlots) :
    Encode OpenSlots := do
  let run ←
    match object.bind (·.get? name) with
    | none => pure #[]
    | some (.bytes run) => pure run
    | some other => mismatch (dotted path name) "bytes" other
  let (count, waiting) := waiting.take .count (dotted base name)
  resolveCount count (dotted path name) run.size
  let (offset, waiting) := waiting.take .offset (dotted base name)
  resolveHere offset
  write (·.putBytes run)
  pure waiting

/-- The object inside an object. -/
def inner (path name : String) (object : Option Object) : Encode (Option Object) :=
  match object.bind (·.get? name) with
  | none => pure none
  | some (.object fields) => pure (some ⟨fields⟩)
  | some other => mismatch (dotted path name) "object" other

end Encode

open Encode in
mutual

/-- Write one field that shares no chain. -/
def encodeField (base path : String) (object : Option Object) (waiting : OpenSlots) :
    Field → Encode OpenSlots
  | .header kind key => header kind (dotted base key) waiting
  | .scalar name type => do
    scalar type (object.bind (·.get? name)) (dotted path name)
    pure waiting
  | .string name => string base path name object waiting
  | .bytes name => bytes base path name object waiting
  | .object name fields => do
    let object ← inner path name object
    encodeFields (dotted base name) (dotted path name) object waiting [] fields
  | .scalars name type _ => do
    let (array, waiting) ←
      column base path name object waiting fun place item => scalar type (some item) place
    chain [array]
    pure waiting
  | .items name fields _ => do
    let (array, waiting) ← column base path name object waiting fun place item =>
      match item with
      | .object values => do
        let left ← encodeFields "" place (some ⟨values⟩) ⟨[]⟩ [] fields
        resolveRest left
      | other => mismatch place "object" other
    chain [array]
    pure waiting

/-- Write the fields of a level. The interleaved arrays that stand together before them are still
to be written. -/
def encodeFields (base path : String) (object : Option Object) (waiting : OpenSlots)
    (arrays : List WriteColumn) : List Field → Encode OpenSlots
  | [] => do
    chain arrays
    pure waiting
  | .scalars name type true :: rest => do
    let (array, waiting) ←
      column base path name object waiting fun place item => scalar type (some item) place
    encodeFields base path object waiting (arrays ++ [array]) rest
  | .items name fields true :: rest => do
    let (array, waiting) ← column base path name object waiting fun place item =>
      match item with
      | .object values => do
        let left ← encodeFields "" place (some ⟨values⟩) ⟨[]⟩ [] fields
        resolveRest left
      | other => mismatch place "object" other
    encodeFields base path object waiting (arrays ++ [array]) rest
  | field :: rest => do
    chain arrays
    let waiting ← encodeField base path object waiting field
    encodeFields base path object waiting [] rest

end

/-- Write a message with an object: its length, its code and its fields. -/
def writeMessage (layout : Layout) (code : UInt16) (object : Object) : Encode Unit := do
  let length : Slot := ⟨0⟩
  Encode.write fun writer => (writer.uint16 0).uint16 code
  let left ← encodeFields "" "" (some object) ⟨[]⟩ [] layout.fields
  Encode.resolveRest left
  let total := (← get).length
  if UInt16.size ≤ total then throw (.tooLarge total)
  Encode.write (·.resolve length (.ofNat total))

/-- The message with an object. -/
def encode (layout : Layout) (code : UInt16) (object : Object) : Except EncodeError Bytes :=
  match (layout.writeMessage code object).run .empty with
  | .ok (_, writer) => .ok writer.bytes
  | .error error => .error error

end Layout

end Relay
