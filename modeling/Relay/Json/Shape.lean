import Relay.Json.Skip
import Relay.Text.Quoted

/-! # Readers for plain shapes

A reader for every shape that a document can ask for: texts, flags, numbers, lists, objects whose
keys are not fixed, and data of any shape. A value of another shape is read as far as it takes to
tell what it is. -/

namespace Relay.Json

/-- Put members in the order of their keys. Of those with one key the last counts. -/
def sortMembers [LT κ] [DecidableLT κ] (members : List (κ × α)) : List (κ × α) :=
  let insert (sorted : List (κ × α)) (member : κ × α) : List (κ × α) :=
    let before := sorted.filter fun (key, _) => decide (key < member.1)
    let after := sorted.filter fun (key, _) => decide (member.1 < key)
    before ++ member :: after
  members.foldl insert []

namespace Reader

/-- Refuse a value for what was found instead of what is wanted. -/
def failUnwanted (found wanted : String) : Reader α :=
  failHere (.unwanted s!"invalid type: {found}, expected {wanted}")

/-- Refuse the next value, which is not what is wanted. -/
def mismatch (wanted : String) : Reader α := do
  match ← valueStart with
  | 'n' =>
    wordRest ['u', 'l', 'l']
    failUnwanted "null" wanted
  | 't' =>
    wordRest ['r', 'u', 'e']
    failUnwanted "boolean `true`" wanted
  | 'f' =>
    wordRest ['a', 'l', 's', 'e']
    failUnwanted "boolean `false`" wanted
  | '"' => failUnwanted s!"string {Text.quoted (← quoted)}" wanted
  | '[' => failUnwanted "sequence" wanted
  | '\x7b' => failUnwanted "map" wanted
  | c => if beginsNumber c then failUnwanted (← quantity).text wanted else failNext .wantsValue

/-- Read a text. Anything else is refused as not being what is wanted. -/
def textAs (wanted : String) : Reader String := do
  if (← valueStart) = '"' then quoted else mismatch wanted

/-- Read a text. -/
def text : Reader String :=
  textAs "a string"

/-- Read a flag. -/
def flag : Reader Bool := do
  match ← valueStart with
  | 't' =>
    wordRest ['r', 'u', 'e']
    pure true
  | 'f' =>
    wordRest ['a', 'l', 's', 'e']
    pure false
  | _ => mismatch "a boolean"

/-- Read a number of 32 bits. -/
def word32 : Reader UInt32 := do
  let outside (found : Quantity) : Reader UInt32 :=
    failHere (.unwanted s!"invalid value: {found.text}, expected u32")
  if beginsNumber (← valueStart) then
    match ← quantity with
    | .natural n => if n < UInt32.size then pure (.ofNat n) else outside (.natural n)
    | .negative n => outside (.negative n)
    | .real x => failUnwanted (Quantity.real x).text "u32"
  else mismatch "u32"

/-- Read a number of 32 bits between quotes. -/
def quotedWord32 : Reader UInt32 := do
  advance
  if (← peek).any beginsNumber then
    let number ← word32
    if (← peek) = some '"' then
      advance
      pure number
    else failNext .wantsQuote
  else failHere .keyNoNumber

/-- Read nothing. -/
def nothing : Reader Unit := do
  if (← valueStart) = 'n' then wordRest ['u', 'l', 'l'] else mismatch "unit"

/-- Read nothing, or something. -/
def optional (inner : Reader α) : Reader (Option α) := do
  if (← spaces) = some 'n' then
    wordRest ['u', 'l', 'l']
    pure none
  else some <$> inner

/-- Whether another item follows in a list. -/
def nextItem (first : Bool) : Reader Bool := do
  match ← spaces with
  | none => failHere .endInList
  | some ']' => pure false
  | some c =>
    if first then pure true
    else if c = ',' then
      advance
      match ← spaces with
      | some ']' => failNext .trailingComma
      | some _ => pure true
      | none => failHere .endInValue
    else failNext .wantsListEnd

/-- Whether another key follows in an object. -/
def nextKey (first : Bool) : Reader Bool := do
  match ← spaces with
  | none => failHere .endInObject
  | some '\x7d' => pure false
  | some c =>
    if first then
      if c = '"' then pure true else failNext .keyNoText
    else if c = ',' then
      advance
      match ← spaces with
      | some '"' => pure true
      | some '\x7d' => failNext .trailingComma
      | some _ => failNext .keyNoText
      | none => failHere .endInValue
    else failNext .wantsObjectEnd

/-- Go on behind the end of a list. -/
def endList : Reader Unit := do
  match ← spaces with
  | none => failHere .endInList
  | some ']' => advance
  | some ',' =>
    advance
    if (← spaces) = some ']' then failNext .trailingComma else failNext .trailing
  | some _ => failNext .trailing

/-- Go on behind the end of an object. -/
def endObject : Reader Unit := do
  match ← spaces with
  | none => failHere .endInObject
  | some '\x7d' => advance
  | some ',' => failNext .trailingComma
  | some _ => failNext .trailing

/-- Read the items of a list behind those in `found`, which are in reverse, in at most so many
steps. -/
def items (item : Reader α) (found : List α) : Nat → Reader (List α)
  | 0 => pure found.reverse
  | steps + 1 => do
    if ← nextItem found.isEmpty then
      let next ← item
      items item (next :: found) steps
    else pure found.reverse

/-- Read a list. -/
def list (item : Reader α) : Reader (List α) := do
  if (← valueStart) = '[' then
    closedBy endList <| nested do
      items item [] (← steps)
  else mismatch "a sequence"

/-- Read the members of an object behind those in `found`, which are in reverse, in at most so many
steps. -/
def members (key : Reader κ) (value : Reader α) (found : List (κ × α)) :
    Nat → Reader (List (κ × α))
  | 0 => pure found.reverse
  | steps + 1 => do
    if ← nextKey found.isEmpty then
      let name ← key
      colon
      let next ← value
      members key value ((name, next) :: found) steps
    else pure found.reverse

/-- Read an object with keys of any name, in the order in which they are written. -/
def object (key : Reader κ) (value : Reader α) : Reader (List (κ × α)) := do
  if (← valueStart) = '\x7b' then
    closedBy endObject <| nested do
      members key value [] (← steps)
  else mismatch "a map"

/-- Read an object with keys of any name, in the order of the keys. -/
def sorted [LT κ] [DecidableLT κ] (key : Reader κ) (value : Reader α) : Reader (List (κ × α)) :=
  sortMembers <$> object key value

/-- Read data of any shape, with arrays and objects less deep than a bound. The members of objects
are arranged in some way. -/
def dataWithin (arrange : List (String × Json) → List (String × Json)) : Nat → Reader Json
  | 0 => failNext .tooDeep
  | depth + 1 => do
    match ← valueStart with
    | 'n' =>
      wordRest ['u', 'l', 'l']
      pure .null
    | 't' =>
      wordRest ['r', 'u', 'e']
      pure (.bool true)
    | 'f' =>
      wordRest ['a', 'l', 's', 'e']
      pure (.bool false)
    | '"' => .string <$> quoted
    | '[' => .array <$> list (dataWithin arrange depth)
    | '\x7b' => (.object <| arrange ·) <$> object quoted (dataWithin arrange depth)
    | c => if beginsNumber c then Quantity.toJson <$> quantity else failNext .wantsValue

/-- Read data of any shape, with the members of objects in the order of their keys. -/
def data : Reader Json := do
  dataWithin sortMembers ((← get).room + 1)

/-- Read data that stands for something. A key may be given only once. `wanted` is what it should
stand for. -/
def dataFor (wanted : String) (meaning? : Json → Option α) : Reader α := do
  match meaning? (← dataWithin id ((← get).room + 1)) with
  | some meaning => pure meaning
  | none => failWhole s!"data did not match any variant of untagged enum {wanted}"

end Reader

/-- The data of a text. -/
def parse (text : String) : Except Fault Json :=
  Reader.data.run text

end Relay.Json
