import Relay.Json.Fault

/-! # Going through a JSON text

A reader goes through a text from its front. A fault leaves the cursor where it was noticed, so that
the place of a fault can still be found afterwards. -/

namespace Relay.Json

/-- What is left of a text, the place where it begins, how many arrays and objects may still be
opened inside each other, and a number of steps that is enough for the whole text. -/
structure Cursor where
  rest : List Char
  place : Place
  room : Nat
  steps : Nat
  deriving Repr

/-- The place behind a character. -/
def Place.after (place : Place) (c : Char) : Place :=
  if c = '\n' then ⟨place.line + 1, 0⟩ else ⟨place.line, place.column + c.utf8Size⟩

/-- The place so many bytes further on in a text, or its end. It may lie inside a character. -/
def Place.ahead (place : Place) : Nat → List Char → Place
  | _, [] => place
  | bytes, c :: rest =>
    if bytes = 0 then place
    else if c.utf8Size ≤ bytes then (place.after c).ahead (bytes - c.utf8Size) rest
    else ⟨place.line, place.column + bytes⟩

/-- How deep arrays and objects may stand inside each other. -/
def deepest : Nat := 127

namespace Cursor

/-- The front of a text. Every step but the last goes on behind a character, or is followed by one
that does. -/
def start (text : String) : Cursor :=
  ⟨text.toList, ⟨1, 0⟩, deepest, 2 * text.length + 2⟩

/-- Whether a character may stand between the parts of a text. -/
def isSpace (c : Char) : Bool :=
  c == ' ' || c == '\n' || c == '\t' || c == '\r'

/-- The rest of a text and its place without what may stand between parts. -/
def dropSpaces (place : Place) : List Char → List Char × Place
  | [] => ([], place)
  | c :: rest => if isSpace c then dropSpaces (place.after c) rest else (c :: rest, place)

/-- The cursor behind what may stand between parts. -/
def skipSpaces (cursor : Cursor) : Cursor :=
  let (rest, place) := dropSpaces cursor.place cursor.rest
  { cursor with rest := rest, place := place }

/-- The cursor behind the next character. -/
def next (cursor : Cursor) : Cursor :=
  match cursor.rest with
  | [] => cursor
  | c :: rest => { cursor with rest := rest, place := cursor.place.after c }

end Cursor

/-- A reader of something at the front of a text. -/
abbrev Reader := EStateM Fault Cursor

namespace Reader

/-- Fail at the place of the cursor. -/
def failHere (kind : FaultKind) : Reader α := do
  throw ⟨kind, some (← get).place⟩

/-- Fail so many bytes behind the cursor, or at the end. -/
def failAhead (bytes : Nat) (kind : FaultKind) : Reader α := do
  let cursor ← get
  throw ⟨kind, some (cursor.place.ahead bytes cursor.rest)⟩

/-- Fail for the next byte. -/
def failNext (kind : FaultKind) : Reader α :=
  failAhead 1 kind

/-- Fail for a value as a whole. -/
def failWhole (text : String) : Reader α :=
  throw ⟨.unwanted text, none⟩

/-- The next character. -/
def peek : Reader (Option Char) := do
  return (← get).rest.head?

/-- Go on behind the next character. -/
def advance : Reader Unit :=
  modify Cursor.next

/-- Go on behind what may stand between parts, and look at the next character. -/
def spaces : Reader (Option Char) := do
  modify Cursor.skipSpaces
  peek

/-- Go on to a value, and look at its first character. -/
def valueStart : Reader Char := do
  match ← spaces with
  | some c => pure c
  | none => failHere .endInValue

/-- Read the letters of a word. -/
def letters : List Char → Reader Unit
  | [] => pure ()
  | letter :: word => do
    match ← peek with
    | none => failHere .endInValue
    | some c =>
      if c = letter then
        advance
        letters word
      else failNext .wantsWord

/-- Read the rest of a word whose first letter is next. -/
def wordRest (word : List Char) : Reader Unit := do
  advance
  letters word

/-- Open an array or object: go on behind its bracket, and read what is inside with less room. -/
def nested (inside : Reader α) : Reader α := do
  if (← get).room = 0 then failNext .tooDeep
  else
    advance
    modify fun cursor => { cursor with room := cursor.room - 1 }
    let value ← inside
    modify fun cursor => { cursor with room := cursor.room + 1 }
    pure value

/-- Read a value and its end. The end is also looked for after a fault, which is placed there unless
it has a place. -/
def closedBy (ending : Reader Unit) (inside : Reader α) : Reader α := do
  let value ← tryCatch inside fun fault => do
    tryCatch ending fun _ => pure ()
    let place := (← get).place
    throw { fault with place := some (fault.place.getD place) }
  ending
  pure value

/-- A number of steps that is enough for what is left. -/
def steps : Reader Nat := do
  return (← get).steps

/-- Read a whole text. -/
def run (reader : Reader α) (text : String) : Except Fault α :=
  let whole : Reader α := do
    let value ← reader
    match ← spaces with
    | some _ => failNext .trailing
    | none => pure value
  match whole (.start text) with
  | .ok value _ => .ok value
  | .error fault _ => .error fault

end Reader

end Relay.Json
