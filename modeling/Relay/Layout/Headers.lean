import Relay.Layout.Field

/-! # Implied headers

A layout that writes out no header has all of them: those for the fields of a level, objects
included, stand together at its front, and every element of an array is a level of its own. -/

namespace Relay.Layout

mutual

/-- Whether a field is or contains a header. -/
def mentionsHeader : Field → Bool
  | .header .. => true
  | .object _ fields => anyHeader fields
  | .items _ fields _ => anyHeader fields
  | _ => false

/-- Whether a header is written out anywhere. -/
def anyHeader : List Field → Bool
  | [] => false
  | field :: rest => mentionsHeader field || anyHeader rest

end

mutual

/-- The headers implied by one field. -/
def headersOf (base : String) : Field → List Field
  | .object name fields => levelHeaders (dotted base name) fields
  | field => field.impliedHeaders.map (.header · (dotted base field.name))

/-- The headers implied by the fields of a level. -/
def levelHeaders (base : String) : List Field → List Field
  | [] => []
  | field :: rest => headersOf base field ++ levelHeaders base rest

end

mutual

/-- A field with the implied headers in the elements of its arrays. -/
def withElementHeaders : Field → Field
  | .object name fields => .object name (allWithElementHeaders fields)
  | .items name fields mixed =>
    .items name (levelHeaders "" fields ++ allWithElementHeaders fields) mixed
  | field => field

/-- Fields with the implied headers in the elements of their arrays. -/
def allWithElementHeaders : List Field → List Field
  | [] => []
  | field :: rest => withElementHeaders field :: allWithElementHeaders rest

end

/-- The fields of a level with all implied headers. -/
def placeHeaders (fields : List Field) : List Field :=
  levelHeaders "" fields ++ allWithElementHeaders fields

end Relay.Layout
