import Relay.Layout.Check

/-! # The text of a layout

One line a field, in front of it as many dashes as it lies deep. -/

namespace Relay.Layout

/-- The dashes in front of a line. -/
def indentation (depth : Nat) : String :=
  if depth = 0 then "" else String.ofList (List.replicate depth '-') ++ " "

/-- One line of the text. -/
def line (depth : Nat) (type name : String) : String :=
  indentation depth ++ type ++ " " ++ name ++ "\n"

/-- The mark of an array that shares a chain. -/
def interleavedMark (mixed : Bool) : String :=
  if mixed then " [interleaved]" else ""

mutual

/-- The lines of one field. -/
def renderField (depth : Nat) : Field → String
  | .header kind key => line depth kind.name key
  | .scalar name type => line depth type.name name
  | .string name => line depth "string" name
  | .bytes name => line depth "bytes" name
  | .object name fields => line depth "object" name ++ renderFields (depth + 1) fields
  | .scalars name type mixed =>
    line depth ("array<" ++ type.name ++ ">" ++ interleavedMark mixed) name
  | .items name fields mixed =>
    line depth ("array" ++ interleavedMark mixed) name ++ renderFields (depth + 1) fields

/-- The lines of fields. -/
def renderFields (depth : Nat) : List Field → String
  | [] => ""
  | field :: rest => renderField depth field ++ renderFields depth rest

end

/-- The text of a layout. -/
def render (layout : Layout) : String :=
  renderFields 0 layout.fields

end Relay.Layout
