/-! # Fields of a message layout

A layout is a list of fields. Some fields say where others are to be found and how much of them
there is: a header holds the offset of a text, a run of bytes or an array, or the count of their
parts. A header names its target by a dotted key, the names of the objects it stands in and its own
joined by points. -/

namespace Relay

/-- A quantity of fixed width. -/
inductive Scalar where
  | bool
  | byte
  | int16
  | uint16
  | int32
  | uint32
  | int64
  | uint64
  | float
  | double
  | vector
  | rotation
  | angle
  | skill32
  | skill
  | appearance
  deriving DecidableEq, Repr

namespace Scalar

/-- All scalars. -/
def all : List Scalar :=
  [.bool, .byte, .int16, .uint16, .int32, .uint32, .int64, .uint64, .float, .double, .vector,
    .rotation, .angle, .skill32, .skill, .appearance]

/-- The width in bytes. -/
def width : Scalar → Nat
  | .bool | .byte => 1
  | .int16 | .uint16 | .angle => 2
  | .int32 | .uint32 | .float | .skill32 => 4
  | .int64 | .uint64 | .double | .skill | .appearance => 8
  | .vector | .rotation => 12

/-- The word for a scalar in layouts. -/
def name : Scalar → String
  | .bool => "bool"
  | .byte => "byte"
  | .int16 => "int16"
  | .uint16 => "uint16"
  | .int32 => "int32"
  | .uint32 => "uint32"
  | .int64 => "int64"
  | .uint64 => "uint64"
  | .float => "float"
  | .double => "double"
  | .vector => "vec3"
  | .rotation => "vec3fa"
  | .angle => "angle"
  | .skill32 => "skillid32"
  | .skill => "skillid"
  | .appearance => "customize"

/-- The scalar with a name. -/
def ofName? (name : String) : Option Scalar :=
  all.find? (·.name == name)

end Scalar

/-- What a header holds about its target. -/
inductive HeaderKind where
  | count
  | offset
  deriving DecidableEq, Repr

/-- The word for a header in layouts. -/
def HeaderKind.name : HeaderKind → String
  | .count => "count"
  | .offset => "offset"

/-- A field of a layout. Arrays that stand next to each other and are interleaved share one chain
of elements. -/
inductive Field where
  | header (kind : HeaderKind) (key : String)
  | scalar (name : String) (type : Scalar)
  | string (name : String)
  | bytes (name : String)
  | object (name : String) (fields : List Field)
  | scalars (name : String) (type : Scalar) (interleaved : Bool)
  | items (name : String) (fields : List Field) (interleaved : Bool)
  deriving Repr, Inhabited

namespace Field

/-- The name of a field, or the key of a header. -/
def name : Field → String
  | .header _ key => key
  | .scalar name _ => name
  | .string name => name
  | .bytes name => name
  | .object name _ => name
  | .scalars name _ _ => name
  | .items name _ _ => name

/-- Whether a field is a header. -/
def isHeader : Field → Bool
  | .header .. => true
  | _ => false

/-- The headers that a field has when none are written out. -/
def impliedHeaders : Field → List HeaderKind
  | .scalars .. | .items .. => [.count, .offset]
  | .bytes _ => [.offset, .count]
  | .string _ => [.offset]
  | _ => []

mutual

/-- Equality of fields. -/
def same : Field → Field → Bool
  | .header kind key, .header kind' key' => kind == kind' && key == key'
  | .scalar name type, .scalar name' type' => name == name' && type == type'
  | .string name, .string name' => name == name'
  | .bytes name, .bytes name' => name == name'
  | .object name fields, .object name' fields' => name == name' && sameAll fields fields'
  | .scalars name type mixed, .scalars name' type' mixed' =>
    name == name' && type == type' && mixed == mixed'
  | .items name fields mixed, .items name' fields' mixed' =>
    name == name' && mixed == mixed' && sameAll fields fields'
  | _, _ => false

/-- Equality of lists of fields. -/
def sameAll : List Field → List Field → Bool
  | [], [] => true
  | f :: fields, f' :: fields' => f.same f' && sameAll fields fields'
  | _, _ => false

end

instance : BEq Field := ⟨same⟩

end Field

/-- A dotted key: names joined by points. Nothing stands before the first name. -/
def dotted (base name : String) : String :=
  if base.isEmpty then name else base ++ "." ++ name

end Relay
