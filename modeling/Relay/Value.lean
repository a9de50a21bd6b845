import Relay.Quantity.Angle
import Relay.Quantity.Appearance
import Relay.Quantity.Skill
import Relay.Quantity.Vector
import Relay.Stream.Endian

/-! # Values of message fields

What a field of a message holds, and objects: fields with values, in the order in which the fields
were first given. -/

namespace Relay

open Floating

/-- What a field holds. -/
inductive Value where
  | bool (value : Bool)
  | byte (value : UInt8)
  | int16 (value : Int16)
  | uint16 (value : UInt16)
  | int32 (value : Int32)
  | uint32 (value : UInt32)
  | int64 (value : Int64)
  | uint64 (value : UInt64)
  | float (value : Single)
  | double (value : Double)
  | vector (value : Vector3)
  | angle (value : Angle)
  | skill (value : Skill)
  | appearance (value : Appearance)
  | string (value : String)
  | bytes (value : Bytes)
  | array (items : List Value)
  | object (fields : List (String × Value))
  deriving Inhabited

/-- Named values. Operations keep the names distinct. -/
structure Object where
  fields : List (String × Value)
  deriving Inhabited

namespace Value

/-- The word for what a value is. -/
def kind : Value → String
  | .bool _ => "bool"
  | .byte _ => "byte"
  | .int16 _ => "int16"
  | .uint16 _ => "uint16"
  | .int32 _ => "int32"
  | .uint32 _ => "uint32"
  | .int64 _ => "int64"
  | .uint64 _ => "uint64"
  | .float _ => "float"
  | .double _ => "double"
  | .vector _ => "vec3"
  | .angle _ => "angle"
  | .skill _ => "skillid"
  | .appearance _ => "customize"
  | .string _ => "string"
  | .bytes _ => "bytes"
  | .array _ => "array"
  | .object _ => "object"

/-- The whole number that a value is, of whatever width. -/
def integer? : Value → Option Int
  | .byte value => some value.toNat
  | .int16 value => some value.toInt
  | .uint16 value => some value.toNat
  | .int32 value => some value.toInt
  | .uint32 value => some value.toNat
  | .int64 value => some value.toInt
  | .uint64 value => some value.toNat
  | _ => none

/-- The whole number that a value is, if it lies between two bounds. -/
def integerWithin? (value : Value) (lowest highest : Int) : Option Int :=
  value.integer?.filter fun n => decide (lowest ≤ n ∧ n ≤ highest)

/-- The number that a value is, whole or not. -/
def number? : Value → Option Double
  | .float value => some value.widen
  | .double value => some value
  | other => other.integer?.map Double.ofInt

/-- The truth value that a value is. -/
def bool? : Value → Option Bool
  | .bool value => some value
  | _ => none

/-- The text that a value is. -/
def string? : Value → Option String
  | .string value => some value
  | _ => none

/-- The items of an array. -/
def items? : Value → Option (List Value)
  | .array items => some items
  | _ => none

/-- The object that a value is. -/
def object? : Value → Option Object
  | .object fields => some ⟨fields⟩
  | _ => none

mutual

/-- Equality of values. Values of different kinds differ, also where they are equal as numbers, and
numbers are compared as numbers. -/
def equals : Value → Value → Bool
  | .bool x, .bool y => x == y
  | .byte x, .byte y => x == y
  | .int16 x, .int16 y => x == y
  | .uint16 x, .uint16 y => x == y
  | .int32 x, .int32 y => x == y
  | .uint32 x, .uint32 y => x == y
  | .int64 x, .int64 y => x == y
  | .uint64 x, .uint64 y => x == y
  | .float x, .float y => x.equals y
  | .double x, .double y => x.equals y
  | .vector x, .vector y => x.equals y
  | .angle x, .angle y => x == y
  | .skill x, .skill y => x == y
  | .appearance x, .appearance y => x == y
  | .string x, .string y => x == y
  | .bytes x, .bytes y => x == y
  | .array xs, .array ys => equalItems xs ys
  | .object xs, .object ys => equalFields xs ys
  | _, _ => false

/-- Equality of items in order. -/
def equalItems : List Value → List Value → Bool
  | [], [] => true
  | x :: xs, y :: ys => x.equals y && equalItems xs ys
  | _, _ => false

/-- Equality of fields in order. -/
def equalFields : List (String × Value) → List (String × Value) → Bool
  | [], [] => true
  | (name, x) :: xs, (other, y) :: ys => name == other && x.equals y && equalFields xs ys
  | _, _ => false

end

end Value

namespace Object

/-- The object without fields. -/
def empty : Object := ⟨[]⟩

/-- The value under a name. -/
def get? (object : Object) (name : String) : Option Value :=
  object.fields.lookup name

/-- Whether there is a value under a name. -/
def contains (object : Object) (name : String) : Bool :=
  (object.get? name).isSome

/-- The names in order. -/
def names (object : Object) : List String :=
  object.fields.map Prod.fst

/-- The number of fields. -/
def size (object : Object) : Nat :=
  object.fields.length

/-- Put a value under a name. A name that is there keeps its place. -/
def insert (object : Object) (name : String) (value : Value) : Object :=
  if object.contains name then
    ⟨object.fields.map fun (other, old) => (other, if other == name then value else old)⟩
  else ⟨object.fields ++ [(name, value)]⟩

/-- The object with fields put in one after the other. -/
def ofList (fields : List (String × Value)) : Object :=
  fields.foldl (fun object (name, value) => object.insert name value) .empty

/-- Take a name away. -/
def erase (object : Object) (name : String) : Object :=
  ⟨object.fields.eraseP fun (other, _) => other == name⟩

/-- Equality of names and values in order. -/
def equals (x y : Object) : Bool :=
  Value.equalFields x.fields y.fields

end Object

end Relay
