import Relay.Exchange.Form
import Relay.Value

/-! # Values as JSON

A value is an object with one member, its kind and what it holds, so that values that look alike
stay apart. Floating-point numbers are written by their bits. Fields of an object are pairs, in
order. -/

namespace Relay.Exchange

open Floating

/-- The bits of a number, where one word stands for all that are no numbers. -/
def bitsOf (absent : Nat) (text : String) : Nat :=
  if text == "nan" then absent else hexNumber text.toList

instance : OfJson Single := .map fun text => ⟨.ofNat (bitsOf 0x7fc00000 text)⟩
instance : OfJson Double := .map fun text => ⟨.ofNat (bitsOf 0x7ff8000000000000 text)⟩
instance : OfJson Angle := .map Angle.mk
instance : OfJson Vector3 := ⟨fun
  | .array [x, y, z] => do pure ⟨← ofJson? x, ← ofJson? y, ← ofJson? z⟩
  | _ => none⟩
instance : OfJson Skill := ⟨fun data => do
  pure ⟨← get? data "id", ← get? data "zone", ← get? data "type", ← get? data "npc",
    ← get? data "reserved"⟩⟩
instance : OfJson Appearance := ⟨fun
  | .array [a, b, c, d, e, f, g, h] => do
    pure ⟨← ofJson? a, ← ofJson? b, ← ofJson? c, ← ofJson? d, ← ofJson? e, ← ofJson? f,
      ← ofJson? g, ← ofJson? h⟩
  | _ => none⟩

instance : ToJson Single := ⟨fun x =>
  .string (if x.isNaN then "nan" else hexPadded 8 x.bits.toNat)⟩
instance : ToJson Double := ⟨fun x =>
  .string (if x.isNaN then "nan" else hexPadded 16 x.bits.toNat)⟩
instance : ToJson Angle := ⟨fun angle => toJson angle.raw⟩
instance : ToJson Vector3 := ⟨fun v => toJson [v.x, v.y, v.z]⟩
instance : ToJson Skill := ⟨fun skill => .object [("id", toJson skill.id),
  ("zone", toJson skill.zone), ("type", toJson skill.kind), ("npc", toJson skill.npc),
  ("reserved", toJson skill.reserved)]⟩
instance : ToJson Appearance := ⟨fun look => toJson look.toList⟩

/-- A value that holds no other values. -/
def plainValue? (kind : String) (data : Json) : Option Value :=
  match kind with
  | "bool" => (ofJson? data).map .bool
  | "byte" => (ofJson? data).map .byte
  | "int16" => (ofJson? data).map .int16
  | "uint16" => (ofJson? data).map .uint16
  | "int32" => (ofJson? data).map .int32
  | "uint32" => (ofJson? data).map .uint32
  | "int64" => (ofJson? data).map .int64
  | "uint64" => (ofJson? data).map .uint64
  | "float" => (ofJson? data).map .float
  | "double" => (ofJson? data).map .double
  | "vec3" => (ofJson? data).map .vector
  | "angle" => (ofJson? data).map .angle
  | "skillid" => (ofJson? data).map .skill
  | "customize" => (ofJson? data).map .appearance
  | "string" => (ofJson? data).map .string
  | "bytes" => (ofJson? data).map .bytes
  | _ => none

mutual

/-- Read a value. -/
def value? : Json → Option Value
  | .object [("array", .object [("repeat", .array [.integer n, item])])] =>
    (value? item).map fun value => .array (List.replicate n.toNat value)
  | .object [("array", .array items)] => (values? [] items).map .array
  | .object [("object", .array pairs)] =>
    (pairs? [] pairs).map fun fields => .object (Object.ofList fields).fields
  | .object [(kind, data)] => plainValue? kind data
  | _ => none

/-- Read values, of which those in `found` came before, in reverse. -/
def values? (found : List Value) : List Json → Option (List Value)
  | [] => some found.reverse
  | item :: rest =>
    match value? item with
    | none => none
    | some value => values? (value :: found) rest

/-- Read names with values, of which those in `found` came before, in reverse. -/
def pairs? (found : List (String × Value)) : List Json → Option (List (String × Value))
  | [] => some found.reverse
  | .array [.string name, data] :: rest =>
    match value? data with
    | none => none
    | some value => pairs? ((name, value) :: found) rest
  | _ :: _ => none

end

instance : OfJson Value := ⟨value?⟩
instance : OfJson Object := ⟨fun
  | .array pairs => (pairs? [] pairs).map Object.ofList
  | _ => none⟩

/-- Of a long list, its length and its ends. -/
def longList (values : List Json) : Json :=
  if values.length ≤ 256 then .array values
  else .object [("len", toJson values.length), ("first", values.headD .null),
    ("last", values.getLastD .null)]

mutual

/-- What a value holds. -/
def contentJson : Value → Json
  | .bool x => toJson x
  | .byte x => toJson x
  | .int16 x => toJson x
  | .uint16 x => toJson x
  | .int32 x => toJson x
  | .uint32 x => toJson x
  | .int64 x => toJson x
  | .uint64 x => toJson x
  | .float x => toJson x
  | .double x => toJson x
  | .vector x => toJson x
  | .angle x => toJson x
  | .skill x => toJson x
  | .appearance x => toJson x
  | .string x => toJson (Excerpt.mk x)
  | .bytes x => toJson x
  | .array items => longList (valuesJson [] items)
  | .object fields => .array (pairsJson [] fields)

/-- Write values behind those that came before, in reverse. -/
def valuesJson (written : List Json) : List Value → List Json
  | [] => written.reverse
  | value :: rest => valuesJson (.object [(value.kind, contentJson value)] :: written) rest

/-- Write names with values behind those that came before, in reverse. -/
def pairsJson (written : List Json) : List (String × Value) → List Json
  | [] => written.reverse
  | (name, value) :: rest =>
    pairsJson (.array [.string name, .object [(value.kind, contentJson value)]] :: written) rest

end

instance : ToJson Value := ⟨fun value => .object [(value.kind, contentJson value)]⟩
instance : ToJson Object := ⟨fun object => .array (pairsJson [] object.fields)⟩

end Relay.Exchange
