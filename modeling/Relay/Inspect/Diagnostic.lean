import Relay.Floating.Shortest
import Relay.Text.Quoted
import Relay.Value

/-! # Diagnostic texts of values

A value on one line, with the word for its kind around what it holds, so that values of different
kinds never look alike. -/

namespace Relay

/-- A kind and what it holds. -/
def tagged (kind content : String) : String :=
  kind ++ "(" ++ content ++ ")"

/-- Named parts of a record. -/
def recordText (name : String) (parts : List (String × String)) : String :=
  name ++ " \x7b " ++ ", ".intercalate (parts.map fun (part, text) => part ++ ": " ++ text) ++
    " \x7d"

/-- The diagnostic text of a vector. -/
def Vector3.diagnostic (v : Vector3) : String :=
  recordText "Vec3" [("x", v.x.diagnostic), ("y", v.y.diagnostic), ("z", v.z.diagnostic)]

/-- The diagnostic text of a skill. -/
def Skill.diagnostic (skill : Skill) : String :=
  recordText "SkillId" [("id", toString skill.id.toNat),
    ("hunting_zone_id", toString skill.zone.toNat), ("kind", toString skill.kind.toNat),
    ("npc", toString skill.npc), ("reserved", toString skill.reserved.toNat)]

/-- The diagnostic text of an appearance. -/
def Appearance.diagnostic (look : Appearance) : String :=
  recordText "Customize" (["unk", "skin_color", "face_style", "face_decal", "hair_style",
    "hair_color", "voice", "tattoos"].zip (look.toList.map fun part => toString part.toNat))

mutual

/-- The diagnostic text of a value. -/
def Value.diagnostic : Value → String
  | .bool x => tagged "Bool" (toString x)
  | .byte x => tagged "Byte" (toString x.toNat)
  | .int16 x => tagged "Int16" (toString x.toInt)
  | .uint16 x => tagged "UInt16" (toString x.toNat)
  | .int32 x => tagged "Int32" (toString x.toInt)
  | .uint32 x => tagged "UInt32" (toString x.toNat)
  | .int64 x => tagged "Int64" (toString x.toInt)
  | .uint64 x => tagged "UInt64" (toString x.toNat)
  | .float x => tagged "Float" x.diagnostic
  | .double x => tagged "Double" x.diagnostic
  | .vector x => tagged "Vec3" x.diagnostic
  | .angle x => tagged "Angle" (tagged "Angle" (toString x.raw.toInt))
  | .skill x => tagged "SkillId" x.diagnostic
  | .appearance x => tagged "Customize" x.diagnostic
  | .string x => tagged "String" (Text.quoted x)
  | .bytes x =>
    tagged "Bytes" ("[" ++ ", ".intercalate (x.toList.map fun b => toString b.toNat) ++ "]")
  | .array items => diagnosticItems "Array([" true items ++ "])"
  | .object fields => diagnosticFields "Object(Object \x7b fields: [" true fields ++ "] \x7d)"

/-- Append the diagnostic texts of items, with commas between them. -/
def diagnosticItems (out : String) (first : Bool) : List Value → String
  | [] => out
  | item :: rest =>
    diagnosticItems ((if first then out else out ++ ", ") ++ item.diagnostic) false rest

/-- Append names with the diagnostic texts of their values, with commas between them. -/
def diagnosticFields (out : String) (first : Bool) : List (String × Value) → String
  | [] => out
  | (name, value) :: rest =>
    let out := (if first then out else out ++ ", ") ++ "(" ++ Text.quoted name ++ ", "
    diagnosticFields (out ++ value.diagnostic ++ ")") false rest

end

end Relay
