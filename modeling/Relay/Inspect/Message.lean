import Relay.Frame.Capture
import Relay.Inspect.Complaint
import Relay.Inspect.Diagnostic
import Relay.Json.Data
import Relay.Protocol.Resolve

/-! # Messages of a capture

The messages of a capture are read by one layout or by the definitions of a store, and shown as text
or as JSON. -/

namespace Relay

/-- A vector as JSON. -/
def Vector3.json (v : Vector3) : Json :=
  .object [("x", .single v.x), ("y", .single v.y), ("z", .single v.z)]

/-- A skill as JSON. -/
def Skill.json (skill : Skill) : Json :=
  .object [("id", .integer skill.id.toNat), ("huntingZoneId", .integer skill.zone.toNat),
    ("type", .integer skill.kind.toNat), ("npc", .bool skill.npc),
    ("reserved", .integer skill.reserved.toNat)]

/-- An appearance as JSON. -/
def Appearance.json (look : Appearance) : Json :=
  .object (["unk", "skinColor", "faceStyle", "faceDecal", "hairStyle", "hairColor", "voice",
    "tattoos"].zip (look.toList.map fun part => .integer part.toNat))

mutual

/-- A value as JSON. Kinds that hold the same look the same. -/
def Value.json : Value → Json
  | .bool x => .bool x
  | .byte x => .integer x.toNat
  | .int16 x => .integer x.toInt
  | .uint16 x => .integer x.toNat
  | .int32 x => .integer x.toInt
  | .uint32 x => .integer x.toNat
  | .int64 x => .integer x.toInt
  | .uint64 x => .integer x.toNat
  | .float x => .single x
  | .double x => .real x
  | .vector x => x.json
  | .angle x => .integer x.raw.toInt
  | .skill x => x.json
  | .appearance x => x.json
  | .string x => .string x
  | .bytes x => .array (x.toList.map fun b => .integer b.toNat)
  | .array items => .array (jsonItems [] items)
  | .object fields => .object (jsonFields [] fields)

/-- Items as JSON, behind those that came before, in reverse. -/
def jsonItems (done : List Json) : List Value → List Json
  | [] => done.reverse
  | item :: rest => jsonItems (item.json :: done) rest

/-- Fields as JSON, behind those that came before, in reverse. -/
def jsonFields (done : List (String × Json)) : List (String × Value) → List (String × Json)
  | [] => done.reverse
  | (name, value) :: rest => jsonFields ((name, value.json) :: done) rest

end

namespace Inspect

/-- A message that was read. Name and version are known if a store was asked. -/
structure Message where
  definition : Option (String × UInt32)
  header : Frame.Header
  body : Object

namespace Message

/-- The header of a message. -/
def headerOf (frame : Bytes) : Except Complaint Frame.Header :=
  (Frame.Header.read frame).mapError fun error => .of "read message header" [error.message]

/-- Read a message by a layout. -/
def readBy (layout : Layout) (frame : Bytes) : Except Complaint Message × Journal :=
  match headerOf frame with
  | .error complaint => (.error complaint, #[])
  | .ok header =>
    let (result, remarks) := layout.decode frame
    (match result with
      | .ok body => .ok ⟨none, header, body⟩
      | .error error =>
        .error (.of s!"decode opcode {header.code}" (error.message :: error.causes)),
      remarks)

/-- Read a message by the definition that a store has for its code. -/
def readFrom (store : Store) (protocol : UInt32) (version : VersionRequest) (frame : Bytes) :
    Except Complaint Message × Journal :=
  match headerOf frame with
  | .error complaint => (.error complaint, #[])
  | .ok header =>
    match store.resolve protocol (.code header.code) version with
    | .error error =>
      (.error (.of s!"resolve opcode {header.code} in protocol {protocol}"
        (error.message :: error.causes)), #[])
    | .ok resolved =>
      let (result, remarks) := resolved.decode frame
      (match result with
        | .ok body => .ok ⟨some (resolved.name, resolved.version), header, body⟩
        | .error error =>
          .error (.of s!"decode {resolved.name}.{resolved.version}"
            (error.message :: error.causes)), remarks)

/-- The text of a message: a line about it and a line for each field. -/
def text (message : Message) : String :=
  let label :=
    match message.definition with
    | some (name, version) => s!"{name}.{version}"
    | none => s!"opcode {message.header.code}"
  let head := s!"{label} (opcode {message.header.code}, {message.header.length} bytes)\n"
  message.body.fields.foldl
    (fun out (name, value) => out ++ "  " ++ name ++ ": " ++ value.diagnostic ++ "\n") head

/-- A message as JSON. -/
def json (message : Message) : Json :=
  let known :=
    match message.definition with
    | some (name, version) => [("name", Json.string name), ("version", .integer version.toNat)]
    | none => []
  .object (known ++ [("opcode", .integer message.header.code.toNat),
    ("length", .integer message.header.length.toNat),
    ("body", (Value.object message.body.fields).json)])

/-- The JSON text of messages. -/
def jsonText (messages : List Message) : String :=
  (Json.array (messages.map json)).spread

end Message

/-- Split a capture into frames. -/
def framesOf (capture : Bytes) (limits : Frame.Limits) : Except Complaint (List Bytes) :=
  (Frame.split capture limits).mapError fun error =>
    match error.messages with
    | [] => .of "" []
    | message :: causes => .of message causes

end Inspect

end Relay
