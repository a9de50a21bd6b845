import Relay.Exchange.Form
import Relay.Layout.Field

/-! # Layouts as JSON

A field is an object with its name, its type and what belongs to the type. -/

namespace Relay.Exchange

/-- A field that has no fields of its own. -/
def plainField? (name : String) (type : String) : Option Field :=
  match type with
  | "string" => some (.string name)
  | "bytes" => some (.bytes name)
  | "count" => some (.header .count name)
  | "offset" => some (.header .offset name)
  | scalar => (Scalar.ofName? scalar).map (.scalar name)

/-- Read a field that lies at most `fuel` levels deep. -/
def fieldWithin? : Nat → Json → Option Field
  | 0, _ => none
  | fuel + 1, data => do
    let name ← get? data "name"
    match ← get? data "type" with
    | "object" => do pure (.object name (← (itemsOf data "fields").mapM (fieldWithin? fuel)))
    | "array" =>
      let mixed := (get? data "interleaved").getD false
      match ← member? data "element" with
      | .string scalar => do pure (.scalars name (← Scalar.ofName? scalar) mixed)
      | element => do pure (.items name (← (← items? element).mapM (fieldWithin? fuel)) mixed)
    | type => plainField? name type

instance : OfJson Field := ⟨fieldWithin? 1000⟩

/-- The members that all fields have. -/
def fieldMembers (name type : String) (rest : Members) : Json :=
  .object (("name", .string name) :: ("type", .string type) :: rest)

mutual

/-- Write a field. -/
def fieldJson : Field → Json
  | .header kind key => fieldMembers key kind.name []
  | .scalar name type => fieldMembers name type.name []
  | .string name => fieldMembers name "string" []
  | .bytes name => fieldMembers name "bytes" []
  | .object name fields => fieldMembers name "object" [("fields", .array (fieldsJson fields))]
  | .scalars name type mixed =>
    fieldMembers name "array" [("interleaved", .bool mixed), ("element", .string type.name)]
  | .items name fields mixed =>
    fieldMembers name "array"
      [("interleaved", .bool mixed), ("element", .array (fieldsJson fields))]

/-- Write fields. -/
def fieldsJson : List Field → List Json
  | [] => []
  | field :: rest => fieldJson field :: fieldsJson rest

end

instance : ToJson Field := ⟨fieldJson⟩

end Relay.Exchange
