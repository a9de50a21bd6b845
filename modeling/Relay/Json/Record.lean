import Relay.Json.Shape

/-! # Readers for records and choices

A record is written as an object with fixed names, of which others are passed over, or as an array
of its members in order. A choice is written as a word, which may also be the only key of an object
with nothing under it. -/

namespace Relay.Json

/-- A member of a record: its name, whether it is needed, and how its value gets into the record. -/
structure Member (ρ : Type) where
  name : String
  needed : Bool
  take : ρ → Reader ρ

namespace Member

/-- A member that may be missing. -/
def maybe (name : String) (value : Reader α) (put : ρ → α → ρ) : Member ρ :=
  ⟨name, false, fun record => put record <$> value⟩

/-- A member that is needed. -/
def always (name : String) (value : Reader α) (put : ρ → α → ρ) : Member ρ :=
  ⟨name, true, fun record => put record <$> value⟩

end Member

namespace Reader

/-- Read the members of a record from an object, behind those in `seen`, in at most so many
steps. -/
def named (members : List (Member ρ)) (record : ρ) (seen : List String) (first : Bool) :
    Nat → Reader ρ
  | 0 => pure record
  | steps + 1 => do
    if ← nextKey first then
      let name ← quoted
      match members.find? fun member => member.name == name with
      | none =>
        colon
        skipValue
        named members record seen false steps
      | some member =>
        if seen.contains name then failWhole s!"duplicate field `{name}`"
        else
          colon
          let next ← member.take record
          named members next (name :: seen) false steps
    else
      match members.find? fun member => member.needed && !seen.contains member.name with
      | none => pure record
      | some member => failWhole s!"missing field `{member.name}`"

/-- Read the members of a record from an array. -/
def ordered (title : String) (members : List (Member ρ)) (record : ρ) : Reader ρ :=
  members.zipIdx.foldlM (fun record (member, place) => do
    if ← nextItem (place == 0) then member.take record
    else if member.needed then
      failWhole s!"invalid length {place}, expected {title} with {members.length} elements"
    else pure record) record

/-- Read a record, given as it is before any member is read. -/
def record (title : String) (members : List (Member ρ)) (blank : ρ) : Reader ρ := do
  match ← valueStart with
  | '[' => closedBy endList <| nested (ordered title members blank)
  | '\x7b' =>
    closedBy endObject <| nested do
      named members blank [] true (← steps)
  | _ => mismatch title

/-- How words are listed to choose from. -/
def alternatives (words : List String) : String :=
  match words.map fun word => s!"`{word}`" with
  | [first, second] => s!"{first} or {second}"
  | [only] => only
  | several => "one of " ++ ", ".intercalate several

/-- Read one of a few words. -/
def word (words : List (String × α)) : Reader α := do
  let name ← textAs "variant identifier"
  match words.lookup name with
  | some value => pure value
  | none =>
    let listed := alternatives (words.map Prod.fst)
    failHere (.unwanted s!"unknown variant `{name}`, expected {listed}")

/-- Read a choice. -/
def choice (words : List (String × α)) : Reader α := do
  match ← valueStart with
  | '"' => word words
  | '\x7b' =>
    let value ← nested do
      let value ← word words
      colon
      nothing
      pure value
    match ← spaces with
    | some '\x7d' =>
      advance
      pure value
    | some _ => failHere .wantsValue
    | none => failHere .endInObject
  | _ => failNext .wantsValue

end Reader

end Relay.Json
