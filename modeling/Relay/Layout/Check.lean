import Relay.Layout.Headers

/-! # Layouts and their checks

A sound layout has distinct plain names on every level, and every header refers to a field of its
level that has a header. -/

namespace Relay

/-- The shape of a message: the fields that follow its front. -/
structure Layout where
  fields : List Field
  deriving Repr, Inhabited

/-- Why a layout is not sound. -/
inductive LayoutError where
  | duplicateField (path : String)
  | invalidName (name : String)
  | unknownTarget (path : String)
  deriving DecidableEq, Repr

/-- The wording of a refusal. -/
def LayoutError.message : LayoutError → String
  | .duplicateField path => s!"duplicate field \"{path}\""
  | .invalidName name => s!"invalid field name \"{name}\""
  | .unknownTarget path =>
    s!"header \"{path}\" does not refer to an array, string or bytes field"

namespace Layout

mutual

/-- The keys of what a header may refer to in one field. -/
def targetsOf (base : String) : Field → List String
  | .object name fields => targets (dotted base name) fields
  | .string name => [dotted base name]
  | .bytes name => [dotted base name]
  | .scalars name _ _ => [dotted base name]
  | .items name _ _ => [dotted base name]
  | _ => []

/-- The keys of what a header may refer to on a level. -/
def targets (base : String) : List Field → List String
  | [] => []
  | field :: rest => targetsOf base field ++ targets base rest

end

mutual

/-- Check the header that a field is, or those in the object that it is. -/
def checkHeader (base path : String) (known : List String) : Field → Except LayoutError Unit
  | .header _ key =>
    if known.contains (dotted base key) then .ok ()
    else .error (.unknownTarget (dotted path (dotted base key)))
  | .object name fields => checkHeaders (dotted base name) path known fields
  | _ => .ok ()

/-- Check that the headers of a level refer to known keys. -/
def checkHeaders (base path : String) (known : List String) : List Field → Except LayoutError Unit
  | [] => .ok ()
  | field :: rest => do
    checkHeader base path known field
    checkHeaders base path known rest

end

/-- Whether a name can stand in a dotted key. -/
def isPlainName (name : String) : Bool :=
  !name.isEmpty && !name.toList.contains '.'

mutual

/-- Check what lies below a field. The elements of an array are a level of their own. -/
def checkInside (path : String) : Field → Except LayoutError Unit
  | .object name fields => checkNames (dotted path name) [] fields
  | .items name fields _ => do
    checkNames (dotted path name) [] fields
    checkHeaders "" (dotted path name) (targets "" fields) fields
  | _ => .ok ()

/-- Check the names of fields, of which `seen` came before. -/
def checkNames (path : String) (seen : List String) : List Field → Except LayoutError Unit
  | [] => .ok ()
  | field :: rest =>
    if field.isHeader then checkNames path seen rest
    else if !isPlainName field.name then .error (.invalidName (dotted path field.name))
    else if seen.contains field.name then .error (.duplicateField (dotted path field.name))
    else do
      checkInside path field
      checkNames path (field.name :: seen) rest

end

/-- Check a layout. The first fault counts, names before headers. -/
def check (layout : Layout) : Except LayoutError Unit := do
  checkNames "" [] layout.fields
  checkHeaders "" "" (targets "" layout.fields) layout.fields

/-- The layout of fields that are not checked. -/
def ofFields (fields : List Field) : Layout :=
  if anyHeader fields then ⟨fields⟩ else ⟨placeHeaders fields⟩

/-- The sound layout of fields. -/
def build (fields : List Field) : Except LayoutError Layout := do
  let layout := ofFields fields
  layout.check
  pure layout

/-- Equality of layouts. -/
instance : BEq Layout := ⟨fun x y => x.fields == y.fields⟩

end Layout

end Relay
