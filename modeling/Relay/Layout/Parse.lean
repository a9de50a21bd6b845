import Relay.Journal
import Relay.Layout.Render
import Relay.Text.Blank
import Relay.Text.Lines

/-! # Reading the text of a layout

A line is a type, flags for an array, and a name; the dashes in front of it say how deep it lies
under the last array or object. A line at fault is reported and left out. A layout with a header
anywhere in its lines has no implied headers. -/

namespace Relay.Layout

open Text

/-- What is wrong with a line. -/
inductive LineFault where
  | malformed
  | unknownType (name : String)
  | invalidElement (name : String)
  | unknownFlag (name : String)
  | flagOnNonArray (flag : String)
  | noParent
  deriving DecidableEq, Repr

/-- The wording of a fault. -/
def LineFault.message : LineFault → String
  | .malformed => "malformed line"
  | .unknownType name => s!"unknown type \"{name}\""
  | .invalidElement name => s!"invalid array subtype \"{name}\""
  | .unknownFlag name => s!"unknown flag \"{name}\""
  | .flagOnNonArray flag => s!"flag \"{flag}\" is only valid on arrays"
  | .noParent => "nested line has no array or object to nest under"

/-- A line that was left out. -/
structure LineError where
  origin : String
  line : Nat
  fault : LineFault
  deriving DecidableEq, Repr

/-- The wording of a fault with its place. -/
def LineError.message (error : LineError) : String :=
  s!"{error.fault.message}\n    at \"{error.origin}\", line {error.line}"

/-- The parts of a line. -/
structure Line where
  depth : Nat
  type : List Char
  element : Option (List Char)
  flags : List (List Char)
  name : List Char
  deriving DecidableEq, Repr

namespace Line

/-- Whether a character may stand in front of the type. -/
def isLead (c : Char) : Bool :=
  c == '-' || isBlank c

/-- The type and, in angle brackets, the type of elements. -/
def typeParts (token : List Char) : Option (List Char × Option (List Char)) :=
  match splitOnce (· == '<') token with
  | none => some (token, none)
  | some (type, rest) => (beforeBack ['>'] rest).map fun element => (type, some element)

/-- The flags between square brackets. -/
def flagParts (token : List Char) : Option (List (List Char)) := do
  let rest ← afterFront ['['] token
  let inside ← beforeBack [']'] rest
  pure (((splitAll ',' inside).map trim).filter (!·.isEmpty))

/-- The line with a type, perhaps flags, and a name. -/
def ofTokens (depth : Nat) : List (List Char) → Option Line
  | [typeToken, name] => do
    let (type, element) ← typeParts typeToken
    pure ⟨depth, type, element, [], name⟩
  | [typeToken, flagToken, name] => do
    let (type, element) ← typeParts typeToken
    let flags ← flagParts flagToken
    pure ⟨depth, type, element, flags, name⟩
  | _ => none

/-- The parts of a line, `none` for a line without content. -/
def read (raw : List Char) : Option (Except LineFault Line) :=
  let content := trim (dropComment raw)
  if content.isEmpty then none
  else
    let depth := (content.takeWhile isLead).count '-'
    match ofTokens depth (words (content.dropWhile isLead)) with
    | some line => some (.ok line)
    | none => some (.error .malformed)

end Line

/-- What a line opens: a field whose own fields follow. -/
inductive Opening where
  | object
  | array (interleaved : Bool)
  deriving DecidableEq, Repr

/-- What a line stands for. -/
inductive Meaning where
  | opening (opening : Opening)
  | fields (fields : List Field)

/-- Whether the flags of a line make its array interleaved. The first flag at fault counts. -/
def readFlags (isArray : Bool) : Bool → List String → Except LineFault Bool
  | interleaved, [] => .ok interleaved
  | _, flag :: rest =>
    if flag = "interleaved" then
      if isArray then readFlags isArray true rest else .error (.flagOnNonArray flag)
    else .error (.unknownFlag flag)

/-- The types that stand for headers, and the headers they stand for. -/
def headerTypes : List (String × List HeaderKind) :=
  [("count", [.count]), ("offset", [.offset]), ("refArray", [.count, .offset]),
    ("refBytes", [.offset, .count]), ("refString", [.offset])]

/-- What a line stands for. -/
def Line.meaning (line : Line) : Except LineFault Meaning := do
  let type := String.ofList line.type
  let name := String.ofList line.name
  let interleaved ← readFlags (type == "array") false (line.flags.map String.ofList)
  match line.element with
  | some element =>
    if type ≠ "array" then throw .malformed
    match Scalar.ofName? (String.ofList element) with
    | none => throw (.invalidElement (String.ofList element))
    | some scalar => pure (.fields [.scalars name scalar interleaved])
  | none =>
    match headerTypes.lookup type, Scalar.ofName? type with
    | some kinds, _ => pure (.fields (kinds.map (.header · name)))
    | none, some scalar => pure (.fields [.scalar name scalar])
    | none, none =>
      if type = "array" then pure (.opening (.array interleaved))
      else if type = "object" then pure (.opening .object)
      else if type = "string" then pure (.fields [.string name])
      else if type = "bytes" then pure (.fields [.bytes name])
      else throw (.unknownType type)

/-- A field that still takes fields of its own. -/
structure OpenField where
  opening : Opening
  name : String
  fields : List Field

/-- The field when no more follow. -/
def OpenField.close (level : OpenField) : Field :=
  match level.opening with
  | .object => .object level.name level.fields
  | .array mixed => .items level.name level.fields mixed

/-- The state between lines: the fields of the outermost level, the open fields with the innermost
first, how deep the last line lay, and what was left out. -/
structure Draft where
  root : List Field
  opened : List OpenField
  depth : Nat
  explicit : Bool
  errors : Array LineError
  remarks : Journal

namespace Draft

/-- Before the first line. -/
def start : Draft := ⟨[], [], 0, false, #[], #[]⟩

/-- Add fields to the innermost open field. -/
def addFields (root : List Field) (opened : List OpenField) (fields : List Field) :
    List Field × List OpenField :=
  match opened with
  | [] => (root ++ fields, [])
  | level :: rest => (root, { level with fields := level.fields ++ fields } :: rest)

/-- Close open fields until `kept` are left. -/
def closeTo (kept : Nat) (root : List Field) : List OpenField → List Field × List OpenField
  | [] => (root, [])
  | level :: rest =>
    if kept < rest.length + 1 then
      match rest with
      | [] => (root ++ [level.close], [])
      | parent :: others =>
        closeTo kept root ({ parent with fields := parent.fields ++ [level.close] } :: others)
    else (root, level :: rest)
  termination_by opened => opened.length

/-- Leave a line out. -/
def reject (draft : Draft) (origin : String) (number : Nat) (fault : LineFault) : Draft :=
  let error : LineError := ⟨origin, number, fault⟩
  { draft with
    errors := draft.errors.push error
    remarks := draft.remarks.push (.warning s!"parse error: {error.message}" []) }

/-- Put what a line stands for at its depth. -/
def place (draft : Draft) (depth : Nat) (name : String) (meaning : Meaning) : Draft :=
  let (root, opened) := closeTo depth draft.root draft.opened
  match meaning with
  | .opening opening =>
    { draft with root := root, opened := ⟨opening, name, []⟩ :: opened, depth := depth }
  | .fields fields =>
    let (root, opened) := addFields root opened fields
    { draft with root := root, opened := opened, depth := depth }

/-- Take in a line. A line lies at most one level below the last. -/
def add (draft : Draft) (origin : String) (number : Nat) (line : Line) : Draft :=
  match line.meaning with
  | .error fault => draft.reject origin number fault
  | .ok meaning =>
    let name := String.ofList line.name
    if draft.depth < line.depth then
      if draft.opened.length = draft.depth then draft.reject origin number .noParent
      else
        let depth := draft.depth + 1
        let remarks :=
          if line.depth ≠ depth then
            draft.remarks.push (.warning "array nesting too deep"
              [("origin", origin), ("line", toString number)])
          else draft.remarks
        { draft with remarks := remarks }.place depth name meaning
    else draft.place line.depth name meaning

/-- Remark upon the first header that is written out. -/
def noteHeader (draft : Draft) (origin : String) (number : Nat) (line : Line) : Draft :=
  let type := String.ofList line.type
  if !draft.explicit && (headerTypes.lookup type).isSome then
    { draft with
      explicit := true
      remarks := draft.remarks.push
        (.warning s!"\"{type}\" encountered, disabling implicit headers"
          [("origin", origin), ("line", toString number)]) }
  else draft

/-- Take in a line of text. -/
def addRaw (origin : String) (draft : Draft) (numbered : List Char × Nat) : Draft :=
  let (raw, number) := numbered
  match Line.read raw with
  | none => draft
  | some (.error fault) => draft.reject origin number fault
  | some (.ok line) => (draft.noteHeader origin number line).add origin number line

/-- The fields when no more lines follow. -/
def finish (draft : Draft) : List Field :=
  (closeTo 0 draft.root draft.opened).1

end Draft

/-- A layout that was read, and the lines that were left out. -/
structure Parsed where
  layout : Layout
  errors : List LineError

/-- Read the text of a layout. A layout that is not sound is read all the same. -/
def parse (source : String) (origin : String) : Parsed × Journal :=
  let draft := ((lines source.toList).zipIdx 1).foldl (Draft.addRaw origin) .start
  let layout := ofFields draft.finish
  let remarks :=
    match layout.check with
    | .ok () => draft.remarks
    | .error error =>
      draft.remarks.push (.warning "definition failed validation"
        [("origin", origin), ("error", error.message)])
  (⟨layout, draft.errors.toList⟩, remarks)

end Relay.Layout
