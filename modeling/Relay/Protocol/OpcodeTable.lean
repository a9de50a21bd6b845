import Relay.Journal
import Relay.Text.Blank
import Relay.Text.Lines
import Relay.Text.Numeral

/-! # Opcode tables

Names of messages and their codes. A name has one code and a code has one name: whoever comes last
takes both from those who had them. The codes of names and the names of codes are kept apart, and
what is taken is struck from both. -/

namespace Relay

open Text

/-- The codes of names, and the names of codes. -/
structure OpcodeTable where
  codes : List (String × UInt16)
  names : List (UInt16 × String)
  deriving DecidableEq, Repr

namespace OpcodeTable

section Entries

variable {α β : Type} [DecidableEq α]

/-- Entries without those of a key. -/
def forget (entries : List (α × β)) (key : α) : List (α × β) :=
  entries.filter fun entry => entry.1 != key

/-- Entries with another value for a key. -/
def assign (entries : List (α × β)) (key : α) (value : β) : List (α × β) :=
  forget entries key ++ [(key, value)]

/-- Entries without those of a former key, unless it is the one to keep. -/
def strike (entries : List (α × β)) (former : Option α) (kept : α) : List (α × β) :=
  match former with
  | some former => if former = kept then entries else forget entries former
  | none => entries

end Entries

/-- The table without rows. -/
def empty : OpcodeTable := ⟨[], []⟩

/-- Give a name a code, in place of the rows with either. -/
def insert (table : OpcodeTable) (name : String) (code : UInt16) : OpcodeTable :=
  let names := strike table.names (table.codes.lookup name) code
  let codes := strike (assign table.codes name code) (names.lookup code) name
  ⟨codes, assign names code name⟩

/-- The table of rows added one after the other. -/
def ofList (rows : List (String × UInt16)) : OpcodeTable :=
  rows.foldl (fun table (name, code) => table.insert name code) empty

/-- Add all rows of another table. -/
def overlay (table other : OpcodeTable) : OpcodeTable :=
  other.codes.foldl (fun table (name, code) => table.insert name code) table

/-- The code of a name. -/
def code? (table : OpcodeTable) (name : String) : Option UInt16 :=
  table.codes.lookup name

/-- The name of a code. -/
def name? (table : OpcodeTable) (code : UInt16) : Option String :=
  table.names.lookup code

/-- Whether a name is known. -/
def contains (table : OpcodeTable) (name : String) : Bool :=
  (table.code? name).isSome

/-- The number of rows. -/
def size (table : OpcodeTable) : Nat :=
  table.codes.length

/-- Name and code of a line: separated by blanks, by an equals sign, or by both. -/
def splitLine (line : List Char) : Option (List Char × List Char) := do
  let (name, rest) ← splitOnce (fun c => isBlank c || c == '=') line
  let rest := trimLeft rest
  let code :=
    match rest with
    | '=' :: behind => trimLeft behind
    | _ => rest
  if name.isEmpty || code.isEmpty || code.any (fun c => isBlank c || c == '=') then none
  else some (name, code)

/-- Take in a line. A line that is no row is reported and left out. -/
def addLine (origin : String) (state : OpcodeTable × Journal) (numbered : List Char × Nat) :
    OpcodeTable × Journal :=
  let (table, remarks) := state
  let line := trim (dropComment numbered.1)
  let place := [("origin", origin), ("line", toString numbered.2)]
  if line.isEmpty then (table, remarks)
  else
    match splitLine line with
    | none => (table, remarks.push (.warning "map parse error: malformed line" place))
    | some (name, code) =>
      match numeral (UInt16.size - 1) code with
      | .ok n => (table.insert (String.ofList name) (.ofNat n), remarks)
      | .error _ =>
        (table, remarks.push (.warning "map parse error: non-numeric opcode"
          (place ++ [("code", String.ofList code)])))

/-- Read the text of a table. -/
def parse (source : String) (origin : String) : OpcodeTable × Journal :=
  ((lines source.toList).zipIdx 1).foldl (addLine origin) (empty, #[])

end OpcodeTable

end Relay
