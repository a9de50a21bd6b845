/-! # Faults of JSON texts

What is wrong with a text that is no JSON, or that is not the JSON that is wanted, and the place
where it was noticed. -/

namespace Relay.Json

/-- A place in a text: the line, counted from one, and how many bytes of it come before. -/
structure Place where
  line : Nat
  column : Nat
  deriving DecidableEq, Repr

/-- What is wrong. -/
inductive FaultKind where
  | endInList
  | endInObject
  | endInText
  | endInValue
  | wantsColon
  | wantsListEnd
  | wantsObjectEnd
  | wantsWord
  | wantsValue
  | wantsQuote
  | badEscape
  | badNumber
  | tooLarge
  | controlInText
  | keyNoText
  | keyNoNumber
  | loneUnit
  | brokenPair
  | trailingComma
  | trailing
  | tooDeep
  | unwanted (text : String)
  deriving DecidableEq, Repr

/-- The wording of a fault. -/
def FaultKind.message : FaultKind → String
  | .endInList => "EOF while parsing a list"
  | .endInObject => "EOF while parsing an object"
  | .endInText => "EOF while parsing a string"
  | .endInValue => "EOF while parsing a value"
  | .wantsColon => "expected `:`"
  | .wantsListEnd => "expected `,` or `]`"
  | .wantsObjectEnd => "expected `,` or `\x7d`"
  | .wantsWord => "expected ident"
  | .wantsValue => "expected value"
  | .wantsQuote => "expected `\"`"
  | .badEscape => "invalid escape"
  | .badNumber => "invalid number"
  | .tooLarge => "number out of range"
  | .controlInText => "control character (\\u0000-\\u001F) found while parsing a string"
  | .keyNoText => "key must be a string"
  | .keyNoNumber => "invalid value: expected key to be a number in quotes"
  | .loneUnit => "lone leading surrogate in hex escape"
  | .brokenPair => "unexpected end of hex escape"
  | .trailingComma => "trailing comma"
  | .trailing => "trailing characters"
  | .tooDeep => "recursion limit exceeded"
  | .unwanted text => text

/-- What is wrong, and where it was noticed. What concerns a value as a whole gets its place only
when the value has ended. -/
structure Fault where
  kind : FaultKind
  place : Option Place
  deriving DecidableEq, Repr

/-- The wording of a fault with its place. -/
def Fault.message (fault : Fault) : String :=
  match fault.place with
  | none => fault.kind.message
  | some place => s!"{fault.kind.message} at line {place.line} column {place.column}"

end Relay.Json
