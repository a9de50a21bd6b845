import Relay.Floating.Shortest
import Relay.Text.Numeral

/-! # JSON data and its text

Data as trees, and their text: compact, or spread over lines with two blanks a level. Objects are
written in the order in which they are given. -/

namespace Relay

open Floating

/-- JSON data. -/
inductive Json where
  | null
  | bool (value : Bool)
  | integer (value : Int)
  | real (value : Double)
  | single (value : Single)
  | string (value : String)
  | array (items : List Json)
  | object (members : List (String × Json))
  deriving Inhabited

namespace Json

/-- Numbers of 64 bits are written plainly from a hundred-thousandth up to below ten to the
sixteenth, a tie goes to the even digit, and exponents always have a sign. -/
def doubleStyle : Decimal.Style := ⟨-4, 16, true, true⟩

/-- Numbers of 32 bits are written plainly from a millionth up to below ten to the thirteenth, and
otherwise like those of 64 bits. -/
def singleStyle : Decimal.Style := ⟨-5, 13, true, true⟩

/-- The text of a number of 64 bits. What is no finite number becomes null. -/
def doubleText (x : Double) : String :=
  if x.isNaN || x.isInfinite then "null"
  else finiteText .double doubleStyle x.isNegative x.magnitude

/-- The text of a number of 32 bits. What is no finite number becomes null. -/
def singleText (x : Single) : String :=
  if x.isNaN || x.isInfinite then "null"
  else finiteText .single singleStyle x.isNegative x.magnitude

/-- One character of a text. -/
def escape (c : Char) : String :=
  match c with
  | '"' => "\\\""
  | '\\' => "\\\\"
  | '\x08' => "\\b"
  | '\x0c' => "\\f"
  | '\n' => "\\n"
  | '\r' => "\\r"
  | '\t' => "\\t"
  | c =>
    if c.toNat < 0x20 then
      (("\\u00" : String).push (Text.hexDigit (c.toNat / 16))).push (Text.hexDigit (c.toNat % 16))
    else c.toString

/-- A text between quotes. -/
def stringText (text : String) : String :=
  text.foldl (fun out c => out ++ escape c) "\"" ++ "\""

mutual

/-- Append the text of data to what was written before. -/
def compactOnto (out : String) : Json → String
  | .null => out ++ "null"
  | .bool true => out ++ "true"
  | .bool false => out ++ "false"
  | .integer n => out ++ toString n
  | .real x => out ++ doubleText x
  | .single x => out ++ singleText x
  | .string text => out ++ stringText text
  | .array items => compactItems (out ++ "[") true items ++ "]"
  | .object members => compactMembers (out ++ "\x7b") true members ++ "\x7d"

/-- Append the texts of items with commas between them. -/
def compactItems (out : String) (first : Bool) : List Json → String
  | [] => out
  | item :: rest =>
    compactItems (compactOnto (if first then out else out ++ ",") item) false rest

/-- Append the texts of members with commas between them. -/
def compactMembers (out : String) (first : Bool) : List (String × Json) → String
  | [] => out
  | (key, value) :: rest =>
    let out := (if first then out else out ++ ",") ++ stringText key ++ ":"
    compactMembers (compactOnto out value) false rest

end

/-- The text of data on one line. -/
def compact (data : Json) : String :=
  compactOnto "" data

/-- A line end and the blanks of a level. -/
def newLine (depth : Nat) : String :=
  "\n" ++ String.ofList (List.replicate (2 * depth) ' ')

mutual

/-- Append the text of data at some depth to what was written before. -/
def spreadOnto (depth : Nat) (out : String) : Json → String
  | .array [] => out ++ "[]"
  | .object [] => out ++ "\x7b\x7d"
  | .array (item :: rest) =>
    spreadItems (depth + 1) (out ++ "[") true (item :: rest) ++ newLine depth ++ "]"
  | .object (member :: rest) =>
    spreadMembers (depth + 1) (out ++ "\x7b") true (member :: rest) ++ newLine depth ++ "\x7d"
  | data => compactOnto out data

/-- Append the texts of items, each on lines of its own. -/
def spreadItems (depth : Nat) (out : String) (first : Bool) : List Json → String
  | [] => out
  | item :: rest =>
    let out := (if first then out else out ++ ",") ++ newLine depth
    spreadItems depth (spreadOnto depth out item) false rest

/-- Append the texts of members, each on lines of its own. -/
def spreadMembers (depth : Nat) (out : String) (first : Bool) : List (String × Json) → String
  | [] => out
  | (key, value) :: rest =>
    let out := (if first then out else out ++ ",") ++ newLine depth ++ stringText key ++ ": "
    spreadMembers depth (spreadOnto depth out value) false rest

end

/-- The text of data over several lines. -/
def spread (data : Json) : String :=
  spreadOnto 0 "" data

/-- The data under a name. -/
def get? (data : Json) (name : String) : Option Json :=
  match data with
  | .object members => members.lookup name
  | _ => none

end Json

end Relay
