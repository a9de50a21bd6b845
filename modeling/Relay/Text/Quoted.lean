import Relay.Text.Hidden
import Relay.Text.Numeral

/-! # Quoted text

A text between double quotes in which every character can be seen: quotes and backslashes are
marked, the common controls have letters, and what has no visible form is written by number. -/

namespace Relay.Text

/-- A character by its number. -/
def escapeNumber (c : Char) : String :=
  "\\u\x7b" ++ hexText c.toNat ++ "\x7d"

/-- One character of a quoted text. -/
def quoteChar (c : Char) : String :=
  if c = '"' then "\\\""
  else if c = '\\' then "\\\\"
  else if c = '\n' then "\\n"
  else if c = '\r' then "\\r"
  else if c = '\t' then "\\t"
  else if c.toNat = 0 then "\\0"
  else if c.toNat < 0x20 then escapeNumber c
  else if c.toNat < 0x7F then c.toString
  else if isHidden c then escapeNumber c
  else c.toString

/-- A text between double quotes. -/
def quoted (text : String) : String :=
  text.foldl (fun out c => out ++ quoteChar c) "\"" ++ "\""

/-- A path between double quotes. In paths single quotes are marked as well. -/
def quotedPath (path : String) : String :=
  path.foldl (fun out c => out ++ if c = '\'' then "\\'" else quoteChar c) "\"" ++ "\""

/-- Texts between double quotes, in brackets. -/
def quotedList (texts : List String) : String :=
  "[" ++ ", ".intercalate (texts.map quoted) ++ "]"

end Relay.Text
