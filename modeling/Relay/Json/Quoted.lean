import Relay.Json.Cursor
import Relay.Text.Numeral

/-! # Texts between quotes

A backslash marks what cannot stand between quotes otherwise. Characters beyond the first plane may
be written as two units of sixteen bits, neither of which means anything alone. A text that nobody
wants is only looked through for its end. -/

namespace Relay.Json.Reader

/-- The character that a letter behind a backslash stands for. -/
def escapeLetter? (c : Char) : Option Char :=
  match c with
  | '"' => some '"'
  | '\\' => some '\\'
  | '/' => some '/'
  | 'b' => some '\x08'
  | 'f' => some '\x0c'
  | 'n' => some '\n'
  | 'r' => some '\r'
  | 't' => some '\t'
  | _ => none

/-- Read a unit of four hexadecimal digits. -/
def unit : Reader Nat := do
  match (← get).rest with
  | a :: b :: c :: d :: _ =>
    match [a, b, c, d].mapM Text.hexDigit? with
    | some digits =>
      for _ in digits do
        advance
      pure (digits.foldl (fun n d => n * 16 + d) 0)
    | none => failAhead 4 .badEscape
  | rest =>
    if (String.ofList rest).utf8ByteSize < 4 then failAhead 4 .endInText else failAhead 4 .badEscape

/-- Go on behind a character that a pair of units needs between them. -/
def between (wanted : Char) : Reader Unit := do
  match ← peek with
  | none => failHere .endInText
  | some c => if c = wanted then advance else failNext .brokenPair

/-- Read a character that is written as one unit or two. -/
def character : Reader Char := do
  let high ← unit
  if high < 0xD800 ∨ 0xDFFF < high then pure (Char.ofNat high)
  else if 0xDC00 ≤ high then failHere .loneUnit
  else
    between '\\'
    between 'u'
    let low ← unit
    if low < 0xDC00 ∨ 0xDFFF < low then failHere .loneUnit
    else pure (Char.ofNat (0x10000 + (high - 0xD800) * 0x400 + (low - 0xDC00)))

/-- Read what follows a backslash. -/
def escape : Reader Char := do
  match ← peek with
  | none => failHere .endInText
  | some 'u' =>
    advance
    character
  | some c =>
    match escapeLetter? c with
    | some x =>
      advance
      pure x
    | none => failNext .badEscape

/-- Read a text to its closing quote, behind the characters in `found` in reverse, in at most so
many steps. -/
def textFrom (found : List Char) : Nat → Reader String
  | 0 => pure (String.ofList found.reverse)
  | steps + 1 => do
    match ← peek with
    | none => failHere .endInText
    | some '"' =>
      advance
      pure (String.ofList found.reverse)
    | some '\\' =>
      advance
      let c ← escape
      textFrom (c :: found) steps
    | some c =>
      if c.toNat < 0x20 then failNext .controlInText
      else
        advance
        textFrom (c :: found) steps

/-- Read a text whose opening quote is next. -/
def quoted : Reader String := do
  advance
  textFrom [] (← steps)

/-- Go on behind what follows a backslash. -/
def skipEscape : Reader Unit := do
  match ← peek with
  | none => failHere .endInText
  | some 'u' =>
    advance
    let _ ← unit
  | some c => if (escapeLetter? c).isSome then advance else failNext .badEscape

/-- Go on behind the closing quote of a text, in at most so many steps. -/
def skipTextFrom : Nat → Reader Unit
  | 0 => pure ()
  | steps + 1 => do
    match ← peek with
    | none => failHere .endInText
    | some '"' => advance
    | some '\\' =>
      advance
      skipEscape
      skipTextFrom steps
    | some c =>
      if c.toNat < 0x20 then failHere .controlInText
      else
        advance
        skipTextFrom steps

/-- Go on behind a text whose opening quote is next. -/
def skipText : Reader Unit := do
  advance
  skipTextFrom (← steps)

end Relay.Json.Reader
