import Relay.Text.Numeral

/-! # Quoted texts of TOML

A text stands between double quotes, where a backslash marks what could not be written otherwise, or
between single quotes, where every character stands for itself. Three quotes on either side allow
for line ends inside. Line ends are line feeds here; a carriage return is nowhere allowed. -/

namespace Relay.Toml

/-- Whether a character may stand in a text or a remark: a tab, or no control character. -/
def isPlain (c : Char) : Bool :=
  c == '\t' || (0x20 ≤ c.toNat && c.toNat != 0x7F)

/-- Whether a character is a blank. -/
def isBlank (c : Char) : Bool :=
  c == ' ' || c == '\t'

/-- The character that a letter behind a backslash stands for. -/
def escapeLetter? (c : Char) : Option Char :=
  match c with
  | 'b' => some '\x08'
  | 't' => some '\t'
  | 'n' => some '\n'
  | 'f' => some '\x0c'
  | 'r' => some '\r'
  | '"' => some '"'
  | '\\' => some '\\'
  | _ => none

/-- The character with a number in hexadecimal digits. -/
def numbered? (digits : List Char) : Option Char := do
  let number ← digits.foldlM (fun n c => (Text.hexDigit? c).map (n * 16 + ·)) 0
  if number.isValidChar then some (.ofNat number) else none

/-- A text up to a double quote, behind the characters read so far in reverse, and what follows. -/
def takeBasic (read : List Char) : List Char → Option (String × List Char)
  | [] => none
  | '"' :: rest => some (String.ofList read.reverse, rest)
  | '\\' :: 'u' :: a :: b :: c :: d :: rest =>
    match numbered? [a, b, c, d] with
    | some x => takeBasic (x :: read) rest
    | none => none
  | '\\' :: 'U' :: a :: b :: c :: d :: e :: f :: g :: h :: rest =>
    match numbered? [a, b, c, d, e, f, g, h] with
    | some x => takeBasic (x :: read) rest
    | none => none
  | '\\' :: c :: rest =>
    match escapeLetter? c with
    | some x => takeBasic (x :: read) rest
    | none => none
  | c :: rest => if isPlain c then takeBasic (c :: read) rest else none

/-- A text up to a single quote, behind the characters read so far in reverse, and what follows. -/
def takeLiteral (read : List Char) : List Char → Option (String × List Char)
  | [] => none
  | '\'' :: rest => some (String.ofList read.reverse, rest)
  | c :: rest => if isPlain c then takeLiteral (c :: read) rest else none

/-- The text that so many closing quotes end: three close it, and up to two before them belong to
it. -/
def closed? (quote : Char) (quotes : Nat) (read : List Char) : Option String :=
  if quotes ≤ 5 then some (String.ofList (List.replicate (quotes - 3) quote ++ read).reverse)
  else none

/-- A text over several lines up to three single quotes. The last `quotes` characters were quotes
and are not among those read so far. -/
def takeLiteralLines (quotes : Nat) (read : List Char) : List Char → Option (String × List Char)
  | [] => if 3 ≤ quotes then (closed? '\'' quotes read).map (·, []) else none
  | '\'' :: rest => takeLiteralLines (quotes + 1) read rest
  | c :: rest =>
    if 3 ≤ quotes then (closed? '\'' quotes read).map (·, c :: rest)
    else if isPlain c || c == '\n' then
      takeLiteralLines 0 (c :: (List.replicate quotes '\'' ++ read)) rest
    else none

/-- What a backslash at the end of a line leaves out: nothing is left out, only blanks may follow up
to the line end, or all blanks and line ends are left out. -/
inductive Skip where
  | nothing
  | toLineEnd
  | gap
  deriving DecidableEq, Repr

/-- A text over several lines up to three double quotes. The last `quotes` characters were quotes
and are not among those read so far. -/
def takeBasicLines (skip : Skip) (quotes : Nat) (read : List Char) :
    List Char → Option (String × List Char)
  | [] => if 3 ≤ quotes then (closed? '"' quotes read).map (·, []) else none
  | '"' :: rest =>
    if skip = .toLineEnd then none else takeBasicLines .nothing (quotes + 1) read rest
  | '\\' :: 'u' :: a :: b :: c :: d :: rest =>
    match numbered? [a, b, c, d] with
    | some x =>
      if skip = .toLineEnd ∨ 3 ≤ quotes then none
      else takeBasicLines .nothing 0 (x :: (List.replicate quotes '"' ++ read)) rest
    | none => none
  | '\\' :: 'U' :: a :: b :: c :: d :: e :: f :: g :: h :: rest =>
    match numbered? [a, b, c, d, e, f, g, h] with
    | some x =>
      if skip = .toLineEnd ∨ 3 ≤ quotes then none
      else takeBasicLines .nothing 0 (x :: (List.replicate quotes '"' ++ read)) rest
    | none => none
  | '\\' :: c :: rest =>
    if skip = .toLineEnd ∨ 3 ≤ quotes then none
    else
      let read := List.replicate quotes '"' ++ read
      match escapeLetter? c with
      | some x => takeBasicLines .nothing 0 (x :: read) rest
      | none =>
        if isBlank c then takeBasicLines .toLineEnd 0 read rest
        else if c = '\n' then takeBasicLines .gap 0 read rest
        else none
  | c :: rest =>
    if 3 ≤ quotes then (closed? '"' quotes read).map (·, c :: rest)
    else if skip ≠ .nothing ∧ isBlank c then takeBasicLines skip quotes read rest
    else if skip ≠ .nothing ∧ c = '\n' then takeBasicLines .gap quotes read rest
    else if skip ≠ .toLineEnd ∧ (isPlain c ∨ c = '\n') then
      takeBasicLines .nothing 0 (c :: (List.replicate quotes '"' ++ read)) rest
    else none

/-- Drop a line end right at the beginning. -/
def dropLineEnd : List Char → List Char
  | '\n' :: rest => rest
  | text => text

/-- A text on one line at the front. -/
def takeShort? : List Char → Option (String × List Char)
  | '"' :: rest => takeBasic [] rest
  | '\'' :: rest => takeLiteral [] rest
  | _ => none

/-- A text at the front. -/
def takeText? : List Char → Option (String × List Char)
  | '"' :: '"' :: '"' :: rest => takeBasicLines .nothing 0 [] (dropLineEnd rest)
  | '\'' :: '\'' :: '\'' :: rest => takeLiteralLines 0 [] (dropLineEnd rest)
  | text => takeShort? text

end Relay.Toml
