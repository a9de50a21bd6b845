import Relay.Text.Lines
import Relay.Toml.Quoted

/-! # Words, numbers and moments of TOML

Whatever is not a text, an array or a table is one word: a truth value, a number, or a date, a time
or both. Of numbers with a fraction and of moments only the form matters here. -/

namespace Relay.Toml

/-- A value that is one word. -/
inductive Scalar where
  | boolean (value : Bool)
  | integer (value : Int)
  | real
  | moment
  deriving DecidableEq, Repr

/-- Whether a character can belong to a word. -/
def isWordChar (c : Char) : Bool :=
  c.isAlphanum || c == '+' || c == '-' || c == '.' || c == ':' || c == '_'

/-- The word at the front, and what follows. -/
def takeWord (text : List Char) : List Char × List Char :=
  (text.takeWhile isWordChar, text.dropWhile isWordChar)

/-- Digits without the underscores between them. An underscore stands between two digits. -/
def ungroup? (isDigit : Char → Bool) : List Char → Option (List Char)
  | [] => none
  | [c] => if isDigit c then some [c] else none
  | c :: '_' :: rest => if isDigit c then (ungroup? isDigit rest).map (c :: ·) else none
  | c :: rest => if isDigit c then (ungroup? isDigit rest).map (c :: ·) else none

/-- The number that digits of a base stand for. -/
def valueOf (base : Nat) (digits : List Char) : Nat :=
  digits.foldl (fun n c => n * base + (Text.hexDigit? c).getD 0) 0

/-- The number that grouped digits of a base stand for. -/
def naturalOf? (base : Nat) (text : List Char) : Option Nat :=
  (ungroup? (fun c => (Text.hexDigit? c).any (· < base)) text).map (valueOf base)

/-- Whether a sign is a minus, and what follows it. -/
def takeSign : List Char → Bool × List Char
  | '-' :: rest => (true, rest)
  | '+' :: rest => (false, rest)
  | text => (false, text)

/-- The digits of a whole part, of which only zero begins with a zero. -/
def wholeDigits? (text : List Char) : Option (List Char) :=
  match ungroup? Char.isDigit text with
  | some ('0' :: _ :: _) => none
  | digits => digits

/-- A whole number that fits into 64 bits with a sign. -/
def integerOf? (word : List Char) : Option Int :=
  let inRange (n : Int) : Option Int :=
    if Int64.minValue.toInt ≤ n ∧ n ≤ Int64.maxValue.toInt then some n else none
  match word with
  | '0' :: 'x' :: digits => (naturalOf? 16 digits).bind fun n => inRange n
  | '0' :: 'o' :: digits => (naturalOf? 8 digits).bind fun n => inRange n
  | '0' :: 'b' :: digits => (naturalOf? 2 digits).bind fun n => inRange n
  | _ =>
    let (negative, digits) := takeSign word
    (wholeDigits? digits).bind fun digits =>
      let n : Int := valueOf 10 digits
      inRange (if negative then -n else n)

/-- The least whole number too large for a number of 64 bits after rounding. -/
def tooLarge : Nat := Nat.pow 2 1024 - Nat.pow 2 970

/-- Whether digits with a power of ten are a number that is not too large. -/
def isFinite (digits : List Char) (exponent : Int) : Bool :=
  let n := valueOf 10 digits
  if n = 0 ∨ exponent < -(digits.length : Int) then true
  else if 400 ≤ exponent then false
  else n * Nat.pow 10 exponent.toNat < tooLarge * Nat.pow 10 (-exponent).toNat

/-- Whether a word, without its sign, is a number with a fraction or an exponent. The largest
numbers are refused unless they are negative. -/
def isReal (negative : Bool) (word : List Char) : Bool :=
  let (front, exponent) :=
    match Text.splitOnce (fun c => c == 'e' || c == 'E') word with
    | none => (word, none)
    | some (front, exponent) => (front, some (takeSign exponent))
  let (whole, fraction) :=
    match Text.splitOnce (· == '.') front with
    | none => (front, none)
    | some (whole, fraction) => (whole, some fraction)
  let parts : Option (List Char × Int) := do
    let whole ← wholeDigits? whole
    let fraction ← fraction.elim (some []) (ungroup? Char.isDigit)
    let power ← exponent.elim (some 0) fun (down, digits) =>
      (naturalOf? 10 digits).map fun n => if down then -(n : Int) else n
    pure (whole ++ fraction, power - fraction.length)
  (fraction.isSome || exponent.isSome) &&
    parts.any fun (digits, exponent) => negative || isFinite digits exponent

/-- The number of two digits, if it lies within bounds. -/
def isPair (lowest highest : Nat) (a b : Char) : Bool :=
  a.isDigit && b.isDigit && lowest ≤ valueOf 10 [a, b] && valueOf 10 [a, b] ≤ highest

/-- The days of a month. -/
def daysOf (year month : Nat) : Nat :=
  if month = 2 then
    if year % 4 = 0 ∧ (year % 100 ≠ 0 ∨ year % 400 = 0) then 29 else 28
  else if month = 4 ∨ month = 6 ∨ month = 9 ∨ month = 11 then 30
  else 31

/-- Whether a word begins with a date, and what follows it. -/
def takeDate? : List Char → Option (List Char)
  | a :: b :: c :: d :: '-' :: m :: n :: '-' :: x :: y :: rest =>
    if [a, b, c, d].all Char.isDigit && isPair 1 12 m n &&
        isPair 1 (daysOf (valueOf 10 [a, b, c, d]) (valueOf 10 [m, n])) x y then some rest
    else none
  | _ => none

/-- Whether a word begins with a time, and what follows it. A minute may have a leap second. -/
def takeTime? : List Char → Option (List Char)
  | a :: b :: ':' :: c :: d :: ':' :: e :: f :: rest =>
    if isPair 0 23 a b && isPair 0 59 c d && isPair 0 60 e f then
      match rest with
      | '.' :: x :: rest => if x.isDigit then some (rest.dropWhile Char.isDigit) else none
      | rest => some rest
    else none
  | _ => none

/-- Whether nothing or a distance from universal time follows a time. -/
def isZone : List Char → Bool
  | [] => true
  | [c] => c == 'Z' || c == 'z'
  | [sign, a, b, ':', c, d] =>
    (sign == '+' || sign == '-') && isPair 0 23 a b && isPair 0 59 c d
  | _ => false

/-- Whether a word is a time, perhaps with its distance from universal time. -/
def isZonedTime (word : List Char) : Bool :=
  (takeTime? word).any isZone

/-- Whether a word is a date, a time, or both with a letter between them. -/
def isMoment (word : List Char) : Bool :=
  match takeDate? word with
  | none => (takeTime? word).any List.isEmpty
  | some [] => true
  | some (c :: time) => (c == 'T' || c == 't') && isZonedTime time

/-- The meaning of a word. -/
def scalarOf? (word : List Char) : Option Scalar :=
  let (negative, unsigned) := takeSign word
  if word = "true".toList then some (.boolean true)
  else if word = "false".toList then some (.boolean false)
  else if unsigned = "inf".toList ∨ unsigned = "nan".toList then some .real
  else if isMoment word then some .moment
  else if isReal negative unsigned then some .real
  else (integerOf? word).map .integer

/-- A value of one word at the front, and what follows. A blank may stand between a date and a
time. -/
def takeScalar? (text : List Char) : Option (Scalar × List Char) := do
  let (word, rest) := takeWord text
  let scalar ← scalarOf? word
  match takeDate? word, rest with
  | some [], ' ' :: later =>
    let (time, after) := takeWord later
    pure (scalar, if isZonedTime time then after else rest)
  | _, _ => pure (scalar, rest)

end Relay.Toml
