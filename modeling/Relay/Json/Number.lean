import Relay.Json.Cursor
import Relay.Json.Data

/-! # Numbers of JSON texts

A number is read digit by digit. Without fraction and exponent it stands for a whole number of 64
bits if it fits; otherwise its leading digits are scaled by a power of ten. -/

namespace Relay.Json

open Floating

/-- A number by its digits. -/
structure Numeral where
  negative : Bool
  whole : List Nat
  fraction : Option (List Nat)
  exponent : Option (Bool × List Nat)
  deriving DecidableEq, Repr

/-- What a numeral stands for. -/
inductive Quantity where
  | natural (n : Nat)
  | negative (n : Nat)
  | real (x : Double)
  deriving DecidableEq, Repr

/-- The data for a quantity. -/
def Quantity.toJson : Quantity → Json
  | .natural n => .integer n
  | .negative n => .integer (-n)
  | .real x => .real x

/-- How a quantity is told. -/
def Quantity.text : Quantity → String
  | .natural n => s!"integer `{n}`"
  | .negative n => s!"integer `-{n}`"
  | .real x => s!"floating point `{doubleText x}`"

namespace Numeral

/-- The largest whole number that is read exactly. -/
def largest : Nat := UInt64.size - 1

/-- The leading digits that fit, and how many are left over. -/
def leadingDigits (value : Nat) : List Nat → Nat × List Nat
  | [] => (value, [])
  | d :: rest =>
    if largest < value * 10 + d then (value, d :: rest) else leadingDigits (value * 10 + d) rest

/-- A power of ten as a machine number. -/
def powerOfTen (n : Nat) : Float :=
  (Double.ofInt (Nat.pow 10 n)).toFloat

/-- Multiply or divide by a power of ten. Divisors beyond the largest power are taken in steps.
A number beyond the largest is refused. -/
def scale : Nat → Float → Int → Option Float
  | 0, _, _ => none
  | fuel + 1, x, exponent =>
    if exponent.natAbs ≤ 308 then
      if 0 ≤ exponent then
        let product := x * powerOfTen exponent.natAbs
        if (Double.ofFloat product).isInfinite then none else some product
      else some (x / powerOfTen exponent.natAbs)
    else if (Double.ofFloat x).magnitude = 0 then some x
    else if 0 ≤ exponent then none
    else scale fuel (x / powerOfTen 308) (exponent + 308)

/-- The largest exponent that is looked at. -/
def largestExponent : Nat := Int32.maxValue.toInt.toNat

/-- The exponent that is written, and whether it is negative. Digits behind those that make it too
large to be looked at do not count. -/
def writtenExponent (numeral : Numeral) : Bool × Nat :=
  match numeral.exponent with
  | none => (false, 0)
  | some (negative, digits) =>
    (negative, digits.foldl (fun n d => if largestExponent < n then n else n * 10 + d) 0)

/-- The real number of leading digits and an exponent that they bring along. An exponent beyond
the largest that is looked at refuses the number or makes it zero. -/
def realOf (numeral : Numeral) (digits : Nat) (shift : Int) : Option Quantity :=
  let sign (x : Float) : Quantity := .real (.ofFloat (if numeral.negative then -x else x))
  let (shrinks, exponent) := numeral.writtenExponent
  if largestExponent < exponent then
    if digits ≠ 0 ∧ !shrinks then none else some (sign 0)
  else
    let total := if shrinks then shift - (exponent : Int) else shift + (exponent : Int)
    (scale 8 (Double.ofInt digits).toFloat total).map sign

/-- What a numeral stands for. Digits beyond those that fit only count by their places. -/
def quantity (numeral : Numeral) : Option Quantity :=
  let (leading, dropped) := leadingDigits 0 numeral.whole
  match numeral.fraction, numeral.exponent with
  | none, none =>
    if dropped.isEmpty then
      if !numeral.negative then some (.natural leading)
      else if leading = 0 ∨ Nat.pow 2 63 < leading then
        some (.real (.ofFloat (-(Double.ofInt leading).toFloat)))
      else some (.negative leading)
    else realOf numeral leading dropped.length
  | none, some _ => realOf numeral leading dropped.length
  | some fraction, _ =>
    let (digits, rest) := leadingDigits leading fraction
    realOf numeral digits (dropped.length - (fraction.length - rest.length : Int))

/-- How many digits of an exponent, worth `value` so far, follow the first that makes it too large
to be looked at. -/
def unseen (value : Nat) : List Nat → Nat
  | [] => 0
  | d :: rest =>
    if largestExponent < value * 10 + d then rest.length else unseen (value * 10 + d) rest

end Numeral

namespace Reader

/-- The digits at the front of a text, behind those in `found` in reverse. -/
def digitsFrom (found : List Nat) : List Char → List Nat
  | [] => found.reverse
  | c :: rest =>
    match Text.digit? c with
    | some d => digitsFrom (d :: found) rest
    | none => found.reverse

/-- Read digits. -/
def digits : Reader (List Nat) := do
  let cursor ← get
  let digits := digitsFrom [] cursor.rest
  let place := { cursor.place with column := cursor.place.column + digits.length }
  set { cursor with rest := cursor.rest.drop digits.length, place := place }
  pure digits

/-- Read at least one digit. `ended` is what is wrong if the text ends instead. -/
def someDigits (ended : FaultKind) : Reader (List Nat) := do
  match ← digits with
  | [] => if (← peek).isNone then failHere ended else failNext .badNumber
  | found => pure found

/-- Read the whole part of a number. Only zero begins with a zero. -/
def wholeDigits (ended : FaultKind) : Reader (List Nat) := do
  match (← get).rest with
  | '0' :: c :: _ =>
    if (Text.digit? c).isSome then failAhead 2 .badNumber else someDigits ended
  | _ => someDigits ended

/-- Read the part behind a point, if there is a point. -/
def fraction (ended : FaultKind) : Reader (Option (List Nat)) := do
  if (← peek) = some '.' then
    advance
    some <$> someDigits ended
  else pure none

/-- Read an exponent with its sign, if there is one. -/
def exponent (ended : FaultKind) : Reader (Option (Bool × List Nat)) := do
  let next ← peek
  if next = some 'e' ∨ next = some 'E' then
    advance
    let sign ← peek
    if sign = some '+' ∨ sign = some '-' then advance
    let found ← someDigits ended
    pure (some (sign = some '-', found))
  else pure none

/-- Read a number. -/
def numeral (ended : FaultKind) : Reader Numeral := do
  let negative := (← peek) = some '-'
  if negative then advance
  let whole ← wholeDigits ended
  let fraction ← fraction ended
  pure ⟨negative, whole, fraction, ← exponent ended⟩

/-- Read what a number stands for. -/
def quantity : Reader Quantity := do
  let numeral ← numeral .endInValue
  match numeral.quantity with
  | some quantity => pure quantity
  | none =>
    let unseen := numeral.exponent.elim 0 fun (_, digits) => Numeral.unseen 0 digits
    let place := (← get).place
    throw ⟨.tooLarge, some { place with column := place.column - unseen }⟩

/-- Whether a number begins with a character. -/
def beginsNumber (c : Char) : Bool :=
  c == '-' || (Text.digit? c).isSome

end Reader

end Relay.Json
