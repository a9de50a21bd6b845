import Relay.Floating.Binary

/-! # Shortest decimals

The decimal with the fewest digits that lies among the reals nearest to a binary number, and of
those the one closest to it. -/

namespace Relay.Floating

/-- A whole number times a power of ten. -/
structure Decimal where
  digits : Nat
  exponent : Int
  deriving DecidableEq, Repr

/-- The reals that round to a binary number: ends and value as whole numbers over one divisor, and
whether the ends belong to it. -/
structure Neighbourhood where
  low : Nat
  value : Nat
  high : Nat
  divisor : Nat
  closed : Bool

namespace Neighbourhood

/-- The neighbourhood of a finite positive pattern. Below a power of two the numbers lie closer
together. -/
def ofPattern (f : Format) (pattern : Nat) : Neighbourhood :=
  let (n, exponent) := f.value pattern
  let narrow := n = Nat.pow 2 f.fractionBits ∧ f.lowestExponent < exponent
  let place := exponent - 2
  let factor := Nat.pow 2 place.toNat
  ⟨(4 * n - (if narrow then 1 else 2)) * factor, 4 * n * factor, (4 * n + 2) * factor,
    Nat.pow 2 (-place).toNat, n % 2 == 0⟩

/-- Whether `count` units of ten to the `exponent` lie inside. -/
def contains (range : Neighbourhood) (count : Nat) (exponent : Int) : Bool :=
  let point := count * Nat.pow 10 exponent.toNat * range.divisor
  let scale := Nat.pow 10 (-exponent).toNat
  if range.closed then range.low * scale ≤ point && point ≤ range.high * scale
  else range.low * scale < point && point < range.high * scale

/-- The number of whole units of ten to the `exponent` below the value, and twice what is left
compared with one unit. -/
def below (range : Neighbourhood) (exponent : Int) : Nat × Ordering :=
  let unit := Nat.pow 10 exponent.toNat * range.divisor
  let amount := range.value * Nat.pow 10 (-exponent).toNat
  (amount / unit, compare (2 * (amount % unit)) unit)

/-- The closest point of a decimal grid that lies inside. Of two equally close it is the even one if
that is wanted, and the larger otherwise. -/
def pointAt (range : Neighbourhood) (toEven : Bool) (exponent : Int) : Option Nat :=
  let (count, half) := range.below exponent
  let lower := range.contains count exponent
  let upper := range.contains (count + 1) exponent
  match lower, upper with
  | true, true =>
    let down := half == .lt || half == .eq && toEven && count % 2 == 0
    some (if down then count else count + 1)
  | true, false => some count
  | false, true => some (count + 1)
  | false, false => none

/-- The exponent of the leading digit of a quotient below one. -/
private def leadingBelow (value divisor : Nat) : Nat → Nat → Int
  | 0, tried => -tried
  | fuel + 1, tried =>
    if divisor ≤ value * Nat.pow 10 tried then -tried
    else leadingBelow value divisor fuel (tried + 1)

/-- The exponent of the leading digit of the value. -/
def leading (range : Neighbourhood) : Int :=
  if range.divisor ≤ range.value then
    ((Nat.toDigits 10 (range.value / range.divisor)).length : Int) - 1
  else leadingBelow range.value range.divisor 400 1

/-- Try grids of one digit, two digits and so on. -/
private def shortestFrom (range : Neighbourhood) (toEven : Bool) (top : Int) : Nat → Nat → Decimal
  | 0, width => ⟨(range.below (top - width)).1, top - width⟩
  | fuel + 1, width =>
    match range.pointAt toEven (top - width) with
    | some count => ⟨count, top - width⟩
    | none => shortestFrom range toEven top fuel (width + 1)

/-- The shortest decimal inside. -/
def shortest (range : Neighbourhood) (toEven : Bool) : Decimal :=
  shortestFrom range toEven range.leading 17 0

end Neighbourhood

namespace Decimal

/-- Drop zeros at the end of the digits, at most `fuel` of them. -/
private def trimZeros : Nat → Decimal → Decimal
  | 0, d => d
  | fuel + 1, d =>
    if d.digits % 10 = 0 ∧ d.digits ≠ 0 then trimZeros fuel ⟨d.digits / 10, d.exponent + 1⟩ else d

/-- The same number without zeros at the end of its digits. -/
def reduced (d : Decimal) : Decimal :=
  trimZeros 20 d

/-- How numbers are written: plainly if the point stands between two positions counted from the
first digit, with an exponent otherwise, which may have a plus sign. Of two decimals equally close
to a number the one with an even last digit is taken, or else the larger. -/
structure Style where
  lowest : Int
  highest : Int
  toEven : Bool
  plus : Bool

/-- The text of an exponent. -/
def exponentText (style : Style) (exponent : Int) : String :=
  let sign := if exponent < 0 then "-" else if style.plus then "+" else ""
  "e" ++ sign ++ toString exponent.natAbs

/-- The text of a positive decimal. A plain number always has a digit after its point. -/
def render (style : Style) (d : Decimal) : String :=
  let digits := Nat.toDigits 10 d.digits
  let width : Int := digits.length
  let point := width + d.exponent
  if point < style.lowest ∨ style.highest < point then
    let mantissa :=
      match digits with
      | [] => "0"
      | [only] => only.toString
      | first :: rest => first.toString ++ "." ++ String.ofList rest
    mantissa ++ exponentText style (point - 1)
  else if point ≤ 0 then
    "0." ++ String.ofList (List.replicate (-point).toNat '0' ++ digits)
  else if width ≤ point then
    String.ofList (digits ++ List.replicate (point - width).toNat '0') ++ ".0"
  else
    String.ofList (digits.take point.toNat) ++ "." ++ String.ofList (digits.drop point.toNat)

end Decimal

/-- The shortest text of a finite pattern with its sign. -/
def finiteText (f : Format) (style : Decimal.Style) (negative : Bool) (pattern : Nat) : String :=
  let sign := if negative then "-" else ""
  if pattern = 0 then sign ++ "0.0"
  else sign ++ ((Neighbourhood.ofPattern f pattern).shortest style.toEven |>.reduced.render style)

/-- Diagnostic texts write numbers from a ten-thousandth up to below ten to the sixteenth plainly,
and a tie goes up. -/
def diagnosticStyle : Decimal.Style := ⟨-3, 16, false, false⟩

/-- The diagnostic text of a number. -/
def Single.diagnostic (x : Single) : String :=
  if x.isNaN then "NaN"
  else if x.isInfinite then (if x.isNegative then "-inf" else "inf")
  else finiteText .single diagnosticStyle x.isNegative x.magnitude

/-- The diagnostic text of a number. -/
def Double.diagnostic (x : Double) : String :=
  if x.isNaN then "NaN"
  else if x.isInfinite then (if x.isNegative then "-inf" else "inf")
  else finiteText .double diagnosticStyle x.isNegative x.magnitude

end Relay.Floating
