/-! # Binary floating-point numbers

Numbers of the two binary interchange formats, kept as their bit patterns. A finite pattern stands
for a whole number times a power of two, and every operation here is defined through that value and
one rule of rounding: to the nearest pattern, an exact tie to the even one. -/

namespace Relay.Floating

/-- The widths of a binary format. -/
structure Format where
  fractionBits : Nat
  exponentBits : Nat
  deriving DecidableEq, Repr

namespace Format

/-- The format of 32 bits. -/
def single : Format := ⟨23, 8⟩

/-- The format of 64 bits. -/
def double : Format := ⟨52, 11⟩

/-- The exponent of the last place of the smallest numbers. -/
def lowestExponent (f : Format) : Int :=
  2 - Nat.pow 2 (f.exponentBits - 1) - f.fractionBits

/-- The pattern of infinity. -/
def infinity (f : Format) : Nat :=
  (Nat.pow 2 f.exponentBits - 1) * Nat.pow 2 f.fractionBits

/-- The bit that marks a quiet pattern that is no number. -/
def quietBit (f : Format) : Nat :=
  Nat.pow 2 (f.fractionBits - 1)

/-- The weight of the sign. -/
def signWeight (f : Format) : Nat :=
  Nat.pow 2 (f.fractionBits + f.exponentBits)

/-- A whole number divided by a power of two, to the nearest, a tie to the even neighbour. -/
def halve (n shift : Nat) : Nat :=
  let unit := Nat.pow 2 shift
  let floor := n / unit
  let left := 2 * (n % unit)
  if left < unit then floor
  else if unit < left then floor + 1
  else floor + floor % 2

/-- The exponent of the last place that `n` times two to the `exponent` keeps in the format. -/
def placeOf (f : Format) (n : Nat) (exponent : Int) : Int :=
  max f.lowestExponent (exponent + (n.log2 : Int) - f.fractionBits)

/-- The pattern nearest to `n` times two to the `exponent`. -/
def round (f : Format) (n : Nat) (exponent : Int) : Nat :=
  if n = 0 then 0
  else
    let place := f.placeOf n exponent
    let kept :=
      if place ≤ exponent then n * Nat.pow 2 (exponent - place).toNat
      else halve n (place - exponent).toNat
    min ((place - f.lowestExponent).toNat * Nat.pow 2 f.fractionBits + kept) f.infinity

/-- The whole number and the exponent that a finite pattern stands for. -/
def value (f : Format) (pattern : Nat) : Nat × Int :=
  let field := pattern / Nat.pow 2 f.fractionBits
  let fraction := pattern % Nat.pow 2 f.fractionBits
  if field = 0 then (fraction, f.lowestExponent)
  else (Nat.pow 2 f.fractionBits + fraction, f.lowestExponent + (field : Int) - 1)

/-- The whole number nearest to a finite pattern, a half going up. -/
def nearest (f : Format) (pattern : Nat) : Nat :=
  let (n, exponent) := f.value pattern
  if 0 ≤ exponent then n * Nat.pow 2 exponent.toNat
  else
    let unit := Nat.pow 2 (-exponent).toNat
    (2 * n + unit) / (2 * unit)

end Format

/-- A number of 32 bits. -/
structure Single where
  bits : UInt32
  deriving DecidableEq, Repr, Inhabited

/-- A number of 64 bits. -/
structure Double where
  bits : UInt64
  deriving DecidableEq, Repr, Inhabited

namespace Single

/-- Zero. -/
def zero : Single := ⟨0⟩

/-- Whether the sign is set. -/
def isNegative (x : Single) : Bool :=
  0x80000000 ≤ x.bits

/-- The pattern without its sign. -/
def magnitude (x : Single) : Nat :=
  x.bits.toNat % Format.single.signWeight

/-- Whether the pattern is no number. -/
def isNaN (x : Single) : Bool :=
  Format.single.infinity < x.magnitude

/-- Whether the pattern is infinite. -/
def isInfinite (x : Single) : Bool :=
  x.magnitude == Format.single.infinity

/-- Equality as numbers: the zeros are equal, and what is no number equals nothing. -/
def equals (x y : Single) : Bool :=
  !x.isNaN && !y.isNaN && (x.bits == y.bits || (x.magnitude == 0 && y.magnitude == 0))

end Single

namespace Double

/-- Zero. -/
def zero : Double := ⟨0⟩

/-- Whether the sign is set. -/
def isNegative (x : Double) : Bool :=
  0x8000000000000000 ≤ x.bits

/-- The pattern without its sign. -/
def magnitude (x : Double) : Nat :=
  x.bits.toNat % Format.double.signWeight

/-- Whether the pattern is no number. -/
def isNaN (x : Double) : Bool :=
  Format.double.infinity < x.magnitude

/-- Whether the pattern is infinite. -/
def isInfinite (x : Double) : Bool :=
  x.magnitude == Format.double.infinity

/-- Equality as numbers: the zeros are equal, and what is no number equals nothing. -/
def equals (x y : Double) : Bool :=
  !x.isNaN && !y.isNaN && (x.bits == y.bits || (x.magnitude == 0 && y.magnitude == 0))

/-- The number with a sign and a pattern without one. -/
def ofMagnitude (negative : Bool) (magnitude : Nat) : Double :=
  ⟨UInt64.ofNat ((if negative then Format.double.signWeight else 0) + magnitude)⟩

/-- The number nearest to a whole number. -/
def ofInt (n : Int) : Double :=
  ofMagnitude (n < 0) (Format.double.round n.natAbs 0)

/-- The remainder after division by two to the `power`, with the sign of the dividend. -/
def remainder (x : Double) (power : Nat) : Double :=
  if x.isNaN then x
  else if x.isInfinite then ofMagnitude false (Format.double.infinity + Format.double.quietBit)
  else
    let (n, exponent) := Format.double.value x.magnitude
    let left :=
      if (power : Int) ≤ exponent then 0 else n % Nat.pow 2 ((power : Int) - exponent).toNat
    ofMagnitude x.isNegative (Format.double.round left exponent)

/-- The whole number nearest to a number, a half going away from zero. -/
def rounded (x : Double) : Double :=
  if x.isNaN || x.isInfinite then x
  else ofMagnitude x.isNegative (Format.double.round (Format.double.nearest x.magnitude) 0)

/-- The whole number nearest to a number, a half going away from zero, kept between two bounds.
What is no number counts as zero. -/
def nearestWhole (x : Double) (lowest highest : Int) : Int :=
  if x.isNaN then 0
  else if x.isInfinite then if x.isNegative then lowest else highest
  else
    let size := Format.double.nearest x.magnitude
    max lowest (min highest (if x.isNegative then -size else size))

/-- The machine number with the same pattern. -/
def toFloat (x : Double) : Float :=
  Float.ofBits x.bits

/-- The pattern of a machine number. -/
def ofFloat (x : Float) : Double :=
  ⟨x.toBits⟩

end Double

/-- The number with a sign and a pattern without one. -/
def Single.ofMagnitude (negative : Bool) (magnitude : Nat) : Single :=
  ⟨UInt32.ofNat ((if negative then Format.single.signWeight else 0) + magnitude)⟩

namespace Single

/-- The machine number with the same pattern. -/
def toFloat (x : Single) : Float32 :=
  Float32.ofBits x.bits

/-- The pattern of a machine number. -/
def ofFloat (x : Float32) : Single :=
  ⟨x.toBits⟩

end Single

/-- The same number in the wider format. What is no number becomes quiet and keeps its payload. -/
def Single.widen (x : Single) : Double :=
  let pattern := x.magnitude
  if x.isNaN then
    let payload := pattern % Nat.pow 2 22
    Double.ofMagnitude x.isNegative
      (Format.double.infinity + Format.double.quietBit + payload * Nat.pow 2 29)
  else if x.isInfinite then Double.ofMagnitude x.isNegative Format.double.infinity
  else
    let (n, exponent) := Format.single.value pattern
    Double.ofMagnitude x.isNegative (Format.double.round n exponent)

/-- The nearest number of the narrower format. What is no number becomes quiet and keeps the front
of its payload. -/
def Double.narrow (x : Double) : Single :=
  let pattern := x.magnitude
  if x.isNaN then
    let payload := pattern % Nat.pow 2 51 / Nat.pow 2 29
    Single.ofMagnitude x.isNegative
      (Format.single.infinity + Format.single.quietBit + payload)
  else if x.isInfinite then Single.ofMagnitude x.isNegative Format.single.infinity
  else
    let (n, exponent) := Format.double.value pattern
    Single.ofMagnitude x.isNegative (Format.single.round n exponent)

end Relay.Floating
