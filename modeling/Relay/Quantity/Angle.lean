import Relay.Floating.Binary

/-! # Angles

A full turn has 65536 units, kept as a signed number of sixteen bits. -/

namespace Relay

open Floating

/-- A direction in the plane. -/
structure Angle where
  raw : Int16
  deriving DecidableEq, Repr, Inhabited

namespace Angle

/-- The direction of zero units. -/
def zero : Angle := ⟨0⟩

/-- Radians of one unit: the double nearest to π / 32768. -/
def radiansPerUnit : Double := ⟨0x3f1921fb54442d18⟩

/-- Units of one radian: the double nearest to 32768 / π. -/
def unitsPerRadian : Double := ⟨0x40c45f306dc9c883⟩

/-- The angle nearest to a number of radians, a half going away from zero. Whole turns are
dropped. -/
def ofRadians (radians : Double) : Angle :=
  let units := Double.ofFloat (radians.toFloat * unitsPerRadian.toFloat)
  ⟨.ofInt (units.nearestWhole Int64.minValue.toInt Int64.maxValue.toInt)⟩

/-- The angle in radians. -/
def radians (angle : Angle) : Double :=
  .ofFloat ((Double.ofInt angle.raw.toInt).toFloat * radiansPerUnit.toFloat)

/-- Radians for a component given in units, in single precision. -/
def componentRadians (component : Single) : Single :=
  (Double.ofFloat (component.widen.toFloat * radiansPerUnit.toFloat)).narrow

/-- Whole units for a component given in radians, in single precision. Whole turns are dropped. -/
def componentUnits (component : Single) : Single :=
  let units := Double.ofFloat (component.widen.toFloat * unitsPerRadian.toFloat)
  (units.remainder 16).rounded.narrow

end Angle

end Relay
