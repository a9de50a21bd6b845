import Relay.Floating.Binary

/-! # Vectors of three components -/

namespace Relay

open Floating

/-- A place or direction in space. -/
structure Vector3 where
  x : Single
  y : Single
  z : Single
  deriving DecidableEq, Repr, Inhabited

namespace Vector3

/-- The vector without length. -/
def zero : Vector3 := ⟨.zero, .zero, .zero⟩

/-- Apply a function to every component. -/
def map (f : Single → Single) (v : Vector3) : Vector3 :=
  ⟨f v.x, f v.y, f v.z⟩

/-- Equality of the components as numbers. -/
def equals (v w : Vector3) : Bool :=
  v.x.equals w.x && v.y.equals w.y && v.z.equals w.z

/-- The distance between two places, in single arithmetic throughout. -/
def distance (v w : Vector3) : Single :=
  let dx := v.x.toFloat - w.x.toFloat
  let dy := v.y.toFloat - w.y.toFloat
  let dz := v.z.toFloat - w.z.toFloat
  .ofFloat (dx * dx + dy * dy + dz * dz).sqrt

end Vector3

end Relay
