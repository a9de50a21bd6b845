/-! # Why a cursor could not move -/

namespace Relay.Stream

/-- A cursor refuses to read or move past the end of its bytes, and to name a position that needs
more than sixteen bits. -/
inductive StreamError where
  | unexpectedEnd (position requested available : Nat)
  | seekOutOfBounds (target length : Nat)
  | positionOverflow (position : Nat)
  deriving DecidableEq, Repr

/-- The wording of a refusal. -/
def StreamError.message : StreamError → String
  | .unexpectedEnd position requested available =>
    s!"attempted to read {requested} bytes at position {position} but only {available} bytes " ++
      "available"
  | .seekOutOfBounds target length =>
    s!"cannot seek to position {target}, buffer length is {length}"
  | .positionOverflow position => s!"position {position} does not fit in a 16-bit offset"

end Relay.Stream
