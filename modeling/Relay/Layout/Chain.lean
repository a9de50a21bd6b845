/-! # The order of chained elements

The elements of an array form a chain, and arrays that are interleaved share one: first the first
element of each, then the second of each, and so on, leaving out arrays that have no more. -/

namespace Relay.Layout

/-- A place in a chain: which array the element belongs to and which of its elements it is. -/
structure Link where
  array : Nat
  place : Nat
  deriving DecidableEq, Repr

/-- The places of one round: every array that has such an element. -/
def round (counts : List Nat) (place : Nat) : List Link :=
  (counts.zipIdx.filter fun (count, _) => decide (place < count)).map fun (_, array) =>
    ⟨array, place⟩

/-- The places of a chain in order, for arrays with these counts. -/
def roundRobin (counts : List Nat) : List Link :=
  (List.range (counts.foldl max 0)).flatMap (round counts)

end Relay.Layout
