import Relay.Quantity.Angle
import Relay.Quantity.Appearance
import Relay.Quantity.Skill
import Relay.Quantity.Vector
import Relay.Stream.Error
import Relay.Text.Units

/-! # Writing a run of bytes

A writer is a cursor into a growing run of bytes. Writing goes over bytes that are there and then
beyond the end. A slot is a number of two bytes that is reserved now and filled in later. -/

namespace Relay.Stream

open Floating

/-- A cursor into a growing run of bytes. -/
structure Writer where
  bytes : Bytes
  position : Nat
  deriving DecidableEq, Repr

/-- The place of a number that is filled in later. -/
structure Slot where
  position : Nat
  deriving DecidableEq, Repr

namespace Writer

/-- Nothing written yet. -/
def empty : Writer := ⟨#[], 0⟩

/-- The number of bytes written. -/
def length (writer : Writer) : Nat := writer.bytes.size

/-- Write one byte at the cursor. -/
def putByte : Writer → UInt8 → Writer
  | ⟨bytes, position⟩, b =>
    if inside : position < bytes.size then ⟨bytes.set position b, position + 1⟩
    else ⟨bytes.push b, position + 1⟩

/-- Write bytes at the cursor. -/
def put (writer : Writer) (run : List UInt8) : Writer :=
  run.foldl putByte writer

/-- Write a run of bytes at the cursor. -/
def putBytes (writer : Writer) (run : Bytes) : Writer :=
  run.foldl putByte writer

/-- Write a number of `width` bytes. -/
def number (writer : Writer) (width n : Nat) : Writer :=
  writer.put (littleEndian width n)

/-- Move the cursor. The end itself is a place for it. -/
def seek (writer : Writer) (target : Nat) : Except StreamError Writer :=
  if writer.bytes.size < target then .error (.seekOutOfBounds target writer.bytes.size)
  else .ok { writer with position := target }

/-- Move the cursor forward. Past the end the run grows by zeros. -/
def skip : Writer → Nat → Writer
  | ⟨bytes, position⟩, count =>
    let target := position + count
    ⟨bytes ++ Array.replicate (target - bytes.size) 0, target⟩

/-- The position of the cursor as a number of two bytes. -/
def shortPosition (writer : Writer) : Except StreamError UInt16 :=
  if writer.position < UInt16.size then .ok (.ofNat writer.position)
  else .error (.positionOverflow writer.position)

/-- Write a truth value. -/
def bool (writer : Writer) (value : Bool) : Writer := writer.number 1 value.toNat

/-- Write a number of one byte. -/
def uint8 (writer : Writer) (value : UInt8) : Writer := writer.number 1 value.toNat

/-- Write a number of two bytes. -/
def uint16 (writer : Writer) (value : UInt16) : Writer := writer.number 2 value.toNat

/-- Write a number of four bytes. -/
def uint32 (writer : Writer) (value : UInt32) : Writer := writer.number 4 value.toNat

/-- Write a number of eight bytes. -/
def uint64 (writer : Writer) (value : UInt64) : Writer := writer.number 8 value.toNat

/-- Write a signed number of two bytes. -/
def int16 (writer : Writer) (value : Int16) : Writer := writer.uint16 value.toUInt16

/-- Write a signed number of four bytes. -/
def int32 (writer : Writer) (value : Int32) : Writer := writer.uint32 value.toUInt32

/-- Write a signed number of eight bytes. -/
def int64 (writer : Writer) (value : Int64) : Writer := writer.uint64 value.toUInt64

/-- Write a floating-point number of four bytes. -/
def single (writer : Writer) (value : Single) : Writer := writer.uint32 value.bits

/-- Write a floating-point number of eight bytes. -/
def double (writer : Writer) (value : Double) : Writer := writer.uint64 value.bits

/-- Write three floating-point numbers. -/
def vector (writer : Writer) (value : Vector3) : Writer :=
  ((writer.single value.x).single value.y).single value.z

/-- Write three angles as floating-point numbers of units. -/
def rotation (writer : Writer) (value : Vector3) : Writer :=
  writer.vector (value.map Angle.componentUnits)

/-- Write an angle. -/
def angle (writer : Writer) (value : Angle) : Writer := writer.int16 value.raw

/-- Write a skill in a word of 64 bits. -/
def skill (writer : Writer) (value : Skill) : Writer := writer.uint64 value.toWide

/-- Write a skill in a word of 32 bits. -/
def skill32 (writer : Writer) (value : Skill) : Writer := writer.uint32 value.toNarrow

/-- Write an appearance. -/
def appearance (writer : Writer) (value : Appearance) : Writer := writer.uint64 value.toWord

/-- Write a text and the zero that ends it. -/
def string (writer : Writer) (value : String) : Writer :=
  ((Text.units value.toList).foldl uint16 writer).uint16 0

/-- Reserve a number of two bytes at the cursor. -/
def reserve (writer : Writer) : Slot × Writer :=
  (⟨writer.position⟩, writer.uint16 0)

/-- Fill in a reserved number. -/
def resolve : Writer → Slot → UInt16 → Writer
  | ⟨bytes, position⟩, slot, value =>
    ⟨(bytes.setIfInBounds slot.position (.ofNat value.toNat)).setIfInBounds (slot.position + 1)
      (.ofNat (value.toNat / 256)), position⟩

/-- Fill in a reserved number with the position of the cursor. -/
def resolveHere (writer : Writer) (slot : Slot) : Except StreamError (UInt16 × Writer) := do
  let here ← writer.shortPosition
  pure (here, writer.resolve slot here)

end Writer

end Relay.Stream
