import Relay.Journal
import Relay.Quantity.Angle
import Relay.Quantity.Appearance
import Relay.Quantity.Skill
import Relay.Quantity.Vector
import Relay.Stream.Error
import Relay.Text.Units

/-! # Reading from a run of bytes

A reader is a cursor into a run of bytes. A read of one number takes all of its bytes or none. A
read of several numbers, such as a vector or a text, may fail in the middle; the cursor then stays
behind the last number that was there. -/

namespace Relay.Stream

open Floating

/-- A cursor into a run of bytes, and what is odd about what was read so far. -/
structure Reader where
  data : Bytes
  position : Nat
  remarks : Journal

/-- A read that may fail. A failure keeps the cursor where it is then. -/
abbrev Read := EStateM StreamError Reader

namespace Reader

/-- A cursor at the front. -/
def ofBytes (data : Bytes) : Reader := ⟨data, 0, #[]⟩

/-- The number of bytes behind the cursor. -/
def remaining (reader : Reader) : Nat := reader.data.size - reader.position

/-- Whether nothing is left to read. -/
def isEmpty (reader : Reader) : Bool := reader.remaining == 0

/-- Note a remark. -/
def remark (reader : Reader) (entry : Entry) : Reader :=
  { reader with remarks := reader.remarks.push entry }

end Reader

namespace Read

/-- Move the cursor. The end itself is a place for it. -/
def seek (target : Nat) : Read Unit := fun reader =>
  if reader.data.size < target then .error (.seekOutOfBounds target reader.data.size) reader
  else .ok () { reader with position := target }

/-- The largest place that a cursor is asked to move to. -/
def farthest : Nat := UInt64.size - 1

/-- Move the cursor forward. -/
def skip (count : Nat) : Read Unit := fun reader =>
  seek (min (reader.position + count) farthest) reader

/-- The next `count` bytes. -/
def bytes (count : Nat) : Read Bytes := fun reader =>
  if reader.remaining < count then
    .error (.unexpectedEnd reader.position count reader.remaining) reader
  else
    .ok (reader.data.extract reader.position (reader.position + count))
      { reader with position := reader.position + count }

/-- The next number of `width` bytes. -/
def number (width : Nat) : Read Nat :=
  (ofLittleEndian ·.toList) <$> bytes width

/-- A number of one byte. -/
def uint8 : Read UInt8 := .ofNat <$> number 1

/-- A number of two bytes. -/
def uint16 : Read UInt16 := .ofNat <$> number 2

/-- A number of four bytes. -/
def uint32 : Read UInt32 := .ofNat <$> number 4

/-- A number of eight bytes. -/
def uint64 : Read UInt64 := .ofNat <$> number 8

/-- A signed number of two bytes. -/
def int16 : Read Int16 := .ofNat <$> number 2

/-- A signed number of four bytes. -/
def int32 : Read Int32 := .ofNat <$> number 4

/-- A signed number of eight bytes. -/
def int64 : Read Int64 := .ofNat <$> number 8

/-- A truth value of one byte. Whatever is not zero is true, and remarked upon if it is not one. -/
def bool : Read Bool := do
  let position := (← get).position
  let value ← uint8
  if 1 < value then
    modify (·.remark (.warning "read byte not 0 or 1 for bool"
      [("position", toString position), ("value", toString value.toNat)]))
  pure (value != 0)

/-- A floating-point number of four bytes. -/
def single : Read Single := Single.mk <$> uint32

/-- A floating-point number of eight bytes. -/
def double : Read Double := Double.mk <$> uint64

/-- Three floating-point numbers. -/
def vector : Read Vector3 := do
  let x ← single
  let y ← single
  let z ← single
  pure ⟨x, y, z⟩

/-- Three angles kept as floating-point numbers of units. -/
def rotation : Read Vector3 := (Vector3.map Angle.componentRadians) <$> vector

/-- An angle. -/
def angle : Read Angle := Angle.mk <$> int16

/-- A skill in a word of 64 bits. -/
def skill : Read Skill := Skill.ofWide <$> uint64

/-- A skill in a word of 32 bits. -/
def skill32 : Read Skill := Skill.ofNarrow <$> uint32

/-- An appearance. -/
def appearance : Read Appearance := Appearance.ofWord <$> uint64

/-- Text units up to a zero, which is read and left out. Every unit takes two bytes, so that `fuel`
need not exceed the bytes that are left. -/
def unitsUntilZero : Nat → List UInt16 → Read (List UInt16)
  | 0, found => pure found.reverse
  | fuel + 1, found => do
    let unit ← uint16
    if unit = 0 then pure found.reverse else unitsUntilZero fuel (unit :: found)

/-- A text that ends with a zero unit. -/
def string : Read String := do
  let units ← unitsUntilZero ((← get).remaining + 1) []
  pure (String.ofList (Text.ofUnits units))

end Read

end Relay.Stream
