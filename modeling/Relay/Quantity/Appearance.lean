import Relay.Stream.Endian

/-! # Appearance of a character -/

namespace Relay

/-- Eight choices of one byte each, packed into one word with the first lowest. -/
structure Appearance where
  unknown : UInt8
  skinColor : UInt8
  faceStyle : UInt8
  faceDecal : UInt8
  hairStyle : UInt8
  hairColor : UInt8
  voice : UInt8
  tattoos : UInt8
  deriving DecidableEq, Repr, Inhabited

namespace Appearance

/-- The choices in packing order. -/
def toList (look : Appearance) : List UInt8 :=
  [look.unknown, look.skinColor, look.faceStyle, look.faceDecal, look.hairStyle, look.hairColor,
    look.voice, look.tattoos]

/-- The appearance in a word. -/
def ofWord (word : UInt64) : Appearance :=
  let byte (place : Nat) : UInt8 := .ofNat (word.toNat / Nat.pow 256 place)
  ⟨byte 0, byte 1, byte 2, byte 3, byte 4, byte 5, byte 6, byte 7⟩

/-- The word of an appearance. -/
def toWord (look : Appearance) : UInt64 :=
  .ofNat (Stream.ofLittleEndian look.toList)

end Appearance

end Relay
