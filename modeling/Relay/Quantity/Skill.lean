import Relay.Text.Numeral

/-! # Skill identifiers

A skill is packed into one word of 64 or of 32 bits. Where the number stands in the word and how
wide it is depends on two other parts of the word: a skill of the first kind that belongs to a
creature also names the zone in which the creature lives. -/

namespace Relay

/-- A skill, and to whom it belongs. -/
structure Skill where
  id : UInt32
  zone : UInt16
  kind : UInt8
  npc : Bool
  reserved : UInt8
  deriving DecidableEq, Repr, Inhabited

namespace Skill

/-- The skill that is all zero. -/
def zero : Skill := ⟨0, 0, 0, false, 0⟩

/-- A skill of a player. -/
def player (id : UInt32) : Skill := ⟨id, 0, 1, false, 0⟩

/-- Whether such a skill names a zone. -/
def namesZone (npc : Bool) (kind : Nat) : Bool :=
  npc && kind == 1

/-- How a word of some width is divided: the widths of the number without and with a zone are
`idBits` and sixteen, and kind, owner and the reserved bit follow above. -/
structure Packing where
  idBits : Nat
  npcShift : Nat
  reservedShift : Nat
  deriving DecidableEq, Repr

/-- Words of 64 bits. -/
def Packing.wide : Packing := ⟨28, 32, 33⟩

/-- Words of 32 bits. -/
def Packing.narrow : Packing := ⟨26, 30, 31⟩

/-- The skill in a word. -/
def unpack (packing : Packing) (word : Nat) : Skill :=
  let kind := word / Nat.pow 2 packing.idBits % 16
  let npc := word / Nat.pow 2 packing.npcShift % 2 == 1
  let reserved := UInt8.ofNat (word / Nat.pow 2 packing.reservedShift % 2)
  if namesZone npc kind then
    ⟨.ofNat (word % UInt16.size),
      .ofNat (word / UInt16.size % Nat.pow 2 (packing.idBits - 16)), .ofNat kind, npc, reserved⟩
  else ⟨.ofNat (word % Nat.pow 2 packing.idBits), 0, .ofNat kind, npc, reserved⟩

/-- The word of a skill. What is too wide for its part is cut off. -/
def pack (packing : Packing) (skill : Skill) : Nat :=
  let low :=
    if namesZone skill.npc skill.kind.toNat then
      skill.id.toNat % UInt16.size +
        skill.zone.toNat % Nat.pow 2 (packing.idBits - 16) * UInt16.size
    else skill.id.toNat % Nat.pow 2 packing.idBits
  low + skill.kind.toNat % 16 * Nat.pow 2 packing.idBits +
    skill.npc.toNat * Nat.pow 2 packing.npcShift +
    skill.reserved.toNat % 2 * Nat.pow 2 packing.reservedShift

/-- The skill in a word of 64 bits. -/
def ofWide (word : UInt64) : Skill := unpack .wide word.toNat

/-- The skill in a word of 32 bits. -/
def ofNarrow (word : UInt32) : Skill := unpack .narrow word.toNat

/-- The word of 64 bits for a skill. -/
def toWide (skill : Skill) : UInt64 := .ofNat (pack .wide skill)

/-- The word of 32 bits for a skill. -/
def toNarrow (skill : Skill) : UInt32 := .ofNat (pack .narrow skill)

/-- The short text of a skill. -/
def text (skill : Skill) : String :=
  let reserved :=
    if skill.reserved = 0 then "" else "[X" ++ Text.hexText skill.reserved.toNat ++ "]"
  let kind :=
    if skill.kind = 1 then "A" else if skill.kind = 2 then "R" else s!"[T{skill.kind.toNat}]"
  let zone := if namesZone skill.npc skill.kind.toNat then s!"{skill.zone.toNat}:" else ""
  reserved ++ kind ++ zone ++ toString skill.id.toNat

end Skill

end Relay
