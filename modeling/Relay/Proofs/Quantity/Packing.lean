import Relay.Quantity.Appearance
import Relay.Quantity.Skill

/-! # Packed words

A skill that fits the parts of a word is read back from it (`Relay.Skill.unpack_pack`), and what is
read from a word always fits (`Relay.Skill.fits_unpack`). Both hold of the words of 64 and of 32
bits. The eight choices of an appearance are read back from its word
(`Relay.Appearance.ofWord_toWord`). -/

namespace Relay

namespace Skill

/-- The two packings in use. -/
def Packing.InUse (packing : Packing) : Prop :=
  packing = .wide ∨ packing = .narrow

/-- Whether every part of a skill fits its place in a word. Only a skill that names a zone has
one, and then its number is the shorter for it. -/
def Fits (packing : Packing) (skill : Skill) : Prop :=
  skill.kind.toNat < 16 ∧ skill.reserved.toNat < 2 ∧
    if namesZone skill.npc skill.kind.toNat then
      skill.id.toNat < UInt16.size ∧ skill.zone.toNat < Nat.pow 2 (packing.idBits - 16)
    else skill.id.toNat < Nat.pow 2 packing.idBits ∧ skill.zone.toNat = 0

instance (packing : Packing) (skill : Skill) : Decidable (skill.Fits packing) :=
  inferInstanceAs (Decidable (skill.kind.toNat < 16 ∧ skill.reserved.toNat < 2 ∧
    if namesZone skill.npc skill.kind.toNat then
      skill.id.toNat < UInt16.size ∧ skill.zone.toNat < Nat.pow 2 (packing.idBits - 16)
    else skill.id.toNat < Nat.pow 2 packing.idBits ∧ skill.zone.toNat = 0))

/-- Skills are equal when their parts are. -/
theorem eq_of_parts {skill other : Skill} (id : skill.id.toNat = other.id.toNat)
    (zone : skill.zone.toNat = other.zone.toNat) (kind : skill.kind.toNat = other.kind.toNat)
    (npc : skill.npc = other.npc) (reserved : skill.reserved.toNat = other.reserved.toNat) :
    skill = other := by
  obtain ⟨id₁, zone₁, kind₁, npc₁, reserved₁⟩ := skill
  obtain ⟨id₂, zone₂, kind₂, npc₂, reserved₂⟩ := other
  simp only at id zone kind npc reserved
  rw [UInt32.toNat_inj.mp id, UInt16.toNat_inj.mp zone, UInt8.toNat_inj.mp kind, npc,
    UInt8.toNat_inj.mp reserved]

variable {packing : Packing}

/-- What stands in a word whatever its number and zone are. -/
theorem unpack_owner (packing : Packing) (word : Nat) :
    (unpack packing word).kind.toNat = word / Nat.pow 2 packing.idBits % 16 ∧
      (unpack packing word).npc = (word / Nat.pow 2 packing.npcShift % 2 == 1) ∧
      (unpack packing word).reserved.toNat = word / Nat.pow 2 packing.reservedShift % 2 := by
  simp only [unpack, apply_ite, ite_self, UInt8.toNat_ofNat']
  refine ⟨?_, trivial, ?_⟩ <;> omega

/-- The number and the zone of a skill that names one. -/
theorem unpack_zoned {word : Nat} (known : packing.InUse)
    (zoned : namesZone (word / Nat.pow 2 packing.npcShift % 2 == 1)
      (word / Nat.pow 2 packing.idBits % 16) = true) :
    (unpack packing word).id.toNat = word % 65536 ∧
      (unpack packing word).zone.toNat = word / 65536 % Nat.pow 2 (packing.idBits - 16) := by
  have size : UInt16.size = 65536 := rfl
  simp only [unpack, zoned, ↓reduceIte, size, UInt32.toNat_ofNat', UInt16.toNat_ofNat']
  rcases known with rfl | rfl <;>
  · simp only [Packing.wide, Packing.narrow, Nat.pow_eq]
    omega

/-- The number of a skill that names no zone. -/
theorem unpack_plain {word : Nat} (known : packing.InUse)
    (plain : namesZone (word / Nat.pow 2 packing.npcShift % 2 == 1)
      (word / Nat.pow 2 packing.idBits % 16) = false) :
    (unpack packing word).id.toNat = word % Nat.pow 2 packing.idBits ∧
      (unpack packing word).zone.toNat = 0 := by
  simp only [unpack, plain, Bool.false_eq_true, ↓reduceIte, UInt32.toNat_ofNat']
  rcases known with rfl | rfl <;>
  · simp only [Packing.wide, Packing.narrow, Nat.pow_eq]
    refine ⟨?_, rfl⟩
    omega

/-- Whatever is read from a word fits. -/
theorem fits_unpack (known : packing.InUse) (word : Nat) : Fits packing (unpack packing word) := by
  obtain ⟨kind, npc, reserved⟩ := unpack_owner packing word
  refine ⟨by omega, by omega, ?_⟩
  rw [kind, npc]
  have size : UInt16.size = 65536 := rfl
  split
  next zoned =>
    obtain ⟨id, zone⟩ := unpack_zoned known zoned
    rw [id, zone]
    exact ⟨by omega, Nat.mod_lt _ (Nat.two_pow_pos _)⟩
  next plain =>
    obtain ⟨id, zone⟩ := unpack_plain known (Bool.eq_false_iff.mpr plain)
    rw [id]
    exact ⟨Nat.mod_lt _ (Nat.two_pow_pos _), zone⟩

/-- The bits of a word that a packing uses. -/
def Packing.span (packing : Packing) : Nat :=
  Nat.pow 2 (packing.reservedShift + 1)

/-- A skill takes up no more than the bits of its packing. -/
theorem pack_lt (known : packing.InUse) (skill : Skill) : pack packing skill < packing.span := by
  have size : UInt16.size = 65536 := rfl
  have owner := skill.npc.toNat_le
  unfold pack
  rcases known with rfl | rfl <;>
  · simp only [Packing.span, Packing.wide, Packing.narrow, Nat.pow_eq, size]
    split <;> omega

/-- Packing what was read from a word gives the bits of the word that the packing uses. -/
theorem pack_unpack (known : packing.InUse) (word : Nat) :
    pack packing (unpack packing word) = word % packing.span := by
  obtain ⟨kind, npc, reserved⟩ := unpack_owner packing word
  have size : UInt16.size = 65536 := rfl
  have owner (bit : Nat) : (bit % 2 == 1).toNat = bit % 2 := by
    rcases Nat.mod_two_eq_zero_or_one bit with even | odd
    · rw [even]
      rfl
    · rw [odd]
      rfl
  unfold pack
  rw [kind, npc, reserved, owner]
  split
  next zoned =>
    obtain ⟨id, zone⟩ := unpack_zoned known zoned
    rw [id, zone]
    rcases known with rfl | rfl <;>
    · simp only [Packing.span, Packing.wide, Packing.narrow, Nat.pow_eq, size]
      omega
  next plain =>
    obtain ⟨id, zone⟩ := unpack_plain known (Bool.eq_false_iff.mpr plain)
    rw [id]
    rcases known with rfl | rfl <;>
    · simp only [Packing.span, Packing.wide, Packing.narrow, Nat.pow_eq]
      omega

/-- What stands in the word of a skill besides its number and zone: the kind and the reserved bits
as far as they fit, and the owner. -/
theorem pack_owner (known : packing.InUse) (skill : Skill) :
    pack packing skill / Nat.pow 2 packing.idBits % 16 = skill.kind.toNat % 16 ∧
      pack packing skill / Nat.pow 2 packing.npcShift % 2 = skill.npc.toNat ∧
      pack packing skill / Nat.pow 2 packing.reservedShift % 2 = skill.reserved.toNat % 2 := by
  have size : UInt16.size = 65536 := rfl
  have owner := skill.npc.toNat_le
  unfold pack
  rcases known with rfl | rfl <;>
  · simp only [Packing.wide, Packing.narrow, Nat.pow_eq, size]
    refine ⟨?_, ?_, ?_⟩ <;> split <;> omega

/-- **A skill that fits is read back from its word.** -/
theorem unpack_pack (known : packing.InUse) {skill : Skill} (fits : Fits packing skill) :
    unpack packing (pack packing skill) = skill := by
  obtain ⟨kindFits, reservedFits, rest⟩ := fits
  have size : UInt16.size = 65536 := rfl
  have owner := skill.npc.toNat_le
  have ownerIs : (skill.npc.toNat == 1) = skill.npc := by
    cases skill.npc <;> rfl
  obtain ⟨kind, npc, reserved⟩ := unpack_owner packing (pack packing skill)
  obtain ⟨kindIs, npcIs, reservedIs⟩ := pack_owner known skill
  rw [Nat.mod_eq_of_lt kindFits] at kindIs
  rw [Nat.mod_eq_of_lt reservedFits] at reservedIs
  rw [kindIs] at kind
  rw [npcIs, ownerIs] at npc
  rw [reservedIs] at reserved
  have named : namesZone (pack packing skill / Nat.pow 2 packing.npcShift % 2 == 1)
      (pack packing skill / Nat.pow 2 packing.idBits % 16) =
        namesZone skill.npc skill.kind.toNat := by
    rw [npcIs, kindIs, ownerIs]
  by_cases zoned : namesZone skill.npc skill.kind.toNat = true
  · obtain ⟨id, zone⟩ := unpack_zoned known (named.trans zoned)
    simp only [zoned, ↓reduceIte, size] at rest
    refine eq_of_parts (id.trans ?_) (zone.trans ?_) kind npc reserved
    · unfold pack
      rcases known with rfl | rfl <;>
      · simp only [zoned, ↓reduceIte, Packing.wide, Packing.narrow, Nat.pow_eq, size] at rest ⊢
        omega
    · unfold pack
      rcases known with rfl | rfl <;>
      · simp only [zoned, ↓reduceIte, Packing.wide, Packing.narrow, Nat.pow_eq, size] at rest ⊢
        omega
  · obtain ⟨id, zone⟩ := unpack_plain known (named.trans (Bool.eq_false_iff.mpr zoned))
    simp only [zoned, Bool.false_eq_true, ↓reduceIte] at rest
    refine eq_of_parts (id.trans ?_) (zone.trans rest.2.symm) kind npc reserved
    unfold pack
    rcases known with rfl | rfl <;>
    · simp only [zoned, Bool.false_eq_true, ↓reduceIte, Packing.wide, Packing.narrow,
        Nat.pow_eq] at rest ⊢
      omega

/-- A wide word is the packed number. -/
theorem toNat_toWide (skill : Skill) : skill.toWide.toNat = pack .wide skill := by
  have bounded := pack_lt (Or.inl rfl) skill
  have span : Packing.wide.span = 2 ^ 34 := by decide
  rw [toWide, UInt64.toNat_ofNat']
  omega

/-- A narrow word is the packed number. -/
theorem toNat_toNarrow (skill : Skill) : skill.toNarrow.toNat = pack .narrow skill := by
  have bounded := pack_lt (Or.inr rfl) skill
  have span : Packing.narrow.span = 2 ^ 32 := by decide
  rw [toNarrow, UInt32.toNat_ofNat']
  omega

theorem ofWide_toWide {skill : Skill} (fits : Fits .wide skill) : ofWide skill.toWide = skill := by
  rw [ofWide, toNat_toWide, unpack_pack (Or.inl rfl) fits]

theorem ofNarrow_toNarrow {skill : Skill} (fits : Fits .narrow skill) :
    ofNarrow skill.toNarrow = skill := by
  rw [ofNarrow, toNat_toNarrow, unpack_pack (Or.inr rfl) fits]

/-- A word of 64 bits for a skill survives being read and packed again. -/
theorem toWide_ofWide_toWide (skill : Skill) : (ofWide skill.toWide).toWide = skill.toWide := by
  have bounded := pack_lt (Or.inl rfl) skill
  rw [toWide, ofWide, pack_unpack (Or.inl rfl), toNat_toWide, Nat.mod_eq_of_lt bounded, toWide]

/-- A word of 32 bits for a skill survives being read and packed again. -/
theorem toNarrow_ofNarrow_toNarrow (skill : Skill) :
    (ofNarrow skill.toNarrow).toNarrow = skill.toNarrow := by
  have bounded := pack_lt (Or.inr rfl) skill
  rw [toNarrow, ofNarrow, pack_unpack (Or.inr rfl), toNat_toNarrow, Nat.mod_eq_of_lt bounded,
    toNarrow]

end Skill

/-- **An appearance is read back from its word.** -/
theorem Appearance.ofWord_toWord (look : Appearance) : ofWord look.toWord = look := by
  obtain ⟨unknown, skinColor, faceStyle, faceDecal, hairStyle, hairColor, voice, tattoos⟩ := look
  have byte (b c : UInt8) (n : Nat) (same : n % 256 = b.toNat) (c_eq : c = .ofNat n) : c = b := by
    subst c_eq
    apply UInt8.toNat_inj.mp
    rw [UInt8.toNat_ofNat']
    exact same
  have below (b : UInt8) : b.toNat < 256 := b.toNat_lt
  have := below unknown
  have := below skinColor
  have := below faceStyle
  have := below faceDecal
  have := below hairStyle
  have := below hairColor
  have := below voice
  have := below tattoos
  simp only [ofWord, toWord, toList, Stream.ofLittleEndian, UInt64.toNat_ofNat', Nat.pow_eq,
    Appearance.mk.injEq]
  refine ⟨byte _ _ _ ?_ rfl, byte _ _ _ ?_ rfl, byte _ _ _ ?_ rfl, byte _ _ _ ?_ rfl,
    byte _ _ _ ?_ rfl, byte _ _ _ ?_ rfl, byte _ _ _ ?_ rfl, byte _ _ _ ?_ rfl⟩ <;> omega

end Relay
