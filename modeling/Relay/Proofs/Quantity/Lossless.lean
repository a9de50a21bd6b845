import Relay.Proofs.Quantity.Packing

/-! # What a word of a skill keeps

A word of 32 bits is the word of the skill in it, and so is a word of 64 bits as far as the skill
takes it up. The other way round, the word of a skill keeps its owner, and its kind and its reserved
bit as far as they fit; the skill in it has the same word again, and is the same skill exactly when
all of its parts fit (`Relay.Skill.lossless_words`). -/

namespace Relay.Skill

variable {packing : Packing}

/-- What fits a word of 32 bits fits one of 64 bits. -/
theorem Fits.wide {skill : Skill} (fits : Fits .narrow skill) : Fits .wide skill := by
  obtain ⟨kind, reserved, rest⟩ := fits
  refine ⟨kind, reserved, ?_⟩
  simp only [Packing.narrow, Packing.wide, Nat.pow_eq] at rest ⊢
  split
  next zoned =>
    rw [if_pos zoned] at rest
    omega
  next plain =>
    rw [if_neg plain] at rest
    omega

/-- The skill in the word of a skill has its owner, and its kind and reserved bit as far as they
fit. -/
theorem owner_unpack_pack (known : packing.InUse) (skill : Skill) :
    (unpack packing (pack packing skill)).kind.toNat = skill.kind.toNat % 16 ∧
      (unpack packing (pack packing skill)).npc = skill.npc ∧
      (unpack packing (pack packing skill)).reserved.toNat = skill.reserved.toNat % 2 := by
  obtain ⟨kind, npc, reserved⟩ := unpack_owner packing (pack packing skill)
  obtain ⟨kindIs, npcIs, reservedIs⟩ := pack_owner known skill
  have owner : (skill.npc.toNat == 1) = skill.npc := by
    cases skill.npc <;> rfl
  rw [kindIs] at kind
  rw [npcIs, owner] at npc
  rw [reservedIs] at reserved
  exact ⟨kind, npc, reserved⟩

/-- A skill is the skill in its word exactly when it fits. -/
theorem unpack_pack_iff (known : packing.InUse) (skill : Skill) :
    unpack packing (pack packing skill) = skill ↔ Fits packing skill :=
  ⟨fun same => same ▸ fits_unpack known _, unpack_pack known⟩

/-- How the words of a packing keep skills: the owner stays as it is, and the kind and the reserved
bit as far as they fit; the skill in a word has that word again, and it is the skill of which it is
the word exactly when all parts fit. -/
structure Lossless {Word : Type} (packing : Packing) (ofWord : Word → Skill)
    (toWord : Skill → Word) : Prop where
  npc : ∀ skill, (ofWord (toWord skill)).npc = skill.npc
  kind : ∀ skill, (ofWord (toWord skill)).kind.toNat = skill.kind.toNat % 16
  reserved : ∀ skill, (ofWord (toWord skill)).reserved.toNat = skill.reserved.toNat % 2
  again : ∀ skill, toWord (ofWord (toWord skill)) = toWord skill
  same : ∀ skill, ofWord (toWord skill) = skill ↔ Fits packing skill

theorem ofWide_toWide_eq (skill : Skill) :
    ofWide skill.toWide = unpack .wide (pack .wide skill) := by
  rw [ofWide, toNat_toWide]

theorem ofNarrow_toNarrow_eq (skill : Skill) :
    ofNarrow skill.toNarrow = unpack .narrow (pack .narrow skill) := by
  rw [ofNarrow, toNat_toNarrow]

/-- **Wide words lose nothing** of what fits them. -/
theorem lossless_wide : Lossless .wide ofWide toWide where
  npc skill := by
    rw [ofWide_toWide_eq]
    exact (owner_unpack_pack (.inl rfl) skill).2.1
  kind skill := by
    rw [ofWide_toWide_eq]
    exact (owner_unpack_pack (.inl rfl) skill).1
  reserved skill := by
    rw [ofWide_toWide_eq]
    exact (owner_unpack_pack (.inl rfl) skill).2.2
  again := toWide_ofWide_toWide
  same skill := by
    rw [ofWide_toWide_eq]
    exact unpack_pack_iff (.inl rfl) skill

/-- **Narrow words lose nothing** of what fits them. -/
theorem lossless_narrow : Lossless .narrow ofNarrow toNarrow where
  npc skill := by
    rw [ofNarrow_toNarrow_eq]
    exact (owner_unpack_pack (.inr rfl) skill).2.1
  kind skill := by
    rw [ofNarrow_toNarrow_eq]
    exact (owner_unpack_pack (.inr rfl) skill).1
  reserved skill := by
    rw [ofNarrow_toNarrow_eq]
    exact (owner_unpack_pack (.inr rfl) skill).2.2
  again := toNarrow_ofNarrow_toNarrow
  same skill := by
    rw [ofNarrow_toNarrow_eq]
    exact unpack_pack_iff (.inr rfl) skill

/-- **Words of skills lose nothing but what does not fit.** Of a word of 64 bits the lowest 34 are
kept, of a word of 32 bits all. Every skill keeps what fits, and a skill read from a word of 32 bits
is the same behind a word of 64 bits. -/
theorem lossless_words :
    (∀ word, (ofWide word).toWide.toNat = word.toNat % Nat.pow 2 34) ∧
      (∀ word, (ofNarrow word).toNarrow = word) ∧
      Lossless .wide ofWide toWide ∧ Lossless .narrow ofNarrow toNarrow ∧
      ∀ word, ofWide (ofNarrow word).toWide = ofNarrow word := by
  refine ⟨fun word => ?_, fun word => ?_, lossless_wide, lossless_narrow, fun word => ?_⟩
  · rw [toNat_toWide, ofWide, pack_unpack (.inl rfl)]
    rfl
  · apply UInt32.toNat_inj.mp
    rw [toNat_toNarrow, ofNarrow, pack_unpack (.inr rfl)]
    exact Nat.mod_eq_of_lt word.toNat_lt
  · exact ofWide_toWide (fits_unpack (.inr rfl) word.toNat).wide

end Relay.Skill
