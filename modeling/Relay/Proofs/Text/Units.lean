import Relay.Text.Units

/-! # Texts and their sixteen-bit units

Reading the units of a text gives the text back (`Relay.Text.ofUnits_units`). In the other
direction, a text that was read from units other than zero has no zero character
(`Relay.Text.zero_notMem_ofUnits`) and no more units than were read
(`Relay.Text.length_units_ofUnits_le`). -/

namespace Relay.Text

theorem isLeading_iff (unit : UInt16) :
    isLeading unit = true ↔ 0xD800 ≤ unit.toNat ∧ unit.toNat < 0xDC00 := by
  simp [isLeading, UInt16.le_iff_toNat_le, UInt16.lt_iff_toNat_lt]

theorem isTrailing_iff (unit : UInt16) :
    isTrailing unit = true ↔ 0xDC00 ≤ unit.toNat ∧ unit.toNat < 0xE000 := by
  simp [isTrailing, UInt16.le_iff_toNat_le, UInt16.lt_iff_toNat_lt]

/-- A character lies outside the range of surrogates. -/
theorem toNat_valid (c : Char) : c.toNat < 0xD800 ∨ 0xE000 ≤ c.toNat ∧ c.toNat < 0x110000 := by
  rcases c.valid with below | ⟨above, bounded⟩
  · exact Or.inl below
  · exact Or.inr ⟨above, bounded⟩

/-- A character whose number is known. -/
theorem toNat_ofNat {n : Nat} (valid : n.isValidChar) : (Char.ofNat n).toNat = n := by
  rw [Char.ofNat, dif_pos valid]
  exact UInt32.toNat_ofNatLT ..

/-- The character of a pair counts its units from where each kind begins. -/
theorem toNat_pairChar {leading trailing : UInt16} (opens : isLeading leading = true)
    (closes : isTrailing trailing = true) :
    (pairChar leading trailing).toNat =
      0x10000 + (leading.toNat - 0xD800) * 0x400 + (trailing.toNat - 0xDC00) := by
  rw [isLeading_iff] at opens
  rw [isTrailing_iff] at closes
  apply toNat_ofNat
  right
  omega

/-- Reading the units of one character gives the character, whatever follows. -/
theorem ofUnitsAfter_charUnits (c : Char) (rest : List UInt16) :
    ofUnitsAfter none (charUnits c ++ rest) = c :: ofUnitsAfter none rest := by
  have valid := toNat_valid c
  by_cases basic : c.toNat < 0x10000
  · have unit : (UInt16.ofNat c.toNat).toNat = c.toNat := by
      rw [UInt16.toNat_ofNat']
      omega
    have opensNot : isLeading (UInt16.ofNat c.toNat) = false := by
      rw [Bool.eq_false_iff, Ne, isLeading_iff, unit]
      omega
    have closesNot : isTrailing (UInt16.ofNat c.toNat) = false := by
      rw [Bool.eq_false_iff, Ne, isTrailing_iff, unit]
      omega
    simp only [charUnits, basic, ↓reduceIte, List.cons_append, List.nil_append, ofUnitsAfter,
      opensNot, closesNot, Bool.false_eq_true, unit, Char.ofNat_toNat]
  · have leading : (UInt16.ofNat (0xD800 + (c.toNat - 0x10000) / 0x400)).toNat =
        0xD800 + (c.toNat - 0x10000) / 0x400 := by
      rw [UInt16.toNat_ofNat']
      omega
    have trailing : (UInt16.ofNat (0xDC00 + (c.toNat - 0x10000) % 0x400)).toNat =
        0xDC00 + (c.toNat - 0x10000) % 0x400 := by
      rw [UInt16.toNat_ofNat']
      omega
    have opens : isLeading (UInt16.ofNat (0xD800 + (c.toNat - 0x10000) / 0x400)) = true := by
      rw [isLeading_iff, leading]
      omega
    have closes : isTrailing (UInt16.ofNat (0xDC00 + (c.toNat - 0x10000) % 0x400)) = true := by
      rw [isTrailing_iff, trailing]
      omega
    have pair : pairChar (UInt16.ofNat (0xD800 + (c.toNat - 0x10000) / 0x400))
        (UInt16.ofNat (0xDC00 + (c.toNat - 0x10000) % 0x400)) = c := by
      apply Char.toNat_inj.mp
      rw [toNat_pairChar opens closes, leading, trailing]
      omega
    simp only [charUnits, basic, ↓reduceIte, List.cons_append, List.nil_append, ofUnitsAfter,
      opens, closes, pair]

/-- **Reading the units of a text gives the text back.** -/
theorem ofUnits_units (text : List Char) : ofUnits (units text) = text := by
  unfold ofUnits
  induction text with
  | nil => rfl
  | cons c rest ih =>
      rw [units, List.flatMap_cons, ofUnitsAfter_charUnits]
      exact congrArg (c :: ·) ih

/-- A text without a zero character has no zero unit. -/
theorem zero_notMem_units {text : List Char} (plain : '\x00' ∉ text) : 0 ∉ units text := by
  intro zero
  obtain ⟨c, member, zero⟩ := List.mem_flatMap.mp zero
  have number : c.toNat ≠ 0 := by
    intro vanishes
    have same : c = '\x00' := Char.toNat_inj.mp vanishes
    exact plain (same ▸ member)
  have valid := toNat_valid c
  have bits (n : Nat) (positive : 0 < n) (small : n < 0x10000) : (0 : UInt16) ≠ UInt16.ofNat n := by
    intro same
    have := congrArg UInt16.toNat same
    rw [UInt16.toNat_ofNat'] at this
    simp only [UInt16.toNat_zero] at this
    omega
  simp only [charUnits] at zero
  split at zero
  · simp only [List.mem_singleton] at zero
    exact bits _ (by omega) (by omega) zero
  · simp only [List.mem_cons, List.not_mem_nil, or_false] at zero
    rcases zero with zero | zero
    · exact bits _ (by omega) (by omega) zero
    · exact bits _ (by omega) (by omega) zero

/-- A unit that is no part of a pair stands for a character other than zero, unless it is zero. -/
theorem ofNat_toNat_ne_zero {unit : UInt16} (alone : isLeading unit = false)
    (last : isTrailing unit = false) (positive : unit ≠ 0) : Char.ofNat unit.toNat ≠ '\x00' := by
  intro vanishes
  have number := congrArg Char.toNat vanishes
  rw [Bool.eq_false_iff, Ne, isLeading_iff] at alone
  rw [Bool.eq_false_iff, Ne, isTrailing_iff] at last
  have bounded := unit.toNat_lt
  rw [toNat_ofNat (by unfold Nat.isValidChar; omega)] at number
  exact positive (UInt16.toNat_inj.mp number)

/-- A pair never stands for the zero character. -/
theorem pairChar_ne_zero {leading trailing : UInt16} (opens : isLeading leading = true)
    (closes : isTrailing trailing = true) : pairChar leading trailing ≠ '\x00' := by
  intro vanishes
  have number := congrArg Char.toNat vanishes
  rw [toNat_pairChar opens closes] at number
  simp only [Char.reduceToNat] at number
  omega

theorem replacement_ne_zero : replacement ≠ '\x00' := by decide

/-- Units other than zero stand for characters other than zero. -/
theorem zero_notMem_ofUnits {run : List UInt16} (plain : 0 ∉ run) : '\x00' ∉ ofUnits run := by
  suffices general : ∀ waiting, (∀ unit ∈ waiting, isLeading unit = true) →
      '\x00' ∉ ofUnitsAfter waiting run from general none (by simp)
  intro waiting opens
  fun_induction ofUnitsAfter waiting run with
  | case1 => simp
  | case2 => simp [replacement_ne_zero.symm]
  | case3 unit rest leads ih =>
      exact ih (fun zero => plain (List.mem_cons_of_mem _ zero)) (by simpa using leads)
  | case4 unit rest leads closes ih =>
      have rest := ih (fun zero => plain (List.mem_cons_of_mem _ zero)) (by simp)
      simp only [List.mem_cons, replacement_ne_zero.symm, rest, or_self, not_false_eq_true]
  | case5 unit rest leads closes ih =>
      have rest := ih (fun zero => plain (List.mem_cons_of_mem _ zero)) (by simp)
      have first := ofNat_toNat_ne_zero (Bool.eq_false_iff.mpr leads) (Bool.eq_false_iff.mpr closes)
        (fun zero => plain (zero ▸ List.mem_cons_self))
      simp only [List.mem_cons, first.symm, rest, or_self, not_false_eq_true]
  | case6 leading unit rest closes ih =>
      have rest := ih (fun zero => plain (List.mem_cons_of_mem _ zero)) (by simp)
      have first := pairChar_ne_zero (opens leading rfl) closes
      simp only [List.mem_cons, first.symm, rest, or_self, not_false_eq_true]
  | case7 leading unit rest closes leads ih =>
      have rest := ih (fun zero => plain (List.mem_cons_of_mem _ zero)) (by simpa using leads)
      simp only [List.mem_cons, replacement_ne_zero.symm, rest, or_self, not_false_eq_true]
  | case8 leading unit rest closes leads ih =>
      have rest := ih (fun zero => plain (List.mem_cons_of_mem _ zero)) (by simp)
      have first := ofNat_toNat_ne_zero (Bool.eq_false_iff.mpr leads) (Bool.eq_false_iff.mpr closes)
        (fun zero => plain (zero ▸ List.mem_cons_self))
      simp only [List.mem_cons, replacement_ne_zero.symm, first.symm, rest, or_self,
        not_false_eq_true]

/-- A character of a single unit has one unit. -/
theorem length_charUnits_ofNat (unit : UInt16) :
    (charUnits (Char.ofNat unit.toNat)).length = 1 := by
  have small : (Char.ofNat unit.toNat).toNat < 0x10000 := by
    by_cases valid : unit.toNat.isValidChar
    · rw [toNat_ofNat valid]
      exact unit.toNat_lt
    · rw [Char.ofNat, dif_neg valid]
      decide
  simp only [charUnits, small, ↓reduceIte, List.length_singleton]

/-- A character has at most two units. -/
theorem length_charUnits_le (c : Char) : (charUnits c).length ≤ 2 := by
  simp only [charUnits]
  split <;> simp

/-- A text that was read has no more units than were read. -/
theorem length_units_ofUnits_le (run : List UInt16) :
    (units (ofUnits run)).length ≤ run.length := by
  suffices general : ∀ waiting : Option UInt16,
      (units (ofUnitsAfter waiting run)).length ≤ waiting.toList.length + run.length by
    have := general none
    simp only [Option.toList_none, List.length_nil, Nat.zero_add] at this
    exact this
  have single : (charUnits replacement).length = 1 := by decide
  -- a unit that waits for its second half counts as one
  intro waiting
  fun_induction ofUnitsAfter waiting run with
  | case1 => simp [units]
  | case2 => simp [units, single]
  | case3 unit rest leads ih =>
      simp only [Option.toList_some, Option.toList_none, List.length_cons, List.length_nil] at ih ⊢
      omega
  | case4 unit rest leads closes ih =>
      simp only [units, List.flatMap_cons, List.length_append, single, Option.toList_none,
        List.length_cons, List.length_nil] at ih ⊢
      omega
  | case5 unit rest leads closes ih =>
      simp only [units, List.flatMap_cons, List.length_append, length_charUnits_ofNat,
        Option.toList_none, List.length_cons, List.length_nil] at ih ⊢
      omega
  | case6 leading unit rest closes ih =>
      have two := length_charUnits_le (pairChar leading unit)
      simp only [units, List.flatMap_cons, List.length_append, Option.toList_none,
        Option.toList_some, List.length_cons, List.length_nil] at ih ⊢
      omega
  | case7 leading unit rest closes leads ih =>
      simp only [units, List.flatMap_cons, List.length_append, single, Option.toList_some,
        List.length_cons, List.length_nil] at ih ⊢
      omega
  | case8 leading unit rest closes leads ih =>
      simp only [units, List.flatMap_cons, List.length_append, length_charUnits_ofNat, single,
        Option.toList_none, Option.toList_some, List.length_cons, List.length_nil] at ih ⊢
      omega

end Relay.Text
