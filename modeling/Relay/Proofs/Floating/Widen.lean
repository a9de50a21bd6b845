import Relay.Floating.Binary

/-! # Widening is exact

A pattern of 32 bits keeps its value when it is widened, so narrowing gives it back
(`Relay.Floating.narrow_widen`). Among the patterns that are no number this holds of the quiet
ones, and those are what narrowing makes: narrowed once, a pattern survives any number of further
changes of format (`Relay.Floating.narrow_widen_narrow`). -/

namespace Relay.Floating

/-- A whole number with a power of two split off leaves nothing to round. -/
theorem Format.halve_mul (n shift : Nat) : Format.halve (n * Nat.pow 2 shift) shift = n := by
  have positive : 0 < Nat.pow 2 shift := Nat.two_pow_pos shift
  simp only [Format.halve, Nat.mul_div_cancel _ positive, Nat.mul_mod_left, Nat.mul_zero, positive,
    ↓reduceIte]

/-- The first bit of a number, moved to the front of 53 bits, stays its first bit. -/
theorem moved_bounds {n : Nat} (nonzero : n ≠ 0) (short : n < Nat.pow 2 24) :
    Nat.pow 2 52 ≤ n * Nat.pow 2 (52 - n.log2) ∧
      n * Nat.pow 2 (52 - n.log2) < Nat.pow 2 53 := by
  simp only [Nat.pow_eq] at short ⊢
  have length : n.log2 < 24 := (Nat.log2_lt nonzero).mpr short
  have sum : n.log2 + (52 - n.log2) = 52 := by omega
  have next : n.log2 + 1 + (52 - n.log2) = 53 := by omega
  constructor
  · calc 2 ^ 52 = 2 ^ n.log2 * 2 ^ (52 - n.log2) := by rw [← Nat.pow_add, sum]
      _ ≤ n * 2 ^ (52 - n.log2) := Nat.mul_le_mul_right _ (Nat.log2_self_le nonzero)
  · calc n * 2 ^ (52 - n.log2) < 2 ^ (n.log2 + 1) * 2 ^ (52 - n.log2) :=
          Nat.mul_lt_mul_of_pos_right Nat.lt_log2_self (Nat.two_pow_pos _)
      _ = 2 ^ 53 := by rw [← Nat.pow_add, next]

/-- The pattern of 64 bits for a number of at most 24 bits within the range of the narrower
format. -/
theorem Format.round_double {n : Nat} {exponent : Int} (nonzero : n ≠ 0)
    (short : n < Nat.pow 2 24) (least : -149 ≤ exponent) (most : exponent ≤ 104) :
    Format.double.round n exponent =
      (exponent + n.log2 + 1022).toNat * Nat.pow 2 52 + n * Nat.pow 2 (52 - n.log2) := by
  have length : n.log2 < 24 := (Nat.log2_lt nonzero).mpr short
  have lowest : Format.double.lowestExponent = -1074 := by decide
  have infinity : Format.double.infinity = 2047 * 2 ^ 52 := by decide
  have fraction : Format.double.fractionBits = 52 := rfl
  have place : Format.double.placeOf n exponent = exponent + n.log2 - 52 := by
    simp only [Format.placeOf, lowest, fraction]
    omega
  have before : exponent + n.log2 - 52 ≤ exponent := by omega
  have shift : (exponent - (exponent + n.log2 - 52)).toNat = 52 - n.log2 := by omega
  have field : (exponent + n.log2 - 52 - -1074).toNat = (exponent + n.log2 + 1022).toNat := by
    omega
  have finite : (exponent + n.log2 + 1022).toNat * 2 ^ 52 + n * 2 ^ (52 - n.log2) ≤
      2047 * 2 ^ 52 := by
    have fields : (exponent + n.log2 + 1022).toNat ≤ 1149 := by omega
    have below := Nat.le_of_lt (moved_bounds nonzero short).2
    calc (exponent + n.log2 + 1022).toNat * 2 ^ 52 + n * 2 ^ (52 - n.log2)
        ≤ 1149 * 2 ^ 52 + 2 ^ 53 := Nat.add_le_add (Nat.mul_le_mul_right _ fields) below
      _ ≤ 2047 * 2 ^ 52 := by decide
  simp only [Format.round, nonzero, ↓reduceIte, place, before, shift, lowest, field, infinity,
    fraction, Nat.pow_eq, Nat.min_eq_left finite]

/-- The value of such a pattern: the same number, its first bit moved to the front. -/
theorem Format.value_double {field kept : Nat} (lower : Nat.pow 2 52 ≤ kept)
    (upper : kept < Nat.pow 2 53) :
    Format.double.value (field * Nat.pow 2 52 + kept) = (kept, (field : Int) - 1074) := by
  simp only [Nat.pow_eq] at lower upper ⊢
  have lowest : Format.double.lowestExponent = -1074 := by decide
  have fraction : Format.double.fractionBits = 52 := rfl
  have quotient : (field * 2 ^ 52 + kept) / 2 ^ 52 = field + 1 := by omega
  have remainder : (field * 2 ^ 52 + kept) % 2 ^ 52 = kept - 2 ^ 52 := by omega
  have nonzero : field + 1 ≠ 0 := by omega
  have whole : 2 ^ 52 + (kept - 2 ^ 52) = kept := by omega
  simp only [Format.value, fraction, Nat.pow_eq, quotient, remainder, nonzero, ↓reduceIte, lowest,
    whole, Prod.mk.injEq, true_and]
  omega

/-- Narrowing cuts off the zeros that widening put behind the number. -/
theorem Format.round_single {n : Nat} {exponent : Int} (nonzero : n ≠ 0)
    (short : n < Nat.pow 2 24) (least : -149 ≤ exponent)
    (full : Nat.pow 2 23 ≤ n ∨ exponent = -149) :
    Format.single.round (n * Nat.pow 2 (52 - n.log2)) (exponent + n.log2 - 52) =
      min ((exponent + 149).toNat * Nat.pow 2 23 + n) Format.single.infinity := by
  obtain ⟨lower, upper⟩ := moved_bounds nonzero short
  simp only [Nat.pow_eq] at short full lower upper ⊢
  have length : n.log2 < 24 := (Nat.log2_lt nonzero).mpr short
  have lowest : Format.single.lowestExponent = -149 := by decide
  have fraction : Format.single.fractionBits = 23 := rfl
  have moved : n * 2 ^ (52 - n.log2) ≠ 0 := by omega
  have front : (n * 2 ^ (52 - n.log2)).log2 = 52 := (Nat.log2_eq_iff moved).mpr ⟨lower, upper⟩
  have place : Format.single.placeOf (n * 2 ^ (52 - n.log2)) (exponent + n.log2 - 52) =
      exponent := by
    simp only [Format.placeOf, lowest, front, fraction]
    rcases full with full | full
    · have : 23 ≤ n.log2 := (Nat.le_log2 nonzero).mpr full
      omega
    · omega
  have above : ¬ exponent ≤ exponent + n.log2 - 52 := by omega
  have shift : (exponent - (exponent + n.log2 - 52)).toNat = 52 - n.log2 := by omega
  have back : exponent - -149 = exponent + 149 := by omega
  have halved : Format.halve (n * 2 ^ (52 - n.log2)) (52 - n.log2) = n :=
    Format.halve_mul n (52 - n.log2)
  simp only [Format.round, moved, ↓reduceIte, place, above, shift, lowest, back, halved, fraction,
    Nat.pow_eq]

/-- The value of a finite pattern of 32 bits: at most 24 bits, and fewer only at the lowest
exponent. -/
theorem Format.value_single {pattern : Nat} (finite : pattern < Format.single.infinity)
    (nonzero : pattern ≠ 0) :
    ∃ n exponent, Format.single.value pattern = (n, exponent) ∧ n ≠ 0 ∧ n < Nat.pow 2 24 ∧
      -149 ≤ exponent ∧ exponent ≤ 104 ∧ (Nat.pow 2 23 ≤ n ∨ exponent = -149) ∧
      (exponent + 149).toNat * Nat.pow 2 23 + n = pattern := by
  simp only [Nat.pow_eq]
  have infinity : Format.single.infinity = 255 * 2 ^ 23 := by decide
  have lowest : Format.single.lowestExponent = -149 := by decide
  have fraction : Format.single.fractionBits = 23 := rfl
  rw [infinity] at finite
  by_cases subnormal : pattern / 2 ^ 23 = 0
  · refine ⟨pattern % 2 ^ 23, -149, ?_, by omega, by omega, by omega, by omega, Or.inr rfl,
      by omega⟩
    simp only [Format.value, fraction, Nat.pow_eq, subnormal, ↓reduceIte, lowest]
  · refine ⟨2 ^ 23 + pattern % 2 ^ 23, -149 + ((pattern / 2 ^ 23 : Nat) : Int) - 1, ?_, by omega,
      by omega, by omega, by omega, Or.inl (by omega), by omega⟩
    simp only [Format.value, fraction, Nat.pow_eq, subnormal, ↓reduceIte, lowest]

/-- A finite pattern of 32 bits is rounded to a finite pattern of 64 bits that is rounded back to
it. -/
theorem Format.round_value_round_value {pattern : Nat}
    (finite : pattern < Format.single.infinity) :
    let wide := Format.double.round (Format.single.value pattern).1
      (Format.single.value pattern).2
    wide < Format.double.infinity ∧
      Format.single.round (Format.double.value wide).1 (Format.double.value wide).2 = pattern := by
  have infinity : Format.single.infinity = 255 * 2 ^ 23 := by decide
  have wideInfinity : Format.double.infinity = 2047 * 2 ^ 52 := by decide
  by_cases zero : pattern = 0
  · subst zero
    decide
  obtain ⟨n, exponent, value, nonzero, short, least, most, full, whole⟩ :=
    Format.value_single finite zero
  obtain ⟨lower, upper⟩ := moved_bounds nonzero short
  have length : n.log2 < 24 := (Nat.log2_lt nonzero).mpr short
  have moved : ((exponent + n.log2 + 1022).toNat : Int) - 1074 = exponent + n.log2 - 52 := by
    omega
  simp only [value, Format.round_double nonzero short least most,
    Format.value_double lower upper, moved]
  constructor
  · simp only [Nat.pow_eq] at short upper ⊢
    omega
  · rw [Format.round_single nonzero short least full, whole]
    omega

/-- The sign and the rest of a pattern of 64 bits that is put together. -/
theorem Double.ofMagnitude_parts (negative : Bool) (magnitude : Nat)
    (small : magnitude < Format.double.signWeight) :
    (Double.ofMagnitude negative magnitude).magnitude = magnitude ∧
      (Double.ofMagnitude negative magnitude).isNegative = negative := by
  have weight : Format.double.signWeight = 2 ^ 63 := by decide
  rw [weight] at small
  cases negative with
  | false =>
      have bits : (UInt64.ofNat magnitude).toNat = magnitude := by
        rw [UInt64.toNat_ofNat']
        omega
      constructor
      · simp only [Double.ofMagnitude, Double.magnitude, Bool.false_eq_true, ↓reduceIte,
          Nat.zero_add, bits, weight]
        omega
      · simp only [Double.ofMagnitude, Double.isNegative, Bool.false_eq_true, ↓reduceIte,
          Nat.zero_add, decide_eq_false_iff_not, UInt64.le_iff_toNat_le, bits]
        simp only [UInt64.reduceToNat]
        omega
  | true =>
      have bits : (UInt64.ofNat (2 ^ 63 + magnitude)).toNat = 2 ^ 63 + magnitude := by
        rw [UInt64.toNat_ofNat']
        omega
      constructor
      · simp only [Double.ofMagnitude, Double.magnitude, ↓reduceIte, weight, bits]
        omega
      · simp only [Double.ofMagnitude, Double.isNegative, ↓reduceIte, weight, decide_eq_true_eq,
          UInt64.le_iff_toNat_le, bits]
        simp only [UInt64.reduceToNat]
        omega

/-- A pattern of 32 bits is its sign and the rest. -/
theorem Single.ofMagnitude_self (x : Single) :
    Single.ofMagnitude x.isNegative x.magnitude = x := by
  have weight : Format.single.signWeight = 2 ^ 31 := by decide
  have bounded := x.bits.toNat_lt
  obtain ⟨bits⟩ := x
  apply congrArg Single.mk
  apply UInt32.toNat_inj.mp
  rw [UInt32.toNat_ofNat']
  simp only [Single.isNegative, Single.magnitude, weight, decide_eq_true_eq,
    UInt32.le_iff_toNat_le]
  simp only [UInt32.reduceToNat]
  simp only at bounded
  split <;> omega

theorem Single.magnitude_lt (x : Single) : x.magnitude < Format.single.signWeight :=
  Nat.mod_lt _ (by decide)

/-- The part of a pattern of 32 bits without its sign. -/
theorem Single.magnitude_ofMagnitude (negative : Bool) {magnitude : Nat}
    (small : magnitude < Format.single.signWeight) :
    (Single.ofMagnitude negative magnitude).magnitude = magnitude := by
  have weight : Format.single.signWeight = 2 ^ 31 := by decide
  rw [weight] at small
  simp only [Single.ofMagnitude, Single.magnitude, weight, UInt32.toNat_ofNat']
  split <;> omega

/-- What is no number comes back marked as quiet, its payload kept. -/
theorem narrow_widen_of_isNaN {x : Single} (nan : x.isNaN = true) :
    x.widen.narrow = Single.ofMagnitude x.isNegative
      (Format.single.infinity + Format.single.quietBit +
        x.magnitude % Format.single.quietBit) := by
  have weight : Format.double.signWeight = 2 ^ 63 := by decide
  have wide : Format.double.infinity = 2047 * 2 ^ 52 := by decide
  have wideQuiet : Format.double.quietBit = 2 ^ 51 := by decide
  have quietBit : Format.single.quietBit = 2 ^ 22 := by decide
  obtain ⟨magnitude, sign⟩ := Double.ofMagnitude_parts x.isNegative
    (2047 * 2 ^ 52 + 2 ^ 51 + x.magnitude % 2 ^ 22 * 2 ^ 29) (by omega)
  have widened : x.widen = Double.ofMagnitude x.isNegative
      (2047 * 2 ^ 52 + 2 ^ 51 + x.magnitude % 2 ^ 22 * 2 ^ 29) := by
    simp only [Single.widen, nan, ↓reduceIte, wide, wideQuiet, Nat.pow_eq]
  have still : x.widen.isNaN = true := by
    simp only [widened, Double.isNaN, magnitude, wide, decide_eq_true_eq]
    omega
  have payload : (2047 * 2 ^ 52 + 2 ^ 51 + x.magnitude % 2 ^ 22 * 2 ^ 29) % 2 ^ 51 / 2 ^ 29 =
      x.magnitude % 2 ^ 22 := by omega
  simp only [Double.narrow, still, ↓reduceIte, Nat.pow_eq]
  rw [widened, magnitude, sign, quietBit, payload]

/-- What is no number stays none. -/
theorem isNaN_narrow_widen {x : Single} (nan : x.isNaN = true) : x.widen.narrow.isNaN = true := by
  have infinity : Format.single.infinity = 255 * 2 ^ 23 := by decide
  have quietBit : Format.single.quietBit = 2 ^ 22 := by decide
  have weight : Format.single.signWeight = 2 ^ 31 := by decide
  rw [narrow_widen_of_isNaN nan, Single.isNaN, infinity, quietBit,
    Single.magnitude_ofMagnitude _ (by omega), decide_eq_true_eq]
  omega

/-- **Narrowing gives back what was widened.** -/
theorem narrow_widen {x : Single} (number : x.isNaN = false) : x.widen.narrow = x := by
  have weight : Format.double.signWeight = 2 ^ 63 := by decide
  have wide : Format.double.infinity = 2047 * 2 ^ 52 := by decide
  have infinity : Format.single.infinity = 255 * 2 ^ 23 := by decide
  have atMost : x.magnitude ≤ 255 * 2 ^ 23 := by
    simpa only [Single.isNaN, infinity, decide_eq_false_iff_not, Nat.not_lt] using number
  by_cases infinite : x.isInfinite = true
  · have equal : x.magnitude = 255 * 2 ^ 23 := by
      simpa only [Single.isInfinite, infinity, beq_iff_eq] using infinite
    obtain ⟨magnitude, sign⟩ := Double.ofMagnitude_parts x.isNegative (2047 * 2 ^ 52) (by omega)
    have widened : x.widen = Double.ofMagnitude x.isNegative (2047 * 2 ^ 52) := by
      simp only [Single.widen, number, infinite, Bool.false_eq_true, ↓reduceIte, wide]
    have noNaN : x.widen.isNaN = false := by
      simp only [widened, Double.isNaN, magnitude, wide, decide_eq_false_iff_not]
      omega
    have still : x.widen.isInfinite = true := by
      simp only [widened, Double.isInfinite, magnitude, wide, beq_self_eq_true]
    simp only [Double.narrow, noNaN, still, Bool.false_eq_true, ↓reduceIte]
    rw [widened, sign, infinity, ← equal, Single.ofMagnitude_self]
  · have finite : x.isInfinite = false := Bool.eq_false_iff.mpr infinite
    have below : x.magnitude < Format.single.infinity := by
      have different : x.magnitude ≠ 255 * 2 ^ 23 := by
        simpa only [Single.isInfinite, infinity, beq_iff_eq] using infinite
      omega
    obtain ⟨small, back⟩ := Format.round_value_round_value below
    obtain ⟨magnitude, sign⟩ := Double.ofMagnitude_parts x.isNegative
      (Format.double.round (Format.single.value x.magnitude).1
        (Format.single.value x.magnitude).2) (by omega)
    have widened : x.widen = Double.ofMagnitude x.isNegative
        (Format.double.round (Format.single.value x.magnitude).1
          (Format.single.value x.magnitude).2) := by
      simp only [Single.widen, number, finite, Bool.false_eq_true, ↓reduceIte]
    have noNaN : x.widen.isNaN = false := by
      simp only [widened, Double.isNaN, magnitude, wide, decide_eq_false_iff_not]
      omega
    have still : x.widen.isInfinite = false := by
      simp only [widened, Double.isInfinite, magnitude, wide, beq_eq_false_iff_ne]
      omega
    simp only [Double.narrow, noNaN, still, Bool.false_eq_true, ↓reduceIte]
    rw [widened, magnitude, sign, back, Single.ofMagnitude_self]

/-- Narrowing what is no number marks it as quiet. -/
theorem quiet_narrow {x : Double} (nan : x.narrow.isNaN = true) :
    Format.single.quietBit ≤ x.narrow.magnitude % Nat.pow 2 Format.single.fractionBits := by
  have infinity : Format.single.infinity = 255 * 2 ^ 23 := by decide
  have quietBit : Format.single.quietBit = 2 ^ 22 := by decide
  have weight : Format.single.signWeight = 2 ^ 31 := by decide
  have fraction : Nat.pow 2 Format.single.fractionBits = 2 ^ 23 := rfl
  rw [quietBit, fraction]
  unfold Double.narrow at nan ⊢
  split at nan
  next number =>
    have payload : x.magnitude % 2 ^ 51 / 2 ^ 29 < 2 ^ 22 := by omega
    simp only [number, ↓reduceIte, infinity, quietBit, Nat.pow_eq]
    rw [Single.magnitude_ofMagnitude _ (by omega)]
    omega
  next number =>
    have least {magnitude : Nat} (atMost : magnitude ≤ 255 * 2 ^ 23) :
        (Single.ofMagnitude x.isNegative magnitude).isNaN = false := by
      rw [Single.isNaN, infinity, Single.magnitude_ofMagnitude _ (by omega),
        decide_eq_false_iff_not]
      omega
    split at nan
    · rw [infinity, least (Nat.le_refl _)] at nan
      cases nan
    · rw [least] at nan
      · cases nan
      · unfold Format.round
        split
        · omega
        · rw [← infinity]
          exact Nat.min_le_right ..

/-- **A narrowed pattern survives being widened and narrowed again**, whether or not it is a
number. -/
theorem narrow_widen_narrow (x : Double) : x.narrow.widen.narrow = x.narrow := by
  by_cases nan : x.narrow.isNaN = true
  · have infinity : Format.single.infinity = 255 * 2 ^ 23 := by decide
    have quietBit : Format.single.quietBit = 2 ^ 22 := by decide
    have weight : Format.single.signWeight = 2 ^ 31 := by decide
    have fraction : Nat.pow 2 Format.single.fractionBits = 2 ^ 23 := rfl
    have bounded := x.narrow.magnitude_lt
    have above : 255 * 2 ^ 23 < x.narrow.magnitude := by
      simpa only [Single.isNaN, infinity, decide_eq_true_eq] using nan
    have marked := quiet_narrow nan
    rw [quietBit, fraction] at marked
    have whole : 255 * 2 ^ 23 + 2 ^ 22 + x.narrow.magnitude % 2 ^ 22 = x.narrow.magnitude := by
      omega
    rw [narrow_widen_of_isNaN nan, infinity, quietBit, whole, Single.ofMagnitude_self]
  · exact narrow_widen (Bool.eq_false_iff.mpr nan)

end Relay.Floating
