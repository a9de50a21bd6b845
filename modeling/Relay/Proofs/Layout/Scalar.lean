import Relay.Layout.Decode
import Relay.Proofs.Floating.Widen
import Relay.Proofs.Layout.Steps
import Relay.Proofs.Stream.Carried

/-! # Scalars in a message

An item that is written as a scalar is read back as what the scalar keeps of it
(`Relay.Scalar.stored`, `Relay.Layout.scalar_eq_ok`). Writing what was kept gives the same bytes
again (`Relay.Layout.scalar_stored`). What is read as a scalar fits it, and what fits a scalar can
be written and is kept as it is, up to the numbers that are none and to rotations. -/

namespace Relay

open Relay.Stream Relay.Floating Relay.Layout

namespace Scalar

/-- What stands for a scalar that is left out. -/
def zero : Scalar → Value
  | .bool => .bool false
  | .byte => .byte 0
  | .int16 => .int16 0
  | .uint16 => .uint16 0
  | .int32 => .int32 0
  | .uint32 => .uint32 0
  | .int64 => .int64 0
  | .uint64 => .uint64 0
  | .float => .float .zero
  | .double => .double .zero
  | .vector | .rotation => .vector .zero
  | .angle => .angle .zero
  | .skill32 | .skill => .skill .zero
  | .appearance => .appearance (.ofWord 0)

/-- What a scalar keeps of an item that can be written as one, or of nothing. -/
def stored (type : Scalar) (item : Option Value) : Value :=
  match type with
  | .bool => .bool ((Offer.truth item).getD false)
  | .byte => .byte (.ofNat ((Offer.natural 8 item).getD 0))
  | .int16 => .int16 (.ofInt ((Offer.signed 16 item).getD 0))
  | .uint16 => .uint16 (.ofNat ((Offer.natural 16 item).getD 0))
  | .int32 => .int32 (.ofInt ((Offer.signed 32 item).getD 0))
  | .uint32 => .uint32 (.ofNat ((Offer.natural 32 item).getD 0))
  | .int64 => .int64 (.ofInt ((Offer.signed 64 item).getD 0))
  | .uint64 => .uint64 (.ofNat ((Offer.natural 64 item).getD 0))
  | .float => .float ((Offer.real item).getD .zero).narrow
  | .double => .double ((Offer.real item).getD .zero)
  | .vector => .vector ((Offer.vector item).getD .zero)
  | .rotation =>
    .vector ((((Offer.vector item).getD .zero).map Angle.componentUnits).map
      Angle.componentRadians)
  | .angle => .angle ((Offer.angle item).getD .zero)
  | .skill32 => .skill (.ofNarrow ((Offer.skill item).getD .zero).toNarrow)
  | .skill => .skill (.ofWide ((Offer.skill item).getD .zero).toWide)
  | .appearance => .appearance ((Offer.appearance item).getD (.ofWord 0))

/-- Nothing is kept as zero. -/
theorem stored_none (type : Scalar) : type.stored none = type.zero := by
  have still : (Vector3.zero.map Angle.componentUnits).map Angle.componentRadians =
      Vector3.zero := by
    decide +kernel
  have ahead : Angle.ofRadians .zero = .zero := by
    decide +kernel
  cases type with
  | rotation => exact congrArg Value.vector still
  | angle => exact congrArg Value.angle ahead
  | _ => rfl

/-- Whether a value is what a scalar may be read as. A skill must fit the word that it is in. -/
def Fits : Scalar → Value → Prop
  | .bool, .bool _ => True
  | .byte, .byte _ => True
  | .int16, .int16 _ => True
  | .uint16, .uint16 _ => True
  | .int32, .int32 _ => True
  | .uint32, .uint32 _ => True
  | .int64, .int64 _ => True
  | .uint64, .uint64 _ => True
  | .float, .float _ => True
  | .double, .double _ => True
  | .vector, .vector _ => True
  | .rotation, .vector _ => True
  | .angle, .angle _ => True
  | .skill32, .skill value => Skill.Fits .narrow value
  | .skill, .skill value => Skill.Fits .wide value
  | .appearance, .appearance _ => True
  | _, _ => False

/-- Whether two values of a scalar say the same. Rotations are not compared, and patterns that are
no number count as alike. -/
def Alike (type : Scalar) (x y : Value) : Prop :=
  x = y ∨ (type = .rotation ∧ ∃ v w, x = .vector v ∧ y = .vector w) ∨
    ∃ v w, x = .float v ∧ y = .float w ∧ v.isNaN = true ∧ w.isNaN = true

end Scalar

namespace Layout

namespace Offer

/-- A whole number without a sign is offered if the bits hold it. -/
theorem natural_of_integer? {bits n : Nat} {value : Value} (whole : value.integer? = some (n : Int))
    (small : n < Nat.pow 2 bits) : natural bits (some value) = some n := by
  have inside : (0 : Int) ≤ n ∧ (n : Int) ≤ Nat.pow 2 bits - 1 := by omega
  rw [natural, Offer.whole, Value.integerWithin?, whole, Option.filter_some,
    if_pos (decide_eq_true inside)]
  rfl

/-- A whole number without a sign that is offered is held by the bits. -/
theorem natural_lt {bits n : Nat} {item : Option Value} (offered : natural bits item = some n) :
    n < Nat.pow 2 bits := by
  have positive : 0 < Nat.pow 2 bits := Nat.two_pow_pos bits
  obtain ⟨m, found, rfl⟩ := Option.map_eq_some_iff.mp offered
  cases item with
  | none =>
      cases found
      exact positive
  | some value =>
      have inside := (Option.filter_eq_some_iff.mp found).2
      simp only [decide_eq_true_eq] at inside
      omega

/-- A whole number with a sign is offered if the bits hold it. -/
theorem signed_of_integer? {bits : Nat} {n : Int} {value : Value} (whole : value.integer? = some n)
    (inside : -Nat.pow 2 (bits - 1) ≤ n ∧ n ≤ Nat.pow 2 (bits - 1) - 1) :
    signed bits (some value) = some n := by
  rw [signed, Offer.whole, Value.integerWithin?, whole, Option.filter_some,
    if_pos (decide_eq_true inside)]

/-- A whole number with a sign that is offered is held by the bits. -/
theorem signed_bounds {bits : Nat} {n : Int} {item : Option Value}
    (offered : signed bits item = some n) :
    -Nat.pow 2 (bits - 1) ≤ n ∧ n ≤ Nat.pow 2 (bits - 1) - 1 := by
  have positive : 0 < Nat.pow 2 (bits - 1) := Nat.two_pow_pos (bits - 1)
  cases item with
  | none =>
      cases offered
      omega
  | some value =>
      have inside := (Option.filter_eq_some_iff.mp offered).2
      simpa only [decide_eq_true_eq] using inside

end Offer

/-- A read whose failure is reported for a path finds what it finds without. -/
theorem reads_within {α : Type} {quiet : Prop} {read : Read α} {message : Bytes}
    {start stop : Nat} {value : α} (found : Reads quiet read message start value stop)
    (path : String) : Reads quiet (Decode.within path read) message start value stop := by
  intro remarks
  obtain ⟨later, result, silent⟩ := found remarks
  refine ⟨later, ?_, silent⟩
  rw [Decode.within, result]

section

variable {α β : Type} {writer : Writer} {result : Unit × Writer}

/-- What is drawn and carried is read back. -/
theorem draws_carried {draw : Encode α} {offer : Option α} {write : Writer → α → Writer}
    {read : Read β} {width : Nat} {becomes : α → β} {value : Value} (wrap : β → Value)
    (draws : Draws draw offer) (carried : Carried write read width becomes)
    (same : ∀ taken, offer = some taken → value = wrap (becomes taken))
    (found : (draw >>= fun taken => Encode.write fun writer => write writer taken) writer =
      .ok result) :
    ∃ run : List UInt8, run.length = width ∧ result = ((), writer.put run) ∧
      ∀ message place, Holds message place run → ∀ path,
        Reads True (Decode.within path (wrap <$> read)) message place value (place + width) := by
  obtain ⟨taken, offered, rfl⟩ := (draws.write fun taken writer => write writer taken).mp found
  obtain ⟨run, length, written, reads⟩ := carried taken
  refine ⟨run, length, by rw [written], ?_⟩
  intro message place holds path
  rw [same taken offered]
  exact reads_within ((reads message place holds).map wrap) path

/-- A number without a sign is carried in as many bits as are offered. -/
theorem carried_natural (width : Nat) (wrap : Nat → β)
    (cut : ∀ n, wrap (n % Nat.pow 256 width) = wrap n) :
    Carried (fun writer n => writer.number width n) (wrap <$> Read.number width) width wrap :=
  ((Carried.number width).map id wrap).congr cut

end

variable {writer : Writer} {result : Unit × Writer} {type : Scalar} {item : Option Value}
  {path : String}

/-- **An item that is written as a scalar is a run of the width of the scalar**, in which what the
scalar keeps of the item is read. -/
theorem scalar_eq_ok (found : Encode.scalar type item path writer = .ok result) :
    ∃ run : List UInt8, run.length = type.width ∧ result = ((), writer.put run) ∧
      ∀ message place, Holds message place run → ∀ path,
        Reads True (Decode.scalar type path) message place (type.stored item)
          (place + type.width) := by
  cases type with
  | bool =>
      refine draws_carried Value.bool (draws_truth _ _ _) Carried.bool ?_ found
      intro taken offered
      rw [Scalar.stored, offered]
      rfl
  | byte =>
      refine draws_carried Value.byte (draws_natural _ _ _ _)
        (carried_natural 1 UInt8.ofNat fun n => UInt8.ofNat_mod_size) ?_ found
      intro taken offered
      rw [Scalar.stored, offered]
      rfl
  | int16 =>
      refine draws_carried Value.int16 (draws_signed _ _ _ _)
        (Carried.int16.before Int16.ofInt) ?_ found
      intro taken offered
      rw [Scalar.stored, offered]
      rfl
  | uint16 =>
      refine draws_carried Value.uint16 (draws_natural _ _ _ _)
        (carried_natural 2 UInt16.ofNat fun n => UInt16.ofNat_mod_size) ?_ found
      intro taken offered
      rw [Scalar.stored, offered]
      rfl
  | int32 =>
      refine draws_carried Value.int32 (draws_signed _ _ _ _)
        (Carried.int32.before Int32.ofInt) ?_ found
      intro taken offered
      rw [Scalar.stored, offered]
      rfl
  | uint32 =>
      refine draws_carried Value.uint32 (draws_natural _ _ _ _)
        (carried_natural 4 UInt32.ofNat fun n => UInt32.ofNat_mod_size) ?_ found
      intro taken offered
      rw [Scalar.stored, offered]
      rfl
  | int64 =>
      refine draws_carried Value.int64 (draws_signed _ _ _ _)
        (Carried.int64.before Int64.ofInt) ?_ found
      intro taken offered
      rw [Scalar.stored, offered]
      rfl
  | uint64 =>
      refine draws_carried Value.uint64 (draws_natural _ _ _ _)
        (carried_natural 8 UInt64.ofNat fun n => UInt64.ofNat_mod_size) ?_ found
      intro taken offered
      rw [Scalar.stored, offered]
      rfl
  | float =>
      refine draws_carried Value.float (draws_number _ _ _)
        (Carried.single.before Double.narrow) ?_ found
      intro taken offered
      rw [Scalar.stored, offered]
      rfl
  | double =>
      refine draws_carried Value.double (draws_number _ _ _) Carried.double ?_ found
      intro taken offered
      rw [Scalar.stored, offered]
      rfl
  | vector =>
      refine draws_carried Value.vector (draws_vector _ _ _) Carried.vector ?_ found
      intro taken offered
      rw [Scalar.stored, offered]
      rfl
  | rotation =>
      refine draws_carried Value.vector (draws_vector _ _ _) Carried.rotation ?_ found
      intro taken offered
      rw [Scalar.stored, offered]
      rfl
  | angle =>
      refine draws_carried Value.angle (draws_angle _ _ _) Carried.angle ?_ found
      intro taken offered
      rw [Scalar.stored, offered]
      rfl
  | skill32 =>
      refine draws_carried Value.skill (draws_skill _ _ _) Carried.skill32 ?_ found
      intro taken offered
      rw [Scalar.stored, offered]
      rfl
  | skill =>
      refine draws_carried Value.skill (draws_skill _ _ _) Carried.skill ?_ found
      intro taken offered
      rw [Scalar.stored, offered]
      rfl
  | appearance =>
      refine draws_carried Value.appearance (draws_appearance _ _ _) Carried.appearance ?_ found
      intro taken offered
      rw [Scalar.stored, offered]
      rfl

/-- What is offered in the place of an item, and writes the same, is written the same. -/
theorem draws_again {α : Type} {draw again : Encode α} {offer other : Option α}
    (write : α → Writer → Writer) (draws : Draws draw offer) (drawsAgain : Draws again other)
    (same : ∀ taken, offer = some taken → ∃ instead, other = some instead ∧
      write instead = write taken)
    (found : (draw >>= fun taken => Encode.write (write taken)) writer = .ok result) :
    (again >>= fun taken => Encode.write (write taken)) writer = .ok result := by
  obtain ⟨taken, offered, rfl⟩ := (draws.write write).mp found
  obtain ⟨instead, present, equal⟩ := same taken offered
  exact (drawsAgain.write write).mpr ⟨instead, present, by rw [equal]⟩

/-- **What a scalar kept is written as the item was.** -/
theorem scalar_stored (straight : type ≠ .rotation)
    (found : Encode.scalar type item path writer = .ok result) :
    Encode.scalar type (some (type.stored item)) path writer = .ok result := by
  cases type with
  | bool =>
      refine draws_again _ (draws_truth _ _ _) (draws_truth _ _ _) ?_ found
      intro taken offered
      rw [Scalar.stored, offered]
      exact ⟨taken, rfl, rfl⟩
  | byte =>
      refine draws_again _ (draws_natural _ _ _ _) (draws_natural _ _ _ _) ?_ found
      intro taken offered
      have small := Offer.natural_lt offered
      rw [Scalar.stored, offered]
      refine ⟨taken, Offer.natural_of_integer? ?_ small, rfl⟩
      change some ((UInt8.ofNat taken).toNat : Int) = some (taken : Int)
      rw [UInt8.toNat_ofNat_of_lt' small]
  | int16 =>
      refine draws_again _ (draws_signed _ _ _ _) (draws_signed _ _ _ _) ?_ found
      intro taken offered
      have bounds := Offer.signed_bounds offered
      rw [Scalar.stored, offered]
      refine ⟨taken, Offer.signed_of_integer? ?_ bounds, rfl⟩
      exact congrArg some (Int16.toInt_ofInt_of_le bounds.1 (Int.lt_of_le_sub_one bounds.2))
  | uint16 =>
      refine draws_again _ (draws_natural _ _ _ _) (draws_natural _ _ _ _) ?_ found
      intro taken offered
      have small := Offer.natural_lt offered
      rw [Scalar.stored, offered]
      refine ⟨taken, Offer.natural_of_integer? ?_ small, rfl⟩
      change some ((UInt16.ofNat taken).toNat : Int) = some (taken : Int)
      rw [UInt16.toNat_ofNat_of_lt' small]
  | int32 =>
      refine draws_again _ (draws_signed _ _ _ _) (draws_signed _ _ _ _) ?_ found
      intro taken offered
      have bounds := Offer.signed_bounds offered
      rw [Scalar.stored, offered]
      refine ⟨taken, Offer.signed_of_integer? ?_ bounds, rfl⟩
      exact congrArg some (Int32.toInt_ofInt_of_le bounds.1 (Int.lt_of_le_sub_one bounds.2))
  | uint32 =>
      refine draws_again _ (draws_natural _ _ _ _) (draws_natural _ _ _ _) ?_ found
      intro taken offered
      have small := Offer.natural_lt offered
      rw [Scalar.stored, offered]
      refine ⟨taken, Offer.natural_of_integer? ?_ small, rfl⟩
      change some ((UInt32.ofNat taken).toNat : Int) = some (taken : Int)
      rw [UInt32.toNat_ofNat_of_lt' small]
  | int64 =>
      refine draws_again _ (draws_signed _ _ _ _) (draws_signed _ _ _ _) ?_ found
      intro taken offered
      have bounds := Offer.signed_bounds offered
      rw [Scalar.stored, offered]
      refine ⟨taken, Offer.signed_of_integer? ?_ bounds, rfl⟩
      exact congrArg some (Int64.toInt_ofInt_of_le bounds.1 (Int.lt_of_le_sub_one bounds.2))
  | uint64 =>
      refine draws_again _ (draws_natural _ _ _ _) (draws_natural _ _ _ _) ?_ found
      intro taken offered
      have small := Offer.natural_lt offered
      rw [Scalar.stored, offered]
      refine ⟨taken, Offer.natural_of_integer? ?_ small, rfl⟩
      change some ((UInt64.ofNat taken).toNat : Int) = some (taken : Int)
      rw [UInt64.toNat_ofNat_of_lt' small]
  | float =>
      refine draws_again _ (draws_number _ _ _) (draws_number _ _ _) ?_ found
      intro taken offered
      rw [Scalar.stored, offered, Option.getD_some]
      refine ⟨taken.narrow.widen, rfl, ?_⟩
      simp only [narrow_widen_narrow]
  | double =>
      refine draws_again _ (draws_number _ _ _) (draws_number _ _ _) ?_ found
      intro taken offered
      rw [Scalar.stored, offered]
      exact ⟨taken, rfl, rfl⟩
  | vector =>
      refine draws_again _ (draws_vector _ _ _) (draws_vector _ _ _) ?_ found
      intro taken offered
      rw [Scalar.stored, offered]
      exact ⟨taken, rfl, rfl⟩
  | rotation => exact absurd rfl straight
  | angle =>
      refine draws_again _ (draws_angle _ _ _) (draws_angle _ _ _) ?_ found
      intro taken offered
      rw [Scalar.stored, offered]
      exact ⟨taken, rfl, rfl⟩
  | skill32 =>
      refine draws_again _ (draws_skill _ _ _) (draws_skill _ _ _) ?_ found
      intro taken offered
      rw [Scalar.stored, offered]
      refine ⟨.ofNarrow taken.toNarrow, rfl, ?_⟩
      simp only [Writer.skill32, Skill.toNarrow_ofNarrow_toNarrow]
  | skill =>
      refine draws_again _ (draws_skill _ _ _) (draws_skill _ _ _) ?_ found
      intro taken offered
      rw [Scalar.stored, offered]
      refine ⟨.ofWide taken.toWide, rfl, ?_⟩
      simp only [Writer.skill, Skill.toWide_ofWide_toWide]
  | appearance =>
      refine draws_again _ (draws_appearance _ _ _) (draws_appearance _ _ _) ?_ found
      intro taken offered
      rw [Scalar.stored, offered]
      exact ⟨taken, rfl, rfl⟩

/-- **What fits a scalar can be written, and is kept as it is.** -/
theorem scalar_of_fits {value : Value} (fits : type.Fits value) :
    (∃ result, Encode.scalar type (some value) path writer = .ok result) ∧
      type.Alike value (type.stored (some value)) := by
  cases type with
  | bool =>
      cases value with
      | bool value => exact ⟨(draws_truth _ _ _).writes rfl _, .inl rfl⟩
      | _ => exact fits.elim
  | byte =>
      cases value with
      | byte value =>
          have offered : Offer.natural 8 (some (.byte value)) = some value.toNat :=
            Offer.natural_of_integer? rfl value.toNat_lt
          refine ⟨(draws_natural _ _ _ _).writes offered _, .inl ?_⟩
          rw [Scalar.stored, offered, Option.getD_some, UInt8.ofNat_toNat]
      | _ => exact fits.elim
  | int16 =>
      cases value with
      | int16 value =>
          have offered : Offer.signed 16 (some (.int16 value)) = some value.toInt :=
            Offer.signed_of_integer? rfl ⟨value.le_toInt, value.toInt_le⟩
          refine ⟨(draws_signed _ _ _ _).writes offered _, .inl ?_⟩
          rw [Scalar.stored, offered, Option.getD_some, Int16.ofInt_toInt]
      | _ => exact fits.elim
  | uint16 =>
      cases value with
      | uint16 value =>
          have offered : Offer.natural 16 (some (.uint16 value)) = some value.toNat :=
            Offer.natural_of_integer? rfl value.toNat_lt
          refine ⟨(draws_natural _ _ _ _).writes offered _, .inl ?_⟩
          rw [Scalar.stored, offered, Option.getD_some, UInt16.ofNat_toNat]
      | _ => exact fits.elim
  | int32 =>
      cases value with
      | int32 value =>
          have offered : Offer.signed 32 (some (.int32 value)) = some value.toInt :=
            Offer.signed_of_integer? rfl ⟨value.le_toInt, value.toInt_le⟩
          refine ⟨(draws_signed _ _ _ _).writes offered _, .inl ?_⟩
          rw [Scalar.stored, offered, Option.getD_some, Int32.ofInt_toInt]
      | _ => exact fits.elim
  | uint32 =>
      cases value with
      | uint32 value =>
          have offered : Offer.natural 32 (some (.uint32 value)) = some value.toNat :=
            Offer.natural_of_integer? rfl value.toNat_lt
          refine ⟨(draws_natural _ _ _ _).writes offered _, .inl ?_⟩
          rw [Scalar.stored, offered, Option.getD_some, UInt32.ofNat_toNat]
      | _ => exact fits.elim
  | int64 =>
      cases value with
      | int64 value =>
          have offered : Offer.signed 64 (some (.int64 value)) = some value.toInt :=
            Offer.signed_of_integer? rfl ⟨value.le_toInt, value.toInt_le⟩
          refine ⟨(draws_signed _ _ _ _).writes offered _, .inl ?_⟩
          rw [Scalar.stored, offered, Option.getD_some, Int64.ofInt_toInt]
      | _ => exact fits.elim
  | uint64 =>
      cases value with
      | uint64 value =>
          have offered : Offer.natural 64 (some (.uint64 value)) = some value.toNat :=
            Offer.natural_of_integer? rfl value.toNat_lt
          refine ⟨(draws_natural _ _ _ _).writes offered _, .inl ?_⟩
          rw [Scalar.stored, offered, Option.getD_some, UInt64.ofNat_toNat]
      | _ => exact fits.elim
  | float =>
      cases value with
      | float value =>
          refine ⟨(draws_number _ _ _).writes rfl _, ?_⟩
          have kept : Scalar.float.stored (some (.float value)) = .float value.widen.narrow := rfl
          rw [kept]
          by_cases nan : value.isNaN = true
          · exact .inr (.inr ⟨_, _, rfl, rfl, nan, isNaN_narrow_widen nan⟩)
          · rw [narrow_widen (Bool.eq_false_iff.mpr nan)]
            exact .inl rfl
      | _ => exact fits.elim
  | double =>
      cases value with
      | double value => exact ⟨(draws_number _ _ _).writes rfl _, .inl rfl⟩
      | _ => exact fits.elim
  | vector =>
      cases value with
      | vector value => exact ⟨(draws_vector _ _ _).writes rfl _, .inl rfl⟩
      | _ => exact fits.elim
  | rotation =>
      cases value with
      | vector value =>
          exact ⟨(draws_vector _ _ _).writes rfl _,
            .inr (.inl ⟨rfl, _, _, rfl, rfl⟩)⟩
      | _ => exact fits.elim
  | angle =>
      cases value with
      | angle value => exact ⟨(draws_angle _ _ _).writes rfl _, .inl rfl⟩
      | _ => exact fits.elim
  | skill32 =>
      cases value with
      | skill value =>
          refine ⟨(draws_skill _ _ _).writes rfl _, .inl ?_⟩
          exact congrArg Value.skill (Skill.ofNarrow_toNarrow fits).symm
      | _ => exact fits.elim
  | skill =>
      cases value with
      | skill value =>
          refine ⟨(draws_skill _ _ _).writes rfl _, .inl ?_⟩
          exact congrArg Value.skill (Skill.ofWide_toWide fits).symm
      | _ => exact fits.elim
  | appearance =>
      cases value with
      | appearance value => exact ⟨(draws_appearance _ _ _).writes rfl _, .inl rfl⟩
      | _ => exact fits.elim

/-- A value that fits a scalar is stored as one that says the same. -/
theorem alike_stored {value : Value} (fits : type.Fits value) :
    type.Alike value (type.stored (some value)) := by
  have written : (∃ result, Encode.scalar type (some value) "" .empty = .ok result) ∧
      type.Alike value (type.stored (some value)) := scalar_of_fits fits
  exact written.2

end Layout

end Relay
