import Relay.Proofs.Layout.Mirrored
import Relay.Proofs.Layout.RoundTrip
import Relay.Proofs.Layout.Writable

/-! # Messages are written again

What is read of a message that was written is written as the very same message, whether or not the
object conformed to the layout (`Relay.Layout.encode_decode`). What is read of any message at all
can be written, and is read again as it was (`Relay.Layout.encode_of_decode`). -/

namespace Relay.Layout

open Relay.Stream

variable {layout : Layout} {code : UInt16} {object : Object} {bytes message : Bytes}

/-- What a layout makes of an object is written as the object was. -/
theorem encode_completed (named : WellNamed layout.fields)
    (straight : areStraight layout.fields = true)
    (encoded : layout.encode code object = .ok bytes) :
    layout.encode code ⟨completedAll (some object) layout.fields⟩ = .ok bytes := by
  have whole : Mirrors (layout.writeMessage code object)
      (layout.writeMessage code ⟨completedAll (some object) layout.fields⟩) Eq := by
    unfold writeMessage
    have level : MirrorsLevel "" "" (some object) _ layout.fields :=
      mirrors_encodeFields named straight "" "" (under_completedAll named _)
    refine .after fun _ => (level ⟨[]⟩ [] (by simp)).bind fun left _ same => ?_
    subst same
    exact .refl _
  rw [encode] at encoded ⊢
  split at encoded
  next writer wrote =>
    obtain ⟨_, again, _⟩ := whole .empty () writer wrote
    cases encoded
    rw [StateT.run, again]
  next => cases encoded

/-- **A message that is read is written as it was.** What is read conforms to the layout. Of what
the object left out a scalar is zero, a text, a run of bytes and an array are empty, and an object
is completed in the same way. -/
theorem encode_decode (sound : layout.check = .ok ()) (ahead : headersAhead layout = true)
    (straight : areStraight layout.fields = true)
    (plain : FieldsThroughout IsPlain object.fields)
    (encoded : layout.encode code object = .ok bytes) :
    ∃ again, (layout.decode bytes).1 = .ok again ∧ Conforms layout.fields again.fields ∧
      again.fields = completedAll (some object) layout.fields ∧
      (∀ field ∈ layout.fields, field.isHeader = false → object.get? field.name = none →
        again.get? field.name = some (blank field)) ∧
      layout.encode code again = .ok bytes := by
  have named := wellNamed_of_check sound
  have decoded := decode_encode_completed named plain (allAddressed_of_areAhead ahead) encoded
  obtain ⟨_, length, _⟩ :=
    @encode_inOrder layout code object bytes True named plain (allAddressed_of_areAhead ahead)
      encoded
  have small : bytes.size < UInt16.size := length ▸ UInt16.toNat_lt _
  refine ⟨_, decoded, (received_of_decode named small decoded).conforms, rfl, ?_,
    encode_completed named straight encoded⟩
  intro field member holds absent
  have present := under_completedAll named (some object) field member holds
  have nothing : under (some object) field = none := absent
  rw [nothing, completed_none] at present
  exact present

/-- An object without a name, with a key of no field, out of order, and with numbers of other
kinds. -/
def looseObject : Object :=
  ⟨[("more", .bool true), ("open", .uint16 5),
    ("camp", .object [("folk", .array [.object [("skill", .byte 3)]])])]⟩

/-- The message with the loose object. -/
def looseMessage : Bytes :=
  #[29, 0, 44, 1, 14, 0, 0, 0, 0, 0, 1, 0, 16, 0, 0, 0, 16, 0, 0, 0, 28, 0, 0, 0, 3, 0, 0, 4, 1]

theorem encode_decode_loose :
    ∃ again, (sampleLayout.decode looseMessage).1 = .ok again ∧
      again.get? "name" = some (.string "") ∧
      sampleLayout.encode 300 again = .ok looseMessage := by
  have encoded : sampleLayout.encode 300 looseObject = .ok looseMessage :=
    eq_ok_of_toOption (by decide +kernel)
  have plain : FieldsThroughout IsPlain looseObject.fields := by
    simp [looseObject, FieldsThroughout, Throughout, ItemsThroughout, IsPlain]
  obtain ⟨again, decoded, _, _, absent, written⟩ := encode_decode rfl rfl rfl plain encoded
  have name : again.get? "name" = some (.string "") :=
    absent (.string "name") (by simp [sampleLayout, placeHeaders, allWithElementHeaders,
      withElementHeaders]) rfl rfl
  exact ⟨again, decoded, name, written⟩

/-- **What is read of any message can be written and read again.** Whatever the bytes of a message
are, and wherever the headers of the layout stand, an object that is read is written, unless the
message becomes too large, and is read again as it was: the same everywhere but in rotations and
in patterns that are no number. -/
theorem encode_of_decode (sound : layout.check = .ok ()) (small : message.size ≤ 65535)
    (decoded : (layout.decode message).1 = .ok object) :
    (∃ length, layout.encode code object = .error (.tooLarge length)) ∨
      ∃ bytes again, layout.encode code object = .ok bytes ∧
        (layout.decode bytes).1 = .ok again ∧
        AlikeAll layout.fields object.fields again.fields ∧
        (areStraight layout.fields = true → FieldsThroughout IsNumber object.fields →
          again = object) := by
  have named := wellNamed_of_check sound
  have received := received_of_decode named (Nat.lt_succ_of_le small) decoded
  have present := get?_of_conforms named received.conforms
  rcases encode_of_received named received code with ⟨bytes, encoded⟩ | tooLarge
  · right
    have plain : FieldsThroughout IsPlain object.fields :=
      received.writable.imp fun _ => isPlain_of_isWritable
    have found := decode_encode_completed named plain (received.addressed (some object) present)
      encoded
    have alike : AlikeAll layout.fields object.fields
        (completedAll (some object) layout.fields) :=
      alike_completedAll named received.conforms present
    refine ⟨bytes, _, encoded, found, alike, fun straight numbers => ?_⟩
    rw [← eq_of_alikeAll straight numbers alike]
  · exact .inl tooLarge

/-- A message with gaps, a payload out of order, half a character and bytes behind its end. -/
def strayMessage : Bytes :=
  #[60, 0, 44, 1, 30, 0, 1, 0, 20, 0, 1, 0, 99, 0, 255, 255, 255, 255, 255, 255, 20, 0, 40, 0, 1, 2,
    255, 255, 255, 255, 0, 216, 0, 0, 255, 255, 255, 255, 255, 255, 40, 0, 0, 0, 52, 0, 1, 0, 255,
    255, 255, 255, 9, 7, 1, 2, 3]

theorem encode_of_decode_stray :
    ∃ object, (sampleLayout.decode strayMessage).1 = .ok object ∧
      ((∃ length, sampleLayout.encode 300 object = .error (.tooLarge length)) ∨
        ∃ bytes again, sampleLayout.encode 300 object = .ok bytes ∧
          (sampleLayout.decode bytes).1 = .ok again ∧
          AlikeAll sampleLayout.fields object.fields again.fields ∧
          (areStraight sampleLayout.fields = true → FieldsThroughout IsNumber object.fields →
            again = object)) := by
  obtain ⟨object, decoded⟩ : ∃ object, (sampleLayout.decode strayMessage).1 = .ok object := by
    have some : (sampleLayout.decode strayMessage).1.toOption.isSome = true := by
      decide +kernel
    obtain ⟨object, found⟩ := Option.isSome_iff_exists.mp some
    exact ⟨object, eq_ok_of_toOption found⟩
  exact ⟨object, decoded, encode_of_decode rfl (by decide) decoded⟩

end Relay.Layout
