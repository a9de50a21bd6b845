import Relay.Proofs.Layout.Levels

/-! # Messages are read back

A message that was written stands in order from behind its front to its end
(`Relay.Layout.encode_inOrder`), so that it is read without moving the cursor back or forth, and
without a remark (`Relay.Layout.encode_sequential`). What is read is what the layout makes of the
object; an object that conforms to the layout is read back as it is
(`Relay.Layout.decode_encode`). -/

namespace Relay.Layout

open Relay.Stream Relay.Frame.Header Encode

variable {layout : Layout} {code : UInt16} {object : Object} {bytes : Bytes}

/-- A message is its fields between a reserved length and headers that become zero. -/
theorem encode_eq_ok (encoded : layout.encode code object = .ok bytes) :
    ∃ left middle after,
      encodeFields "" "" (some object) ⟨[]⟩ [] layout.fields
        ((Writer.empty.uint16 0).uint16 code) = .ok (left, middle) ∧
      resolveRest left middle = .ok ((), after) ∧ after.length < UInt16.size ∧
      bytes = (after.resolve ⟨0⟩ (.ofNat after.length)).bytes := by
  rw [encode] at encoded
  split at encoded
  next writer wrote =>
    cases encoded
    obtain ⟨_, _, front, wrote⟩ := bind_eq_ok.mp wrote
    cases write_eq_ok.mp front
    obtain ⟨left, middle, fields, wrote⟩ := bind_eq_ok.mp wrote
    obtain ⟨_, after, rest, wrote⟩ := bind_eq_ok.mp wrote
    obtain ⟨_, _, seen, wrote⟩ := bind_eq_ok.mp wrote
    cases get_eq_ok.mp seen
    split at wrote
    next =>
      obtain ⟨_, _, refused, _⟩ := bind_eq_ok.mp wrote
      exact absurd refused throw_ne_ok
    next short =>
      cases write_eq_ok.mp wrote
      exact ⟨left, middle, after, fields, rest, by omega, rfl⟩
  next => cases encoded

/-- **A message is laid out in order.** Its front holds its length and its code, and its fields are
laid out between the front and the end, each text where its bytes are written. -/
theorem encode_laid {texts : TextPlacement} {quiet : Prop} (named : WellNamed layout.fields)
    (empty : Placed texts "") (placed : FieldsThroughout (IsPlaced texts) object.fields)
    (addressed : AllAddressed quiet [] "" false (some object) layout.fields)
    (encoded : layout.encode code object = .ok bytes) :
    4 ≤ bytes.size ∧ (numberAt bytes 0).toNat = bytes.size ∧ numberAt bytes 2 = code ∧
      ∃ left, AllLaid texts quiet bytes "" [] layout.fields ⟨[]⟩ 4
        (completedAll (some object) layout.fields) left bytes.size := by
  obtain ⟨left, middle, after, fields, rest, short, rfl⟩ := encode_eq_ok encoded
  -- the length is the one slot that the fields find open, and nobody fills it in but the end
  have front : Stretch .empty [] ((Writer.empty.uint16 0).uint16 code) [⟨0⟩] fun message =>
      2 ≤ message.size ∧ Holds message 2 (littleEndian 2 code.toNat) :=
    Stretch.trans .reserve (.put _)
  have placed : ∀ inner ∈ some object, FieldsThroughout (IsPlaced texts) inner.fields := by
    rintro _ ⟨⟩
    exact placed
  have distinct : (targets "" layout.fields ++ []).Nodup := by
    rw [List.append_nil]
    exact nodup_targets named
  obtain ⟨_, passage⟩ := drafts_encodeFields empty named "" "" placed addressed [] ⟨[]⟩ left []
    [⟨0⟩] _ middle .nil distinct (fun _ member => absurd member List.not_mem_nil) fields
  obtain ⟨still, level⟩ := stretch_level passage rest
  have whole := (front.trans level).trans (.resolve ⟨0⟩ (.ofNat after.length))
  have draft : Drafted Writer.empty [] := ⟨rfl, by simp, .nil⟩
  obtain ⟨_, ⟨⟨_, coded⟩, headers, laid⟩, length⟩ :=
    whole.settles draft _ ⟨Nat.le_refl _, fun _ _ _ => rfl⟩
  have atEnd : after.position = after.bytes.size := ((front.trans level).drafted draft).atEnd
  have inside := coded.le_size (List.ne_nil_of_length_pos (by rw [length_littleEndian]; decide))
  rw [length_littleEndian] at inside
  refine ⟨inside, ?_, ?_, headers, ?_⟩
  · rw [length, Writer.resolve_size, UInt16.toNat_ofNat_of_lt' short]
    rfl
  · rw [coded.numberAt, UInt16.ofNat_toNat]
  · rw [Writer.resolve_size, ← atEnd, still]
    exact laid

/-- **A message stands in order**, if no text has a zero character. -/
theorem encode_inOrder {quiet : Prop} (named : WellNamed layout.fields)
    (plain : FieldsThroughout IsPlain object.fields)
    (addressed : AllAddressed quiet [] "" false (some object) layout.fields)
    (encoded : layout.encode code object = .ok bytes) :
    4 ≤ bytes.size ∧ (numberAt bytes 0).toNat = bytes.size ∧ numberAt bytes 2 = code ∧
      ∃ left, AllInOrder quiet bytes "" [] layout.fields ⟨[]⟩ 4
        (completedAll (some object) layout.fields) left bytes.size := by
  have empty : Placed readText "" := placed_readText (by simp)
  obtain ⟨inside, length, coded, left, laid⟩ := encode_laid named empty
    (plain.imp fun _ => isPlaced_readText) addressed encoded
  rw [allLaid_eq_allInOrder] at laid
  exact ⟨inside, length, coded, left, laid⟩

/-- Reading begins behind the front. -/
theorem reads_message {quiet : Prop} {left : HeaderValues} {values : List (String × Value)}
    (named : WellNamed layout.fields) (front : 4 ≤ bytes.size)
    (inOrder : AllInOrder quiet bytes "" [] layout.fields ⟨[]⟩ 4 values left bytes.size) :
    Reads quiet layout.readMessage bytes 0 ⟨values⟩ bytes.size := by
  obtain ⟨_, _, found⟩ := reads_of_allInOrder named "" "" [] ⟨[]⟩ left .empty 4 bytes.size values
    (by simp) (nodup_valueNames named) (Nat.le_refl _) inOrder
  have seek : Reads quiet (Decode.within "" (Read.seek Frame.Header.size)) bytes 0 () 4 := by
    intro remarks
    refine ⟨remarks, ?_, fun _ => rfl⟩
    have inside : ¬ bytes.size < 4 := by omega
    simp only [Decode.within, Read.seek, Frame.Header.size, inside, ↓reduceIte]
  unfold readMessage
  refine .get_bind fun _ => ?_
  have large : ¬ bytes.size < Frame.Header.size := Nat.not_lt.mpr front
  simp only [large, ↓reduceIte]
  exact seek.bind (found.bind (.pure _))

/-- What is read between the ends of a message is decoded. -/
theorem decode_of_reads {quiet : Prop} {values : List (String × Value)}
    (found : Reads quiet layout.readMessage bytes 0 ⟨values⟩ bytes.size) :
    (layout.decode bytes).1 = .ok ⟨values⟩ := by
  obtain ⟨remarks, result, _⟩ := found #[]
  have read : layout.readMessage (.ofBytes bytes) =
      .ok ⟨values⟩ ⟨bytes, bytes.size, remarks⟩ := result
  rw [decode, read]

/-- What was written is read as the layout completes it. -/
theorem decode_encode_completed (named : WellNamed layout.fields)
    (plain : FieldsThroughout IsPlain object.fields)
    (addressed : AllAddressed False [] "" false (some object) layout.fields)
    (encoded : layout.encode code object = .ok bytes) :
    (layout.decode bytes).1 = .ok ⟨completedAll (some object) layout.fields⟩ := by
  obtain ⟨front, _, _, _, inOrder⟩ := encode_inOrder named plain addressed encoded
  exact decode_of_reads (reads_message named front inOrder)

/-- A layout with a text, nested objects, runs of bytes and two arrays that share a chain. -/
def sampleLayout : Layout :=
  ⟨placeHeaders [.string "name",
    .object "camp" [.scalars "marks" .uint16 true,
      .items "folk" [.scalar "skill" .skill32, .bytes "note"] true],
    .scalar "open" .bool]⟩

/-- An object that conforms to the sample layout. -/
def sampleObject : Object :=
  ⟨[("name", .string "elk"),
    ("camp", .object [("marks", .array [.uint16 513, .uint16 2]),
      ("folk", .array [.object [("skill", .skill .zero), ("note", .bytes #[7, 9])]])]),
    ("open", .bool true)]⟩

/-- The message with the sample object. -/
def sampleMessage : Bytes :=
  #[49, 0, 44, 1, 14, 0, 2, 0, 22, 0, 1, 0, 28, 0, 101, 0, 108, 0, 107, 0, 0, 0, 22, 0, 28, 0, 1, 2,
    28, 0, 42, 0, 40, 0, 2, 0, 0, 0, 0, 0, 7, 9, 42, 0, 0, 0, 2, 0, 1]

/-- The sample object is written as the sample message. -/
theorem encode_sample : sampleLayout.encode 300 sampleObject = .ok sampleMessage :=
  eq_ok_of_toOption (by decide +kernel)

/-- The sample object conforms to the sample layout. -/
theorem conforms_sample : Conforms sampleLayout.fields sampleObject.fields := by
  have marks : ∀ item ∈ [Value.uint16 513, .uint16 2], Scalar.uint16.Fits item := by
    simp [Scalar.Fits]
  have folk : ∀ item ∈ [Value.object [("skill", .skill .zero), ("note", .bytes #[7, 9])]],
      ∃ inner, item = .object inner ∧ Conforms
        [.header .offset "note", .header .count "note", .scalar "skill" .skill32, .bytes "note"]
        inner := by
    intro item member
    rw [List.mem_singleton] at member
    have inside : Conforms [.scalar "skill" .skill32, .bytes "note"]
        [("skill", .skill .zero), ("note", .bytes #[7, 9])] :=
      .of_value rfl ⟨by decide, by decide, by decide⟩ (.of_value rfl ⟨_, rfl⟩ rfl)
    exact ⟨_, member, .of_header rfl (.of_header rfl inside)⟩
  refine .of_header rfl (.of_header rfl (.of_header rfl (.of_header rfl (.of_header rfl ?_))))
  refine .of_value rfl ⟨_, rfl⟩ (.of_value rfl ⟨_, rfl, ?_⟩ (.of_value rfl trivial rfl))
  exact .of_value rfl ⟨_, rfl, marks⟩ (.of_value rfl ⟨_, rfl, folk⟩ rfl)

/-- The sample object has no zero character. -/
theorem plain_sample : FieldsThroughout IsPlain sampleObject.fields := by
  simp [sampleObject, FieldsThroughout, Throughout, ItemsThroughout, IsPlain]

/-- **A message is read in sequence.** Its front holds its length and its code. From there to its
end every part begins where the one before it ends, and every offset, every link and every count
says so; hence the cursor is never moved, and nothing is remarked upon. -/
theorem encode_sequential (sound : layout.check = .ok ()) (ahead : headersAhead layout = true)
    (plain : FieldsThroughout IsPlain object.fields)
    (encoded : layout.encode code object = .ok bytes) :
    (numberAt bytes 0).toNat = bytes.size ∧ numberAt bytes 2 = code ∧
      (∃ left, AllInOrder True bytes "" [] layout.fields ⟨[]⟩ 4
        (completedAll (some object) layout.fields) left bytes.size) ∧
      layout.readMessage (.ofBytes bytes) =
        .ok ⟨completedAll (some object) layout.fields⟩ ⟨bytes, bytes.size, #[]⟩ := by
  have named := wellNamed_of_check sound
  obtain ⟨front, length, coded, left, inOrder⟩ :=
    encode_inOrder named plain (allAddressed_of_areAhead ahead) encoded
  obtain ⟨remarks, result, silent⟩ := reads_message named front inOrder #[]
  rw [silent trivial] at result
  exact ⟨length, coded, ⟨left, inOrder⟩, result⟩

theorem encode_sequential_sample :
    (numberAt sampleMessage 0).toNat = 49 ∧ numberAt sampleMessage 2 = 300 ∧
      (∃ left, AllInOrder True sampleMessage "" [] sampleLayout.fields ⟨[]⟩ 4
        (completedAll (some sampleObject) sampleLayout.fields) left 49) ∧
      sampleLayout.readMessage (.ofBytes sampleMessage) =
        .ok ⟨completedAll (some sampleObject) sampleLayout.fields⟩ ⟨sampleMessage, 49, #[]⟩ :=
  encode_sequential rfl rfl plain_sample encode_sample

/-- **An object that conforms is read back.** Its layout has all headers ahead, as every layout has
that is built from fields without headers. -/
theorem decode_encode (sound : layout.check = .ok ()) (ahead : headersAhead layout = true)
    (straight : areStraight layout.fields = true)
    (conforms : Conforms layout.fields object.fields)
    (plain : FieldsThroughout IsPlain object.fields)
    (numbers : FieldsThroughout IsNumber object.fields)
    (encoded : layout.encode code object = .ok bytes) :
    (layout.decode bytes).1 = .ok object ∧
      ∀ fields built, anyHeader fields = false → build fields = .ok built →
        built.check = .ok () ∧ headersAhead built = true := by
  have named := wellNamed_of_check sound
  have found := decode_encode_completed named plain (allAddressed_of_areAhead ahead) encoded
  have complete : completedAll (some object) layout.fields = object.fields :=
    completed_of_conforms named conforms straight numbers
  rw [complete] at found
  exact ⟨found, fun _ _ => headersAhead_of_build⟩

theorem decode_encode_sample :
    (sampleLayout.decode sampleMessage).1 = .ok sampleObject := by
  have numbers : FieldsThroughout IsNumber sampleObject.fields := by
    simp [sampleObject, FieldsThroughout, Throughout, ItemsThroughout, IsNumber]
  exact (decode_encode rfl rfl rfl conforms_sample plain_sample numbers encode_sample).1

end Relay.Layout
