import Relay.Proofs.Layout.Adrift
import Relay.Proofs.Layout.Decoded
import Relay.Proofs.Layout.RoundTrip

/-! # Texts and their neighbours

An object is sheltered when the cursor is right wherever a field is read that is not found by its
offset. What is written of it is read as it was, but that every text ends at its first zero
character (`Relay.Layout.decode_encode_sheltered`). In front of a field without an offset such a
character is not harmless (`Relay.Layout.zero_disturbs`). -/

namespace Relay.Layout

open Relay.Stream Relay.Frame.Header

/-- Whether a level is read as it was written, but for its texts, behind the arrays that wait for
their chain. -/
def FollowsLevel (message : Bytes) (base : String) (fields : List Field) : Prop :=
  ∀ (group : List (Field × List Value)) (known : List (HeaderKind × String))
    (headers left : HeaderValues) (object : Option Object) (adrift after : Bool)
    (cursor place stop : Nat), (∀ entry ∈ group, FollowsElement message entry.1) →
    Stands headers known adrift cursor place →
    AllLaid writtenText False message base (group.map (strandLaid headers base)) fields headers
      place (completedAll object fields) left stop →
    driftOfAll known base (group.map endsOf) adrift object fields = some after →
    place ≤ stop ∧ ∃ last,
      AllFollowed message base (group.map (strandRead headers base)) fields headers cursor
        (clippedFields (completedAll object fields)) left last ∧
      Stands left (known ++ headersOn base fields) after last stop

section

variable {message : Bytes} {base name : String} {field : Field} {fields rest : List Field}

/-- An object is followed as its fields are. -/
theorem followsField_object (level : FollowsLevel message (dotted base name) fields) :
    FollowsField message base (.object name fields) := by
  intro known headers left object adrift after cursor place stop stands laid drift
  rw [Laid] at laid
  obtain ⟨inner, own, laid⟩ := laid
  have spelled : ownOf object (.object name fields) = [(name, .object (completedAll
      ((under object (.object name fields)).bind Value.object?) fields))] := rfl
  rw [spelled] at own
  cases own
  rw [driftOf] at drift
  obtain ⟨forth, last, followed, stands⟩ :=
    level [] known headers left _ adrift after cursor place stop (by simp) stands laid drift
  refine ⟨forth, last, ?_, stands⟩
  rw [Followed]
  exact ⟨_, rfl, followed⟩

theorem followsLevel_nil : FollowsLevel message base [] := by
  intro group known headers left object adrift after cursor place stop each stands laid drift
  rw [AllLaid] at laid
  obtain ⟨_, rfl, chained⟩ := laid
  rw [driftOfAll] at drift
  obtain ⟨forth, last, threaded, stands⟩ := threaded_of_chained each stands chained drift
  refine ⟨forth, last, ?_, ?_⟩
  · rw [AllFollowed]
    exact ⟨rfl, rfl, threaded⟩
  · rw [headersOn, List.append_nil]
    exact stands

theorem clippedFields_append (values others : List (String × Value)) :
    clippedFields (values ++ others) = clippedFields values ++ clippedFields others := by
  rw [clippedFields_eq_map, clippedFields_eq_map, clippedFields_eq_map, List.map_append]

/-- An array that may share its chain joins those that wait. -/
theorem followsLevel_mixed (mixed : field.isMixed = true) (element : FollowsElement message field)
    (further : FollowsLevel message base rest) : FollowsLevel message base (field :: rest) := by
  have array := Field.isArray_of_isMixed mixed
  intro group known headers left object adrift after cursor place stop each stands laid drift
  rw [AllLaid, if_pos array, completedAll_array array] at laid
  obtain ⟨items, others, same, count, laid⟩ := laid
  cases same
  rw [if_pos mixed] at laid
  rw [driftOfAll, if_pos array, if_pos mixed] at drift
  obtain ⟨forth, last, followed, stands⟩ := further
    (group ++ [(field, itemsIn (under object field))]) known headers left object adrift after cursor
    place stop (List.forall_mem_append.mpr ⟨each, List.forall_mem_singleton.mpr element⟩) stands
    (by
      rw [List.map_append]
      exact laid)
    (by
      rw [List.map_append]
      exact drift)
  refine ⟨forth, last, ?_, ?_⟩
  · rw [AllFollowed, if_pos array, completedAll_array array]
    rw [List.map_append] at followed
    refine ⟨_, _, rfl, ?_, ?_⟩
    · rw [clippedItems_eq_map, List.length_map]
      exact count
    · rw [if_pos mixed]
      exact followed
  · rw [headersOn, headersIn_array array, List.nil_append]
    exact stands

/-- An array that shares no chain is read behind those that wait. -/
theorem followsLevel_apart (array : field.isArray = true) (plain : field.isMixed = false)
    (element : FollowsElement message field) (further : FollowsLevel message base rest) :
    FollowsLevel message base (field :: rest) := by
  intro group known headers left object adrift after cursor place stop each stands laid drift
  rw [AllLaid, if_pos array, completedAll_array array] at laid
  obtain ⟨items, others, same, count, laid⟩ := laid
  cases same
  rw [plain, if_neg Bool.false_ne_true] at laid
  obtain ⟨start, middle, chained, alone, laid⟩ := laid
  rw [driftOfAll, if_pos array, plain, if_neg Bool.false_ne_true] at drift
  obtain ⟨first, waited, drift⟩ := Option.bind_eq_some_iff.mp drift
  obtain ⟨second, own, drift⟩ := Option.bind_eq_some_iff.mp drift
  obtain ⟨forth, begun, threaded, stands⟩ := threaded_of_chained each stands chained waited
  have mine : ∀ entry ∈ [(field, itemsIn (under object field))], FollowsElement message entry.1 :=
    List.forall_mem_singleton.mpr element
  obtain ⟨ahead, between, single, stands⟩ := threaded_of_chained mine stands alone own
  obtain ⟨onward, last, followed, stands⟩ := further [] known headers left object second after
    between middle stop (by simp) stands laid drift
  refine ⟨by omega, last, ?_, ?_⟩
  · rw [AllFollowed, if_pos array, completedAll_array array]
    refine ⟨_, _, rfl, ?_, ?_⟩
    · rw [clippedItems_eq_map, List.length_map]
      exact count
    · rw [plain, if_neg Bool.false_ne_true]
      exact ⟨begun, between, threaded, single, followed⟩
  · rw [headersOn, headersIn_array array, List.nil_append]
    exact stands

/-- A field that is no array gives as many values as it is completed to. -/
theorem length_of_laid {headers left : HeaderValues} {place stop : Nat} {object : Option Object}
    {own : List (String × Value)}
    (laid : Laid writtenText False message base field headers place own left stop) :
    own.length = (ownOf object field).length := by
  cases field with
  | header kind key =>
      rw [Laid] at laid
      rw [laid.2.2.1]
      rfl
  | scalar name type =>
      rw [Laid] at laid
      obtain ⟨_, _, value, rfl, _⟩ := laid
      rfl
  | string name =>
      rw [Laid] at laid
      obtain ⟨_, _, _, text, rfl, _⟩ := laid
      rfl
  | bytes name =>
      rw [Laid] at laid
      obtain ⟨_, run, rfl, _⟩ := laid
      rfl
  | object name fields =>
      rw [Laid] at laid
      obtain ⟨inner, rfl, _⟩ := laid
      rfl
  | scalars | items => exact laid.elim

/-- A field that is no array is read behind the arrays that wait. -/
theorem followsLevel_single (single : field.isArray = false)
    (own : FollowsField message base field) (further : FollowsLevel message base rest) :
    FollowsLevel message base (field :: rest) := by
  intro group known headers left object adrift after cursor place stop each stands laid drift
  have notArray : ¬ field.isArray = true := Bool.eq_false_iff.mp single
  rw [AllLaid, if_neg notArray, completedAll_cons] at laid
  obtain ⟨held, more, start, middle, between, same, chained, mine, laid⟩ := laid
  obtain ⟨rfl, rfl⟩ := List.append_inj same (length_of_laid mine).symm
  rw [driftOfAll, if_neg notArray] at drift
  obtain ⟨first, waited, drift⟩ := Option.bind_eq_some_iff.mp drift
  obtain ⟨second, found, drift⟩ := Option.bind_eq_some_iff.mp drift
  obtain ⟨forth, begun, threaded, stands⟩ := threaded_of_chained each stands chained waited
  obtain ⟨ahead, ended, read, stands⟩ :=
    own known headers between object first second begun start middle stands mine found
  obtain ⟨onward, last, followed, stands⟩ := further [] (known ++ headersIn base field) between left
    object second after ended middle stop (by simp) stands laid drift
  refine ⟨by omega, last, ?_, ?_⟩
  · rw [AllFollowed, if_neg notArray, completedAll_cons, clippedFields_append]
    exact ⟨_, _, begun, ended, between, rfl, threaded, read, followed⟩
  · rw [headersOn, ← List.append_assoc]
    exact stands

end

mutual

/-- An element of an array is read as it was written, but for its texts. -/
theorem follows_element {message : Bytes} : ∀ field : Field, FollowsElement message field
  | .scalars _ type _ => by
      intro value place stop after _ laid drift
      rw [ElementLaid] at laid
      obtain ⟨rfl, read⟩ := laid
      cases drift
      refine ⟨Nat.le_add_right .., _, ?_, fun _ => rfl⟩
      rw [ElementFollowed, completedElement, clipped_stored]
      exact fun path => (read path).of_quiet
  | .items _ fields _ => by
      intro value place stop after behind laid drift
      rw [ElementLaid] at laid
      obtain ⟨inner, left, same, laid⟩ := laid
      cases same
      rw [driftOfElement] at drift
      have stands : Stands ⟨[]⟩ [] false place place := ⟨fun _ => rfl, behind, by simp⟩
      obtain ⟨forth, last, followed, ends⟩ := follows_fields fields [] [] ⟨[]⟩ left _ false after
        place place stop (by simp) stands laid drift
      refine ⟨forth, last, ?_, ends.right⟩
      rw [ElementFollowed]
      exact ⟨_, left, rfl, followed⟩
  | .header .. | .scalar .. | .string _ | .bytes _ | .object .. => fun _ _ _ _ _ laid => laid.elim

/-- A field that is no array is read as it was written, but for its texts. -/
theorem follows_field {message : Bytes} : ∀ (field : Field) (base : String),
    FollowsField message base field
  | .header kind key, _ => followsField_header kind key
  | .scalar name type, _ => followsField_scalar name type
  | .string name, _ => followsField_string name
  | .bytes name, _ => followsField_bytes name
  | .object _ fields, _ => followsField_object (follows_fields fields)
  | .scalars .., _ | .items .., _ => fun _ _ _ _ _ _ _ _ _ _ laid => laid.elim

/-- **A level is read as it was written, but for its texts**, if the cursor is never adrift where it
matters. -/
theorem follows_fields {message : Bytes} : ∀ (fields : List Field) {base : String},
    FollowsLevel message base fields
  | [], _ => followsLevel_nil
  | field :: rest, base => by
      have further : FollowsLevel message base rest := follows_fields rest
      by_cases array : field.isArray = true
      · have element : FollowsElement message field := follows_element field
        by_cases mixed : field.isMixed = true
        · exact followsLevel_mixed mixed element further
        · exact followsLevel_apart array (Bool.eq_false_iff.mpr mixed) element further
      · exact followsLevel_single (Bool.eq_false_iff.mpr array) (follows_field field base) further

end

variable {layout : Layout} {code : UInt16} {object : Object} {bytes : Bytes}

/-- What was written is read as the layout completes it, with its texts up to their zeros. -/
theorem decode_encode_clipped (named : WellNamed layout.fields)
    (addressed : AllAddressed False [] "" false (some object) layout.fields)
    (encoded : layout.encode code object = .ok bytes) (safe : sheltered layout object = true) :
    (layout.decode bytes).1 =
      .ok ⟨clippedFields (completedAll (some object) layout.fields)⟩ := by
  have placed : FieldsThroughout (IsPlaced writtenText) object.fields :=
    .of_all isPlaced_writtenText object.fields
  obtain ⟨front, _, _, left, laid⟩ :=
    encode_laid named (isPlaced_writtenText (.string "")) placed addressed encoded
  obtain ⟨after, drift⟩ := Option.isSome_iff_exists.mp safe
  have stands : Stands ⟨[]⟩ [] false 4 4 := ⟨fun _ => rfl, Nat.le_refl _, by simp⟩
  obtain ⟨_, last, followed, _⟩ := follows_fields layout.fields [] [] ⟨[]⟩ left (some object) false
    after 4 4 bytes.size (by simp) stands laid drift
  exact (decode_eq_ok named).mpr ⟨front, left, last, followed⟩

/-- **No text disturbs its neighbours in a sheltered object.** What is read of a message is the
object that was written, with each text up to its first zero character; and of two objects that
differ in one text what is read differs in this text at most. -/
theorem decode_encode_sheltered (sound : layout.check = .ok ()) (ahead : headersAhead layout = true)
    (conforms : Conforms layout.fields object.fields)
    (encoded : layout.encode code object = .ok bytes) (safe : sheltered layout object = true) :
    ∃ given, (layout.decode bytes).1 = .ok ⟨clippedFields given⟩ ∧
      AlikeAll layout.fields object.fields given ∧
      (areStraight layout.fields = true → FieldsThroughout IsNumber object.fields →
        given = object.fields) ∧
      ∀ (path : List Descent) (other : Object) (otherCode : UInt16) (otherBytes : Bytes),
        blot path (.object other.fields) = blot path (.object object.fields) →
        layout.encode otherCode other = .ok otherBytes → sheltered layout other = true →
        ∃ found, (layout.decode otherBytes).1 = .ok found ∧
          blot path (.object found.fields) = blot path (.object (clippedFields given)) := by
  have named := wellNamed_of_check sound
  have alike : AlikeAll layout.fields object.fields (completedAll (some object) layout.fields) :=
    alike_completedAll named conforms (get?_of_conforms named conforms)
  refine ⟨_, decode_encode_clipped named (allAddressed_of_areAhead ahead) encoded safe, alike,
    fun straight numbers => (eq_of_alikeAll straight numbers alike).symm, ?_⟩
  intro path other otherCode otherBytes same written sheltered
  exact ⟨_, decode_encode_clipped named (allAddressed_of_areAhead ahead) written sheltered,
    blot_clippedFields same layout.fields⟩

/-- A layout whose texts all stand in front of fields with an offset. -/
def harborLayout : Layout :=
  ⟨placeHeaders [.scalar "mark" .byte, .string "name", .scalars "tags" .uint16 false,
    .string "note"]⟩

/-- An object with a zero character in its name. -/
def harborObject : Object :=
  ⟨[("mark", .byte 7), ("name", .string "a\x00b"), ("tags", .array [.uint16 1, .uint16 2]),
    ("note", .string "end")]⟩

/-- The same object with another name. -/
def renamedObject : Object :=
  ⟨[("mark", .byte 7), ("name", .string "\x00"), ("tags", .array [.uint16 1, .uint16 2]),
    ("note", .string "end")]⟩

theorem decode_encode_sheltered_harbor : ∃ bytes otherBytes found,
    harborLayout.encode 1 harborObject = .ok bytes ∧
      (harborLayout.decode bytes).1 = .ok ⟨clippedFields harborObject.fields⟩ ∧
      harborLayout.encode 1 renamedObject = .ok otherBytes ∧
      (harborLayout.decode otherBytes).1 = .ok found ∧
      blot [.name "name"] (.object found.fields) =
        blot [.name "name"] (.object (clippedFields harborObject.fields)) := by
  have some : (harborLayout.encode 1 harborObject).toOption.isSome = true := by decide +kernel
  obtain ⟨bytes, wrote⟩ := Option.isSome_iff_exists.mp some
  have encoded := eq_ok_of_toOption wrote
  have also : (harborLayout.encode 1 renamedObject).toOption.isSome = true := by decide +kernel
  obtain ⟨otherBytes, rewrote⟩ := Option.isSome_iff_exists.mp also
  have written := eq_ok_of_toOption rewrote
  have tags : ∀ item ∈ [Value.uint16 1, .uint16 2], Scalar.uint16.Fits item := by
    simp [Scalar.Fits]
  have conforms : Conforms harborLayout.fields harborObject.fields := by
    refine .of_header rfl (.of_header rfl (.of_header rfl (.of_header rfl ?_)))
    exact .of_value rfl trivial (.of_value rfl ⟨_, rfl⟩
      (.of_value rfl ⟨_, rfl, tags⟩ (.of_value rfl ⟨_, rfl⟩ rfl)))
  have numbers : FieldsThroughout IsNumber harborObject.fields := by
    simp [harborObject, FieldsThroughout, Throughout, ItemsThroughout, IsNumber]
  obtain ⟨given, decoded, _, same, others⟩ := decode_encode_sheltered rfl rfl conforms encoded
    (by decide +kernel)
  obtain rfl := same rfl numbers
  obtain ⟨found, read, apart⟩ := others [.name "name"] renamedObject 1 otherBytes rfl written
    (by decide +kernel)
  exact ⟨bytes, otherBytes, found, encoded, decoded, written, read, apart⟩

/-- A layout with a text in front of a field without an offset. -/
def openLayout : Layout :=
  ⟨placeHeaders [.string "name", .scalar "mark" .byte]⟩

/-- An object with a zero character in front of a number. -/
def openObject : Object :=
  ⟨[("name", .string "a\x00b"), ("mark", .byte 7)]⟩

/-- A text disturbs the field behind it: the number 7 is read as 98, which is the letter behind the
zero character. -/
theorem zero_disturbs : openLayout.check = .ok () ∧ headersAhead openLayout = true ∧
    Conforms openLayout.fields openObject.fields ∧ areStraight openLayout.fields = true ∧
    FieldsThroughout IsNumber openObject.fields ∧ sheltered openLayout openObject = false ∧
    openObject.get? "mark" = some (.byte 7) ∧ ∃ bytes found,
      openLayout.encode 1 openObject = .ok bytes ∧
      (openLayout.decode bytes).1 = .ok found ∧ found.get? "mark" ≠ some (.byte 7) := by
  have conforms : Conforms openLayout.fields openObject.fields :=
    .of_header rfl (.of_value rfl ⟨_, rfl⟩ (.of_value rfl trivial rfl))
  have numbers : FieldsThroughout IsNumber openObject.fields := by
    simp [openObject, FieldsThroughout, Throughout, IsNumber]
  refine ⟨rfl, rfl, conforms, rfl, numbers, by decide +kernel, rfl, ?_⟩
  have some : (openLayout.encode 1 openObject).toOption.bind (fun bytes =>
      (openLayout.decode bytes).1.toOption.bind fun found =>
        (found.get? "mark").bind Value.integer?) = some 98 := by decide +kernel
  obtain ⟨bytes, wrote, some⟩ := Option.bind_eq_some_iff.mp some
  obtain ⟨found, read, number⟩ := Option.bind_eq_some_iff.mp some
  refine ⟨bytes, found, eq_ok_of_toOption wrote, eq_ok_of_toOption read, fun same => ?_⟩
  rw [same] at number
  cases number

end Relay.Layout
