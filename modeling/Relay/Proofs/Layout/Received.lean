import Relay.Proofs.Layout.Addressed
import Relay.Proofs.Layout.Gathered

/-! # What a message can be read as

Whatever the bytes of a message are, an object that is read conforms to the layout, can be counted
in two bytes everywhere, has no text with a zero character, and is found again where it will be
written (`Relay.Layout.received_of_decode`). -/

namespace Relay.Layout

open Relay.Stream

/-- Whether a value can be counted in two bytes, and is no text with a zero character. -/
def IsWritable : Value → Prop
  | .string text => '\x00' ∉ text.toList ∧ (Text.units text.toList).length < UInt16.size
  | .bytes run => run.size < UInt16.size
  | .array items => items.length < UInt16.size
  | _ => True

/-- A text that can be written has no zero character. -/
theorem isPlain_of_isWritable {value : Value} (writable : IsWritable value) : IsPlain value := by
  cases value with
  | string text => exact writable.1
  | _ => trivial

/-- What is read of a field conforms to it, can be written, and is found where it is written. -/
structure ReceivedAs (known : List (HeaderKind × String)) (base : String) (led : Bool)
    (field : Field) (value : Value) : Prop where
  fits : Fits field value
  writable : Throughout IsWritable value
  addressed : Addressed False known base led (some value) field

/-- What is read of the fields of a level conforms to them, can be written, and is found where it is
written. -/
structure Received (known : List (HeaderKind × String)) (base : String) (led : Bool)
    (fields : List Field) (values : List (String × Value)) : Prop where
  conforms : Conforms fields values
  writable : FieldsThroughout IsWritable values
  addressed : ∀ object : Option Object,
    (∀ pair ∈ values, object.bind (·.get? pair.1) = some pair.2) →
    AllAddressed False known base led object fields

section

variable {known : List (HeaderKind × String)} {base : String} {led : Bool} {field : Field}
  {rest : List Field} {others : List (String × Value)}

namespace Received

theorem nil : Received known base led [] [] :=
  ⟨rfl, trivial, fun _ _ => trivial⟩

theorem header {kind : HeaderKind} {key : String}
    (received : Received (known ++ [(kind, dotted base key)]) base false rest others) :
    Received known base led (.header kind key :: rest) others where
  conforms := .of_header rfl received.conforms
  writable := received.writable
  addressed object found := ⟨trivial, received.addressed object found⟩

theorem value {value : Value} (holds : field.isHeader = false)
    (first : ReceivedAs known base (led && field.isMixed) field value)
    (received : Received (known ++ headersIn base field) base
      (field.isMixed && (led || !(itemsIn (some value)).isEmpty)) rest others) :
    Received known base led (field :: rest) ((field.name, value) :: others) where
  conforms := .of_value holds first.fits received.conforms
  writable := ⟨first.writable, received.writable⟩
  addressed object found := by
    have present : under object field = some value :=
      found (field.name, value) List.mem_cons_self
    rw [AllAddressed, present]
    exact ⟨first.addressed, received.addressed object fun pair member =>
      found pair (List.mem_cons_of_mem _ member)⟩

end Received

/-- A scalar can be written with any value that fits it. -/
theorem writable_of_fits {type : Scalar} {value : Value} (fits : type.Fits value) :
    Throughout IsWritable value := by
  cases value with
  | string | bytes | array | object => cases type <;> exact fits.elim
  | _ => trivial

/-- What is read of an element of an array. -/
def ElementReceived : Field → Value → Prop
  | .scalars _ type _, value => type.Fits value
  | .items _ fields _, value =>
    ∃ inner, value = .object inner ∧ Received [] "" false fields inner
  | _, _ => True

/-- An array is received as items that are received, if it is found where it is written. -/
theorem receivedAs_array (array : field.isArray = true) (named : WellNamedBelow field)
    {items : List Value} (small : items.length < UInt16.size)
    (elements : ∀ item ∈ items, ElementReceived field item)
    (reached : Reached False known (dotted base field.name) led (some (.array items))) :
    ReceivedAs known base led field (.array items) := by
  cases field with
  | scalars name type mixed =>
      refine ⟨⟨items, rfl, elements⟩, ⟨small, .of_forall fun item member => ?_⟩, ?_⟩
      · exact writable_of_fits (elements item member)
      · exact (addressed_array array).mpr ⟨reached, fun _ _ => trivial⟩
  | items name fields mixed =>
      rw [WellNamedBelow] at named
      refine ⟨⟨items, rfl, fun item member => ?_⟩, ⟨small, .of_forall fun item member => ?_⟩, ?_⟩
      · obtain ⟨inner, object, received⟩ := elements item member
        exact ⟨inner, object, received.conforms⟩
      · obtain ⟨inner, rfl, received⟩ := elements item member
        exact ⟨trivial, received.writable⟩
      · refine (addressed_array array).mpr ⟨reached, fun item member => ?_⟩
        obtain ⟨inner, rfl, received⟩ := elements item member
        exact received.addressed (some ⟨inner⟩) (get?_of_conforms named received.conforms)
  | _ => cases array

/-- The headers that were read are among the known ones. -/
def HeaderValues.Within (headers : HeaderValues) (known : List (HeaderKind × String)) : Prop :=
  ∀ kind key, (headers.get? kind key).isSome → (kind, key) ∈ known

/-- An array with elements has a count, and an offset unless another array leads its chain. -/
theorem reached_of_led {headers : HeaderValues} (within : headers.Within known)
    {columns : List ReadColumn} {path name : String} {element : String → Decode Value}
    (led : Led (columns ++ [Decode.column headers base path name element])) {items : List Value}
    (count : items.length = (Decode.column headers base path name element).count) :
    Reached False known (dotted base name) (columns.any fun column => decide (0 < column.count))
      (some (.array items)) := by
  intro nonempty
  have nonempty : items ≠ [] := nonempty
  have filled : 0 < (Decode.column headers base path name element).count := by
    rw [← count]
    exact List.length_pos_iff.mpr nonempty
  have counted : (headers.get? .count (dotted base name)).isSome := by
    cases given : headers.get? .count (dotted base name) with
    | some number => rfl
    | none =>
        simp only [Decode.column, given, Option.elim_none] at filled
        omega
  refine ⟨within _ _ counted, ?_⟩
  cases leading : columns.any fun column => decide (0 < column.count) with
  | true => exact .inr ⟨rfl, not_false⟩
  | false =>
      have none : columns.find? (fun column => decide (0 < column.count)) = .none := by
        rw [List.find?_eq_none]
        intro column member
        exact List.any_eq_false.mp leading column member
      have first : (columns ++ [Decode.column headers base path name element]).find?
          (fun column => decide (0 < column.count)) =
            some (Decode.column headers base path name element) := by
        rw [List.find?_append, none, Option.none_or]
        exact List.find?_cons_of_pos (by simpa using filled)
      have start := led (Decode.column headers base path name element) first
      left
      apply within
      cases given : headers.get? .offset (dotted base name) with
      | some offset => rfl
      | none =>
          simp only [Decode.column, given, Option.getD_none, ne_eq, not_true_eq_false] at start

/-- One more header is known that is read. -/
theorem HeaderValues.Within.insert {headers : HeaderValues} (within : headers.Within known)
    (kind : HeaderKind) (key : String) (value : UInt16) :
    (headers.insert kind key value).Within (known ++ [(kind, key)]) := by
  intro other name present
  rw [get?_insert] at present
  by_cases same : (other, name) = (kind, key)
  · rw [same]
    exact List.mem_append_right _ List.mem_cons_self
  · rw [if_neg same] at present
    exact List.mem_append_left _ (within other name present)

end

section

variable {message : Bytes}

/-- Every scalar that is read is one that fits. -/
theorem finds_scalar (type : Scalar) (path : String) :
    Finds (Decode.scalar type path) message type.Fits := by
  refine finds_within ?_ path
  cases type with
  | bool => exact Finds.bool.map fun _ _ => trivial
  | byte => exact (Finds.wrapped 1 _).map fun _ _ => trivial
  | int16 | uint16 => exact (Finds.wrapped 2 _).map fun _ _ => trivial
  | int32 | uint32 => exact (Finds.wrapped 4 _).map fun _ _ => trivial
  | int64 | uint64 => exact (Finds.wrapped 8 _).map fun _ _ => trivial
  | float => exact Finds.single.map fun _ _ => trivial
  | double => exact Finds.double.map fun _ _ => trivial
  | vector => exact Finds.vector.map fun _ _ => trivial
  | rotation => exact Finds.rotation.map fun _ _ => trivial
  | angle => exact Finds.angle.map fun _ _ => trivial
  | skill32 => exact Finds.skill32.map fun _ fits => fits
  | skill => exact Finds.skill.map fun _ fits => fits
  | appearance => exact Finds.appearance.map fun _ _ => trivial

/-- The array that a field is, by the headers read so far, and what is promised of it. -/
def promiseOf (headers : HeaderValues) (base path : String) (field : Field) : Promise :=
  (Decode.column headers base path field.name (readElement field), ElementReceived field)

/-- Whether an array with elements is among those that wait. -/
def isLed (promises : List Promise) : Bool :=
  (promises.map Prod.fst).any fun column => decide (0 < column.count)

/-- A count is told by two bytes. -/
theorem count_lt (count : Option UInt16) : count.elim 0 (·.toNat) < UInt16.size := by
  cases count with
  | none => decide
  | some number => exact number.toNat_lt

/-- An array that was gathered is received as its field. -/
theorem receivedAs_of_gathered {known : List (HeaderKind × String)} {headers : HeaderValues}
    (within : headers.Within known) {base path : String} {field : Field}
    (array : field.isArray = true) (named : WellNamedBelow field) {promises : List Promise}
    (led : Led ((promises ++ [promiseOf headers base path field]).map Prod.fst))
    {items : List Value} (count : items.length = (promiseOf headers base path field).1.count)
    (elements : ∀ item ∈ items, ElementReceived field item) :
    ReceivedAs known base (isLed promises) field (.array items) := by
  have small : items.length < UInt16.size := by
    rw [count]
    exact count_lt _
  rw [List.map_append] at led
  exact receivedAs_array array named small elements (reached_of_led within led count)

/-- An array that was gathered leads its chain if it has elements. -/
theorem isLed_append {headers : HeaderValues} {base path : String} {field : Field}
    {promises : List Promise} {items : List Value}
    (count : items.length = (promiseOf headers base path field).1.count) :
    isLed (promises ++ [promiseOf headers base path field]) =
      (isLed promises || !(itemsIn (some (.array items))).isEmpty) := by
  have filled : decide (0 < (promiseOf headers base path field).1.count) = !items.isEmpty := by
    rw [← count]
    cases items <;> rfl
  rw [isLed, List.map_append, List.any_append, List.map_singleton, List.any_cons, List.any_nil,
    Bool.or_false, filled]
  rfl

/-- Whether reading a field that is no array finds what is received in front of the fields behind
it. -/
def ReceivesField (message : Bytes) (base path : String) (field : Field) : Prop :=
  ∀ (headers : HeaderValues) (object : Object) (known : List (HeaderKind × String)),
    (field.isHeader = false → field.name ∉ object.names) → headers.Within known →
    Finds (decodeField base path ⟨headers, object⟩ field) message fun level =>
      level.headers.Within (known ++ headersIn base field) ∧ ∃ own,
        own.map Prod.fst = (if field.isHeader then [] else [field.name]) ∧
        level.object = ⟨object.fields ++ own⟩ ∧ ∀ led rest others,
          Received (known ++ headersIn base field) base false rest others →
          Received known base led (field :: rest) (own ++ others)

/-- Whether reading a level finds what is received, behind the arrays that wait for their chain. -/
def ReceivesLevel (message : Bytes) (base path : String) (fields : List Field) : Prop :=
  ∀ (promises : List Promise) (headers : HeaderValues) (object : Object)
    (known : List (HeaderKind × String)), (∀ promise ∈ promises, Delivers message promise) →
    (object.names ++ promises.map (·.1.name) ++ valueNames fields).Nodup → headers.Within known →
    Finds (decodeFields base path ⟨headers, object⟩ (promises.map Prod.fst) fields) message
      fun level => level.headers.Within (known ++ headersOn base fields) ∧
        Led (promises.map Prod.fst) ∧ ∃ arrays values, Gathered promises arrays ∧
          Received known base (isLed promises) fields values ∧
          level.object = ⟨object.fields ++ arrays ++ values⟩

section

variable {base path name : String} {field : Field} {fields rest : List Field}

theorem receivesField_header (kind : HeaderKind) (key : String) :
    ReceivesField message base path (.header kind key) := by
  intro headers object known _ within
  rw [decodeField]
  refine (finds_uint16 _).bind fun value _ => .pure ?_
  rw [headersIn]
  refine ⟨within.insert kind _ value, [], rfl, by rw [List.append_nil], ?_⟩
  exact fun _ _ _ received => received.header

theorem receivesField_scalar (name : String) (type : Scalar) :
    ReceivesField message base path (.scalar name type) := by
  intro headers object known fresh within
  rw [decodeField]
  refine (finds_scalar type _).bind fun value fits => .pure ?_
  simp only [headersIn, List.append_nil]
  refine ⟨within, [(name, value)], rfl, insert_of_notMem (fresh rfl) value, ?_⟩
  intro led rest others received
  exact .value rfl ⟨fits, writable_of_fits fits, trivial⟩ (by
    simpa [headersIn, Field.isMixed] using received)

/-- A text has no more units than a small message has room for. -/
theorem receivesField_string (small : message.size < UInt16.size) (name : String) :
    ReceivesField message base path (.string name) := by
  intro headers object known fresh within
  rw [decodeField]
  refine (finds_seekTarget _ _ _).bind fun _ _ => ?_
  refine (finds_within .string _).bind fun text plain => .pure ?_
  simp only [headersIn, List.append_nil]
  refine ⟨within, [(name, .string text)], rfl, insert_of_notMem (fresh rfl) _, ?_⟩
  intro led rest others received
  exact .value rfl ⟨⟨text, rfl⟩, ⟨plain.1, by omega⟩, trivial⟩ (by
    simpa [headersIn, Field.isMixed] using received)

/-- A run of bytes that is not empty was counted by a header. -/
theorem receivesField_bytes (name : String) :
    ReceivesField message base path (.bytes name) := by
  intro headers object known fresh within
  have last : Finds (do
      let value ← Decode.within (dotted path name)
        (Read.bytes ((headers.get? .count (dotted base name)).elim 0 (·.toNat)))
      pure ⟨headers, object.insert name (.bytes value)⟩ : Decode LevelRead) message
      fun level => ∃ run : Bytes, level = ⟨headers, ⟨object.fields ++ [(name, .bytes run)]⟩⟩ ∧
        run.size = (headers.get? .count (dotted base name)).elim 0 (·.toNat) := by
    refine (finds_within (.bytes _) _).bind fun run size => .pure ⟨run, ?_, size⟩
    exact congrArg (LevelRead.mk headers) (insert_of_notMem (fresh rfl) _)
  rw [decodeField]
  simp only [headersIn, List.append_nil]
  refine (Finds.ite (fun _ => (finds_seekTarget _ _ _).bind fun _ _ => last)
    fun _ => last).imp ?_
  rintro level ⟨run, rfl, size⟩
  refine ⟨within, [(name, .bytes run)], rfl, rfl, ?_⟩
  intro led rest others received
  have counted : run.size ≠ 0 → (.count, dotted base name) ∈ known := by
    intro filled
    apply within
    cases given : headers.get? .count (dotted base name) with
    | some number => rfl
    | none =>
        rw [given] at size
        exact absurd size filled
  have bounded : run.size < UInt16.size := by
    rw [size]
    exact count_lt _
  exact .value rfl ⟨⟨run, rfl⟩, bounded, counted⟩ (by
    simpa [headersIn, Field.isMixed] using received)

/-- An object is received as its fields are. -/
theorem receivesField_object (named : WellNamed fields)
    (level : ReceivesLevel message (dotted base name) (dotted path name) fields) :
    ReceivesField message base path (.object name fields) := by
  intro headers object known fresh within
  rw [decodeField]
  refine (level [] headers .empty known (by simp) (nodup_valueNames named) within).bind ?_
  rintro level ⟨inside, _, arrays, values, rfl, received, spelled⟩
  rw [headersIn, spelled]
  refine .pure ⟨inside, [(name, .object values)], rfl, insert_of_notMem (fresh rfl) _, ?_⟩
  intro led rest others further
  have found := received.addressed (some ⟨values⟩) (get?_of_conforms named received.conforms)
  exact .value rfl ⟨⟨values, rfl, received.conforms⟩, ⟨trivial, received.writable⟩, found⟩ further

theorem names_append_gathered {promises : List Promise} {arrays : List (String × Value)}
    (gathered : Gathered promises arrays) (object : Object) :
    (⟨object.fields ++ arrays⟩ : Object).names = object.names ++ promises.map (·.1.name) := by
  simp [Object.names, names_of_gathered gathered]

theorem receivesLevel_nil : ReceivesLevel message base path [] := by
  intro promises headers object known delivers fresh within
  have distinct := (List.nodup_append.mp fresh).1
  rw [decodeFields]
  refine (finds_chain delivers headers distinct).imp ?_
  rintro level ⟨led, arrays, gathered, rfl⟩
  rw [headersOn, List.append_nil]
  exact ⟨within, led, arrays, [], gathered, .nil, by rw [List.append_nil]⟩

/-- An array that may share its chain joins those that wait, and is the last of them. -/
theorem receivesLevel_mixed (mixed : field.isMixed = true) (below : WellNamedBelow field)
    (element : ∀ path, Finds (readElement field path) message (ElementReceived field))
    (further : ReceivesLevel message base path rest) :
    ReceivesLevel message base path (field :: rest) := by
  have array := Field.isArray_of_isMixed mixed
  have holds := Field.isHeader_of_isArray array
  intro promises headers object known delivers fresh within
  rw [valueNames_cons, holds, if_neg Bool.false_ne_true] at fresh
  rw [headersOn, headersIn_array array, List.nil_append, decodeFields_mixed mixed]
  have joined := further (promises ++ [promiseOf headers base path field]) headers object known
    (List.forall_mem_append.mpr ⟨delivers, List.forall_mem_singleton.mpr element⟩)
    (by simpa [promiseOf, Decode.column] using fresh) within
  rw [List.map_append] at joined
  refine joined.imp ?_
  rintro level ⟨inside, led, _, values, gathered, received, spelled⟩
  obtain ⟨arrays, items, rfl, front, count, elements⟩ := gathered_append gathered
  rw [← List.map_append] at led
  have first := receivedAs_of_gathered within array below led count elements
  rw [isLed_append count] at received
  rw [List.map_append] at led
  refine ⟨inside, led.of_append, arrays, (field.name, .array items) :: values, front, ?_, ?_⟩
  · refine .value holds ?_ ?_
    · rw [mixed, Bool.and_true]
      exact first
    · rw [headersIn_array array, List.append_nil, mixed, Bool.true_and]
      exact received
  · rw [spelled]
    simp [promiseOf, Decode.column]

/-- An array that shares no chain is read behind those that wait. -/
theorem receivesLevel_apart (array : field.isArray = true) (plain : field.isMixed = false)
    (below : WellNamedBelow field)
    (element : ∀ path, Finds (readElement field path) message (ElementReceived field))
    (further : ReceivesLevel message base path rest) :
    ReceivesLevel message base path (field :: rest) := by
  have holds := Field.isHeader_of_isArray array
  intro promises headers object known delivers fresh within
  rw [valueNames_cons, holds, if_neg Bool.false_ne_true] at fresh
  rw [headersOn, headersIn_array array, List.nil_append]
  simp only [decodeFields_plain plain, decodeField_array array]
  refine (finds_chain delivers headers (List.nodup_append.mp fresh).1).bind ?_
  rintro _ ⟨led, arrays, gathered, rfl⟩
  have deliver : ∀ promise ∈ [promiseOf headers base path field], Delivers message promise :=
    List.forall_mem_singleton.mpr element
  have freshOwn : ((⟨object.fields ++ arrays⟩ : Object).names ++
      [promiseOf headers base path field].map (·.1.name)).Nodup := by
    rw [names_append_gathered gathered]
    exact fresh.sublist (List.Sublist.append_left
      (List.singleton_sublist.mpr List.mem_cons_self) _)
  refine (finds_chain deliver headers freshOwn).bind ?_
  rintro _ ⟨ledOwn, _, ⟨items, _, rfl, count, elements, rfl⟩, rfl⟩
  have first : ReceivedAs known base false field (.array items) :=
    @receivedAs_of_gathered known headers within base path field array below [] ledOwn items count
      elements
  refine (further [] headers ⟨object.fields ++ arrays ++ [(field.name, .array items)]⟩ known
    (by simp) (by simpa [Object.names, names_of_gathered gathered] using fresh) within).imp ?_
  rintro level ⟨inside, _, _, values, rfl, received, spelled⟩
  refine ⟨inside, led, arrays, (field.name, .array items) :: values, gathered, ?_, ?_⟩
  · refine .value holds ?_ ?_
    · rw [plain, Bool.and_false]
      exact first
    · rw [headersIn_array array, List.append_nil, plain, Bool.false_and]
      exact received
  · rw [spelled]
    simp

/-- A field that is no array is read behind the arrays that wait. -/
theorem receivesLevel_single (single : field.isArray = false)
    (own : ReceivesField message base path field)
    (further : ReceivesLevel message base path rest) :
    ReceivesLevel message base path (field :: rest) := by
  intro promises headers object known delivers fresh within
  rw [valueNames_cons] at fresh
  rw [headersOn, ← List.append_assoc, decodeFields_plain (Field.isMixed_of_isArray single)]
  refine (finds_chain delivers headers (List.nodup_append.mp fresh).1).bind ?_
  rintro _ ⟨led, arrays, gathered, rfl⟩
  have freshOwn : field.isHeader = false →
      field.name ∉ (⟨object.fields ++ arrays⟩ : Object).names := by
    intro holds member
    rw [names_append_gathered gathered] at member
    rw [holds, if_neg Bool.false_ne_true, List.nodup_append] at fresh
    exact fresh.2.2 _ member _ List.mem_cons_self rfl
  refine (own headers ⟨object.fields ++ arrays⟩ known freshOwn within).bind ?_
  rintro ⟨later, _⟩ ⟨inside, own, listed, rfl, front⟩
  refine (further [] later ⟨object.fields ++ arrays ++ own⟩ _ (by simp) ?_ inside).imp ?_
  · split at fresh
    next holds =>
      rw [if_pos holds, List.map_eq_nil_iff] at listed
      simpa [Object.names, names_of_gathered gathered, listed] using fresh
    next holds =>
      rw [if_neg holds] at listed
      simpa [Object.names, names_of_gathered gathered, listed] using fresh
  · rintro level ⟨inside, _, _, values, rfl, received, spelled⟩
    refine ⟨inside, led, arrays, own ++ values, gathered, front _ _ _ received, ?_⟩
    rw [spelled]
    simp

end

mutual

/-- **Every element is received.** -/
theorem finds_readElement (small : message.size < UInt16.size) : ∀ {field : Field},
    field.isArray = true → WellNamedBelow field → ∀ path,
    Finds (readElement field path) message (ElementReceived field)
  | .scalars _ type _, _, _, path => finds_scalar type path
  | .items _ fields _, _, named, path => by
      rw [WellNamedBelow] at named
      refine (receives_decodeFields small named "" path [] ⟨[]⟩ .empty [] (by simp)
        (nodup_valueNames named) (fun _ _ absent => by cases absent)).bind ?_
      rintro level ⟨_, _, arrays, values, rfl, received, spelled⟩
      rw [spelled]
      exact .pure ⟨values, rfl, received⟩
  | .header .., array, _, _ | .scalar .., array, _, _ | .string _, array, _, _
  | .bytes _, array, _, _ | .object .., array, _, _ => by cases array

/-- What is read of a field that is no array is received as the field. -/
theorem receives_decodeField (small : message.size < UInt16.size) : ∀ {field : Field},
    field.isArray = false → WellNamedBelow field → ∀ (base path : String),
    ReceivesField message base path field
  | .header kind key, _, _, _, _ => receivesField_header kind key
  | .scalar name type, _, _, _, _ => receivesField_scalar name type
  | .string name, _, _, _, _ => receivesField_string small name
  | .bytes name, _, _, _, _ => receivesField_bytes name
  | .object name fields, _, named, base, path => by
      rw [WellNamedBelow] at named
      exact receivesField_object named
        (receives_decodeFields small named (dotted base name) (dotted path name))
  | .scalars .., array, _, _, _ | .items .., array, _, _, _ => by cases array

/-- What is read of a level is received. -/
theorem receives_decodeFields (small : message.size < UInt16.size) : ∀ {fields : List Field},
    WellNamed fields → ∀ (base path : String), ReceivesLevel message base path fields
  | [], _, _, _ => receivesLevel_nil
  | field :: rest, named, base, path => by
      rw [WellNamed] at named
      obtain ⟨_, below, others⟩ := named
      have further := receives_decodeFields small others base path
      by_cases array : field.isArray = true
      · have element := finds_readElement small array below
        by_cases mixed : field.isMixed = true
        · exact receivesLevel_mixed mixed below element further
        · exact receivesLevel_apart array (Bool.eq_false_iff.mpr mixed) below element further
      · have single : field.isArray = false := Bool.eq_false_iff.mpr array
        exact receivesLevel_single single (receives_decodeField small single below base path)
          further

end

/-- **What is decoded is received**, whatever the bytes of the message are. -/
theorem received_of_decode {layout : Layout} {object : Object} (named : WellNamed layout.fields)
    (small : message.size < UInt16.size) (decoded : (layout.decode message).1 = .ok object) :
    Received [] "" false layout.fields object.fields := by
  have fields := receives_decodeFields small named "" "" [] ⟨[]⟩ .empty [] (by simp)
    (nodup_valueNames named) fun _ _ absent => by cases absent
  have whole : Finds layout.readMessage message fun object =>
      Received [] "" false layout.fields object.fields := by
    unfold readMessage
    refine Finds.get.bind fun _ _ => .ite (fun _ => .throw_bind _) fun _ => ?_
    refine (finds_within (.seek _) _).bind fun _ _ => fields.bind ?_
    rintro level ⟨_, _, _, values, rfl, received, spelled⟩
    rw [spelled]
    exact .pure received
  rw [decode] at decoded
  split at decoded
  next found later read =>
    cases decoded
    exact (whole _ object later rfl read).2
  next => cases decoded

end

end Relay.Layout
