import Relay.Proofs.Layout.Links
import Relay.Proofs.Layout.Received

/-! # What can be written

An object that conforms to a layout, can be counted in two bytes everywhere, and has no text with a
zero character is written, unless the message becomes too large
(`Relay.Layout.encode_of_received`). -/

namespace Relay.Layout

open Relay.Stream Encode

/-- A step of writing that goes well, with a result that has a property, or fails because the
message is too large. -/
def Manages {α : Type} (step : Encode α) (has : α → Prop) : Prop :=
  ∀ writer, (∃ value after, step writer = .ok (value, after) ∧ has value) ∨
    ∃ length, step writer = .error (.tooLarge length)

namespace Manages

variable {α β : Type} {has : α → Prop} {also : β → Prop}

theorem pure {value : α} (holds : has value) : Manages (Pure.pure value) has :=
  fun writer => .inl ⟨value, writer, rfl, holds⟩

theorem tooLarge (length : Nat) : Manages (throw (.tooLarge length)) has :=
  fun _ => .inr ⟨length, rfl⟩

/-- **One step after the other** goes well if both do. -/
theorem bind {step : Encode α} {next : α → Encode β} (first : Manages step has)
    (second : ∀ value, has value → Manages (next value) also) : Manages (step >>= next) also := by
  intro writer
  change (∃ value after, (step writer >>= fun pair => next pair.1 pair.2) = .ok (value, after) ∧
    also value) ∨ ∃ length, (step writer >>= fun pair => next pair.1 pair.2) =
      .error (.tooLarge length)
  rcases first writer with ⟨value, middle, done, holds⟩ | ⟨length, failed⟩
  · rw [done]
    exact second value holds middle
  · rw [failed]
    exact .inr ⟨length, rfl⟩

theorem ite {condition : Prop} [Decidable condition] {step other : Encode α}
    (first : condition → Manages step has) (second : ¬ condition → Manages other has) :
    Manages (if condition then step else other) has := by
  split
  next holds => exact first holds
  next fails => exact second fails

theorem write (change : Writer → Writer) : Manages (Encode.write change) fun _ => True :=
  fun writer => .inl ⟨(), change writer, rfl, trivial⟩

theorem get : Manages (MonadState.get : Encode Writer) fun _ => True :=
  fun writer => .inl ⟨writer, writer, rfl, trivial⟩

theorem here : Manages Encode.here fun _ => True := by
  intro writer
  by_cases short : writer.position < UInt16.size
  · exact .inl ⟨_, writer, here_of_short short, trivial⟩
  · exact .inr ⟨_, here_of_long short⟩

theorem resolve (slot : Option Slot) (value : UInt16) :
    Manages (Encode.resolve slot value) fun _ => True := by
  cases slot with
  | none => exact .pure trivial
  | some slot => exact .write _

theorem resolveHere (slot : Option Slot) : Manages (Encode.resolveHere slot) fun _ => True := by
  cases slot with
  | none => exact .pure trivial
  | some slot => exact here.bind fun _ _ => .resolve _ _

theorem resolveCount (slot : Option Slot) (path : String) {count : Nat}
    (small : count < UInt16.size) :
    Manages (Encode.resolveCount slot path count) fun _ => True := by
  cases slot with
  | none => exact .pure trivial
  | some slot =>
      rw [Encode.resolveCount, if_pos small]
      exact .resolve _ _

theorem header (kind : HeaderKind) (key : String) (waiting : OpenSlots) :
    Manages (Encode.header kind key waiting) fun _ => True :=
  get.bind fun _ _ => (write _).bind fun _ _ => (resolve _ _).bind fun _ _ => .pure trivial

theorem scalar {type : Scalar} {value : Value} (fits : type.Fits value) (path : String) :
    Manages (Encode.scalar type (some value) path) fun _ => True := by
  intro writer
  have written : (∃ result, Encode.scalar type (some value) path writer = .ok result) ∧
      type.Alike value (type.stored (some value)) := scalar_of_fits fits
  obtain ⟨⟨_, after⟩, done⟩ := written.1
  exact .inl ⟨(), after, done, trivial⟩

theorem sendRun (key path : String) (waiting : OpenSlots) {length : Nat}
    (small : length < UInt16.size) (run : List UInt8) :
    Manages (Layout.sendRun key path waiting length run) fun _ => True :=
  (resolveCount _ _ small).bind fun _ _ => (resolveHere _).bind fun _ _ =>
    (write _).bind fun _ _ => .pure trivial

end Manages

/-- The elements of an array can be written. -/
def Ready (column : WriteColumn) : Prop :=
  ∀ item ∈ column.items, ∀ path, Manages (column.element path item) fun _ => True

/-- An array that is opened goes well if it has few elements and all of them can be written. -/
theorem Manages.openColumn (key path : String) (waiting : OpenSlots)
    {element : String → Value → Encode Unit} {items : List Value}
    (small : items.length < UInt16.size)
    (each : ∀ item ∈ items, ∀ path, Manages (element path item) fun _ => True) :
    Manages (Layout.openColumn key path waiting element items) fun result => Ready result.1 := by
  unfold Layout.openColumn
  split
  · exact .pure fun _ member => absurd member (Array.not_mem_empty _)
  · split
    · omega
    · exact (resolve _ _).bind fun _ _ => .pure fun item member =>
        each item (List.mem_toArray.mp member)

/-- Elements that can be written are written along links. -/
theorem manages_writeLinks {columns : List WriteColumn} (ready : ∀ column ∈ columns, Ready column)
    {links : List Link} (inside : ∀ link ∈ links, ∃ column, columns[link.array]? = some column ∧
      link.place < column.items.size) (previous : Option Slot) :
    Manages (writeLinks columns.toArray previous links) fun _ => True := by
  induction links generalizing previous with
  | nil => exact .resolve previous 0
  | cons link rest ih =>
      obtain ⟨column, present, small⟩ := inside link List.mem_cons_self
      have table : columns.toArray[link.array]? = some column := by
        rw [List.getElem?_toArray]
        exact present
      have item : column.items.getD link.place default ∈ column.items := by
        rw [Array.getD_eq_getD_getElem?, Array.getElem?_eq_getElem small, Option.getD_some]
        exact Array.getElem_mem small
      rw [writeLinks_cons table]
      refine .bind .here fun _ _ => .bind (.resolve _ _) fun _ _ => ?_
      refine .bind (.resolve _ _) fun _ _ => .bind (.write _) fun _ _ => .bind .get fun _ _ => ?_
      refine .bind (.write _) fun _ _ => ?_
      refine .bind (ready column (List.mem_of_getElem? present) _ item _) fun _ _ => ?_
      exact ih (fun other member => inside other (List.mem_cons_of_mem _ member)) _

/-- A chain goes well if the elements of its arrays can be written. -/
theorem manages_chain {columns : List WriteColumn} (ready : ∀ column ∈ columns, Ready column) :
    Manages (Encode.chain columns) fun _ => True := by
  refine manages_writeLinks ready (fun link member => ?_) none
  obtain ⟨count, counted, small⟩ := mem_of_mem_roundRobin member
  rw [List.getElem?_map, Option.map_eq_some_iff] at counted
  obtain ⟨column, present, rfl⟩ := counted
  exact ⟨column, present, small⟩

/-- What is read of an array can be prepared, and its elements can be written. -/
theorem manages_column (base path : String) {object : Option Object} (waiting : OpenSlots)
    {field : Field} {items : List Value} (present : under object field = some (.array items))
    (small : items.length < UInt16.size)
    (each : ∀ item ∈ items, ∀ path, Manages (writeElement field path item) fun _ => True) :
    Manages (Encode.column base path field.name object waiting (writeElement field)) fun result =>
      Ready result.1 := by
  have item : object.bind (·.get? field.name) = some (.array items) := present
  rw [column_eq, item]
  exact .openColumn _ _ _ small each

/-- A value that fits an array is a list of items. -/
theorem items_of_fits {field : Field} {value : Value} (array : field.isArray = true)
    (fits : Fits field value) : ∃ items, value = .array items := by
  cases field with
  | scalars | items =>
      obtain ⟨items, same, _⟩ := fits
      exact ⟨items, same⟩
  | _ => cases array

/-- Whether the fields of a level can be written, behind arrays whose elements can be. -/
def ManagesLevel (base path : String) (object : Option Object) (fields : List Field) : Prop :=
  ∀ (waiting : OpenSlots) (columns : List WriteColumn), (∀ column ∈ columns, Ready column) →
    Manages (encodeFields base path object waiting columns fields) fun _ => True

section

variable {base path : String} {object : Option Object} {field : Field} {rest : List Field}

/-- Without fields the arrays that wait are written. -/
theorem managesLevel_nil : ManagesLevel base path object [] := by
  intro waiting columns ready
  rw [encodeFields]
  exact (manages_chain ready).bind fun _ _ => .pure trivial

/-- An array that may share its chain joins those that wait. -/
theorem managesLevel_mixed (mixed : field.isMixed = true)
    (prepared : ∀ waiting,
      Manages (Encode.column base path field.name object waiting (writeElement field))
        fun result => Ready result.1)
    (further : ManagesLevel base path object rest) :
    ManagesLevel base path object (field :: rest) := by
  intro waiting columns ready
  rw [encodeFields_mixed mixed]
  refine (prepared waiting).bind fun result last => further _ _ ?_
  exact List.forall_mem_append.mpr ⟨ready, List.forall_mem_singleton.mpr last⟩

/-- A field that does not wait is written behind the arrays that do. -/
theorem managesLevel_plain (plain : field.isMixed = false)
    (own : ∀ waiting, Manages (encodeField base path object waiting field) fun _ => True)
    (further : ManagesLevel base path object rest) :
    ManagesLevel base path object (field :: rest) := by
  intro waiting columns ready
  rw [encodeFields_plain plain]
  refine (manages_chain ready).bind fun _ _ => (own waiting).bind fun left _ => ?_
  exact further left [] (by simp)

/-- An array is written when it can be prepared. -/
theorem manages_array (array : field.isArray = true) (waiting : OpenSlots)
    (prepared : Manages (Encode.column base path field.name object waiting (writeElement field))
      fun result => Ready result.1) :
    Manages (encodeField base path object waiting field) fun _ => True := by
  rw [encodeField_array array]
  refine prepared.bind fun result ready => ?_
  exact (manages_chain (List.forall_mem_singleton.mpr ready)).bind fun _ _ => .pure trivial

end

mutual

/-- **Every element that fits can be written.** -/
theorem manages_writeElement : ∀ {field : Field} {items : List Value}, field.isArray = true →
    WellNamedBelow field → Fits field (.array items) → ItemsThroughout IsWritable items →
    ∀ item ∈ items, ∀ path, Manages (writeElement field path item) fun _ => True
  | .scalars _ type _, _, _, _, fits, _ => by
      intro item member path
      obtain ⟨_, same, fits⟩ := fits
      cases same
      exact .scalar (fits item member) path
  | .items _ fields _, _, _, named, fits, writable => by
      intro item member path
      obtain ⟨_, same, fits⟩ := fits
      cases same
      obtain ⟨inner, rfl, conforms⟩ := fits item member
      rw [WellNamedBelow] at named
      have below := writable.of_mem _ member
      rw [Throughout] at below
      have level : ManagesLevel "" path (some ⟨inner⟩) fields :=
        manages_encodeFields named conforms below.2 "" path (get?_of_conforms named conforms)
      exact (level ⟨[]⟩ [] (by simp)).bind fun _ _ => .write _
  | .header .., _, array, _, _, _ | .scalar .., _, array, _, _, _ | .string _, _, array, _, _, _
  | .bytes _, _, array, _, _, _ | .object .., _, array, _, _, _ => by cases array

/-- **Every field that is no array can be written with a value that fits it.** -/
theorem manages_encodeField : ∀ {field : Field} {value : Value}, field.isArray = false →
    WellNamedBelow field → Fits field value → Throughout IsWritable value →
    ∀ (base path : String) {object : Option Object}, under object field = some value →
    ∀ waiting, Manages (encodeField base path object waiting field) fun _ => True
  | .header .., _, _, _, fits, _ => fits.elim
  | .scalar name type, _, _, _, fits, _ => by
      intro base path object present waiting
      have item : object.bind (·.get? name) = some _ := present
      rw [encodeField, item]
      exact (Manages.scalar fits _).bind fun _ _ => .pure trivial
  | .string name, _, _, _, ⟨text, same⟩, writable => by
      intro base path object present waiting
      subst same
      have item : object.bind (·.get? name) = some (.string text) := present
      rw [encodeField, string_eq, item]
      exact .sendRun _ _ _ writable.2 _
  | .bytes name, _, _, _, ⟨run, same⟩, writable => by
      intro base path object present waiting
      subst same
      have item : object.bind (·.get? name) = some (.bytes run) := present
      rw [encodeField, bytes_eq, item]
      exact .sendRun _ _ _ writable _
  | .object name fields, _, _, named, ⟨below, same, conforms⟩, writable => by
      intro base path object present waiting
      subst same
      have item : object.bind (·.get? name) = some (.object below) := present
      rw [WellNamedBelow] at named
      rw [Throughout] at writable
      rw [encodeField, Encode.inner, item]
      have level : ManagesLevel (dotted base name) (dotted path name) (some ⟨below⟩) fields :=
        manages_encodeFields named conforms writable.2 _ _ (get?_of_conforms named conforms)
      exact level waiting [] (by simp)
  | .scalars .., _, array, _, _, _ | .items .., _, array, _, _, _ => by cases array

/-- What conforms and can be counted is written, unless the message becomes too large. -/
theorem manages_encodeFields : ∀ {fields : List Field} {values : List (String × Value)},
    WellNamed fields → Conforms fields values → FieldsThroughout IsWritable values →
    ∀ (base path : String) {object : Option Object},
    (∀ pair ∈ values, object.bind (·.get? pair.1) = some pair.2) →
    ManagesLevel base path object fields
  | [], _, _, _, _ => fun _ _ _ _ => managesLevel_nil
  | field :: rest, values, named, conforms, writable => by
      intro base path object found
      rw [WellNamed] at named
      by_cases header : field.isHeader = true
      · rw [Conforms, if_pos header] at conforms
        have further : ManagesLevel base path object rest :=
          manages_encodeFields named.2.2 conforms writable base path found
        cases field with
        | header kind key =>
            refine managesLevel_plain rfl (fun waiting => ?_) further
            rw [encodeField]
            exact .header kind _ waiting
        | _ => cases header
      · rw [Conforms, if_neg header] at conforms
        obtain ⟨value, others, rfl, fits, conforms⟩ := conforms
        rw [FieldsThroughout] at writable
        have present : under object field = some value :=
          found (field.name, value) List.mem_cons_self
        have further : ManagesLevel base path object rest :=
          manages_encodeFields named.2.2 conforms writable.2 base path fun pair member =>
            found pair (List.mem_cons_of_mem _ member)
        by_cases array : field.isArray = true
        · have prepared (waiting : OpenSlots) : Manages
              (Encode.column base path field.name object waiting (writeElement field))
              fun result => Ready result.1 := by
            obtain ⟨items, rfl⟩ := items_of_fits array fits
            have inside := writable.1
            rw [Throughout] at inside
            exact manages_column base path waiting present inside.1
              (manages_writeElement array named.2.1 fits inside.2)
          by_cases mixed : field.isMixed = true
          · exact managesLevel_mixed mixed prepared further
          · exact managesLevel_plain (Bool.eq_false_iff.mpr mixed)
              (fun waiting => manages_array array waiting (prepared waiting)) further
        · have single : field.isArray = false := Bool.eq_false_iff.mpr array
          exact managesLevel_plain (Field.isMixed_of_isArray single)
            (manages_encodeField single named.2.1 fits writable.1 base path present) further

end

/-- **What was received can be written**, unless the message becomes too large. -/
theorem encode_of_received {layout : Layout} {object : Object} (named : WellNamed layout.fields)
    (received : Received [] "" false layout.fields object.fields) (code : UInt16) :
    (∃ bytes, layout.encode code object = .ok bytes) ∨
      ∃ length, layout.encode code object = .error (.tooLarge length) := by
  have present := get?_of_conforms named received.conforms
  have level : ManagesLevel "" "" (some object) layout.fields :=
    manages_encodeFields named received.conforms received.writable "" "" present
  have whole : Manages (layout.writeMessage code object) fun _ => True := by
    unfold writeMessage
    refine (Manages.write _).bind fun _ _ => ?_
    refine (level ⟨[]⟩ [] (by simp)).bind fun left _ => ?_
    refine (Manages.write _).bind fun _ _ => Manages.get.bind fun writer _ => ?_
    exact .ite (fun _ => .bind (.tooLarge _) fun _ (_ : True) => .write _) fun _ => .write _
  rw [encode]
  rcases whole .empty with ⟨_, writer, done, _⟩ | ⟨length, failed⟩
  · left
    exact ⟨writer.bytes, by rw [StateT.run, done]⟩
  · right
    exact ⟨length, by rw [StateT.run, failed]⟩

end Relay.Layout
