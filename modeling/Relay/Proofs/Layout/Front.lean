import Relay.Proofs.Layout.RoundTrip

/-! # The front of a message

Fields are written behind the length and the code of a message, and no header that is filled in
later reaches in front of them. Hence the front of every message says how long it is and which code
it has (`Relay.Layout.front_encode`), whatever its layout and its object are. -/

namespace Relay.Layout

open Relay.Stream Relay.Frame.Header Encode

/-- A writer at the end of its bytes, which begin with a front. -/
structure Fronted (front : List UInt8) (writer : Writer) : Prop where
  atEnd : writer.position = writer.bytes.size
  behind : front.length ≤ writer.bytes.size
  holds : Holds writer.bytes 0 front

/-- Slots that do not reach into a front. -/
def Behind (front : List UInt8) (slots : List Slot) : Prop :=
  ∀ slot ∈ slots, front.length ≤ slot.position

/-- Headers that wait behind a front. -/
def Waits (front : List UInt8) (waiting : OpenSlots) : Prop :=
  Behind front (waiting.slots.map Prod.snd)

/-- A step of writing that keeps the front of the message. What it results in has a property. -/
def Spares {α : Type} (front : List UInt8) (step : Encode α) (has : α → Prop) : Prop :=
  ∀ writer value after, Fronted front writer → step writer = .ok (value, after) →
    Fronted front after ∧ has value

variable {front : List UInt8}

/-- A run that is put comes behind the front. -/
theorem Fronted.put {writer : Writer} (fronted : Fronted front writer) (run : List UInt8) :
    Fronted front (writer.put run) := by
  have behind := fronted.behind
  rw [Writer.put_atEnd fronted.atEnd]
  refine ⟨by simp, by simp only [Array.size_append]; omega, fun index inside => ?_⟩
  rw [Array.getElem?_append_left (by omega)]
  exact fronted.holds index inside

/-- A slot behind the front is filled in behind it. -/
theorem Fronted.resolve {writer : Writer} (fronted : Fronted front writer) {slot : Slot}
    (clear : front.length ≤ slot.position) (value : UInt16) :
    Fronted front (writer.resolve slot value) where
  atEnd := by simpa using fronted.atEnd
  behind := by simpa using fronted.behind
  holds index inside := by
    rw [Writer.resolve_getElem?_of_misses (.inl (by omega))]
    exact fronted.holds index inside

namespace Spares

variable {α β : Type} {has : α → Prop} {also : β → Prop}

theorem pure {value : α} (holds : has value) : Spares front (Pure.pure value) has := by
  intro writer _ _ fronted done
  cases pure_eq_ok.mp done
  exact ⟨fronted, holds⟩

theorem throw (error : EncodeError) : Spares front (MonadExcept.throw error : Encode α) has :=
  fun _ _ _ _ done => absurd done throw_ne_ok

/-- **One step after the other** spares the front if both do. -/
theorem bind {step : Encode α} {next : α → Encode β} (first : Spares front step has)
    (second : ∀ value, has value → Spares front (next value) also) :
    Spares front (step >>= next) also := by
  intro writer result after fronted done
  obtain ⟨value, middle, begun, done⟩ := bind_eq_ok.mp done
  obtain ⟨still, holds⟩ := first writer value middle fronted begun
  exact second value holds middle result after still done

theorem get : Spares front (MonadState.get : Encode Writer) (Fronted front) := by
  intro writer _ _ fronted done
  cases get_eq_ok.mp done
  exact ⟨fronted, fronted⟩

theorem write {change : Writer → Writer}
    (keeps : ∀ writer, Fronted front writer → Fronted front (change writer)) :
    Spares front (Encode.write change) fun _ => True := by
  intro writer _ _ fronted done
  cases write_eq_ok.mp done
  exact ⟨keeps writer fronted, trivial⟩

theorem put (run : List UInt8) : Spares front (Encode.write (·.put run)) fun _ => True :=
  .write fun _ fronted => fronted.put run

theorem here : Spares front Encode.here fun _ => True := by
  intro writer position after fronted done
  obtain ⟨rfl, _⟩ := here_eq_ok done
  exact ⟨fronted, trivial⟩

theorem resolve {slot : Option Slot} (clear : Behind front slot.toList) (value : UInt16) :
    Spares front (Encode.resolve slot value) fun _ => True := by
  cases slot with
  | none => exact .pure trivial
  | some slot =>
      exact .write fun _ fronted => fronted.resolve (clear slot List.mem_cons_self) value

theorem resolveHere {slot : Option Slot} (clear : Behind front slot.toList) :
    Spares front (Encode.resolveHere slot) fun _ => True := by
  cases slot with
  | none => exact .pure trivial
  | some slot => exact here.bind fun position _ => resolve clear position

theorem resolveCount {slot : Option Slot} (clear : Behind front slot.toList) (path : String)
    (count : Nat) : Spares front (Encode.resolveCount slot path count) fun _ => True := by
  cases slot with
  | none => exact .pure trivial
  | some slot =>
      rw [Encode.resolveCount]
      split
      next => exact resolve clear _
      next => exact .throw _

theorem resolveRest {waiting : OpenSlots} (clear : Waits front waiting) :
    Spares front (Encode.resolveRest waiting) fun _ => True := by
  refine .write fun writer fronted => ?_
  obtain ⟨entries⟩ := waiting
  induction entries generalizing writer with
  | nil => exact fronted
  | cons entry rest ih =>
      obtain ⟨first, others⟩ := List.forall_mem_cons.mp clear
      exact ih _ (fronted.resolve first 0) others

theorem scalar (type : Scalar) (item : Option Value) (path : String) :
    Spares front (Encode.scalar type item path) fun _ => True := by
  intro writer value after fronted done
  obtain ⟨run, _, same, _⟩ := scalar_eq_ok done
  cases same
  exact ⟨fronted.put run, trivial⟩

end Spares

/-- What is taken out of the headers that wait was one of them, and so is what is left. -/
theorem behind_take {waiting : OpenSlots} (clear : Waits front waiting) (kind : HeaderKind)
    (key : String) :
    Behind front (waiting.take kind key).1.toList ∧ Waits front (waiting.take kind key).2 := by
  have listed {slot : Slot} := (waiting.perm_take kind key).mem_iff (a := slot)
  exact ⟨fun slot member => clear slot (listed.mpr (List.mem_append_left _ member)),
    fun slot member => clear slot (listed.mpr (List.mem_append_right _ member))⟩

theorem spares_header (kind : HeaderKind) (key : String) {waiting : OpenSlots}
    (clear : Waits front waiting) :
    Spares front (Encode.header kind key waiting) (Waits front) := by
  obtain ⟨stale, others⟩ := behind_take clear kind key
  refine Spares.get.bind fun writer fronted => (Spares.put _).bind fun _ _ => ?_
  refine (Spares.resolve stale 0).bind fun _ _ => .pure ?_
  refine List.forall_mem_cons.mpr ⟨?_, others⟩
  exact fronted.atEnd ▸ fronted.behind

theorem spares_sendRun (key path : String) {waiting : OpenSlots} (clear : Waits front waiting)
    (length : Nat) (run : List UInt8) :
    Spares front (sendRun key path waiting length run) (Waits front) := by
  obtain ⟨count, others⟩ := behind_take clear .count key
  obtain ⟨offset, left⟩ := behind_take others .offset key
  exact (Spares.resolveCount count path length).bind fun _ _ =>
    (Spares.resolveHere offset).bind fun _ _ => (Spares.put run).bind fun _ _ => .pure left

/-- An array whose offset waits behind the front, and whose elements spare the front. -/
structure Mindful (front : List UInt8) (column : WriteColumn) : Prop where
  first : Behind front column.first.toList
  element : ∀ path item, Spares front (column.element path item) fun _ => True

/-- An array that is opened spares the front if its elements do. -/
theorem spares_openColumn (key path : String) {waiting : OpenSlots} (clear : Waits front waiting)
    {element : String → Value → Encode Unit}
    (each : ∀ path item, Spares front (element path item) fun _ => True) (items : List Value) :
    Spares front (openColumn key path waiting element items) fun result =>
      Mindful front result.1 ∧ Waits front result.2 := by
  obtain ⟨count, others⟩ := behind_take clear .count key
  obtain ⟨offset, left⟩ := behind_take others .offset key
  unfold openColumn
  split
  · exact .pure ⟨⟨fun _ member => absurd member List.not_mem_nil, each⟩, clear⟩
  · split
    · exact .throw _
    · exact (Spares.resolve count _).bind fun _ _ => .pure ⟨⟨offset, each⟩, left⟩

/-- Elements that are written along links spare the front. -/
theorem spares_writeLinks {columns : List WriteColumn}
    (mindful : ∀ column ∈ columns, Mindful front column) {previous : Option Slot}
    (clear : Behind front previous.toList) (links : List Link) :
    Spares front (writeLinks columns.toArray previous links) fun _ => True := by
  induction links generalizing previous with
  | nil => exact .resolve clear 0
  | cons link rest ih =>
      cases present : columns[link.array]? with
      | none =>
          have absent : columns.toArray[link.array]? = none := by
            rw [List.getElem?_toArray]
            exact present
          rw [writeLinks]
          simp only [absent]
          exact Spares.here.bind fun _ _ => .resolve clear 0
      | some column =>
          have table : columns.toArray[link.array]? = some column := by
            rw [List.getElem?_toArray]
            exact present
          have own := mindful column (List.mem_of_getElem? present)
          have first : Behind front (if link.place = 0 then column.first else none).toList := by
            split
            next => exact own.first
            next => exact fun _ member => absurd member List.not_mem_nil
          rw [writeLinks_cons table]
          refine Spares.here.bind fun position _ =>
            (Spares.resolve first position).bind fun _ _ => ?_
          refine (Spares.resolve clear position).bind fun _ _ => (Spares.put _).bind fun _ _ => ?_
          -- the second link is reserved at the end, and so behind the front
          refine Spares.get.bind fun writer fronted => (Spares.put _).bind fun _ _ => ?_
          refine (own.element _ _).bind fun _ _ => ih ?_
          exact List.forall_mem_singleton.mpr (fronted.atEnd ▸ fronted.behind)

theorem spares_chain {columns : List WriteColumn}
    (mindful : ∀ column ∈ columns, Mindful front column) :
    Spares front (Encode.chain columns) fun _ => True :=
  spares_writeLinks mindful (fun _ member => absurd member List.not_mem_nil) _

/-- Whether writing the fields of a level spares the front, behind arrays that do. -/
def SparesLevel (front : List UInt8) (base path : String) (object : Option Object)
    (fields : List Field) : Prop :=
  ∀ waiting columns, Waits front waiting → (∀ column ∈ columns, Mindful front column) →
    Spares front (encodeFields base path object waiting columns fields) (Waits front)

section

variable {base path : String} {object : Option Object} {field : Field} {rest : List Field}

theorem spares_string (name : String) {waiting : OpenSlots} (clear : Waits front waiting) :
    Spares front (Encode.string base path name object waiting) (Waits front) :=
  fun writer value after fronted done =>
    spares_sendRun _ _ clear _ _ writer value after fronted (string_eq_ok done)

theorem spares_bytes (name : String) {waiting : OpenSlots} (clear : Waits front waiting) :
    Spares front (Encode.bytes base path name object waiting) (Waits front) :=
  fun writer value after fronted done =>
    spares_sendRun _ _ clear _ _ writer value after fronted (bytes_eq_ok done)

theorem spares_column (each : ∀ path item, Spares front (writeElement field path item)
    fun _ => True) {waiting : OpenSlots} (clear : Waits front waiting) :
    Spares front (Encode.column base path field.name object waiting (writeElement field))
      fun result => Mindful front result.1 ∧ Waits front result.2 :=
  fun writer value after fronted done =>
    spares_openColumn _ _ clear each _ writer value after fronted (column_eq_ok done)

/-- Without fields the arrays that wait spare the front. -/
theorem sparesLevel_nil : SparesLevel front base path object [] := by
  intro waiting columns clear mindful
  rw [encodeFields]
  exact (spares_chain mindful).bind fun _ _ => .pure clear

/-- An array that may share its chain waits with the others. -/
theorem sparesLevel_mixed (mixed : field.isMixed = true)
    (each : ∀ path item, Spares front (writeElement field path item) fun _ => True)
    (further : SparesLevel front base path object rest) :
    SparesLevel front base path object (field :: rest) := by
  intro waiting columns clear mindful
  rw [encodeFields_mixed mixed]
  refine (spares_column each clear).bind fun result ⟨last, left⟩ => further _ _ left ?_
  exact List.forall_mem_append.mpr ⟨mindful, List.forall_mem_singleton.mpr last⟩

/-- A field that does not wait is written behind the chain of those that do. -/
theorem sparesLevel_plain (plain : field.isMixed = false)
    (own : ∀ waiting, Waits front waiting →
      Spares front (encodeField base path object waiting field) (Waits front))
    (further : SparesLevel front base path object rest) :
    SparesLevel front base path object (field :: rest) := by
  intro waiting columns clear mindful
  rw [encodeFields_plain plain]
  refine (spares_chain mindful).bind fun _ _ => (own waiting clear).bind fun left still => ?_
  exact further left [] still (by simp)

/-- An array with a chain of its own spares the front. -/
theorem spares_array (array : field.isArray = true)
    (each : ∀ path item, Spares front (writeElement field path item) fun _ => True)
    {waiting : OpenSlots} (clear : Waits front waiting) :
    Spares front (encodeField base path object waiting field) (Waits front) := by
  rw [encodeField_array array]
  refine (spares_column each clear).bind fun result ⟨own, left⟩ => ?_
  exact (spares_chain (List.forall_mem_singleton.mpr own)).bind fun _ _ => .pure left

end

mutual

/-- **Every element spares the front.** -/
theorem spares_writeElement : ∀ (field : Field) (path : String) (item : Value),
    Spares front (writeElement field path item) fun _ => True
  | .scalars _ type _, path, item => .scalar type (some item) path
  | .items _ fields _, path, item => by
      cases item with
      | object values =>
          have level : SparesLevel front "" path (some ⟨values⟩) fields :=
            spares_encodeFields fields "" path _
          have none : Waits front ⟨[]⟩ := fun _ member => absurd member List.not_mem_nil
          exact (level ⟨[]⟩ [] none (by simp)).bind fun _ left => .resolveRest left
      | _ => exact .throw _
  | .header .., _, _ | .scalar .., _, _ | .string _, _, _ | .bytes _, _, _
  | .object .., _, _ => .pure trivial

/-- **Every field spares the front.** -/
theorem spares_encodeField : ∀ (field : Field) (base path : String) (object : Option Object)
    (waiting : OpenSlots), Waits front waiting →
    Spares front (encodeField base path object waiting field) (Waits front)
  | .header kind key, _, _, _, _ => fun clear => by
      rw [encodeField]
      exact spares_header kind _ clear
  | .scalar _ type, _, _, _, _ => fun clear => by
      rw [encodeField]
      exact (Spares.scalar type _ _).bind fun _ _ => .pure clear
  | .string name, _, _, _, _ => fun clear => by
      rw [encodeField]
      exact spares_string name clear
  | .bytes name, _, _, _, _ => fun clear => by
      rw [encodeField]
      exact spares_bytes name clear
  | .object name fields, base, path, object, waiting => fun clear => by
      rw [encodeField]
      intro writer value after fronted done
      obtain ⟨inside, _, looked, done⟩ := bind_eq_ok.mp done
      cases inner_eq_ok looked
      have level : SparesLevel front (dotted base name) (dotted path name)
          ((object.bind (·.get? name)).bind Value.object?) fields :=
        spares_encodeFields fields _ _ _
      exact level waiting [] clear (by simp) writer value after fronted done
  | .scalars name type mixed, _, _, _, _ => fun clear =>
      spares_array rfl (spares_writeElement (.scalars name type mixed)) clear
  | .items name fields mixed, _, _, _, _ => fun clear =>
      spares_array rfl (spares_writeElement (.items name fields mixed)) clear

/-- **Writing the fields of a level spares the front** of the message. -/
theorem spares_encodeFields : ∀ (fields : List Field) (base path : String)
    (object : Option Object), SparesLevel front base path object fields
  | [], _, _, _ => sparesLevel_nil
  | field :: rest, base, path, object => by
      have further : SparesLevel front base path object rest :=
        spares_encodeFields rest base path object
      by_cases mixed : field.isMixed = true
      · exact sparesLevel_mixed mixed (spares_writeElement field) further
      · exact sparesLevel_plain (Bool.eq_false_iff.mpr mixed)
          (spares_encodeField field base path object) further

end

/-- **The front of a message** holds its length and its code. -/
theorem front_encode {layout : Layout} {code : UInt16} {object : Object} {bytes : Bytes}
    (encoded : layout.encode code object = .ok bytes) :
    4 ≤ bytes.size ∧ (numberAt bytes 0).toNat = bytes.size ∧ numberAt bytes 2 = code := by
  obtain ⟨left, middle, after, fields, rest, short, rfl⟩ := encode_eq_ok encoded
  have start : Fronted (littleEndian 2 0 ++ littleEndian 2 code.toNat)
      ((Writer.empty.uint16 0).uint16 code) := by
    rw [Writer.uint16, Writer.uint16, Writer.number, Writer.number, ← Writer.put_append,
      Writer.put_atEnd rfl]
    refine ⟨by simp [Writer.empty], by simp [Writer.empty], fun index inside => ?_⟩
    simp [Writer.empty, List.getElem?_eq_getElem inside]
  have none : Waits (littleEndian 2 0 ++ littleEndian 2 code.toNat) ⟨[]⟩ :=
    fun _ member => absurd member List.not_mem_nil
  obtain ⟨begun, open'⟩ := spares_encodeFields layout.fields "" "" (some object) ⟨[]⟩ [] none
    (by simp) _ left middle start fields
  obtain ⟨whole, _⟩ := Spares.resolveRest open' middle () after begun rest
  have size := whole.behind
  rw [List.length_append, length_littleEndian, length_littleEndian] at size
  have coded : Holds (after.resolve ⟨0⟩ (.ofNat after.length)).bytes 2
      (littleEndian 2 code.toNat) := by
    intro index inside
    rw [Writer.resolve_getElem?_of_misses (.inr (Nat.le_add_right 2 index))]
    exact (Holds.append.mp whole.holds).2 index inside
  have counted : Holds (after.resolve ⟨0⟩ (.ofNat after.length)).bytes 0
      (littleEndian 2 (UInt16.ofNat after.length).toNat) :=
    Writer.holds_resolve (Nat.le_trans (by decide) size)
  rw [Writer.resolve_size]
  refine ⟨size, ?_, ?_⟩
  · rw [counted.numberAt, UInt16.ofNat_toNat, UInt16.toNat_ofNat_of_lt' short]
    rfl
  · rw [coded.numberAt, UInt16.ofNat_toNat]

end Relay.Layout
