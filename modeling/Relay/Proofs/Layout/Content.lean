import Relay.Proofs.Layout.Names
import Relay.Proofs.Layout.Scalar

/-! # What a layout makes of an object

A layout takes from an object what its fields name and fills in the rest
(`Relay.Layout.completed`). An object that conforms to a layout has exactly its fields, in order,
and loses nothing by being completed (`Relay.Layout.alike_completed`): only numbers that are none
and rotations may change, so that without them the object stays as it is
(`Relay.Layout.completed_of_conforms`). -/

namespace Relay

/-- The run of bytes that a value is. -/
def Value.bytes? : Value → Option Bytes
  | .bytes run => some run
  | _ => none

namespace Field

/-- Whether a field is an array. -/
def isArray : Field → Bool
  | .scalars .. | .items .. => true
  | _ => false

/-- Whether a field is an array that may share its chain. -/
def isMixed : Field → Bool
  | .scalars _ _ mixed => mixed
  | .items _ _ mixed => mixed
  | _ => false

/-- An array that may share its chain is an array. -/
theorem isArray_of_isMixed {field : Field} (mixed : field.isMixed = true) :
    field.isArray = true := by
  cases field with
  | scalars | items => rfl
  | _ => cases mixed

/-- What is no array does not share a chain. -/
theorem isMixed_of_isArray {field : Field} (single : field.isArray = false) :
    field.isMixed = false := by
  cases field with
  | scalars | items => cases single
  | _ => rfl

/-- An array is no header. -/
theorem isHeader_of_isArray {field : Field} (array : field.isArray = true) :
    field.isHeader = false := by
  cases field with
  | scalars | items => rfl
  | _ => cases array

end Field

namespace Layout

/-- The items of an item that is an array, none if it is no array. -/
def itemsIn (item : Option Value) : List Value :=
  (item.bind Value.items?).getD []

/-- The text that an item is, empty if it is none. -/
def textIn (item : Option Value) : String :=
  (item.bind Value.string?).getD ""

/-- The run of bytes that an item is, empty if it is none. -/
def runIn (item : Option Value) : Bytes :=
  (item.bind Value.bytes?).getD #[]

/-- What an object has under the name of a field. -/
def under (object : Option Object) (field : Field) : Option Value :=
  object.bind (·.get? field.name)

mutual

/-- What is read of a field that was written with an item, or with nothing. A header holds nothing
of its own. -/
def completed (item : Option Value) : Field → Value
  | .header .. => .array []
  | .scalar _ type => item.elim type.zero fun value => type.stored (some value)
  | .string _ => .string (textIn item)
  | .bytes _ => .bytes (runIn item)
  | .object _ fields => .object (completedAll (item.bind Value.object?) fields)
  | .scalars _ type _ => .array ((itemsIn item).map fun value => type.stored (some value))
  | .items _ fields _ =>
    .array ((itemsIn item).map fun value => .object (completedAll value.object? fields))

/-- What is read of fields that were written with an object, or with nothing. -/
def completedAll (object : Option Object) : List Field → List (String × Value)
  | [] => []
  | field :: rest =>
    if field.isHeader then completedAll object rest
    else (field.name, completed (under object field) field) :: completedAll object rest

end

/-- What is read of an element of an array. -/
def completedElement (value : Value) : Field → Value
  | .scalars _ type _ => type.stored (some value)
  | .items _ fields _ => .object (completedAll value.object? fields)
  | _ => value

mutual

/-- What a field is read as that was left out: zero, or empty, or an object of such fields. -/
def blank : Field → Value
  | .scalar _ type => type.zero
  | .string _ => .string ""
  | .bytes _ => .bytes #[]
  | .object _ fields => .object (blanks fields)
  | .header .. | .scalars .. | .items .. => .array []

/-- What fields are read as that were all left out. -/
def blanks : List Field → List (String × Value)
  | [] => []
  | field :: rest =>
    if field.isHeader then blanks rest else (field.name, blank field) :: blanks rest

end

mutual

/-- A field that is written with nothing is read as a blank one. -/
theorem completed_none : ∀ field : Field, completed none field = blank field
  | .header .. => rfl
  | .scalar .. | .string _ | .bytes _ | .scalars .. | .items .. => by rw [completed, blank]; rfl
  | .object _ fields => by
      rw [completed, blank]
      exact congrArg Value.object (completedAll_none fields)

/-- Fields that are written with nothing are read as blank ones. -/
theorem completedAll_none : ∀ fields : List Field, completedAll none fields = blanks fields
  | [] => rfl
  | field :: rest => by
      have first : completed (under none field) field = blank field := completed_none field
      rw [completedAll, blanks, first, completedAll_none rest]

end

/-- A scalar is read as it was stored. -/
theorem completed_scalar (item : Option Value) (name : String) (type : Scalar) :
    completed item (.scalar name type) = type.stored item := by
  rw [completed]
  cases item with
  | none => exact type.stored_none.symm
  | some value => rfl

/-- An array is read as its elements are. -/
theorem completed_array {field : Field} (array : field.isArray = true) (item : Option Value) :
    completed item field = .array ((itemsIn item).map (completedElement · field)) := by
  cases field with
  | scalars name type mixed => rw [completed]; rfl
  | items name fields mixed => rw [completed]; rfl
  | _ => cases array

/-- What is read of one field, under its name. -/
def ownOf (object : Option Object) (field : Field) : List (String × Value) :=
  if field.isHeader then [] else [(field.name, completed (under object field) field)]

/-- What is read of the first field comes before what is read of the others. -/
theorem completedAll_cons (object : Option Object) (field : Field) (rest : List Field) :
    completedAll object (field :: rest) = ownOf object field ++ completedAll object rest := by
  rw [completedAll, ownOf]
  split
  · rfl
  · rfl

/-- An array is read under its name, and then the other fields. -/
theorem completedAll_array {object : Option Object} {field : Field} {rest : List Field}
    (array : field.isArray = true) :
    completedAll object (field :: rest) =
      (field.name, .array ((itemsIn (under object field)).map (completedElement · field))) ::
        completedAll object rest := by
  have value : ¬ field.isHeader = true := by
    rw [Field.isHeader_of_isArray array]
    exact Bool.false_ne_true
  rw [completedAll, if_neg value, completed_array array]

mutual

/-- Whether a value is what a field may be read as. -/
def Fits : Field → Value → Prop
  | .header .., _ => False
  | .scalar _ type, value => type.Fits value
  | .string _, value => ∃ text, value = .string text
  | .bytes _, value => ∃ run, value = .bytes run
  | .object _ fields, value => ∃ inner, value = .object inner ∧ Conforms fields inner
  | .scalars _ type _, value => ∃ items, value = .array items ∧ ∀ item ∈ items, type.Fits item
  | .items _ fields _, value =>
    ∃ items, value = .array items ∧
      ∀ item ∈ items, ∃ inner, item = .object inner ∧ Conforms fields inner

/-- Whether named values are exactly those of the fields that hold one, in order, and each fits its
field. -/
def Conforms : List Field → List (String × Value) → Prop
  | [], values => values = []
  | field :: rest, values =>
    if field.isHeader then Conforms rest values
    else ∃ value others, values = (field.name, value) :: others ∧ Fits field value ∧
      Conforms rest others

end

/-- A header holds no value. -/
theorem Conforms.of_header {field : Field} {rest : List Field} {values : List (String × Value)}
    (header : field.isHeader = true) (conforms : Conforms rest values) :
    Conforms (field :: rest) values := by
  rw [Conforms, if_pos header]
  exact conforms

/-- The value of a field comes before those of the fields behind it. -/
theorem Conforms.of_value {field : Field} {rest : List Field} {value : Value}
    {others : List (String × Value)} (holds : field.isHeader = false) (fits : Fits field value)
    (conforms : Conforms rest others) :
    Conforms (field :: rest) ((field.name, value) :: others) := by
  rw [Conforms, if_neg (Bool.eq_false_iff.mp holds)]
  exact ⟨value, others, rfl, fits, conforms⟩

mutual

/-- Whether two values of a field say the same, up to what a scalar may change. -/
def Alike : Field → Value → Value → Prop
  | .scalar _ type, x, y => type.Alike x y
  | .object _ fields, x, y => ∃ xs ys, x = .object xs ∧ y = .object ys ∧ AlikeAll fields xs ys
  | .scalars _ type _, x, y =>
    ∃ xs ys, x = .array xs ∧ y = .array ys ∧ xs.length = ys.length ∧
      ∀ pair ∈ xs.zip ys, type.Alike pair.1 pair.2
  | .items _ fields _, x, y =>
    ∃ xs ys, x = .array xs ∧ y = .array ys ∧ xs.length = ys.length ∧
      ∀ pair ∈ xs.zip ys, ∃ inner other, pair.1 = .object inner ∧ pair.2 = .object other ∧
        AlikeAll fields inner other
  | _, x, y => x = y

/-- Whether two lists of named values of fields say the same. -/
def AlikeAll : List Field → List (String × Value) → List (String × Value) → Prop
  | [], xs, ys => xs = [] ∧ ys = []
  | field :: rest, xs, ys =>
    if field.isHeader then AlikeAll rest xs ys
    else ∃ x y others more, xs = (field.name, x) :: others ∧ ys = (field.name, y) :: more ∧
      Alike field x y ∧ AlikeAll rest others more

end

mutual

/-- Whether a value and all values in it have a property. -/
def Throughout (has : Value → Prop) : Value → Prop
  | .array items => has (.array items) ∧ ItemsThroughout has items
  | .object fields => has (.object fields) ∧ FieldsThroughout has fields
  | value => has value

/-- Whether items and all values in them have a property. -/
def ItemsThroughout (has : Value → Prop) : List Value → Prop
  | [] => True
  | item :: rest => Throughout has item ∧ ItemsThroughout has rest

/-- Whether named values and all values in them have a property. -/
def FieldsThroughout (has : Value → Prop) : List (String × Value) → Prop
  | [] => True
  | (_, value) :: rest => Throughout has value ∧ FieldsThroughout has rest

end

/-- Whether a value is no text with a zero character. -/
def IsPlain : Value → Prop
  | .string text => '\x00' ∉ text.toList
  | _ => True

/-- Whether a value is no pattern of 32 bits that is no number. -/
def IsNumber : Value → Prop
  | .float x => x.isNaN = false
  | _ => True

mutual

/-- Whether a field has no rotations, which are not kept exactly. -/
def isStraight : Field → Bool
  | .scalar _ type => type != .rotation
  | .scalars _ type _ => type != .rotation
  | .object _ fields => areStraight fields
  | .items _ fields _ => areStraight fields
  | _ => true

/-- Whether fields have no rotations. -/
def areStraight : List Field → Bool
  | [] => true
  | field :: rest => isStraight field && areStraight rest

end

section

variable {has : Value → Prop}

/-- What all items have every item has. -/
theorem ItemsThroughout.of_mem {items : List Value} (throughout : ItemsThroughout has items) :
    ∀ item ∈ items, Throughout has item := by
  induction items with
  | nil => simp
  | cons item rest ih =>
      rw [ItemsThroughout] at throughout
      intro other member
      rcases List.mem_cons.mp member with rfl | member
      · exact throughout.1
      · exact ih throughout.2 other member

/-- What every item has all items have. -/
theorem ItemsThroughout.of_forall {items : List Value}
    (throughout : ∀ item ∈ items, Throughout has item) : ItemsThroughout has items := by
  induction items with
  | nil => trivial
  | cons item rest ih =>
      rw [ItemsThroughout]
      exact ⟨throughout item List.mem_cons_self,
        ih fun other member => throughout other (List.mem_cons_of_mem _ member)⟩

/-- What all fields have, every field has that is found by its name. -/
theorem FieldsThroughout.of_lookup {fields : List (String × Value)}
    (throughout : FieldsThroughout has fields) {name : String} {value : Value}
    (found : fields.lookup name = some value) :
    Throughout has value := by
  induction fields with
  | nil => cases found
  | cons pair rest ih =>
      obtain ⟨other, first⟩ := pair
      rw [FieldsThroughout] at throughout
      rw [List.lookup_cons] at found
      split at found
      next =>
        cases found
        exact throughout.1
      next => exact ih throughout.2 found

mutual

/-- A value has throughout what follows from what it has throughout. -/
theorem Throughout.imp {also : Value → Prop} (implies : ∀ value, has value → also value) :
    ∀ {value : Value}, Throughout has value → Throughout also value
  | .array items, whole => by
      rw [Throughout] at whole ⊢
      exact ⟨implies _ whole.1, whole.2.imp implies⟩
  | .object fields, whole => by
      rw [Throughout] at whole ⊢
      exact ⟨implies _ whole.1, whole.2.imp implies⟩
  | .bool _, whole | .byte _, whole | .int16 _, whole | .uint16 _, whole | .int32 _, whole
  | .uint32 _, whole | .int64 _, whole | .uint64 _, whole | .float _, whole | .double _, whole
  | .vector _, whole | .angle _, whole | .skill _, whole | .appearance _, whole
  | .string _, whole | .bytes _, whole => implies _ whole

theorem ItemsThroughout.imp {also : Value → Prop} (implies : ∀ value, has value → also value) :
    ∀ {items : List Value}, ItemsThroughout has items → ItemsThroughout also items
  | [], _ => trivial
  | _ :: _, whole => ⟨whole.1.imp implies, whole.2.imp implies⟩

theorem FieldsThroughout.imp {also : Value → Prop} (implies : ∀ value, has value → also value) :
    ∀ {fields : List (String × Value)}, FieldsThroughout has fields → FieldsThroughout also fields
  | [], _ => trivial
  | (_, _) :: _, whole => ⟨whole.1.imp implies, whole.2.imp implies⟩

end

mutual

/-- What all values have a value has throughout. -/
theorem Throughout.of_all (all : ∀ value, has value) : ∀ value : Value, Throughout has value
  | .array items => by
      rw [Throughout]
      exact ⟨all _, .of_all all items⟩
  | .object fields => by
      rw [Throughout]
      exact ⟨all _, .of_all all fields⟩
  | .bool _ | .byte _ | .int16 _ | .uint16 _ | .int32 _ | .uint32 _ | .int64 _ | .uint64 _
  | .float _ | .double _ | .vector _ | .angle _ | .skill _ | .appearance _ | .string _
  | .bytes _ => all _

theorem ItemsThroughout.of_all (all : ∀ value, has value) :
    ∀ items : List Value, ItemsThroughout has items
  | [] => trivial
  | item :: rest => ⟨.of_all all item, .of_all all rest⟩

theorem FieldsThroughout.of_all (all : ∀ value, has value) :
    ∀ fields : List (String × Value), FieldsThroughout has fields
  | [] => trivial
  | (_, value) :: rest => ⟨.of_all all value, .of_all all rest⟩

end

/-- What is under a name has the property of the object. -/
theorem throughout_under {object : Option Object}
    (throughout : ∀ known ∈ object, FieldsThroughout has known.fields) (field : Field) :
    ∀ value ∈ under object field, Throughout has value := by
  intro value found
  obtain ⟨known, present, found⟩ := Option.bind_eq_some_iff.mp found
  exact (throughout known present).of_lookup found

/-- What a value has throughout the fields of the object have that it is. -/
theorem throughout_object? {item : Option Value}
    (throughout : ∀ value ∈ item, Throughout has value) :
    ∀ inner ∈ item.bind Value.object?, FieldsThroughout has inner.fields := by
  intro inner present
  obtain ⟨value, given, present⟩ := Option.bind_eq_some_iff.mp present
  have whole := throughout value given
  cases value with
  | object fields =>
      cases present
      rw [Throughout] at whole
      exact whole.2
  | _ => cases present

/-- What a value has throughout its items have. -/
theorem throughout_of_mem_itemsIn {item : Option Value}
    (throughout : ∀ value ∈ item, Throughout has value) :
    ∀ value ∈ itemsIn item, Throughout has value := by
  intro value member
  cases item with
  | none => cases member
  | some given =>
      have whole := throughout given rfl
      cases given with
      | array items =>
          rw [Throughout] at whole
          exact whole.2.of_mem value member
      | _ => cases member

end

/-- The text of a plain value has no zero character. -/
theorem plain_textIn {item : Option Value} (plain : ∀ value ∈ item, Throughout IsPlain value) :
    '\x00' ∉ (textIn item).toList := by
  cases item with
  | none => simp [textIn]
  | some value =>
      have whole := plain value rfl
      cases value with
      | string text => exact whole
      | _ => simp [textIn, Value.string?]

/-- The names of an object that conforms are those of the fields. -/
theorem names_of_conforms {fields : List Field} {values : List (String × Value)}
    (conforms : Conforms fields values) : values.map Prod.fst = valueNames fields := by
  induction fields generalizing values with
  | nil =>
      rw [Conforms] at conforms
      subst conforms
      rfl
  | cons field rest ih =>
      rw [Conforms] at conforms
      rw [valueNames_cons]
      split at conforms
      next header =>
        rw [if_pos header]
        exact ih conforms
      next header =>
        obtain ⟨value, others, rfl, _, conforms⟩ := conforms
        rw [if_neg header, List.map_cons, ih conforms]

/-- Values that conform are found by their names. -/
theorem get?_of_conforms {fields : List Field} {values : List (String × Value)}
    (named : WellNamed fields) (conforms : Conforms fields values) :
    ∀ pair ∈ values, (⟨values⟩ : Object).get? pair.1 = some pair.2 := by
  intro pair member
  have distinct : (values.map Prod.fst).Nodup := by
    rw [names_of_conforms conforms]
    exact nodup_valueNames named
  exact lookup_of_mem distinct member

/-- What stands beside an item in a mapped list is what it is changed to. -/
theorem mem_zip_map {α β : Type} {change : α → β} {xs : List α} {pair : α × β}
    (member : pair ∈ xs.zip (xs.map change)) : pair.1 ∈ xs ∧ pair.2 = change pair.1 := by
  induction xs with
  | nil => cases member
  | cons x rest ih =>
      rw [List.map_cons, List.zip_cons_cons] at member
      rcases List.mem_cons.mp member with rfl | member
      · exact ⟨List.mem_cons_self, rfl⟩
      · obtain ⟨present, same⟩ := ih member
        exact ⟨List.mem_cons_of_mem _ present, same⟩

mutual

/-- A value that fits a field is read as one that says the same. -/
theorem alike_completed_field : ∀ {field : Field} {value : Value},
    WellNamedBelow field → Fits field value → Alike field value (completed (some value) field)
  | .header .., _, _, fits => fits.elim
  | .scalar _ type, value, _, fits => by
      rw [completed_scalar, Alike]
      exact alike_stored fits
  | .string _, _, _, ⟨_, found⟩ => by
      subst found
      rfl
  | .bytes _, _, _, ⟨_, found⟩ => by
      subst found
      rfl
  | .object _ fields, _, named, ⟨inner, found, conforms⟩ => by
      subst found
      rw [completed, Alike]
      rw [WellNamedBelow] at named
      exact ⟨inner, _, rfl, rfl,
        alike_completedAll named conforms (get?_of_conforms named conforms)⟩
  | .scalars _ type _, _, _, ⟨items, found, fits⟩ => by
      subst found
      rw [completed, Alike]
      refine ⟨items, _, rfl, rfl, by rw [List.length_map]; rfl, ?_⟩
      intro pair member
      obtain ⟨present, same⟩ := mem_zip_map member
      rw [same]
      exact alike_stored (fits pair.1 present)
  | .items _ fields _, _, named, ⟨items, found, fits⟩ => by
      subst found
      rw [completed, Alike]
      rw [WellNamedBelow] at named
      refine ⟨items, _, rfl, rfl, by rw [List.length_map]; rfl, ?_⟩
      intro pair member
      obtain ⟨present, same⟩ := mem_zip_map member
      obtain ⟨inner, object, conforms⟩ := fits pair.1 present
      refine ⟨inner, _, object, same, ?_⟩
      rw [object]
      exact alike_completedAll named conforms (get?_of_conforms named conforms)

/-- Being completed changes nothing but what scalars may change. -/
theorem alike_completedAll : ∀ {fields : List Field} {values : List (String × Value)}
    {object : Option Object}, WellNamed fields → Conforms fields values →
    (∀ pair ∈ values, object.bind (·.get? pair.1) = some pair.2) →
    AlikeAll fields values (completedAll object fields)
  | [], _, _, _, conforms, _ => ⟨conforms, rfl⟩
  | field :: rest, values, object, named, conforms, found => by
      rw [WellNamed] at named
      rw [Conforms] at conforms
      rw [completedAll, AlikeAll]
      by_cases header : field.isHeader = true
      · rw [if_pos header] at conforms ⊢
        rw [if_pos header]
        exact alike_completedAll named.2.2 conforms found
      · rw [if_neg header] at conforms ⊢
        obtain ⟨value, others, rfl, fits, conforms⟩ := conforms
        rw [if_neg header]
        have present : under object field = some value :=
          found (field.name, value) List.mem_cons_self
        refine ⟨value, _, others, _, rfl, rfl, ?_, ?_⟩
        · rw [present]
          exact alike_completed_field named.2.1 fits
        · exact alike_completedAll named.2.2 conforms fun pair member =>
            found pair (List.mem_cons_of_mem _ member)

end

/-- Two scalars that say the same are the same, unless they are rotations or no numbers. -/
theorem eq_of_alike_scalar {type : Scalar} {x y : Value} (straight : type ≠ .rotation)
    (number : Throughout IsNumber x) (alike : type.Alike x y) : x = y := by
  rcases alike with same | ⟨rotation, _⟩ | ⟨v, w, rfl, rfl, nan, _⟩
  · exact same
  · exact absurd rotation straight
  · rw [Throughout, IsNumber, nan] at number
    · cases number
    · rintro _ ⟨⟩
    · rintro _ ⟨⟩

/-- Lists are equal when their lengths are and they agree place by place. -/
theorem eq_of_zip {α : Type} {xs ys : List α} (length : xs.length = ys.length)
    (agree : ∀ pair ∈ xs.zip ys, pair.1 = pair.2) : xs = ys := by
  induction xs generalizing ys with
  | nil => exact (List.length_eq_zero_iff.mp length.symm).symm
  | cons x rest ih =>
      cases ys with
      | nil => cases length
      | cons y more =>
          have first : x = y := agree (x, y) List.mem_cons_self
          have others := ih (Nat.succ.inj length) fun pair member =>
            agree pair (List.mem_cons_of_mem _ member)
          rw [first, others]

mutual

/-- Two values of a field that say the same are the same, unless there are rotations or what is no
number. -/
theorem eq_of_alike_field : ∀ {field : Field} {x y : Value},
    isStraight field = true → Throughout IsNumber x → Alike field x y → x = y
  | .scalar _ type, x, y, straight, number, alike => by
      rw [isStraight, bne_iff_ne] at straight
      rw [Alike] at alike
      exact eq_of_alike_scalar straight number alike
  | .object _ fields, _, _, straight, number, alike => by
      rw [Alike] at alike
      obtain ⟨xs, ys, rfl, rfl, alike⟩ := alike
      rw [isStraight] at straight
      rw [Throughout] at number
      rw [eq_of_alikeAll straight number.2 alike]
  | .scalars _ type _, _, _, straight, number, alike => by
      rw [Alike] at alike
      obtain ⟨xs, ys, rfl, rfl, length, alike⟩ := alike
      rw [isStraight, bne_iff_ne] at straight
      rw [Throughout] at number
      congr 1
      refine eq_of_zip length fun pair member => ?_
      have present := (List.of_mem_zip member).1
      exact eq_of_alike_scalar straight (number.2.of_mem pair.1 present) (alike pair member)
  | .items _ fields _, _, _, straight, number, alike => by
      rw [Alike] at alike
      obtain ⟨xs, ys, rfl, rfl, length, alike⟩ := alike
      rw [isStraight] at straight
      rw [Throughout] at number
      congr 1
      refine eq_of_zip length fun pair member => ?_
      have throughout := number.2.of_mem pair.1 (List.of_mem_zip member).1
      obtain ⟨inner, other, left, right, alike⟩ := alike pair member
      rw [left, Throughout] at throughout
      rw [left, right, eq_of_alikeAll straight throughout.2 alike]
  | .header .., _, _, _, _, alike | .string _, _, _, _, _, alike
  | .bytes _, _, _, _, _, alike => alike

/-- Without rotations, and patterns that are no number, what says the same is the same. -/
theorem eq_of_alikeAll : ∀ {fields : List Field} {xs ys : List (String × Value)},
    areStraight fields = true → FieldsThroughout IsNumber xs → AlikeAll fields xs ys → xs = ys
  | [], _, _, _, _, alike => by
      rw [AlikeAll] at alike
      rw [alike.1, alike.2]
  | field :: rest, xs, ys, straight, numbers, alike => by
      rw [areStraight, Bool.and_eq_true] at straight
      rw [AlikeAll] at alike
      split at alike
      next => exact eq_of_alikeAll straight.2 numbers alike
      next =>
        obtain ⟨x, y, others, more, rfl, rfl, alike, further⟩ := alike
        rw [FieldsThroughout] at numbers
        rw [eq_of_alike_field straight.1 numbers.1 alike,
          eq_of_alikeAll straight.2 numbers.2 further]

end

/-- What is read of fields has the names of those that hold a value. -/
theorem names_completedAll (object : Option Object) (fields : List Field) :
    (completedAll object fields).map Prod.fst = valueNames fields := by
  induction fields with
  | nil => rfl
  | cons field rest ih =>
      rw [completedAll, valueNames_cons]
      split
      · exact ih
      · rw [List.map_cons, ih]

/-- What is completed has the value of every field under its name. -/
theorem under_completedAll {fields : List Field} (named : WellNamed fields)
    (object : Option Object) : ∀ field ∈ fields, field.isHeader = false →
      under (some ⟨completedAll object fields⟩) field =
        some (completed (under object field) field) := by
  intro field member holds
  have listed : (field.name, completed (under object field) field) ∈
      completedAll object fields := by
    clear named
    induction fields with
    | nil => cases member
    | cons first rest ih =>
        rw [completedAll]
        rcases List.mem_cons.mp member with rfl | later
        · rw [if_neg (Bool.eq_false_iff.mp holds)]
          exact List.mem_cons_self
        · split
          · exact ih later
          · exact List.mem_cons_of_mem _ (ih later)
  refine lookup_of_mem ?_ listed
  rw [names_completedAll]
  exact nodup_valueNames named

/-- **An object that conforms is complete.** -/
theorem completed_of_conforms {fields : List Field} {values : List (String × Value)}
    (named : WellNamed fields) (conforms : Conforms fields values)
    (straight : areStraight fields = true) (numbers : FieldsThroughout IsNumber values) :
    completedAll (some ⟨values⟩) fields = values := by
  have alike : AlikeAll fields values (completedAll (some ⟨values⟩) fields) :=
    alike_completedAll named conforms (get?_of_conforms named conforms)
  exact (eq_of_alikeAll straight numbers alike).symm

end Layout

end Relay
