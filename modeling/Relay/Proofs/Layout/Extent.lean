import Relay.Proofs.Layout.RoundTrip
import Relay.Proofs.Layout.Trails

/-! # How long a message becomes

How many bytes the fields of a layout take can be told from the object alone
(`Relay.Layout.extentAll`). If every value is of the kind that its field is read as, nothing but
this length decides whether the object is written (`Relay.Layout.encode_extent`): positions and
counts are checked one by one, and each of them is less than the length of the whole. -/

namespace Relay

open Relay.Stream

/-- Whether a value is of the kind that a scalar is read as. Any skill is, whether or not it fits
the word that it is written to. -/
def Scalar.Suits (type : Scalar) (value : Value) : Prop :=
  type.Fits value ∨ (type = .skill32 ∨ type = .skill) ∧ ∃ skill, value = .skill skill

/-- Whether an object is refused because there is too much of something. -/
def EncodeError.IsOverflow (error : EncodeError) : Prop :=
  (∃ path length, error = .countOverflow path length) ∨ ∃ length, error = .tooLarge length

namespace Layout

open Encode

mutual

/-- How many bytes a field takes that is written with an item, or with nothing. An element of an
array takes two links more than what it holds. -/
def extentOf (item : Option Value) : Field → Nat
  | .header .. => 2
  | .scalar _ type => type.width
  | .string _ => 2 * ((Text.units (textIn item).toList).length + 1)
  | .bytes _ => (runIn item).size
  | .object _ fields => extentAll (item.bind Value.object?) fields
  | .scalars _ type _ => ((itemsIn item).map fun _ => 4 + type.width).sum
  | .items _ fields _ => ((itemsIn item).map fun value => 4 + extentAll value.object? fields).sum

/-- How many bytes fields take that are written with an object, or with nothing. -/
def extentAll (object : Option Object) : List Field → Nat
  | [] => 0
  | field :: rest => extentOf (under object field) field + extentAll object rest

end

mutual

/-- Whether a value is of the kind that a field is read as. A header asks for nothing. -/
def Suits : Field → Value → Prop
  | .header .., _ => True
  | .scalar _ type, value => type.Suits value
  | .string _, value => ∃ text, value = .string text
  | .bytes _, value => ∃ run, value = .bytes run
  | .object _ fields, value => ∃ inner, value = .object inner ∧ SuitsAll fields ⟨inner⟩
  | .scalars _ type _, value => ∃ items, value = .array items ∧ ∀ item ∈ items, type.Suits item
  | .items _ fields _, value =>
    ∃ items, value = .array items ∧
      ∀ item ∈ items, ∃ inner, item = .object inner ∧ SuitsAll fields ⟨inner⟩

/-- Whether what an object has under the names of fields suits them, in whatever order it is. -/
def SuitsAll : List Field → Object → Prop
  | [], _ => True
  | field :: rest, object =>
    (∀ value ∈ object.get? field.name, Suits field value) ∧ SuitsAll rest object

end

mutual

/-- What a field may be read as suits it. -/
theorem suits_of_fits : ∀ {field : Field} {value : Value}, WellNamedBelow field →
    Fits field value → Suits field value
  | .header .., _, _, fits => fits.elim
  | .scalar .., _, _, fits => by
      rw [Suits]
      exact .inl fits
  | .string _, _, _, fits | .bytes _, _, _, fits => by
      rw [Suits]
      exact fits
  | .object _ fields, _, named, ⟨below, same, conforms⟩ => by
      rw [WellNamedBelow] at named
      rw [Suits]
      exact ⟨below, same, suitsAll_of_conforms named conforms (get?_of_conforms named conforms)⟩
  | .scalars .., _, _, ⟨items, same, fits⟩ => by
      rw [Suits]
      exact ⟨items, same, fun item member => .inl (fits item member)⟩
  | .items _ fields _, _, named, ⟨items, same, fits⟩ => by
      rw [WellNamedBelow] at named
      rw [Suits]
      refine ⟨items, same, fun item member => ?_⟩
      obtain ⟨inner, given, conforms⟩ := fits item member
      exact ⟨inner, given, suitsAll_of_conforms named conforms (get?_of_conforms named conforms)⟩

/-- What conforms to a layout suits it. -/
theorem suitsAll_of_conforms : ∀ {fields : List Field} {values : List (String × Value)}
    {object : Object}, WellNamed fields → Conforms fields values →
    (∀ pair ∈ values, object.get? pair.1 = some pair.2) → SuitsAll fields object
  | [], _, _, _, _, _ => by
      rw [SuitsAll]
      exact trivial
  | field :: rest, values, object, named, conforms, found => by
      rw [WellNamed] at named
      rw [SuitsAll]
      by_cases header : field.isHeader = true
      · rw [Conforms, if_pos header] at conforms
        refine ⟨fun value _ => ?_, suitsAll_of_conforms named.2.2 conforms found⟩
        cases field with
        | header =>
            rw [Suits]
            exact trivial
        | _ => cases header
      · rw [Conforms, if_neg header] at conforms
        obtain ⟨value, others, rfl, fits, conforms⟩ := conforms
        obtain ⟨own, found⟩ := List.forall_mem_cons.mp found
        refine ⟨fun other present => ?_, suitsAll_of_conforms named.2.2 conforms found⟩
        obtain rfl := Option.some.inj (own.symm.trans present)
        exact suits_of_fits named.2.1 fits

end

/-- What an element of an array takes without its links. -/
def elementExtent : Field → Value → Nat
  | .scalars _ type _, _ => type.width
  | .items _ fields _, value => extentAll value.object? fields
  | _, _ => 0

/-- An array takes for every element two links and what the element holds. -/
theorem extentOf_array {field : Field} (array : field.isArray = true) (item : Option Value) :
    extentOf item field = ((itemsIn item).map fun value => 4 + elementExtent field value).sum := by
  cases field with
  | scalars | items =>
      rw [extentOf]
      rfl
  | _ => cases array

/-! ## The elements of a chain taken together -/

section

variable {bound place : Nat}

/-- Weights that are looked up by place are all weights, and nothing behind them. -/
theorem sum_getD {weights : List Nat} (least : weights.length ≤ bound) :
    ((List.range bound).map fun place => weights.getD place 0).sum = weights.sum := by
  induction weights generalizing bound with
  | nil => simp
  | cons weight rest ih =>
      obtain ⟨bound, rfl⟩ := Nat.exists_eq_succ_of_ne_zero (Nat.ne_of_gt (Nat.zero_lt_of_lt least))
      rw [List.range_succ_eq_map, List.map_cons, List.map_map, List.sum_cons, List.sum_cons]
      exact congrArg (weight + ·) (ih (Nat.le_of_succ_le_succ least))

/-- What stands in one round is taken from every array that is long enough. -/
theorem sum_round_from {table whole : List (List Nat)} {first : Nat}
    (same : ∀ index, whole.getD (first + index) [] = table.getD index []) :
    (((((table.map List.length).zipIdx first).filter fun (count, _) => decide (place < count)).map
        fun (_, index) => (⟨index, place⟩ : Link)).map
          fun link => (whole.getD link.array []).getD link.place 0).sum =
      (table.map fun weights => weights.getD place 0).sum := by
  induction table generalizing first with
  | nil => rfl
  | cons weights rest ih =>
      have own : whole.getD first [] = weights := same 0
      have others := @ih (first + 1) fun index => by
        have shifted := same (index + 1)
        rwa [← Nat.add_assoc, Nat.add_right_comm] at shifted
      rw [List.map_cons, List.zipIdx_cons, List.filter_cons, List.map_cons, List.sum_cons]
      by_cases inside : place < weights.length
      · simp only [inside, decide_true, ↓reduceIte, List.map_cons, List.sum_cons, own]
        rw [others]
      · have nothing : weights.getD place 0 = 0 := by
          rw [List.getD_eq_getElem?_getD, List.getElem?_eq_none (Nat.le_of_not_lt inside)]
          rfl
        simp only [inside, decide_false, Bool.false_eq_true, ↓reduceIte, nothing, Nat.zero_add]
        exact others

/-- The rounds of all arrays weigh as much as the arrays do. -/
theorem sum_rounds_getD {table : List (List Nat)}
    (least : ∀ weights ∈ table, weights.length ≤ bound) :
    ((List.range bound).map fun place =>
      (table.map fun weights => weights.getD place 0).sum).sum = (table.map List.sum).sum := by
  induction table with
  | nil => simp
  | cons weights rest ih =>
      obtain ⟨own, others⟩ := List.forall_mem_cons.mp least
      simp only [List.map_cons, List.sum_cons]
      rw [List.sum_map_add, ih others, sum_getD own]

/-- **A chain takes what its arrays take.** -/
theorem sum_roundRobin (table : List (List Nat)) :
    ((roundRobin (table.map List.length)).map
        fun link => (table.getD link.array []).getD link.place 0).sum =
      (table.map List.sum).sum := by
  have turn (place : Nat) : ((round (table.map List.length) place).map
      fun link => (table.getD link.array []).getD link.place 0).sum =
        (table.map fun weights => weights.getD place 0).sum :=
    sum_round_from fun index => by rw [Nat.zero_add]
  have least (weights : List Nat) (member : weights ∈ table) :
      weights.length ≤ (table.map List.length).foldl max 0 :=
    (le_foldl_max _ 0).2 _ (List.mem_map_of_mem member)
  rw [roundRobin, List.map_flatMap, List.flatMap_def, List.sum_flatten, List.map_map]
  simp only [Function.comp_def, turn]
  exact sum_rounds_getD least

end

/-! ## Steps of writing -/

/-- A step that fails at its beginning fails as a whole. -/
theorem Encode.bind_of_error {α β : Type} {step : Encode α} {next : α → Encode β}
    {writer : Writer} {error : EncodeError} (failed : step writer = .error error) :
    (step >>= next) writer = .error error := by
  change (step writer >>= fun pair => next pair.1 pair.2) = _
  rw [failed]
  rfl

/-- What is left out is written as zero. -/
theorem scalar_of_none {type : Scalar} {path : String} {writer : Writer} :
    ∃ result, Encode.scalar type none path writer = .ok result := by
  cases type with
  | bool => exact (draws_truth _ _ _).writes rfl _
  | byte | uint16 | uint32 | uint64 => exact (draws_natural _ _ _ _).writes rfl _
  | int16 | int32 | int64 => exact (draws_signed _ _ _ _).writes rfl _
  | float | double => exact (draws_number _ _ _).writes rfl _
  | vector | rotation => exact (draws_vector _ _ _).writes rfl _
  | angle => exact (draws_angle _ _ _).writes rfl _
  | skill32 | skill => exact (draws_skill _ _ _).writes rfl _
  | appearance => exact (draws_appearance _ _ _).writes rfl _

/-- A writer stands at the end of so many bytes. -/
def AtEnd (writer : Writer) (length : Nat) : Prop :=
  writer.position = length ∧ writer.bytes.size = length

/-- A run that is put makes the end move by its length. -/
theorem AtEnd.put {writer : Writer} {length : Nat} (atEnd : AtEnd writer length)
    (run : List UInt8) : AtEnd (writer.put run) (length + run.length) := by
  obtain ⟨position, rfl⟩ := atEnd
  rw [Writer.put_atEnd position]
  exact ⟨rfl, by simp⟩

/-- A step of writing that adds `extent` bytes, with a result that has a property. It fails only
because there is too much of something, and then `room` more bytes would have made the message too
long anyway. -/
def Grows {α : Type} (step : Encode α) (extent room : Nat) (has : α → Prop) : Prop :=
  ∀ writer length, AtEnd writer length →
    (∃ value after, step writer = .ok (value, after) ∧ AtEnd after (length + extent) ∧
      has value) ∨
    ∃ error, step writer = .error error ∧ error.IsOverflow ∧ UInt16.size ≤ length + room

namespace Grows

variable {α β : Type} {has : α → Prop} {also : β → Prop} {extent room : Nat}

/-- There may be more room than needed. -/
theorem within {step : Encode α} {least most : Nat} (grows : Grows step extent room has)
    (same : extent = most) (enough : room ≤ least) : Grows step most least has := by
  subst same
  intro writer length atEnd
  refine (grows writer length atEnd).imp id ?_
  rintro ⟨error, failed, overflow, long⟩
  exact ⟨error, failed, overflow, by omega⟩

theorem pure {value : α} (holds : has value) : Grows (Pure.pure value) 0 0 has :=
  fun writer _ atEnd => .inl ⟨value, writer, rfl, atEnd, holds⟩

theorem countOverflow (path : String) {count : Nat} (large : UInt16.size ≤ count) :
    Grows (throw (.countOverflow path count)) extent count has := by
  intro _ length _
  exact .inr ⟨_, rfl, .inl ⟨path, count, rfl⟩, Nat.le_trans large (Nat.le_add_left ..)⟩

/-- A sequence needs room for the second step behind the first. -/
theorem bind {step : Encode α} {next : α → Encode β} {front back little large : Nat}
    (first : Grows step front little has)
    (second : ∀ value, has value → Grows (next value) back large also) :
    Grows (step >>= next) (front + back) (max little (front + large)) also := by
  intro writer length atEnd
  rcases first writer length atEnd with
    ⟨value, middle, done, reached, holds⟩ | ⟨error, failed, overflow⟩
  · rw [bind_of_ok done, ← Nat.add_assoc]
    refine (second value holds middle _ reached).imp id ?_
    rintro ⟨error, failed, overflow, long⟩
    exact ⟨error, failed, overflow, by omega⟩
  · rw [bind_of_error failed]
    exact .inr ⟨error, rfl, overflow.1, by omega⟩

theorem get : Grows (MonadState.get : Encode Writer) 0 0 fun _ => True :=
  fun writer _ atEnd => .inl ⟨writer, writer, rfl, atEnd, trivial⟩

theorem put (run : List UInt8) :
    Grows (Encode.write (·.put run)) run.length 0 fun _ => True :=
  fun writer _ atEnd => .inl ⟨(), writer.put run, rfl, atEnd.put run, trivial⟩

theorem uint16 (value : UInt16) : Grows (Encode.write (·.uint16 value)) 2 0 fun _ => True := by
  have grows := put (littleEndian 2 value.toNat)
  rw [length_littleEndian] at grows
  exact grows

theorem front (code : UInt16) :
    Grows (Encode.write fun writer => (writer.uint16 0).uint16 code) 4 0 fun _ => True := by
  intro writer length atEnd
  refine .inl ⟨(), _, rfl, ?_, trivial⟩
  exact (atEnd.put (littleEndian 2 0)).put (littleEndian 2 code.toNat)

theorem here : Grows Encode.here 0 0 fun _ => True := by
  intro writer length atEnd
  by_cases short : writer.position < UInt16.size
  · exact .inl ⟨_, writer, here_of_short short, atEnd, trivial⟩
  · refine .inr ⟨_, here_of_long short, .inr ⟨_, rfl⟩, ?_⟩
    rw [← atEnd.1]
    exact Nat.le_of_not_lt short

theorem resolve (slot : Option Slot) (value : UInt16) :
    Grows (Encode.resolve slot value) 0 0 fun _ => True := by
  cases slot with
  | none => exact .pure trivial
  | some slot =>
      intro writer _ atEnd
      refine .inl ⟨(), writer.resolve slot value, rfl, ⟨atEnd.1, ?_⟩, trivial⟩
      rw [Writer.resolve_size]
      exact atEnd.2

theorem resolveHere (slot : Option Slot) :
    Grows (Encode.resolveHere slot) 0 0 fun _ => True := by
  cases slot with
  | none => exact .pure trivial
  | some slot => exact here.bind fun _ _ => resolve _ _

/-- To fill in a count adds nothing, and fails only if there are too many elements. -/
theorem resolveCount (slot : Option Slot) (path : String) (count : Nat) :
    Grows (Encode.resolveCount slot path count) 0 count fun _ => True := by
  cases slot with
  | none => exact (pure trivial).within rfl (Nat.zero_le count)
  | some slot =>
      rw [Encode.resolveCount]
      by_cases small : count < UInt16.size
      · rw [if_pos small]
        exact (resolve _ _).within rfl (Nat.zero_le count)
      · rw [if_neg small]
        exact .countOverflow path (Nat.le_of_not_lt small)

theorem resolveRest (waiting : OpenSlots) :
    Grows (Encode.resolveRest waiting) 0 0 fun _ => True := by
  intro writer length atEnd
  refine .inl ⟨(), _, rfl, ?_, trivial⟩
  obtain ⟨entries⟩ := waiting
  induction entries generalizing writer with
  | nil => exact atEnd
  | cons entry rest ih => exact ih (writer.resolve entry.2 0) ⟨atEnd.1, by simpa using atEnd.2⟩

theorem header (kind : HeaderKind) (key : String) (waiting : OpenSlots) :
    Grows (Encode.header kind key waiting) 2 2 fun _ => True := by
  unfold Encode.header
  exact within (get.bind fun _ _ => (uint16 0).bind fun _ _ => (resolve _ _).bind fun _ _ =>
    pure trivial) rfl (by omega)

/-- What suits a scalar is written, and so is nothing. -/
theorem scalar {type : Scalar} {item : Option Value} (suits : ∀ value ∈ item, type.Suits value)
    (path : String) : Grows (Encode.scalar type item path) type.width 0 fun _ => True := by
  intro writer length atEnd
  have written : ∃ result, Encode.scalar type item path writer = .ok result := by
    cases item with
    | none => exact scalar_of_none
    | some value =>
        rcases suits value rfl with fits | ⟨rfl | rfl, skill, rfl⟩
        · exact (scalar_of_fits fits).1
        · exact (draws_skill _ _ _).writes rfl _
        · exact (draws_skill _ _ _).writes rfl _
  obtain ⟨result, done⟩ := written
  obtain ⟨run, width, rfl, _⟩ := scalar_eq_ok done
  exact .inl ⟨(), writer.put run, done, width ▸ atEnd.put run, trivial⟩

/-- A run is written whose count is no more than its length. -/
theorem sendRun (key path : String) (waiting : OpenSlots) {count : Nat} {run : List UInt8}
    (same : run.length = extent) (least : count ≤ extent) :
    Grows (Layout.sendRun key path waiting count run) extent extent fun _ => True := by
  unfold Layout.sendRun
  exact within ((resolveCount _ path count).bind fun _ _ => (resolveHere _).bind fun _ _ =>
    (put run).bind fun _ _ => pure trivial) (by omega) (by omega)

end Grows

/-- The elements of an array add so many bytes, one by one. -/
structure Weighed (column : WriteColumn) (weights : List Nat) : Prop where
  size : column.items.size = weights.length
  element : ∀ place weight, weights[place]? = some weight → ∀ path,
    Grows (column.element path (column.items.getD place default)) weight weight fun _ => True

/-- An array is prepared if there is room for its elements. -/
theorem Grows.openColumn {key path : String} (waiting : OpenSlots)
    {element : String → Value → Encode Unit} {items : List Value} {weigh : Value → Nat}
    (each : ∀ item ∈ items, ∀ path, Grows (element path item) (weigh item) (weigh item)
      fun _ => True) :
    Grows (Layout.openColumn key path waiting element items) 0 items.length fun result =>
      Weighed result.1 (items.map weigh) := by
  unfold Layout.openColumn
  by_cases empty : items = []
  · subst empty
    exact pure ⟨rfl, fun _ _ none => by cases none⟩
  · have filled : ¬ items.isEmpty = true := fun nothing => empty (List.isEmpty_iff.mp nothing)
    rw [if_neg filled]
    by_cases large : UInt16.size ≤ items.length
    · rw [if_pos large]
      exact .countOverflow path large
    · rw [if_neg large]
      refine within ((resolve _ _).bind fun _ _ => pure ⟨?_, ?_⟩) rfl (Nat.zero_le _)
      · rw [List.length_map, List.size_toArray]
      · intro place weight given path
        rw [List.getElem?_map, Option.map_eq_some_iff] at given
        obtain ⟨item, stands, rfl⟩ := given
        have found : items.toArray.getD place default = item := by
          rw [Array.getD_eq_getD_getElem?, List.getElem?_toArray, stands, Option.getD_some]
        rw [found]
        exact each item (List.mem_of_getElem? stands) path

section

variable {pairs : List (WriteColumn × List Nat)}

/-- What an element of a chain takes with its links. -/
def linkExtent (pairs : List (WriteColumn × List Nat)) (link : Link) : Nat :=
  ((pairs.map (·.2.map (4 + ·))).getD link.array []).getD link.place 0

/-- Elements that are written along links add what they take with their links. -/
theorem grows_writeLinks (weighed : ∀ pair ∈ pairs, Weighed pair.1 pair.2) {links : List Link}
    (inside : ∀ link ∈ links, ∃ pair, pairs[link.array]? = some pair ∧
      link.place < pair.2.length) (previous : Option Slot) :
    Grows (writeLinks (pairs.map Prod.fst).toArray previous links)
      (links.map (linkExtent pairs)).sum (links.map (linkExtent pairs)).sum fun _ => True := by
  induction links generalizing previous with
  | nil => exact .resolve previous 0
  | cons link rest ih =>
      obtain ⟨pair, present, small⟩ := inside link List.mem_cons_self
      have column : (pairs.map Prod.fst).toArray[link.array]? = some pair.1 := by
        rw [List.getElem?_toArray, List.getElem?_map, present, Option.map_some]
      have weight : linkExtent pairs link = 4 + pair.2[link.place] := by
        have row : (pairs.map (·.2.map (4 + ·))).getD link.array [] = pair.2.map (4 + ·) := by
          rw [List.getD_eq_getElem?_getD, List.getElem?_map, present, Option.map_some,
            Option.getD_some]
        rw [linkExtent, row, List.getD_eq_getElem?_getD, List.getElem?_map,
          List.getElem?_eq_getElem small, Option.map_some, Option.getD_some]
      have element := (weighed pair (List.mem_of_getElem? present)).element link.place _
        (List.getElem?_eq_getElem small)
      have others := ih fun other member => inside other (List.mem_cons_of_mem _ member)
      rw [writeLinks_cons column, List.map_cons, List.sum_cons, weight]
      exact .within (.bind .here fun _ _ => .bind (.resolve _ _) fun _ _ =>
        .bind (.resolve _ _) fun _ _ => .bind (.uint16 _) fun _ _ => .bind .get fun _ _ =>
        .bind (.uint16 0) fun _ _ => .bind (element _) fun _ _ => others _) (by omega) (by omega)

/-- What arrays take together, with the links of their elements. -/
def chainExtent (pairs : List (WriteColumn × List Nat)) : Nat :=
  (pairs.map fun pair => (pair.2.map (4 + ·)).sum).sum

/-- **A chain adds what its arrays take**, with the links of their elements. -/
theorem grows_chain (weighed : ∀ pair ∈ pairs, Weighed pair.1 pair.2) :
    Grows (Encode.chain (pairs.map Prod.fst)) (chainExtent pairs) (chainExtent pairs)
      fun _ => True := by
  have counts : (pairs.map Prod.fst).map (·.items.size) =
      (pairs.map (·.2.map (4 + ·))).map List.length := by
    rw [List.map_map, List.map_map]
    refine List.map_congr_left fun pair member => ?_
    exact (weighed pair member).size.trans (List.length_map _).symm
  have sum : ((roundRobin ((pairs.map (·.2.map (4 + ·))).map List.length)).map
      (linkExtent pairs)).sum = chainExtent pairs := by
    refine (sum_roundRobin (pairs.map (·.2.map (4 + ·)))).trans ?_
    rw [List.map_map]
    rfl
  rw [Encode.chain, counts, ← sum]
  refine grows_writeLinks weighed (fun link member => ?_) none
  obtain ⟨count, counted, small⟩ := mem_of_mem_roundRobin member
  rw [List.map_map, List.getElem?_map, Option.map_eq_some_iff] at counted
  obtain ⟨pair, present, rfl⟩ := counted
  exact ⟨pair, present, by simpa using small⟩

end

/-! ## Fields of a level -/

/-- The fields of a level add what they take, and so do the arrays that wait before them. -/
def GrowsLevel (base path : String) (object : Option Object) (fields : List Field) : Prop :=
  ∀ (waiting : OpenSlots) (pairs : List (WriteColumn × List Nat)),
    (∀ pair ∈ pairs, Weighed pair.1 pair.2) →
    Grows (encodeFields base path object waiting (pairs.map Prod.fst) fields)
      (chainExtent pairs + extentAll object fields) (chainExtent pairs + extentAll object fields)
      fun _ => True

/-- Nothing waits before the first field of a level. -/
theorem GrowsLevel.alone {base path : String} {object : Option Object} {fields : List Field}
    (level : GrowsLevel base path object fields) (waiting : OpenSlots) :
    Grows (encodeFields base path object waiting [] fields) (extentAll object fields)
      (extentAll object fields) fun _ => True := by
  have grows := level waiting [] fun _ none => absurd none List.not_mem_nil
  have nothing : chainExtent [] = 0 := rfl
  rw [nothing, Nat.zero_add] at grows
  exact grows

/-- An element of an array adds what it takes. -/
def GrowsElement (field : Field) (item : Value) : Prop :=
  ∀ path, Grows (writeElement field path item) (elementExtent field item)
    (elementExtent field item) fun _ => True

section

variable {base path : String} {object : Option Object} {field : Field} {rest : List Field}

/-- What an object has under the name of its first field suits the field. -/
theorem suits_under (suits : ∀ inner ∈ object, SuitsAll (field :: rest) inner) :
    ∀ value ∈ under object field, Suits field value := by
  intro value present
  obtain ⟨inner, given, found⟩ := Option.bind_eq_some_iff.mp present
  have level := suits inner given
  rw [SuitsAll] at level
  exact level.1 value found

/-- What an object has under the names of the other fields suits them. -/
theorem suits_rest (suits : ∀ inner ∈ object, SuitsAll (field :: rest) inner) :
    ∀ inner ∈ object, SuitsAll rest inner := by
  intro inner given
  have level := suits inner given
  rw [SuitsAll] at level
  exact level.2

/-- A value that suits an array is a list of items. -/
theorem items_of_suits {value : Value} (array : field.isArray = true) (suits : Suits field value) :
    ∃ items, value = .array items := by
  cases field with
  | scalars | items =>
      rw [Suits] at suits
      obtain ⟨items, same, _⟩ := suits
      exact ⟨items, same⟩
  | _ => cases array

/-- Every element of an array takes its links at least. -/
theorem length_le_extentOf (array : field.isArray = true) (item : Option Value) :
    (itemsIn item).length ≤ extentOf item field := by
  rw [extentOf_array array]
  induction itemsIn item with
  | nil => exact Nat.zero_le _
  | cons value rest ih =>
      rw [List.length_cons, List.map_cons, List.sum_cons]
      omega

/-- To open an array adds nothing. What its elements will take is known then. -/
theorem grows_column (array : field.isArray = true) (waiting : OpenSlots)
    (suits : ∀ value ∈ under object field, Suits field value)
    (each : ∀ item ∈ itemsIn (under object field), GrowsElement field item) :
    Grows (Encode.column base path field.name object waiting (writeElement field)) 0
      (extentOf (under object field) field) fun result =>
        Weighed result.1 ((itemsIn (under object field)).map (elementExtent field)) := by
  have least := length_le_extentOf array (under object field)
  cases present : under object field with
  | none =>
      have item : object.bind (·.get? field.name) = none := present
      rw [present] at each least
      rw [column_eq, item]
      exact (Grows.openColumn waiting each).within rfl least
  | some value =>
      obtain ⟨items, rfl⟩ := items_of_suits array (suits value present)
      have item : object.bind (·.get? field.name) = some (.array items) := present
      rw [present] at each least
      rw [column_eq, item]
      exact (Grows.openColumn waiting each).within rfl least

/-- One more array makes a chain take what the array takes. -/
theorem chainExtent_append (pairs : List (WriteColumn × List Nat)) (array : field.isArray = true)
    (column : WriteColumn) (item : Option Value) :
    chainExtent (pairs ++ [(column, (itemsIn item).map (elementExtent field))]) =
      chainExtent pairs + extentOf item field := by
  rw [chainExtent, List.map_append, List.sum_append, extentOf_array array, List.map_singleton,
    List.sum_singleton, List.map_map]
  rfl

/-- Without fields the arrays that wait add what they take. -/
theorem growsLevel_nil : GrowsLevel base path object [] := by
  intro waiting pairs weighed
  rw [encodeFields]
  exact ((grows_chain weighed).bind fun _ _ => .pure trivial).within rfl (by omega)

/-- An array that may share its chain joins those that wait. -/
theorem growsLevel_mixed (mixed : field.isMixed = true)
    (prepared : ∀ waiting,
      Grows (Encode.column base path field.name object waiting (writeElement field)) 0
        (extentOf (under object field) field) fun result =>
          Weighed result.1 ((itemsIn (under object field)).map (elementExtent field)))
    (further : GrowsLevel base path object rest) : GrowsLevel base path object (field :: rest) := by
  intro waiting pairs weighed
  have array := Field.isArray_of_isMixed mixed
  have joined (result : WriteColumn × OpenSlots)
      (last : Weighed result.1 ((itemsIn (under object field)).map (elementExtent field))) :
      Grows (encodeFields base path object result.2 (pairs.map Prod.fst ++ [result.1]) rest)
        (chainExtent pairs + extentAll object (field :: rest))
        (chainExtent pairs + extentAll object (field :: rest)) fun _ => True := by
    have level := further result.2
      (pairs ++ [(result.1, (itemsIn (under object field)).map (elementExtent field))])
      (List.forall_mem_append.mpr ⟨weighed, List.forall_mem_singleton.mpr last⟩)
    rw [chainExtent_append pairs array, List.map_append, Nat.add_assoc] at level
    exact level
  rw [encodeFields_mixed mixed]
  refine ((prepared waiting).bind joined).within (Nat.zero_add _) ?_
  rw [extentAll]
  omega

/-- A field that does not wait is written behind the arrays that do. -/
theorem growsLevel_plain (plain : field.isMixed = false)
    (own : ∀ waiting, Grows (encodeField base path object waiting field)
      (extentOf (under object field) field) (extentOf (under object field) field) fun _ => True)
    (further : GrowsLevel base path object rest) : GrowsLevel base path object (field :: rest) := by
  intro waiting pairs weighed
  rw [encodeFields_plain plain, extentAll]
  exact ((grows_chain weighed).bind fun _ _ => (own waiting).bind fun left _ =>
    further.alone left).within
    (by omega) (by omega)

/-- An array is written when it can be prepared. -/
theorem grows_array (array : field.isArray = true) (waiting : OpenSlots)
    (prepared : Grows (Encode.column base path field.name object waiting (writeElement field)) 0
      (extentOf (under object field) field) fun result =>
        Weighed result.1 ((itemsIn (under object field)).map (elementExtent field))) :
    Grows (encodeField base path object waiting field) (extentOf (under object field) field)
      (extentOf (under object field) field) fun _ => True := by
  rw [encodeField_array array]
  have single (column : WriteColumn)
      (weighed : Weighed column ((itemsIn (under object field)).map (elementExtent field))) :
      Grows (Encode.chain [column]) (extentOf (under object field) field)
        (extentOf (under object field) field) fun _ => True := by
    have each : ∀ pair ∈ [(column, (itemsIn (under object field)).map (elementExtent field))],
        Weighed pair.1 pair.2 := List.forall_mem_singleton.mpr weighed
    have chain := grows_chain each
    have sum := chainExtent_append [] array column (under object field)
    have nothing : chainExtent [] = 0 := rfl
    rw [List.nil_append, nothing, Nat.zero_add] at sum
    rw [sum] at chain
    exact chain
  exact (prepared.bind fun result weighed => (single result.1 weighed).bind fun _ _ =>
    .pure trivial).within (by omega) (by omega)

end

mutual

/-- **Every element adds what it takes**, whatever array it is in. -/
theorem grows_writeElement : ∀ {field : Field} {items : List Value}, field.isArray = true →
    Suits field (.array items) → ∀ item ∈ items, GrowsElement field item
  | .scalars _ type _, _, _, suits => by
      intro item member path
      rw [Suits] at suits
      obtain ⟨_, same, suits⟩ := suits
      cases same
      have suits : ∀ value ∈ some item, type.Suits value := by
        intro value same
        cases same
        exact suits item member
      exact (Grows.scalar suits path).within rfl (Nat.zero_le _)
  | .items _ fields _, _, _, suits => by
      intro item member path
      rw [Suits] at suits
      obtain ⟨_, same, suits⟩ := suits
      cases same
      obtain ⟨inner, rfl, suits⟩ := suits item member
      have level : GrowsLevel "" path (some ⟨inner⟩) fields :=
        grows_encodeFields "" path (by rintro _ ⟨⟩; exact suits)
      exact ((level.alone ⟨[]⟩).bind fun left _ => .resolveRest left).within rfl
        (by rw [elementExtent, Value.object?]; omega)
  | .header .., _, array, _ | .scalar .., _, array, _ | .string _, _, array, _
  | .bytes _, _, array, _ | .object .., _, array, _ => by cases array

/-- **Every field that is no array adds what it takes.** -/
theorem grows_encodeField : ∀ {field : Field}, field.isArray = false →
    ∀ (base path : String) {object : Option Object},
    (∀ value ∈ under object field, Suits field value) → ∀ waiting,
    Grows (encodeField base path object waiting field) (extentOf (under object field) field)
      (extentOf (under object field) field) fun _ => True
  | .header kind _, _ => by
      intro base path object _ waiting
      rw [encodeField, extentOf]
      exact .header kind _ waiting
  | .scalar name type, _ => by
      intro base path object suits waiting
      rw [encodeField, extentOf]
      have suits : ∀ value ∈ object.bind (·.get? name), type.Suits value := suits
      exact ((Grows.scalar suits _).bind fun _ _ => .pure trivial).within rfl (by omega)
  | .string name, _ => by
      intro base path object suits waiting
      have least (text : String) : (Text.units text.toList).length ≤
          2 * ((Text.units text.toList).length + 1) := by omega
      cases present : under object (.string name) with
      | none =>
          have item : object.bind (·.get? name) = none := present
          rw [encodeField, string_eq, item, extentOf]
          exact .sendRun _ _ waiting (length_textBytes "") (least "")
      | some value =>
          have same := suits value present
          rw [Suits] at same
          obtain ⟨text, rfl⟩ := same
          have item : object.bind (·.get? name) = some (.string text) := present
          rw [encodeField, string_eq, item, extentOf]
          exact .sendRun _ _ waiting (length_textBytes text) (least text)
  | .bytes name, _ => by
      intro base path object suits waiting
      cases present : under object (.bytes name) with
      | none =>
          have item : object.bind (·.get? name) = none := present
          rw [encodeField, bytes_eq, item, extentOf]
          exact .sendRun _ _ waiting rfl (Nat.le_refl 0)
      | some value =>
          have same := suits value present
          rw [Suits] at same
          obtain ⟨run, rfl⟩ := same
          have item : object.bind (·.get? name) = some (.bytes run) := present
          rw [encodeField, bytes_eq, item, extentOf]
          exact .sendRun _ _ waiting Array.length_toList (Nat.le_refl _)
  | .object name fields, _ => by
      intro base path object suits waiting
      cases present : under object (.object name fields) with
      | none =>
          have item : object.bind (·.get? name) = none := present
          have level : GrowsLevel (dotted base name) (dotted path name) none fields :=
            grows_encodeFields _ _ fun _ none => by cases none
          rw [encodeField, Encode.inner, item, extentOf]
          exact level.alone waiting
      | some value =>
          have same := suits value present
          rw [Suits] at same
          obtain ⟨inner, rfl, suits⟩ := same
          have item : object.bind (·.get? name) = some (.object inner) := present
          have level : GrowsLevel (dotted base name) (dotted path name) (some ⟨inner⟩) fields :=
            grows_encodeFields _ _ (by rintro _ ⟨⟩; exact suits)
          rw [encodeField, Encode.inner, item, extentOf]
          exact level.alone waiting
  | .scalars .., array | .items .., array => by cases array

/-- **The fields of a level add what they take**, if what is under their names suits them. -/
theorem grows_encodeFields : ∀ {fields : List Field} (base path : String)
    {object : Option Object}, (∀ inner ∈ object, SuitsAll fields inner) →
    GrowsLevel base path object fields
  | [], _, _, _, _ => growsLevel_nil
  | field :: rest, base, path, object, suits => by
      have further : GrowsLevel base path object rest :=
        grows_encodeFields base path (suits_rest suits)
      have own := suits_under suits
      by_cases array : field.isArray = true
      · have each : ∀ item ∈ itemsIn (under object field), GrowsElement field item := by
          cases present : under object field with
          | none => exact fun _ none => absurd none List.not_mem_nil
          | some value =>
              obtain ⟨items, rfl⟩ := items_of_suits array (own value present)
              exact grows_writeElement array (own _ present)
        have prepared (waiting : OpenSlots) :
            Grows (Encode.column base path field.name object waiting (writeElement field)) 0
              (extentOf (under object field) field) fun result =>
                Weighed result.1 ((itemsIn (under object field)).map (elementExtent field)) :=
          grows_column array waiting own each
        by_cases mixed : field.isMixed = true
        · exact growsLevel_mixed mixed prepared further
        · exact growsLevel_plain (Bool.eq_false_iff.mpr mixed)
            (fun waiting => grows_array array waiting (prepared waiting)) further
      · have single : field.isArray = false := Bool.eq_false_iff.mpr array
        exact growsLevel_plain (Field.isMixed_of_isArray single)
          (grows_encodeField single base path own) further

end

/-! ## Messages -/

/-- The length is checked at the end and put into the front. -/
theorem grows_finish (slot : Slot) :
    Grows (do
      let total := (← MonadState.get).length
      if UInt16.size ≤ total then throw (.tooLarge total)
      Encode.write (·.resolve slot (.ofNat total))) 0 0 fun _ => True := by
  intro writer length atEnd
  have same : writer.length = length := atEnd.2
  by_cases large : UInt16.size ≤ writer.length
  · right
    refine ⟨.tooLarge writer.length, ?_, .inr ⟨_, rfl⟩, by omega⟩
    rw [bind_of_ok (get_eq_ok.mpr rfl)]
    simp only [if_pos large]
    rfl
  · left
    refine ⟨(), writer.resolve slot (.ofNat writer.length), ?_, ⟨atEnd.1, ?_⟩, trivial⟩
    · rw [bind_of_ok (get_eq_ok.mpr rfl)]
      simp only [if_neg large]
      rfl
    · rw [Writer.resolve_size]
      exact atEnd.2

variable {layout : Layout} {code : UInt16} {object : Object} {bytes : Bytes}

/-- A message that is encoded has a length that two bytes can tell. -/
theorem size_lt_of_encode (encoded : layout.encode code object = .ok bytes) :
    bytes.size < UInt16.size := by
  obtain ⟨_, _, _, _, _, small, rfl⟩ := encode_eq_ok encoded
  rw [Writer.resolve_size]
  exact small

/-- **Whether an object is written depends on its length alone**, if its values suit the layout. -/
theorem encode_extent (suits : SuitsAll layout.fields object) (code : UInt16) :
    (∃ bytes, layout.encode code object = .ok bytes ∧
      bytes.size = 4 + extentAll (some object) layout.fields ∧ bytes.size < UInt16.size) ∨
    ∃ error, layout.encode code object = .error error ∧ error.IsOverflow ∧
      UInt16.size ≤ 4 + extentAll (some object) layout.fields := by
  have level : GrowsLevel "" "" (some object) layout.fields :=
    grows_encodeFields "" "" (by rintro _ ⟨⟩; exact suits)
  have whole : Grows (layout.writeMessage code object)
      (4 + extentAll (some object) layout.fields) (4 + extentAll (some object) layout.fields)
      fun _ => True := by
    unfold writeMessage
    exact ((Grows.front code).bind fun _ _ => (level.alone ⟨[]⟩).bind fun left _ =>
      (Grows.resolveRest left).bind fun _ _ => grows_finish ⟨0⟩).within rfl (by omega)
  rcases whole .empty 0 ⟨rfl, rfl⟩ with ⟨_, after, done, atEnd, _⟩ | ⟨error, failed, overflow, long⟩
  · have encoded : layout.encode code object = .ok after.bytes := by
      rw [encode, StateT.run, done]
    have size := atEnd.2
    exact .inl ⟨after.bytes, encoded, by omega, size_lt_of_encode encoded⟩
  · refine .inr ⟨error, ?_, overflow, by omega⟩
    rw [encode, StateT.run, failed]

end Layout

end Relay
