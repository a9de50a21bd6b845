import Relay.Proofs.Layout.Fields
import Relay.Proofs.Layout.Links

/-! # Messages in order

The parts of a message are in order when each begins where the one before it ends, and everything
that says where a part stands says so truly: the offset of a text, of a run of bytes and of an
array, and the two links of an element (`Relay.Layout.AllInOrder`). What is in order is read
without moving the cursor back or forth, and without a remark
(`Relay.Layout.reads_of_allInOrder`). -/

namespace Relay.Layout

open Relay.Stream Relay.Frame.Header

/-- An array of a chain as it stands in a message: where its header says that its first element is,
its items, and how one of them stands between two places. -/
structure Strand where
  name : String
  offset : Option UInt16
  items : List Value
  element : Bytes → Value → Nat → Nat → Prop

/-- The elements of a chain stand one after the other. Each begins with its own position and that
of the next, zero for the last. -/
def Linked (quiet : Prop) (message : Bytes) (strands : List Strand) :
    List Link → Nat → Nat → Prop
  | [], place, stop => place = stop
  | link :: rest, place, stop =>
    ∃ strand value next, strands[link.array]? = some strand ∧
      strand.items[link.place]? = some value ∧
      (link.place = 0 → (∀ offset ∈ strand.offset, offset.toNat = place) ∧
        (quiet → strand.offset.isSome)) ∧
      place + 4 ≤ message.size ∧ (numberAt message place).toNat = place ∧
      (numberAt message (place + 2)).toNat = (if rest = [] then 0 else next) ∧
      strand.element message value (place + 4) next ∧
      Linked quiet message strands rest next stop

/-- The arrays of a chain stand between two places. The first that has elements says where. -/
def Chained (quiet : Prop) (message : Bytes) (strands : List Strand) (place stop : Nat) : Prop :=
  Linked quiet message strands (roundRobin (strands.map (·.items.length))) place stop ∧
    ∀ strand, strands.find? (fun strand => decide (0 < strand.items.length)) = some strand →
      strand.offset.isSome

/-- What the offset of a field says is a place. -/
def PointsAt (headers : HeaderValues) (key : String) (place : Nat) : Prop :=
  ∀ offset, headers.get? .offset key = some offset → offset.toNat = place

/-- How many elements a field has by its count. -/
def countOf (headers : HeaderValues) (key : String) : Nat :=
  (headers.get? .count key).elim 0 (·.toNat)

/-- An array with these items, by the headers read so far. Where there are none, the offset says
nothing. -/
def strandOf (headers : HeaderValues) (base name : String) (items : List Value)
    (element : Bytes → Value → Nat → Nat → Prop) : Strand :=
  ⟨name, if items = [] then none else headers.get? .offset (dotted base name), items, element⟩

mutual

/-- A value stands between two places as an element of an array. -/
def ElementInOrder (quiet : Prop) : Field → Bytes → Value → Nat → Nat → Prop
  | .scalars _ type _, message, value, place, stop =>
    stop = place + type.width ∧
      ∀ path, Reads True (Decode.scalar type path) message place value stop
  | .items _ fields _, message, value, place, stop =>
    ∃ inner left, value = .object inner ∧
      AllInOrder quiet message "" [] fields ⟨[]⟩ place inner left stop
  | _, _, _, _, _ => False

/-- What a field that is no array gives to its object stands between two places. The headers read
so far grow by those that the field contains. -/
def InOrder (quiet : Prop) (message : Bytes) (base : String) :
    Field → HeaderValues → Nat → List (String × Value) → HeaderValues → Nat → Prop
  | .header kind key, headers, place, values, left, stop =>
    place + 2 ≤ message.size ∧ stop = place + 2 ∧ values = [] ∧
      left = headers.insert kind (dotted base key) (numberAt message place)
  | .scalar name type, headers, place, values, left, stop =>
    left = headers ∧ stop = place + type.width ∧ ∃ value, values = [(name, value)] ∧
      ∀ path, Reads True (Decode.scalar type path) message place value stop
  | .string name, headers, place, values, left, stop =>
    left = headers ∧ PointsAt headers (dotted base name) place ∧ place ≤ stop ∧
      ∃ text, values = [(name, .string text)] ∧ Reads True Read.string message place text stop
  | .bytes name, headers, place, values, left, stop =>
    left = headers ∧ ∃ run : Bytes, values = [(name, .bytes run)] ∧
      countOf headers (dotted base name) = run.size ∧
      (0 < run.size → PointsAt headers (dotted base name) place) ∧ stop = place + run.size ∧
      Reads True (Read.bytes run.size) message place run stop
  | .object name fields, headers, place, values, left, stop =>
    ∃ inner, values = [(name, .object inner)] ∧
      AllInOrder quiet message (dotted base name) [] fields headers place inner left stop
  | _, _, _, _, _, _ => False

/-- What the fields of a level give to their object stands between two places. The arrays that wait
for their chain stand in front of it. -/
def AllInOrder (quiet : Prop) (message : Bytes) (base : String) (waiting : List Strand) :
    List Field → HeaderValues → Nat → List (String × Value) → HeaderValues → Nat → Prop
  | [], headers, place, values, left, stop =>
    values = [] ∧ left = headers ∧ Chained quiet message waiting place stop
  | field :: rest, headers, place, values, left, stop =>
    if field.isArray then
      ∃ items others, values = (field.name, .array items) :: others ∧
        countOf headers (dotted base field.name) = items.length ∧
        let strand := strandOf headers base field.name items (ElementInOrder quiet field)
        if field.isMixed then
          AllInOrder quiet message base (waiting ++ [strand]) rest headers place others left stop
        else
          ∃ start middle, Chained quiet message waiting place start ∧
            Chained quiet message [strand] start middle ∧
            AllInOrder quiet message base [] rest headers middle others left stop
    else
      ∃ own others start middle between, values = own ++ others ∧
        Chained quiet message waiting place start ∧
        InOrder quiet message base field headers start own between middle ∧
        AllInOrder quiet message base [] rest between middle others left stop

end

section

variable {quiet : Prop} {message : Bytes} {place stop : Nat}

/-- Nothing is sought where the offset points at the cursor. -/
theorem reads_seekTarget {headers : HeaderValues} {key : String}
    (points : PointsAt headers key place) (behind : headers.finish ≤ place) (path : String) :
    Reads True (Decode.seekTarget headers key path) message place () place := by
  unfold Decode.seekTarget
  cases found : headers.get? .offset key with
  | none => exact .pure ()
  | some offset =>
      have here : offset.toNat = place := points offset found
      have outside : ¬ offset.toNat < headers.finish := by omega
      simp only [outside, ↓reduceIte]
      refine .get_bind fun _ => ?_
      simp only [here, ne_eq, not_true_eq_false, ↓reduceIte]
      exact .pure ()

theorem reads_warn (loud : ¬ quiet) (text : String) (details : List (String × String)) :
    Reads quiet (Decode.warn text details) message place () place :=
  fun _ => ⟨_, rfl, fun silent => absurd silent loud⟩

/-- The links of an element that is where its array, or the element before it, says it is. -/
theorem reads_enterElement {column : ReadColumn} {index : Nat} {target : UInt16}
    (here : target.toNat = place) (starts : index = 0 → quiet → column.offset = target)
    (inside : place + 4 ≤ message.size) (self : (numberAt message place).toNat = place) :
    Reads quiet (Decode.enterElement column index target) message place
      (numberAt message (place + 2)) (place + 4) := by
  have same : numberAt message place = target := UInt16.toNat_inj.mp (self.trans here.symm)
  have rest : Reads quiet (do
      let position := (← get).position
      if position ≠ target.toNat then
        Decode.warn "offset mismatch for array" [("path", column.path),
          ("position", toString position), ("expected", toString target.toNat)]
        Decode.within column.path (Read.seek target.toNat)
      let here ← Decode.within column.path Read.uint16
      if here ≠ target then throw (.elementMismatch column.path target.toNat here)
      Decode.within column.path Read.uint16) message place (numberAt message (place + 2))
        (place + 4) := by
    refine .get_bind fun _ => ?_
    simp only [here, ne_eq, not_true_eq_false, ↓reduceIte]
    refine (reads_within (reads_numberAt (by omega)) column.path).of_quiet.bind ?_
    simp only [same, not_true_eq_false, ↓reduceIte]
    exact (reads_within (reads_numberAt (by omega)) column.path).of_quiet
  unfold Decode.enterElement
  by_cases strays : index = 0 ∧ column.offset ≠ target
  · have loud : ¬ quiet := fun silent => strays.2 (starts strays.1 silent)
    simp only [if_pos strays]
    exact (reads_warn loud _ _).bind rest
  · simp only [if_neg strays]
    exact rest

/-- The decoder's view of an array, before its chain is read. -/
structure Awaits (quiet : Prop) (message : Bytes) (column : ReadColumn) (strand : Strand) :
    Prop where
  name : column.name = strand.name
  count : column.count = strand.items.length
  offset : strand.items ≠ [] → column.offset = strand.offset.getD 0
  element : ∀ value place stop, 4 ≤ place → strand.element message value place stop →
    place ≤ stop ∧ ∀ path, Reads quiet (column.element path) message place value stop

/-- The element that a link leads to, with its array. -/
def linkedValue (strands : List Strand) (link : Link) : Nat × Value :=
  (link.array, (strands[link.array]?.bind fun strand => strand.items[link.place]?).getD default)

/-- A link leads to the item of its array at its place. -/
theorem linkedValue_eq {strands : List Strand} {link : Link} {strand : Strand} {value : Value}
    (owner : strands[link.array]? = some strand) (item : strand.items[link.place]? = some value) :
    linkedValue strands link = (link.array, value) := by
  rw [linkedValue, owner, Option.bind_some, item]
  rfl

/-- The offset of an array with an element is the one that its strand has. -/
theorem Awaits.offset_eq {column : ReadColumn} {strand : Strand}
    (await : Awaits quiet message column strand) {index : Nat} {value : Value}
    (item : strand.items[index]? = some value) {offset : UInt16}
    (given : strand.offset = some offset) : column.offset = offset := by
  rw [await.offset (List.ne_nil_of_mem (List.mem_of_getElem? item)), given, Option.getD_some]

variable {pairs : List (ReadColumn × Strand)}

/-- **Elements that stand one after the other are found by their links.** -/
theorem reads_followLinks (awaits : ∀ pair ∈ pairs, Awaits quiet message pair.1 pair.2)
    {links : List Link} (linked : Linked quiet message (pairs.map Prod.snd) links place stop)
    (behind : 4 ≤ place) (total : Nat) {target : UInt16} (here : links ≠ [] → target.toNat = place)
    (index : Nat) (found : List (Nat × Value)) :
    place ≤ stop ∧
      Reads quiet (Decode.followLinks (pairs.map Prod.fst).toArray total target index found links)
        message place (found.reverse ++ links.map (linkedValue (pairs.map Prod.snd))) stop := by
  -- along the links: as long as some are left, the target of the last one is where the cursor is
  induction links generalizing place target index found with
  | nil =>
      rw [Linked] at linked
      subst linked
      rw [Decode.followLinks, List.map_nil, List.append_nil]
      exact ⟨Nat.le_refl _, .pure _⟩
  | cons link rest ih =>
      rw [Linked] at linked
      obtain ⟨strand, value, next, owner, item, starts, inside, self, forward, stands, linked⟩ :=
        linked
      rw [List.getElem?_map, Option.map_eq_some_iff] at owner
      obtain ⟨⟨column, strand⟩, pair, rfl⟩ := owner
      have await := awaits _ (List.mem_of_getElem? pair)
      have target_eq := here (List.cons_ne_nil _ _)
      obtain ⟨forth, element⟩ := await.element value (place + 4) next (by omega) stands
      have nonzero : target ≠ 0 := by
        rintro rfl
        rw [UInt16.toNat_zero] at target_eq
        omega
      have table : (pairs.map Prod.fst).toArray[link.array]? = some column := by
        rw [List.getElem?_toArray, List.getElem?_map, pair, Option.map_some]
      have first : link.place = 0 → quiet → column.offset = target := by
        intro zero silent
        obtain ⟨offset, given⟩ := Option.isSome_iff_exists.mp ((starts zero).2 silent)
        have told := (starts zero).1 offset given
        rw [await.offset_eq item given]
        exact UInt16.toNat_inj.mp (told.trans target_eq.symm)
      have onward : rest ≠ [] → (numberAt message (place + 2)).toNat = next := by
        intro more
        rw [forward, if_neg more]
      obtain ⟨further, others⟩ := ih linked (by omega) onward (index + 1)
        ((link.array, value) :: found)
      have last : ¬ (numberAt message (place + 2) ≠ 0 ∧ rest.isEmpty = true) := by
        rintro ⟨more, empty⟩
        rw [if_pos (List.isEmpty_iff.mp empty)] at forward
        exact more (UInt16.toNat_inj.mp forward)
      have owner : (pairs.map Prod.snd)[link.array]? = some strand := by
        rw [List.getElem?_map, pair, Option.map_some]
      refine ⟨by omega, ?_⟩
      rw [Decode.followLinks]
      simp only [table, if_neg nonzero]
      refine (reads_enterElement target_eq first inside self).bind ((element _).bind ?_)
      simp only [if_neg last]
      rw [List.map_cons, linkedValue_eq owner item]
      simpa using others

/-- The items that links lead to are those of the arrays. -/
theorem itemsOf_linkedValue {strands : List Strand} {strand : Strand} {array : Nat}
    (present : strands[array]? = some strand) :
    Decode.itemsOf
      ((roundRobin (strands.map (·.items.length))).map (linkedValue strands)) array =
        strand.items := by
  have count : (strands.map (·.items.length)).getD array 0 = strand.items.length := by
    rw [List.getD_eq_getElem?_getD, List.getElem?_map, present]
    rfl
  have own : ((fun pair : Nat × Value => pair.1 == array) ∘ linkedValue strands) =
      fun link => link.array == array := by
    funext link
    rfl
  have each : (roundRobin (strands.map (·.items.length))).filter (·.array == array) =
      (List.range strand.items.length).map fun place => ⟨array, place⟩ := by
    rw [filter_roundRobin, count]
  unfold Decode.itemsOf
  rw [List.filter_map, own, each, List.map_map, List.map_map]
  apply List.ext_getElem
  · simp
  · intro index inside _
    simp only [List.length_map, List.length_range] at inside
    simp [linkedValue, present, inside]

/-- The named items of the arrays of a chain. -/
def arraysOf (strands : List Strand) : List (String × Value) :=
  strands.map fun strand => (strand.name, .array strand.items)

/-- The arrays that were found are those of the chain. -/
theorem arraysOf_found (awaits : ∀ pair ∈ pairs, Awaits quiet message pair.1 pair.2)
    {found : List (Nat × Value)}
    (items : ∀ index strand, (pairs.map Prod.snd)[index]? = some strand →
      Decode.itemsOf found index = strand.items) :
    ((pairs.map Prod.fst).zipIdx.map fun (column, array) =>
        (column.name, Value.array (Decode.itemsOf found array))) =
      arraysOf (pairs.map Prod.snd) := by
  apply List.ext_getElem?
  intro index
  rw [arraysOf, List.getElem?_map, List.getElem?_zipIdx, List.getElem?_map, List.getElem?_map,
    List.getElem?_map]
  cases present : pairs[index]? with
  | none => rfl
  | some pair =>
      have same := items index pair.2 (by rw [List.getElem?_map, present, Option.map_some])
      simp only [Option.map_some, Nat.zero_add, same,
        (awaits pair (List.mem_of_getElem? present)).name]

/-- The first link of a chain leads to its first array with elements, which begins the chain. -/
theorem toNat_offset_of_linked (awaits : ∀ pair ∈ pairs, Awaits quiet message pair.1 pair.2)
    (chained : Chained quiet message (pairs.map Prod.snd) place stop)
    (nonempty : roundRobin ((pairs.map Prod.snd).map (·.items.length)) ≠ []) :
    (((roundRobin ((pairs.map Prod.snd).map (·.items.length))).head?.bind fun link =>
      (pairs.map Prod.fst).toArray[link.array]?).elim 0 (·.offset)).toNat = place := by
  obtain ⟨linked, leads⟩ := chained
  obtain ⟨link, rest, links⟩ := List.exists_cons_of_ne_nil nonempty
  have head : (roundRobin ((pairs.map Prod.snd).map (·.items.length))).head? = some link := by
    rw [links, List.head?_cons]
  obtain ⟨zero, leader, owner, leading⟩ := head?_roundRobin head
  obtain ⟨offset, given⟩ := Option.isSome_iff_exists.mp (leads leader leading)
  rw [links, Linked] at linked
  obtain ⟨strand, value, _, own, item, starts, _⟩ := linked
  rw [owner, Option.some.injEq] at own
  subst own
  have told := (starts zero).1 offset given
  rw [List.getElem?_map, Option.map_eq_some_iff] at owner
  obtain ⟨⟨column, _⟩, pair, rfl⟩ := owner
  have same := (awaits _ (List.mem_of_getElem? pair)).offset_eq item given
  rw [head, Option.bind_some, List.getElem?_toArray, List.getElem?_map, pair]
  exact (congrArg UInt16.toNat same).trans told

/-- **A chain in order is read, and its arrays go behind what the object has.** -/
theorem reads_chain (awaits : ∀ pair ∈ pairs, Awaits quiet message pair.1 pair.2)
    (chained : Chained quiet message (pairs.map Prod.snd) place stop) (behind : 4 ≤ place)
    (headers : HeaderValues) {object : Object}
    (fresh : (object.names ++ pairs.map (·.2.name)).Nodup) :
    place ≤ stop ∧ Reads quiet (Decode.chain (pairs.map Prod.fst) ⟨headers, object⟩) message place
      ⟨headers, ⟨object.fields ++ arraysOf (pairs.map Prod.snd)⟩⟩ stop := by
  have start := toNat_offset_of_linked awaits chained
  obtain ⟨linked, _⟩ := chained
  have counts : (pairs.map Prod.fst).map (·.count) =
      (pairs.map Prod.snd).map (·.items.length) := by
    rw [List.map_map, List.map_map]
    apply List.map_congr_left
    intro pair member
    exact (awaits pair member).count
  obtain ⟨forth, found⟩ := reads_followLinks awaits linked behind
    (roundRobin ((pairs.map Prod.snd).map (·.items.length))).length start 0 []
  refine ⟨forth, ?_⟩
  unfold Decode.chain
  rw [counts]
  have names : (pairs.map Prod.fst).map (·.name) = pairs.map (·.2.name) := by
    rw [List.map_map]
    exact List.map_congr_left fun pair member => (awaits pair member).name
  refine found.bind ?_
  simp only [List.reverse_nil, List.nil_append]
  rw [foldl_insert_arrays (by rw [names]; exact fresh),
    arraysOf_found awaits fun index strand present => itemsOf_linkedValue present]
  exact .pure _

/-- What comes behind all headers comes behind the length and the code of the message. -/
theorem four_le_of_finish_le {headers : HeaderValues} (behind : headers.finish ≤ place) :
    4 ≤ place := by
  have size : Frame.Header.size = 4 := rfl
  simp only [HeaderValues.finish] at behind
  omega

/-- A value that was read goes behind the others. -/
theorem reads_insert {object : Object} {name : String} (fresh : name ∉ object.names)
    (headers : HeaderValues) (value : Value) :
    Reads quiet (pure ⟨headers, object.insert name value⟩ : Decode LevelRead) message place
      ⟨headers, ⟨object.fields ++ [(name, value)]⟩⟩ place := by
  rw [insert_of_notMem fresh]
  exact .pure _

/-- Whether an element of an array is read as it stands in order. -/
def ReadsElement (quiet : Prop) (message : Bytes) (field : Field) : Prop :=
  ∀ value place stop, 4 ≤ place → ElementInOrder quiet field message value place stop →
    place ≤ stop ∧ ∀ path, Reads quiet (readElement field path) message place value stop

/-- An array with as many items as its count says awaits them. -/
theorem awaits_column {field : Field} {headers : HeaderValues} {base : String} (path : String)
    {items : List Value} (count : countOf headers (dotted base field.name) = items.length)
    (element : ReadsElement quiet message field) :
    Awaits quiet message (Decode.column headers base path field.name (readElement field))
      (strandOf headers base field.name items (ElementInOrder quiet field)) where
  name := rfl
  count := count
  offset := by
    intro nonempty
    have given : items ≠ [] := nonempty
    simp only [strandOf, if_neg given]
    rfl
  element := element

end

/-- Whether a field that is no array is read as it stands in order. -/
def ReadsField (quiet : Prop) (message : Bytes) (base path : String) (field : Field) : Prop :=
  ∀ (headers left : HeaderValues) (object : Object) (place stop : Nat)
    (own : List (String × Value)), (field.isHeader = false → field.name ∉ object.names) →
    headers.finish ≤ place →
    InOrder quiet message base field headers place own left stop →
    place ≤ stop ∧ left.finish ≤ stop ∧
      Reads quiet (decodeField base path ⟨headers, object⟩ field) message place
        ⟨left, ⟨object.fields ++ own⟩⟩ stop

/-- Whether a level is read as it stands in order, behind the arrays that wait for their chain. -/
def ReadsLevel (quiet : Prop) (message : Bytes) (base path : String) (fields : List Field) : Prop :=
  ∀ (pairs : List (ReadColumn × Strand)) (headers left : HeaderValues) (object : Object)
    (place stop : Nat) (values : List (String × Value)),
    (∀ pair ∈ pairs, Awaits quiet message pair.1 pair.2) →
    (object.names ++ pairs.map (·.2.name) ++ valueNames fields).Nodup →
    headers.finish ≤ place →
    AllInOrder quiet message base (pairs.map Prod.snd) fields headers place values left stop →
    place ≤ stop ∧ left.finish ≤ stop ∧
      Reads quiet (decodeFields base path ⟨headers, object⟩ (pairs.map Prod.fst) fields) message
        place ⟨left, ⟨object.fields ++ arraysOf (pairs.map Prod.snd) ++ values⟩⟩ stop

section

variable {quiet : Prop} {message : Bytes} {base path name : String} {field : Field}
  {fields rest : List Field}

/-- A field that is no header and no array gives one value, under its name. -/
theorem names_of_inOrder {headers left : HeaderValues} {place stop : Nat}
    {own : List (String × Value)}
    (inOrder : InOrder quiet message base field headers place own left stop) :
    own.map Prod.fst = if field.isHeader then [] else [field.name] := by
  cases field with
  | header kind key =>
      rw [InOrder] at inOrder
      rw [inOrder.2.2.1]
      rfl
  | scalar name type =>
      rw [InOrder] at inOrder
      obtain ⟨_, _, value, rfl, _⟩ := inOrder
      rfl
  | string name =>
      rw [InOrder] at inOrder
      obtain ⟨_, _, _, text, rfl, _⟩ := inOrder
      rfl
  | bytes name =>
      rw [InOrder] at inOrder
      obtain ⟨_, run, rfl, _⟩ := inOrder
      rfl
  | object name fields =>
      rw [InOrder] at inOrder
      obtain ⟨inner, rfl, _⟩ := inOrder
      rfl
  | scalars | items => exact inOrder.elim

theorem readsField_header (kind : HeaderKind) (key : String) :
    ReadsField quiet message base path (.header kind key) := by
  intro headers left object place stop own _ behind inOrder
  rw [InOrder] at inOrder
  obtain ⟨inside, rfl, rfl, rfl⟩ := inOrder
  have grown := finish_insert headers kind (dotted base key) (numberAt message place)
  refine ⟨by omega, by omega, ?_⟩
  rw [decodeField]
  refine (reads_within (reads_numberAt inside) _).of_quiet.bind ?_
  rw [List.append_nil]
  exact .pure _

theorem readsField_scalar (name : String) (type : Scalar) :
    ReadsField quiet message base path (.scalar name type) := by
  intro headers left object place stop own fresh behind inOrder
  rw [InOrder] at inOrder
  obtain ⟨rfl, rfl, value, rfl, found⟩ := inOrder
  refine ⟨by omega, by omega, ?_⟩
  rw [decodeField]
  refine (found _).of_quiet.bind ?_
  exact reads_insert (fresh rfl) _ _

/-- A text is read where it stands, or where its offset says. -/
theorem readsField_string (name : String) :
    ReadsField quiet message base path (.string name) := by
  intro headers left object place stop own fresh behind inOrder
  rw [InOrder] at inOrder
  obtain ⟨rfl, points, forth, text, rfl, found⟩ := inOrder
  refine ⟨by omega, by omega, ?_⟩
  rw [decodeField]
  refine (reads_seekTarget points behind _).of_quiet.bind ?_
  refine (reads_within found _).of_quiet.bind ?_
  exact reads_insert (fresh rfl) _ _

/-- Bytes are read where they stand, or where their offset says. -/
theorem readsField_bytes (name : String) :
    ReadsField quiet message base path (.bytes name) := by
  intro headers left object place stop own fresh behind inOrder
  rw [InOrder] at inOrder
  obtain ⟨rfl, run, rfl, count, points, rfl, found⟩ := inOrder
  refine ⟨by omega, by omega, ?_⟩
  have last : Reads quiet (do
      let value ← Decode.within (dotted path name) (Read.bytes run.size)
      pure ⟨left, object.insert name (.bytes value)⟩) message place
      (⟨left, ⟨object.fields ++ [(name, .bytes run)]⟩⟩ : LevelRead) (place + run.size) :=
    (reads_within found _).of_quiet.bind (reads_insert (fresh rfl) _ _)
  rw [countOf] at count
  rw [decodeField]
  simp only [count]
  split
  next filled => exact (reads_seekTarget (points filled) behind _).of_quiet.bind last
  next => exact last

/-- An object is read as its fields are. -/
theorem readsField_object (named : WellNamed fields)
    (level : ReadsLevel quiet message (dotted base name) (dotted path name) fields) :
    ReadsField quiet message base path (.object name fields) := by
  intro headers left object place stop own fresh behind inOrder
  rw [InOrder] at inOrder
  obtain ⟨inner, rfl, inOrder⟩ := inOrder
  obtain ⟨forth, finished, found⟩ := level [] headers left .empty place stop inner (by simp)
    (nodup_valueNames named) behind inOrder
  refine ⟨forth, finished, ?_⟩
  rw [decodeField]
  refine found.bind ?_
  exact reads_insert (fresh rfl) _ _

theorem names_append_arraysOf (object : Object) (pairs : List (ReadColumn × Strand)) :
    (⟨object.fields ++ arraysOf (pairs.map Prod.snd)⟩ : Object).names =
      object.names ++ pairs.map (·.2.name) := by
  simp [Object.names, arraysOf, Function.comp_def]

theorem readsLevel_nil : ReadsLevel quiet message base path [] := by
  intro pairs headers left object place stop values awaits fresh behind inOrder
  rw [AllInOrder] at inOrder
  obtain ⟨rfl, rfl, chained⟩ := inOrder
  obtain ⟨forth, found⟩ := reads_chain awaits chained (four_le_of_finish_le behind) left
    (List.nodup_append.mp fresh).1
  refine ⟨forth, Nat.le_trans behind forth, ?_⟩
  rw [decodeFields, List.append_nil]
  exact found

/-- An array that may share its chain joins those that wait. -/
theorem readsLevel_mixed (mixed : field.isMixed = true)
    (element : ReadsElement quiet message field)
    (further : ReadsLevel quiet message base path rest) :
    ReadsLevel quiet message base path (field :: rest) := by
  have array := Field.isArray_of_isMixed mixed
  intro pairs headers left object place stop values awaits fresh behind inOrder
  rw [AllInOrder, if_pos array] at inOrder
  obtain ⟨items, more, rfl, count, inOrder⟩ := inOrder
  rw [if_pos mixed] at inOrder
  rw [valueNames_cons, Field.isHeader_of_isArray array, if_neg Bool.false_ne_true] at fresh
  have joined := further
    (pairs ++ [(Decode.column headers base path field.name (readElement field),
      strandOf headers base field.name items (ElementInOrder quiet field))])
    headers left object place stop more
    (List.forall_mem_append.mpr
      ⟨awaits, List.forall_mem_singleton.mpr (awaits_column path count element)⟩)
    (by simpa [strandOf] using fresh) behind
    (by
      rw [List.map_append]
      exact inOrder)
  rw [decodeFields_mixed mixed]
  simpa [arraysOf, strandOf] using joined

/-- An array that shares no chain is read behind those that wait. -/
theorem readsLevel_apart (array : field.isArray = true) (plain : field.isMixed = false)
    (element : ReadsElement quiet message field)
    (further : ReadsLevel quiet message base path rest) :
    ReadsLevel quiet message base path (field :: rest) := by
  intro pairs headers left object place stop values awaits fresh behind inOrder
  rw [AllInOrder, if_pos array] at inOrder
  obtain ⟨items, more, rfl, count, inOrder⟩ := inOrder
  rw [plain, if_neg Bool.false_ne_true] at inOrder
  obtain ⟨start, middle, chained, alone, inOrder⟩ := inOrder
  rw [valueNames_cons, Field.isHeader_of_isArray array, if_neg Bool.false_ne_true] at fresh
  obtain ⟨forth, first⟩ := reads_chain awaits chained (four_le_of_finish_le behind) headers
    (List.nodup_append.mp fresh).1
  have await : ∀ pair ∈ [(Decode.column headers base path field.name (readElement field),
      strandOf headers base field.name items (ElementInOrder quiet field))],
      Awaits quiet message pair.1 pair.2 :=
    List.forall_mem_singleton.mpr (awaits_column path count element)
  have freshOwn : ((⟨object.fields ++ arraysOf (pairs.map Prod.snd)⟩ : Object).names ++
      [field.name]).Nodup := by
    rw [names_append_arraysOf]
    exact fresh.sublist (List.Sublist.append_left
      (List.singleton_sublist.mpr List.mem_cons_self) _)
  obtain ⟨ahead, second⟩ := reads_chain await alone
    (Nat.le_trans (four_le_of_finish_le behind) forth) headers freshOwn
  obtain ⟨onward, finished, third⟩ := further [] headers left
    ⟨object.fields ++ arraysOf (pairs.map Prod.snd) ++ [(field.name, .array items)]⟩ middle stop
    more (by simp) (by simpa [Object.names, arraysOf, Function.comp_def] using fresh) (by omega)
    inOrder
  refine ⟨by omega, finished, ?_⟩
  simp only [decodeFields_plain plain, decodeField_array array]
  refine first.bind (second.bind ?_)
  simpa [arraysOf, strandOf] using third

/-- A field that is no array is read behind the arrays that wait. -/
theorem readsLevel_single (single : field.isArray = false)
    (own : ReadsField quiet message base path field)
    (further : ReadsLevel quiet message base path rest) :
    ReadsLevel quiet message base path (field :: rest) := by
  intro pairs headers left object place stop values awaits fresh behind inOrder
  rw [AllInOrder, if_neg (Bool.eq_false_iff.mp single)] at inOrder
  obtain ⟨held, more, start, middle, between, rfl, chained, inOrder, others⟩ := inOrder
  rw [valueNames_cons] at fresh
  obtain ⟨forth, first⟩ := reads_chain awaits chained (four_le_of_finish_le behind) headers
    (List.nodup_append.mp fresh).1
  have freshOwn : field.isHeader = false →
      field.name ∉ (⟨object.fields ++ arraysOf (pairs.map Prod.snd)⟩ : Object).names := by
    intro value member
    rw [names_append_arraysOf] at member
    rw [value, if_neg Bool.false_ne_true, List.nodup_append] at fresh
    exact fresh.2.2 _ member _ List.mem_cons_self rfl
  obtain ⟨ahead, behindNext, second⟩ := own headers between
    ⟨object.fields ++ arraysOf (pairs.map Prod.snd)⟩ start middle held freshOwn
    (Nat.le_trans behind forth) inOrder
  have listed := names_of_inOrder inOrder
  obtain ⟨onward, finished, third⟩ := further [] between left
    ⟨object.fields ++ arraysOf (pairs.map Prod.snd) ++ held⟩ middle stop more (by simp)
    (by
      split at fresh
      next header =>
        rw [if_pos header, List.map_eq_nil_iff] at listed
        simpa [Object.names, arraysOf, Function.comp_def, listed] using fresh
      next value =>
        rw [if_neg value] at listed
        simpa [Object.names, arraysOf, Function.comp_def, listed] using fresh)
    behindNext others
  refine ⟨by omega, finished, ?_⟩
  rw [decodeFields_plain (Field.isMixed_of_isArray single)]
  refine first.bind (second.bind ?_)
  simpa [arraysOf] using third

end

mutual

/-- **Every element that stands in order is read as it does.** -/
theorem reads_of_elementInOrder {quiet : Prop} {message : Bytes} :
    ∀ {field : Field}, WellNamedBelow field → ReadsElement quiet message field
  | .scalars _ type _, _ => by
      intro value place stop behind inOrder
      rw [ElementInOrder] at inOrder
      obtain ⟨rfl, found⟩ := inOrder
      exact ⟨Nat.le_add_right .., fun path => (found path).of_quiet⟩
  | .items _ fields _, named => by
      intro value place stop behind inOrder
      rw [ElementInOrder] at inOrder
      rw [WellNamedBelow] at named
      obtain ⟨inner, left, rfl, inOrder⟩ := inOrder
      have found (path : String) := reads_of_allInOrder named "" path [] ⟨[]⟩ left .empty place stop
        inner (by simp) (nodup_valueNames named) behind inOrder
      refine ⟨(found "").1, fun path => ?_⟩
      exact (found path).2.2.bind (.pure _)
  | .header .., _ | .scalar .., _ | .string _, _ | .bytes _, _ | .object .., _ =>
      fun _ _ _ _ inOrder => inOrder.elim

/-- **Every field that stands in order is read as it does.** -/
theorem reads_of_inOrder {quiet : Prop} {message : Bytes} :
    ∀ {field : Field}, WellNamedBelow field → ∀ (base path : String),
      ReadsField quiet message base path field
  | .header kind key, _, _, _ => readsField_header kind key
  | .scalar name type, _, _, _ => readsField_scalar name type
  | .string name, _, _, _ => readsField_string name
  | .bytes name, _, _, _ => readsField_bytes name
  | .object name fields, named, base, path => by
      rw [WellNamedBelow] at named
      exact readsField_object named
        (reads_of_allInOrder named (dotted base name) (dotted path name))
  | .scalars .., _, _, _ | .items .., _, _, _ => fun _ _ _ _ _ _ _ _ inOrder => inOrder.elim

/-- **What is in order is read as it stands**: the cursor goes from its first place to its last, and
where every array is pointed at nothing is remarked upon. -/
theorem reads_of_allInOrder {quiet : Prop} {message : Bytes} :
    ∀ {fields : List Field}, WellNamed fields → ∀ (base path : String),
      ReadsLevel quiet message base path fields
  | [], _, _, _ => readsLevel_nil
  | field :: rest, named, base, path => by
      rw [WellNamed] at named
      obtain ⟨_, below, others⟩ := named
      have further : ReadsLevel quiet message base path rest :=
        reads_of_allInOrder others base path
      by_cases array : field.isArray = true
      · have element : ReadsElement quiet message field := reads_of_elementInOrder below
        by_cases mixed : field.isMixed = true
        · exact readsLevel_mixed mixed element further
        · exact readsLevel_apart array (Bool.eq_false_iff.mpr mixed) element further
      · exact readsLevel_single (Bool.eq_false_iff.mpr array) (reads_of_inOrder below base path)
          further

end

end Relay.Layout
