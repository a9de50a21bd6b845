import Relay.Proofs.Layout.Addressed
import Relay.Proofs.Layout.Passage

/-! # The parts of a level are drafted in order

A header, a scalar, a run behind its headers and an array that is prepared each have their passage.
A chain is followed link by link, each element closing the link of the one before it
(`Relay.Layout.stretch_writeLinks`); its arrays wait with their offsets still open
(`Relay.Layout.Pending`). -/

namespace Relay.Layout

open Relay.Stream Relay.Frame.Header Encode

variable {writer after : Writer} {waiting left : OpenSlots} {due : List String} {held : List Slot}

/-- A scalar stands where the cursor was. -/
theorem stretch_scalar {type : Scalar} {item : Option Value} {path : String}
    (found : Encode.scalar type item path writer = .ok ((), after)) (slots : List Slot) :
    Stretch writer slots after slots fun message =>
      after.position = writer.position + type.width ∧ ∀ path,
        Reads True (Decode.scalar type path) message writer.position (type.stored item)
          after.position := by
  obtain ⟨run, length, equal, reads⟩ := scalar_eq_ok found
  cases equal
  have position : (writer.put run).position = writer.position + type.width := by
    rw [Writer.put_position, length]
  refine (Stretch.put run).imp fun message _ holds => ⟨position, ?_⟩
  rw [position]
  exact reads message _ holds

theorem uint16_position (writer : Writer) (value : UInt16) :
    (writer.uint16 value).position = writer.position + 2 := by
  rw [Writer.uint16, Writer.number, Writer.put_position, length_littleEndian]

/-- A header is reserved where the cursor was, and one of the same kind and key that still waits
becomes zero. -/
theorem stretch_header {kind : HeaderKind} {key : String}
    (found : Encode.header kind key waiting writer = .ok (left, after)) :
    left = (waiting.take kind key).2.add kind key ⟨writer.position⟩ ∧
      after.position = writer.position + 2 ∧
      ∀ held, Stretch writer (waiting.slots.map Prod.snd ++ held) after
        (left.slots.map Prod.snd ++ held) fun message =>
          writer.position + 2 ≤ message.size ∧
            ∀ slot ∈ (waiting.take kind key).1, numberAt message slot.position = 0 := by
  obtain ⟨rfl, stale⟩ := header_eq_ok found
  obtain ⟨still, stretch⟩ := stretch_resolve stale
  refine ⟨rfl, still.trans (uint16_position writer 0), fun held => ?_⟩
  have opened : Stretch writer (waiting.slots.map Prod.snd ++ held) (writer.uint16 0)
      (⟨writer.position⟩ :: (waiting.slots.map Prod.snd ++ held)) fun message =>
        writer.position + 2 ≤ message.size := .reserve
  have reorder : (⟨writer.position⟩ :: (waiting.slots.map Prod.snd ++ held) : List Slot).Perm
      ((waiting.take kind key).1.toList ++
        (⟨writer.position⟩ :: ((waiting.take kind key).2.slots.map Prod.snd ++ held))) := by
    refine .trans (.cons _ (waiting.perm_take_append kind key held).symm) ?_
    exact List.perm_middle.symm
  exact (opened.perm (.refl _) reorder).trans (stretch _)

/-- A header is read where it is reserved. -/
theorem passage_header {kind : HeaderKind} {key : String}
    (found : Encode.header kind key waiting writer = .ok (left, after)) :
    Passage ⟨writer, waiting, due, held⟩ ⟨after, left, due, held⟩ fun message headers later =>
      writer.position + 2 ≤ message.size ∧ after.position = writer.position + 2 ∧
        later = headers.insert kind key (numberAt message writer.position) := by
  obtain ⟨rfl, position, stretch⟩ := stretch_header found
  refine Stretch.imp (stretch held) ?_
  rintro message _ ⟨inside, zero⟩ spent
  refine ⟨?_, fun headers synced => ⟨_, ⟨inside, position, rfl⟩, ?_⟩⟩
  · intro entry member past
    rcases waiting.mem_take_or kind key member with stays | taken
    · exact spent entry (List.mem_cons_of_mem _ stays) past
    · exact zero entry.2 taken
  · intro other name listed
    rw [get?_insert, OpenSlots.lookup_add]
    split
    · rfl
    · next differs =>
      have unchanged := waiting.lookup_take kind key differs
      exact (synced other name listed).trans (congrArg (Option.map _) unchanged.symm)

/-- What was known is still known when a header is reserved, and the header is known as well. -/
theorem OpenSlots.Knows.header {kind : HeaderKind} {key : String}
    {known : List (HeaderKind × String)}
    (found : Encode.header kind key waiting writer = .ok (left, after))
    (knows : waiting.Knows due known) : left.Knows due (known ++ [(kind, key)]) := by
  obtain ⟨rfl, _⟩ := header_eq_ok found
  intro entry member stillDue
  rw [OpenSlots.lookup_add]
  split
  next => rfl
  next differs =>
    rw [waiting.lookup_take kind key differs]
    rcases List.mem_append.mp member with earlier | new
    · exact knows entry earlier stillDue
    · exact absurd (List.mem_singleton.mp new) differs

/-- The count of a field is that of its slot, if there is one. -/
theorem countOf_eq {headers : HeaderValues} {key : String} {slot : Option Slot}
    {value : Slot → UInt16} {count : Nat} (known : headers.get? .count key = slot.map value)
    (filled : ∀ header ∈ slot, (value header).toNat = count) :
    countOf headers key = if slot.isSome then count else 0 := by
  rw [countOf, known]
  cases slot with
  | none => rfl
  | some header => exact filled header rfl

theorem lookup_offset_take_count (waiting : OpenSlots) (key : String) :
    ((waiting.take .count key).2.take .offset key).1 = waiting.slots.lookup (.offset, key) :=
  waiting.lookup_take .count key (by simp)

/-- A run is written behind its headers, which are filled in. -/
theorem stretch_sendRun {key path : String} {length : Nat} {run : List UInt8}
    (found : sendRun key path waiting length run writer = .ok (left, after)) :
    left = ((waiting.take .count key).2.take .offset key).2 ∧
      after.position = writer.position + run.length ∧
      ∀ held, Stretch writer (waiting.slots.map Prod.snd ++ held) after
        (left.slots.map Prod.snd ++ held) fun message =>
          (∀ slot ∈ (waiting.take .count key).1,
            (numberAt message slot.position).toNat = length) ∧
          (∀ slot ∈ ((waiting.take .count key).2.take .offset key).1,
            (numberAt message slot.position).toNat = writer.position) ∧
          Holds message writer.position run := by
  obtain ⟨_, counted, count, found⟩ := bind_eq_ok.mp found
  obtain ⟨_, pointed, offset, found⟩ := bind_eq_ok.mp found
  obtain ⟨_, _, wrote, found⟩ := bind_eq_ok.mp found
  cases write_eq_ok.mp wrote
  cases pure_eq_ok.mp found
  obtain ⟨stillCount, countStretch⟩ := stretch_resolveCount count
  obtain ⟨stillOffset, offsetStretch⟩ := stretch_resolveHere offset
  have position : pointed.position = writer.position := stillOffset.trans stillCount
  refine ⟨rfl, by rw [Writer.put_position, position], fun held => ?_⟩
  have countPart := (countStretch ((waiting.take .count key).2.slots.map Prod.snd ++ held)).perm
    (waiting.perm_take_append .count key held) (.refl _)
  have offsetPart := (offsetStretch
      (((waiting.take .count key).2.take .offset key).2.slots.map Prod.snd ++ held)).perm
    ((waiting.take .count key).2.perm_take_append .offset key held) (.refl _)
  refine ((countPart.trans offsetPart).trans (.put run)).imp ?_
  rintro message _ ⟨⟨countKnown, offsetKnown⟩, holds⟩
  refine ⟨countKnown, fun slot taken => ?_, position ▸ holds⟩
  rw [offsetKnown slot taken, stillCount]

/-- A run stands where the cursor was, which is where its offset points, and its count is known if
it has one. -/
theorem passage_sendRun {key path : String} {length : Nat} {run : List UInt8}
    (found : sendRun key path waiting length run writer = .ok (left, after))
    (fresh : key ∉ due) :
    Taken key waiting left ∧
      Passage ⟨writer, waiting, key :: due, held⟩ ⟨after, left, due, held⟩
        fun message headers later => later = headers ∧
          after.position = writer.position + run.length ∧ Holds message writer.position run ∧
          PointsAt headers key writer.position ∧
          countOf headers key =
            if (waiting.slots.lookup (.count, key)).isSome then length else 0 := by
  obtain ⟨rfl, position, stretch⟩ := stretch_sendRun found
  have taken : Taken key waiting ((waiting.take .count key).2.take .offset key).2 :=
    (Taken.take .count key waiting).trans (Taken.take .offset key _)
  refine ⟨taken, (Passage.close (stretch held) taken fresh).imp ?_⟩
  rintro message headers later ⟨same, ⟨countKnown, offsetKnown, holds⟩, known, _⟩
  refine ⟨same, position, holds, ?_, ?_⟩
  · intro value given
    rw [known .offset] at given
    obtain ⟨slot, open', rfl⟩ := Option.map_eq_some_iff.mp given
    exact offsetKnown slot ((lookup_offset_take_count waiting key).trans open')
  · exact countOf_eq (known .count) countKnown

/-- An array that is not empty is prepared: its count is filled in, and its offset is handed over
to its chain. -/
theorem stretch_openColumn {key path : String} {element : String → Value → Encode Unit}
    {items : List Value} {column : WriteColumn} (filled : items ≠ [])
    (found : openColumn key path waiting element items writer = .ok ((column, left), after)) :
    column = ⟨path, items.toArray, ((waiting.take .count key).2.take .offset key).1, element⟩ ∧
      left = ((waiting.take .count key).2.take .offset key).2 ∧
      after.position = writer.position ∧
      ∀ held, Stretch writer (waiting.slots.map Prod.snd ++ held) after
        (column.first.toList ++ (left.slots.map Prod.snd ++ held)) fun message =>
          ∀ slot ∈ (waiting.take .count key).1,
            (numberAt message slot.position).toNat = items.length := by
  unfold openColumn at found
  have some : ¬ items.isEmpty = true := by
    rw [List.isEmpty_iff]
    exact filled
  rw [if_neg some] at found
  by_cases large : UInt16.size ≤ items.length
  · rw [if_pos large] at found
    exact absurd found throw_ne_ok
  rw [if_neg large] at found
  obtain ⟨_, counted, count, found⟩ := bind_eq_ok.mp found
  cases pure_eq_ok.mp found
  obtain ⟨still, stretch⟩ := stretch_resolve count
  refine ⟨rfl, rfl, still, fun held => ?_⟩
  have handed := ((waiting.take .count key).2.perm_take_append .offset key held).append_left
    (waiting.take .count key).1.toList
  have reorder := handed.trans (waiting.perm_take_append .count key held)
  refine ((stretch _).perm reorder (.refl _)).imp ?_
  intro message _ known slot taken
  rw [known slot taken]
  exact UInt16.toNat_ofNat_of_lt' (Nat.lt_of_not_le large)

/-- An array is prepared: its count is filled in if it has one, and its offset stays open for the
first element. Of an empty array the count, if it has one, will be zero. -/
theorem passage_openColumn {key path : String} {element : String → Value → Encode Unit}
    {items : List Value} {column : WriteColumn}
    (found : openColumn key path waiting element items writer = .ok ((column, left), after))
    (fresh : key ∉ due) :
    Taken key waiting left ∧ after.position = writer.position ∧
      column = ⟨path, items.toArray,
        if items = [] then none else waiting.slots.lookup (.offset, key), element⟩ ∧
      Passage ⟨writer, waiting, key :: due, held⟩
        ⟨after, left, due, column.first.toList ++ held⟩
        fun message headers later => later = headers ∧
          (countOf headers key =
            if (waiting.slots.lookup (.count, key)).isSome then items.length else 0) ∧
          (if items = [] then none else headers.get? .offset key) =
            column.first.map fun slot => numberAt message slot.position := by
  by_cases empty : items = []
  · subst empty
    unfold openColumn at found
    cases pure_eq_ok.mp found
    have unchanged := Stretch.refl writer (waiting.slots.map Prod.snd ++ held)
    have closed := Passage.close unchanged (.refl key waiting) fresh
    refine ⟨.refl key waiting, rfl, rfl, closed.imp ?_⟩
    rintro message headers later ⟨same, _, known, zero⟩
    refine ⟨same, ?_, rfl⟩
    apply countOf_eq (known .count)
    intro slot waits
    exact congrArg UInt16.toNat (zero _ (waiting.mem_of_lookup waits) rfl)
  · obtain ⟨rfl, rfl, still, stretch⟩ := stretch_openColumn empty found
    have taken : Taken key waiting ((waiting.take .count key).2.take .offset key).2 :=
      (Taken.take .count key waiting).trans (Taken.take .offset key _)
    refine ⟨taken, still, ?_, ?_⟩
    · rw [if_neg empty, lookup_offset_take_count]
    · have whole := (stretch held).perm (.refl _) (List.perm_append_comm_assoc ..)
      refine (Passage.close whole taken fresh).imp ?_
      rintro message headers later ⟨same, countKnown, known, _⟩
      refine ⟨same, countOf_eq (known .count) countKnown, ?_⟩
      rw [if_neg empty, known .offset, lookup_offset_take_count]

/-- The two links of an element: the position goes to the offset of its array, to the link of the
element before it and to its own first link, and the second link is reserved. -/
theorem stretch_link {first previous : Option Slot} {position : UInt16} {begun joined : Writer}
    (number : position.toNat = writer.position)
    (offset : resolve first position writer = .ok ((), begun))
    (forward : resolve previous position begun = .ok ((), joined)) (slots : List Slot) :
    joined.position = writer.position ∧
      Stretch writer (first.toList ++ (previous.toList ++ slots))
        ((joined.uint16 position).uint16 0) (⟨(joined.uint16 position).position⟩ :: slots)
        fun message =>
          (∀ slot ∈ first, (numberAt message slot.position).toNat = writer.position) ∧
          (∀ slot ∈ previous, (numberAt message slot.position).toNat = writer.position) ∧
          (numberAt message writer.position).toNat = writer.position ∧
          writer.position + 4 ≤ message.size := by
  obtain ⟨stillFirst, firstStretch⟩ := stretch_resolve offset
  obtain ⟨stillPrevious, previousStretch⟩ := stretch_resolve forward
  have still : joined.position = writer.position := stillPrevious.trans stillFirst
  have self : Stretch joined slots (joined.uint16 position) slots fun message =>
      Holds message joined.position (littleEndian 2 position.toNat) := .put _
  have whole := ((firstStretch (previous.toList ++ slots)).trans (previousStretch slots)).trans
    (self.trans .reserve)
  refine ⟨still, whole.imp ?_⟩
  rintro message _ ⟨⟨toFirst, toPrevious⟩, holds, room⟩
  rw [uint16_position] at room
  refine ⟨fun slot member => ?_, fun slot member => ?_, ?_, by omega⟩
  · rw [toFirst slot member, number]
  · rw [toPrevious slot member, number]
  · rw [← still, holds.numberAt, UInt16.ofNat_toNat, number, still]

/-- The steps of writing an element: its links, the element, and the elements behind it. -/
theorem writeLinks_cons_eq_ok {columns : Array WriteColumn} {column : WriteColumn}
    {previous : Option Slot} {link : Link} {rest : List Link}
    (present : columns[link.array]? = some column)
    (found : writeLinks columns previous (link :: rest) writer = .ok ((), after)) :
    ∃ position begun joined next, position.toNat = writer.position ∧
      resolve (if link.place = 0 then column.first else none) position writer = .ok ((), begun) ∧
      resolve previous position begun = .ok ((), joined) ∧
      column.element s!"{column.path}[{link.place}]" (column.items.getD link.place default)
        ((joined.uint16 position).uint16 0) = .ok ((), next) ∧
      writeLinks columns (some ⟨(joined.uint16 position).position⟩) rest next =
        .ok ((), after) := by
  rw [writeLinks_cons present] at found
  obtain ⟨position, _, looked, found⟩ := bind_eq_ok.mp found
  obtain ⟨same, number⟩ := here_eq_ok looked
  rw [same] at found
  obtain ⟨_, begun, offset, found⟩ := bind_eq_ok.mp found
  obtain ⟨_, joined, forward, found⟩ := bind_eq_ok.mp found
  obtain ⟨_, _, self, found⟩ := bind_eq_ok.mp found
  cases write_eq_ok.mp self
  obtain ⟨_, _, seen, found⟩ := bind_eq_ok.mp found
  cases get_eq_ok.mp seen
  obtain ⟨_, _, reserved, found⟩ := bind_eq_ok.mp found
  cases write_eq_ok.mp reserved
  obtain ⟨_, next, wrote, found⟩ := bind_eq_ok.mp found
  exact ⟨position, begun, joined, next, number, offset, forward, wrote, found⟩

/-- An array that is to be written, and how it will stand in a message. The offset of the strand is
left open; it is that of the column. -/
structure Loads (column : WriteColumn) (strand : Strand) : Prop where
  size : column.items.size = strand.items.length
  empty : strand.items = [] → column.first = none
  element : ∀ (place : Nat) (item value : Value), column.items[place]? = some item →
    strand.items[place]? = some value → ∀ path writer after slots,
    column.element path item writer = .ok ((), after) →
    Stretch writer slots after slots fun message =>
      strand.element message value writer.position after.position

/-- An array that is loaded has an item for each of its strand. -/
theorem Loads.getElem? {column : WriteColumn} {strand : Strand} (load : Loads column strand)
    {place : Nat} (small : place < strand.items.length) :
    column.items[place]? = some (column.items.getD place default) := by
  have inside : place < column.items.size := by
    rw [load.size]
    exact small
  rw [Array.getElem?_eq_getElem inside, Array.getD_eq_getD_getElem?,
    Array.getElem?_eq_getElem inside, Option.getD_some]

/-- An array with the offset that its header will have in a message. -/
def strandAt (message : Bytes) (pair : WriteColumn × Strand) : Strand :=
  { pair.2 with offset := pair.1.first.map fun slot => numberAt message slot.position }

/-- The offsets that are filled in along links. -/
def offsetsAlong (pairs : List (WriteColumn × Strand)) (links : List Link) : List Slot :=
  links.filterMap fun link =>
    if link.place = 0 then pairs[link.array]?.bind (·.1.first) else none

section

variable {quiet : Prop} {pairs : List (WriteColumn × Strand)}

/-- Along links the offset of an array is filled in where its first element stands. -/
theorem offsetsAlong_cons {link : Link} {pair : WriteColumn × Strand} (rest : List Link)
    (present : pairs[link.array]? = some pair) :
    offsetsAlong pairs (link :: rest) =
      (if link.place = 0 then pair.1.first else none).toList ++ offsetsAlong pairs rest := by
  rw [offsetsAlong, List.filterMap_cons, present, Option.bind_some]
  cases (if link.place = 0 then pair.1.first else none) <;> rfl

/-- **Links are drafted in order.** Each element closes the link of the one before it, and the first
of an array its offset. -/
theorem stretch_writeLinks (loads : ∀ pair ∈ pairs, Loads pair.1 pair.2)
    (pointed : quiet → ∀ pair ∈ pairs, pair.2.items ≠ [] → pair.1.first.isSome)
    {links : List Link}
    (inside : ∀ link ∈ links, ∃ pair, pairs[link.array]? = some pair ∧
      link.place < pair.2.items.length) {previous : Option Slot} {writer after : Writer}
    (found : writeLinks (pairs.map Prod.fst).toArray previous links writer = .ok ((), after))
    (held : List Slot) :
    Stretch writer (previous.toList ++ (offsetsAlong pairs links ++ held)) after held
      fun message =>
        (∀ slot ∈ previous, (numberAt message slot.position).toNat =
          if links = [] then 0 else writer.position) ∧
        Linked quiet message (pairs.map (strandAt message)) links writer.position
          after.position := by
  -- along the links: the slot that one element leaves open is closed by the next, or by the end
  induction links generalizing previous writer with
  | nil =>
      obtain ⟨still, stretch⟩ := stretch_resolve found
      refine (stretch held).imp ?_
      intro message _ filled
      refine ⟨fun slot member => ?_, still.symm⟩
      rw [filled slot member]
      rfl
  | cons link rest ih =>
      obtain ⟨pair, present, small⟩ := inside link List.mem_cons_self
      have column : (pairs.map Prod.fst).toArray[link.array]? = some pair.1 := by
        rw [List.getElem?_toArray, List.getElem?_map, present, Option.map_some]
      have load := loads pair (List.mem_of_getElem? present)
      have value : pair.2.items[link.place]? = some pair.2.items[link.place] :=
        List.getElem?_eq_getElem small
      obtain ⟨position, begun, joined, next, number, offset, forward, wrote, found⟩ :=
        writeLinks_cons_eq_ok column found
      obtain ⟨still, links⟩ := stretch_link number offset forward (offsetsAlong pairs rest ++ held)
      have element := load.element link.place _ _ (load.getElem? small) value _ _ _
        (⟨(joined.uint16 position).position⟩ :: (offsetsAlong pairs rest ++ held)) wrote
      have others := ih (fun other member => inside other (List.mem_cons_of_mem _ member)) found
      have reorder : ((if link.place = 0 then pair.1.first else none).toList ++
          (previous.toList ++ (offsetsAlong pairs rest ++ held))).Perm
            (previous.toList ++ (offsetsAlong pairs (link :: rest) ++ held)) := by
        rw [offsetsAlong_cons rest present, List.append_assoc]
        exact List.perm_append_comm_assoc ..
      refine (((links.trans element).trans others).perm reorder (.refl _)).imp ?_
      rintro message _ ⟨⟨⟨toFirst, toPrevious, self, room⟩, stands⟩, link', linked⟩
      rw [if_neg (List.cons_ne_nil _ _)]
      have second : (joined.uint16 position).position = writer.position + 2 := by
        rw [uint16_position, still]
      have begins : ((joined.uint16 position).uint16 0).position = writer.position + 4 := by
        rw [uint16_position, second]
      rw [begins] at stands
      refine ⟨toPrevious, strandAt message pair, pair.2.items[link.place], next.position, ?_, value,
        ?_, room, self, ?_, stands, linked⟩
      · rw [List.getElem?_map, present, Option.map_some]
      · intro zero
        rw [if_pos zero] at toFirst
        refine ⟨fun told given => ?_, fun silent => ?_⟩
        · obtain ⟨slot, member, rfl⟩ := Option.map_eq_some_iff.mp given
          exact toFirst slot member
        · have nonempty : pair.2.items ≠ [] := List.ne_nil_of_length_pos (by omega)
          simpa [strandAt] using pointed silent pair (List.mem_of_getElem? present) nonempty
      · rw [← second]
        exact link' ⟨(joined.uint16 position).position⟩ rfl

/-- **A chain is drafted in order**: its offsets are filled in, and nothing else. -/
theorem stretch_chain (loads : ∀ pair ∈ pairs, Loads pair.1 pair.2)
    (pointed : quiet → ∀ pair ∈ pairs, pair.2.items ≠ [] → pair.1.first.isSome)
    (leads : ∀ pair, pairs.find? (fun pair => decide (0 < pair.2.items.length)) = some pair →
      pair.1.first.isSome) {writer after : Writer}
    (found : Encode.chain (pairs.map Prod.fst) writer = .ok ((), after)) (held : List Slot) :
    Stretch writer (pairs.filterMap (·.1.first) ++ held) after held fun message =>
      Chained quiet message (pairs.map (strandAt message)) writer.position after.position := by
  have counts : (pairs.map Prod.fst).map (·.items.size) = pairs.map (·.2.items.length) := by
    rw [List.map_map]
    apply List.map_congr_left
    intro pair member
    exact (loads pair member).size
  rw [Encode.chain, counts] at found
  have offsets : offsetsAlong pairs (roundRobin (pairs.map (·.2.items.length))) =
      pairs.filterMap (·.1.first) := by
    refine filterMap_roundRobin fun pair member empty => ?_
    exact (loads pair member).empty (List.length_eq_zero_iff.mp empty)
  have inside (link : Link) (member : link ∈ roundRobin (pairs.map (·.2.items.length))) :
      ∃ pair, pairs[link.array]? = some pair ∧ link.place < pair.2.items.length := by
    obtain ⟨count, counted, small⟩ := mem_of_mem_roundRobin member
    rw [List.getElem?_map, Option.map_eq_some_iff] at counted
    obtain ⟨pair, present, rfl⟩ := counted
    exact ⟨pair, present, small⟩
  have drafted := stretch_writeLinks loads pointed inside found held
  rw [offsets] at drafted
  refine drafted.imp ?_
  intro message _ settled
  have lengths : (pairs.map (strandAt message)).map (·.items.length) =
      pairs.map (·.2.items.length) := by
    rw [List.map_map]
    rfl
  refine ⟨?_, ?_⟩
  · rw [lengths]
    exact settled.2
  · intro strand first
    rw [List.find?_map, Option.map_eq_some_iff] at first
    obtain ⟨pair, first, rfl⟩ := first
    simpa [strandAt] using leads pair first

/-- The arrays that wait for their chain, and whether one of them has elements. The first of these
has an offset, and where all is quiet every one has. -/
structure Pending (quiet : Prop) (led : Bool) (pairs : List (WriteColumn × Strand)) : Prop where
  loads : ∀ pair ∈ pairs, Loads pair.1 pair.2
  pointed : quiet → ∀ pair ∈ pairs, pair.2.items ≠ [] → pair.1.first.isSome
  leads : ∀ pair, pairs.find? (fun pair => decide (0 < pair.2.items.length)) = some pair →
    pair.1.first.isSome
  led : led = true → ∃ pair ∈ pairs, 0 < pair.2.items.length

namespace Pending

theorem nil : Pending quiet false [] where
  loads _ member := absurd member List.not_mem_nil
  pointed _ _ member := absurd member List.not_mem_nil
  leads _ first := by cases first
  led first := by cases first

/-- An array joins those that wait. -/
theorem append {led : Bool} (pending : Pending quiet led pairs) {column : WriteColumn}
    {strand : Strand} (load : Loads column strand)
    (pointed : strand.items ≠ [] → column.first.isSome ∨ (led = true ∧ ¬ quiet)) :
    Pending quiet (led || !strand.items.isEmpty) (pairs ++ [(column, strand)]) where
  loads := List.forall_mem_append.mpr ⟨pending.loads, List.forall_mem_singleton.mpr load⟩
  pointed := by
    intro silent
    refine List.forall_mem_append.mpr ⟨pending.pointed silent, List.forall_mem_singleton.mpr ?_⟩
    intro nonempty
    rcases pointed nonempty with given | ⟨_, loud⟩
    · exact given
    · exact absurd silent loud
  leads := by
    intro pair first
    rw [List.find?_append] at first
    cases before : pairs.find? (fun pair => decide (0 < pair.2.items.length)) with
    | some leader =>
        rw [before, Option.some_or, Option.some.injEq] at first
        subst first
        exact pending.leads leader before
    | none =>
        rw [before, Option.none_or] at first
        have last := List.mem_singleton.mp (List.mem_of_find?_eq_some first)
        have filled := List.find?_some first
        subst last
        simp only [decide_eq_true_eq] at filled
        rcases pointed (List.ne_nil_of_length_pos filled) with given | ⟨led, _⟩
        · exact given
        · obtain ⟨earlier, member, filled⟩ := pending.led led
          rw [List.find?_eq_none] at before
          exact absurd (decide_eq_true filled) (before earlier member)
  led := by
    intro first
    rw [Bool.or_eq_true] at first
    rcases first with earlier | here
    · obtain ⟨pair, member, filled⟩ := pending.led earlier
      exact ⟨pair, List.mem_append_left _ member, filled⟩
    · refine ⟨(column, strand), List.mem_append_right _ List.mem_cons_self, ?_⟩
      rw [Bool.not_eq_true', List.isEmpty_eq_false_iff] at here
      exact List.length_pos_iff.mpr here

end Pending

/-- The arrays that wait for their chain are written. -/
theorem passage_chain {led : Bool} (pending : Pending quiet led pairs) {writer after : Writer}
    (found : Encode.chain (pairs.map Prod.fst) writer = .ok ((), after)) (waiting : OpenSlots)
    (due : List String) (held : List Slot) :
    Passage ⟨writer, waiting, due, pairs.filterMap (·.1.first) ++ held⟩
      ⟨after, waiting, due, held⟩ fun message headers left => left = headers ∧
        Chained quiet message (pairs.map (strandAt message)) writer.position after.position := by
  have stretch := stretch_chain pending.loads pending.pointed pending.leads found
    (waiting.slots.map Prod.snd ++ held)
  exact Passage.of_stretch (stretch.perm (List.perm_append_comm_assoc ..) (.refl _))

end

end Relay.Layout
