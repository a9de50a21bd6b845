import Relay.Proofs.Layout.Addressed
import Relay.Proofs.Layout.Clipped
import Relay.Proofs.Layout.Followed
import Relay.Proofs.Layout.Laid

/-! # The cursor behind a text

A text with a zero character is read to the end too early, and the cursor is adrift behind it: it
does not stand where the text was written to. A field that has an offset, and an element of an
array, is found all the same, and the cursor stands right again behind it. Whether every field of an
object is reached like that can be computed (`Relay.Layout.driftOfAll`), and without zero characters
it always is (`Relay.Layout.sheltered_of_plain`). -/

namespace Relay.Layout

open Relay.Stream Relay.Frame.Header

/-! ## Where the cursor is adrift -/

/-- Whether the cursor is adrift behind the arrays of a chain: as behind the last element. Where
something may be misread on the way there is no answer. -/
def driftOfChain (ends : List (List (Option Bool))) (adrift : Bool) : Option Bool :=
  (roundRobin (ends.map List.length)).foldlM
    (fun _ link => (ends[link.array]?.bind (·[link.place]?)).join) adrift

/-- Whether a field that may have an offset is found: the cursor is right, or an offset known. -/
def findable (known : List (HeaderKind × String)) (key : String) (adrift : Bool) : Bool :=
  !adrift || decide ((.offset, key) ∈ known)

mutual

/-- Whether the cursor is adrift behind an element of an array. -/
def driftOfElement (value : Value) : Field → Option Bool
  | .scalars .. => some false
  | .items _ fields _ => driftOfAll [] "" [] false value.object? fields
  | _ => none

/-- Whether the cursor is adrift behind a field that is no array. -/
def driftOf (known : List (HeaderKind × String)) (base : String) (adrift : Bool)
    (item : Option Value) : Field → Option Bool
  | .header .. | .scalar .. => if adrift then none else some false
  | .string name =>
    if findable known (dotted base name) adrift then some (decide ('\x00' ∈ (textIn item).toList))
    else none
  | .bytes name =>
    if (runIn item).size = 0 then some adrift
    else if findable known (dotted base name) adrift then some false
    else none
  | .object name fields =>
    driftOfAll known (dotted base name) [] adrift (item.bind Value.object?) fields
  | _ => none

/-- Whether the cursor is adrift behind the fields of a level, and the arrays that wait for their
chain. -/
def driftOfAll (known : List (HeaderKind × String)) (base : String)
    (waiting : List (List (Option Bool))) (adrift : Bool) (object : Option Object) :
    List Field → Option Bool
  | [] => driftOfChain waiting adrift
  | field :: rest =>
    if field.isArray then
      let ends := (itemsIn (under object field)).map (driftOfElement · field)
      if field.isMixed then driftOfAll known base (waiting ++ [ends]) adrift object rest
      else do
        let adrift ← driftOfChain waiting adrift
        let adrift ← driftOfChain [ends] adrift
        driftOfAll known base [] adrift object rest
    else do
      let adrift ← driftOfChain waiting adrift
      let adrift ← driftOf known base adrift (under object field) field
      driftOfAll (known ++ headersIn base field) base [] adrift object rest

end

/-- Whether no text of an object can make a layout misread another field. -/
def sheltered (layout : Layout) (object : Object) : Bool :=
  (driftOfAll [] "" [] false (some object) layout.fields).isSome

/-- Behind a chain of elements behind each of which the cursor is right it is right. -/
theorem driftOfChain_eq_right {ends : List (List (Option Bool))}
    (all : ∀ own ∈ ends, ∀ drift ∈ own, drift = some false) :
    driftOfChain ends false = some false := by
  have along : ∀ links : List Link, (∀ link ∈ links, link ∈ roundRobin (ends.map List.length)) →
      links.foldlM (fun _ link => (ends[link.array]?.bind (·[link.place]?)).join) false =
        some false := by
    intro links inside
    induction links with
    | nil => rfl
    | cons link rest ih =>
        obtain ⟨first, others⟩ := List.forall_mem_cons.mp inside
        obtain ⟨count, counted, within⟩ := mem_of_mem_roundRobin first
        rw [List.getElem?_map, Option.map_eq_some_iff] at counted
        obtain ⟨own, owner, rfl⟩ := counted
        have here := all own (List.mem_of_getElem? owner) _ (List.getElem_mem within)
        rw [List.foldlM_cons, owner, Option.bind_some, List.getElem?_eq_getElem within, here]
        exact ih others
  exact along _ fun _ member => member

mutual

/-- Behind a plain element the cursor is right. -/
theorem driftOfElement_of_plain : ∀ {field : Field} {value : Value}, field.isArray = true →
    Throughout IsPlain value → driftOfElement value field = some false
  | .scalars .., _, _, _ => rfl
  | .items _ fields _, value, _, plain => by
      rw [driftOfElement]
      have plain : ∀ given ∈ some value, Throughout IsPlain given := by
        rintro _ ⟨⟩
        exact plain
      exact driftOfAll_of_plain (throughout_object? plain) (by simp)
  | .header .., _, array, _ | .scalar .., _, array, _ | .string _, _, array, _
  | .bytes _, _, array, _ | .object .., _, array, _ => by cases array

/-- Behind a plain field the cursor is right if it was before. -/
theorem driftOf_of_plain : ∀ {field : Field} {known : List (HeaderKind × String)} {base : String}
    {item : Option Value}, field.isArray = false → (∀ value ∈ item, Throughout IsPlain value) →
    driftOf known base false item field = some false
  | .header .., _, _, _, _, _ | .scalar .., _, _, _, _, _ => rfl
  | .string _, _, _, _, _, plain => by
      rw [driftOf, decide_eq_false (plain_textIn plain)]
      rfl
  | .bytes _, _, _, _, _, _ => by
      rw [driftOf]
      exact ite_self _
  | .object _ fields, _, _, item, _, plain => by
      rw [driftOf]
      exact driftOfAll_of_plain (throughout_object? plain) (by simp)
  | .scalars .., _, _, _, single, _ | .items .., _, _, _, single, _ => by cases single

/-- **Without zero characters the cursor is never adrift.** -/
theorem driftOfAll_of_plain : ∀ {fields : List Field} {known : List (HeaderKind × String)}
    {base : String} {waiting : List (List (Option Bool))} {object : Option Object},
    (∀ inner ∈ object, FieldsThroughout IsPlain inner.fields) →
    (∀ own ∈ waiting, ∀ drift ∈ own, drift = some false) →
    driftOfAll known base waiting false object fields = some false
  | [], _, _, _, _, _, right => driftOfChain_eq_right right
  | field :: rest, known, base, waiting, object, plain, right => by
      rw [driftOfAll]
      have nothing : ∀ own ∈ ([] : List (List (Option Bool))), ∀ drift ∈ own, drift = some false :=
        by simp
      split
      next array =>
        have ends : ∀ drift ∈ (itemsIn (under object field)).map (driftOfElement · field),
            drift = some false := by
          rw [List.forall_mem_map]
          exact fun value member => driftOfElement_of_plain array
            (throughout_of_mem_itemsIn (throughout_under plain field) value member)
        split
        · exact driftOfAll_of_plain plain
            (List.forall_mem_append.mpr ⟨right, List.forall_mem_singleton.mpr ends⟩)
        · rw [driftOfChain_eq_right right, Option.bind_eq_bind, Option.bind_some,
            driftOfChain_eq_right (List.forall_mem_singleton.mpr ends)]
          exact driftOfAll_of_plain plain nothing
      next single =>
        have own : driftOf known base false (under object field) field = some false :=
          driftOf_of_plain (Bool.eq_false_iff.mpr single) (throughout_under plain field)
        rw [driftOfChain_eq_right right, Option.bind_eq_bind, Option.bind_some, own]
        exact driftOfAll_of_plain plain nothing

end

/-- An object without zero characters is sheltered in every layout. -/
theorem sheltered_of_plain {layout : Layout} {object : Object}
    (plain : FieldsThroughout IsPlain object.fields) : sheltered layout object = true := by
  have inner : ∀ inner ∈ some object, FieldsThroughout IsPlain inner.fields := by
    rintro _ ⟨⟩
    exact plain
  rw [sheltered, driftOfAll_of_plain inner (by simp)]
  rfl

/-! ## Fields behind a cursor that may be adrift -/

/-- Where a cursor stands that should be at a place behind the headers that were read: there, unless
it is adrift. Of some headers it is known that they were read. -/
structure Stands (headers : HeaderValues) (known : List (HeaderKind × String)) (adrift : Bool)
    (cursor place : Nat) : Prop where
  right : adrift = false → cursor = place
  behind : headers.finish ≤ place
  read : ∀ entry ∈ known, (headers.get? entry.1 entry.2).isSome

variable {message : Bytes} {base : String} {headers : HeaderValues}
  {known : List (HeaderKind × String)} {adrift after : Bool} {cursor place stop : Nat}

theorem Stands.four_le (stands : Stands headers known adrift cursor place) : 4 ≤ place :=
  four_le_of_finish_le stands.behind

/-- A field whose offset is known, or before which the cursor is right, is found where it is
written. -/
theorem sought_of_findable {key : String} (stands : Stands headers known adrift cursor place)
    (points : PointsAt headers key place) (findable : findable known key adrift = true) :
    Sought headers key cursor place := by
  unfold Sought
  rw [Relay.Layout.findable, Bool.or_eq_true, Bool.not_eq_true', decide_eq_true_eq] at findable
  cases given : headers.get? .offset key with
  | none =>
      rcases findable with still | member
      · exact (stands.right still).symm
      · have seen := stands.read _ member
        rw [given] at seen
        cases seen
  | some offset =>
      have here := points offset given
      exact ⟨here ▸ stands.behind, here.symm⟩

/-- Whether a field that is no array is read as it was written, but for its texts. -/
def FollowsField (message : Bytes) (base : String) (field : Field) : Prop :=
  ∀ (known : List (HeaderKind × String)) (headers left : HeaderValues) (object : Option Object)
    (adrift after : Bool) (cursor place stop : Nat), Stands headers known adrift cursor place →
    Laid writtenText False message base field headers place (ownOf object field) left stop →
    driftOf known base adrift (under object field) field = some after →
    place ≤ stop ∧ ∃ last,
      Followed message base field headers cursor (clippedFields (ownOf object field)) left last ∧
      Stands left (known ++ headersIn base field) after last stop

/-- Behind a field without headers the same headers are known. -/
theorem Stands.go_on {field : Field} {last : Nat}
    (stands : Stands headers known adrift cursor place) (bare : headersIn base field = [])
    (forth : place ≤ stop) (right : after = false → last = stop) :
    Stands headers (known ++ headersIn base field) after last stop where
  right := right
  behind := Nat.le_trans stands.behind forth
  read := by
    rw [bare, List.append_nil]
    exact stands.read

theorem followsField_header (kind : HeaderKind) (key : String) :
    FollowsField message base (.header kind key) := by
  intro known headers left object adrift after cursor place stop stands laid drift
  rw [Laid] at laid
  obtain ⟨inside, rfl, _, rfl⟩ := laid
  cases adrift with
  | true => cases drift
  | false =>
      cases drift
      obtain rfl := stands.right rfl
      have grown := finish_insert headers kind (dotted base key) (numberAt message cursor)
      have behind := stands.behind
      refine ⟨Nat.le_add_right .., _, ?_, fun _ => rfl, by omega, ?_⟩
      · rw [Followed]
        exact ⟨inside, rfl, rfl, rfl⟩
      · rw [headersIn]
        intro entry member
        rw [get?_insert]
        split
        · rfl
        · next differs =>
            rcases List.mem_append.mp member with old | new
            · exact stands.read entry old
            · exact absurd (List.mem_singleton.mp new) differs

theorem clipped_stored (type : Scalar) (item : Option Value) :
    clipped (type.stored item) = type.stored item := by
  cases type <;> rfl

theorem followsField_scalar (name : String) (type : Scalar) :
    FollowsField message base (.scalar name type) := by
  intro known headers left object adrift after cursor place stop stands laid drift
  rw [Laid] at laid
  obtain ⟨rfl, rfl, value, own, read⟩ := laid
  have spelled : ownOf object (.scalar name type) =
      [(name, type.stored (under object (.scalar name type)))] := by
    rw [← completed_scalar _ name]
    rfl
  rw [spelled] at own
  cases own
  cases adrift with
  | true => cases drift
  | false =>
      cases drift
      obtain rfl := stands.right rfl
      have forth : cursor ≤ cursor + type.width := Nat.le_add_right ..
      refine ⟨forth, _, ?_, stands.go_on rfl forth fun _ => rfl⟩
      rw [Followed, spelled, clippedFields, clipped_stored]
      exact ⟨rfl, _, rfl, fun path => (read path).of_quiet⟩

/-- A text is followed up to its first zero character. -/
theorem followsField_string (name : String) : FollowsField message base (.string name) := by
  intro known headers left object adrift after cursor place stop stands laid drift
  rw [Laid] at laid
  obtain ⟨rfl, points, forth, text, own, holds, rfl⟩ := laid
  have spelled : ownOf object (.string name) =
      [(name, .string (textIn (under object (.string name))))] := rfl
  rw [spelled] at own
  cases own
  rw [driftOf] at drift
  split at drift
  next findable =>
    cases drift
    have read := reads_clip holds
    refine ⟨forth, place + (textBytes (clip (textIn (under object (.string name))))).length, ?_,
      stands.go_on rfl forth fun plain => ?_⟩
    · rw [Followed]
      exact ⟨rfl, _, place, rfl, sought_of_findable stands points findable, read.of_quiet⟩
    · rw [clip_of_plain (of_decide_eq_false plain)]
  next => cases drift

theorem followsField_bytes (name : String) : FollowsField message base (.bytes name) := by
  intro known headers left object adrift after cursor place stop stands laid drift
  rw [Laid] at laid
  obtain ⟨rfl, run, own, count, points, rfl, read⟩ := laid
  have spelled : ownOf object (.bytes name) =
      [(name, .bytes (runIn (under object (.bytes name))))] := rfl
  rw [spelled] at own
  cases own
  rw [driftOf] at drift
  have forth : place ≤ place + (runIn (under object (.bytes name))).size := Nat.le_add_right ..
  split at drift
  next empty =>
    cases drift
    refine ⟨forth, cursor, ?_, stands.go_on rfl forth fun still => ?_⟩
    · rw [Followed, count, empty]
      refine ⟨rfl, _, cursor, rfl, rfl, (Yields.bytes 0).iff_reads.mp ⟨Nat.zero_le _, ?_, rfl⟩⟩
      rw [Array.eq_empty_of_size_eq_zero empty]
      exact (Array.extract_eq_empty_iff.mpr (Nat.min_le_left ..)).symm
    · rw [stands.right still, empty, Nat.add_zero]
  next filled =>
    split at drift
    next findable =>
      cases drift
      refine ⟨forth, _, ?_, stands.go_on rfl forth fun _ => rfl⟩
      have some := Nat.pos_of_ne_zero filled
      rw [Followed, count]
      refine ⟨rfl, _, place, rfl, ?_, read.of_quiet⟩
      rw [if_pos some]
      exact sought_of_findable stands (points some) findable
    next => cases drift

/-! ## Chains -/

/-- Whether an element of an array is read as it was written, but for its texts. -/
def FollowsElement (message : Bytes) (field : Field) : Prop :=
  ∀ (value : Value) (place stop : Nat) (after : Bool), 4 ≤ place →
    ElementLaid writtenText False field message (completedElement value field) place stop →
    driftOfElement value field = some after →
    place ≤ stop ∧ ∃ last,
      ElementFollowed field message (clipped (completedElement value field)) place last ∧
      (after = false → last = stop)

section

variable (headers : HeaderValues) (base : String) (entry : Field × List Value)

/-- An array with what was written as its elements, as it is laid out. -/
def strandLaid : Strand :=
  strandOf headers base entry.1.name (entry.2.map (completedElement · entry.1))
    (ElementLaid writtenText False entry.1)

/-- An array with what was written as its elements, as it is read. -/
def strandRead : Strand :=
  strandOf headers base entry.1.name (clippedItems (entry.2.map (completedElement · entry.1)))
    (ElementFollowed entry.1)

/-- Whether the cursor is adrift behind each element of an array. -/
def endsOf : List (Option Bool) :=
  entry.2.map (driftOfElement · entry.1)

end

variable {group : List (Field × List Value)} {adrift after : Bool}

/-- Elements that are laid out along a chain are visited along it. -/
theorem visits_of_linked {links : List Link}
    (each : ∀ entry ∈ group, FollowsElement message entry.1)
    (linked : Linked False message (group.map (strandLaid headers base)) links place stop)
    (drift : links.foldlM
      (fun _ link => ((group.map endsOf)[link.array]?.bind (·[link.place]?)).join) adrift =
        some after)
    (right : adrift = false → cursor = place) (behind : 4 ≤ place) :
    place ≤ stop ∧ ∃ visits,
      List.Forall₂ (Visited message (group.map (strandRead headers base))) links visits ∧
      (∀ visit ∈ visits, visit.place + 4 ≤ message.size ∧
        (numberAt message visit.place).toNat = visit.place) ∧
      Leads message (placesOf visits) ∧
      (placesOf visits).head? = (if links = [] then none else some place) ∧
      (after = false → visits.getLast?.elim cursor (·.stop) = stop) := by
  induction links generalizing place adrift cursor with
  | nil =>
      rw [Linked] at linked
      cases drift
      subst linked
      exact ⟨Nat.le_refl _, [], .nil, by simp, trivial, rfl, right⟩
  | cons link rest ih =>
      rw [Linked] at linked
      obtain ⟨strand, value, next, owner, item, _, room, self, onward, element, linked⟩ := linked
      rw [List.getElem?_map, Option.map_eq_some_iff] at owner
      obtain ⟨entry, present, rfl⟩ := owner
      have laidItem : (entry.2.map (completedElement · entry.1))[link.place]? = some value := item
      rw [List.getElem?_map, Option.map_eq_some_iff] at laidItem
      obtain ⟨raw, given, rfl⟩ := laidItem
      rw [List.foldlM_cons, List.getElem?_map, present, Option.map_some, Option.bind_some, endsOf,
        List.getElem?_map, given, Option.map_some, Option.join_some] at drift
      obtain ⟨between, here, drift⟩ := Option.bind_eq_some_iff.mp drift
      obtain ⟨forth, last, followed, still⟩ :=
        each entry (List.mem_of_getElem? present) raw _ next between (by omega) element here
      obtain ⟨further, visits, turns, places, leads, start, ends⟩ :=
        ih linked drift still (by omega)
      refine ⟨by omega, ⟨place, clipped (completedElement raw entry.1), last⟩ :: visits,
        .cons ⟨strandRead headers base entry, ?_, ?_, followed⟩ turns, ?_, ?_, ?_, ?_⟩
      · rw [List.getElem?_map, present]
        rfl
      · rw [strandRead, strandOf, clippedItems_eq_map, List.getElem?_map, List.getElem?_map, given]
        rfl
      · exact List.forall_mem_cons.mpr ⟨⟨room, self⟩, places⟩
      · have nonzero : place ≠ 0 := by omega
        refine leads_placesOf_cons.mpr ⟨nonzero, onward.trans ?_, leads⟩
        rw [List.headD_eq_head?_getD, start]
        split <;> rfl
      · rfl
      · intro plain
        rw [List.getLast?_cons, ← ends plain]
        cases visits.getLast? <;> rfl

/-- An array with elements has the offset that was read for it. -/
theorem strandLaid_offset {entry : Field × List Value} (filled : entry.2 ≠ []) :
    (strandLaid headers base entry).offset =
      headers.get? .offset (dotted base entry.1.name) := by
  simp [strandLaid, strandOf, filled]

theorem strandRead_offset {entry : Field × List Value} (filled : entry.2 ≠ []) :
    (strandRead headers base entry).offset =
      headers.get? .offset (dotted base entry.1.name) := by
  simp [strandRead, strandOf, clippedItems_eq_map, filled]

theorem length_strandLaid (entry : Field × List Value) :
    (strandLaid headers base entry).items.length = entry.2.length := by
  simp [strandLaid, strandOf]

theorem length_strandRead (entry : Field × List Value) :
    (strandRead headers base entry).items.length = entry.2.length := by
  simp [strandRead, strandOf, clippedItems_eq_map]

section

variable {strand : Field × List Value → Strand}

/-- However the arrays are told, they have as many elements as were written. -/
theorem lengths_of_strands (same : ∀ entry, (strand entry).items.length = entry.2.length) :
    (group.map strand).map (·.items.length) = group.map (·.2.length) := by
  rw [List.map_map]
  exact List.map_congr_left fun entry _ => same entry

/-- The first array with elements is the same, however the arrays are told. -/
theorem find?_of_strands (same : ∀ entry, (strand entry).items.length = entry.2.length) :
    (group.map strand).find? (fun strand => decide (0 < strand.items.length)) =
      (group.find? fun entry => decide (0 < entry.2.length)).map strand := by
  rw [List.find?_map]
  congr 2
  funext entry
  rw [Function.comp_apply, same]

end

theorem lengths_of_ends : (group.map endsOf).map List.length = group.map (·.2.length) := by
  simp [endsOf]

/-- Arrays one of which has elements have links. -/
theorem roundRobin_ne_nil_of_find? {entry : Field × List Value}
    (leading : group.find? (fun entry => decide (0 < entry.2.length)) = some entry) :
    entry.2 ≠ [] ∧ roundRobin (group.map (·.2.length)) ≠ [] := by
  have filled : 0 < entry.2.length := by simpa using List.find?_some leading
  have counted : entry.2.length ∈ group.map (·.2.length) :=
    List.mem_map.mpr ⟨entry, List.mem_of_find?_eq_some leading, rfl⟩
  exact ⟨List.ne_nil_of_length_pos filled, roundRobin_ne_nil counted filled⟩

/-- The first array that has elements says where the chain begins. -/
theorem offset_of_chained {entry : Field × List Value}
    (chained : Chained False message (group.map (strandLaid headers base)) place stop)
    (leading : group.find? (fun entry => decide (0 < entry.2.length)) = some entry) :
    ∃ offset, headers.get? .offset (dotted base entry.1.name) = some offset ∧
      offset.toNat = place := by
  obtain ⟨linked, given⟩ := chained
  obtain ⟨filled, some⟩ := roundRobin_ne_nil_of_find? leading
  rw [lengths_of_strands length_strandLaid] at linked
  obtain ⟨link, rest, links⟩ := List.exists_cons_of_ne_nil some
  obtain ⟨first, _, owner, leads⟩ := head?_roundRobin (by rw [links]; rfl)
  obtain rfl := Option.some.inj (leading.symm.trans leads)
  rw [links, Linked] at linked
  obtain ⟨strand, _, _, present, _, points, _⟩ := linked
  rw [List.getElem?_map, owner] at present
  obtain rfl := Option.some.inj present
  have isSome := given (strandLaid headers base entry) (by
    rw [find?_of_strands length_strandLaid, leading, Option.map_some])
  rw [strandLaid_offset filled] at isSome points
  obtain ⟨found, known⟩ := Option.isSome_iff_exists.mp isSome
  exact ⟨found, known, (points first).1 found known⟩

/-- **A chain leads to its elements from wherever the cursor is**, and behind them it stands as
behind the last one. -/
theorem threaded_of_chained (each : ∀ entry ∈ group, FollowsElement message entry.1)
    (stands : Stands headers known adrift cursor place)
    (chained : Chained False message (group.map (strandLaid headers base)) place stop)
    (drift : driftOfChain (group.map endsOf) adrift = some after) :
    place ≤ stop ∧ ∃ last, Threaded message (group.map (strandRead headers base)) cursor last ∧
      Stands headers known after last stop := by
  have linked := chained.1
  rw [lengths_of_strands length_strandLaid] at linked
  rw [driftOfChain, lengths_of_ends] at drift
  obtain ⟨forth, visits, turns, places, leads, start, ends⟩ :=
    visits_of_linked each linked drift stands.right stands.four_le
  refine ⟨forth, _, ⟨visits, exact_of_leads ?_ places leads ?_, rfl⟩, ends,
    Nat.le_trans stands.behind forth, stands.read⟩
  · intro strand leading
    rw [find?_of_strands length_strandRead, Option.map_eq_some_iff] at leading
    obtain ⟨entry, first, rfl⟩ := leading
    obtain ⟨filled, some⟩ := roundRobin_ne_nil_of_find? first
    obtain ⟨offset, given, here⟩ := offset_of_chained chained first
    rw [strandRead_offset filled, given, start, if_neg some, Option.map_some, here]
  · rw [lengths_of_strands length_strandRead]
    exact turns

end Relay.Layout
