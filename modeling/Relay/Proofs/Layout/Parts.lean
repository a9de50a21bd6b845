import Relay.Proofs.Layout.Drafted

/-! # The parts of a message

A message comes in parts, one behind the other: headers, runs, and elements with their links. What
the headers and links have to say follows from the parts behind them (`Relay.Layout.Parts.figures`),
as numbers of any size. A step of writing lays parts down if a message that tells the truth about
what is behind them tells it about them as well (`Relay.Layout.Lays`). -/

namespace Relay

/-- What a header of a kind says about a run with a count at a place. -/
def HeaderKind.figure (count place : Nat) : HeaderKind → Nat
  | .count => count
  | .offset => place

namespace Layout

open Relay.Stream Relay.Frame.Header Encode

/-- What stands one behind the other on a level of a message. A scalar takes so many bytes and no
more is said about it; a run behind its headers has a count besides. An array that is not empty is
announced by its count before the chain that its elements stand in. An element says where its array
begins if it is the first of it, whether the chain ends with it, and what it consists of. -/
inductive Parts where
  | done
  | header (kind : HeaderKind) (key : String) (rest : Parts)
  | plain (width : Nat) (rest : Parts)
  | run (key : String) (count width : Nat) (rest : Parts)
  | array (key : String) (count : Nat) (rest : Parts)
  | element (first : Option String) (last : Bool) (body rest : Parts)
  deriving Inhabited

namespace Parts

/-- Parts behind parts. -/
def append : Parts → Parts → Parts
  | done, others => others
  | header kind key rest, others => header kind key (rest.append others)
  | plain width rest, others => plain width (rest.append others)
  | run key count width rest, others => run key count width (rest.append others)
  | array key count rest, others => array key count (rest.append others)
  | element first last body rest, others => element first last body (rest.append others)

instance : Append Parts := ⟨append⟩

/-- How many bytes parts take. -/
def extent : Parts → Nat
  | done => 0
  | header _ _ rest => 2 + rest.extent
  | plain width rest => width + rest.extent
  | run _ _ width rest => width + rest.extent
  | array _ _ rest => rest.extent
  | element _ _ body rest => 4 + body.extent + rest.extent

/-- What a header says that parts from a place on are behind: the count or the offset of what has
its key, zero if there is no such thing before the next header of its kind and key. -/
def told (kind : HeaderKind) (key : String) (place : Nat) : Parts → Nat
  | done => 0
  | header other name rest =>
    if (other, name) = (kind, key) then 0 else rest.told kind key (place + 2)
  | plain width rest => rest.told kind key (place + width)
  | run name count width rest =>
    if name = key then kind.figure count place else rest.told kind key (place + width)
  | array name count rest =>
    if (.count, name) = (kind, key) then count else rest.told kind key place
  | element first _ body rest =>
    if kind = .offset ∧ first = some key then place
    else rest.told kind key (place + 4 + body.extent)

/-- The numbers of two bytes that parts from a place on hold about themselves, each with the place
that it stands at. The links of an element are its own place and that of the next, zero if it is
the last. -/
def figures (place : Nat) : Parts → List (Nat × Nat)
  | done => []
  | header kind key rest => (place, rest.told kind key (place + 2)) :: rest.figures (place + 2)
  | plain width rest => rest.figures (place + width)
  | run _ _ width rest => rest.figures (place + width)
  | array _ _ rest => rest.figures place
  | element _ last body rest =>
    (place, place) :: (place + 2, if last then 0 else place + 4 + body.extent) ::
      (body.figures (place + 4) ++ rest.figures (place + 4 + body.extent))

theorem append_assoc (parts others rest : Parts) :
    parts ++ others ++ rest = parts ++ (others ++ rest) := by
  change (parts.append others).append rest = parts.append (others.append rest)
  induction parts with
  | done => rfl
  | _ => simp only [append, *]

theorem append_done (parts : Parts) : parts ++ done = parts := by
  change parts.append done = parts
  induction parts with
  | done => rfl
  | _ => simp only [append, *]

/-- Parts take as many bytes as the first ones and the others. -/
theorem extent_append (parts others : Parts) :
    (parts ++ others).extent = parts.extent + others.extent := by
  change (parts.append others).extent = _
  induction parts with
  | done => exact (Nat.zero_add _).symm
  | _ => simp only [append, extent, *]; try omega

end Parts

/-- An array on its way into a message: its key, its items, and the parts that an item makes. -/
structure Batch where
  key : String
  items : List Value
  body : Value → Parts
  deriving Inhabited

/-- An array is announced if it has items. -/
def Batch.announced (batch : Batch) : Parts :=
  if batch.items = [] then .done else .array batch.key batch.items.length .done

/-- The elements that links lead to. -/
def partsAlong (batches : List Batch) : List Link → Parts
  | [] => .done
  | link :: rest =>
    .element (if link.place = 0 then some (batches.getD link.array default).key else none)
      rest.isEmpty
      ((batches.getD link.array default).body
        ((batches.getD link.array default).items.getD link.place default))
      (partsAlong batches rest)

/-- The chain of arrays. -/
def partsOfChain (batches : List Batch) : Parts :=
  partsAlong batches (roundRobin (batches.map (·.items.length)))

mutual

/-- The parts of a field that is no array, written with an item or with nothing. -/
def partsOf (base : String) (item : Option Value) : Field → Parts
  | .header kind key => .header kind (dotted base key) .done
  | .scalar _ type => .plain type.width .done
  | .string name =>
    .run (dotted base name) (Text.units (textIn item).toList).length
      (textBytes (textIn item)).length .done
  | .bytes name => .run (dotted base name) (runIn item).size (runIn item).size .done
  | .object name fields => partsOfAll (dotted base name) (item.bind Value.object?) [] fields
  | .scalars .. | .items .. => .done

/-- The parts of an item of an array. -/
def partsOfElement : Field → Value → Parts
  | .scalars _ type _, _ => .plain type.width .done
  | .items _ fields _, value => partsOfAll "" value.object? [] fields
  | _, _ => .done

/-- The parts of the fields of a level, behind the interleaved arrays that wait for their chain. -/
def partsOfAll (base : String) (object : Option Object) (waiting : List Batch) :
    List Field → Parts
  | [] => partsOfChain waiting
  | field :: rest =>
    let batch : Batch :=
      ⟨dotted base field.name, itemsIn (under object field), partsOfElement field⟩
    if field.isArray then
      if field.isMixed then batch.announced ++ partsOfAll base object (waiting ++ [batch]) rest
      else
        partsOfChain waiting ++ (batch.announced ++ (partsOfChain [batch] ++
          partsOfAll base object [] rest))
    else
      partsOfChain waiting ++ (partsOf base (under object field) field ++
        partsOfAll base object [] rest)

end

/-- Numbers of two bytes stand in a message at their places. -/
def Shown (message : Bytes) (figures : List (Nat × Nat)) : Prop :=
  ∀ figure ∈ figures, figure.1 + 2 ≤ message.size ∧ (numberAt message figure.1).toNat = figure.2

/-- The open headers of a message, by kind and key. -/
abbrev Entries := List ((HeaderKind × String) × Slot)

/-- What is open before parts, and what they hold about themselves, is as the parts tell. -/
structure Told (message : Bytes) (entries : Entries) (place : Nat) (parts : Parts) : Prop where
  awaited : ∀ entry ∈ entries,
    (numberAt message entry.2.position).toNat = parts.told entry.1.1 entry.1.2 place
  shown : Shown message (parts.figures place)

/-- Parts are written from one draft to another: where the message tells what is behind them, it
tells what is behind and in them. -/
def Lays (before : Writer) (entries : Entries) (parts : Parts) (after : Writer) (left : Entries) :
    Prop :=
  ∀ held, Stretch before (entries.map Prod.snd ++ held) after (left.map Prod.snd ++ held)
    fun message => after.position = before.position + parts.extent ∧
      ∀ rest, Told message left after.position rest →
        Told message entries before.position (parts ++ rest)

namespace Lays

variable {before middle after : Writer} {entries between left : Entries} {parts others : Parts}

/-- **Parts are written one behind the other.** -/
theorem trans (first : Lays before entries parts middle between)
    (second : Lays middle between others after left) :
    Lays before entries (parts ++ others) after left := by
  intro held
  refine ((first held).trans (second held)).imp ?_
  rintro message _ ⟨⟨begun, front⟩, ended, back⟩
  refine ⟨by rw [Parts.extent_append]; omega, fun rest told => ?_⟩
  rw [Parts.append_assoc]
  exact front _ (back rest told)

/-- What else is open stays so, if nothing in the parts is told to it. -/
theorem frame (lays : Lays before entries parts after left) {kept : Entries}
    (silent : ∀ entry ∈ kept, ∀ place rest, (parts ++ rest).told entry.1.1 entry.1.2 place =
      rest.told entry.1.1 entry.1.2 (place + parts.extent)) :
    Lays before (kept ++ entries) parts after (kept ++ left) := by
  intro held
  have reorder (some : Entries) : (some.map Prod.snd ++ (kept.map Prod.snd ++ held)).Perm
      ((kept ++ some).map Prod.snd ++ held) := by
    rw [List.map_append, List.append_assoc]
    exact List.perm_append_comm_assoc ..
  refine ((lays (kept.map Prod.snd ++ held)).perm (reorder entries) (reorder left)).imp ?_
  rintro message _ ⟨position, tells⟩
  refine ⟨position, fun rest told => ?_⟩
  obtain ⟨others, own⟩ := List.forall_mem_append.mp told.awaited
  have inner := tells rest ⟨own, told.shown⟩
  refine ⟨List.forall_mem_append.mpr ⟨fun entry member => ?_, inner.awaited⟩, inner.shown⟩
  rw [others entry member, silent entry member, position]

theorem refl (writer : Writer) (entries : Entries) : Lays writer entries .done writer entries :=
  fun _ => (Stretch.refl writer _).imp fun _ _ _ => ⟨rfl, fun _ told => told⟩

/-- At the end of a level no header is told of anything any more, and those that are open become
zero. -/
theorem close {waiting : OpenSlots} (lays : Lays before [] parts middle waiting.slots)
    (rest : resolveRest waiting middle = .ok ((), after)) (slots : List Slot) :
    Stretch before slots after slots fun message =>
      after.position = before.position + parts.extent ∧
        Shown message (parts.figures before.position) := by
  obtain ⟨still, stretch⟩ := stretch_resolveRest rest
  refine ((lays slots).trans (stretch slots)).imp ?_
  rintro message _ ⟨⟨position, tells⟩, zero⟩
  have nothing : Told message waiting.slots middle.position .done := by
    refine ⟨fun entry member => ?_, fun _ none => absurd none List.not_mem_nil⟩
    rw [zero entry member]
    rfl
  have told := tells .done nothing
  rw [Parts.append_done] at told
  exact ⟨still.trans position, told.shown⟩

end Lays

namespace OpenSlots

/-- No two open headers have the same kind and key. -/
def Distinct (waiting : OpenSlots) : Prop :=
  (waiting.slots.map Prod.fst).Nodup

variable {waiting : OpenSlots} {kind : HeaderKind} {key : String}

theorem sublist_take (waiting : OpenSlots) (kind : HeaderKind) (key : String) :
    (waiting.take kind key).2.slots.Sublist waiting.slots :=
  List.eraseP_sublist

theorem Distinct.take (distinct : waiting.Distinct) (kind : HeaderKind) (key : String) :
    (waiting.take kind key).2.Distinct :=
  ((waiting.sublist_take kind key).map Prod.fst).nodup distinct

/-- A header that is taken out is not open any more. -/
theorem Distinct.ne_of_mem_take (distinct : waiting.Distinct)
    {entry : (HeaderKind × String) × Slot} (member : entry ∈ (waiting.take kind key).2.slots) :
    entry.1 ≠ (kind, key) := by
  have left := List.mem_map_of_mem (f := Prod.fst) member
  rw [OpenSlots.take, map_fst_eraseP] at left
  exact (distinct.mem_erase_iff.mp left).1

/-- No header for a key is open when both were taken out. -/
theorem Distinct.key_ne_of_mem_take (distinct : waiting.Distinct)
    {entry : (HeaderKind × String) × Slot}
    (member : entry ∈ ((waiting.take .count key).2.take .offset key).2.slots) :
    entry.1.2 ≠ key := by
  have noOffset := (distinct.take .count key).ne_of_mem_take member
  have noCount := distinct.ne_of_mem_take
    (((waiting.take .count key).2.sublist_take .offset key).subset member)
  obtain ⟨⟨kind, name⟩, slot⟩ := entry
  rintro rfl
  cases kind with
  | count => exact noCount rfl
  | offset => exact noOffset rfl

/-- What holds of the header that is taken out and of those that are left holds of all. -/
theorem Distinct.forall_of_take (distinct : waiting.Distinct) (kind : HeaderKind) (key : String)
    {holds : (HeaderKind × String) × Slot → Prop}
    (taken : ∀ slot ∈ (waiting.take kind key).1, holds ((kind, key), slot))
    (left : ∀ entry ∈ (waiting.take kind key).2.slots, holds entry) :
    ∀ entry ∈ waiting.slots, holds entry := by
  intro entry member
  by_cases same : entry.1 = (kind, key)
  · obtain ⟨name, slot⟩ := entry
    simp only at same
    subst same
    exact taken slot (lookup_of_mem distinct member)
  · exact left entry (waiting.mem_take_of_ne kind key member same)

end OpenSlots

section

variable {writer after : Writer} {waiting left : OpenSlots}

/-- A header is reserved. One of the same kind and key that is still open becomes zero. -/
theorem lays_header {kind : HeaderKind} {key : String} (distinct : waiting.Distinct)
    (found : Encode.header kind key waiting writer = .ok (left, after)) :
    left.Distinct ∧ Lays writer waiting.slots (.header kind key .done) after left.slots := by
  obtain ⟨rfl, position, stretch⟩ := stretch_header found
  refine ⟨?_, fun held => (stretch held).imp ?_⟩
  · refine List.nodup_cons.mpr ⟨fun again => ?_, distinct.take kind key⟩
    obtain ⟨entry, member, same⟩ := List.mem_map.mp again
    exact distinct.ne_of_mem_take member same
  rintro message _ ⟨inside, zero⟩
  refine ⟨position, fun rest told => ?_⟩
  rw [position] at told
  refine ⟨distinct.forall_of_take kind key (fun slot taken => ?_) fun entry member => ?_, ?_⟩
  · rw [zero slot taken]
    exact (if_pos rfl).symm
  · have differs := (distinct.ne_of_mem_take member).symm
    refine (told.awaited entry (List.mem_cons_of_mem _ member)).trans ?_
    exact (if_neg differs).symm
  · refine List.forall_mem_cons.mpr ⟨⟨inside, ?_⟩, told.shown⟩
    exact told.awaited _ List.mem_cons_self

/-- Nothing is said about a scalar. -/
theorem lays_scalar {type : Scalar} {item : Option Value} {path : String}
    (found : Encode.scalar type item path writer = .ok ((), after)) (entries : Entries) :
    Lays writer entries (.plain type.width .done) after entries := by
  intro held
  refine (stretch_scalar found _).imp ?_
  rintro message _ ⟨position, _⟩
  refine ⟨position, fun rest told => ?_⟩
  rw [position] at told
  exact ⟨told.awaited, told.shown⟩

/-- A run is told to the headers with its key. -/
theorem lays_sendRun {key path : String} {length : Nat} {run : List UInt8}
    (distinct : waiting.Distinct)
    (found : sendRun key path waiting length run writer = .ok (left, after)) :
    left.Distinct ∧
      Lays writer waiting.slots (.run key length run.length .done) after left.slots := by
  obtain ⟨rfl, position, stretch⟩ := stretch_sendRun found
  have distinctLeft := distinct.take .count key
  refine ⟨distinctLeft.take .offset key, fun held => (stretch held).imp ?_⟩
  rintro message _ ⟨countKnown, offsetKnown, _⟩
  refine ⟨position, fun rest told => ?_⟩
  rw [position] at told
  refine ⟨?_, told.shown⟩
  refine distinct.forall_of_take .count key (fun slot taken => ?_)
    (distinctLeft.forall_of_take .offset key (fun slot taken => ?_) fun entry member => ?_)
  · exact (countKnown slot taken).trans (if_pos rfl).symm
  · exact (offsetKnown slot taken).trans (if_pos rfl).symm
  · have differs := (distinct.key_ne_of_mem_take member).symm
    exact (told.awaited entry member).trans (if_neg differs).symm

end

/-! ## Arrays and their chains -/

/-- The key of an array that has a first element. -/
def Batch.leader (batch : Batch) : Option String :=
  if batch.items = [] then none else some batch.key

/-- The open offset of an array whose elements are still to be written. -/
def offsetEntry (pair : WriteColumn × Batch) : Option ((HeaderKind × String) × Slot) :=
  pair.2.leader.bind fun key => pair.1.first.map fun slot => ((.offset, key), slot)

theorem map_snd_offset (key : String) (slot : Option Slot) :
    (slot.map fun slot => ((HeaderKind.offset, key), slot)).toList.map Prod.snd = slot.toList := by
  cases slot <;> rfl

/-- An array is prepared: its count is told, and its offset goes to the arrays that wait. -/
theorem lays_openColumn {writer after : Writer} {waiting left : OpenSlots} {key path : String}
    {element : String → Value → Encode Unit} {items : List Value} {column : WriteColumn}
    (distinct : waiting.Distinct) (body : Value → Parts)
    (found : openColumn key path waiting element items writer = .ok ((column, left), after)) :
    column = ⟨path, items.toArray,
        if items = [] then none else waiting.slots.lookup (.offset, key), element⟩ ∧
      left.Distinct ∧ left.slots.Sublist waiting.slots ∧
      (items ≠ [] → ∀ entry ∈ left.slots, entry.1.2 ≠ key) ∧
      Lays writer waiting.slots (Batch.announced ⟨key, items, body⟩) after
        ((offsetEntry (column, ⟨key, items, body⟩)).toList ++ left.slots) := by
  by_cases empty : items = []
  · subst empty
    unfold openColumn at found
    cases pure_eq_ok.mp found
    exact ⟨rfl, distinct, List.Sublist.refl _, fun some => absurd rfl some, .refl _ _⟩
  obtain ⟨rfl, rfl, still, stretch⟩ := stretch_openColumn empty found
  have distinctLeft := distinct.take .count key
  refine ⟨?_, distinctLeft.take .offset key, ?_, fun _ _ => distinct.key_ne_of_mem_take, ?_⟩
  · rw [if_neg empty, lookup_offset_take_count]
  · exact ((waiting.take .count key).2.sublist_take .offset key).trans
      (waiting.sublist_take .count key)
  have announced : Batch.announced ⟨key, items, body⟩ = .array key items.length .done :=
    if_neg empty
  have leader : Batch.leader ⟨key, items, body⟩ = some key := if_neg empty
  rw [announced, offsetEntry, leader, Option.bind_some]
  intro held
  rw [List.map_append, map_snd_offset, List.append_assoc]
  refine (stretch held).imp ?_
  intro message _ counts
  refine ⟨still, fun rest told => ?_⟩
  rw [still] at told
  refine ⟨?_, told.shown⟩
  refine distinct.forall_of_take .count key (fun slot taken => ?_)
    (distinctLeft.forall_of_take .offset key (fun slot taken => ?_) fun entry member => ?_)
  · exact (counts slot taken).trans (if_pos rfl).symm
  · refine (told.awaited ((.offset, key), slot) ?_).trans (if_neg (by simp)).symm
    apply List.mem_append_left
    rw [Option.mem_toList]
    exact Option.map_eq_some_iff.mpr ⟨slot, taken, rfl⟩
  · refine (told.awaited entry (List.mem_append_right _ member)).trans (if_neg ?_).symm
    intro same
    exact distinct.key_ne_of_mem_take member (congrArg Prod.snd same).symm

end Layout

end Relay
