import Relay.Proofs.Layout.Extent
import Relay.Proofs.Layout.Parts

/-! # The numbers that a message says about itself

Levels are written as their parts (`Relay.Layout.lays_encodeFields`), so in a message that was
written each length, count, offset and link stands in its place as the number that it is
(`Relay.Layout.encode_shown`): none was cut to the two bytes that there are for it. Together with
the length that can be told beforehand this settles which objects are written and as what
(`Relay.Layout.encode_size`). -/

namespace Relay.Layout

open Relay.Stream Relay.Frame.Header Encode

/-- An array by how its elements stand in a message, which says of each where it ends. -/
def Batch.strand (batch : Batch) : Strand :=
  ⟨batch.key, none, batch.items, fun message value place stop =>
    stop = place + (batch.body value).extent ∧ Shown message ((batch.body value).figures place)⟩

section

variable {pairs : List (WriteColumn × Batch)} {message : Bytes}

/-- The arrays of a chain with their strands. -/
def stranded (pairs : List (WriteColumn × Batch)) : List (WriteColumn × Strand) :=
  pairs.map fun pair => (pair.1, pair.2.strand)

/-- The keys of the arrays that have their first element along links. -/
def leadersAlong (pairs : List (WriteColumn × Batch)) (links : List Link) : List String :=
  links.filterMap fun link =>
    if link.place = 0 then pairs[link.array]?.bind (·.2.leader) else none

/-- The offsets that are filled in along links. -/
def entriesAlong (pairs : List (WriteColumn × Batch)) (links : List Link) : Entries :=
  links.filterMap fun link =>
    if link.place = 0 then pairs[link.array]?.bind offsetEntry else none

/-- An offset that is filled in along links is one of a leader. -/
theorem leader_of_mem_entriesAlong {links : List Link} {entry : (HeaderKind × String) × Slot}
    (member : entry ∈ entriesAlong pairs links) :
    ∃ key ∈ leadersAlong pairs links, entry.1 = (.offset, key) := by
  obtain ⟨link, listed, found⟩ := List.mem_filterMap.mp member
  by_cases first : link.place = 0
  · rw [if_pos first] at found
    obtain ⟨pair, present, found⟩ := Option.bind_eq_some_iff.mp found
    obtain ⟨key, leads, found⟩ := Option.bind_eq_some_iff.mp found
    obtain ⟨slot, _, rfl⟩ := Option.map_eq_some_iff.mp found
    refine ⟨key, List.mem_filterMap.mpr ⟨link, listed, ?_⟩, rfl⟩
    rw [if_pos first, present]
    exact leads
  · rw [if_neg first] at found
    cases found

section

variable {pair : WriteColumn × Batch} {link : Link}

/-- Along links an array leads where its first element stands. -/
theorem leadersAlong_cons (later : List Link) (present : pairs[link.array]? = some pair)
    (filled : pair.2.items ≠ []) :
    leadersAlong pairs (link :: later) =
      (if link.place = 0 then some pair.2.key else none).toList ++ leadersAlong pairs later := by
  rw [leadersAlong, List.filterMap_cons, present, Option.bind_some, Batch.leader, if_neg filled]
  cases (if link.place = 0 then some pair.2.key else none) <;> rfl

/-- Along links an offset is filled in where the first element of its array stands. -/
theorem entriesAlong_cons (later : List Link) (present : pairs[link.array]? = some pair) :
    entriesAlong pairs (link :: later) =
      (if link.place = 0 then offsetEntry pair else none).toList ++ entriesAlong pairs later := by
  rw [entriesAlong, List.filterMap_cons, present, Option.bind_some]
  cases (if link.place = 0 then offsetEntry pair else none) <;> rfl

end

/-- The array that begins at a link is none of those that begin later or elsewhere. -/
theorem ne_leader {first : Option String} {key : String} {later : List Link} {others : Entries}
    (distinct : (first.toList ++ leadersAlong pairs later).Nodup)
    (apart : ∀ key ∈ first.toList ++ leadersAlong pairs later, ∀ entry ∈ others,
      entry.1 ≠ (.offset, key))
    (begins : first = some key) {entry : (HeaderKind × String) × Slot}
    (member : entry ∈ entriesAlong pairs later ++ others) : entry.1 ≠ (.offset, key) := by
  have leads : key ∈ first.toList := Option.mem_toList.mpr begins
  rcases List.mem_append.mp member with along | other
  · obtain ⟨owner, listed, known⟩ := leader_of_mem_entriesAlong along
    intro same
    rw [same, Prod.mk.injEq] at known
    exact (List.nodup_append.mp distinct).2.2 _ leads _ listed known.2
  · exact apart key (List.mem_append_left _ leads) entry other

/-- **Links tell where their arrays begin and where the next element is**, if no two of the arrays
that begin along them have the same key. -/
theorem told_of_linked {links : List Link} {others : Entries} {place stop : Nat}
    (distinct : (leadersAlong pairs links).Nodup)
    (apart : ∀ key ∈ leadersAlong pairs links, ∀ entry ∈ others, entry.1 ≠ (.offset, key))
    (linked : Linked False message ((stranded pairs).map (strandAt message)) links place stop) :
    stop = place + (partsAlong (pairs.map Prod.snd) links).extent ∧
      ∀ rest, Told message others stop rest →
        Told message (entriesAlong pairs links ++ others) place
          (partsAlong (pairs.map Prod.snd) links ++ rest) := by
  induction links generalizing place with
  | nil => exact ⟨linked.symm, fun rest told => linked ▸ told⟩
  | cons link later ih =>
      obtain ⟨strand, value, next, owner, item, toFirst, room, self, forward, element, linked⟩ :=
        linked
      rw [stranded, List.map_map, List.getElem?_map, Option.map_eq_some_iff] at owner
      obtain ⟨pair, present, rfl⟩ := owner
      obtain ⟨ended, inner⟩ := element
      have batch : (pairs.map Prod.snd).getD link.array default = pair.2 := by
        rw [List.getD_eq_getElem?_getD, List.getElem?_map, present, Option.map_some,
          Option.getD_some]
      have given : pair.2.items[link.place]? = some value := item
      have value' : pair.2.items.getD link.place default = value := by
        rw [List.getD_eq_getElem?_getD, given, Option.getD_some]
      have filled : pair.2.items ≠ [] := List.ne_nil_of_mem (List.mem_of_getElem? given)
      rw [leadersAlong_cons later present filled] at distinct apart
      have distinctLater := (List.nodup_append.mp distinct).2.1
      obtain ⟨stops, tells⟩ :=
        ih distinctLater (fun key member => apart key (List.mem_append_right _ member)) linked
      rw [partsAlong, batch, value']
      refine ⟨by rw [Parts.extent]; omega, fun rest told => ?_⟩
      have behind := tells rest told
      rw [ended] at behind forward
      constructor
      · intro entry member
        rw [entriesAlong_cons later present, List.append_assoc] at member
        rcases List.mem_append.mp member with here | further
        · by_cases first : link.place = 0
          · rw [if_pos first, Option.mem_toList] at here
            obtain ⟨key, leads, found⟩ := Option.bind_eq_some_iff.mp here
            obtain ⟨slot, waits, rfl⟩ := Option.map_eq_some_iff.mp found
            rw [Batch.leader, if_neg filled] at leads
            have offset : (numberAt message slot.position).toNat = place :=
              (toFirst first).1 _ (Option.map_eq_some_iff.mpr ⟨slot, waits, rfl⟩)
            exact offset.trans (if_pos ⟨rfl, (if_pos first).trans leads⟩).symm
          · rw [if_neg first] at here
            cases here
        · refine (behind.awaited entry further).trans (if_neg ?_).symm
          rintro ⟨offset, begins⟩
          exact ne_leader distinct apart begins further (Prod.ext offset rfl)
      · refine List.forall_mem_cons.mpr ⟨⟨by omega, self⟩, List.forall_mem_cons.mpr
          ⟨⟨by omega, ?_⟩, List.forall_mem_append.mpr ⟨inner, behind.shown⟩⟩⟩
        rw [forward]
        cases later <;> rfl

/-- In rounds every array that has elements leads once. -/
theorem leadersAlong_roundRobin (pairs : List (WriteColumn × Batch)) :
    leadersAlong pairs (roundRobin (pairs.map (·.2.items.length))) =
      pairs.filterMap (·.2.leader) := by
  refine filterMap_roundRobin fun pair _ empty => ?_
  exact if_pos (List.length_eq_zero_iff.mp empty)

/-- In rounds the offset of every array that has elements is filled in once. -/
theorem entriesAlong_roundRobin (pairs : List (WriteColumn × Batch)) :
    entriesAlong pairs (roundRobin (pairs.map (·.2.items.length))) =
      pairs.filterMap offsetEntry := by
  refine filterMap_roundRobin fun pair _ empty => ?_
  have silent : pair.2.leader = none := if_pos (List.length_eq_zero_iff.mp empty)
  rw [offsetEntry, silent]
  rfl

/-- The links of a chain lead to elements of its arrays. -/
theorem stranded_of_mem_roundRobin {link : Link}
    (member : link ∈ roundRobin (pairs.map (·.2.items.length))) :
    ∃ pair, (stranded pairs)[link.array]? = some pair ∧ link.place < pair.2.items.length := by
  obtain ⟨count, counted, small⟩ := mem_of_mem_roundRobin member
  rw [List.getElem?_map, Option.map_eq_some_iff] at counted
  obtain ⟨pair, present, rfl⟩ := counted
  refine ⟨(pair.1, pair.2.strand), ?_, small⟩
  rw [stranded, List.getElem?_map, present, Option.map_some]

/-- The keys of leaders are among those of all arrays, in order. -/
theorem sublist_leaders (pairs : List (WriteColumn × Batch)) :
    (pairs.filterMap (·.2.leader)).Sublist (pairs.map (·.2.key)) := by
  induction pairs with
  | nil => exact .refl _
  | cons pair rest ih =>
      by_cases empty : pair.2.items = []
      · have silent : pair.2.leader = none := if_pos empty
        rw [List.filterMap_cons, silent]
        exact ih.cons _
      · have leads : pair.2.leader = some pair.2.key := if_neg empty
        rw [List.filterMap_cons, leads]
        exact ih.cons_cons _

/-- The slot of an offset is the first one of its array. -/
theorem snd_offsetEntry {pair : WriteColumn × Batch} (load : Loads pair.1 pair.2.strand) :
    (offsetEntry pair).map Prod.snd = pair.1.first := by
  by_cases empty : pair.2.items = []
  · have silent : pair.2.leader = none := if_pos empty
    rw [offsetEntry, silent, load.empty empty]
    rfl
  · have leads : pair.2.leader = some pair.2.key := if_neg empty
    rw [offsetEntry, leads, Option.bind_some, Option.map_map]
    exact Option.map_id'

/-- The offsets that are filled in are the open ones, with their kinds and keys. -/
theorem offsetsAlong_stranded (loads : ∀ pair ∈ pairs, Loads pair.1 pair.2.strand)
    (links : List Link) :
    offsetsAlong (stranded pairs) links = (entriesAlong pairs links).map Prod.snd := by
  rw [offsetsAlong, entriesAlong, List.map_filterMap]
  refine congrArg (links.filterMap ·) (funext fun link => ?_)
  by_cases first : link.place = 0
  · rw [if_pos first, if_pos first, stranded, List.getElem?_map]
    cases present : pairs[link.array]? with
    | none => rfl
    | some pair => exact (snd_offsetEntry (loads pair (List.mem_of_getElem? present))).symm
  · rw [if_neg first, if_neg first]
    rfl

/-- The arrays that wait for their chain, among open headers and keys that are still due. -/
structure Queued (pairs : List (WriteColumn × Batch)) (waiting : OpenSlots) (due : List String) :
    Prop where
  loads : ∀ pair ∈ pairs, Loads pair.1 pair.2.strand
  distinct : waiting.Distinct
  keys : (pairs.map (·.2.key) ++ due).Nodup
  gone : ∀ pair ∈ pairs, ∀ key ∈ pair.2.leader, ∀ entry ∈ waiting.slots, entry.1 ≠ (.offset, key)

theorem Queued.nil {waiting : OpenSlots} {due : List String} (distinct : waiting.Distinct)
    (keys : due.Nodup) : Queued [] waiting due where
  loads _ none := absurd none List.not_mem_nil
  distinct := distinct
  keys := keys
  gone _ none := absurd none List.not_mem_nil

namespace Queued

variable {waiting : OpenSlots} {due : List String}

/-- Every array that waits is loaded with its strand. -/
theorem loads_stranded (queued : Queued pairs waiting due) :
    ∀ pair ∈ stranded pairs, Loads pair.1 pair.2 := by
  intro pair member
  obtain ⟨own, listed, rfl⟩ := List.mem_map.mp member
  exact queued.loads own listed

/-- Arrays that wait have as many elements as their batches. -/
theorem sizes (queued : Queued pairs waiting due) :
    (pairs.map Prod.fst).map (·.items.size) = pairs.map (·.2.items.length) := by
  rw [List.map_map]
  exact List.map_congr_left fun pair member => (queued.loads pair member).size

theorem nodup_leaders (queued : Queued pairs waiting due) :
    (pairs.filterMap (·.2.leader)).Nodup :=
  (sublist_leaders pairs).nodup (List.nodup_append.mp queued.keys).1

/-- The offsets of leaders are not among the open headers. -/
theorem leaders_apart (queued : Queued pairs waiting due) :
    ∀ key ∈ pairs.filterMap (·.2.leader), ∀ entry ∈ waiting.slots, entry.1 ≠ (.offset, key) := by
  intro key member
  obtain ⟨pair, listed, leads⟩ := List.mem_filterMap.mp member
  exact queued.gone pair listed key leads

end Queued

/-- **A chain is written**, and every header of its arrays is told where they begin. -/
theorem lays_chain {writer after : Writer} {waiting : OpenSlots} {due : List String}
    (queued : Queued pairs waiting due)
    (found : Encode.chain (pairs.map Prod.fst) writer = .ok ((), after)) :
    Lays writer (pairs.filterMap offsetEntry ++ waiting.slots)
      (partsOfChain (pairs.map Prod.snd)) after waiting.slots := by
  have columns : (stranded pairs).map Prod.fst = pairs.map Prod.fst := by
    rw [stranded, List.map_map]
    rfl
  rw [Encode.chain, queued.sizes, ← columns] at found
  have pointed : False → ∀ pair ∈ stranded pairs, pair.2.items ≠ [] → pair.1.first.isSome :=
    fun impossible => impossible.elim
  intro held
  have drafted := stretch_writeLinks queued.loads_stranded pointed
    (fun _ member => stranded_of_mem_roundRobin member) found (waiting.slots.map Prod.snd ++ held)
  rw [offsetsAlong_stranded queued.loads, entriesAlong_roundRobin] at drafted
  rw [List.map_append, List.append_assoc]
  refine drafted.imp ?_
  rintro message _ ⟨_, linked⟩
  have leaders := leadersAlong_roundRobin pairs
  have told := told_of_linked (leaders ▸ queued.nodup_leaders) (leaders ▸ queued.leaders_apart)
    linked
  rw [entriesAlong_roundRobin] at told
  rw [partsOfChain, List.map_map]
  exact told

end

/-! ## Levels -/

/-- The array that a field is. -/
def batchOf (base : String) (object : Option Object) (field : Field) : Batch :=
  ⟨dotted base field.name, itemsIn (under object field), partsOfElement field⟩

/-- Whether an item tells the truth about itself as an element of an array. -/
def LaysElement (field : Field) (item : Value) : Prop :=
  ∀ path writer after slots, writeElement field path item writer = .ok ((), after) →
    Stretch writer slots after slots fun message =>
      after.position = writer.position + (partsOfElement field item).extent ∧
        Shown message ((partsOfElement field item).figures writer.position)

/-- Whether a field that is no array is written as its parts. -/
def LaysField (base path : String) (object : Option Object) (field : Field) : Prop :=
  ∀ waiting left writer after, waiting.Distinct →
    encodeField base path object waiting field writer = .ok (left, after) →
    left.Distinct ∧
      Lays writer waiting.slots (partsOf base (under object field) field) after left.slots

/-- Whether a level is written as its parts, behind the arrays that wait for their chain. -/
def LaysLevel (base path : String) (object : Option Object) (fields : List Field) : Prop :=
  ∀ pairs waiting left writer after, Queued pairs waiting (targets base fields) →
    encodeFields base path object waiting (pairs.map Prod.fst) fields writer = .ok (left, after) →
    left.Distinct ∧ Lays writer (pairs.filterMap offsetEntry ++ waiting.slots)
      (partsOfAll base object (pairs.map Prod.snd) fields) after left.slots

/-- One more array adds its offset to the others. -/
theorem filterMap_offsetEntry_append (pairs : List (WriteColumn × Batch))
    (pair : WriteColumn × Batch) : (pairs ++ [pair]).filterMap offsetEntry =
      pairs.filterMap offsetEntry ++ (offsetEntry pair).toList := by
  rw [List.filterMap_append, List.filterMap_cons, List.filterMap_nil]
  cases offsetEntry pair <;> rfl

/-- What an array announces takes its place, and tells no offset. -/
theorem told_announced (batch : Batch) (key : String) (place : Nat) (rest : Parts) :
    (batch.announced ++ rest).told .offset key place =
      rest.told .offset key (place + batch.announced.extent) := by
  by_cases empty : batch.items = []
  · have nothing : batch.announced = .done := if_pos empty
    rw [nothing]
    rfl
  · have announced : batch.announced = .array batch.key batch.items.length .done := if_neg empty
    rw [announced]
    exact if_neg (by simp)

section

variable {base path : String} {object : Option Object} {field : Field} {rest : List Field}
  {pairs : List (WriteColumn × Batch)} {writer after : Writer} {waiting left : OpenSlots}
  {due : List String}

/-- An array is prepared and joins those that wait. -/
theorem lays_column {column : WriteColumn}
    (queued : Queued pairs waiting (dotted base field.name :: due))
    (found : Encode.column base path field.name object waiting (writeElement field) writer =
      .ok ((column, left), after))
    (element : ∀ item ∈ itemsIn (under object field), LaysElement field item) :
    Queued (pairs ++ [(column, batchOf base object field)]) left due ∧
      Lays writer (pairs.filterMap offsetEntry ++ waiting.slots)
        (batchOf base object field).announced after
        ((pairs ++ [(column, batchOf base object field)]).filterMap offsetEntry ++ left.slots) := by
  obtain ⟨same, distinct, fewer, gone, lays⟩ :=
    lays_openColumn queued.distinct (partsOfElement field) (column_eq_ok found)
  refine ⟨⟨?_, distinct, ?_, ?_⟩, ?_⟩
  · subst same
    refine List.forall_mem_append.mpr ⟨queued.loads, List.forall_mem_singleton.mpr ⟨rfl, ?_, ?_⟩⟩
    · intro empty
      exact if_pos empty
    · intro place item value given stands path writer after slots wrote
      have same : (itemsIn (under object field))[place]? = some item :=
        (List.getElem?_toArray ..).symm.trans given
      obtain rfl := Option.some.inj (same.symm.trans stands)
      exact element item (List.mem_of_getElem? same) path writer after slots wrote
  · have keys := queued.keys
    rw [List.map_append, List.append_assoc]
    exact keys
  · refine List.forall_mem_append.mpr ⟨fun pair member key leads entry listed => ?_,
      List.forall_mem_singleton.mpr fun key leads entry listed => ?_⟩
    · exact queued.gone pair member key leads entry (fewer.subset listed)
    · by_cases empty : itemsIn (under object field) = []
      · have silent : (batchOf base object field).leader = none := if_pos empty
        rw [silent] at leads
        cases leads
      · have own : (batchOf base object field).leader = some (dotted base field.name) :=
          if_neg empty
        rw [own] at leads
        cases leads
        intro same
        exact gone empty entry listed (congrArg Prod.snd same)
  · have framed := lays.frame fun entry (member : entry ∈ pairs.filterMap offsetEntry) place
        rest => by
      obtain ⟨pair, _, found⟩ := List.mem_filterMap.mp member
      obtain ⟨key, _, found⟩ := Option.bind_eq_some_iff.mp found
      obtain ⟨slot, _, rfl⟩ := Option.map_eq_some_iff.mp found
      exact told_announced _ key place rest
    rw [filterMap_offsetEntry_append, List.append_assoc]
    exact framed

/-- An array that may share its chain is announced, and waits with the others. -/
theorem partsOfAll_mixed (waiting : List Batch) (mixed : field.isMixed = true) :
    partsOfAll base object waiting (field :: rest) = (batchOf base object field).announced ++
      partsOfAll base object (waiting ++ [batchOf base object field]) rest := by
  have array := Field.isArray_of_isMixed mixed
  rw [partsOfAll]
  simp only [if_pos array, if_pos mixed]
  rfl

/-- An array with a chain of its own comes behind the chain of those that wait. -/
theorem partsOfAll_apart (waiting : List Batch) (array : field.isArray = true)
    (apart : field.isMixed = false) :
    partsOfAll base object waiting (field :: rest) = partsOfChain waiting ++
      ((batchOf base object field).announced ++ (partsOfChain [batchOf base object field] ++
        partsOfAll base object [] rest)) := by
  rw [partsOfAll]
  simp only [if_pos array, apart, Bool.false_eq_true, ↓reduceIte]
  rfl

/-- A field that is no array comes behind the chain of those that wait. -/
theorem partsOfAll_single (waiting : List Batch) (single : field.isArray = false) :
    partsOfAll base object waiting (field :: rest) = partsOfChain waiting ++
      (partsOf base (under object field) field ++ partsOfAll base object [] rest) := by
  rw [partsOfAll]
  simp only [single, Bool.false_eq_true, ↓reduceIte]

theorem laysLevel_nil : LaysLevel base path object [] := by
  intro pairs waiting left writer after queued found
  rw [encodeFields] at found
  obtain ⟨_, middle, wrote, found⟩ := bind_eq_ok.mp found
  cases pure_eq_ok.mp found
  rw [partsOfAll]
  exact ⟨queued.distinct, lays_chain queued wrote⟩

/-- An array that may share its chain joins those that wait. -/
theorem laysLevel_mixed (mixed : field.isMixed = true)
    (element : ∀ item ∈ itemsIn (under object field), LaysElement field item)
    (further : LaysLevel base path object rest) : LaysLevel base path object (field :: rest) := by
  intro pairs waiting left writer after queued found
  rw [targets, targetsOf_array (Field.isArray_of_isMixed mixed)] at queued
  rw [encodeFields_mixed mixed] at found
  obtain ⟨⟨column, between⟩, middle, prepared, found⟩ := bind_eq_ok.mp found
  obtain ⟨joined, announced⟩ := lays_column queued prepared element
  obtain ⟨distinct, level⟩ := further (pairs ++ [(column, batchOf base object field)]) between left
    middle after joined (by
      rw [List.map_append]
      exact found)
  rw [List.map_append] at level
  rw [partsOfAll_mixed _ mixed]
  exact ⟨distinct, announced.trans level⟩

/-- An array that shares no chain is written behind those that wait. -/
theorem laysLevel_apart (array : field.isArray = true) (apart : field.isMixed = false)
    (element : ∀ item ∈ itemsIn (under object field), LaysElement field item)
    (further : LaysLevel base path object rest) : LaysLevel base path object (field :: rest) := by
  intro pairs waiting left writer after queued found
  rw [targets, targetsOf_array array] at queued
  rw [encodeFields_plain apart, encodeField_array array] at found
  obtain ⟨_, chained, chain, found⟩ := bind_eq_ok.mp found
  obtain ⟨_, middle, wrote, found⟩ := bind_eq_ok.mp found
  obtain ⟨⟨column, between⟩, begun, prepared, wrote⟩ := bind_eq_ok.mp wrote
  obtain ⟨_, _, single, wrote⟩ := bind_eq_ok.mp wrote
  cases pure_eq_ok.mp wrote
  have due := (List.nodup_append.mp queued.keys).2.1
  obtain ⟨joined, announced⟩ := lays_column (Queued.nil queued.distinct due) prepared element
  obtain ⟨distinct, level⟩ := further [] between left middle after
    (.nil joined.distinct (List.nodup_cons.mp due).2) found
  rw [partsOfAll_apart _ array apart]
  exact ⟨distinct, (lays_chain queued chain).trans (announced.trans
    ((lays_chain joined single).trans level))⟩

/-- A field that is no array is written behind the arrays that wait. -/
theorem laysLevel_single (single : field.isArray = false)
    (own : LaysField base path object field) (further : LaysLevel base path object rest) :
    LaysLevel base path object (field :: rest) := by
  intro pairs waiting left writer after queued found
  rw [encodeFields_plain (Field.isMixed_of_isArray single)] at found
  obtain ⟨_, chained, chain, found⟩ := bind_eq_ok.mp found
  obtain ⟨between, middle, wrote, found⟩ := bind_eq_ok.mp found
  obtain ⟨distinctBetween, parts⟩ := own waiting between chained middle queued.distinct wrote
  have due := (List.nodup_append.mp queued.keys).2.1
  rw [targets] at due
  obtain ⟨distinct, level⟩ := further [] between left middle after
    (.nil distinctBetween (List.nodup_append.mp due).2.1) found
  rw [partsOfAll_single _ single]
  exact ⟨distinct, (lays_chain queued chain).trans (parts.trans level)⟩

end

mutual

/-- **Every element tells the truth about itself.** -/
theorem lays_writeElement : ∀ {field : Field}, field.isArray = true → WellNamedBelow field →
    ∀ item, LaysElement field item
  | .scalars _ type _, _, _ => by
      intro item path writer after slots wrote
      refine (stretch_scalar wrote slots).imp ?_
      rintro message _ ⟨position, _⟩
      exact ⟨position, fun _ none => absurd none List.not_mem_nil⟩
  | .items _ fields _, _, named => by
      intro item path writer after slots wrote
      cases item with
      | object values =>
          rw [WellNamedBelow] at named
          obtain ⟨left, middle, wrote, rest⟩ := bind_eq_ok.mp wrote
          have queued : Queued [] ⟨[]⟩ (targets "" fields) := .nil .nil (nodup_targets named)
          obtain ⟨_, level⟩ := lays_encodeFields named "" path (some ⟨values⟩) [] ⟨[]⟩ left writer
            middle queued wrote
          exact level.close rest slots
      | _ => exact absurd wrote throw_ne_ok
  | .header .., array, _ | .scalar .., array, _ | .string _, array, _ | .bytes _, array, _
  | .object .., array, _ => by cases array

/-- **Every field that is no array is written as its parts.** -/
theorem lays_encodeField : ∀ {field : Field}, field.isArray = false → WellNamedBelow field →
    ∀ (base path : String) (object : Option Object), LaysField base path object field
  | .header kind key, _, _ => by
      intro base path object waiting left writer after distinct found
      rw [encodeField] at found
      rw [partsOf]
      exact lays_header distinct found
  | .scalar name type, _, _ => by
      intro base path object waiting left writer after distinct found
      rw [encodeField] at found
      obtain ⟨_, middle, wrote, found⟩ := bind_eq_ok.mp found
      cases pure_eq_ok.mp found
      rw [partsOf]
      exact ⟨distinct, lays_scalar wrote waiting.slots⟩
  | .string name, _, _ => by
      intro base path object waiting left writer after distinct found
      rw [encodeField] at found
      rw [partsOf]
      exact lays_sendRun distinct (string_eq_ok found)
  | .bytes name, _, _ => by
      intro base path object waiting left writer after distinct found
      rw [encodeField] at found
      rw [partsOf]
      have run := lays_sendRun distinct (bytes_eq_ok found)
      rw [Array.length_toList] at run
      exact run
  | .object name fields, _, named => by
      intro base path object waiting left writer after distinct found
      rw [WellNamedBelow] at named
      rw [encodeField] at found
      obtain ⟨inside, _, looked, found⟩ := bind_eq_ok.mp found
      cases inner_eq_ok looked
      rw [partsOf]
      exact lays_encodeFields named _ _ _ [] waiting left writer after
        (.nil distinct (nodup_targets named)) found
  | .scalars .., array, _ | .items .., array, _ => by cases array

/-- **A level is written as its parts**, behind the arrays that wait for their chain. -/
theorem lays_encodeFields : ∀ {fields : List Field}, WellNamed fields →
    ∀ (base path : String) (object : Option Object), LaysLevel base path object fields
  | [], _ => fun _ _ _ => laysLevel_nil
  | field :: rest, named => by
      intro base path object
      rw [WellNamed] at named
      have further : LaysLevel base path object rest :=
        lays_encodeFields named.2.2 base path object
      by_cases array : field.isArray = true
      · have element : ∀ item ∈ itemsIn (under object field), LaysElement field item :=
          fun item _ => lays_writeElement array named.2.1 item
        by_cases mixed : field.isMixed = true
        · exact laysLevel_mixed mixed element further
        · exact laysLevel_apart array (Bool.eq_false_iff.mpr mixed) element further
      · have single : field.isArray = false := Bool.eq_false_iff.mpr array
        exact laysLevel_single single (lays_encodeField single named.2.1 base path object) further

end

/-! ## Messages -/

/-- How many bytes the message with an object takes. -/
def messageSize (layout : Layout) (object : Object) : Nat :=
  4 + extentAll (some object) layout.fields

/-- The numbers that the message with an object holds about itself, each with its place: its length
in front, and those of its fields. -/
def messageFigures (layout : Layout) (object : Object) : List (Nat × Nat) :=
  (0, messageSize layout object) ::
    (partsOfAll "" (some object) [] layout.fields).figures 4

variable {layout : Layout} {code : UInt16} {object : Object} {bytes : Bytes}

/-- **A message that was written tells the truth about itself**, in full numbers. -/
theorem encode_shown (named : WellNamed layout.fields)
    (encoded : layout.encode code object = .ok bytes) :
    Shown bytes
      ((0, bytes.size) :: (partsOfAll "" (some object) [] layout.fields).figures 4) := by
  obtain ⟨left, middle, after, fields, rest, short, rfl⟩ := encode_eq_ok encoded
  have front : Stretch .empty [] ((Writer.empty.uint16 0).uint16 code) [⟨0⟩] fun message =>
      2 ≤ message.size ∧ Holds message 2 (littleEndian 2 code.toNat) :=
    Stretch.trans .reserve (.put _)
  have queued : Queued [] ⟨[]⟩ (targets "" layout.fields) := .nil .nil (nodup_targets named)
  obtain ⟨_, level⟩ :=
    lays_encodeFields named "" "" (some object) [] ⟨[]⟩ left _ middle queued fields
  have whole := (front.trans (level.close rest [⟨0⟩])).trans (.resolve ⟨0⟩ (.ofNat after.length))
  have draft : Drafted Writer.empty [] := ⟨rfl, by simp, .nil⟩
  obtain ⟨_, ⟨⟨inside, _⟩, _, shown⟩, length⟩ :=
    whole.settles draft _ ⟨Nat.le_refl _, fun _ _ _ => rfl⟩
  have begins : ((Writer.empty.uint16 0).uint16 code).position = 4 := by
    rw [uint16_position, uint16_position]
    rfl
  rw [begins] at shown
  refine List.forall_mem_cons.mpr ⟨⟨inside, ?_⟩, shown⟩
  rw [length, Writer.resolve_size, UInt16.toNat_ofNat_of_lt' short]
  rfl

/-- **An object is written exactly if its message has at most 65535 bytes.** The message is then as
long as the layout says, and every length, count, offset and link in it is the full number. An
object is refused only because there is too much of something. The values need only suit the
layout. -/
theorem encode_size (sound : layout.check = .ok ()) (suits : SuitsAll layout.fields object)
    (code : UInt16) :
    ((∃ bytes, layout.encode code object = .ok bytes) ↔ messageSize layout object ≤ 65535) ∧
      (∀ bytes, layout.encode code object = .ok bytes →
        bytes.size = messageSize layout object ∧ Shown bytes (messageFigures layout object)) ∧
      ∀ error, layout.encode code object = .error error → error.IsOverflow := by
  have most : UInt16.size = 65536 := rfl
  rcases encode_extent suits code with
    ⟨bytes, encoded, size, small⟩ | ⟨error, failed, overflow, large⟩
  · refine ⟨⟨fun _ => ?_, fun _ => ⟨bytes, encoded⟩⟩, fun other same => ?_, fun error failed => ?_⟩
    · rw [messageSize]
      omega
    · obtain rfl := Except.ok.inj (encoded.symm.trans same)
      refine ⟨size, ?_⟩
      have shown := encode_shown (wellNamed_of_check sound) encoded
      rw [size] at shown
      exact shown
    · rw [encoded] at failed
      cases failed
  · refine ⟨⟨?_, fun small => ?_⟩, fun bytes encoded => ?_, fun other same => ?_⟩
    · rintro ⟨bytes, encoded⟩
      rw [failed] at encoded
      cases encoded
    · rw [messageSize] at small
      omega
    · rw [failed] at encoded
      cases encoded
    · rw [failed] at same
      cases same
      exact overflow

theorem encode_size_sample :
    sampleMessage.size = 49 ∧ Shown sampleMessage
      [(0, 49), (4, 14), (6, 2), (8, 22), (10, 1), (12, 28), (22, 22), (24, 28), (28, 28), (30, 42),
        (32, 40), (34, 2), (42, 42), (44, 0)] := by
  have named : WellNamed sampleLayout.fields := wellNamed_of_check rfl
  have suits : SuitsAll sampleLayout.fields sampleObject :=
    suitsAll_of_conforms named conforms_sample (get?_of_conforms named conforms_sample)
  have figures : messageFigures sampleLayout sampleObject = [(0, 49), (4, 14), (6, 2), (8, 22),
      (10, 1), (12, 28), (22, 22), (24, 28), (28, 28), (30, 42), (32, 40), (34, 2), (42, 42),
      (44, 0)] := by decide +kernel
  have size : messageSize sampleLayout sampleObject = 49 := by decide +kernel
  have told := (encode_size rfl suits 300).2.1 sampleMessage encode_sample
  rw [figures, size] at told
  exact told

end Relay.Layout
