import Relay.Proofs.Layout.Followed
import Relay.Proofs.Layout.Gathered

/-! # What a chain is read as

Links are followed from one place to the next, and at each of them an element is read
(`Relay.Layout.yields_followLinks`). A chain that is followed to its end is exact, and an exact
chain is followed to its end, whatever the rest of the message is (`Relay.Layout.yields_chain`). -/

namespace Relay.Layout

open Relay.Stream Relay.Frame.Header

variable {message : Bytes} {place : Nat}

/-- Whether an element of an array is read as what is found there. -/
def YieldsElement (message : Bytes) (field : Field) : Prop :=
  ∀ path place, Yields (readElement field path) message place
    (ElementFollowed field message · place)

/-- The decoder's views of some arrays of a level. -/
def columnsOf (headers : HeaderValues) (base path : String) (group : List Field) :
    List ReadColumn :=
  group.map fun field => Decode.column headers base path field.name (readElement field)

/-- Arrays of a level with their items. -/
def strandsOf (headers : HeaderValues) (base : String) (filled : List (Field × List Value)) :
    List Strand :=
  filled.map fun entry => strandOf headers base entry.1.name entry.2 (ElementFollowed entry.1)

/-- Some arrays of a level have as many items as their counts say. -/
structure Fills (headers : HeaderValues) (base : String) (group : List Field)
    (filled : List (Field × List Value)) : Prop where
  fields : filled.map Prod.fst = group
  counts : ∀ entry ∈ filled, countOf headers (dotted base entry.1.name) = entry.2.length

/-- A link of a chain leads to what can be found there for its array. -/
def Leading (message : Bytes) (group : List Field) (link : Link) (visit : Visit) : Prop :=
  visit.place + 4 ≤ message.size ∧ (numberAt message visit.place).toNat = visit.place ∧
    ∃ field, group[link.array]? = some field ∧
      ElementFollowed field message visit.value (visit.place + 4) visit.stop

/-- What was found along a chain, by the array that it belongs to. -/
def foundOf (links : List Link) (visits : List Visit) : List (Nat × Value) :=
  List.zipWith (fun link visit => (link.array, visit.value)) links visits

/-- The end of some visits is that of the last one, wherever they begin. -/
theorem stop_cons (visit : Visit) (visits : List Visit) (place : Nat) :
    (visit :: visits).getLast?.elim place (·.stop) = visits.getLast?.elim visit.stop (·.stop) := by
  cases visits with
  | nil => rfl
  | cons other rest => rfl

variable {group : List Field} {headers : HeaderValues} {base path : String}

/-- The links of a chain, the next of which is `target`, lead from one visit to the next. -/
structure Along (message : Bytes) (group : List Field) (links : List Link) (target : UInt16)
    (visits : List Visit) : Prop where
  each : List.Forall₂ (Leading message group) links visits
  leads : Leads message (placesOf visits)
  starts : links ≠ [] → target.toNat = (placesOf visits).headD 0

/-- Without links nothing is visited. -/
theorem along_nil {target : UInt16} {visits : List Visit} :
    Along message group [] target visits ↔ visits = [] := by
  constructor
  · exact fun along => List.forall₂_nil_left_iff.mp along.each
  · rintro rfl
    exact ⟨.nil, trivial, fun some => absurd rfl some⟩

/-- A chain begins where the target says, and goes on where its first element says. Only the last
element says zero. -/
theorem along_cons {link : Link} {rest : List Link} {target : UInt16} {visits : List Visit}
    {field : Field} (present : group[link.array]? = some field) :
    Along message group (link :: rest) target visits ↔ target ≠ 0 ∧
      target.toNat + 4 ≤ message.size ∧ numberAt message target.toNat = target ∧
      ∃ value stop others, visits = ⟨target.toNat, value, stop⟩ :: others ∧
        ElementFollowed field message value (target.toNat + 4) stop ∧
        ¬ (numberAt message (target.toNat + 2) ≠ 0 ∧ rest.isEmpty = true) ∧
        Along message group rest (numberAt message (target.toNat + 2)) others := by
  constructor
  · rintro ⟨each, leads, starts⟩
    obtain ⟨⟨_, value, stop⟩, others, ⟨room, self, own, given, element⟩, more, rfl⟩ :=
      List.forall₂_cons_left_iff.mp each
    obtain rfl := Option.some.inj (present.symm.trans given)
    obtain rfl : target.toNat = _ := starts (List.cons_ne_nil _ _)
    obtain ⟨nonzero, onward, leads⟩ := leads_placesOf_cons.mp leads
    refine ⟨fun zero => nonzero (congrArg UInt16.toNat zero), room, UInt16.toNat_inj.mp self,
      value, stop, others, rfl, element, ?_, more, leads, fun _ => onward⟩
    rintro ⟨further, empty⟩
    rw [List.isEmpty_iff.mp empty, List.forall₂_nil_left_iff] at more
    rw [more] at onward
    exact further (UInt16.toNat_inj.mp onward)
  · rintro ⟨nonzero, room, self, value, stop, others, rfl, element, fine, each, leads, starts⟩
    refine ⟨.cons ⟨room, congrArg UInt16.toNat self, field, present, element⟩ each,
      leads_placesOf_cons.mpr ⟨fun zero => nonzero (UInt16.toNat_inj.mp zero), ?_, leads⟩,
      fun _ => rfl⟩
    by_cases more : rest = []
    · subst more
      rw [List.forall₂_nil_left_iff.mp each]
      by_cases last : numberAt message (target.toNat + 2) = 0
      · exact congrArg UInt16.toNat last
      · exact absurd ⟨last, rfl⟩ fine
    · exact starts more

/-- **Following links** yields what is found at places that lead from one to the next. -/
theorem yields_followLinks (each : ∀ field ∈ group, YieldsElement message field)
    {links : List Link} (inside : ∀ link ∈ links, ∃ field, group[link.array]? = some field)
    (total : Nat) (target : UInt16) (index : Nat) (found : List (Nat × Value)) :
    Yields (Decode.followLinks (columnsOf headers base path group).toArray total target index found
      links) message place fun result stop => ∃ visits, Along message group links target visits ∧
        result = found.reverse ++ foundOf links visits ∧
        stop = visits.getLast?.elim place (·.stop) := by
  -- along the links: the next target is what stands two bytes behind the place that was visited
  induction links generalizing place target index found with
  | nil =>
      rw [Decode.followLinks]
      refine (Yields.pure _).congr fun result stop => ?_
      simp [along_nil, foundOf]
  | cons link rest ih =>
      obtain ⟨field, present⟩ := inside link List.mem_cons_self
      have table : (columnsOf headers base path group).toArray[link.array]? =
          some (Decode.column headers base path field.name (readElement field)) := by
        rw [List.getElem?_toArray, columnsOf, List.getElem?_map, present, Option.map_some]
      have further (next : UInt16) (value : Value) (middle : Nat) : Yields (do
          if next ≠ 0 ∧ rest.isEmpty then
            throw (.arrayOverflow (dotted path field.name) (index + 1) total)
          Decode.followLinks (columnsOf headers base path group).toArray total next (index + 1)
            ((link.array, value) :: found) rest) message middle fun result stop =>
              ¬ (next ≠ 0 ∧ rest.isEmpty = true) ∧ ∃ visits,
                Along message group rest next visits ∧
                result = ((link.array, value) :: found).reverse ++ foundOf rest visits ∧
                stop = visits.getLast?.elim middle (·.stop) := by
        refine .ite (fun overflows => .throw_bind _ fun _ _ holds => holds.1 overflows)
          fun fine => ?_
        refine (ih (fun other member => inside other (List.mem_cons_of_mem _ member)) next
          (index + 1) ((link.array, value) :: found)).congr fun result stop => ?_
        exact ⟨fun holds => ⟨fine, holds⟩, fun holds => holds.2⟩
      rw [Decode.followLinks]
      simp only [table, along_cons present]
      refine .ite (fun zero => .throw _ ?_) fun nonzero => ?_
      · rintro _ _ ⟨_, ⟨nonzero, _⟩, _⟩
        exact nonzero zero
      · refine ((yields_enterElement _ link.place target).bind fun next middle _ =>
          (each field (List.mem_of_getElem? present) _ middle).bind fun value last _ =>
            further next value last).congr fun result stop => ?_
        constructor
        · rintro ⟨_, _, ⟨room, self, rfl, rfl⟩, value, last, element, fine, visits, along, rfl, rfl⟩
          exact ⟨_, ⟨nonzero, room, self, value, last, visits, rfl, element, fine, along⟩,
            by simp [foundOf], (stop_cons ⟨target.toNat, value, last⟩ visits place).symm⟩
        · rintro ⟨_, ⟨_, room, self, value, last, visits, rfl, element, fine, along⟩, rfl, rfl⟩
          exact ⟨_, _, ⟨room, self, rfl, rfl⟩, value, last, element, fine, visits, along,
            by simp [foundOf], stop_cons _ _ _⟩

/-- The items of some arrays of a level, by what was found along their chain. -/
def fillOf (group : List Field) (found : List (Nat × Value)) : List (Field × List Value) :=
  group.zipIdx.map fun (field, array) => (field, Decode.itemsOf found array)

/-- The links of the chain of some arrays of a level. -/
def linksOf (headers : HeaderValues) (base : String) (group : List Field) : List Link :=
  roundRobin (group.map fun field => countOf headers (dotted base field.name))

/-- Where the chain of some arrays begins. -/
def firstOf (columns : List ReadColumn) : UInt16 :=
  ((roundRobin (columns.map (·.count))).head?.bind fun link => columns.toArray[link.array]?).elim 0
    (·.offset)

variable {filled : List (Field × List Value)} {visits : List Visit}
  {found other : List (Nat × Value)}

/-- The counts of arrays are those that the headers say. -/
theorem columnsOf_counts : (columnsOf headers base path group).map (·.count) =
    group.map fun field => countOf headers (dotted base field.name) := by
  rw [columnsOf, List.map_map]
  rfl

/-- The items of an array are those that were found for it. -/
theorem fillOf_getElem? {array : Nat} :
    (fillOf group found)[array]? =
      group[array]?.map fun field => (field, Decode.itemsOf found array) := by
  rw [fillOf, List.getElem?_map, List.getElem?_zipIdx, Option.map_map]
  simp [Function.comp_def]

/-- The items are told for the same fields. -/
theorem fillOf_fields : (fillOf group found).map Prod.fst = group := by
  rw [fillOf, List.map_map]
  exact List.zipIdx_map_fst 0 group

/-- What was found is known by the arrays that it belongs to and the items of each. -/
theorem eq_of_itemsOf (owners : found.map Prod.fst = other.map Prod.fst)
    (items : ∀ array, Decode.itemsOf found array = Decode.itemsOf other array) : found = other := by
  induction found generalizing other with
  | nil =>
      rw [List.map_nil, eq_comm, List.map_eq_nil_iff] at owners
      exact owners.symm
  | cons entry rest ih =>
      cases other with
      | nil => cases owners
      | cons first more =>
          obtain ⟨array, value⟩ := entry
          obtain ⟨_, kept⟩ := first
          obtain ⟨rfl, later⟩ := List.cons.inj owners
          have same (own : Nat) := items own
          simp only [Decode.itemsOf, List.filter_cons] at same
          have here := same array
          simp only [beq_self_eq_true, ↓reduceIte, List.map_cons, List.cons.injEq] at here
          rw [here.1, ih later fun own => ?_]
          by_cases mine : array = own
          · exact mine ▸ here.2
          · have absent : (array == own) = false := beq_eq_false_iff_ne.mpr mine
            have there := same own
            simp only [absent, Bool.false_eq_true, ↓reduceIte] at there
            exact there

/-- What is found belongs to the arrays of the links. -/
theorem foundOf_owners {links : List Link} (same : links.length = visits.length) :
    (foundOf links visits).map Prod.fst = links.map (·.array) := by
  induction links generalizing visits with
  | nil => rfl
  | cons link rest ih =>
      cases visits with
      | nil => cases same
      | cons visit others =>
          rw [foundOf, List.zipWith_cons_cons, List.map_cons, List.map_cons]
          exact congrArg _ (ih (Nat.succ.inj same))

/-- The strands of filled arrays have as many items as their counts say. -/
theorem Fills.lengths (fills : Fills headers base group filled) :
    roundRobin ((strandsOf headers base filled).map (·.items.length)) =
      linksOf headers base group := by
  rw [linksOf, ← fills.fields, strandsOf, List.map_map, List.map_map]
  congr 1
  exact List.map_congr_left fun entry member => (fills.counts entry member).symm

/-- The chain begins at the offset of the first array that has elements. -/
theorem Fills.firstOf_eq (fills : Fills headers base group filled) (path : String)
    (some : linksOf headers base group ≠ []) :
    ∃ strand, (strandsOf headers base filled).find?
      (fun strand => decide (0 < strand.items.length)) = .some strand ∧
      firstOf (columnsOf headers base path group) = strand.offset.getD 0 := by
  obtain ⟨link, rest, links⟩ := List.exists_cons_of_ne_nil some
  have head : (roundRobin (filled.map (·.2.length))).head? = .some link := by
    have same : roundRobin (filled.map (·.2.length)) = linksOf headers base group := by
      rw [← fills.lengths, strandsOf, List.map_map]
      rfl
    rw [same, links, List.head?_cons]
  obtain ⟨_, ⟨field, items⟩, owner, leading⟩ := head?_roundRobin head
  have filledItems : 0 < items.length := by simpa using List.find?_some leading
  have nonempty : items ≠ [] := List.ne_nil_of_length_pos filledItems
  refine ⟨strandOf headers base field.name items (ElementFollowed field), ?_, ?_⟩
  · rw [strandsOf, List.find?_map, Option.map_eq_some_iff]
    exact ⟨(field, items), leading, rfl⟩
  · have present : (columnsOf headers base path group).toArray[link.array]? =
        .some (Decode.column headers base path field.name (readElement field)) := by
      rw [List.getElem?_toArray, columnsOf, ← fills.fields, List.map_map, List.getElem?_map, owner]
      rfl
    have order : roundRobin ((columnsOf headers base path group).map (·.count)) = link :: rest := by
      rw [columnsOf_counts]
      exact links
    rw [firstOf, order, List.head?_cons, Option.bind_some, present, strandOf, if_neg nonempty]
    rfl

/-- An array of a level with its items is told as a strand by the headers. -/
theorem strandsOf_getElem? {array : Nat} {strand : Strand} :
    (strandsOf headers base filled)[array]? = some strand ↔ ∃ field items,
      filled[array]? = some (field, items) ∧
      strandOf headers base field.name items (ElementFollowed field) = strand := by
  rw [strandsOf, List.getElem?_map, Option.map_eq_some_iff, Prod.exists]

/-- What is found along a chain is what its strands are linked to. -/
theorem foundOf_eq_map {strands : List Strand} {links : List Link}
    (turns : List.Forall₂ (Visited message strands) links visits) :
    foundOf links visits = links.map (linkedValue strands) := by
  induction turns with
  | nil => rfl
  | cons first _ ih =>
      obtain ⟨strand, owner, item, _⟩ := first
      rw [List.map_cons, ← ih, linkedValue_eq owner item]
      rfl

/-- What was found for every array of the group is what its strands are linked to. -/
theorem linkedValue_of_found {links : List Link} {strands : List Strand}
    (found : foundOf links visits = links.map (linkedValue strands)) {link : Link} {visit : Visit}
    (member : (link, visit) ∈ links.zip visits) :
    linkedValue strands link = (link.array, visit.value) := by
  induction links generalizing visits with
  | nil => cases member
  | cons first rest ih =>
      cases visits with
      | nil => cases member
      | cons next others =>
          rw [foundOf, List.zipWith_cons_cons, List.map_cons, List.cons.injEq] at found
          rw [List.zip_cons_cons, List.mem_cons] at member
          rcases member with same | later
          · cases same
            exact found.1.symm
          · exact ih found.2 later

/-- If counts and items agree, what was found is what the links lead to. -/
theorem foundOf_fillOf {links : List Link} (links_eq : links = linksOf headers base group)
    (fills : Fills headers base group (fillOf group (foundOf links visits)))
    (same : links.length = visits.length) : foundOf links visits =
      links.map (linkedValue (strandsOf headers base (fillOf group (foundOf links visits)))) := by
  have owners := foundOf_owners same
  have linked : (links.map (linkedValue (strandsOf headers base
      (fillOf group (foundOf links visits))))).map Prod.fst = links.map (·.array) := by
    rw [List.map_map]
    rfl
  refine eq_of_itemsOf (owners.trans linked.symm) fun array => ?_
  cases present : group[array]? with
  | some field =>
      have strand : (strandsOf headers base (fillOf group (foundOf links visits)))[array]? =
          some (strandOf headers base field.name (Decode.itemsOf (foundOf links visits) array)
            (ElementFollowed field)) := by
        rw [strandsOf_getElem?]
        exact ⟨field, _, by rw [fillOf_getElem?, present]; rfl, rfl⟩
      have items := itemsOf_linkedValue strand
      rw [fills.lengths, ← links_eq] at items
      exact items.symm
  | none =>
      -- no link leads to an array that there is not
      have nothing : (links.filter (·.array == array)).length = 0 := by
        rw [links_eq, linksOf, filter_roundRobin, List.length_map, List.length_range,
          List.getD_eq_getElem?_getD, List.getElem?_map, present]
        rfl
      rw [List.eq_nil_of_length_eq_zero ((length_itemsOf owners array).trans nothing),
        List.eq_nil_of_length_eq_zero ((length_itemsOf linked array).trans nothing)]

/-- Visits along the links of a chain make it exact, its arrays being filled by what was found. -/
theorem exact_of_along
    (along : Along message group (linksOf headers base group)
      (firstOf (columnsOf headers base path group)) visits) :
    Fills headers base group (fillOf group (foundOf (linksOf headers base group) visits)) ∧
      Exact message (strandsOf headers base
        (fillOf group (foundOf (linksOf headers base group) visits))) visits := by
  obtain ⟨each, leads, starts⟩ := along
  have owners := foundOf_owners each.length_eq
  have fills : Fills headers base group
      (fillOf group (foundOf (linksOf headers base group) visits)) := by
    refine ⟨fillOf_fields, fun entry member => ?_⟩
    obtain ⟨array, present⟩ := List.mem_iff_getElem?.mp member
    rw [fillOf_getElem?, Option.map_eq_some_iff] at present
    obtain ⟨field, present, rfl⟩ := present
    rw [length_itemsOf owners, linksOf, filter_roundRobin, List.length_map, List.length_range,
      List.getD_eq_getElem?_getD, List.getElem?_map, present]
    rfl
  have found := foundOf_fillOf rfl fills each.length_eq
  refine ⟨fills, exact_of_leads ?_ ?_ leads ?_⟩
  · intro strand leading
    have some : linksOf headers base group ≠ [] := by
      rw [← fills.lengths]
      exact roundRobin_ne_nil (List.mem_map_of_mem (List.mem_of_find?_eq_some leading))
        (by simpa using List.find?_some leading)
    obtain ⟨_, same, first⟩ := fills.firstOf_eq path some
    obtain rfl := Option.some.inj (leading.symm.trans same)
    have start := starts some
    rw [first] at start
    cases visits with
    | nil => exact absurd (List.length_eq_zero_iff.mp each.length_eq) some
    | cons visit others =>
        have nonzero := (leads_placesOf_cons.mp leads).1
        cases given : strand.offset with
        | none =>
            rw [given] at start
            exact absurd start.symm nonzero
        | some offset =>
            rw [given] at start
            exact congrArg Option.some start
  · intro visit member
    obtain ⟨_, _, room, self, _⟩ := exists_of_forall₂ each.flip member
    exact ⟨room, self⟩
  · rw [fills.lengths, List.forall₂_iff_zip]
    refine ⟨each.length_eq, fun {link visit} member => ?_⟩
    obtain ⟨_, _, field, present, element⟩ := (List.forall₂_iff_zip.mp each).2 member
    have value := linkedValue_of_found found member
    have inside : link ∈ roundRobin ((strandsOf headers base
        (fillOf group (foundOf (linksOf headers base group) visits))).map (·.items.length)) := by
      rw [fills.lengths]
      exact (List.of_mem_zip member).1
    obtain ⟨_, counted, within⟩ := mem_of_mem_roundRobin inside
    rw [List.getElem?_map, Option.map_eq_some_iff] at counted
    obtain ⟨strand, owner, rfl⟩ := counted
    have item := List.getElem?_eq_getElem within
    rw [linkedValue_eq owner item, Prod.mk.injEq] at value
    refine ⟨strand, owner, item.trans (congrArg some value.2), ?_⟩
    obtain ⟨own, items, entry, rfl⟩ := strandsOf_getElem?.mp owner
    rw [fillOf_getElem?, present, Option.map_some, Option.some.injEq, Prod.mk.injEq] at entry
    exact entry.1 ▸ element

/-- An exact chain is visited along its links, and its arrays are filled by what is found. -/
theorem along_of_exact (path : String) (fills : Fills headers base group filled)
    (exact : Exact message (strandsOf headers base filled) visits) :
    Along message group (linksOf headers base group)
      (firstOf (columnsOf headers base path group)) visits ∧
      filled = fillOf group (foundOf (linksOf headers base group) visits) := by
  have turns := exact.turns
  rw [fills.lengths] at turns
  refine ⟨⟨?_, exact.leads, fun some => ?_⟩, ?_⟩
  · rw [List.forall₂_iff_zip]
    refine ⟨turns.length_eq, fun {link visit} member => ?_⟩
    obtain ⟨strand, owner, _, element⟩ := (List.forall₂_iff_zip.mp turns).2 member
    obtain ⟨field, items, entry, rfl⟩ := strandsOf_getElem?.mp owner
    have present : group[link.array]? = some field := by
      rw [← fills.fields, List.getElem?_map, entry]
      rfl
    obtain ⟨room, self⟩ := exact.self visit (List.of_mem_zip member).2
    exact ⟨room, self, field, present, element⟩
  · obtain ⟨strand, leading, first⟩ := fills.firstOf_eq path some
    have told := exact.offset strand leading
    cases visits with
    | nil => exact absurd (List.length_eq_zero_iff.mp turns.length_eq) some
    | cons visit others =>
        obtain ⟨offset, given, here⟩ := Option.map_eq_some_iff.mp told
        rw [first, given]
        exact here
  · have found := foundOf_eq_map turns
    apply List.ext_getElem?
    intro array
    rw [fillOf_getElem?, ← fills.fields, List.getElem?_map]
    cases entry : filled[array]? with
    | none => rfl
    | some pair =>
        have owner : (strandsOf headers base filled)[array]? =
            some (strandOf headers base pair.1.name pair.2 (ElementFollowed pair.1)) :=
          strandsOf_getElem?.mpr ⟨pair.1, pair.2, entry, rfl⟩
        have items := itemsOf_linkedValue owner
        rw [fills.lengths] at items
        rw [fills.fields, found, items]
        rfl

/-- The arrays that are read are those of what was found. -/
theorem arraysOf_fillOf : ((columnsOf headers base path group).zipIdx.map fun (column, array) =>
    (column.name, Value.array (Decode.itemsOf found array))) =
      arraysOf (strandsOf headers base (fillOf group found)) := by
  rw [arraysOf, strandsOf, fillOf, columnsOf, List.zipIdx_map, List.map_map, List.map_map,
    List.map_map]
  rfl

/-- To read a chain is to follow its links, if no name is there already. -/
theorem chain_eq {level : LevelRead}
    (fresh : (level.object.names ++ group.map Field.name).Nodup) :
    Decode.chain (columnsOf level.headers base path group) level = (do
      let found ← Decode.followLinks (columnsOf level.headers base path group).toArray
        (linksOf level.headers base group).length
        (firstOf (columnsOf level.headers base path group)) 0 [] (linksOf level.headers base group)
      pure ⟨level.headers, ⟨level.object.fields ++
        arraysOf (strandsOf level.headers base (fillOf group found))⟩⟩) := by
  have order : linksOf level.headers base group =
      roundRobin ((columnsOf level.headers base path group).map (·.count)) :=
    congrArg roundRobin columnsOf_counts.symm
  have names : (level.object.names ++
      (columnsOf level.headers base path group).map (·.name)).Nodup := by
    rw [columnsOf, List.map_map]
    exact fresh
  rw [order]
  unfold Decode.chain firstOf
  refine congrArg (Decode.followLinks _ _ _ 0 [] _ >>= ·) (funext fun found => ?_)
  rw [foldl_insert_arrays names, arraysOf_fillOf]

/-- **A chain** yields its arrays if it is exact, and otherwise nothing. -/
theorem yields_chain (each : ∀ field ∈ group, YieldsElement message field) {level : LevelRead}
    (fresh : (level.object.names ++ group.map Field.name).Nodup) :
    Yields (Decode.chain (columnsOf level.headers base path group) level) message place
      fun result stop => ∃ filled, Fills level.headers base group filled ∧
        Threaded message (strandsOf level.headers base filled) place stop ∧
        result = ⟨level.headers,
          ⟨level.object.fields ++ arraysOf (strandsOf level.headers base filled)⟩⟩ := by
  have inside : ∀ link ∈ linksOf level.headers base group,
      ∃ field, group[link.array]? = some field := by
    intro link member
    obtain ⟨_, counted, _⟩ := mem_of_mem_roundRobin member
    rw [List.getElem?_map, Option.map_eq_some_iff] at counted
    obtain ⟨field, present, _⟩ := counted
    exact ⟨field, present⟩
  rw [chain_eq fresh]
  refine ((yields_followLinks each inside _ _ 0 []).bind fun found _ _ => .pure _).congr
    fun result stop => ?_
  constructor
  · rintro ⟨_, _, ⟨visits, along, rfl, rfl⟩, rfl, rfl⟩
    obtain ⟨fills, exact⟩ := exact_of_along along
    exact ⟨_, fills, ⟨visits, exact, rfl⟩, rfl⟩
  · rintro ⟨_, fills, ⟨visits, exact, rfl⟩, rfl⟩
    obtain ⟨along, rfl⟩ := along_of_exact path fills exact
    exact ⟨_, _, ⟨visits, along, rfl, rfl⟩, rfl, rfl⟩

end Relay.Layout
