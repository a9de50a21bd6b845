import Relay.Proofs.Layout.Drafted
import Relay.Proofs.Layout.Laid

/-! # A level is drafted in order

Writing the fields of a level is a passage after which the level stands in the message in order
(`Relay.Layout.drafts_encodeFields`), whatever else is open or follows. What stands there is what
the layout makes of the object, whether or not the object conforms. What a text is to the message
where its bytes are written is left open. -/

namespace Relay.Layout

open Relay.Stream Relay.Frame.Header Encode

/-- The array that a field is, with the items that are read of it. -/
def strandFor (texts : TextPlacement) (quiet : Prop) (object : Option Object) (field : Field) :
    Strand :=
  ⟨field.name, none, (itemsIn (under object field)).map (completedElement · field),
    ElementLaid texts quiet field⟩

/-- Whether an item is drafted in order as an element of an array. -/
def DraftsElement (texts : TextPlacement) (quiet : Prop) (field : Field) (item : Value) : Prop :=
  ∀ path writer after slots, writeElement field path item writer = .ok ((), after) →
    Stretch writer slots after slots fun message =>
      ElementLaid texts quiet field message (completedElement item field) writer.position
        after.position

/-- Whether a field that is no array is drafted in order, where some headers are known. -/
def DraftsField (texts : TextPlacement) (quiet : Prop) (known : List (HeaderKind × String))
    (base path : String) (object : Option Object) (field : Field) : Prop :=
  ∀ (waiting left : OpenSlots) (due : List String) (held : List Slot) (writer after : Writer),
    (targetsOf base field ++ due).Nodup → waiting.Knows (targetsOf base field ++ due) known →
    encodeField base path object waiting field writer = .ok (left, after) →
    left.Knows due (known ++ headersIn base field) ∧
      Passage ⟨writer, waiting, targetsOf base field ++ due, held⟩ ⟨after, left, due, held⟩
        fun message headers later => Laid texts quiet message base field headers writer.position
          (ownOf object field) later after.position

/-- Whether a level is drafted in order behind the arrays that wait for their chain, one of which
has elements if the level is led. -/
def DraftsLevel (texts : TextPlacement) (quiet : Prop) (known : List (HeaderKind × String))
    (base path : String) (led : Bool) (object : Option Object) (fields : List Field) : Prop :=
  ∀ (pairs : List (WriteColumn × Strand)) (waiting left : OpenSlots) (due : List String)
    (held : List Slot) (writer after : Writer), Pending quiet led pairs →
    (targets base fields ++ due).Nodup → waiting.Knows (targets base fields ++ due) known →
    encodeFields base path object waiting (pairs.map Prod.fst) fields writer = .ok (left, after) →
    left.Knows due (known ++ headersOn base fields) ∧
      Passage ⟨writer, waiting, targets base fields ++ due, pairs.filterMap (·.1.first) ++ held⟩
          ⟨after, left, due, held⟩
        fun message headers later => AllLaid texts quiet message base (pairs.map (strandAt message))
          fields headers writer.position (completedAll object fields) later after.position

section

variable {texts : TextPlacement} {quiet : Prop} {base path : String} {object : Option Object}
  {field : Field}
  {writer after : Writer} {waiting left : OpenSlots} {due : List String} {held : List Slot}
  {known : List (HeaderKind × String)} {led : Bool}

/-- An array is prepared: its count is filled in, and its offset stays open for its chain. -/
theorem passage_column {column : WriteColumn}
    (found : Encode.column base path field.name object waiting (writeElement field) writer =
      .ok ((column, left), after))
    (knows : waiting.Knows (dotted base field.name :: due) known)
    (reached : Reached quiet known (dotted base field.name) led (under object field))
    (fresh : dotted base field.name ∉ due)
    (element : ∀ item ∈ itemsIn (under object field), DraftsElement texts quiet field item) :
    after.position = writer.position ∧ Loads column (strandFor texts quiet object field) ∧
      ((strandFor texts quiet object field).items ≠ [] →
        column.first.isSome ∨ (led = true ∧ ¬ quiet)) ∧
      left.Knows due known ∧
      Passage ⟨writer, waiting, dotted base field.name :: due, held⟩
        ⟨after, left, due, column.first.toList ++ held⟩ fun message headers later =>
          later = headers ∧
          countOf headers (dotted base field.name) =
            (strandFor texts quiet object field).items.length ∧
          strandAt message (column, strandFor texts quiet object field) =
            strandOf headers base field.name (strandFor texts quiet object field).items
              (ElementLaid texts quiet field) := by
  obtain ⟨taken, still, rfl, passage⟩ := passage_openColumn (column_eq_ok found) fresh
  have items : (strandFor texts quiet object field).items =
      (itemsIn (under object field)).map (completedElement · field) := rfl
  have empty : (strandFor texts quiet object field).items = [] ↔
      itemsIn (under object field) = [] := by
    rw [items, List.map_eq_nil_iff]
  refine ⟨still, ⟨?_, ?_, ?_⟩, ?_, knows.close taken fresh, passage.imp ?_⟩
  · rw [items, List.length_map]
    rfl
  · intro nothing
    exact if_pos (empty.mp nothing)
  · intro place item value given stands path writer after slots wrote
    have given : (itemsIn (under object field))[place]? = some item :=
      (List.getElem?_toArray ..).symm.trans given
    rw [items, List.getElem?_map, given, Option.map_some, Option.some.injEq] at stands
    subst stands
    exact element item (List.mem_of_getElem? given) path writer after slots wrote
  · intro filled
    have filled : itemsIn (under object field) ≠ [] := fun nothing => filled (empty.mpr nothing)
    rcases (reached filled).2 with listed | behind
    · left
      have waits := knows _ listed List.mem_cons_self
      exact (congrArg Option.isSome (if_neg filled)).trans waits
    · exact .inr behind
  · rintro message headers later ⟨same, count, offset⟩
    refine ⟨same, ?_, ?_⟩
    · rw [count, items, List.length_map]
      change (if _ then (itemsIn (under object field)).length else 0) = _
      split
      next => rfl
      next unknown =>
        by_cases filled : itemsIn (under object field) = []
        · rw [filled]
          rfl
        · exact absurd (knows _ (reached filled).1 List.mem_cons_self) unknown
    · rw [strandAt, strandOf]
      simp only [empty, ← offset]
      rfl

/-- The header of an array is for its own key. -/
theorem targetsOf_array (array : field.isArray = true) :
    targetsOf base field = [dotted base field.name] := by
  cases field with
  | scalars | items => rfl
  | _ => cases array

/-- The offset of an array that joins those that wait is open with theirs. -/
theorem perm_append_first (pairs : List (WriteColumn × Strand)) (column : WriteColumn)
    (strand : Strand) (held : List Slot) :
    (column.first.toList ++ (pairs.filterMap (·.1.first) ++ held)).Perm
      ((pairs ++ [(column, strand)]).filterMap (·.1.first) ++ held) := by
  have last : [(column, strand)].filterMap (·.1.first) = column.first.toList := by
    rw [List.filterMap_cons, List.filterMap_nil]
    cases column.first <;> rfl
  rw [List.filterMap_append, last, List.append_assoc]
  exact List.perm_append_comm_assoc ..

/-- A level of its own begins without headers, and those that are left over become zero. -/
theorem stretch_level {middle : Writer} {fact : Bytes → HeaderValues → HeaderValues → Prop}
    (passage : Passage ⟨writer, ⟨[]⟩, due, held⟩ ⟨middle, left, [], held⟩ fact)
    (rest : resolveRest left middle = .ok ((), after)) :
    after.position = middle.position ∧ Stretch writer held after held fun message =>
      ∃ headers, fact message ⟨[]⟩ headers := by
  obtain ⟨still, stretch⟩ := stretch_resolveRest rest
  refine ⟨still, (Stretch.trans passage (stretch held)).imp ?_⟩
  intro message _ settled
  have spent : Desk.Spent ⟨middle, left, [], held⟩ message := fun entry member _ =>
    settled.2 entry member
  obtain ⟨headers, found, _⟩ := (settled.1 spent).2 ⟨[]⟩ fun _ _ _ => rfl
  exact ⟨headers, found⟩

variable {rest : List Field}

/-- The arrays that wait at the end of a level are written. -/
theorem draftsLevel_nil : DraftsLevel texts quiet known base path led object [] := by
  intro pairs waiting left due held writer after pending _ knows found
  rw [encodeFields] at found
  obtain ⟨_, middle, wrote, found⟩ := bind_eq_ok.mp found
  cases pure_eq_ok.mp found
  rw [headersOn, List.append_nil]
  refine ⟨knows, (passage_chain pending wrote _ _ _).imp ?_⟩
  rintro message headers later ⟨same, chained⟩
  rw [AllLaid, completedAll]
  exact ⟨rfl, same, chained⟩

/-- An array that may share its chain joins those that wait. -/
theorem draftsLevel_mixed (mixed : field.isMixed = true)
    (reached : Reached quiet known (dotted base field.name) led (under object field))
    (element : ∀ item ∈ itemsIn (under object field), DraftsElement texts quiet field item)
    (further : DraftsLevel texts quiet known base path
      (led || !(itemsIn (under object field)).isEmpty) object rest) :
    DraftsLevel texts quiet known base path led object (field :: rest) := by
  have array := Field.isArray_of_isMixed mixed
  intro pairs waiting left due held writer after pending distinct knows found
  rw [targets, targetsOf_array array, List.append_assoc] at distinct knows ⊢
  rw [headersOn, headersIn_array array, List.nil_append]
  rw [encodeFields_mixed mixed] at found
  obtain ⟨fresh, distinctLater⟩ := List.nodup_cons.mp distinct
  obtain ⟨⟨column, between⟩, middle, prepared, found⟩ := bind_eq_ok.mp found
  obtain ⟨still, load, pointed, knows, own⟩ := passage_column prepared knows reached fresh element
  have joined := pending.append load pointed
  have isEmpty : (strandFor texts quiet object field).items.isEmpty =
      (itemsIn (under object field)).isEmpty := List.isEmpty_map
  rw [isEmpty] at joined
  obtain ⟨knowsAll, more⟩ := further
    (pairs ++ [(column, strandFor texts quiet object field)]) between
    left due held middle after joined distinctLater knows
    (by
      rw [List.map_append]
      exact found)
  have reorder := perm_append_first pairs column (strandFor texts quiet object field) held
  refine ⟨knowsAll, ((own.perm (.refl _) reorder).trans more).imp ?_⟩
  rintro message headers last ⟨_, ⟨rfl, count, strand⟩, more⟩
  rw [still, List.map_append, List.map_singleton, strand] at more
  rw [AllLaid, if_pos array, completedAll_array array]
  refine ⟨_, _, rfl, count, ?_⟩
  rw [if_pos mixed]
  exact more

/-- An array that shares no chain is written behind those that wait. -/
theorem draftsLevel_apart (array : field.isArray = true) (apart : field.isMixed = false)
    (reached : Reached quiet known (dotted base field.name) false (under object field))
    (element : ∀ item ∈ itemsIn (under object field), DraftsElement texts quiet field item)
    (further : DraftsLevel texts quiet known base path false object rest) :
    DraftsLevel texts quiet known base path led object (field :: rest) := by
  intro pairs waiting left due held writer after pending distinct knows found
  rw [targets, targetsOf_array array, List.append_assoc] at distinct knows ⊢
  rw [headersOn, headersIn_array array, List.nil_append]
  rw [encodeFields_plain apart, encodeField_array array] at found
  obtain ⟨fresh, distinctLater⟩ := List.nodup_cons.mp distinct
  obtain ⟨_, chained, chain, found⟩ := bind_eq_ok.mp found
  obtain ⟨_, middle, wrote, found⟩ := bind_eq_ok.mp found
  obtain ⟨⟨column, between⟩, begun, prepared, wrote⟩ := bind_eq_ok.mp wrote
  obtain ⟨_, _, single, wrote⟩ := bind_eq_ok.mp wrote
  cases pure_eq_ok.mp wrote
  obtain ⟨still, load, pointed, knows, own⟩ := passage_column prepared knows reached fresh element
  have closed := passage_chain (Pending.nil.append load pointed) single between
    (targets base rest ++ due) held
  obtain ⟨knowsAll, more⟩ := further [] between left due held middle after .nil distinctLater knows
    found
  have sameFirst := perm_append_first [] column (strandFor texts quiet object field) held
  refine ⟨knowsAll, ((passage_chain pending chain _ _ _).trans
    ((own.perm (.refl _) sameFirst).trans (closed.trans more))).imp ?_⟩
  rintro message headers last
    ⟨_, ⟨rfl, chained⟩, _, ⟨rfl, count, strand⟩, _, ⟨rfl, alone⟩, more⟩
  rw [still] at alone
  simp only [List.nil_append, List.map_singleton, strand] at alone
  rw [AllLaid, if_pos array, completedAll_array array]
  refine ⟨_, _, rfl, count, ?_⟩
  rw [if_neg (Bool.eq_false_iff.mp apart)]
  exact ⟨_, _, chained, alone, more⟩

/-- A field that is no array is written behind the arrays that wait. -/
theorem draftsLevel_single (single : field.isArray = false)
    (own : DraftsField texts quiet known base path object field)
    (further :
      DraftsLevel texts quiet (known ++ headersIn base field) base path false object rest) :
    DraftsLevel texts quiet known base path led object (field :: rest) := by
  intro pairs waiting left due held writer after pending distinct knows found
  rw [targets, List.append_assoc] at distinct knows ⊢
  rw [headersOn, ← List.append_assoc]
  rw [encodeFields_plain (Field.isMixed_of_isArray single)] at found
  have distinctLater : (targets base rest ++ due).Nodup := (List.nodup_append.mp distinct).2.1
  obtain ⟨_, chained, chain, found⟩ := bind_eq_ok.mp found
  obtain ⟨between, middle, wrote, found⟩ := bind_eq_ok.mp found
  obtain ⟨knows, own⟩ := own waiting between (targets base rest ++ due) held chained middle distinct
    knows wrote
  obtain ⟨knowsAll, more⟩ := further [] between left due held middle after .nil distinctLater knows
    found
  refine ⟨knowsAll, ((passage_chain pending chain _ _ _).trans (own.trans more)).imp ?_⟩
  rintro message headers last ⟨_, ⟨rfl, chained⟩, between, own, more⟩
  rw [AllLaid, if_neg (Bool.eq_false_iff.mp single)]
  exact ⟨_, _, _, _, between, completedAll_cons object field rest, chained, own, more⟩

/-- The elements of a level of their own are drafted in order when the level is. -/
theorem draftsElement_items {name : String} {fields : List Field} {mixed : Bool}
    {values : List (String × Value)} (named : WellNamed fields)
    (level : ∀ path, DraftsLevel texts quiet [] "" path false (some ⟨values⟩) fields) :
    DraftsElement texts quiet (.items name fields mixed) (.object values) := by
  intro path writer after slots wrote
  obtain ⟨left, middle, wrote, rest⟩ := bind_eq_ok.mp wrote
  have distinct : (targets "" fields ++ []).Nodup := by
    rw [List.append_nil]
    exact nodup_targets named
  obtain ⟨_, passage⟩ := level path [] ⟨[]⟩ left [] slots writer middle .nil distinct
    (fun _ member => absurd member List.not_mem_nil) wrote
  obtain ⟨still, stretch⟩ := stretch_level passage rest
  refine stretch.imp ?_
  rintro message _ ⟨headers, inOrder⟩
  rw [still]
  exact ⟨_, headers, rfl, inOrder⟩

theorem draftsField_header (kind : HeaderKind) (key : String) :
    DraftsField texts quiet known base path object (.header kind key) := by
  intro waiting left due held writer after _ knows found
  rw [encodeField] at found
  refine ⟨knows.header found, (passage_header found).imp ?_⟩
  rintro message headers later ⟨inside, position, rfl⟩
  rw [Laid]
  exact ⟨inside, position, rfl, rfl⟩

theorem draftsField_scalar (name : String) (type : Scalar) :
    DraftsField texts quiet known base path object (.scalar name type) := by
  intro waiting left due held writer after _ knows found
  rw [encodeField] at found
  obtain ⟨_, middle, wrote, found⟩ := bind_eq_ok.mp found
  cases pure_eq_ok.mp found
  simp only [headersIn, List.append_nil]
  refine ⟨knows, (Passage.of_stretch (stretch_scalar wrote _)).imp ?_⟩
  rintro message headers later ⟨same, position, reads⟩
  rw [Laid, ownOf, completed_scalar]
  exact ⟨same, position, _, rfl, reads⟩

/-- A text is drafted in order if texts can be placed. -/
theorem draftsField_string {name : String} (empty : Placed texts "")
    (placed : ∀ value ∈ under object (.string name), Throughout (IsPlaced texts) value) :
    DraftsField texts quiet known base path object (.string name) := by
  intro waiting left due held writer after distinct knows found
  rw [encodeField] at found
  have fresh := (List.nodup_cons.mp distinct).1
  obtain ⟨taken, passage⟩ := passage_sendRun (string_eq_ok found) fresh
  simp only [headersIn, List.append_nil]
  refine ⟨knows.close taken fresh, passage.imp ?_⟩
  rintro message headers later ⟨same, position, holds, points, _⟩
  rw [Laid, ownOf, completed]
  refine ⟨same, points, by omega, _, rfl, ?_⟩
  rw [position]
  exact placed_textIn empty placed _ _ holds

/-- A run of bytes that is not empty is found by its count. -/
theorem draftsField_bytes {name : String}
    (counted : (runIn (under object (.bytes name))).size ≠ 0 →
      (.count, dotted base name) ∈ known) :
    DraftsField texts quiet known base path object (.bytes name) := by
  intro waiting left due held writer after distinct knows found
  rw [encodeField] at found
  have fresh := (List.nodup_cons.mp distinct).1
  obtain ⟨taken, passage⟩ := passage_sendRun (bytes_eq_ok found) fresh
  simp only [headersIn, List.append_nil]
  refine ⟨knows.close taken fresh, passage.imp ?_⟩
  rintro message headers later ⟨same, position, holds, points, count⟩
  rw [Laid, ownOf, completed]
  refine ⟨same, _, rfl, ?_, fun _ => points, position, ?_⟩
  · rw [count]
    split
    next => rfl
    next unknown =>
      by_cases filled : (runIn (under object (.bytes name))).size = 0
      · exact filled.symm
      · exact absurd (knows _ (counted filled) List.mem_cons_self) unknown
  · rw [position]
    exact reads_bytes holds

/-- An object shares the headers of the level that it stands on. -/
theorem draftsField_object {name : String} {fields : List Field}
    (level : DraftsLevel texts quiet known (dotted base name) (dotted path name) false
      ((under object (.object name fields)).bind Value.object?) fields) :
    DraftsField texts quiet known base path object (.object name fields) := by
  intro waiting left due held writer after distinct knows found
  rw [encodeField] at found
  obtain ⟨inside, _, looked, found⟩ := bind_eq_ok.mp found
  cases inner_eq_ok looked
  rw [targetsOf] at distinct knows ⊢
  obtain ⟨knows, passage⟩ := level [] waiting left due held writer after .nil distinct knows found
  rw [headersIn]
  refine ⟨knows, passage.imp ?_⟩
  intro message headers later inOrder
  rw [Laid, ownOf, completed]
  exact ⟨_, rfl, inOrder⟩

end

mutual

/-- An element of an array is drafted in order. -/
theorem drafts_writeElement {texts : TextPlacement} {quiet : Prop} (empty : Placed texts "") :
    ∀ {field : Field}, field.isArray = true → WellNamedBelow field →
      ∀ (item : Value), Throughout (IsPlaced texts) item →
      ElementAddressed quiet item field → DraftsElement texts quiet field item
  | .scalars _ type _, _, _ => by
      intro item _ _ path writer after slots wrote
      refine (stretch_scalar wrote slots).imp ?_
      intro message _ stands
      rw [ElementLaid]
      exact stands
  | .items _ fields _, _, named => by
      intro item placed addressed
      cases item with
      | object values =>
          rw [WellNamedBelow] at named
          rw [Throughout] at placed
          rw [ElementAddressed] at addressed
          refine draftsElement_items named fun path => ?_
          refine drafts_encodeFields empty named "" path ?_ addressed
          rintro _ ⟨⟩
          exact placed.2
      | _ => exact fun _ _ _ _ wrote => absurd wrote throw_ne_ok
  | .header .., array, _ | .scalar .., array, _ | .string _, array, _ | .bytes _, array, _
  | .object .., array, _ => by cases array

/-- A field that is no array is drafted in order. -/
theorem drafts_encodeField {texts : TextPlacement} {quiet : Prop} (empty : Placed texts "") :
    ∀ {field : Field}, field.isArray = false → WellNamedBelow field →
    ∀ (base path : String) {object : Option Object}
      {known : List (HeaderKind × String)} {led : Bool},
      (∀ value ∈ under object field, Throughout (IsPlaced texts) value) →
      Addressed quiet known base led (under object field) field →
      DraftsField texts quiet known base path object field
  | .header kind key, _, _ => fun _ _ _ _ _ _ _ => draftsField_header kind key
  | .scalar name type, _, _ => fun _ _ _ _ _ _ _ => draftsField_scalar name type
  | .string _, _, _ => fun _ _ _ _ _ placed _ => draftsField_string empty placed
  | .bytes _, _, _ => fun _ _ _ _ _ _ addressed => draftsField_bytes addressed
  | .object name fields, _, named => by
      intro base path object known led placed addressed
      rw [WellNamedBelow] at named
      rw [Addressed] at addressed
      exact draftsField_object
        (drafts_encodeFields empty named _ _ (throughout_object? placed) addressed)
  | .scalars .., array, _ | .items .., array, _ => by cases array

/-- **A level is drafted in order**, behind the arrays that wait for their chain. -/
theorem drafts_encodeFields {texts : TextPlacement} {quiet : Prop} (empty : Placed texts "") :
    ∀ {fields : List Field}, WellNamed fields → ∀ (base path : String) {object : Option Object}
      {known : List (HeaderKind × String)} {led : Bool},
      (∀ inner ∈ object, FieldsThroughout (IsPlaced texts) inner.fields) →
      AllAddressed quiet known base led object fields →
      DraftsLevel texts quiet known base path led object fields
  | [], _ => fun _ _ _ _ _ _ _ => draftsLevel_nil
  | field :: rest, named => by
      intro base path object known led placed addressed
      rw [WellNamed] at named
      rw [AllAddressed] at addressed
      obtain ⟨_, below, others⟩ := named
      obtain ⟨here, later⟩ := addressed
      by_cases array : field.isArray = true
      · rw [headersIn_array array, List.append_nil] at later
        obtain ⟨reached, elements⟩ := (addressed_array array).mp here
        have element : ∀ item ∈ itemsIn (under object field),
            DraftsElement texts quiet field item :=
          fun item member => drafts_writeElement empty array below item
            (throughout_of_mem_itemsIn (throughout_under placed field) item member)
            (elements item member)
        by_cases mixed : field.isMixed = true
        · rw [mixed, Bool.true_and] at later
          rw [mixed, Bool.and_true] at reached
          exact draftsLevel_mixed mixed reached element
            (drafts_encodeFields empty others base path placed later)
        · rw [Bool.eq_false_iff.mpr mixed, Bool.false_and] at later
          rw [Bool.eq_false_iff.mpr mixed, Bool.and_false] at reached
          exact draftsLevel_apart array (Bool.eq_false_iff.mpr mixed) reached element
            (drafts_encodeFields empty others base path placed later)
      · have single : field.isArray = false := Bool.eq_false_iff.mpr array
        rw [Field.isMixed_of_isArray single, Bool.false_and] at later
        exact draftsLevel_single single
          (drafts_encodeField empty single below base path (throughout_under placed field) here)
          (drafts_encodeFields empty others base path placed later)

end

end Relay.Layout
