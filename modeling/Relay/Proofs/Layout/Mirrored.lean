import Relay.Proofs.Layout.Content
import Relay.Proofs.Layout.Fields
import Relay.Proofs.Layout.Links

/-! # What is completed is written alike

What a layout makes of an object is written as the object itself was
(`Relay.Layout.mirrors_encodeFields`): what was left out is there as zero or empty, and what was
given in another width or kind is there as it was kept. -/

namespace Relay.Layout

open Relay.Stream Encode

/-- Wherever the first step goes well the second does the same to the message, and their results
are related. -/
def Mirrors {α β : Type} (step : Encode α) (again : Encode β) (alike : α → β → Prop) : Prop :=
  ∀ writer value after, step writer = .ok (value, after) →
    ∃ other, again writer = .ok (other, after) ∧ alike value other

namespace Mirrors

variable {α β γ δ : Type} {alike : α → β → Prop} {also : γ → δ → Prop}

theorem refl (step : Encode α) : Mirrors step step Eq :=
  fun _ value _ found => ⟨value, found, rfl⟩

theorem pure {value : α} {other : β} (same : alike value other) :
    Mirrors (Pure.pure value) (Pure.pure other) alike := by
  intro writer _ _ found
  cases pure_eq_ok.mp found
  exact ⟨other, rfl, same⟩

theorem throw (error : EncodeError) (again : Encode β) :
    Mirrors (MonadExcept.throw error : Encode α) again alike :=
  fun _ _ _ found => absurd found throw_ne_ok

/-- **One step after the other** is mirrored if both are. -/
theorem bind {step : Encode α} {again : Encode β} {next : α → Encode γ} {further : β → Encode δ}
    (first : Mirrors step again alike)
    (second : ∀ value other, alike value other → Mirrors (next value) (further other) also) :
    Mirrors (step >>= next) (again >>= further) also := by
  intro writer result after found
  obtain ⟨value, middle, begun, found⟩ := bind_eq_ok.mp found
  obtain ⟨other, mirrored, same⟩ := first writer value middle begun
  obtain ⟨last, ended, related⟩ := second value other same middle result after found
  exact ⟨last, bind_eq_ok.mpr ⟨other, middle, mirrored, ended⟩, related⟩

/-- Two steps that begin alike. -/
theorem after {step : Encode α} {next : α → Encode γ} {further : α → Encode δ}
    (second : ∀ value, Mirrors (next value) (further value) also) :
    Mirrors (step >>= next) (step >>= further) also := by
  refine (refl step).bind fun value other same => ?_
  subst same
  exact second value

/-- A step whose result is the same again. -/
theorem of_eq {step again : Encode α}
    (same : ∀ writer result, step writer = .ok result → again writer = .ok result) :
    Mirrors step again Eq :=
  fun writer value after found => ⟨value, same writer (value, after) found, rfl⟩

end Mirrors

/-- A prepared array, and the array that is prepared of what was kept of its elements. -/
structure Again (column again : WriteColumn) : Prop where
  path : again.path = column.path
  size : again.items.size = column.items.size
  first : again.first = column.first
  element : ∀ place < column.items.size, ∀ path,
    Mirrors (column.element path (column.items.getD place default))
      (again.element path (again.items.getD place default)) Eq

/-- Links are written alike. -/
theorem mirrors_writeLinks {pairs : List (WriteColumn × WriteColumn)}
    (again : ∀ pair ∈ pairs, Again pair.1 pair.2) {links : List Link}
    (inside : ∀ link ∈ links, ∃ pair, pairs[link.array]? = some pair ∧
      link.place < pair.1.items.size) (previous : Option Slot) :
    Mirrors (writeLinks (pairs.map Prod.fst).toArray previous links)
      (writeLinks (pairs.map Prod.snd).toArray previous links) Eq := by
  induction links generalizing previous with
  | nil => exact .refl _
  | cons link rest ih =>
      obtain ⟨pair, present, small⟩ := inside link List.mem_cons_self
      have same := again pair (List.mem_of_getElem? present)
      have column : (pairs.map Prod.fst).toArray[link.array]? = some pair.1 := by
        rw [List.getElem?_toArray, List.getElem?_map, present, Option.map_some]
      have other : (pairs.map Prod.snd).toArray[link.array]? = some pair.2 := by
        rw [List.getElem?_toArray, List.getElem?_map, present, Option.map_some]
      rw [writeLinks_cons column, writeLinks_cons other, same.first, same.path]
      refine .after fun _ => .after fun _ => .after fun _ => .after fun _ => .after fun _ => ?_
      refine .after fun _ => (same.element link.place small _).bind fun _ _ _ => ?_
      exact ih (fun other member => inside other (List.mem_cons_of_mem _ member)) _

/-- A chain is mirrored if its arrays are. -/
theorem mirrors_chain {pairs : List (WriteColumn × WriteColumn)}
    (again : ∀ pair ∈ pairs, Again pair.1 pair.2) :
    Mirrors (Encode.chain (pairs.map Prod.fst)) (Encode.chain (pairs.map Prod.snd)) Eq := by
  have counts : (pairs.map Prod.snd).map (·.items.size) =
      (pairs.map Prod.fst).map (·.items.size) := by
    rw [List.map_map, List.map_map]
    exact List.map_congr_left fun pair member => (again pair member).size
  rw [Encode.chain, Encode.chain, counts]
  refine mirrors_writeLinks again (fun link member => ?_) none
  obtain ⟨count, counted, small⟩ := mem_of_mem_roundRobin member
  rw [List.getElem?_map, List.getElem?_map, Option.map_map, Option.map_eq_some_iff] at counted
  obtain ⟨pair, present, rfl⟩ := counted
  exact ⟨pair, present, small⟩

/-- An array is prepared alike when its elements are written alike. -/
theorem mirrors_openColumn (key path : String) (waiting : OpenSlots)
    {element : String → Value → Encode Unit} {items : List Value} {change : Value → Value}
    (each : ∀ item ∈ items, ∀ path, Mirrors (element path item) (element path (change item)) Eq) :
    Mirrors (openColumn key path waiting element items)
      (openColumn key path waiting element (items.map change))
      fun first second => Again first.1 second.1 ∧ second.2 = first.2 := by
  unfold openColumn
  rw [List.isEmpty_map, List.length_map]
  split
  · refine .pure ⟨⟨rfl, rfl, rfl, fun place inside => ?_⟩, rfl⟩
    exact absurd inside (Nat.not_lt_zero place)
  · split
    · exact .throw _ _
    · refine .after fun _ => .pure ⟨⟨rfl, by simp, rfl, fun place inside path => ?_⟩, rfl⟩
      have small : place < items.length := by simpa using inside
      have kept := each _ (List.getElem_mem small) path
      simpa [small] using kept

section

variable {object other : Option Object}

/-- What an array was prepared of is prepared alike when it is completed. -/
theorem mirrors_column (base path : String) (waiting : OpenSlots) {field : Field}
    (array : field.isArray = true)
    (present : under other field = some (completed (under object field) field))
    (each : ∀ item path, Mirrors (writeElement field path item)
      (writeElement field path (completedElement item field)) Eq) :
    Mirrors (Encode.column base path field.name object waiting (writeElement field))
      (Encode.column base path field.name other waiting (writeElement field))
      fun first second => Again first.1 second.1 ∧ second.2 = first.2 := by
  intro writer value after found
  have opened := column_eq_ok found
  have item : other.bind (·.get? field.name) =
      some (.array ((itemsIn (under object field)).map (completedElement · field))) := by
    rw [← completed_array array]
    exact present
  rw [column_eq, item]
  exact mirrors_openColumn _ _ _ (fun item _ => each item) writer value after opened

/-- Whether the fields of a level of two objects are written alike, behind arrays that are. -/
def MirrorsLevel (base path : String) (object other : Option Object) (fields : List Field) : Prop :=
  ∀ (waiting : OpenSlots) (pairs : List (WriteColumn × WriteColumn)),
    (∀ pair ∈ pairs, Again pair.1 pair.2) →
    Mirrors (encodeFields base path object waiting (pairs.map Prod.fst) fields)
      (encodeFields base path other waiting (pairs.map Prod.snd) fields) Eq

section

variable {base path : String} {field : Field} {rest : List Field}

theorem mirrorsLevel_nil : MirrorsLevel base path object other [] := by
  intro waiting pairs again
  rw [encodeFields, encodeFields]
  exact (mirrors_chain again).bind fun _ _ _ => .refl _

/-- Arrays that may share their chain join those that wait. -/
theorem mirrorsLevel_mixed (mixed : field.isMixed = true)
    (present : under other field = some (completed (under object field) field))
    (each : ∀ item path, Mirrors (writeElement field path item)
      (writeElement field path (completedElement item field)) Eq)
    (further : MirrorsLevel base path object other rest) :
    MirrorsLevel base path object other (field :: rest) := by
  intro waiting pairs again
  rw [encodeFields_mixed mixed, encodeFields_mixed mixed]
  refine (mirrors_column base path waiting (Field.isArray_of_isMixed mixed) present each).bind ?_
  rintro ⟨column, _⟩ ⟨mirror, left⟩ ⟨same, rfl⟩
  have joined := further left (pairs ++ [(column, mirror)])
    (List.forall_mem_append.mpr ⟨again, List.forall_mem_singleton.mpr same⟩)
  rw [List.map_append, List.map_append] at joined
  exact joined

/-- A field that does not wait is mirrored behind the arrays that do. -/
theorem mirrorsLevel_plain (plain : field.isMixed = false)
    (own : ∀ waiting, Mirrors (encodeField base path object waiting field)
      (encodeField base path other waiting field) Eq)
    (further : MirrorsLevel base path object other rest) :
    MirrorsLevel base path object other (field :: rest) := by
  intro waiting pairs again
  rw [encodeFields_plain plain, encodeFields_plain plain]
  refine (mirrors_chain again).bind fun _ _ _ => (own waiting).bind fun left _ same => ?_
  subst same
  exact further left [] (by simp)

/-- An array is written alike when its elements are. -/
theorem mirrors_array (array : field.isArray = true)
    (present : under other field = some (completed (under object field) field))
    (each : ∀ item path, Mirrors (writeElement field path item)
      (writeElement field path (completedElement item field)) Eq) (waiting : OpenSlots) :
    Mirrors (encodeField base path object waiting field)
      (encodeField base path other waiting field) Eq := by
  rw [encodeField_array array, encodeField_array array]
  refine (mirrors_column base path waiting array present each).bind ?_
  rintro ⟨column, _⟩ ⟨mirror, left⟩ ⟨same, rfl⟩
  have single := @mirrors_chain [(column, mirror)] (List.forall_mem_singleton.mpr same)
  exact single.bind fun _ _ _ => .refl _

end

mutual

/-- **Every element is written as what is read of it.** -/
theorem mirrors_writeElement : ∀ {field : Field}, WellNamedBelow field → isStraight field = true →
    ∀ item path, Mirrors (writeElement field path item)
      (writeElement field path (completedElement item field)) Eq
  | .scalars _ type _, _, straight => by
      intro item path
      rw [isStraight, bne_iff_ne] at straight
      exact .of_eq fun _ _ => scalar_stored straight
  | .items _ fields _, named, straight => by
      intro item path
      rw [WellNamedBelow] at named
      rw [isStraight] at straight
      cases item with
      | object values =>
          have level : MirrorsLevel "" path (some ⟨values⟩) _ fields :=
            mirrors_encodeFields named straight "" path (under_completedAll named _)
          refine (level ⟨[]⟩ [] (by simp)).bind fun left again same => ?_
          subst same
          exact .refl _
      | _ => exact .throw _ _
  | .header .., _, _ | .scalar .., _, _ | .string _, _, _ | .bytes _, _, _ | .object .., _, _ =>
      fun _ _ => .refl _

/-- **Every field that is no array is written as what is read of it.** -/
theorem mirrors_encodeField : ∀ {field : Field}, field.isArray = false → WellNamedBelow field →
    isStraight field = true → ∀ (base path : String) {object other : Option Object},
    (field.isHeader = false →
      under other field = some (completed (under object field) field)) →
    ∀ waiting, Mirrors (encodeField base path object waiting field)
      (encodeField base path other waiting field) Eq
  | .header kind key, _, _, _ => by
      intro base path object other _ waiting
      rw [encodeField, encodeField]
      exact .refl _
  | .scalar name type, _, _, straight => by
      intro base path object other present waiting
      rw [isStraight, bne_iff_ne] at straight
      have item : other.bind (·.get? name) =
          some (type.stored (under object (.scalar name type))) := by
        rw [← completed_scalar]
        exact present rfl
      rw [encodeField, encodeField, item]
      refine Mirrors.bind (.of_eq fun _ _ => scalar_stored straight) fun _ _ _ => .refl _
  | .string name, _, _, _ => by
      intro base path object other present waiting
      have item : other.bind (·.get? name) = some (completed (under object (.string name)) _) :=
        present rfl
      rw [completed] at item
      rw [encodeField, encodeField]
      refine .of_eq fun writer result found => ?_
      rw [string_eq, item]
      exact string_eq_ok found
  | .bytes name, _, _, _ => by
      intro base path object other present waiting
      have item : other.bind (·.get? name) = some (completed (under object (.bytes name)) _) :=
        present rfl
      rw [completed] at item
      rw [encodeField, encodeField]
      refine .of_eq fun writer result found => ?_
      rw [bytes_eq, item]
      exact bytes_eq_ok found
  | .object name fields, _, named, straight => by
      intro base path object other present waiting
      have item : other.bind (·.get? name) =
          some (completed (under object (.object name fields)) (.object name fields)) :=
        present rfl
      rw [completed] at item
      rw [WellNamedBelow] at named
      rw [isStraight] at straight
      have inside : Mirrors (Encode.inner path name object) (Encode.inner path name other)
          fun first second => first = (under object (.object name fields)).bind Value.object? ∧
            second = some ⟨completedAll first fields⟩ := by
        intro writer value after found
        cases inner_eq_ok found
        rw [Encode.inner, item]
        exact ⟨_, rfl, rfl, rfl⟩
      rw [encodeField, encodeField]
      refine inside.bind ?_
      rintro first _ ⟨_, rfl⟩
      exact mirrors_encodeFields named straight _ _ (under_completedAll named first) waiting []
        (by simp)
  | .scalars .., array, _, _ | .items .., array, _, _ => by cases array

/-- **What is completed is written alike.** -/
theorem mirrors_encodeFields : ∀ {fields : List Field}, WellNamed fields →
    areStraight fields = true → ∀ (base path : String) {object other : Option Object},
    (∀ field ∈ fields, field.isHeader = false →
      under other field = some (completed (under object field) field)) →
    MirrorsLevel base path object other fields
  | [], _, _ => fun _ _ _ _ _ => mirrorsLevel_nil
  | field :: rest, named, straight => by
      intro base path object other present
      rw [WellNamed] at named
      rw [areStraight, Bool.and_eq_true] at straight
      have here := present field List.mem_cons_self
      have further : MirrorsLevel base path object other rest :=
        mirrors_encodeFields named.2.2 straight.2 base path fun later member =>
          present later (List.mem_cons_of_mem _ member)
      by_cases array : field.isArray = true
      · have item := here (Field.isHeader_of_isArray array)
        have each := mirrors_writeElement named.2.1 straight.1
        by_cases mixed : field.isMixed = true
        · exact mirrorsLevel_mixed mixed item each further
        · exact mirrorsLevel_plain (Bool.eq_false_iff.mpr mixed) (mirrors_array array item each)
            further
      · have single : field.isArray = false := Bool.eq_false_iff.mpr array
        exact mirrorsLevel_plain (Field.isMixed_of_isArray single)
          (mirrors_encodeField single named.2.1 straight.1 base path here) further

end

end

end Relay.Layout
