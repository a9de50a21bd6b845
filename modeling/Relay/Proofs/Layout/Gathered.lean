import Relay.Proofs.Layout.Fields
import Relay.Proofs.Layout.Links
import Relay.Proofs.Stream.Finds

/-! # What a chain can be read as

Whatever the links of a message say, a chain that is read at all has as many elements in every
array as its count says, each of them one that could be read there (`Relay.Layout.finds_chain`).
The first array with elements has an offset. -/

namespace Relay.Layout

open Relay.Stream

variable {message : Bytes}

theorem finds_within {α : Type} {read : Read α} {has : α → Prop} (found : Finds read message has)
    (path : String) : Finds (Decode.within path read) message has := by
  intro reader value later same result
  rw [Decode.within] at result
  split at result
  next first =>
    cases result
    exact found reader value later same first
  next => cases result

theorem finds_warn (text : String) (details : List (String × String)) :
    Finds (Decode.warn text details) message fun _ => True := by
  refine Finds.modify ?_
  exact fun _ => rfl

theorem finds_seekTarget (headers : HeaderValues) (key path : String) :
    Finds (Decode.seekTarget headers key path) message fun _ => True := by
  unfold Decode.seekTarget
  cases headers.get? .offset key with
  | none => exact .pure trivial
  | some offset =>
      have goes : Finds (do
          let position := (← get).position
          if position ≠ offset.toNat then
            Decode.warn "offset mismatch" [("path", path), ("position", toString position),
              ("expected", toString offset.toNat)]
            Decode.within path (Read.seek offset.toNat)) message fun _ => True := by
        refine Finds.get.bind fun reader _ => .ite (fun _ => ?_) fun _ => .pure trivial
        exact (finds_warn _ _).bind fun _ _ => finds_within (.seek _) path
      exact .ite (fun _ => .throw_bind _) fun _ => goes

theorem finds_uint16 (path : String) :
    Finds (Decode.within path Read.uint16) message fun _ => True :=
  finds_within (.wrapped 2 UInt16.ofNat) path

theorem finds_enterElement (column : ReadColumn) (place : Nat) (target : UInt16) :
    Finds (Decode.enterElement column place target) message fun _ => True := by
  have links : Finds (do
      let here ← Decode.within column.path Read.uint16
      if here ≠ target then throw (.elementMismatch column.path target.toNat here)
      Decode.within column.path Read.uint16) message fun _ => True := by
    exact (finds_uint16 _).bind fun here _ => .ite (fun _ => .throw_bind _) fun _ => finds_uint16 _
  have goes : Finds (do
      let position := (← get).position
      if position ≠ target.toNat then
        Decode.warn "offset mismatch for array" [("path", column.path),
          ("position", toString position), ("expected", toString target.toNat)]
        Decode.within column.path (Read.seek target.toNat)
      let here ← Decode.within column.path Read.uint16
      if here ≠ target then throw (.elementMismatch column.path target.toNat here)
      Decode.within column.path Read.uint16) message fun _ => True := by
    refine Finds.get.bind fun reader _ => .ite (fun _ => ?_) fun _ => links
    exact (finds_warn _ _).bind fun _ _ => (finds_within (.seek _) _).bind fun _ _ => links
  unfold Decode.enterElement
  exact .ite (fun _ => (finds_warn _ _).bind fun _ _ => goes) fun _ => goes

/-- An array that is to be read, with a property that its elements have if they are read. -/
abbrev Promise := ReadColumn × (Value → Prop)

/-- The elements of an array keep what was promised of them. -/
def Delivers (message : Bytes) (promise : Promise) : Prop :=
  ∀ path, Finds (promise.1.element path) message promise.2

variable {promises : List Promise}

/-- **Links that are followed to their end lead to one element each.** -/
theorem finds_followLinks (delivers : ∀ promise ∈ promises, Delivers message promise)
    {links : List Link} (inside : ∀ link ∈ links, ∃ promise, promises[link.array]? = some promise)
    (total : Nat) (target : UInt16) (index : Nat) (found : List (Nat × Value)) :
    Finds (Decode.followLinks (promises.map Prod.fst).toArray total target index found links)
      message fun result => (links ≠ [] → target ≠ 0) ∧ ∃ values,
        result = found.reverse ++ values ∧ values.map Prod.fst = links.map (·.array) ∧
        ∀ entry ∈ values, ∀ promise, promises[entry.1]? = some promise → promise.2 entry.2 := by
  induction links generalizing target index found with
  | nil =>
      rw [Decode.followLinks]
      exact .pure ⟨fun nonempty => absurd rfl nonempty, [], (List.append_nil _).symm, rfl,
        fun _ member => absurd member List.not_mem_nil⟩
  | cons link rest ih =>
      obtain ⟨promise, present⟩ := inside link List.mem_cons_self
      have table : (promises.map Prod.fst).toArray[link.array]? = some promise.1 := by
        rw [List.getElem?_toArray, List.getElem?_map, present, Option.map_some]
      rw [Decode.followLinks]
      -- a link that is zero ends the chain too early, and nothing is read
      simp only [table]
      by_cases zero : target = 0
      · rw [if_pos zero]
        exact .throw _
      · rw [if_neg zero]
        refine (finds_enterElement _ _ _).bind fun next _ => ?_
        refine (delivers promise (List.mem_of_getElem? present) _).bind fun value kept => ?_
        refine .ite (fun _ => .throw_bind _) fun _ => ?_
        refine (ih (fun other member => inside other (List.mem_cons_of_mem _ member)) next
          (index + 1) ((link.array, value) :: found)).imp ?_
        rintro result ⟨_, values, rfl, owners, keeps⟩
        refine ⟨fun _ => zero, (link.array, value) :: values, by simp, by simp [owners], ?_⟩
        intro entry member owner given
        rcases List.mem_cons.mp member with rfl | later
        · rw [present, Option.some.injEq] at given
          exact given ▸ kept
        · exact keeps entry later owner given

/-- The first array that has elements has an offset other than zero. -/
def Led (columns : List ReadColumn) : Prop :=
  ∀ column, columns.find? (fun column => decide (0 < column.count)) = some column →
    column.offset ≠ 0

/-- The first arrays of a chain are led if all are. -/
theorem Led.of_append {columns more : List ReadColumn} (led : Led (columns ++ more)) :
    Led columns := by
  intro column leading
  apply led
  rw [List.find?_append, leading, Option.some_or]

/-- Named arrays are those that were promised, each with as many elements as its count says. -/
def Gathered : List Promise → List (String × Value) → Prop
  | [], arrays => arrays = []
  | promise :: rest, arrays =>
    ∃ items others, arrays = (promise.1.name, .array items) :: others ∧
      items.length = promise.1.count ∧ (∀ item ∈ items, promise.2 item) ∧ Gathered rest others

/-- Arrays that are gathered have the names that were promised. -/
theorem names_of_gathered {arrays : List (String × Value)} (gathered : Gathered promises arrays) :
    arrays.map Prod.fst = promises.map (·.1.name) := by
  induction promises generalizing arrays with
  | nil =>
      rw [Gathered] at gathered
      rw [gathered]
      rfl
  | cons promise rest ih =>
      rw [Gathered] at gathered
      obtain ⟨items, others, rfl, _, _, gathered⟩ := gathered
      rw [List.map_cons, List.map_cons, ih gathered]

/-- The array that was promised last is the last one. -/
theorem gathered_append {promise : Promise} {arrays : List (String × Value)}
    (gathered : Gathered (promises ++ [promise]) arrays) :
    ∃ earlier items, arrays = earlier ++ [(promise.1.name, .array items)] ∧
      Gathered promises earlier ∧ items.length = promise.1.count ∧
      ∀ item ∈ items, promise.2 item := by
  induction promises generalizing arrays with
  | nil =>
      obtain ⟨items, others, rfl, count, keeps, rfl⟩ := gathered
      exact ⟨[], items, rfl, rfl, count, keeps⟩
  | cons first rest ih =>
      obtain ⟨items, others, rfl, count, keeps, gathered⟩ := gathered
      obtain ⟨earlier, last, rfl, front, length, all⟩ := ih gathered
      exact ⟨(first.1.name, .array items) :: earlier, last, rfl,
        ⟨items, earlier, rfl, count, keeps, front⟩, length, all⟩

/-- Arrays whose items are as many as promised and as promised are gathered. -/
theorem gathered_itemsOf {found : List (Nat × Value)} {first : Nat}
    (kept : ∀ index promise, promises[index]? = some promise →
      (Decode.itemsOf found (first + index)).length = promise.1.count ∧
        ∀ item ∈ Decode.itemsOf found (first + index), promise.2 item) :
    Gathered promises (((promises.map Prod.fst).zipIdx first).map fun (owner, array) =>
      (owner.name, .array (Decode.itemsOf found array))) := by
  induction promises generalizing first with
  | nil => exact rfl
  | cons promise rest ih =>
      obtain ⟨count, keeps⟩ := kept 0 promise rfl
      refine ⟨_, _, rfl, count, keeps, ih fun index other present => ?_⟩
      have shifted := kept (index + 1) other (by simpa using present)
      rwa [← Nat.add_assoc, Nat.add_right_comm] at shifted

/-- An array has as many of the elements that were found as there are links to it. -/
theorem length_itemsOf {links : List Link} {values : List (Nat × Value)}
    (owners : values.map Prod.fst = links.map (·.array)) (array : Nat) :
    (Decode.itemsOf values array).length = (links.filter (·.array == array)).length := by
  have counted : (values.map Prod.fst).countP (· == array) =
      (links.map (·.array)).countP (· == array) := by rw [owners]
  rw [List.countP_map, List.countP_map, List.countP_eq_length_filter,
    List.countP_eq_length_filter] at counted
  rw [Decode.itemsOf, List.length_map]
  exact counted

/-- A chain whose first link leads somewhere is led. -/
theorem led_of_first (starts : roundRobin (promises.map (·.1.count)) ≠ [] →
    ((roundRobin (promises.map (·.1.count))).head?.bind fun link =>
      (promises.map Prod.fst).toArray[link.array]?).elim 0 (·.offset) ≠ 0) :
    Led (promises.map Prod.fst) := by
  intro column leading
  rw [List.find?_map, Option.map_eq_some_iff] at leading
  obtain ⟨promise, leading, rfl⟩ := leading
  have filled : 0 < promise.1.count := by simpa using List.find?_some leading
  have nonempty : roundRobin (promises.map (·.1.count)) ≠ [] :=
    roundRobin_ne_nil (List.mem_map_of_mem (List.mem_of_find?_eq_some leading)) filled
  obtain ⟨link, rest, links⟩ := List.exists_cons_of_ne_nil nonempty
  have head : (roundRobin (promises.map (·.1.count))).head? = some link := by
    rw [links, List.head?_cons]
  obtain ⟨_, leader, owner, first⟩ := head?_roundRobin head
  have same : leader = promise := Option.some.inj (first.symm.trans leading)
  have start := starts nonempty
  rw [head, Option.bind_some, List.getElem?_toArray, List.getElem?_map, owner, same] at start
  exact start

/-- **A chain that is read gathers what was promised of its arrays.** -/
theorem finds_chain (delivers : ∀ promise ∈ promises, Delivers message promise)
    (headers : HeaderValues) {object : Object}
    (fresh : (object.names ++ promises.map (·.1.name)).Nodup) :
    Finds (Decode.chain (promises.map Prod.fst) ⟨headers, object⟩) message fun level =>
      Led (promises.map Prod.fst) ∧ ∃ arrays, Gathered promises arrays ∧
        level = ⟨headers, ⟨object.fields ++ arrays⟩⟩ := by
  have counts : (promises.map Prod.fst).map (·.count) = promises.map (·.1.count) := by
    rw [List.map_map]
    rfl
  have inside : ∀ link ∈ roundRobin (promises.map (·.1.count)),
      ∃ promise, promises[link.array]? = some promise := by
    intro link member
    obtain ⟨count, counted, _⟩ := mem_of_mem_roundRobin member
    rw [List.getElem?_map, Option.map_eq_some_iff] at counted
    obtain ⟨promise, present, _⟩ := counted
    exact ⟨promise, present⟩
  unfold Decode.chain
  simp only [counts]
  refine (finds_followLinks delivers inside _ _ 0 []).bind ?_
  rintro found ⟨starts, values, spelled, owners, keeps⟩
  have same : found = values := spelled
  subst same
  have kept (index : Nat) (promise : Promise) (present : promises[index]? = some promise) :
      (Decode.itemsOf found (0 + index)).length = promise.1.count ∧
        ∀ item ∈ Decode.itemsOf found (0 + index), promise.2 item := by
    rw [Nat.zero_add]
    constructor
    · rw [length_itemsOf owners, filter_roundRobin, List.length_map, List.length_range,
        List.getD_eq_getElem?_getD, List.getElem?_map, present]
      rfl
    · intro item member
      obtain ⟨⟨owner, _⟩, listed, rfl⟩ := List.mem_map.mp member
      obtain ⟨listed, own⟩ := List.mem_filter.mp listed
      rw [beq_iff_eq] at own
      exact keeps _ listed promise (own ▸ present)
  rw [foldl_insert_arrays (by rw [List.map_map]; exact fresh)]
  exact .pure ⟨led_of_first starts, _, gathered_itemsOf kept, rfl⟩

end Relay.Layout
