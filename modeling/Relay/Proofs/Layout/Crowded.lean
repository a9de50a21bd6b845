import Mathlib.Data.List.Nodup
import Mathlib.Data.List.Perm.Subperm
import Relay.Proofs.Layout.Decoded
import Relay.Proofs.Layout.Received

/-! # How much a message can hold

Elements may share their links: where a place is the next one of the place two bytes before it, the
same two bytes serve both. Still every element of a chain stands at a place of its own, where the
message says just this place, so that a chain has hardly more elements than half the bytes of its
message (`Relay.Layout.Exact.length_le`). Chains that start in many elements may be the same,
so that this is a bound for one chain only, and a message holds as many elements as its arrays nest
(`Relay.Layout.elements_le_capacity`). -/

namespace Relay.Layout

open Relay.Stream Relay.Frame.Header

mutual

/-- The number of elements in the arrays of a value, at all depths. -/
def elements : Value → Nat
  | .array items => elementsIn items
  | .object fields => elementsOf fields
  | _ => 0

/-- The number of some items and of the elements in them. -/
def elementsIn : List Value → Nat
  | [] => 0
  | item :: rest => 1 + elements item + elementsIn rest

/-- The number of elements in named values. -/
def elementsOf : List (String × Value) → Nat
  | [] => 0
  | (_, value) :: rest => elements value + elementsOf rest

end

/-- The most elements that a chain can have in a message of some length. -/
def room (length : Nat) : Nat :=
  length / 2 + length / 257

mutual

/-- The most elements that a field stands for, given the room of a chain: one element of an array
and those in it, or those in an object. -/
def weight (room : Nat) : Field → Nat
  | .scalars .. => 1
  | .items _ fields _ => 1 + capacity room 0 fields
  | .object _ fields => capacity room 0 fields
  | _ => 0

/-- The most elements in the fields of a level, behind arrays that wait for their chain and have
elements of some weight. -/
def capacity (room waiting : Nat) : List Field → Nat
  | [] => room * waiting
  | field :: rest =>
    if field.isMixed then capacity room (max waiting (weight room field)) rest
    else room * waiting + (if field.isArray then room * weight room field else weight room field) +
      capacity room 0 rest

end

/-! ## Places that name themselves -/

variable {message : Bytes}

/-- A number is made of two bytes. -/
theorem toNat_numberAt {place : Nat} (inside : place + 2 ≤ message.size) :
    (numberAt message place).toNat =
      (message.getD place 0).toNat + 256 * (message.getD (place + 1) 0).toNat := by
  have first : place < message.toList.length := by rw [Array.length_toList]; omega
  have second : place + 1 < message.toList.length := by rw [Array.length_toList]; omega
  have bytes : (message.extract place (place + 2)).toList =
      [message.getD place 0, message.getD (place + 1) 0] := by
    rw [Array.toList_extract, List.extract_eq_take_drop, List.drop_eq_getElem_cons first,
      List.drop_eq_getElem_cons second, Nat.add_sub_cancel_left]
    simp [Array.getD_eq_getD_getElem?, show place < message.size by omega,
      show place + 1 < message.size by omega]
  have low := (message.getD place 0).toNat_lt
  have high := (message.getD (place + 1) 0).toNat_lt
  rw [numberAt, bytes, UInt16.toNat_ofNat_of_lt']
  · simp [ofLittleEndian]
  · simp only [ofLittleEndian]
    change _ < 65536
    omega

/-- A place at which the message has a number that is this place, with room for another one. -/
def NamesItself (message : Bytes) (place : Nat) : Prop :=
  place + 4 ≤ message.size ∧ (numberAt message place).toNat = place

/-- Places next to each other rarely name themselves: the byte that they share is the high one of
the first and the low one of the second. -/
theorem dvd_of_namesItself {place : Nat} (even : place % 2 = 0)
    (first : NamesItself message place) (second : NamesItself message (place + 1)) :
    257 ∣ place + 1 := by
  obtain ⟨room, low⟩ := first
  obtain ⟨_, high⟩ := second
  rw [toNat_numberAt (by omega)] at low high
  have front := (message.getD place 0).toNat_lt
  have shared := (message.getD (place + 1) 0).toNat_lt
  have same : place + 1 = 257 * (message.getD (place + 1) 0).toNat := by omega
  exact ⟨_, same⟩

/-- Places that are spread over some slots are no more than the slots. -/
theorem length_le_of_spread {places : List Nat} (distinct : places.Nodup) (slots : List Nat)
    (slot : Nat → Nat) (apart : ∀ x ∈ places, ∀ y ∈ places, slot x = slot y → x = y)
    (within : ∀ x ∈ places, slot x ∈ slots) : places.length ≤ slots.length := by
  have inside : places.map slot ⊆ slots := by
    intro taken member
    obtain ⟨place, placed, rfl⟩ := List.mem_map.mp member
    exact within place placed
  have fewer := (List.subperm_of_subset (List.Nodup.map_on apart distinct) inside).length_le
  rwa [List.length_map] at fewer

/-- **Few places name themselves**: hardly more than half of a message. -/
theorem length_le_room {places : List Nat} (distinct : places.Nodup)
    (self : ∀ place ∈ places, NamesItself message place) :
    places.length ≤ room message.size := by
  -- an odd place behind one that names itself is rare, and no two others share their half
  let crowded (place : Nat) : Bool := decide (place % 2 = 1 ∧ place - 1 ∈ places)
  have rare : (places.filter crowded).length ≤ message.size / 257 := by
    have multiple (place : Nat) (member : place ∈ places.filter crowded) :
        place = 257 * (place / 257) ∧ 0 < place / 257 ∧ place ≤ message.size := by
      obtain ⟨member, odd, before⟩ : place ∈ places ∧ place % 2 = 1 ∧ place - 1 ∈ places := by
        simpa [crowded] using member
      have step : place - 1 + 1 = place := by omega
      have inside := self place member
      obtain ⟨factor, same⟩ := dvd_of_namesItself (by omega) (self _ before) (step ▸ inside)
      have bounded := inside.1
      omega
    have fewer := length_le_of_spread (distinct.filter _) (List.range' 1 (message.size / 257))
      (· / 257)
      (fun x first y second same => by
        rw [(multiple x first).1, (multiple y second).1, same])
      (fun x member => by
        obtain ⟨_, positive, bounded⟩ := multiple x member
        rw [List.mem_range'_1]
        omega)
    rwa [List.length_range'] at fewer
  have halves : (places.filter (!crowded ·)).length ≤ message.size / 2 := by
    have alone (place : Nat) (member : place ∈ places.filter (!crowded ·)) :
        place ∈ places ∧ (place % 2 = 1 → place - 1 ∉ places) := by
      simpa [crowded, Nat.mod_two_ne_one, imp_iff_not_or] using member
    have fewer := length_le_of_spread (distinct.filter _) (List.range (message.size / 2)) (· / 2)
      (fun x first y second same => by
        by_contra differ
        rcases Nat.lt_or_gt_of_ne differ with before | behind
        · have next : y - 1 = x := by omega
          exact (alone y second).2 (by omega) (next ▸ (alone x first).1)
        · have next : x - 1 = y := by omega
          exact (alone x first).2 (by omega) (next ▸ (alone y second).1))
      (fun x member => by
        have inside := (self x (alone x member).1).1
        rw [List.mem_range]
        omega)
    rwa [List.length_range] at fewer
  have split := List.length_eq_length_filter_add (l := places) crowded
  unfold room
  omega

/-! ## Chains -/

variable {strands : List Strand} {visits : List Visit}

/-- **A chain has no more elements than a message has room for.** -/
theorem Exact.length_le (exact : Exact message strands visits) :
    visits.length ≤ room message.size := by
  have fewer := length_le_room exact.distinct fun place member => by
    obtain ⟨visit, visited, rfl⟩ := List.mem_map.mp member
    exact exact.self visit visited
  rwa [placesOf, List.length_map] at fewer

/-- Every item of an array is visited in its turn. -/
theorem Exact.visited (exact : Exact message strands visits) {strand : Strand}
    (member : strand ∈ strands) {item : Value} (held : item ∈ strand.items) :
    ∃ place stop, strand.element message item place stop := by
  obtain ⟨array, owner⟩ := List.mem_iff_getElem?.mp member
  obtain ⟨index, inside, rfl⟩ := List.mem_iff_getElem.mp held
  have turn : (⟨array, index⟩ : Link) ∈ roundRobin (strands.map (·.items.length)) := by
    have own : (⟨array, index⟩ : Link) ∈
        (roundRobin (strands.map (·.items.length))).filter (·.array == array) := by
      rw [filter_roundRobin, List.getD_eq_getElem?_getD, List.getElem?_map, owner]
      exact List.mem_map.mpr ⟨index, List.mem_range.mpr inside, rfl⟩
    exact (List.mem_filter.mp own).1
  obtain ⟨visit, _, strand', same, value, element⟩ := exists_of_forall₂ exact.turns turn
  obtain rfl := Option.some.inj (owner.symm.trans same)
  have here : strand.items[index] = visit.value :=
    Option.some.inj ((List.getElem?_eq_getElem inside).symm.trans value)
  exact ⟨_, _, here ▸ element⟩

/-- Items have no more elements than their number allows if each has no more than its share. -/
theorem elementsIn_le {items : List Value} {most : Nat}
    (each : ∀ item ∈ items, 1 + elements item ≤ most) : elementsIn items ≤ items.length * most := by
  induction items with
  | nil => simp [elementsIn]
  | cons item rest ih =>
      obtain ⟨first, others⟩ := List.forall_mem_cons.mp each
      have further := ih others
      rw [elementsIn, List.length_cons, Nat.succ_mul]
      omega

/-- An element of an array stands for no more than some number of elements, itself included. -/
def Weighs (message : Bytes) (strand : Strand) (most : Nat) : Prop :=
  ∀ value place stop, strand.element message value place stop → 1 + elements value ≤ most

/-- The elements of some arrays, at all depths. -/
def elementsAlong (strands : List Strand) : Nat :=
  (strands.map fun strand => elementsIn strand.items).sum

/-- Arrays have no more elements than all their items allow. -/
theorem elementsAlong_le {most : Nat}
    (each : ∀ strand ∈ strands, elementsIn strand.items ≤ strand.items.length * most) :
    elementsAlong strands ≤ (strands.map (·.items.length)).sum * most := by
  induction strands with
  | nil => simp [elementsAlong]
  | cons strand rest ih =>
      obtain ⟨first, others⟩ := List.forall_mem_cons.mp each
      have further := ih others
      rw [elementsAlong] at further ⊢
      rw [List.map_cons, List.map_cons, List.sum_cons, List.sum_cons, Nat.add_mul]
      omega

/-- A chain holds no more than the weight of its elements, as often as there is room for one. -/
theorem Threaded.elements_le {place stop most : Nat}
    (threaded : Threaded message strands place stop)
    (weighs : ∀ strand ∈ strands, Weighs message strand most) :
    elementsAlong strands ≤ room message.size * most := by
  obtain ⟨visits, exact, _⟩ := threaded
  have bounded := exact.length_le
  rw [exact.total] at bounded
  refine Nat.le_trans (elementsAlong_le fun strand member => elementsIn_le fun item held => ?_)
    (Nat.mul_le_mul_right most bounded)
  obtain ⟨_, _, element⟩ := exact.visited member held
  exact weighs strand member item _ _ element

/-! ## Fields and levels -/

/-- A scalar holds no elements. -/
theorem elements_of_fits {type : Scalar} {value : Value} (fits : type.Fits value) :
    elements value = 0 := by
  cases value with
  | array | object => cases type <;> exact fits.elim
  | _ => rfl

/-- A scalar has no elements. -/
theorem elements_of_reads {type : Scalar} {path : String} {value : Value} {place stop : Nat}
    (found : Reads False (Decode.scalar type path) message place value stop) :
    elements value = 0 := by
  obtain ⟨later, result, _⟩ := found #[]
  exact elements_of_fits (finds_scalar type path _ value _ rfl result).2

theorem elementsOf_append (front back : List (String × Value)) :
    elementsOf (front ++ back) = elementsOf front + elementsOf back := by
  induction front with
  | nil => simp [elementsOf]
  | cons pair rest ih =>
      obtain ⟨name, value⟩ := pair
      rw [List.cons_append, elementsOf, elementsOf, ih, Nat.add_assoc]

theorem elementsAlong_append (strand : Strand) :
    elementsAlong (strands ++ [strand]) = elementsAlong strands + elementsIn strand.items := by
  simp [elementsAlong]

/-- Whether what is found for the fields of a level has no more elements than the level has
capacity for, behind arrays whose elements have some weight. -/
def Bounded (message : Bytes) (fields : List Field) : Prop :=
  ∀ base strands most headers place values left stop,
    (∀ strand ∈ strands, Weighs message strand most) →
    AllFollowed message base strands fields headers place values left stop →
    elementsAlong strands + elementsOf values ≤ capacity (room message.size) most fields

section

variable {field : Field} {rest fields : List Field}

/-- A bounded level that stands alone has no more elements than it has capacity for. -/
theorem Bounded.alone (bounded : Bounded message fields) {base : String}
    {headers left : HeaderValues} {place stop : Nat} {values : List (String × Value)}
    (followed : AllFollowed message base [] fields headers place values left stop) :
    elementsOf values ≤ capacity (room message.size) 0 fields := by
  have fewer := bounded base [] 0 headers place values left stop (by simp) followed
  rwa [elementsAlong, List.map_nil, List.sum_nil, Nat.zero_add] at fewer

theorem bounded_nil : Bounded message [] := by
  intro base strands most headers place values left stop weighs followed
  rw [AllFollowed] at followed
  obtain ⟨rfl, _, threaded⟩ := followed
  rw [capacity, elementsOf, Nat.add_zero]
  exact threaded.elements_le weighs

/-- An array that may share its chain waits with the others. -/
theorem bounded_mixed (mixed : field.isMixed = true)
    (element : ∀ value place stop, ElementFollowed field message value place stop →
      1 + elements value ≤ weight (room message.size) field)
    (further : Bounded message rest) : Bounded message (field :: rest) := by
  intro base strands most headers place values left stop weighs followed
  rw [AllFollowed, if_pos (Field.isArray_of_isMixed mixed)] at followed
  obtain ⟨items, others, rfl, _, followed⟩ := followed
  rw [if_pos mixed] at followed
  have joined := further base _ (max most (weight (room message.size) field)) headers place others
    left stop (List.forall_mem_append.mpr ⟨fun strand member value place stop found =>
        Nat.le_trans (weighs strand member value place stop found) (Nat.le_max_left _ _),
      List.forall_mem_singleton.mpr fun value place stop found =>
        Nat.le_trans (element value place stop found) (Nat.le_max_right _ _)⟩) followed
  rw [elementsAlong_append] at joined
  rw [capacity, if_pos mixed, elementsOf, elements, ← Nat.add_assoc]
  exact joined

/-- An array with a chain of its own has room for as many elements as a chain. -/
theorem bounded_apart (array : field.isArray = true) (plain : field.isMixed = false)
    (element : ∀ value place stop, ElementFollowed field message value place stop →
      1 + elements value ≤ weight (room message.size) field)
    (further : Bounded message rest) : Bounded message (field :: rest) := by
  intro base strands most headers place values left stop weighs followed
  rw [AllFollowed, if_pos array] at followed
  obtain ⟨items, others, rfl, _, followed⟩ := followed
  rw [plain, if_neg Bool.false_ne_true] at followed
  obtain ⟨start, middle, threaded, alone, followed⟩ := followed
  have first := threaded.elements_le weighs
  have second := alone.elements_le (List.forall_mem_singleton.mpr element)
  have third := further.alone followed
  rw [elementsAlong, List.map_singleton, List.sum_singleton] at second
  rw [capacity, plain, if_neg Bool.false_ne_true, if_pos array, elementsOf, elements]
  change elementsIn items ≤ _ at second
  omega

/-- A field that is no array has the elements in it besides those of the chain before it. -/
theorem bounded_single (single : field.isArray = false)
    (own : ∀ base headers place values left stop,
      Followed message base field headers place values left stop →
      elementsOf values ≤ weight (room message.size) field)
    (further : Bounded message rest) : Bounded message (field :: rest) := by
  intro base strands most headers place values left stop weighs followed
  rw [AllFollowed, if_neg (Bool.eq_false_iff.mp single)] at followed
  obtain ⟨held, others, start, middle, between, rfl, threaded, followed, more⟩ := followed
  have first := threaded.elements_le weighs
  have second := own base headers start held between middle followed
  have third := further.alone more
  rw [capacity, Field.isMixed_of_isArray single, if_neg Bool.false_ne_true,
    if_neg (Bool.eq_false_iff.mp single), elementsOf_append]
  omega

end

mutual

/-- **No element of an array has more elements than its weight.** -/
theorem elements_le_weight : ∀ {field : Field} {value : Value} {place stop : Nat},
    field.isArray = true → ElementFollowed field message value place stop →
    1 + elements value ≤ weight (room message.size) field
  | .scalars _ type _, _, _, _, _, found => by
      rw [ElementFollowed] at found
      have single := elements_of_reads (found "")
      rw [weight]
      omega
  | .items _ fields _, _, _, _, _, found => by
      rw [ElementFollowed] at found
      obtain ⟨inner, left, rfl, followed⟩ := found
      have bounded : Bounded message fields := bounded_of_fields fields
      rw [elements, weight]
      exact Nat.add_le_add_left (bounded.alone followed) 1
  | .header .., _, _, _, array, _ | .scalar .., _, _, _, array, _ | .string _, _, _, _, array, _
  | .bytes _, _, _, _, array, _ | .object .., _, _, _, array, _ => by cases array

/-- **No field has more elements than its weight.** -/
theorem elementsOf_le_weight : ∀ {field : Field} {base : String} {headers left : HeaderValues}
    {place stop : Nat} {values : List (String × Value)},
    Followed message base field headers place values left stop →
    elementsOf values ≤ weight (room message.size) field
  | .header .., _, _, _, _, _, _, followed => by
      rw [Followed] at followed
      obtain ⟨_, _, rfl, _⟩ := followed
      exact Nat.zero_le _
  | .scalar .., _, _, _, _, _, _, followed => by
      rw [Followed] at followed
      obtain ⟨_, value, rfl, found⟩ := followed
      rw [elementsOf, elements_of_reads (found ""), elementsOf]
      exact Nat.zero_le _
  | .string _, _, _, _, _, _, _, followed => by
      rw [Followed] at followed
      obtain ⟨_, text, _, rfl, _⟩ := followed
      exact Nat.zero_le _
  | .bytes _, _, _, _, _, _, _, followed => by
      rw [Followed] at followed
      obtain ⟨_, run, _, rfl, _⟩ := followed
      exact Nat.zero_le _
  | .object _ fields, _, _, _, _, _, _, followed => by
      rw [Followed] at followed
      obtain ⟨inner, rfl, followed⟩ := followed
      have bounded : Bounded message fields := bounded_of_fields fields
      rw [elementsOf, elements, elementsOf, Nat.add_zero, weight]
      exact bounded.alone followed
  | .scalars .., _, _, _, _, _, _, followed | .items .., _, _, _, _, _, _, followed =>
      followed.elim

/-- What is found for the fields of a level has no more elements than the level has capacity
for. -/
theorem bounded_of_fields : ∀ fields : List Field, Bounded message fields
  | [] => bounded_nil
  | field :: rest => by
      have further : Bounded message rest := bounded_of_fields rest
      by_cases array : field.isArray = true
      · have element (value : Value) (place stop : Nat)
            (found : ElementFollowed field message value place stop) :
            1 + elements value ≤ weight (room message.size) field := elements_le_weight array found
        by_cases mixed : field.isMixed = true
        · exact bounded_mixed mixed element further
        · exact bounded_apart array (Bool.eq_false_iff.mpr mixed) element further
      · exact bounded_single (Bool.eq_false_iff.mpr array)
          (fun _ _ _ _ _ _ followed => elementsOf_le_weight followed) further

end

variable {layout : Layout} {object : Object}

/-- **A message holds no more elements than its arrays nest**: in every array as many as half of the
message has room for, and in each of them again. -/
theorem elements_le_capacity (sound : layout.check = .ok ())
    (decoded : (layout.decode message).1 = .ok object) :
    elementsOf object.fields ≤ capacity (room message.size) 0 layout.fields := by
  obtain ⟨_, left, stop, followed⟩ := (decode_eq_ok (wellNamed_of_check sound)).mp decoded
  exact (bounded_of_fields layout.fields).alone followed

/-- An array. -/
def plainLayout : Layout :=
  ⟨[.header .count "a", .header .offset "a", .scalars "a" .byte false]⟩

/-- A message in which every place of an array is the next one of the place before it. -/
def stackedMessage : Bytes :=
  #[27, 0, 1, 0, 8, 0, 8, 0, 8, 0, 10, 0, 12, 0, 14, 0, 16, 0, 18, 0, 20, 0, 22, 0, 0, 0, 0]

theorem elements_le_capacity_stacked :
    ∃ object, (plainLayout.decode stackedMessage).1 = .ok object ∧ elementsOf object.fields = 8 ∧
      elementsOf object.fields ≤ capacity (room stackedMessage.size) 0 plainLayout.fields := by
  have counted : (plainLayout.decode stackedMessage).1.toOption.map
      (fun object => elementsOf object.fields) = some 8 := by decide +kernel
  obtain ⟨object, found, eight⟩ := Option.map_eq_some_iff.mp counted
  have decoded := eq_ok_of_toOption found
  exact ⟨object, decoded, eight, elements_le_capacity rfl decoded⟩

/-- An array of objects with an array. -/
def nestedLayout : Layout :=
  ⟨[.header .count "a", .header .offset "a",
    .items "a" [.header .count "b", .header .offset "b", .scalars "b" .byte false] false]⟩

/-- A message in which four elements have the same four elements. -/
def sharedMessage : Bytes :=
  #[60, 0, 1, 0, 4, 0, 8, 0, 8, 0, 16, 0, 4, 0, 40, 0, 16, 0, 24, 0, 4, 0, 40, 0, 24, 0, 32, 0,
    4, 0, 40, 0, 32, 0, 0, 0, 4, 0, 40, 0, 40, 0, 45, 0, 0, 45, 0, 50, 0, 1, 50, 0, 55, 0, 2,
    55, 0, 0, 0, 3]

/-- Elements share their links, and so a message holds more of them than it has room for links. -/
theorem elements_shared : nestedLayout.check = .ok () ∧ ∃ object,
    (nestedLayout.decode sharedMessage).1 = .ok object ∧
      sharedMessage.size / 4 < elementsOf object.fields := by
  have counted : (nestedLayout.decode sharedMessage).1.toOption.map
      (fun object => elementsOf object.fields) = some 20 := by decide +kernel
  obtain ⟨object, found, twenty⟩ := Option.map_eq_some_iff.mp counted
  refine ⟨rfl, object, eq_ok_of_toOption found, ?_⟩
  rw [twenty]
  decide

end Relay.Layout
