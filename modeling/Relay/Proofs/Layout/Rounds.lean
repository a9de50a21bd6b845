import Mathlib.Algebra.BigOperators.Group.List.Basic
import Mathlib.Algebra.GroupWithZero.Nat
import Relay.Proofs.Layout.Links

/-! # Arrays take turns

In a chain every array has each of its elements once and in order. The place of an element is known
from the counts alone (`Relay.Layout.Link.position`): before it stand the elements of all arrays
from earlier rounds, and in its own round those of the arrays before its own. Hence the arrays take
turns fairly, however many of them have run out of elements (`Relay.Layout.fair_roundRobin`). -/

namespace Relay.Layout

variable {counts : List Nat} {array place passed : Nat}

/-- The arrays whose turn it is along a chain, one for each element. -/
def arraysInTurn (counts : List Nat) : List Nat :=
  (roundRobin counts).map Link.array

/-- The number of elements before an element in its chain: of each array those of earlier rounds,
and one of each earlier array that takes part in its round. -/
def Link.position (counts : List Nat) (link : Link) : Nat :=
  (counts.map fun count => min count link.place).sum +
    (counts.take link.array).countP fun count => decide (link.place < count)

/-- The elements before an element in its chain. -/
def Link.before (counts : List Nat) (link : Link) : List Link :=
  (List.range link.place).flatMap (round counts) ++ round (counts.take link.array) link.place

/-- In a round every array takes part that has an element for it. -/
theorem length_round (counts : List Nat) (place : Nat) :
    (round counts place).length = counts.countP fun count => decide (place < count) := by
  have numbered : counts.countP (fun count => decide (place < count)) =
      ((counts.zipIdx).map Prod.fst).countP fun count => decide (place < count) := by
    rw [List.zipIdx_map_fst]
  rw [numbered, List.countP_map, List.countP_eq_length_filter, round, List.length_map]
  rfl

/-- One more round has one more element of each array that takes part. -/
theorem sum_min_succ (counts : List Nat) (place : Nat) :
    (counts.map fun count => min count (place + 1)).sum =
      (counts.map fun count => min count place).sum +
        counts.countP fun count => decide (place < count) := by
  induction counts with
  | nil => rfl
  | cons count rest ih =>
      rw [List.map_cons, List.sum_cons, List.map_cons, List.sum_cons, List.countP_cons, ih]
      by_cases inside : place < count
      · rw [if_pos (decide_eq_true inside)]
        omega
      · rw [if_neg (by simpa using inside)]
        omega

/-- The rounds up to a later place have no fewer elements. -/
theorem sum_min_le (counts : List Nat) {turn : Nat} (least : place ≤ turn) :
    (counts.map fun count => min count place).sum ≤
      (counts.map fun count => min count turn).sum := by
  induction least with
  | refl => exact Nat.le_refl _
  | step _ ih =>
      rw [sum_min_succ]
      exact Nat.le_trans ih (Nat.le_add_right ..)

/-- So many elements have the rounds before one. -/
theorem length_rounds (counts : List Nat) (place : Nat) :
    ((List.range place).flatMap (round counts)).length =
      (counts.map fun count => min count place).sum := by
  induction place with
  | zero =>
      have nothing : (counts.map fun count => min count 0) = List.replicate counts.length 0 := by
        simp only [Nat.min_zero, List.map_const']
      rw [nothing, List.sum_replicate_nat, Nat.mul_zero]
      rfl
  | succ place ih =>
      rw [List.range_succ, List.flatMap_append, List.length_append, ih, List.flatMap_singleton,
        length_round, sum_min_succ]

/-- A chain has as many links as its arrays have elements. -/
theorem length_roundRobin (counts : List Nat) : (roundRobin counts).length = counts.sum := by
  have whole : (counts.map fun count => min count (counts.foldl max 0)) = counts := by
    refine (List.map_congr_left fun count member => ?_).trans (List.map_id counts)
    exact Nat.min_eq_left ((le_foldl_max counts 0).2 count member)
  rw [roundRobin, length_rounds, whole]

theorem length_before (counts : List Nat) (link : Link) :
    (link.before counts).length = link.position counts := by
  rw [Link.before, List.length_append, length_rounds, length_round, Link.position]

/-- An array that has an element is one of the arrays. -/
theorem lt_length_of_lt_getD (inside : place < counts.getD array 0) : array < counts.length := by
  refine Nat.lt_of_not_le fun beyond => ?_
  rw [List.getD_eq_getElem?_getD, List.getElem?_eq_none beyond] at inside
  exact Nat.not_lt_zero place inside

/-- In its round an element stands behind those of the arrays before its own. -/
theorem exists_round_eq (inside : place < counts.getD array 0) :
    ∃ later, round counts place = round (counts.take array) place ++ ⟨array, place⟩ :: later := by
  have bounded := lt_length_of_lt_getD inside
  have present : place < counts[array] := by
    rwa [List.getD_eq_getElem?_getD, List.getElem?_eq_getElem bounded] at inside
  have split : counts.zipIdx = (counts.take array).zipIdx ++
      (counts[array], array) :: (counts.drop (array + 1)).zipIdx (array + 1) := by
    calc counts.zipIdx
        = (counts.take array ++ counts[array] :: counts.drop (array + 1)).zipIdx := by
          rw [← List.drop_eq_getElem_cons bounded, List.take_append_drop]
      _ = _ := by
          rw [List.zipIdx_append, List.zipIdx_cons, Nat.zero_add,
            List.length_take_of_le (Nat.le_of_lt bounded)]
  unfold round
  rw [split, List.filter_append, List.filter_cons_of_pos (by simpa using present),
    List.map_append, List.map_cons]
  exact ⟨_, rfl⟩

/-- **A chain up to an element** has the elements before it and nothing else. -/
theorem exists_roundRobin_eq (inside : place < counts.getD array 0) :
    ∃ later, roundRobin counts =
      Link.before counts ⟨array, place⟩ ++ ⟨array, place⟩ :: later := by
  have taken : place < counts.foldl max 0 :=
    Nat.lt_of_lt_of_le inside (getD_le_foldl_max counts array)
  obtain ⟨more, rounds⟩ := Nat.exists_eq_add_of_lt taken
  obtain ⟨others, turn⟩ := exists_round_eq inside
  rw [roundRobin, rounds, Nat.add_assoc, List.range_add, Nat.add_comm more, List.range_add,
    List.map_append, List.flatMap_append, List.flatMap_append, List.range_one, List.map_singleton,
    List.flatMap_singleton, Nat.add_zero, turn, Link.before]
  exact ⟨_, by rw [List.append_assoc, List.append_assoc]; rfl⟩

/-- An array has as many turns as elements among the links. -/
theorem count_map_array (links : List Link) (array : Nat) :
    (links.map Link.array).count array = (links.filter (·.array == array)).length := by
  rw [List.count, List.countP_map, List.countP_eq_length_filter]
  rfl

/-- Before an element stand as many elements of its array as its own number says. -/
theorem count_before (inside : place < counts.getD array 0) :
    ((Link.before counts ⟨array, place⟩).map Link.array).count array = place := by
  have early : ((List.range place).flatMap (round counts)).filter (·.array == array) =
      (List.range place).map fun turn => ⟨array, turn⟩ := by
    rw [List.filter_flatMap]
    simp only [filter_round]
    refine flatMap_of_lt (fun turn => (⟨array, turn⟩ : Link)) fun turn member => ?_
    exact Nat.lt_trans (List.mem_range.mp member) inside
  have own : (round (counts.take array) place).filter (·.array == array) = [] := by
    have absent : (counts.take array).getD array 0 = 0 := by
      rw [List.getD_eq_getElem?_getD, List.getElem?_take, if_neg (Nat.lt_irrefl array)]
      rfl
    rw [filter_round, absent, if_neg (Nat.not_lt_zero place)]
  rw [count_map_array, Link.before, List.filter_append, early, own, List.append_nil,
    List.length_map, List.length_range]

/-- Every array has a turn for each of its elements. -/
theorem count_arraysInTurn (counts : List Nat) (array : Nat) :
    (arraysInTurn counts).count array = counts.getD array 0 := by
  rw [arraysInTurn, count_map_array, filter_roundRobin, List.length_map, List.length_range]

theorem length_arraysInTurn (counts : List Nat) : (arraysInTurn counts).length = counts.sum := by
  rw [arraysInTurn, List.length_map, length_roundRobin]

/-- Up to an element, and with it, a chain goes as its counts say. -/
theorem exists_arraysInTurn_eq (inside : place < counts.getD array 0) :
    ∃ front later, arraysInTurn counts = front ++ array :: later ∧
      front.length = Link.position counts ⟨array, place⟩ ∧ front.count array = place := by
  obtain ⟨later, split⟩ := exists_roundRobin_eq inside
  refine ⟨(Link.before counts ⟨array, place⟩).map Link.array, later.map Link.array, ?_, ?_,
    count_before inside⟩
  · rw [arraysInTurn, split, List.map_append, List.map_cons]
  · rw [List.length_map, length_before]

/-- More elements of an array have passed than the number of one says if that one has passed. -/
theorem lt_count_take (inside : place < counts.getD array 0) :
    place < ((arraysInTurn counts).take passed).count array ↔
      Link.position counts ⟨array, place⟩ < passed := by
  obtain ⟨front, later, split, length, count⟩ := exists_arraysInTurn_eq inside
  rw [← length, split]
  by_cases reached : front.length < passed
  · have most : front ++ [array] <+: (front ++ array :: later).take passed := by
      refine List.prefix_take_iff.mpr ⟨⟨later, by simp⟩, ?_⟩
      rw [List.length_append, List.length_singleton]
      exact reached
    have passing := most.count_le array
    rw [List.count_append, List.count_singleton_self, count] at passing
    exact iff_of_true passing reached
  · have few : (front ++ array :: later).take passed <+: front := by
      rw [List.take_append_of_le_length (Nat.not_lt.mp reached)]
      exact List.take_prefix passed front
    have waiting := few.count_le array
    rw [count] at waiting
    exact iff_of_false (Nat.not_lt.mpr waiting) reached

/-- An element comes before that of a later round in any array. -/
theorem position_lt_of_lt {other turn : Nat} (inside : place < counts.getD array 0)
    (later : place < turn) :
    Link.position counts ⟨array, place⟩ < Link.position counts ⟨other, turn⟩ := by
  have turns := sum_min_le counts later
  -- in its own round the array itself takes part, and it is none of those before it
  have round : (counts.take array).countP (fun count => decide (place < count)) <
      counts.countP fun count => decide (place < count) := by
    obtain ⟨others, turn⟩ := exists_round_eq inside
    have lengths := congrArg List.length turn
    rw [List.length_append, length_round, length_round, List.length_cons] at lengths
    omega
  rw [sum_min_succ] at turns
  simp only [Link.position]
  omega

/-- In a round the arrays take part in their order. -/
theorem map_array_round (counts : List Nat) (place : Nat) :
    (round counts place).map Link.array =
      (List.range counts.length).filter fun array => decide (place < counts.getD array 0) := by
  have known : counts.zipIdx.filter (fun entry => decide (place < entry.1)) =
      counts.zipIdx.filter ((fun array => decide (place < counts.getD array 0)) ∘ Prod.snd) := by
    refine List.filter_congr fun entry member => ?_
    obtain ⟨count, index⟩ := entry
    have found := List.mk_mem_zipIdx_iff_getElem?.mp member
    simp only [Function.comp_apply, List.getD_eq_getElem?_getD, found, Option.getD_some]
  rw [round, known, List.map_map, List.range_eq_range', ← List.zipIdx_map_snd, List.filter_map]
  rfl

/-- The first element of an array comes behind those of the arrays before it that have any. -/
theorem take_position_zero (filled : 0 < counts.getD array 0) :
    (arraysInTurn counts).take (Link.position counts ⟨array, 0⟩) =
      (List.range array).filter fun earlier => decide (0 < counts.getD earlier 0) := by
  obtain ⟨later, split⟩ := exists_roundRobin_eq filled
  have front : Link.before counts ⟨array, 0⟩ = round (counts.take array) 0 := rfl
  rw [arraysInTurn, split, List.map_append, ← length_before, ← List.length_map Link.array,
    List.take_left, front, map_array_round,
    List.length_take_of_le (Nat.le_of_lt (lt_length_of_lt_getD filled))]
  refine List.filter_congr fun earlier member => ?_
  rw [List.getD_eq_getElem?_getD, List.getElem?_take, if_pos (List.mem_range.mp member),
    List.getD_eq_getElem?_getD]

/-- Arrays take turns fairly: there is one turn for each element; an array has a turn for each of
its own, each at its position, where as many of the array have passed as its number says, and they
are linked in order; the first element of an array comes behind those of the earlier arrays that
have any; and wherever one stops, no array has passed more than one element more than another that
still has elements left. -/
structure Fair (counts : List Nat) : Prop where
  length : (arraysInTurn counts).length = counts.sum
  count : ∀ array, (arraysInTurn counts).count array = counts.getD array 0
  place : ∀ array place, place < counts.getD array 0 →
    (roundRobin counts)[Link.position counts ⟨array, place⟩]? = some ⟨array, place⟩ ∧
      (arraysInTurn counts)[Link.position counts ⟨array, place⟩]? = some array ∧
      ((arraysInTurn counts).take (Link.position counts ⟨array, place⟩)).count array = place
  inOrder : ∀ array, (roundRobin counts).filter (·.array == array) =
    (List.range (counts.getD array 0)).map fun place => ⟨array, place⟩
  first : ∀ array, 0 < counts.getD array 0 →
    (arraysInTurn counts).take (Link.position counts ⟨array, 0⟩) =
      (List.range array).filter fun earlier => decide (0 < counts.getD earlier 0)
  even : ∀ passed array other,
    ((arraysInTurn counts).take passed).count other < counts.getD other 0 →
      ((arraysInTurn counts).take passed).count array ≤
        ((arraysInTurn counts).take passed).count other + 1

/-- **Arrays take turns fairly**, whatever their counts are. -/
theorem fair_roundRobin (counts : List Nat) : Fair counts where
  length := length_arraysInTurn counts
  count := count_arraysInTurn counts
  place array place inside := by
    obtain ⟨later, split⟩ := exists_roundRobin_eq inside
    have here : (roundRobin counts)[Link.position counts ⟨array, place⟩]? =
        some ⟨array, place⟩ := by
      rw [split, ← length_before, List.getElem?_append_right (Nat.le_refl _), Nat.sub_self]
      rfl
    refine ⟨here, ?_, ?_⟩
    · rw [arraysInTurn, List.getElem?_map, here]
      rfl
    · rw [arraysInTurn, split, List.map_append, ← length_before, ← List.length_map Link.array,
        List.take_left, count_before inside]
  inOrder := filter_roundRobin counts
  first _ filled := take_position_zero filled
  even passed array other left := by
    refine Nat.le_of_not_lt fun ahead => ?_
    -- the next element of the one array is still to come, the next but one of the other has passed
    have most := ((List.take_sublist passed (arraysInTurn counts)).count_le array)
    rw [count_arraysInTurn] at most
    have gone := (lt_count_take (Nat.lt_of_lt_of_le ahead most)).mp ahead
    have earlier : Link.position counts ⟨other, _⟩ < Link.position counts ⟨array, _⟩ :=
      position_lt_of_lt left (Nat.lt_add_one _)
    exact Nat.lt_irrefl _ ((lt_count_take left).mpr (Nat.lt_trans earlier gone))

/-- Arrays with two, no, three and one elements. -/
example : arraysInTurn [2, 0, 3, 1] = [0, 2, 3, 0, 2, 2] := by decide

end Relay.Layout
