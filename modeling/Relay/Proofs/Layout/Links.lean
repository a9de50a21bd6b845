import Relay.Layout.Chain

/-! # The links of a chain

Every array of a chain is linked from its first element to its last
(`Relay.Layout.filter_roundRobin`), and the chain begins with the first array that has elements
(`Relay.Layout.head?_roundRobin`). -/

namespace Relay.Layout

variable {counts : List Nat} {place array : Nat}

/-- In a round there is a link to each array that has an element for it. -/
theorem mem_round {link : Link} :
    link ∈ round counts place ↔
      link.place = place ∧ ∃ count, counts[link.array]? = some count ∧ place < count := by
  obtain ⟨owner, spot⟩ := link
  simp only [round, List.mem_map, List.mem_filter, Prod.exists, decide_eq_true_eq, Link.mk.injEq,
    List.mk_mem_zipIdx_iff_getElem?]
  constructor
  · rintro ⟨count, index, ⟨found, inside⟩, rfl, rfl⟩
    exact ⟨rfl, count, found, inside⟩
  · rintro ⟨rfl, count, found, inside⟩
    exact ⟨count, owner, ⟨found, inside⟩, rfl, rfl⟩

/-- A link leads to an element of its array. -/
theorem mem_of_mem_roundRobin {link : Link} (member : link ∈ roundRobin counts) :
    ∃ count, counts[link.array]? = some count ∧ link.place < count := by
  obtain ⟨place, _, member⟩ := List.mem_flatMap.mp member
  obtain ⟨rfl, found⟩ := mem_round.mp member
  exact found

/-- In a round an array is linked at most once. -/
theorem filter_round_from (counts : List Nat) (first place array : Nat) :
    (((counts.zipIdx first).filter fun (count, _) => decide (place < count)).map
        fun (_, index) => (⟨index, place⟩ : Link)).filter (·.array == array) =
      if first ≤ array ∧ place < counts.getD (array - first) 0 then [⟨array, place⟩] else [] := by
  induction counts generalizing first with
  | nil => simp
  | cons count rest ih =>
      rw [List.zipIdx_cons, List.filter_cons]
      -- the array at the head of the counts is the one numbered `first`
      by_cases here : first = array
      · subst here
        have others := ih (first + 1)
        rw [if_neg (by omega)] at others
        by_cases inside : place < count
        · simp [inside, others]
        · simp [inside, others]
      · have elsewhere : (first == array) = false := beq_eq_false_iff_ne.mpr here
        have others := ih (first + 1)
        have shift : (first + 1 ≤ array ∧ place < rest.getD (array - (first + 1)) 0) ↔
            (first ≤ array ∧ place < (count :: rest).getD (array - first) 0) := by
          by_cases later : first + 1 ≤ array
          · have step : array - first = array - (first + 1) + 1 := by omega
            rw [step, List.getD_cons_succ]
            constructor
            · intro inside
              exact ⟨by omega, inside.2⟩
            · intro inside
              exact ⟨later, inside.2⟩
          · constructor
            · intro inside
              omega
            · intro inside
              omega
        simp only [shift] at others
        by_cases inside : place < count
        · simp only [inside, decide_true, ↓reduceIte, List.map_cons, List.filter_cons, elsewhere,
            Bool.false_eq_true, others]
        · simp only [inside, decide_false, Bool.false_eq_true, ↓reduceIte, others]

/-- The largest count is not below where the search starts, nor below any of the counts. -/
theorem le_foldl_max (counts : List Nat) (start : Nat) :
    start ≤ counts.foldl max start ∧ ∀ count ∈ counts, count ≤ counts.foldl max start := by
  induction counts generalizing start with
  | nil => simp
  | cons count rest ih =>
      obtain ⟨least, others⟩ := ih (max start count)
      rw [List.foldl_cons]
      refine ⟨by omega, ?_⟩
      intro other member
      rcases List.mem_cons.mp member with rfl | member
      · omega
      · exact others other member

/-- No array has more elements than the largest count. -/
theorem getD_le_foldl_max (counts : List Nat) (array : Nat) :
    counts.getD array 0 ≤ counts.foldl max 0 := by
  rw [List.getD_eq_getElem?_getD]
  cases found : counts[array]? with
  | none => exact Nat.zero_le _
  | some count => exact (le_foldl_max counts 0).2 count (List.mem_of_getElem? found)

/-- Where all places are inside, all values are taken. -/
theorem flatMap_of_lt {α : Type} (values : Nat → α) {count : Nat} {places : List Nat}
    (below : ∀ place ∈ places, place < count) :
    (places.flatMap fun place => if place < count then [values place] else []) =
      places.map values := by
  induction places with
  | nil => rfl
  | cons place rest ih =>
      rw [List.flatMap_cons, if_pos (below place List.mem_cons_self),
        ih fun other member => below other (List.mem_cons_of_mem _ member)]
      rfl

/-- Of all places the values are taken that are inside. -/
theorem flatMap_range_of_lt {α : Type} (values : Nat → α) {count bound : Nat}
    (least : count ≤ bound) :
    ((List.range bound).flatMap fun place => if place < count then [values place] else []) =
      (List.range count).map values := by
  obtain ⟨more, rfl⟩ := Nat.exists_eq_add_of_le least
  have back : (((List.range more).map (count + ·)).flatMap fun place =>
      if place < count then [values place] else []) = [] := by
    rw [List.flatMap_eq_nil_iff]
    intro place member
    obtain ⟨above, _, rfl⟩ := List.mem_map.mp member
    exact if_neg (by omega)
  rw [List.range_add, List.flatMap_append, back, List.append_nil]
  exact flatMap_of_lt _ fun place member => List.mem_range.mp member

/-- In a round an array is linked once if it has such an element. -/
theorem filter_round (counts : List Nat) (place array : Nat) :
    (round counts place).filter (·.array == array) =
      if place < counts.getD array 0 then [⟨array, place⟩] else [] := by
  have single := filter_round_from counts 0 place array
  simpa only [round, Nat.zero_le, true_and, Nat.sub_zero] using single

/-- **The links to one array lead to its elements in order.** -/
theorem filter_roundRobin (counts : List Nat) (array : Nat) :
    (roundRobin counts).filter (·.array == array) =
      (List.range (counts.getD array 0)).map fun place => ⟨array, place⟩ := by
  rw [roundRobin, List.filter_flatMap]
  simp only [filter_round]
  exact flatMap_range_of_lt (fun place => (⟨array, place⟩ : Link)) (getD_le_foldl_max counts array)

/-- A chain has links if one of its arrays has elements. -/
theorem roundRobin_ne_nil {count : Nat} (member : count ∈ counts) (filled : 0 < count) :
    roundRobin counts ≠ [] := by
  obtain ⟨array, present⟩ := List.mem_iff_getElem?.mp member
  have own := filter_roundRobin counts array
  intro empty
  rw [empty, List.filter_nil, List.getD_eq_getElem?_getD, present, Option.getD_some] at own
  have nothing := congrArg List.length own
  rw [List.length_map, List.length_range, List.length_nil] at nothing
  omega

/-- The first round comes first, and no later one has a first element. -/
theorem roundRobin_eq_append (counts : List Nat) :
    ∃ later, roundRobin counts = round counts 0 ++ later ∧ ∀ link ∈ later, link.place ≠ 0 := by
  rw [roundRobin]
  cases rounds : counts.foldl max 0 with
  | zero =>
      refine ⟨[], ?_, by simp⟩
      have nothing : round counts 0 = [] := by
        rw [List.eq_nil_iff_forall_not_mem]
        intro link member
        obtain ⟨_, count, found, inside⟩ := mem_round.mp member
        have most := (le_foldl_max counts 0).2 count (List.mem_of_getElem? found)
        omega
      rw [nothing]
      rfl
  | succ rounds =>
      rw [List.range_succ_eq_map, List.flatMap_cons]
      refine ⟨_, rfl, ?_⟩
      intro link member
      obtain ⟨place, turn, member⟩ := List.mem_flatMap.mp member
      obtain ⟨before, _, rfl⟩ := List.mem_map.mp turn
      rw [(mem_round.mp member).1]
      exact Nat.succ_ne_zero before

section

variable {α β : Type} {arrays : List α} {size : α → Nat}

/-- The first link of a round leads to the first array that has elements. -/
theorem head?_round_from {link : Link} {first : Nat}
    (head : ((((arrays.map size).zipIdx first).filter fun (count, _) => decide (0 < count)).map
      fun (_, index) => (⟨index, 0⟩ : Link)).head? = some link) :
    link.place = 0 ∧ first ≤ link.array ∧ ∃ array, arrays[link.array - first]? = some array ∧
      arrays.find? (fun array => decide (0 < size array)) = some array := by
  induction arrays generalizing first with
  | nil => cases head
  | cons array rest ih =>
      rw [List.map_cons, List.zipIdx_cons, List.filter_cons] at head
      by_cases filled : 0 < size array
      · simp only [filled, decide_true, ↓reduceIte, List.map_cons, List.head?_cons,
          Option.some.injEq] at head
        subst head
        refine ⟨rfl, Nat.le_refl _, array, by simp, ?_⟩
        rw [List.find?_cons_of_pos (by simpa using filled)]
      · simp only [filled, decide_false, Bool.false_eq_true, ↓reduceIte] at head
        obtain ⟨start, least, found, present, leading⟩ := ih head
        have step : link.array - first = link.array - (first + 1) + 1 := by omega
        refine ⟨start, by omega, found, ?_, ?_⟩
        · rw [step, List.getElem?_cons_succ]
          exact present
        · rw [List.find?_cons_of_neg (by simpa using filled)]
          exact leading

/-- A chain begins with the first element of the first array that has any. -/
theorem head?_roundRobin {link : Link}
    (head : (roundRobin (arrays.map size)).head? = some link) :
    link.place = 0 ∧ ∃ array, arrays[link.array]? = some array ∧
      arrays.find? (fun array => decide (0 < size array)) = some array := by
  have member := List.mem_of_head? head
  obtain ⟨later, split, _⟩ := roundRobin_eq_append (arrays.map size)
  -- some array has an element, so the first round is not empty
  have nonempty : round (arrays.map size) 0 ≠ [] := by
    obtain ⟨count, found, inside⟩ := mem_of_mem_roundRobin member
    have first : (⟨link.array, 0⟩ : Link) ∈ round (arrays.map size) 0 :=
      mem_round.mpr ⟨rfl, count, found, by omega⟩
    exact List.ne_nil_of_mem first
  have opening : (round (arrays.map size) 0).head? = some link := by
    rw [split, List.head?_append, Option.or_of_isSome (List.isSome_head?.mpr nonempty)] at head
    exact head
  obtain ⟨start, _, found⟩ := head?_round_from opening
  rw [Nat.sub_zero] at found
  exact ⟨start, found⟩

/-- The links of the first round pick what the arrays that have elements do. -/
theorem filterMap_round_from {pick : α → Option β} (pickAt : Nat → Option β) {first : Nat}
    (empty : ∀ array ∈ arrays, size array = 0 → pick array = none)
    (picked : ∀ index array, arrays[index]? = some array → pickAt (first + index) = pick array) :
    ((((arrays.map size).zipIdx first).filter fun (count, _) => decide (0 < count)).map
      fun (_, index) => (⟨index, 0⟩ : Link)).filterMap
        (fun link => if link.place = 0 then pickAt link.array else none) =
      arrays.filterMap pick := by
  induction arrays generalizing first with
  | nil => rfl
  | cons array rest ih =>
      have others := ih (fun other member => empty other (List.mem_cons_of_mem _ member))
        fun index other found => by
          have shifted := picked (index + 1) other (by simpa using found)
          rwa [← Nat.add_assoc, Nat.add_right_comm] at shifted
      have here : pickAt first = pick array := picked 0 array rfl
      rw [List.map_cons, List.zipIdx_cons, List.filter_cons, List.filterMap_cons]
      by_cases filled : 0 < size array
      · simp only [filled, decide_true, ↓reduceIte, List.map_cons, List.filterMap_cons, here]
        rw [others]
      · rw [empty array List.mem_cons_self (by omega)]
        simp only [filled, decide_false, Bool.false_eq_true, ↓reduceIte]
        exact others

/-- The first elements of a chain, array by array. -/
theorem filterMap_roundRobin {pick : α → Option β}
    (empty : ∀ array ∈ arrays, size array = 0 → pick array = none) :
    (roundRobin (arrays.map size)).filterMap
        (fun link => if link.place = 0 then arrays[link.array]?.bind pick else none) =
      arrays.filterMap pick := by
  obtain ⟨later, split, others⟩ := roundRobin_eq_append (arrays.map size)
  have nothing : later.filterMap
      (fun link => if link.place = 0 then arrays[link.array]?.bind pick else none) = [] := by
    rw [List.filterMap_eq_nil_iff]
    intro link member
    exact if_neg (others link member)
  rw [split, List.filterMap_append, nothing, List.append_nil]
  have picked (index : Nat) (array : α) (found : arrays[index]? = some array) :
      arrays[0 + index]?.bind pick = pick array := by
    rw [Nat.zero_add, found, Option.bind_some]
  exact filterMap_round_from (fun index => arrays[index]?.bind pick) empty picked

end

end Relay.Layout
