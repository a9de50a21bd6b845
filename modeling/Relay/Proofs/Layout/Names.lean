import Relay.Layout.Check

/-! # Names and keys of a sound layout

In a layout that passes its check the names on a level are plain and distinct
(`Relay.Layout.wellNamed_of_check`), and so no two fields of a level, those in its objects included,
have the same dotted key (`Relay.Layout.nodup_targets`). -/

namespace Relay.Layout

/-- The names of the fields that hold a value. -/
def valueNames (fields : List Field) : List String :=
  (fields.filter (!·.isHeader)).map Field.name

mutual

/-- Whether the names below a field are plain, and distinct on every level. -/
def WellNamedBelow : Field → Prop
  | .object _ fields => WellNamed fields
  | .items _ fields _ => WellNamed fields
  | _ => True

/-- Whether the names of fields are plain, and distinct on every level. -/
def WellNamed : List Field → Prop
  | [] => True
  | field :: rest =>
    (field.isHeader = false → isPlainName field.name = true ∧ field.name ∉ valueNames rest) ∧
      WellNamedBelow field ∧ WellNamed rest

end

/-- The name of a field comes before the others, unless it is a header. -/
theorem valueNames_cons (field : Field) (rest : List Field) :
    valueNames (field :: rest) =
      if field.isHeader = true then valueNames rest else field.name :: valueNames rest := by
  unfold valueNames
  by_cases header : field.isHeader = true
  · rw [List.filter_cons_of_neg (by simp [header]), if_pos header]
  · rw [List.filter_cons_of_pos (by simpa using header), if_neg header, List.map_cons]

/-- No two fields of a level that hold a value have the same name. -/
theorem nodup_valueNames {fields : List Field} (named : WellNamed fields) :
    (valueNames fields).Nodup := by
  induction fields with
  | nil => exact List.nodup_nil
  | cons field rest ih =>
      rw [WellNamed] at named
      rw [valueNames_cons]
      split
      next => exact ih named.2.2
      next header =>
        have fresh := (named.1 (Bool.eq_false_iff.mpr header)).2
        exact List.nodup_cons.mpr ⟨fresh, ih named.2.2⟩

/-- What goes well as a whole goes well in both parts. -/
theorem except_bind_eq_ok {ε α β : Type} {step : Except ε α} {next : α → Except ε β} {result : β} :
    (step >>= next) = .ok result ↔ ∃ value, step = .ok value ∧ next value = .ok result := by
  cases step with
  | error cause =>
      constructor
      · intro impossible
        cases impossible
      · rintro ⟨_, impossible, _⟩
        cases impossible
  | ok value =>
      constructor
      · intro further
        exact ⟨value, rfl, further⟩
      · rintro ⟨_, found, further⟩
        cases found
        exact further

/-- A value stands under its name among values with distinct names. -/
theorem lookup_of_mem {α β : Type} [BEq α] [LawfulBEq α] {values : List (α × β)}
    (distinct : (values.map Prod.fst).Nodup) {name : α} {value : β}
    (member : (name, value) ∈ values) :
    values.lookup name = some value := by
  induction values with
  | nil => cases member
  | cons pair rest ih =>
      obtain ⟨other, first⟩ := pair
      rw [List.map_cons, List.nodup_cons] at distinct
      rw [List.lookup_cons]
      rcases List.mem_cons.mp member with same | later
      · cases same
        rw [beq_self_eq_true]
      · have differs : (name == other) = false := by
          rw [beq_eq_false_iff_ne]
          rintro rfl
          exact distinct.1 (List.mem_map.mpr ⟨_, later, rfl⟩)
        rw [differs]
        exact ih distinct.2 later

/-- When a field that holds a value passes the check of names. -/
theorem checkNames_cons_eq_ok {path : String} {seen : List String} {field : Field}
    {rest : List Field} (value : field.isHeader = false) :
    checkNames path seen (field :: rest) = .ok () ↔
      isPlainName field.name = true ∧ field.name ∉ seen ∧ checkInside path field = .ok () ∧
        checkNames path (field.name :: seen) rest = .ok () := by
  rw [checkNames, value, if_neg Bool.false_ne_true]
  split
  next blemished =>
    constructor
    · intro passed
      cases passed
    · rintro ⟨plain, _⟩
      rw [plain] at blemished
      cases blemished
  next plain =>
    rw [Bool.not_eq_true', Bool.not_eq_false] at plain
    split
    next before =>
      constructor
      · intro passed
        cases passed
      · rintro ⟨_, unseen, _⟩
        exact absurd (List.contains_iff_mem.mp before) unseen
    next unseen =>
      have unseen : field.name ∉ seen := fun before => unseen (List.contains_iff_mem.mpr before)
      rw [except_bind_eq_ok]
      constructor
      · rintro ⟨_, inside, later⟩
        exact ⟨plain, unseen, inside, later⟩
      · rintro ⟨_, _, inside, later⟩
        exact ⟨(), inside, later⟩

/-- What gives a value goes well with it. -/
theorem eq_ok_of_toOption {ε α : Type} {found : Except ε α} {value : α}
    (some : found.toOption = .some value) : found = .ok value := by
  cases found with
  | error cause => cases some
  | ok other =>
      cases some
      rfl

mutual

/-- A field is well named below if its names pass the check. -/
theorem wellNamedBelow_of_checkInside {path : String} :
    ∀ {field : Field}, checkInside path field = .ok () → WellNamedBelow field
  | .object .., passed => by
      rw [checkInside] at passed
      exact (wellNamed_of_checkNames passed).1
  | .items name fields _, passed => by
      rw [checkInside] at passed
      obtain ⟨_, names, _⟩ := except_bind_eq_ok.mp passed
      exact (wellNamed_of_checkNames names).1
  | .header .., _ => trivial
  | .scalar .., _ => trivial
  | .string _, _ => trivial
  | .bytes _, _ => trivial
  | .scalars .., _ => trivial

/-- Names that pass the check are in order, and none was seen before. -/
theorem wellNamed_of_checkNames {path : String} {seen : List String} :
    ∀ {fields : List Field}, checkNames path seen fields = .ok () →
      WellNamed fields ∧ ∀ name ∈ valueNames fields, name ∉ seen
  | [], _ => ⟨trivial, by simp [valueNames]⟩
  | field :: rest, passed => by
      rw [WellNamed, valueNames_cons]
      by_cases header : field.isHeader = true
      · rw [checkNames, if_pos header] at passed
        rw [if_pos header]
        obtain ⟨named, fresh⟩ := wellNamed_of_checkNames passed
        have below : WellNamedBelow field := by
          cases field with
          | header => trivial
          | _ => cases header
        have nothing : field.isHeader = false →
            isPlainName field.name = true ∧ field.name ∉ valueNames rest := by
          intro value
          rw [header] at value
          cases value
        exact ⟨⟨nothing, below, named⟩, fresh⟩
      · rw [if_neg header]
        obtain ⟨plain, unseen, inside, later⟩ :=
          (checkNames_cons_eq_ok (Bool.eq_false_iff.mpr header)).mp passed
        obtain ⟨named, fresh⟩ := wellNamed_of_checkNames later
        have new : field.name ∉ valueNames rest := by
          intro member
          exact fresh field.name member List.mem_cons_self
        refine ⟨⟨fun _ => ⟨plain, new⟩, wellNamedBelow_of_checkInside inside, named⟩, ?_⟩
        intro name member
        rcases List.mem_cons.mp member with rfl | member
        · exact unseen
        · intro seenBefore
          exact fresh name member (List.mem_cons_of_mem _ seenBefore)

end

/-- **A layout that passes its check is well named.** -/
theorem wellNamed_of_check {layout : Layout} (sound : layout.check = .ok ()) :
    WellNamed layout.fields := by
  rw [check] at sound
  obtain ⟨_, names, _⟩ := except_bind_eq_ok.mp sound
  exact (wellNamed_of_checkNames names).1

/-- What stands before a name in its dotted key. -/
def stem (base : String) : List Char :=
  if base.isEmpty then [] else base.toList ++ ['.']

/-- A dotted key is the stem of its base with the name behind it. -/
theorem toList_dotted (base name : String) :
    (dotted base name).toList = stem base ++ name.toList := by
  unfold dotted stem
  split
  · rfl
  · rw [String.toList_append, String.toList_append]
    rfl

/-- The stem goes on by a name and a point. -/
theorem stem_dotted {base name : String} (plain : isPlainName name = true) :
    stem (dotted base name) = stem base ++ name.toList ++ ['.'] := by
  have nonempty : ¬ (dotted base name).isEmpty = true := by
    intro empty
    have nothing : (dotted base name).toList = [] := by
      rw [String.isEmpty_iff.mp empty, String.toList_empty]
    rw [toList_dotted, List.append_eq_nil_iff, String.toList_eq_nil_iff] at nothing
    rw [isPlainName, nothing.2] at plain
    cases plain
  rw [stem, if_neg nonempty, toList_dotted]

/-- A rest of a key behind a name: nothing, or a point and more. -/
def Trails (tail : List Char) : Prop :=
  tail = [] ∨ tail.head? = some '.'

/-- A plain name in a key can be told from what follows it. -/
theorem name_eq_of_append {name other : String} {tail rest : List Char}
    (plain : isPlainName name = true) (plain' : isPlainName other = true)
    (trails : Trails tail) (trails' : Trails rest)
    (same : name.toList ++ tail = other.toList ++ rest) : name = other := by
  have front {word : String} {back : List Char} (plain : isPlainName word = true)
      (trails : Trails back) :
      (word.toList ++ back).takeWhile (· != '.') = word.toList := by
    have letters : ∀ c ∈ word.toList, (c != '.') = true := by
      intro c member
      rw [bne_iff_ne]
      rintro rfl
      simp [isPlainName, member] at plain
    rw [List.takeWhile_append_of_pos letters]
    rcases trails with rfl | point
    · simp
    · obtain ⟨more, rfl⟩ := List.head?_eq_some_iff.mp point
      simp
  have equal := congrArg (List.takeWhile (· != '.')) same
  rw [front plain trails, front plain' trails'] at equal
  exact String.toList_inj.mp equal

mutual

/-- A key of a field begins with the name of the field. -/
theorem key_of_mem_targetsOf {base key : String} :
    ∀ {field : Field}, (field.isHeader = false → isPlainName field.name = true) →
      WellNamedBelow field → key ∈ targetsOf base field →
      ∃ tail, Trails tail ∧ key.toList = stem base ++ field.name.toList ++ tail
  | .object name fields, plain, named, member => by
      rw [targetsOf] at member
      obtain ⟨inner, _, _, tail, _, spelled⟩ := key_of_mem_targets named member
      have plainName : isPlainName name = true := plain rfl
      rw [stem_dotted plainName] at spelled
      refine ⟨'.' :: (inner.toList ++ tail), .inr rfl, ?_⟩
      rw [spelled]
      simp [Field.name]
  | .string name, _, _, member | .bytes name, _, _, member | .scalars name _ _, _, _, member
  | .items name _ _, _, _, member => by
      rw [targetsOf, List.mem_singleton] at member
      subst member
      exact ⟨[], .inl rfl, by rw [toList_dotted, List.append_nil]; rfl⟩
  | .header .., _, _, member => absurd member List.not_mem_nil
  | .scalar .., _, _, member => absurd member List.not_mem_nil

/-- A key of a level begins with one of its names. -/
theorem key_of_mem_targets {base key : String} :
    ∀ {fields : List Field}, WellNamed fields → key ∈ targets base fields →
      ∃ name ∈ valueNames fields, isPlainName name = true ∧
        ∃ tail, Trails tail ∧ key.toList = stem base ++ name.toList ++ tail
  | [], _, member => absurd member List.not_mem_nil
  | field :: rest, named, member => by
      rw [WellNamed] at named
      obtain ⟨fresh, below, others⟩ := named
      rw [valueNames_cons]
      rcases List.mem_append.mp member with own | later
      · have plain (value : field.isHeader = false) := (fresh value).1
        obtain ⟨tail, trails, spelled⟩ := key_of_mem_targetsOf plain below own
        have value : ¬ field.isHeader = true := by
          intro header
          cases field with
          | header => exact absurd own List.not_mem_nil
          | _ => cases header
        rw [if_neg value]
        exact ⟨field.name, List.mem_cons_self, plain (Bool.eq_false_iff.mpr value), tail, trails,
          spelled⟩
      · obtain ⟨name, listed, found⟩ := key_of_mem_targets others later
        refine ⟨name, ?_, found⟩
        split
        next => exact listed
        next => exact List.mem_cons_of_mem _ listed

end

mutual

/-- No two headers in a field are for the same key. -/
theorem nodup_targetsOf {base : String} :
    ∀ {field : Field}, WellNamedBelow field → (targetsOf base field).Nodup
  | .object .., named => by
      rw [targetsOf]
      exact nodup_targets named
  | .string _, _ | .bytes _, _ | .scalars .., _ | .items .., _ => List.pairwise_singleton _ _
  | .header .., _ | .scalar .., _ => List.nodup_nil

/-- **No two fields of a level have the same key.** -/
theorem nodup_targets {base : String} :
    ∀ {fields : List Field}, WellNamed fields → (targets base fields).Nodup
  | [], _ => List.nodup_nil
  | field :: rest, named => by
      rw [WellNamed] at named
      obtain ⟨fresh, below, others⟩ := named
      rw [targets]
      refine List.nodup_append.mpr ⟨nodup_targetsOf below, nodup_targets others, ?_⟩
      rintro key own _ later rfl
      have value : field.isHeader = false := by
        cases field with
        | header => exact absurd own List.not_mem_nil
        | _ => rfl
      have plain (value : field.isHeader = false) := (fresh value).1
      obtain ⟨tail, trails, spelled⟩ := key_of_mem_targetsOf plain below own
      obtain ⟨name, listed, plainName, rest, trails', spelled'⟩ :=
        key_of_mem_targets others later
      rw [spelled, List.append_assoc, List.append_assoc] at spelled'
      have same := name_eq_of_append (plain value) plainName trails trails'
        (List.append_cancel_left spelled')
      exact (fresh value).2 (same ▸ listed)

end

end Relay.Layout
