import Relay.Proofs.Layout.Addressed
import Relay.Proofs.Layout.ReadBack

/-! # Where implied headers stand

A message and every element of an array are levels of their own; an object belongs to the level it
stands on. Placing headers on fields that have none puts at the front of each level the headers of
what is reached on it through objects, and no header anywhere else
(`Relay.Layout.placed_levels`). Without its headers the layout is what it was
(`Relay.Layout.withoutHeaders_placeHeaders`), and every header finds its target, so that only names
can be wrong with it (`Relay.Layout.naming_of_build_error`). -/

namespace Relay.Layout

/-! ## Levels, keys and dues -/

/-- The dotted key at the end of a way of names. -/
def keyOf (way : List String) : String :=
  way.foldl dotted ""

mutual

/-- What is found in one field: itself if it is a text, a run of bytes or an array, and in an object
what is found in its fields. It comes with the names on the way to it. -/
def reachedIn (way : List String) : Field → List (List String × Field)
  | .object name fields => reachedOn (way ++ [name]) fields
  | .string name => [(way ++ [name], .string name)]
  | .bytes name => [(way ++ [name], .bytes name)]
  | .scalars name type mixed => [(way ++ [name], .scalars name type mixed)]
  | .items name fields mixed => [(way ++ [name], .items name fields mixed)]
  | .header .. => []
  | .scalar .. => []

/-- What is found on a level through objects, depth first. -/
def reachedOn (way : List String) : List Field → List (List String × Field)
  | [] => []
  | field :: rest => reachedIn way field ++ reachedOn way rest

end

/-- The headers due to a field with a key: to an array its count and its offset, to a run of bytes
its offset and its count, to a text its offset. -/
def dueTo (key : String) : Field → List Field
  | .scalars .. => [.header .count key, .header .offset key]
  | .items .. => [.header .count key, .header .offset key]
  | .bytes _ => [.header .offset key, .header .count key]
  | .string _ => [.header .offset key]
  | _ => []

/-- The headers due on a level. -/
def dueOn (way : List String) (level : List Field) : List Field :=
  (reachedOn way level).flatMap fun (inner, field) => dueTo (keyOf inner) field

mutual

/-- The levels of the elements in one field. -/
def levelsIn : Field → List (List Field)
  | .object _ fields => levelsBelow fields
  | .items _ fields _ => fields :: levelsBelow fields
  | _ => []

/-- The levels of the elements of all arrays in some fields. -/
def levelsBelow : List Field → List (List Field)
  | [] => []
  | field :: rest => levelsIn field ++ levelsBelow rest

end

/-- All levels of a message: its own, and those of the elements of its arrays. -/
def levels (fields : List Field) : List (List Field) :=
  fields :: levelsBelow fields

mutual

/-- A field without the headers in it. -/
def fieldWithoutHeaders : Field → Field
  | .object name fields => .object name (withoutHeaders fields)
  | .items name fields mixed => .items name (withoutHeaders fields) mixed
  | field => field

/-- Fields without the headers among them, at all depths. -/
def withoutHeaders : List Field → List Field
  | [] => []
  | field :: rest =>
    if field.isHeader then withoutHeaders rest
    else fieldWithoutHeaders field :: withoutHeaders rest

end

theorem keyOf_concat (way : List String) (name : String) :
    keyOf (way ++ [name]) = dotted (keyOf way) name :=
  List.foldl_append

/-- Names that are dotted one after the other are joined by dots. -/
theorem foldl_dotted {base : String} (inside : base ≠ "") (names : List String) :
    names.foldl dotted base = ".".intercalate (base :: names) := by
  induction names generalizing base with
  | nil => rfl
  | cons name rest ih =>
      have joined : dotted base name = base ++ "." ++ name :=
        if_neg fun empty => inside (String.isEmpty_iff.mp empty)
      rw [List.foldl_cons, joined, ih (by simp)]
      rfl

/-- Of fields without headers none is one, and none has one below it. -/
theorem bare_cons {field : Field} {rest : List Field} (bare : anyHeader (field :: rest) = false) :
    field.isHeader = false ∧ anyHeader (below field) = false ∧ anyHeader rest = false := by
  rw [anyHeader, Bool.or_eq_false_iff] at bare
  obtain ⟨own, others⟩ := bare
  cases field with
  | header => cases own
  | object => exact ⟨rfl, own, others⟩
  | items => exact ⟨rfl, own, others⟩
  | _ => exact ⟨rfl, rfl, others⟩

/-- Without headers there are none on any level. -/
theorem bare_levels {fields : List Field} (bare : anyHeader fields = false) :
    ∀ level ∈ levels fields, anyHeader level = false := by
  have deeper : ∀ level ∈ levelsBelow fields, anyHeader level = false := by
    induction fields using induction_fields with
    | nil => exact List.forall_mem_nil _
    | cons field rest inside behind =>
        obtain ⟨_, within, others⟩ := bare_cons bare
        rw [levelsBelow]
        refine List.forall_mem_append.mpr ⟨?_, behind others⟩
        cases field with
        | object => exact inside within
        | items => exact List.forall_mem_cons.mpr ⟨within, inside within⟩
        | _ => exact List.forall_mem_nil _
  exact List.forall_mem_cons.mpr ⟨bare, deeper⟩

/-! ## The levels of what was placed -/

/-- The headers that are put in front of a level are those that are due on it. -/
theorem levelHeaders_eq_dueOn (fields : List Field) (way : List String) :
    levelHeaders (keyOf way) fields = dueOn way fields := by
  induction fields using induction_fields generalizing way with
  | nil => rfl
  | cons field rest inside behind =>
      have own : headersOf (keyOf way) field =
          (reachedIn way field).flatMap fun (inner, field) => dueTo (keyOf inner) field := by
        cases field with
        | object name fields =>
            rw [headersOf, reachedIn, ← keyOf_concat]
            exact inside (way ++ [name])
        | header => rfl
        | scalar => rfl
        | _ =>
            rw [headersOf, ← keyOf_concat, reachedIn]
            · rfl
            · nofun
      rw [levelHeaders, own, behind way, dueOn, dueOn, reachedOn, List.flatMap_append]

theorem levelHeaders_append (base : String) (front back : List Field) :
    levelHeaders base (front ++ back) = levelHeaders base front ++ levelHeaders base back := by
  induction front with
  | nil => rfl
  | cons field rest ih => rw [List.cons_append, levelHeaders, levelHeaders, ih, List.append_assoc]

/-- Headers have no headers of their own. -/
theorem levelHeaders_of_headers {headers : List Field} (base : String)
    (all : ∀ header ∈ headers, ∃ kind key, header = .header kind key) :
    levelHeaders base headers = [] := by
  induction headers with
  | nil => rfl
  | cons header rest ih =>
      obtain ⟨⟨kind, key, rfl⟩, others⟩ := List.forall_mem_cons.mp all
      rw [levelHeaders, ih others]
      rfl

/-- Headers of elements do not matter to those of their level. -/
theorem levelHeaders_allWithElementHeaders (base : String) (fields : List Field) :
    levelHeaders base (allWithElementHeaders fields) = levelHeaders base fields := by
  induction fields using induction_fields generalizing base with
  | nil => rfl
  | cons field rest inside behind =>
      rw [allWithElementHeaders, levelHeaders, levelHeaders, behind]
      congr 1
      cases field with
      | object name fields => exact inside (dotted base name)
      | _ => rfl

/-- Headers that stand there already do not matter to those that are due. -/
theorem levelHeaders_placeHeaders (fields : List Field) :
    levelHeaders "" (placeHeaders fields) = levelHeaders "" fields := by
  rw [placeHeaders, levelHeaders_append, levelHeaders_allWithElementHeaders,
    levelHeaders_of_headers "" fun _ => isHeader_of_mem_levelHeaders, List.nil_append]

theorem levelsBelow_append (front back : List Field) :
    levelsBelow (front ++ back) = levelsBelow front ++ levelsBelow back := by
  induction front with
  | nil => rfl
  | cons field rest ih => rw [List.cons_append, levelsBelow, levelsBelow, ih, List.append_assoc]

/-- There are no levels below headers. -/
theorem levelsBelow_of_headers {headers : List Field}
    (all : ∀ header ∈ headers, ∃ kind key, header = .header kind key) :
    levelsBelow headers = [] := by
  induction headers with
  | nil => rfl
  | cons header rest ih =>
      obtain ⟨⟨kind, key, rfl⟩, others⟩ := List.forall_mem_cons.mp all
      rw [levelsBelow, ih others]
      rfl

/-- Headers in front of a level do not matter to the levels below it. -/
theorem levelsBelow_placeHeaders (fields : List Field) :
    levelsBelow (placeHeaders fields) = levelsBelow (allWithElementHeaders fields) := by
  rw [placeHeaders, levelsBelow_append,
    levelsBelow_of_headers fun _ => isHeader_of_mem_levelHeaders, List.nil_append]

/-- Every level below gets its own headers in front. -/
theorem levelsBelow_allWithElementHeaders (fields : List Field) :
    levelsBelow (allWithElementHeaders fields) = (levelsBelow fields).map placeHeaders := by
  induction fields using induction_fields with
  | nil => rfl
  | cons field rest inside behind =>
      rw [allWithElementHeaders, levelsBelow, levelsBelow, List.map_append, behind]
      congr 1
      cases field with
      | object => exact inside
      | items name fields mixed =>
          have deeper := (levelsBelow_placeHeaders fields).trans inside
          exact congrArg (placeHeaders fields :: ·) deeper
      | _ => rfl

/-- **The levels of what was placed are the levels there were, with headers placed on each.** -/
theorem levels_placeHeaders (fields : List Field) :
    levels (placeHeaders fields) = (levels fields).map placeHeaders := by
  rw [levels, levels, List.map_cons, levelsBelow_placeHeaders, levelsBelow_allWithElementHeaders]

theorem headersOn_append (base : String) (front back : List Field) :
    headersOn base (front ++ back) = headersOn base front ++ headersOn base back := by
  induction front with
  | nil => rfl
  | cons field rest ih => rw [List.cons_append, headersOn, headersOn, ih, List.append_assoc]

/-- A level without headers gets none by those of the elements below it. -/
theorem headersOn_allWithElementHeaders {base : String} {fields : List Field}
    (bare : anyHeader fields = false) : headersOn base (allWithElementHeaders fields) = [] := by
  induction fields using induction_fields generalizing base with
  | nil => rfl
  | cons field rest inside behind =>
      obtain ⟨plain, within, others⟩ := bare_cons bare
      rw [allWithElementHeaders, headersOn, behind others, List.append_nil]
      cases field with
      | header => cases plain
      | object => exact inside within
      | _ => rfl

/-- A level with headers placed on it: what is due there, and then no header. -/
theorem placed_level {level : List Field} (bare : anyHeader level = false) :
    placeHeaders level = dueOn [] (placeHeaders level) ++ allWithElementHeaders level ∧
      headersOn "" (allWithElementHeaders level) = [] := by
  refine ⟨?_, headersOn_allWithElementHeaders bare⟩
  rw [← levelHeaders_eq_dueOn]
  exact congrArg (· ++ _) (levelHeaders_placeHeaders level).symm

/-- **Each level starts with the headers due on it, and no header stands anywhere else.** -/
theorem placed_levels {fields : List Field} (bare : anyHeader fields = false) :
    ∀ level ∈ levels (placeHeaders fields),
      ∃ rest, level = dueOn [] level ++ rest ∧ headersOn "" rest = [] := by
  rw [levels_placeHeaders]
  refine List.forall_mem_map.mpr fun level member => ?_
  exact ⟨_, placed_level (bare_levels bare level member)⟩

/-! ## Without the headers -/

theorem withoutHeaders_append (front back : List Field) :
    withoutHeaders (front ++ back) = withoutHeaders front ++ withoutHeaders back := by
  induction front with
  | nil => rfl
  | cons field rest ih =>
      rw [List.cons_append, withoutHeaders, withoutHeaders, ih]
      split
      · rfl
      · rfl

/-- Of headers alone nothing is left. -/
theorem withoutHeaders_of_headers {headers : List Field}
    (all : ∀ header ∈ headers, ∃ kind key, header = .header kind key) :
    withoutHeaders headers = [] := by
  induction headers with
  | nil => rfl
  | cons header rest ih =>
      obtain ⟨⟨kind, key, rfl⟩, others⟩ := List.forall_mem_cons.mp all
      exact ih others

/-- Headers in front of a level are left out again. -/
theorem withoutHeaders_placed (fields : List Field) :
    withoutHeaders (placeHeaders fields) = withoutHeaders (allWithElementHeaders fields) := by
  rw [placeHeaders, withoutHeaders_append,
    withoutHeaders_of_headers fun _ => isHeader_of_mem_levelHeaders, List.nil_append]

/-- Headers of elements are left out again. -/
theorem withoutHeaders_allWithElementHeaders {fields : List Field}
    (bare : anyHeader fields = false) : withoutHeaders (allWithElementHeaders fields) = fields := by
  induction fields using induction_fields with
  | nil => rfl
  | cons field rest inside behind =>
      obtain ⟨plain, within, others⟩ := bare_cons bare
      rw [allWithElementHeaders, withoutHeaders, behind others]
      cases field with
      | header => cases plain
      | object name fields => exact congrArg (Field.object name · :: rest) (inside within)
      | items name fields mixed =>
          have same := (withoutHeaders_placed fields).trans (inside within)
          exact congrArg (Field.items name · mixed :: rest) same
      | _ => rfl

/-- **Without its headers a layout is what it was before they were placed.** -/
theorem withoutHeaders_placeHeaders {fields : List Field} (bare : anyHeader fields = false) :
    withoutHeaders (placeHeaders fields) = fields :=
  (withoutHeaders_placed fields).trans (withoutHeaders_allWithElementHeaders bare)

/-! ## Every header finds its target -/

/-- The check of headers passes if all of them refer to what is known, and only then. -/
theorem checkHeaders_eq_ok {base path : String} {known : List String} {fields : List Field} :
    checkHeaders base path known fields = .ok () ↔
      ∀ header ∈ headersOn base fields, header.2 ∈ known := by
  induction fields using induction_fields generalizing base with
  | nil => exact ⟨fun _ => List.forall_mem_nil _, fun _ => rfl⟩
  | cons field rest inside behind =>
      have own : checkHeader base path known field = .ok () ↔
          ∀ header ∈ headersIn base field, header.2 ∈ known := by
        cases field with
        | header kind key =>
            rw [checkHeader, headersIn, List.forall_mem_singleton, ← List.contains_iff_mem]
            split
            next known => exact iff_of_true rfl known
            next unknown =>
              refine iff_of_false (fun passed => ?_) unknown
              cases passed
        | object name fields =>
            rw [checkHeader, headersIn]
            exact inside
        | _ => exact ⟨fun _ => List.forall_mem_nil _, fun _ => rfl⟩
      rw [checkHeaders, except_bind_eq_ok, headersOn, List.forall_mem_append, ← own, ← behind]
      constructor
      · rintro ⟨_, first, further⟩
        exact ⟨first, further⟩
      · rintro ⟨first, further⟩
        exact ⟨(), first, further⟩

theorem targets_append (base : String) (front back : List Field) :
    targets base (front ++ back) = targets base front ++ targets base back := by
  induction front with
  | nil => rfl
  | cons field rest ih => rw [List.cons_append, targets, targets, ih, List.append_assoc]

/-- Headers of elements do not matter to the targets of their level. -/
theorem targets_allWithElementHeaders (base : String) (fields : List Field) :
    targets base (allWithElementHeaders fields) = targets base fields := by
  induction fields using induction_fields generalizing base with
  | nil => rfl
  | cons field rest inside behind =>
      rw [allWithElementHeaders, targets, targets, behind]
      congr 1
      cases field with
      | object name fields => exact inside (dotted base name)
      | _ => rfl

/-- What headers are placed for is a target. -/
theorem target_of_mem_levelHeaders {base key : String} {kind : HeaderKind} {fields : List Field}
    (member : .header kind key ∈ levelHeaders base fields) : key ∈ targets base fields := by
  induction fields using induction_fields generalizing base with
  | nil => cases member
  | cons field rest inside behind =>
      rw [levelHeaders] at member
      rw [targets]
      rcases List.mem_append.mp member with own | later
      · refine List.mem_append_left _ ?_
        cases field with
        | header => cases own
        | scalar => cases own
        | object => exact inside own
        | _ =>
            obtain ⟨_, _, same⟩ := List.mem_map.mp own
            cases same
            exact List.mem_cons_self
      · exact List.mem_append_right _ (behind later)

/-- A header that is found among headers is one of them. -/
theorem mem_of_mem_headersOn {headers : List Field}
    (all : ∀ header ∈ headers, ∃ kind key, header = .header kind key) :
    ∀ found ∈ headersOn "" headers, .header found.1 found.2 ∈ headers := by
  induction headers with
  | nil => exact List.forall_mem_nil _
  | cons header rest ih =>
      obtain ⟨⟨kind, key, rfl⟩, others⟩ := List.forall_mem_cons.mp all
      refine List.forall_mem_cons.mpr ⟨List.mem_cons_self, fun found member => ?_⟩
      exact List.mem_cons_of_mem _ (ih others found member)

/-- On a level with headers placed on it, all of them refer to its fields. -/
theorem checkHeaders_placeHeaders {level : List Field} (bare : anyHeader level = false)
    (path : String) :
    checkHeaders "" path (targets "" (placeHeaders level)) (placeHeaders level) = .ok () := by
  refine checkHeaders_eq_ok.mpr fun found member => ?_
  have front : found ∈ headersOn "" (levelHeaders "" level) := by
    rwa [placeHeaders, headersOn_append, headersOn_allWithElementHeaders bare,
      List.append_nil] at member
  have placed := mem_of_mem_headersOn (fun _ => isHeader_of_mem_levelHeaders) found front
  rw [placeHeaders, targets_append, targets_allWithElementHeaders]
  exact List.mem_append_right _ (target_of_mem_levelHeaders placed)

/-- Whether a refusal is about a name. -/
def LayoutError.IsNaming (error : LayoutError) : Prop :=
  (∃ path, error = .duplicateField path) ∨ ∃ name, error = .invalidName name

/-- A step is refused by its first part, or by the second behind the first. -/
theorem except_bind_eq_error {ε α β : Type} {step : Except ε α} {next : α → Except ε β}
    {cause : ε} : (step >>= next) = .error cause ↔
      step = .error cause ∨ ∃ value, step = .ok value ∧ next value = .error cause := by
  cases step with
  | error other =>
      constructor
      · intro failed
        cases failed
        exact .inl rfl
      · rintro (failed | ⟨_, impossible, _⟩)
        · cases failed
          rfl
        · cases impossible
  | ok value =>
      constructor
      · intro failed
        exact .inr ⟨value, rfl, failed⟩
      · rintro (impossible | ⟨_, found, failed⟩)
        · cases impossible
        · cases found
          exact failed

/-- Where the headers of all elements refer to their level, only names can be wrong. -/
theorem naming_of_checkNames_error {path : String} {seen : List String} {fields : List Field}
    (known : ∀ level ∈ levelsBelow fields, ∀ path,
      checkHeaders "" path (targets "" level) level = .ok ())
    {error : LayoutError} (refused : checkNames path seen fields = .error error) :
    LayoutError.IsNaming error := by
  induction fields using induction_fields generalizing path seen with
  | nil => cases refused
  | cons field rest inside behind =>
      rw [levelsBelow, List.forall_mem_append] at known
      rw [checkNames] at refused
      split at refused
      next => exact behind known.2 refused
      next =>
        split at refused
        next =>
          cases refused
          exact .inr ⟨_, rfl⟩
        next =>
          split at refused
          next =>
            cases refused
            exact .inl ⟨_, rfl⟩
          next =>
            rcases except_bind_eq_error.mp refused with within | ⟨_, _, later⟩
            · cases field with
              | object name fields => exact inside known.1 within
              | items name fields mixed =>
                  obtain ⟨own, deeper⟩ := List.forall_mem_cons.mp known.1
                  rw [checkInside] at within
                  rcases except_bind_eq_error.mp within with names | ⟨_, _, headers⟩
                  · exact inside deeper names
                  · rw [own] at headers
                    cases headers
              | _ => cases within
            · exact behind known.2 later

/-- **Fields without headers are refused for their names only.** -/
theorem naming_of_build_error {fields : List Field} (bare : anyHeader fields = false)
    {error : LayoutError} (refused : build fields = .error error) :
    LayoutError.IsNaming error := by
  have placed : ofFields fields = ⟨placeHeaders fields⟩ := by
    rw [ofFields, bare]
    rfl
  have known : ∀ level ∈ levels (placeHeaders fields), ∀ path,
      checkHeaders "" path (targets "" level) level = .ok () := by
    rw [levels_placeHeaders]
    refine List.forall_mem_map.mpr fun level member => ?_
    exact checkHeaders_placeHeaders (bare_levels bare level member)
  obtain ⟨own, deeper⟩ := List.forall_mem_cons.mp known
  rw [build, placed] at refused
  rcases except_bind_eq_error.mp refused with unsound | ⟨_, _, impossible⟩
  · rcases except_bind_eq_error.mp unsound with names | ⟨_, _, headers⟩
    · exact naming_of_checkNames_error deeper names
    · rw [own] at headers
      cases headers
  · cases impossible

/-- **What placing headers does.** Take fields with no header at any depth. In the layout made of
them each level starts with the headers of the arrays, runs of bytes and texts reached on it through
objects, depth first and keyed by their dotted paths, and has no other; without its headers the
layout is what it was; it is settled; and what is refused is refused for a name. -/
theorem implied_headers (fields : List Field) (bare : anyHeader fields = false) :
    (∀ level ∈ levels (ofFields fields).fields, ∃ rest,
      level = dueOn [] level ++ rest ∧ headersOn "" rest = []) ∧
    withoutHeaders (ofFields fields).fields = fields ∧
    ofFields (ofFields fields).fields = ofFields fields ∧
    ∀ error, build fields = .error error →
      (∃ path, error = .duplicateField path) ∨ ∃ name, error = .invalidName name := by
  have placed : ofFields fields = ⟨placeHeaders fields⟩ := by
    rw [ofFields, bare]
    rfl
  refine ⟨?_, ?_, ofFields_ofFields fields, fun error => naming_of_build_error bare⟩
  · rw [placed]
    exact placed_levels bare
  · rw [placed]
    exact withoutHeaders_placeHeaders bare

/-- A text in an object in an array in an object, beside a run of bytes: one level for the message,
one for the elements of the array. -/
private def shelfFields : List Field :=
  [.object "shelf" [.items "books" [.object "cover" [.string "title"], .scalar "pages" .uint16]
    false, .string "label"], .bytes "stamp"]

theorem implied_headers_shelf :
    anyHeader shelfFields = false ∧
      levels (ofFields shelfFields).fields =
        [[.header .count "shelf.books", .header .offset "shelf.books",
          .header .offset "shelf.label", .header .offset "stamp", .header .count "stamp",
          .object "shelf" [.items "books" [.header .offset "cover.title",
            .object "cover" [.string "title"], .scalar "pages" .uint16] false, .string "label"],
          .bytes "stamp"],
        [.header .offset "cover.title", .object "cover" [.string "title"],
          .scalar "pages" .uint16]] ∧
      withoutHeaders (ofFields shelfFields).fields = shelfFields := by
  refine ⟨rfl, ?_, (implied_headers shelfFields rfl).2.1⟩
  rfl

end Relay.Layout
