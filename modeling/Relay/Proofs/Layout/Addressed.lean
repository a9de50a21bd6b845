import Relay.Proofs.Layout.Content

/-! # Headers ahead of their fields

An array is found by its count and its offset, a run of bytes by its count. A layout whose headers
are all ahead addresses whatever an object holds (`Relay.Layout.allAddressed_of_areAhead`). Placing
the implied headers puts all of them ahead (`Relay.Layout.headersAhead_placeHeaders`). In other
layouts an object may still be addressed: what is empty needs no header, and an array that joins a
chain is found without an offset, although not quietly. -/

namespace Relay.Layout

mutual

/-- The headers that a field is or contains, by kind and dotted key. -/
def headersIn (base : String) : Field → List (HeaderKind × String)
  | .header kind key => [(kind, dotted base key)]
  | .object name fields => headersOn (dotted base name) fields
  | _ => []

/-- The headers that stand on a level, by kind and dotted key. -/
def headersOn (base : String) : List Field → List (HeaderKind × String)
  | [] => []
  | field :: rest => headersIn base field ++ headersOn base rest

end

mutual

/-- Whether the headers that a field needs came before it: count and offset for an array, the count
for a run of bytes. The elements of an array are a level of their own. -/
def isAhead (known : List (HeaderKind × String)) (base : String) : Field → Bool
  | .bytes name => known.contains (.count, dotted base name)
  | .object name fields => areAhead known (dotted base name) fields
  | .scalars name _ _ =>
    known.contains (.count, dotted base name) && known.contains (.offset, dotted base name)
  | .items name fields _ =>
    known.contains (.count, dotted base name) && known.contains (.offset, dotted base name) &&
      areAhead [] "" fields
  | _ => true

/-- Whether the headers that the fields of a level need come before them. -/
def areAhead (known : List (HeaderKind × String)) (base : String) : List Field → Bool
  | [] => true
  | field :: rest => isAhead known base field && areAhead (known ++ headersIn base field) base rest

end

/-- Whether in a layout every array has a count and an offset, and every run of bytes a count,
placed before it in its level. -/
def headersAhead (layout : Layout) : Bool :=
  areAhead [] "" layout.fields

/-- Whether an array can be found: by its count and its offset, or, if that is remarked upon,
behind an array of its chain that comes first. -/
def Reached (quiet : Prop) (known : List (HeaderKind × String)) (key : String) (led : Bool)
    (item : Option Value) : Prop :=
  itemsIn item ≠ [] →
    (.count, key) ∈ known ∧ ((.offset, key) ∈ known ∨ (led = true ∧ ¬ quiet))

mutual

/-- Whether what is written of a field can be found. The field is led if an array of its chain with
elements came before it. -/
def Addressed (quiet : Prop) (known : List (HeaderKind × String)) (base : String) (led : Bool)
    (item : Option Value) : Field → Prop
  | .bytes name => (runIn item).size ≠ 0 → (.count, dotted base name) ∈ known
  | .object name fields =>
    AllAddressed quiet known (dotted base name) false (item.bind Value.object?) fields
  | .scalars name _ _ => Reached quiet known (dotted base name) led item
  | .items name fields _ =>
    Reached quiet known (dotted base name) led item ∧
      ∀ value ∈ itemsIn item, AllAddressed quiet [] "" false value.object? fields
  | _ => True

/-- Whether what is written of the fields of a level can be found. -/
def AllAddressed (quiet : Prop) (known : List (HeaderKind × String)) (base : String) (led : Bool)
    (object : Option Object) : List Field → Prop
  | [] => True
  | field :: rest =>
    Addressed quiet known base (led && field.isMixed) (under object field) field ∧
      AllAddressed quiet (known ++ headersIn base field) base
        (field.isMixed && (led || !(itemsIn (under object field)).isEmpty)) object rest

end

/-- Whether what is written of an element of an array can be found. -/
def ElementAddressed (quiet : Prop) (value : Value) : Field → Prop
  | .items _ fields _ => AllAddressed quiet [] "" false value.object? fields
  | _ => True

/-- An array can be found if its elements are reached and all in them can be found. -/
theorem addressed_array {quiet : Prop} {known : List (HeaderKind × String)} {base : String}
    {led : Bool} {item : Option Value} {field : Field} (array : field.isArray = true) :
    Addressed quiet known base led item field ↔
      Reached quiet known (dotted base field.name) led item ∧
        ∀ value ∈ itemsIn item, ElementAddressed quiet value field := by
  cases field with
  | scalars name type mixed =>
      rw [Addressed]
      exact ⟨fun reached => ⟨reached, fun _ _ => trivial⟩, And.left⟩
  | items name fields mixed =>
      rw [Addressed]
      rfl
  | _ => cases array

/-- An array contains no headers of its level. -/
theorem headersIn_array {base : String} {field : Field} (array : field.isArray = true) :
    headersIn base field = [] := by
  cases field with
  | scalars | items => rfl
  | _ => cases array

mutual

/-- What has its headers ahead of it can be found. -/
theorem addressed_of_isAhead {quiet : Prop} : ∀ {field : Field} {known base led item},
    isAhead known base field = true → Addressed quiet known base led item field
  | .bytes _, _, _, _, _, ahead => fun _ => List.contains_iff_mem.mp ahead
  | .object _ fields, _, _, _, _, ahead => by
      rw [isAhead] at ahead
      rw [Addressed]
      exact allAddressed_of_areAhead ahead
  | .scalars .., _, _, _, _, ahead => by
      rw [isAhead, Bool.and_eq_true] at ahead
      rw [Addressed]
      intro _
      exact ⟨List.contains_iff_mem.mp ahead.1, .inl (List.contains_iff_mem.mp ahead.2)⟩
  | .items _ fields _, _, _, _, _, ahead => by
      rw [isAhead, Bool.and_eq_true, Bool.and_eq_true] at ahead
      rw [Addressed]
      refine ⟨fun _ => ?_, fun _ _ => allAddressed_of_areAhead ahead.2⟩
      exact ⟨List.contains_iff_mem.mp ahead.1.1, .inl (List.contains_iff_mem.mp ahead.1.2)⟩
  | .header .., _, _, _, _, _ | .scalar .., _, _, _, _, _ | .string _, _, _, _, _, _ => trivial

/-- **Where all headers are ahead, everything is addressed.** -/
theorem allAddressed_of_areAhead {quiet : Prop} : ∀ {fields : List Field} {known base led object},
    areAhead known base fields = true → AllAddressed quiet known base led object fields
  | [], _, _, _, _, _ => trivial
  | field :: rest, _, _, _, _, ahead => by
      rw [areAhead, Bool.and_eq_true] at ahead
      rw [AllAddressed]
      exact ⟨addressed_of_isAhead ahead.1, allAddressed_of_areAhead ahead.2⟩

end

/-- The headers of some fields and others are ahead if those of the first ones are, and behind them
those of the others. -/
theorem areAhead_append (known : List (HeaderKind × String)) (base : String)
    (fields rest : List Field) :
    areAhead known base (fields ++ rest) =
      (areAhead known base fields && areAhead (known ++ headersOn base fields) base rest) := by
  induction fields generalizing known with
  | nil => simp [areAhead, headersOn]
  | cons field others ih =>
      rw [List.cons_append, areAhead, areAhead, ih, headersOn, List.append_assoc, Bool.and_assoc]

theorem dotted_empty (name : String) : dotted "" name = name := rfl

mutual

/-- What is put in front for a field is a header. -/
theorem isHeader_of_mem_headersOf {header : Field} : ∀ {field : Field} {base : String},
    header ∈ headersOf base field → ∃ kind key, header = .header kind key
  | .object name fields, base, member => by
      rw [headersOf] at member
      exact isHeader_of_mem_levelHeaders member
  | .header .., _, member | .scalar .., _, member => absurd member List.not_mem_nil
  | .string _, _, member | .bytes _, _, member | .scalars .., _, member
  | .items .., _, member => by
      obtain ⟨kind, _, rfl⟩ := List.mem_map.mp member
      exact ⟨kind, _, rfl⟩

/-- What is put in front of a level is a header. -/
theorem isHeader_of_mem_levelHeaders {header : Field} : ∀ {fields : List Field} {base : String},
    header ∈ levelHeaders base fields → ∃ kind key, header = .header kind key
  | [], _, member => absurd member List.not_mem_nil
  | field :: rest, base, member => by
      rw [levelHeaders] at member
      rcases List.mem_append.mp member with own | later
      · exact isHeader_of_mem_headersOf own
      · exact isHeader_of_mem_levelHeaders later

end

/-- Headers at the front of a level are ahead themselves, and known from there on. -/
theorem areAhead_of_headers {headers : List Field} (known : List (HeaderKind × String))
    (all : ∀ header ∈ headers, ∃ kind key, header = .header kind key) :
    areAhead known "" headers = true ∧
      ∀ kind key, .header kind key ∈ headers → (kind, key) ∈ headersOn "" headers := by
  induction headers generalizing known with
  | nil => exact ⟨rfl, fun _ _ member => absurd member List.not_mem_nil⟩
  | cons header rest ih =>
      obtain ⟨kind, key, rfl⟩ := all header List.mem_cons_self
      obtain ⟨ahead, listed⟩ := ih (known ++ headersIn "" (.header kind key))
        fun other member => all other (List.mem_cons_of_mem _ member)
      refine ⟨by rw [areAhead, ahead]; rfl, ?_⟩
      intro kind' key' member
      rw [headersOn, headersIn, dotted_empty]
      rcases List.mem_cons.mp member with same | member
      · cases same
        exact List.mem_append_left _ List.mem_cons_self
      · exact List.mem_append_right _ (listed kind' key' member)

/-- Headers need no headers, and all that are put in front are known behind them. -/
theorem areAhead_levelHeaders (fields : List Field) :
    areAhead [] "" (levelHeaders "" fields) = true ∧
      ∀ kind key, .header kind key ∈ levelHeaders "" fields →
        (kind, key) ∈ headersOn "" (levelHeaders "" fields) :=
  areAhead_of_headers [] fun _ member => isHeader_of_mem_levelHeaders member

mutual

/-- A field has its headers ahead of it once they are in its elements and in front of its level. -/
theorem isAhead_withElementHeaders : ∀ {field : Field} {known : List (HeaderKind × String)}
    {base : String}, (∀ kind key, .header kind key ∈ headersOf base field → (kind, key) ∈ known) →
    isAhead known base (withElementHeaders field) = true
  | .object name fields, known, base, listed => by
      rw [withElementHeaders, isAhead]
      rw [headersOf] at listed
      exact areAhead_allWithElementHeaders listed
  | .items name fields _, known, base, listed => by
      obtain ⟨front, inside⟩ := areAhead_levelHeaders fields
      rw [withElementHeaders, isAhead, Bool.and_eq_true, Bool.and_eq_true]
      refine ⟨⟨?_, ?_⟩, ?_⟩
      · exact List.contains_iff_mem.mpr (listed .count _ List.mem_cons_self)
      · exact List.contains_iff_mem.mpr
          (listed .offset _ (List.mem_cons_of_mem _ List.mem_cons_self))
      · rw [areAhead_append, front, Bool.true_and]
        exact areAhead_allWithElementHeaders inside
  | .bytes _, _, _, listed =>
    List.contains_iff_mem.mpr (listed .count _ (List.mem_cons_of_mem _ List.mem_cons_self))
  | .scalars .., _, _, listed => by
      refine Bool.and_eq_true_iff.mpr ⟨?_, ?_⟩
      · exact List.contains_iff_mem.mpr (listed .count _ List.mem_cons_self)
      · exact List.contains_iff_mem.mpr
          (listed .offset _ (List.mem_cons_of_mem _ List.mem_cons_self))
  | .header .., _, _, _ | .scalar .., _, _, _ | .string _, _, _, _ => rfl

/-- Fields have their headers ahead of them once they are in their elements and in front of their
level. -/
theorem areAhead_allWithElementHeaders : ∀ {fields : List Field}
    {known : List (HeaderKind × String)} {base : String},
    (∀ kind key, .header kind key ∈ levelHeaders base fields → (kind, key) ∈ known) →
    areAhead known base (allWithElementHeaders fields) = true
  | [], _, _, _ => rfl
  | field :: rest, known, base, listed => by
      rw [levelHeaders] at listed
      rw [allWithElementHeaders, areAhead, Bool.and_eq_true]
      refine ⟨isAhead_withElementHeaders fun kind key member => ?_,
        areAhead_allWithElementHeaders fun kind key member => ?_⟩
      · exact listed kind key (List.mem_append_left _ member)
      · exact List.mem_append_left _ (listed kind key (List.mem_append_right _ member))

end

/-- **Implied headers are ahead.** -/
theorem headersAhead_placeHeaders (fields : List Field) :
    headersAhead ⟨placeHeaders fields⟩ = true := by
  obtain ⟨front, inside⟩ := areAhead_levelHeaders fields
  rw [headersAhead, placeHeaders, areAhead_append, front, Bool.true_and]
  exact areAhead_allWithElementHeaders inside

/-- A layout that is built from fields without headers is sound and has all headers ahead. -/
theorem headersAhead_of_build {fields : List Field} {layout : Layout}
    (bare : anyHeader fields = false) (built : build fields = .ok layout) :
    layout.check = .ok () ∧ headersAhead layout = true := by
  have placed : ofFields fields = ⟨placeHeaders fields⟩ := by
    rw [ofFields, bare]
    rfl
  obtain ⟨_, sound, same⟩ := except_bind_eq_ok.mp built
  cases same
  exact ⟨sound, placed ▸ headersAhead_placeHeaders fields⟩

end Relay.Layout
