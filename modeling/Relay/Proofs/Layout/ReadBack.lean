import Relay.Proofs.Layout.Names
import Relay.Proofs.Layout.Rebuilt

/-! # The text of a layout is read back

A layout is read back from its text if its names are words and it is settled, so that reading it
implies no more headers (`Relay.Layout.parse_render_iff`). The layouts that are read from some text
have names that are words (`Relay.Layout.worded_parse`), whatever is wrong with the text, and all
layouts are settled that are made of fields (`Relay.Layout.ofFields_ofFields`). -/

namespace Relay.Layout

open Text

/-! ## Settled layouts -/

/-- Some fields and others have a header if the first ones or the others have one. -/
theorem anyHeader_append (front back : List Field) :
    anyHeader (front ++ back) = (anyHeader front || anyHeader back) := by
  induction front with
  | nil => rfl
  | cons field rest ih => rw [List.cons_append, anyHeader, anyHeader, ih, Bool.or_assoc]

/-- Headers are implied, or none of the fields has something to imply. -/
theorem anyHeader_levelHeaders (base : String) (fields : List Field) :
    anyHeader (levelHeaders base fields) = true ∨
      levelHeaders base fields = [] ∧ allWithElementHeaders fields = fields := by
  induction fields using induction_fields generalizing base with
  | nil => exact .inr ⟨rfl, rfl⟩
  | cons field rest inside behind =>
      have own : anyHeader (headersOf base field) = true ∨
          headersOf base field = [] ∧ withElementHeaders field = field := by
        cases field with
        | object name fields =>
            exact (inside (dotted base name)).imp_right fun ⟨bare, same⟩ =>
              ⟨bare, congrArg (Field.object name) same⟩
        | header => exact .inr ⟨rfl, rfl⟩
        | scalar => exact .inr ⟨rfl, rfl⟩
        | _ => exact .inl rfl
      rw [levelHeaders, anyHeader_append, allWithElementHeaders]
      rcases own with implied | ⟨bare, same⟩
      · exact .inl (by rw [implied, Bool.true_or])
      · rw [bare, same]
        exact (behind base).imp_right fun ⟨others, unchanged⟩ =>
          ⟨others, congrArg (field :: ·) unchanged⟩

/-- **A layout that was made of fields is settled.** Its headers are not placed again. -/
theorem ofFields_ofFields (fields : List Field) :
    ofFields (ofFields fields).fields = ofFields fields := by
  have placed : ofFields (placeHeaders fields) = ⟨placeHeaders fields⟩ := by
    rcases anyHeader_levelHeaders "" fields with implied | ⟨bare, same⟩
    · have written : anyHeader (placeHeaders fields) = true := by
        rw [placeHeaders, anyHeader_append, implied, Bool.true_or]
      exact if_pos written
    · have unchanged : placeHeaders fields = fields := by
        rw [placeHeaders, bare, same, List.nil_append]
      rw [unchanged, ofFields, unchanged, ite_self]
  by_cases written : anyHeader fields = true
  · have kept : ofFields fields = ⟨fields⟩ := if_pos written
    rw [kept, kept]
  · have implied : ofFields fields = ⟨placeHeaders fields⟩ := if_neg written
    rw [implied, placed]

/-! ## Names that are words -/

/-- Fields are worded if every one is named by a word, and so are those below it. -/
theorem worded_iff {fields : List Field} :
    Worded fields ↔ ∀ field ∈ fields, IsWord field.name.toList ∧ Worded (below field) := by
  induction fields with
  | nil => exact ⟨fun _ => List.forall_mem_nil _, fun _ => worded_nil⟩
  | cons field rest ih => rw [worded_cons, ih, List.forall_mem_cons, and_assoc]

theorem worded_append {front back : List Field} :
    Worded (front ++ back) ↔ Worded front ∧ Worded back := by
  rw [worded_iff, worded_iff, worded_iff, List.forall_mem_append]

theorem worded_headers {key : String} (named : IsWord key.toList) (kinds : List HeaderKind) :
    Worded (kinds.map (.header · key)) :=
  worded_iff.mpr (List.forall_mem_map.mpr fun _ _ => ⟨named, worded_nil⟩)

/-- The dotted key of words is a word. -/
theorem isWord_dotted {base name : String} (inside : base = "" ∨ IsWord base.toList)
    (named : IsWord name.toList) : IsWord (dotted base name).toList := by
  rcases inside with rfl | ⟨_, plain⟩
  · exact named
  · rw [toList_dotted]
    refine ⟨List.append_ne_nil_of_right_ne_nil _ named.1, ?_⟩
    rw [List.forall_mem_append]
    refine ⟨?_, named.2⟩
    unfold stem
    split
    next => exact List.forall_mem_nil _
    next =>
      rw [List.forall_mem_append, List.forall_mem_singleton]
      exact ⟨plain, by decide⟩

/-- The headers in front of worded fields are worded. -/
theorem worded_levelHeaders {base : String} {fields : List Field}
    (inside : base = "" ∨ IsWord base.toList) (named : Worded fields) :
    Worded (levelHeaders base fields) := by
  induction fields using induction_fields generalizing base with
  | nil => exact worded_nil
  | cons field rest within behind =>
      obtain ⟨own, deeper, others⟩ := worded_cons.mp named
      have key : IsWord (dotted base field.name).toList := isWord_dotted inside own
      rw [levelHeaders, worded_append]
      refine ⟨?_, behind inside others⟩
      cases field with
      | object => exact within (.inr key) deeper
      | _ => exact worded_headers key _

/-- To put headers into the elements of worded fields leaves them worded. -/
theorem worded_allWithElementHeaders {fields : List Field} (named : Worded fields) :
    Worded (allWithElementHeaders fields) := by
  induction fields using induction_fields with
  | nil => exact worded_nil
  | cons field rest within behind =>
      obtain ⟨own, deeper, others⟩ := worded_cons.mp named
      rw [allWithElementHeaders, worded_cons]
      cases field with
      | object => exact ⟨own, within deeper, behind others⟩
      | items =>
          have placed := worded_append.mpr
            ⟨worded_levelHeaders (.inl rfl) deeper, within deeper⟩
          exact ⟨own, placed, behind others⟩
      | _ => exact ⟨own, deeper, behind others⟩

/-- A layout of worded fields is worded. -/
theorem worded_ofFields {fields : List Field} (named : Worded fields) :
    Worded (ofFields fields).fields := by
  rw [ofFields]
  split
  next => exact named
  next =>
    exact worded_append.mpr
      ⟨worded_levelHeaders (.inl rfl) named, worded_allWithElementHeaders named⟩

/-! ## Names of what is read -/

namespace Line

/-- The name of a line is one of its words. -/
theorem name_mem_ofTokens {depth : Nat} {tokens : List (List Char)} {line : Line}
    (parts : ofTokens depth tokens = some line) : line.name ∈ tokens := by
  unfold ofTokens at parts
  split at parts
  next typeToken name =>
    obtain ⟨_, _, rest⟩ := Option.bind_eq_some_iff.mp parts
    cases rest
    exact List.mem_cons_of_mem _ List.mem_cons_self
  next typeToken flagToken name =>
    obtain ⟨_, _, rest⟩ := Option.bind_eq_some_iff.mp parts
    obtain ⟨_, _, rest⟩ := Option.bind_eq_some_iff.mp rest
    cases rest
    exact List.mem_cons_of_mem _ (List.mem_cons_of_mem _ List.mem_cons_self)
  next => cases parts

/-- The name of a line is a word, whatever the line is. -/
theorem isWord_name {raw : List Char} {line : Line} (found : read raw = some (.ok line)) :
    IsWord line.name := by
  unfold read at found
  simp only at found
  split at found
  next => cases found
  next =>
    split at found
    next line parts =>
      cases found
      obtain ⟨nonempty, plain⟩ := of_mem_words (name_mem_ofTokens parts)
      refine ⟨nonempty, fun c member => ⟨(plain c member).1, ?_⟩⟩
      have kept : c ∈ dropComment raw :=
        (sublist_trim _).subset ((List.dropWhile_sublist _).subset (plain c member).2)
      simpa using List.mem_takeWhile_imp kept
    next => cases found

/-- What a line that is understood stands for, told by its type: headers under its name, an array or
an object that it opens, or one field that has its name and is neither a header nor has fields of
its own. -/
inductive Stands (line : Line) : Meaning → Prop
  | headers {kinds : List HeaderKind}
      (header : headerTypes.lookup (String.ofList line.type) = some kinds) :
      Stands line (.fields (kinds.map (.header · (String.ofList line.name))))
  | array (mixed : Bool) (type : String.ofList line.type = "array") (bare : line.element = none) :
      Stands line (.opening (.array mixed))
  | object (type : String.ofList line.type = "object") : Stands line (.opening .object)
  | plain {field : Field} (other : headerTypes.lookup (String.ofList line.type) = none)
      (shut : ¬ (String.ofList line.type = "array" ∧ line.element = none))
      (apart : String.ofList line.type ≠ "object") (name : field.name = String.ofList line.name)
      (flat : below field = []) (own : mentionsHeader field = false) :
      Stands line (.fields [field])

/-- **What a line stands for is told by its type.** -/
theorem stands_meaning {line : Line} {meaning : Meaning} (meant : line.meaning = .ok meaning) :
    Stands line meaning := by
  obtain ⟨mixed, _, meant⟩ := except_bind_eq_ok.mp meant
  split at meant
  next element nested =>
    simp only [ne_eq, ite_not] at meant
    split at meant
    next array =>
      split at meant
      next => cases meant
      next =>
        cases meant
        refine .plain ?_ ?_ ?_ rfl rfl rfl
        · rw [array]; rfl
        · rw [nested]; exact fun bare => nomatch bare.2
        · rw [array]; decide
    next => cases meant
  next bare =>
    split at meant
    next header =>
      cases meant
      exact .headers header
    next scalar other known =>
      cases meant
      refine .plain other ?_ ?_ rfl rfl rfl
      · rintro ⟨array, _⟩; rw [array] at known; cases known
      · intro object; rw [object] at known; cases known
    next other _ =>
      split at meant
      next array =>
        cases meant
        exact .array mixed array bare
      next noArray =>
        split at meant
        next object =>
          cases meant
          exact .object object
        next noObject =>
          have shut : ¬ (String.ofList line.type = "array" ∧ line.element = none) :=
            fun array => noArray array.1
          split at meant
          next =>
            cases meant
            exact .plain other shut noObject rfl rfl rfl
          next =>
            split at meant
            next =>
              cases meant
              exact .plain other shut noObject rfl rfl rfl
            next => cases meant

/-- Fields that a line stands for have its name, and none of their own. -/
theorem of_mem_meaning {line : Line} {fields : List Field}
    (meant : line.meaning = .ok (.fields fields)) :
    ∀ field ∈ fields, field.name = String.ofList line.name ∧ below field = [] := by
  cases stands_meaning meant with
  | headers => exact List.forall_mem_map.mpr fun _ _ => ⟨rfl, rfl⟩
  | plain _ _ _ name flat => exact List.forall_mem_singleton.mpr ⟨name, flat⟩

end Line

namespace Draft

variable {root : List Field} {opened : List OpenField} {draft : Draft} {fields : List Field}

/-- Whether the names in the fields so far and in the open fields are words. -/
structure WordedIn (root : List Field) (opened : List OpenField) : Prop where
  root : Worded root
  opened : ∀ level ∈ opened, IsWord level.name.toList ∧ Worded level.fields

/-- An open field that is worded is so when it is closed. -/
theorem worded_close {level : OpenField}
    (named : IsWord level.name.toList ∧ Worded level.fields) : Worded [level.close] := by
  obtain ⟨opening, name, fields⟩ := level
  cases opening with
  | object => exact worded_cons.mpr ⟨named.1, named.2, worded_nil⟩
  | array => exact worded_cons.mpr ⟨named.1, named.2, worded_nil⟩

/-- Worded fields can be put into a draft that is worded. -/
theorem WordedIn.addFields (inside : WordedIn root opened) (named : Worded fields) :
    WordedIn (addFields root opened fields).1 (addFields root opened fields).2 := by
  cases opened with
  | nil => exact ⟨worded_append.mpr ⟨inside.root, named⟩, inside.opened⟩
  | cons level rest =>
      obtain ⟨⟨own, before⟩, others⟩ := List.forall_mem_cons.mp inside.opened
      exact ⟨inside.root, List.forall_mem_cons.mpr
        ⟨⟨own, worded_append.mpr ⟨before, named⟩⟩, others⟩⟩

/-- To close fields leaves a draft worded. -/
theorem WordedIn.closeTo (kept : Nat) (inside : WordedIn root opened) :
    WordedIn (closeTo kept root opened).1 (closeTo kept root opened).2 := by
  induction opened using closeTo.induct kept with
  | case1 => rwa [closeTo_nil]
  | case2 level many =>
      have last := worded_close (inside.opened level List.mem_cons_self)
      rw [closeTo_cons (Nat.le_of_lt_succ many), Draft.addFields, closeTo_nil]
      exact ⟨worded_append.mpr ⟨inside.root, last⟩, List.forall_mem_nil _⟩
  | case3 level parent others many ih =>
      obtain ⟨innermost, behind⟩ := List.forall_mem_cons.mp inside.opened
      rw [closeTo_cons (Nat.le_of_lt_succ many)]
      exact ih (WordedIn.addFields ⟨inside.root, behind⟩ (worded_close innermost))
  | case4 level rest few => rwa [closeTo_of_le (Nat.le_of_not_lt few)]

/-- A line named by a word leaves a draft worded. -/
theorem worded_place {line : Line} {meaning : Meaning} (depth : Nat)
    (inside : WordedIn draft.root draft.opened) (named : IsWord line.name)
    (meant : line.meaning = .ok meaning) :
    WordedIn (draft.place depth (String.ofList line.name) meaning).root
      (draft.place depth (String.ofList line.name) meaning).opened := by
  have closed := inside.closeTo depth
  have own : IsWord (String.ofList line.name).toList := by rwa [String.toList_ofList]
  cases meaning with
  | opening opening =>
      exact ⟨closed.root, List.forall_mem_cons.mpr ⟨⟨own, worded_nil⟩, closed.opened⟩⟩
  | fields fields =>
      have words : Worded fields := by
        refine worded_iff.mpr fun field member => ?_
        obtain ⟨name, alone⟩ := Line.of_mem_meaning meant field member
        rw [name, alone]
        exact ⟨own, worded_nil⟩
      exact closed.addFields words

/-- A line of text leaves only words behind, be it left out or not. -/
theorem worded_addRaw (origin : String) (numbered : List Char × Nat)
    (inside : WordedIn draft.root draft.opened) :
    WordedIn (draft.addRaw origin numbered).root (draft.addRaw origin numbered).opened := by
  obtain ⟨raw, number⟩ := numbered
  rw [addRaw]
  split
  next => exact inside
  next => exact inside
  next line found =>
    have noted : WordedIn (draft.noteHeader origin number line).root
        (draft.noteHeader origin number line).opened := by
      rw [noteHeader]
      split <;> exact inside
    have named := Line.isWord_name found
    rw [add]
    split
    next => exact noted
    next meaning meant =>
      simp only
      split
      next =>
        split
        next => exact noted
        next => exact worded_place _ noted named meant
      next => exact worded_place _ noted named meant

end Draft

/-- **Names that are read are words**, whatever the text is. -/
theorem worded_parse (source origin : String) :
    Worded (parse source origin).1.layout.fields := by
  have run : ∀ (texts : List (List Char × Nat)) (draft : Draft),
      Draft.WordedIn draft.root draft.opened →
        Draft.WordedIn (texts.foldl (Draft.addRaw origin) draft).root
          (texts.foldl (Draft.addRaw origin) draft).opened := by
    intro texts
    induction texts with
    | nil => exact fun _ inside => inside
    | cons text rest ih => exact fun _ inside => ih _ (Draft.worded_addRaw origin text inside)
  have last := run ((lines source.toList).zipIdx 1) .start ⟨worded_nil, List.forall_mem_nil _⟩
  exact worded_ofFields (last.closeTo 0).root

/-! ## Texts and layouts -/

/-- The layouts at hand: those that are read from a text, sound or not, and the sound ones that are
built from fields named by words. -/
inductive Given : Layout → Prop
  | read (source origin : String) : Given (parse source origin).1.layout
  | built {fields : List Field} {layout : Layout} (named : Worded fields)
      (sound : build fields = .ok layout) : Given layout

variable {layout : Layout}

/-- A layout that is built is that of the fields it is built from. -/
theorem eq_ofFields_of_build {fields : List Field} (sound : build fields = .ok layout) :
    layout = ofFields fields := by
  obtain ⟨_, _, same⟩ := except_bind_eq_ok.mp sound
  cases same
  rfl

/-- Every layout at hand is worded. -/
theorem Given.worded (given : Given layout) : Worded layout.fields := by
  cases given with
  | read source origin => exact worded_parse source origin
  | built named sound =>
      rw [eq_ofFields_of_build sound]
      exact worded_ofFields named

/-- Every layout at hand has its headers in place already. -/
theorem Given.settled (given : Given layout) : ofFields layout.fields = layout := by
  cases given with
  | read source origin => exact ofFields_ofFields _
  | built named sound =>
      rw [eq_ofFields_of_build sound]
      exact ofFields_ofFields _

/-- **A settled layout is read back from its text** if its names are words, and no line of the text
is left out. No other layout is. -/
theorem parse_render_iff (origin : String) : (parse layout.render origin).1 = ⟨layout, []⟩ ↔
    Worded layout.fields ∧ ofFields layout.fields = layout := by
  constructor
  · intro same
    have given : Given layout := by
      have read := Given.read layout.render origin
      rwa [same] at read
    exact ⟨given.worded, given.settled⟩
  · rintro ⟨named, settled⟩
    obtain ⟨whole, none⟩ := Draft.finish_takes origin named
    rw [parse, lines_render named]
    have fields : ((allLinesOf 0 layout.fields).zipIdx 1).foldl (Draft.addRaw origin) .start =
        Draft.takes origin 1 (allLinesOf 0 layout.fields) .start := rfl
    simp only [fields, whole, none, settled]

/-- **The text of a layout tells the layout.** This goes for every layout that was read, whatever
was wrong with the text it was read from, and for every layout that was built from fields named by
words. -/
theorem parse_render_given (given : Given layout) (origin : String) :
    (parse layout.render origin).1 = ⟨layout, []⟩ :=
  (parse_render_iff origin).mpr ⟨given.worded, given.settled⟩

/-- Fields with an array in an array that shares a chain, and an object without fields. -/
def nestedFields : List Field :=
  [.object "camp" [.scalars "marks" .uint16 true,
    .items "folk" [.items "kin" [.string "name"] true, .object "none" []] true], .bytes "note"]

/-- A text with lines that are left out or lie too deep, whose layout is not sound. -/
def brokenText : String :=
  "-- string a\narray b\n- object c\n---- int16 d\nobject #\n- int16 [interleaved] e\nstring b\n"

theorem parse_render_given_sample :
    (parse (ofFields nestedFields).render "nested").1 = ⟨ofFields nestedFields, []⟩ ∧
      (parse (parse brokenText "broken").1.layout.render "mended").1 =
        ⟨(parse brokenText "broken").1.layout, []⟩ := by
  have sound : build nestedFields = .ok (ofFields nestedFields) := rfl
  exact ⟨parse_render_given (.built (by decide : Worded nestedFields) sound) "nested",
    parse_render_given (.read brokenText "broken") "mended"⟩

end Relay.Layout
