import Relay.Proofs.Layout.Chained

/-! # What a message is decoded as

A level is read as what is found for its fields and as nothing else
(`Relay.Layout.yields_decodeFields`). So a message is decoded as an object if and only if the object
can be followed in it (`Relay.Layout.decode_iff_followed`). -/

namespace Relay.Layout

open Relay.Stream Relay.Frame.Header

variable {message : Bytes} {place : Nat} {group : List Field} {headers : HeaderValues}
  {base path : String} {filled : List (Field × List Value)}

/-- Whether a field that is no array is read as what is found for it. -/
def YieldsField (message : Bytes) (base path : String) (field : Field) : Prop :=
  ∀ (level : LevelRead) (place : Nat),
    (field.isHeader = false → field.name ∉ level.object.names) →
    Yields (decodeField base path level field) message place fun result stop =>
      ∃ own, Followed message base field level.headers place own result.headers stop ∧
        result.object = ⟨level.object.fields ++ own⟩

/-- Whether a level is read as what is found for it, behind the arrays that wait. -/
def YieldsLevel (message : Bytes) (base path : String) (fields : List Field) : Prop :=
  ∀ (group : List Field) (level : LevelRead) (place : Nat),
    (∀ field ∈ group, YieldsElement message field) →
    (level.object.names ++ group.map Field.name ++ valueNames fields).Nodup →
    Yields (decodeFields base path level (columnsOf level.headers base path group) fields) message
      place fun result stop => ∃ filled values, Fills level.headers base group filled ∧
        AllFollowed message base (strandsOf level.headers base filled) fields level.headers place
          values result.headers stop ∧
        result.object =
          ⟨level.object.fields ++ arraysOf (strandsOf level.headers base filled) ++ values⟩

section

variable {name : String} {field : Field} {fields rest : List Field}

/-- A value that is read goes behind the others. -/
theorem yields_insert {α : Type} {level : LevelRead} (fresh : name ∉ level.object.names)
    {read : Decode α} {has : α → Nat → Prop} (yields : Yields read message place has)
    (wrap : α → Value) :
    Yields (do
      let value ← read
      pure { level with object := level.object.insert name (wrap value) }) message place
        fun (result : LevelRead) stop => result.headers = level.headers ∧ ∃ value,
          has value stop ∧ result.object = ⟨level.object.fields ++ [(name, wrap value)]⟩ := by
  refine (yields.bind fun value _ _ => .pure _).congr fun result stop => ?_
  constructor
  · rintro ⟨value, _, holds, rfl, rfl⟩
    exact ⟨rfl, value, holds, insert_of_notMem fresh (wrap value)⟩
  · obtain ⟨headers, object⟩ := result
    rintro ⟨rfl, value, holds, rfl⟩
    exact ⟨value, stop, holds, by rw [insert_of_notMem fresh], rfl⟩

theorem yieldsField_header (kind : HeaderKind) (key : String) :
    YieldsField message base path (.header kind key) := by
  intro level place _
  rw [decodeField]
  refine ((yields_number _).bind fun value _ _ => .pure _).congr fun result stop => ?_
  simp only [Followed]
  constructor
  · rintro ⟨_, _, ⟨inside, rfl, rfl⟩, rfl, rfl⟩
    exact ⟨[], ⟨inside, rfl, rfl, rfl⟩, by rw [List.append_nil]⟩
  · obtain ⟨headers, object⟩ := result
    rintro ⟨_, ⟨inside, rfl, rfl, rfl⟩, rfl⟩
    exact ⟨_, _, ⟨inside, rfl, rfl⟩, by rw [List.append_nil], rfl⟩

theorem yieldsField_scalar (name : String) (type : Scalar) :
    YieldsField message base path (.scalar name type) := by
  intro level place fresh
  rw [decodeField]
  refine (yields_insert (fresh rfl) (yields_scalar type _) id).congr fun result stop => ?_
  simp only [Followed]
  constructor
  · rintro ⟨same, value, found, spelled⟩
    exact ⟨_, ⟨same, value, rfl, found⟩, spelled⟩
  · rintro ⟨_, ⟨same, value, rfl, found⟩, spelled⟩
    exact ⟨same, value, found, spelled⟩

/-- A text is read as what is found where it is. -/
theorem yieldsField_string (name : String) :
    YieldsField message base path (.string name) := by
  intro level place fresh
  have found (start : Nat) := yields_insert (fresh rfl)
    (yields_within (Steady.string message start) (dotted path name)) .string
  have inside (start : Nat) (result : LevelRead) (stop : Nat) (holds :
      result.headers = level.headers ∧ ∃ text, Reads False Read.string message start text stop ∧
        result.object = ⟨level.object.fields ++ [(name, .string text)]⟩) :
      start ≤ message.size := by
    obtain ⟨_, text, read, _⟩ := holds
    exact Nat.le_of_add_right_le read.string_inside
  rw [decodeField]
  refine (yields_seekTarget_bind found inside level.headers (dotted base name) _).congr
    fun result stop => ?_
  simp only [Followed]
  constructor
  · rintro ⟨start, sought, same, text, read, spelled⟩
    exact ⟨_, ⟨same, text, start, rfl, sought, read⟩, spelled⟩
  · rintro ⟨_, ⟨same, text, start, rfl, sought, read⟩, spelled⟩
    exact ⟨start, sought, same, text, read, spelled⟩

/-- A run of bytes that is not empty needs its place to exist. -/
theorem le_size_of_reads_bytes {count start stop : Nat} {run : Bytes}
    (found : Reads False (Read.bytes count) message start run stop) (filled : 0 < count) :
    start ≤ message.size := by
  have enough := ((Yields.bytes count).iff_reads.mpr found).1
  omega

/-- Bytes are read as what is found where they are. -/
theorem yieldsField_bytes (name : String) :
    YieldsField message base path (.bytes name) := by
  intro level place fresh
  have counted (start : Nat) : Yields (Read.bytes (countOf level.headers (dotted base name)))
      message start _ := (Yields.bytes _).steady
  have found (start : Nat) := yields_insert (fresh rfl)
    (yields_within (counted start) (dotted path name)) .bytes
  rw [decodeField]
  change Yields (do
    if 0 < countOf level.headers (dotted base name) then
      Decode.seekTarget level.headers (dotted base name) (dotted path name)
    let value ← Decode.within (dotted path name)
      (Read.bytes (countOf level.headers (dotted base name)))
    pure { level with object := level.object.insert name (.bytes value) }) message place _
  simp only [Followed]
  split
  next filled =>
    refine (yields_seekTarget_bind found (fun start result stop holds => ?_) level.headers
      (dotted base name) _).congr fun result stop => ?_
    · obtain ⟨_, run, read, _⟩ := holds
      exact le_size_of_reads_bytes read filled
    · constructor
      · rintro ⟨start, sought, same, run, read, spelled⟩
        exact ⟨_, ⟨same, run, start, rfl, sought, read⟩, spelled⟩
      · rintro ⟨_, ⟨same, run, start, rfl, sought, read⟩, spelled⟩
        exact ⟨start, sought, same, run, read, spelled⟩
  next =>
    refine (found place).congr fun result stop => ?_
    constructor
    · rintro ⟨same, run, read, spelled⟩
      exact ⟨_, ⟨same, run, place, rfl, rfl, read⟩, spelled⟩
    · rintro ⟨_, ⟨same, run, _, rfl, rfl, read⟩, spelled⟩
      exact ⟨same, run, read, spelled⟩

theorem fills_nil {filled : List (Field × List Value)} : Fills headers base [] filled ↔
    filled = [] := by
  constructor
  · exact fun fills => List.map_eq_nil_iff.mp fills.fields
  · rintro rfl
    exact ⟨rfl, fun _ member => absurd member List.not_mem_nil⟩

/-- A level behind no arrays. -/
theorem YieldsLevel.alone (yields : YieldsLevel message base path fields) (level : LevelRead)
    (fresh : (level.object.names ++ valueNames fields).Nodup) :
    Yields (decodeFields base path level [] fields) message place fun result stop => ∃ values,
      AllFollowed message base [] fields level.headers place values result.headers stop ∧
      result.object = ⟨level.object.fields ++ values⟩ := by
  refine (yields [] level place (by simp) (by simpa using fresh)).congr fun result stop => ?_
  simp [fills_nil, strandsOf, arraysOf]

/-- An object is read as what is found for its fields. -/
theorem yieldsField_object (named : WellNamed fields)
    (inner : YieldsLevel message (dotted base name) (dotted path name) fields) :
    YieldsField message base path (.object name fields) := by
  intro level place fresh
  have new : name ∉ level.object.names := fresh rfl
  rw [decodeField]
  refine ((inner.alone ⟨level.headers, .empty⟩ (nodup_valueNames named)).bind
    fun inside _ _ => .pure _).congr fun result stop => ?_
  simp only [Followed]
  constructor
  · rintro ⟨inside, _, ⟨values, followed, spelled⟩, rfl, rfl⟩
    refine ⟨_, ⟨values, rfl, followed⟩, ?_⟩
    rw [spelled]
    exact insert_of_notMem new _
  · obtain ⟨headers, object⟩ := result
    rintro ⟨_, ⟨values, rfl, followed⟩, rfl⟩
    exact ⟨⟨headers, ⟨values⟩⟩, stop, ⟨values, followed, rfl⟩,
      congrArg (LevelRead.mk headers) (insert_of_notMem new _).symm, rfl⟩

/-- A field that is no header and no array gives one value, under its name. -/
theorem names_of_followed {headers left : HeaderValues} {place stop : Nat}
    {own : List (String × Value)}
    (followed : Followed message base field headers place own left stop) :
    own.map Prod.fst = if field.isHeader then [] else [field.name] := by
  cases field with
  | header kind key =>
      rw [Followed] at followed
      rw [followed.2.2.1]
      rfl
  | scalar name type =>
      rw [Followed] at followed
      obtain ⟨_, value, rfl, _⟩ := followed
      rfl
  | string name =>
      rw [Followed] at followed
      obtain ⟨_, text, _, rfl, _⟩ := followed
      rfl
  | bytes name =>
      rw [Followed] at followed
      obtain ⟨_, run, _, rfl, _⟩ := followed
      rfl
  | object name fields =>
      rw [Followed] at followed
      obtain ⟨inner, rfl, _⟩ := followed
      rfl
  | scalars | items => exact followed.elim

theorem yieldsLevel_nil : YieldsLevel message base path [] := by
  intro group level place each fresh
  rw [decodeFields]
  refine (yields_chain each (List.nodup_append.mp fresh).1).congr fun result stop => ?_
  simp only [AllFollowed]
  constructor
  · rintro ⟨filled, fills, threaded, rfl⟩
    exact ⟨filled, [], fills, ⟨rfl, rfl, threaded⟩, by rw [List.append_nil]⟩
  · obtain ⟨headers, object⟩ := result
    rintro ⟨filled, _, fills, ⟨rfl, rfl, threaded⟩, rfl⟩
    exact ⟨filled, fills, threaded, by rw [List.append_nil]⟩

/-- Filled arrays of a group and one more are filled arrays, and one more that is filled. -/
theorem fills_append : Fills headers base (group ++ [field]) filled ↔ ∃ others items,
    filled = others ++ [(field, items)] ∧ Fills headers base group others ∧
      countOf headers (dotted base field.name) = items.length := by
  constructor
  · rintro ⟨fields, counts⟩
    obtain ⟨others, last, rfl, same, single⟩ := List.map_eq_append_iff.mp fields
    obtain ⟨⟨own, items⟩, rfl, rfl⟩ := List.map_eq_singleton_iff.mp single
    obtain ⟨front, here⟩ := List.forall_mem_append.mp counts
    exact ⟨others, items, rfl, ⟨same, front⟩, here _ List.mem_cons_self⟩
  · rintro ⟨others, items, rfl, ⟨rfl, front⟩, count⟩
    exact ⟨by simp, List.forall_mem_append.mpr ⟨front, List.forall_mem_singleton.mpr count⟩⟩

/-- One array is filled by as many items as its count says. -/
theorem fills_singleton : Fills headers base [field] filled ↔ ∃ items,
    filled = [(field, items)] ∧ countOf headers (dotted base field.name) = items.length := by
  have split : Fills headers base ([] ++ [field]) filled ↔ _ := fills_append
  simpa [fills_nil] using split

/-- The names of an object behind which filled arrays were put. -/
theorem names_append_strandsOf (object : Object) (fills : Fills headers base group filled) :
    (⟨object.fields ++ arraysOf (strandsOf headers base filled)⟩ : Object).names =
      object.names ++ group.map Field.name := by
  rw [← fills.fields]
  simp [Object.names, arraysOf, strandsOf, strandOf, Function.comp_def]

/-- An array that may share its chain joins those that wait. -/
theorem yieldsLevel_mixed (mixed : field.isMixed = true) (element : YieldsElement message field)
    (further : YieldsLevel message base path rest) :
    YieldsLevel message base path (field :: rest) := by
  have array := Field.isArray_of_isMixed mixed
  intro group level place each fresh
  rw [valueNames_cons, Field.isHeader_of_isArray array, if_neg Bool.false_ne_true] at fresh
  have joined := further (group ++ [field]) level place
    (List.forall_mem_append.mpr ⟨each, List.forall_mem_singleton.mpr element⟩)
    (by simpa using fresh)
  rw [decodeFields_mixed mixed]
  rw [columnsOf, List.map_append] at joined
  refine joined.congr fun result stop => ?_
  simp only [fills_append, AllFollowed, if_pos array, if_pos mixed]
  constructor
  · rintro ⟨_, values, ⟨others, items, rfl, fills, count⟩, followed, spelled⟩
    rw [strandsOf, List.map_append] at followed
    refine ⟨others, _, fills, ⟨items, values, rfl, count, followed⟩, ?_⟩
    rw [spelled]
    simp [strandsOf, arraysOf, strandOf]
  · rintro ⟨others, _, fills, ⟨items, values, rfl, count, followed⟩, spelled⟩
    refine ⟨_, values, ⟨others, items, rfl, fills, count⟩, ?_, ?_⟩
    · rw [strandsOf, List.map_append]
      exact followed
    · rw [spelled]
      simp [strandsOf, arraysOf, strandOf]

/-- An array that shares no chain is read behind those that wait. -/
theorem yieldsLevel_apart (array : field.isArray = true) (plain : field.isMixed = false)
    (element : YieldsElement message field) (further : YieldsLevel message base path rest) :
    YieldsLevel message base path (field :: rest) := by
  intro group level place each fresh
  rw [valueNames_cons, Field.isHeader_of_isArray array, if_neg Bool.false_ne_true] at fresh
  have alone (first : LevelRead) (place : Nat)
      (names : (first.object.names ++ [field.name]).Nodup) :
      Yields (Decode.chain (columnsOf first.headers base path [field]) first) message place _ :=
    yields_chain (List.forall_mem_singleton.mpr element) names
  rw [decodeFields_plain plain]
  simp only [decodeField_array array]
  refine ((yields_chain each (List.nodup_append.mp fresh).1).bind fun first middle holds =>
    (alone first middle ?_).bind fun second last done => further.alone second ?_).congr
      fun result stop => ?_
  · obtain ⟨filled, fills, _, rfl⟩ := holds
    rw [names_append_strandsOf _ fills]
    exact fresh.sublist (List.Sublist.append_left
      (List.singleton_sublist.mpr List.mem_cons_self) _)
  · obtain ⟨filled, fills, _, rfl⟩ := holds
    obtain ⟨own, fillsOwn, _, rfl⟩ := done
    rw [names_append_strandsOf _ fillsOwn, names_append_strandsOf _ fills]
    simpa using fresh
  · simp only [AllFollowed, if_pos array, plain, if_neg Bool.false_ne_true]
    constructor
    · rintro ⟨_, start, ⟨filled, fills, threaded, rfl⟩, _, middle, ⟨_, own, single, rfl⟩, values,
        followed, spelled⟩
      obtain ⟨items, rfl, count⟩ := fills_singleton.mp own
      refine ⟨filled, _, fills, ⟨items, values, rfl, count, start, middle, threaded, single,
        followed⟩, ?_⟩
      rw [spelled]
      simp [strandsOf, arraysOf, strandOf]
    · rintro ⟨filled, _, fills, ⟨items, values, rfl, count, start, middle, threaded, single,
        followed⟩, spelled⟩
      refine ⟨_, start, ⟨filled, fills, threaded, rfl⟩, _, middle,
        ⟨_, fills_singleton.mpr ⟨items, rfl, count⟩, single, rfl⟩, values, followed, ?_⟩
      rw [spelled]
      simp [strandsOf, arraysOf, strandOf]

/-- A field that is no array is read behind the arrays that wait. -/
theorem yieldsLevel_single (single : field.isArray = false)
    (own : YieldsField message base path field) (further : YieldsLevel message base path rest) :
    YieldsLevel message base path (field :: rest) := by
  intro group level place each fresh
  rw [valueNames_cons] at fresh
  rw [decodeFields_plain (Field.isMixed_of_isArray single)]
  refine ((yields_chain each (List.nodup_append.mp fresh).1).bind fun first middle holds =>
    (own first middle ?_).bind fun second last done => further.alone second ?_).congr
      fun result stop => ?_
  · obtain ⟨filled, fills, _, rfl⟩ := holds
    intro value member
    rw [names_append_strandsOf _ fills] at member
    rw [value, if_neg Bool.false_ne_true, List.nodup_append] at fresh
    exact fresh.2.2 _ member _ List.mem_cons_self rfl
  · obtain ⟨filled, fills, _, rfl⟩ := holds
    obtain ⟨held, followed, spelled⟩ := done
    have listed := names_of_followed followed
    have front := names_append_strandsOf level.object fills
    rw [Object.names] at front
    rw [spelled, Object.names, List.map_append, front, listed]
    split at fresh
    next header => simpa [header] using fresh
    next value => simpa [value] using fresh
  · simp only [AllFollowed, single, if_neg Bool.false_ne_true]
    constructor
    · rintro ⟨_, start, ⟨filled, fills, threaded, rfl⟩, second, middle, ⟨held, followed, rest⟩,
        values, others, spelled⟩
      refine ⟨filled, _, fills, ⟨held, values, start, middle, second.headers, rfl, threaded,
        followed, others⟩, ?_⟩
      rw [spelled, rest]
      simp
    · rintro ⟨filled, _, fills, ⟨held, values, start, middle, between, rfl, threaded, followed,
        others⟩, spelled⟩
      refine ⟨_, start, ⟨filled, fills, threaded, rfl⟩, ⟨between, ⟨_⟩⟩, middle,
        ⟨held, followed, rfl⟩, values, others, ?_⟩
      rw [spelled]
      simp

end

mutual

/-- **Every element is read as what is found for it.** -/
theorem yields_readElement : ∀ {field : Field}, field.isArray = true → WellNamedBelow field →
    YieldsElement message field
  | .scalars _ type _, _, _ => fun path _ => yields_scalar type path
  | .items _ fields _, _, named => by
      intro path place
      rw [WellNamedBelow] at named
      have level : YieldsLevel message "" path fields := yields_decodeFields named "" path
      refine ((level.alone ⟨⟨[]⟩, .empty⟩ (nodup_valueNames named)).bind
        fun inner _ _ => .pure _).congr fun value stop => ?_
      simp only [ElementFollowed]
      constructor
      · rintro ⟨inner, _, ⟨values, followed, spelled⟩, rfl, rfl⟩
        exact ⟨values, inner.headers, by rw [spelled]; rfl, followed⟩
      · rintro ⟨values, left, rfl, followed⟩
        exact ⟨⟨left, ⟨values⟩⟩, stop, ⟨values, followed, rfl⟩, rfl, rfl⟩
  | .header .., array, _ | .scalar .., array, _ | .string _, array, _ | .bytes _, array, _
  | .object .., array, _ => by cases array

/-- **Every field is read as what is found for it.** -/
theorem yields_decodeField : ∀ {field : Field}, field.isArray = false → WellNamedBelow field →
    ∀ (base path : String), YieldsField message base path field
  | .header kind key, _, _, _, _ => yieldsField_header kind key
  | .scalar name type, _, _, _, _ => yieldsField_scalar name type
  | .string name, _, _, _, _ => yieldsField_string name
  | .bytes name, _, _, _, _ => yieldsField_bytes name
  | .object name fields, _, named, base, path => by
      rw [WellNamedBelow] at named
      exact yieldsField_object named
        (yields_decodeFields named (dotted base name) (dotted path name))
  | .scalars .., array, _, _, _ | .items .., array, _, _, _ => by cases array

/-- **A level is read as what is found for its fields**, and as nothing else. -/
theorem yields_decodeFields : ∀ {fields : List Field}, WellNamed fields →
    ∀ (base path : String), YieldsLevel message base path fields
  | [], _, _, _ => yieldsLevel_nil
  | field :: rest, named, base, path => by
      rw [WellNamed] at named
      obtain ⟨_, below, others⟩ := named
      have further : YieldsLevel message base path rest := yields_decodeFields others base path
      by_cases array : field.isArray = true
      · have element : YieldsElement message field := yields_readElement array below
        by_cases mixed : field.isMixed = true
        · exact yieldsLevel_mixed mixed element further
        · exact yieldsLevel_apart array (Bool.eq_false_iff.mpr mixed) element further
      · have single : field.isArray = false := Bool.eq_false_iff.mpr array
        exact yieldsLevel_single single (yields_decodeField single below base path) further

end

variable {layout : Layout} {object : Object}

/-- A whole message is read as what is found for its layout behind its front. -/
theorem yields_readMessage (named : WellNamed layout.fields) :
    Yields layout.readMessage message 0 fun object stop => 4 ≤ message.size ∧
      ∃ left, AllFollowed message "" [] layout.fields ⟨[]⟩ 4 object.fields left stop := by
  have level : YieldsLevel message "" "" layout.fields := yields_decodeFields named "" ""
  have fields : Yields (do
      let level ← decodeFields "" "" ⟨⟨[]⟩, .empty⟩ [] layout.fields
      pure level.object) message Frame.Header.size fun object stop =>
        ∃ left, AllFollowed message "" [] layout.fields ⟨[]⟩ 4 object.fields left stop := by
    refine ((level.alone ⟨⟨[]⟩, .empty⟩ (nodup_valueNames named)).bind fun _ _ _ => .pure _).congr
      fun object stop => ?_
    constructor
    · rintro ⟨inner, _, ⟨values, followed, spelled⟩, rfl, rfl⟩
      rw [spelled]
      exact ⟨inner.headers, followed⟩
    · rintro ⟨left, followed⟩
      exact ⟨⟨left, object⟩, stop, ⟨object.fields, followed, rfl⟩, rfl, rfl⟩
  unfold readMessage
  refine .get_bind fun _ => .ite (fun small => .throw_bind _ fun _ _ holds => ?_) fun enough => ?_
  · exact Nat.not_lt.mpr holds.1 small
  · refine ((yields_within (.seek _) "").move_bind fields fun _ _ _ => Nat.not_lt.mp enough).congr
      fun object stop => ?_
    exact ⟨fun followed => ⟨Nat.not_lt.mp enough, followed⟩, fun holds => holds.2⟩

/-- A message is decoded as an object if it can be followed as this object. -/
theorem decode_eq_ok (named : WellNamed layout.fields) :
    (layout.decode message).1 = .ok object ↔ 4 ≤ message.size ∧
      ∃ left stop, AllFollowed message "" [] layout.fields ⟨[]⟩ 4 object.fields left stop := by
  rw [decode, Reader.ofBytes]
  have whole : Yields layout.readMessage message 0 _ := yields_readMessage named
  rcases whole #[] with
    ⟨found, last, later, result, only⟩ | ⟨⟨error, reader, failed⟩, none⟩
  · rw [result]
    constructor
    · rintro ⟨⟩
      obtain ⟨enough, left, followed⟩ := (only object last).mpr ⟨rfl, rfl⟩
      exact ⟨enough, left, last, followed⟩
    · rintro ⟨enough, left, stop, followed⟩
      rw [((only object stop).mp ⟨enough, left, followed⟩).1]
  · rw [failed]
    constructor
    · rintro ⟨⟩
    · rintro ⟨enough, left, stop, followed⟩
      exact (none object stop ⟨enough, left, followed⟩).elim

/-- **A message is decoded as the object that can be followed in it, and as no other.** Every chain
of it is exact, then: no message with a chain that is too short, too long or runs in a circle is
decoded. -/
theorem decode_iff_followed (sound : layout.check = .ok ()) (message : Bytes) (object : Object) :
    (layout.decode message).1 = .ok object ↔ 4 ≤ message.size ∧
      ∃ left stop, AllFollowed message "" [] layout.fields ⟨[]⟩ 4 object.fields left stop :=
  decode_eq_ok (wellNamed_of_check sound)

/-- Two arrays that share a chain. -/
def pairedLayout : Layout :=
  ⟨[.header .count "a", .header .offset "a", .header .count "b", .header .offset "b",
    .scalars "a" .byte true, .scalars "b" .byte true]⟩

/-- A message in which the chain goes on to an element that stands before its first one. -/
def backwardMessage : Bytes :=
  #[27, 0, 1, 0, 2, 0, 17, 0, 1, 0, 22, 0, 12, 0, 0, 0, 7, 17, 0, 22, 0, 5, 22, 0, 12, 0, 6]

theorem decode_iff_followed_backward :
    ∃ object, (pairedLayout.decode backwardMessage).1 = .ok object ∧
      ∃ left stop,
        AllFollowed backwardMessage "" [] pairedLayout.fields ⟨[]⟩ 4 object.fields left stop := by
  have some : (pairedLayout.decode backwardMessage).1.toOption.isSome = true := by
    decide +kernel
  obtain ⟨object, found⟩ := Option.isSome_iff_exists.mp some
  have decoded := eq_ok_of_toOption found
  exact ⟨object, decoded, ((decode_iff_followed rfl _ _).mp decoded).2⟩

end Relay.Layout
