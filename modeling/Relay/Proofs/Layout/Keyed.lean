import Relay.Proofs.Layout.Levels
import Relay.Proofs.Layout.Placed
import Relay.Proofs.Stream.Finds

/-! # Keys of headers

A layout passes its check if its names are plain and distinct wherever fields stand together, and
every header is keyed to something of its level that has headers; and only then. In such a layout a
dotted key leads to one text, run of bytes or array of a level. While the level is written or read,
the headers that are reserved or known are kept by their keys, so that each of them belongs to one
of these (`Relay.Layout.unambiguous_of_check`). -/

namespace Relay.Layout

open Relay.Stream Encode Decode

/-! ## What a sound layout is -/

mutual

/-- The fields that stand together in one field, at all depths. -/
def scopesIn : Field → List (List Field)
  | .object _ fields => fields :: scopesBelow fields
  | .items _ fields _ => fields :: scopesBelow fields
  | _ => []

/-- The fields that stand together in objects and in the elements of arrays, at all depths. -/
def scopesBelow : List Field → List (List Field)
  | [] => []
  | field :: rest => scopesIn field ++ scopesBelow rest

end

/-- All fields that stand together: those of a message, and those in its objects and in the elements
of its arrays. -/
def scopes (fields : List Field) : List (List Field) :=
  fields :: scopesBelow fields

/-- Whether the values among fields have names that are not empty, have no point and are
distinct. -/
structure NamesApart (fields : List Field) : Prop where
  plain : ∀ name ∈ valueNames fields, name ≠ "" ∧ '.' ∉ name.toList
  distinct : (valueNames fields).Nodup

mutual

/-- The headers in one field, each as the names of the objects around it and its own. -/
def markersIn (way : List String) : Field → List (List String)
  | .header _ key => [way ++ [key]]
  | .object name fields => markersOn (way ++ [name]) fields
  | _ => []

/-- The headers that stand on a level, also in objects. -/
def markersOn (way : List String) : List Field → List (List String)
  | [] => []
  | field :: rest => markersIn way field ++ markersOn way rest

end

/-- The dotted keys of the texts, runs of bytes and arrays of a level. -/
def payloadKeys (level : List Field) : List String :=
  (reachedOn [] level).map fun (way, _) => ".".intercalate way

/-- Whether every header of a level has the dotted key of a text, a run of bytes or an array of that
level. -/
def HeadersNamed (level : List Field) : Prop :=
  ∀ marker ∈ markersOn [] level, ".".intercalate marker ∈ payloadKeys level

/-! ## Names -/

theorem isPlainName_iff {name : String} :
    isPlainName name = true ↔ name ≠ "" ∧ '.' ∉ name.toList := by
  simp [isPlainName]

/-- The names of fields are apart if that of the first one is plain and not among the others, which
are apart. -/
theorem namesApart_cons {field : Field} {rest : List Field} :
    NamesApart (field :: rest) ↔
      (field.isHeader = false → isPlainName field.name = true ∧ field.name ∉ valueNames rest) ∧
        NamesApart rest := by
  cases value : field.isHeader with
  | true =>
      have same : valueNames (field :: rest) = valueNames rest := by
        rw [valueNames_cons, if_pos value]
      constructor
      · rintro ⟨plain, distinct⟩
        refine ⟨fun impossible => ?_, same ▸ plain, same ▸ distinct⟩
        cases impossible
      · rintro ⟨_, plain, distinct⟩
        exact ⟨same.symm ▸ plain, same.symm ▸ distinct⟩
  | false =>
      have more : valueNames (field :: rest) = field.name :: valueNames rest := by
        rw [valueNames_cons, value, if_neg Bool.false_ne_true]
      rw [isPlainName_iff]
      constructor
      · rintro ⟨plain, distinct⟩
        rw [more] at plain distinct
        obtain ⟨own, others⟩ := List.forall_mem_cons.mp plain
        obtain ⟨fresh, apart⟩ := List.nodup_cons.mp distinct
        exact ⟨fun _ => ⟨own, fresh⟩, others, apart⟩
      · rintro ⟨own, others, apart⟩
        obtain ⟨plain, fresh⟩ := own rfl
        exact ⟨more ▸ List.forall_mem_cons.mpr ⟨plain, others⟩,
          more ▸ List.nodup_cons.mpr ⟨fresh, apart⟩⟩

/-- Names are in order if they are so wherever fields stand together. -/
theorem wellNamed_iff {fields : List Field} :
    WellNamed fields ↔ ∀ scope ∈ scopes fields, NamesApart scope := by
  rw [scopes, List.forall_mem_cons]
  induction fields using induction_fields with
  | nil => exact iff_of_true trivial ⟨⟨List.forall_mem_nil _, .nil⟩, List.forall_mem_nil _⟩
  | cons field rest inside behind =>
      have own : WellNamedBelow field ↔ ∀ scope ∈ scopesIn field, NamesApart scope := by
        cases field with
        | object => rw [WellNamedBelow, scopesIn, List.forall_mem_cons]; exact inside
        | items => rw [WellNamedBelow, scopesIn, List.forall_mem_cons]; exact inside
        | _ => exact iff_of_true trivial (List.forall_mem_nil _)
      rw [WellNamed, own, behind, namesApart_cons, scopesBelow, List.forall_mem_append]
      constructor
      · rintro ⟨plain, below, others, deeper⟩
        exact ⟨⟨plain, others⟩, below, deeper⟩
      · rintro ⟨⟨plain, others⟩, below, deeper⟩
        exact ⟨plain, below, others, deeper⟩

/-- On every level of well named fields the fields are well named. -/
theorem wellNamed_levels {fields : List Field} (named : WellNamed fields) :
    ∀ level ∈ levels fields, WellNamed level := by
  refine List.forall_mem_cons.mpr ⟨named, ?_⟩
  induction fields using induction_fields with
  | nil => exact List.forall_mem_nil _
  | cons field rest inside behind =>
      rw [WellNamed] at named
      obtain ⟨_, below, others⟩ := named
      rw [levelsBelow]
      refine List.forall_mem_append.mpr ⟨?_, behind others⟩
      cases field with
      | object => exact inside below
      | items => exact List.forall_mem_cons.mpr ⟨below, inside below⟩
      | _ => exact List.forall_mem_nil _

/-! ## Keys -/

/-- A dotted key behind named objects is the names joined by points, whatever its last name is. -/
theorem keyOf_concat_eq_intercalate {way : List String} (named : ∀ name ∈ way, name ≠ "")
    (last : String) : keyOf (way ++ [last]) = ".".intercalate (way ++ [last]) := by
  cases way with
  | nil => rfl
  | cons name rest => exact foldl_dotted (named name List.mem_cons_self) (rest ++ [last])

/-- A way of names that goes on by a plain name has no empty one. -/
theorem named_concat {way : List String} {field : Field} (named : ∀ name ∈ way, name ≠ "")
    (plain : isPlainName field.name = true) : ∀ name ∈ way ++ [field.name], name ≠ "" := by
  refine List.forall_mem_append.mpr ⟨named, List.forall_mem_singleton.mpr ?_⟩
  exact (isPlainName_iff.mp plain).1

/-- The targets of a level are the dotted keys of what is reached on it. -/
theorem targets_eq_intercalate {fields : List Field} (wellNamed : WellNamed fields)
    {way : List String} (named : ∀ name ∈ way, name ≠ "") :
    targets (keyOf way) fields =
      (reachedOn way fields).map fun (names, _) => ".".intercalate names := by
  induction fields using induction_fields generalizing way with
  | nil => rfl
  | cons field rest inside behind =>
      rw [WellNamed] at wellNamed
      obtain ⟨own, below, others⟩ := wellNamed
      rw [targets, reachedOn, List.map_append, behind others named]
      congr 1
      cases field with
      | object name fields =>
          rw [targetsOf, reachedIn, ← keyOf_concat]
          exact inside below (named_concat named (own rfl).1)
      | header => rfl
      | scalar => rfl
      | _ =>
          rw [targetsOf, ← keyOf_concat, keyOf_concat_eq_intercalate named]
          rfl

theorem payloadKeys_eq {level : List Field} (named : WellNamed level) :
    payloadKeys level = targets "" level :=
  (targets_eq_intercalate named (List.forall_mem_nil _)).symm

/-- The keys of the headers of a level, as they are joined. -/
theorem markers_eq_intercalate {fields : List Field} (wellNamed : WellNamed fields)
    {way : List String} (named : ∀ name ∈ way, name ≠ "") :
    (headersOn (keyOf way) fields).map Prod.snd =
      (markersOn way fields).map ".".intercalate := by
  induction fields using induction_fields generalizing way with
  | nil => rfl
  | cons field rest inside behind =>
      rw [WellNamed] at wellNamed
      obtain ⟨own, below, others⟩ := wellNamed
      rw [headersOn, markersOn, List.map_append, List.map_append, behind others named]
      congr 1
      cases field with
      | object name fields =>
          rw [headersIn, markersIn, ← keyOf_concat]
          exact inside below (named_concat named (own rfl).1)
      | header kind key =>
          rw [headersIn, markersIn, ← keyOf_concat, List.map_cons,
            keyOf_concat_eq_intercalate named]
          rfl
      | _ => rfl

/-- Whether every header of a level has one of the keys that the check accepts. -/
def HeadersKnown (level : List Field) : Prop :=
  ∀ header ∈ headersOn "" level, header.2 ∈ targets "" level

/-- Headers that are named by the keys of a level are those that the check knows. -/
theorem headersNamed_iff {level : List Field} (named : WellNamed level) :
    HeadersNamed level ↔ HeadersKnown level := by
  have none : ∀ name ∈ ([] : List String), name ≠ "" := List.forall_mem_nil _
  have keys : (headersOn "" level).map Prod.snd = (markersOn [] level).map ".".intercalate :=
    markers_eq_intercalate named none
  have keyed := List.forall_mem_map (P := (· ∈ targets "" level)) (f := ".".intercalate)
    (l := markersOn [] level)
  rw [HeadersNamed, HeadersKnown, payloadKeys_eq named, ← keyed, ← keys, List.forall_mem_map]

/-! ## The check -/

/-- A field passes the check if and only if the fields below it do, on all levels. -/
theorem checkInside_eq_ok {path : String} {field : Field}
    (inside : ∀ path, checkNames path [] (below field) = .ok () ↔
      WellNamed (below field) ∧ ∀ level ∈ levelsBelow (below field), HeadersKnown level) :
    checkInside path field = .ok () ↔
      WellNamedBelow field ∧ ∀ level ∈ levelsIn field, HeadersKnown level := by
  cases field with
  | object name fields =>
      rw [checkInside]
      exact inside _
  | items name fields mixed =>
      rw [checkInside, except_bind_eq_ok, checkHeaders_eq_ok, levelsIn, List.forall_mem_cons]
      constructor
      · rintro ⟨_, names, known⟩
        obtain ⟨named, deeper⟩ := (inside _).mp names
        exact ⟨named, known, deeper⟩
      · rintro ⟨named, known, deeper⟩
        exact ⟨(), (inside _).mpr ⟨named, deeper⟩, known⟩
  | _ => exact iff_of_true rfl ⟨trivial, List.forall_mem_nil _⟩

/-- Names pass the check if they are in order and new, and so are the headers in the elements of
arrays. -/
theorem checkNames_eq_ok {path : String} {seen : List String} {fields : List Field} :
    checkNames path seen fields = .ok () ↔
      WellNamed fields ∧ (∀ name ∈ valueNames fields, name ∉ seen) ∧
        ∀ level ∈ levelsBelow fields, HeadersKnown level := by
  induction fields using induction_fields generalizing path seen with
  | nil => exact iff_of_true rfl ⟨trivial, List.forall_mem_nil _, List.forall_mem_nil _⟩
  | cons field rest inside behind =>
      have own : checkInside path field = .ok () ↔
          WellNamedBelow field ∧ ∀ level ∈ levelsIn field, HeadersKnown level := by
        refine checkInside_eq_ok fun path => inside.trans (and_congr_right fun _ => ?_)
        exact and_iff_right fun _ _ => List.not_mem_nil
      rw [WellNamed, levelsBelow, List.forall_mem_append, valueNames_cons]
      cases value : field.isHeader with
      | true =>
          have passes : checkInside path field = .ok () := by
            cases field with
            | header => rfl
            | _ => cases value
          obtain ⟨within, deeper⟩ := own.mp passes
          rw [checkNames, if_pos value, behind, if_pos rfl]
          constructor
          · rintro ⟨named, fresh, others⟩
            refine ⟨⟨fun impossible => ?_, within, named⟩, fresh, deeper, others⟩
            cases impossible
          · rintro ⟨⟨_, _, named⟩, fresh, _, others⟩
            exact ⟨named, fresh, others⟩
      | false =>
          rw [checkNames_cons_eq_ok value, own, behind, if_neg Bool.false_ne_true,
            List.forall_mem_cons]
          constructor
          · rintro ⟨plain, new, ⟨within, deeper⟩, named, fresh, others⟩
            refine ⟨⟨fun _ => ⟨plain, fun again => ?_⟩, within, named⟩,
              ⟨new, fun name member => ?_⟩, deeper, others⟩
            · exact fresh _ again List.mem_cons_self
            · exact fun before => fresh name member (List.mem_cons_of_mem _ before)
          · rintro ⟨⟨names, within, named⟩, ⟨new, fresh⟩, deeper, others⟩
            obtain ⟨plain, once⟩ := names rfl
            refine ⟨plain, new, ⟨within, deeper⟩, named, fun name member again => ?_, others⟩
            rcases List.mem_cons.mp again with rfl | before
            · exact once member
            · exact fresh name member before

/-- **What the check decides.** -/
theorem check_eq_ok {layout : Layout} :
    layout.check = .ok () ↔ (∀ scope ∈ scopes layout.fields, NamesApart scope) ∧
      ∀ level ∈ levels layout.fields, HeadersNamed level := by
  rw [check, except_bind_eq_ok, checkHeaders_eq_ok, ← wellNamed_iff]
  constructor
  · rintro ⟨_, names, known⟩
    obtain ⟨named, _, deeper⟩ := checkNames_eq_ok.mp names
    refine ⟨named, fun level member => ?_⟩
    exact (headersNamed_iff (wellNamed_levels named level member)).mpr
      (List.forall_mem_cons.mpr ⟨known, deeper⟩ level member)
  · rintro ⟨named, keyed⟩
    have known : ∀ level ∈ levels layout.fields, HeadersKnown level := fun level member =>
      (headersNamed_iff (wellNamed_levels named level member)).mp (keyed level member)
    obtain ⟨own, deeper⟩ := List.forall_mem_cons.mp known
    exact ⟨(), checkNames_eq_ok.mpr ⟨named, fun _ _ => List.not_mem_nil, deeper⟩, own⟩

/-! ## Maps of headers -/

/-- An initial part of the fields of a level, as far as they are written or read. It may end in an
object, at any depth. -/
inductive Begins : List Field → List Field → Prop where
  | nil {fields : List Field} : Begins [] fields
  | cons {field : Field} {front fields : List Field} : Begins front fields →
      Begins (field :: front) (field :: fields)
  | object {name : String} {front inner rest : List Field} : Begins front inner →
      Begins [.object name front] (.object name inner :: rest)

/-- A map by kind and dotted key behind an initial part of a level, when the fields with certain
keys have taken their entries. No two entries have the same kind and key, each has the key of one
text, run of bytes or array of the level, and no other header of the initial part is missing. -/
structure Keyed (level front : List Field) (taken : List String)
    (entries : List (HeaderKind × String)) : Prop where
  once : entries.Nodup
  owned : ∀ entry ∈ entries, (payloadKeys level).count entry.2 = 1
  waits : ∀ header ∈ headersOn "" front, header.2 ∉ taken → header ∈ entries

/-- The keys of a level lead to one field each. No two of its texts, runs of bytes and arrays have
the same key. However far an object is written, a reserved header belongs to the one field with its
key, and waits until that field is written. However far a message is read, a known header belongs to
the one field with its key, and stays known. -/
structure Unambiguous (level : List Field) : Prop where
  distinct : (payloadKeys level).Nodup
  slots : ∀ {front}, Begins front level → ∀ {path object writer left after},
    encodeFields "" path object ⟨[]⟩ [] front writer = .ok (left, after) →
      Keyed level front (payloadKeys front) (left.slots.map Prod.fst)
  headers : ∀ {front}, Begins front level → ∀ {path reader read later},
    decodeFields "" path ⟨⟨[]⟩, .empty⟩ [] front reader = .ok read later →
      Keyed level front [] (read.headers.values.map Prod.fst)

/-- A map of headers goes from before to behind some fields. The headers among them are added, and
only entries with the keys of those that take their entries are gone. -/
structure Passes (headers : List (HeaderKind × String)) (taken : List String)
    (before after : List (HeaderKind × String)) : Prop where
  once : before.Nodup → after.Nodup
  known : ∀ entry ∈ after, entry ∈ before ++ headers
  stays : ∀ entry ∈ before ++ headers, entry.2 ∉ taken → entry ∈ after

namespace Passes

variable {headers others before between after : List (HeaderKind × String)}
  {taken more : List String} {kind : HeaderKind} {key : String}

theorem refl (taken : List String) (entries : List (HeaderKind × String)) :
    Passes [] taken entries entries where
  once := id
  known _ member := List.mem_append_left _ member
  stays entry member _ := by rwa [List.append_nil] at member

/-- What passes some headers and then others passes all of them. -/
theorem trans (first : Passes headers taken before between)
    (second : Passes others more between after) :
    Passes (headers ++ others) (taken ++ more) before after where
  once distinct := second.once (first.once distinct)
  known entry member := by
    rw [← List.append_assoc]
    rcases List.mem_append.mp (second.known entry member) with earlier | new
    · exact List.mem_append_left _ (first.known entry earlier)
    · exact List.mem_append_right _ new
  stays entry member free := by
    rw [List.mem_append, not_or] at free
    rw [← List.append_assoc] at member
    refine second.stays entry ?_ free.2
    rcases List.mem_append.mp member with earlier | new
    · exact List.mem_append_left _ (first.stays entry earlier free.1)
    · exact List.mem_append_right _ new

/-- The entry of a kind and a key is taken out. -/
theorem erase (kind : HeaderKind) (key : String) (before : List (HeaderKind × String)) :
    Passes [] [key] before (before.erase (kind, key)) where
  once distinct := distinct.erase _
  known _ member := List.mem_append_left _ (List.mem_of_mem_erase member)
  stays entry member free := by
    rw [List.append_nil] at member
    refine (List.mem_erase_of_ne ?_).mpr member
    rintro rfl
    exact free List.mem_cons_self

/-- The entry of a header replaces one of its kind and key. -/
theorem replace (kind : HeaderKind) (key : String) (before : List (HeaderKind × String)) :
    Passes [(kind, key)] [] before ((kind, key) :: before.erase (kind, key)) where
  once distinct := List.nodup_cons.mpr ⟨distinct.not_mem_erase, distinct.erase _⟩
  known entry member := by
    rcases List.mem_cons.mp member with rfl | earlier
    · exact List.mem_append_right _ List.mem_cons_self
    · exact List.mem_append_left _ (List.mem_of_mem_erase earlier)
  stays entry member _ := by
    by_cases same : entry = (kind, key)
    · rw [same]
      exact List.mem_cons_self
    · refine List.mem_cons_of_mem _ ((List.mem_erase_of_ne same).mpr ?_)
      exact (List.mem_append.mp member).resolve_right fun new => same (List.mem_singleton.mp new)

/-- A field takes what is keyed to it. -/
theorem take (waiting : OpenSlots) (kind : HeaderKind) (key : String) :
    Passes [] [key] (waiting.slots.map Prod.fst)
      ((waiting.take kind key).2.slots.map Prod.fst) := by
  rw [OpenSlots.take, map_fst_eraseP]
  exact erase kind key _

/-- To take the count and the offset of a key takes entries with this key only. -/
theorem takeBoth (waiting : OpenSlots) (key : String) :
    Passes [] [key] (waiting.slots.map Prod.fst)
      (((waiting.take .count key).2.take .offset key).2.slots.map Prod.fst) := by
  have both := (take waiting .count key).trans (take (waiting.take .count key).2 .offset key)
  refine ⟨both.once, both.known, fun entry member free => both.stays entry member ?_⟩
  rw [List.mem_append, or_self]
  exact free

end Passes

section

variable {base path : String} {object : Option Object} {waiting left : OpenSlots}
  {field : Field} {writer after : Writer}

/-- A run that is sent takes the entries with its key. -/
theorem passes_sendRun {key : String} {length : Nat} {run : List UInt8}
    (found : sendRun key path waiting length run writer = .ok (left, after)) :
    Passes [] [key] (waiting.slots.map Prod.fst) (left.slots.map Prod.fst) := by
  obtain ⟨rfl, _⟩ := stretch_sendRun found
  exact .takeBoth waiting key

/-- An array with elements takes its headers. Those of an empty one stay. -/
theorem passes_column {column : WriteColumn} {element : String → Value → Encode Unit}
    {name : String} (found : Encode.column base path name object waiting element writer =
      .ok ((column, left), after)) :
    Passes [] [dotted base name] (waiting.slots.map Prod.fst) (left.slots.map Prod.fst) := by
  have opened := column_eq_ok found
  by_cases empty : itemsIn (object.bind (·.get? name)) = []
  · rw [empty] at opened
    cases pure_eq_ok.mp opened
    exact .refl _ _
  · obtain ⟨_, rfl, _⟩ := stretch_openColumn empty opened
    exact .takeBoth waiting _

/-- Whether the reserved headers go from before to behind fields that are written. -/
def PassesWhenWritten (fields : List Field) : Prop :=
  ∀ {base path : String} {object : Option Object} {waiting left : OpenSlots}
    {arrays : List WriteColumn} {writer after : Writer},
    encodeFields base path object waiting arrays fields writer = .ok (left, after) →
      Passes (headersOn base fields) (targets base fields) (waiting.slots.map Prod.fst)
        (left.slots.map Prod.fst)

/-- A field that is written adds its headers and takes the entries with its keys. -/
theorem passes_encodeField (inside : PassesWhenWritten (below field))
    (found : encodeField base path object waiting field writer = .ok (left, after)) :
    Passes (headersIn base field) (targetsOf base field) (waiting.slots.map Prod.fst)
      (left.slots.map Prod.fst) := by
  by_cases array : field.isArray = true
  · rw [encodeField_array array] at found
    obtain ⟨⟨_, _⟩, _, prepared, found⟩ := bind_eq_ok.mp found
    obtain ⟨_, _, _, found⟩ := bind_eq_ok.mp found
    cases pure_eq_ok.mp found
    rw [headersIn_array array, targetsOf_array array]
    exact passes_column prepared
  cases field with
  | header kind key =>
      rw [encodeField] at found
      obtain ⟨rfl, _⟩ := header_eq_ok found
      rw [OpenSlots.add, OpenSlots.take, List.map_cons, map_fst_eraseP]
      exact .replace kind _ _
  | scalar name type =>
      rw [encodeField] at found
      obtain ⟨_, _, _, found⟩ := bind_eq_ok.mp found
      cases pure_eq_ok.mp found
      exact .refl _ _
  | string name =>
      rw [encodeField] at found
      exact passes_sendRun (string_eq_ok found)
  | bytes name =>
      rw [encodeField] at found
      exact passes_sendRun (bytes_eq_ok found)
  | object name fields =>
      rw [encodeField] at found
      obtain ⟨_, _, _, found⟩ := bind_eq_ok.mp found
      exact inside found
  | scalars | items => exact absurd rfl array

/-- **What writing fields does to the reserved headers.** -/
theorem passes_encodeFields (fields : List Field) : PassesWhenWritten fields := by
  induction fields using induction_fields with
  | nil =>
      intro _ _ _ _ _ _ _ _ found
      rw [encodeFields] at found
      obtain ⟨_, _, _, found⟩ := bind_eq_ok.mp found
      cases pure_eq_ok.mp found
      exact .refl _ _
  | cons field rest inside behind =>
      intro base path object waiting left arrays writer after found
      rw [headersOn, targets]
      by_cases mixed : field.isMixed = true
      · -- the array waits for its chain, but takes its headers here
        have array := Field.isArray_of_isMixed mixed
        rw [encodeFields_mixed mixed] at found
        obtain ⟨⟨_, _⟩, _, prepared, found⟩ := bind_eq_ok.mp found
        rw [headersIn_array array, targetsOf_array array]
        exact (passes_column prepared).trans (behind found)
      · rw [encodeFields_plain (Bool.eq_false_iff.mpr mixed)] at found
        obtain ⟨_, _, _, found⟩ := bind_eq_ok.mp found
        obtain ⟨_, _, wrote, found⟩ := bind_eq_ok.mp found
        exact (passes_encodeField inside wrote).trans (behind found)

end

section

variable {base path : String} {level read : LevelRead} {field : Field} {reader later : Reader}

/-- The arrays of a chain leave the headers alone. -/
theorem headers_of_chain {columns : List ReadColumn}
    (found : Decode.chain columns level reader = .ok read later) :
    read.headers = level.headers := by
  obtain ⟨_, _, _, found⟩ := bind_eq_found found
  cases found
  rfl

/-- Whether the known headers go from before to behind fields that are read. -/
def PassesWhenRead (fields : List Field) : Prop :=
  ∀ {base path : String} {level read : LevelRead} {columns : List ReadColumn}
    {reader later : Reader},
    decodeFields base path level columns fields reader = .ok read later →
      Passes (headersOn base fields) [] (level.headers.values.map Prod.fst)
        (read.headers.values.map Prod.fst)

/-- A field that is read adds its headers and takes nothing. -/
theorem passes_decodeField (inside : PassesWhenRead (below field))
    (found : decodeField base path level field reader = .ok read later) :
    Passes (headersIn base field) [] (level.headers.values.map Prod.fst)
      (read.headers.values.map Prod.fst) := by
  by_cases array : field.isArray = true
  · rw [decodeField_array array] at found
    rw [headersIn_array array, headers_of_chain found]
    exact .refl _ _
  cases field with
  | header kind key =>
      rw [decodeField] at found
      obtain ⟨_, _, _, found⟩ := bind_eq_found found
      cases found
      rw [HeaderValues.insert, List.map_cons, map_fst_eraseP]
      exact .replace kind _ _
  | scalar name type =>
      rw [decodeField] at found
      obtain ⟨_, _, _, found⟩ := bind_eq_found found
      cases found
      exact .refl _ _
  | string name =>
      rw [decodeField] at found
      obtain ⟨_, _, _, found⟩ := bind_eq_found found
      obtain ⟨_, _, _, found⟩ := bind_eq_found found
      cases found
      exact .refl _ _
  | bytes name =>
      rw [decodeField] at found
      simp only at found
      split at found
      next =>
        obtain ⟨_, _, _, found⟩ := bind_eq_found found
        obtain ⟨_, _, _, found⟩ := bind_eq_found found
        cases found
        exact .refl _ _
      next =>
        obtain ⟨_, _, _, found⟩ := bind_eq_found found
        cases found
        exact .refl _ _
  | object name fields =>
      rw [decodeField] at found
      obtain ⟨_, _, within, found⟩ := bind_eq_found found
      cases found
      have passes := inside within
      exact passes
  | scalars | items => exact absurd rfl array

/-- **What reading fields does to the known headers.** -/
theorem passes_decodeFields (fields : List Field) : PassesWhenRead fields := by
  induction fields using induction_fields with
  | nil =>
      intro _ _ _ _ _ _ _ found
      rw [decodeFields] at found
      rw [headers_of_chain found]
      exact .refl _ _
  | cons field rest inside behind =>
      intro base path level read columns reader later found
      rw [headersOn]
      by_cases mixed : field.isMixed = true
      · rw [decodeFields_mixed mixed] at found
        rw [headersIn_array (Field.isArray_of_isMixed mixed)]
        exact behind found
      · rw [decodeFields_plain (Bool.eq_false_iff.mpr mixed)] at found
        obtain ⟨_, _, chained, found⟩ := bind_eq_found found
        obtain ⟨_, _, own, found⟩ := bind_eq_found found
        have first := passes_decodeField inside own
        rw [headers_of_chain chained] at first
        exact first.trans (behind found)

end

namespace Begins

variable {front fields : List Field}

theorem refl (fields : List Field) : Begins fields fields := by
  induction fields with
  | nil => exact .nil
  | cons _ _ ih => exact .cons ih

/-- The headers of an initial part are among those of the level. -/
theorem headersOn_subset (begins : Begins front fields) (base : String) :
    headersOn base front ⊆ headersOn base fields := by
  induction begins generalizing base with
  | nil => exact List.nil_subset _
  | cons _ ih =>
      intro header member
      rw [headersOn] at member ⊢
      exact (List.mem_append.mp member).elim (List.mem_append_left _)
        fun later => List.mem_append_right _ (ih base later)
  | object _ ih =>
      intro header member
      rw [headersOn, headersOn, List.append_nil] at member
      exact List.mem_append_left _ (ih _ member)

/-- An initial part of well named fields is well named, and its names are among theirs in order. -/
theorem wellNamed (begins : Begins front fields) (named : WellNamed fields) :
    WellNamed front ∧ (valueNames front).Sublist (valueNames fields) := by
  induction begins with
  | nil => exact ⟨trivial, List.nil_sublist _⟩
  | cons _ ih =>
      rw [WellNamed] at named
      obtain ⟨own, below, others⟩ := named
      obtain ⟨further, fewer⟩ := ih others
      refine ⟨⟨fun value => ?_, below, further⟩, ?_⟩
      · exact ⟨(own value).1, fun again => (own value).2 (fewer.subset again)⟩
      · rw [valueNames_cons, valueNames_cons]
        split
        · exact fewer
        · exact fewer.cons_cons _
  | object _ ih =>
      rw [WellNamed] at named
      obtain ⟨own, below, _⟩ := named
      refine ⟨⟨fun value => ⟨(own value).1, List.not_mem_nil⟩, (ih below).1, trivial⟩, ?_⟩
      exact (List.nil_sublist _).cons_cons _

end Begins

/-- **Behind an initial part of a level the map is keyed.** -/
theorem Passes.keyed {level front : List Field} {taken : List String}
    {entries : List (HeaderKind × String)} (begins : Begins front level)
    (distinct : (payloadKeys level).Nodup)
    (keyed : ∀ header ∈ headersOn "" level, header.2 ∈ payloadKeys level)
    (passes : Passes (headersOn "" front) taken [] entries) : Keyed level front taken entries where
  once := passes.once .nil
  owned entry member := by
    have present := keyed entry (begins.headersOn_subset "" (passes.known entry member))
    rw [distinct.count, if_pos present]
  waits := passes.stays

/-- **What a layout that passes its check makes sure of.** A layout passes its check if and only if
its names are plain and distinct wherever fields stand together, and each header has the dotted key
of a text, a run of bytes or an array of its level. Then no two of these on a level have the same
key, and each entry of the maps of headers belongs to one of them. -/
theorem unambiguous_of_check (layout : Layout) :
    (layout.check = .ok () ↔ (∀ scope ∈ scopes layout.fields, NamesApart scope) ∧
      ∀ level ∈ levels layout.fields, HeadersNamed level) ∧
    (layout.check = .ok () → ∀ level ∈ levels layout.fields, Unambiguous level) := by
  refine ⟨check_eq_ok, fun sound level member => ?_⟩
  obtain ⟨names, headers⟩ := check_eq_ok.mp sound
  have named := wellNamed_levels (wellNamed_iff.mpr names) level member
  have distinct : (payloadKeys level).Nodup := payloadKeys_eq named ▸ nodup_targets named
  have keyed : ∀ header ∈ headersOn "" level, header.2 ∈ payloadKeys level :=
    payloadKeys_eq named ▸ (headersNamed_iff named).mp (headers level member)
  refine ⟨distinct, fun {front} begins _ _ _ _ _ wrote => ?_, fun begins _ _ _ _ found => ?_⟩
  · rw [payloadKeys_eq (begins.wellNamed named).1]
    exact (passes_encodeFields front wrote).keyed begins distinct keyed
  · exact (passes_decodeFields _ found).keyed begins distinct keyed

/-- Books on a shelf, whose headers stand in the shelf, and two stamps of one name. -/
private def lending : Layout :=
  ⟨[.object "shelf" [.header .count "books", .header .offset "books",
      .items "books" [.header .offset "cover.title", .object "cover" [.string "title"]] false],
    .header .count "stamp", .bytes "stamp",
    .object "desk" [.header .count "stamp", .bytes "stamp"]]⟩

/-- What writes no books leaves the headers of the shelf to be set to zero. -/
theorem unambiguous_lending :
    lending.check = .ok () ∧
      (levels lending.fields).map payloadKeys =
        [["shelf.books", "stamp", "desk.stamp"], ["cover.title"]] ∧
      (∀ level ∈ levels lending.fields, Unambiguous level) ∧
      ∃ left after, encodeFields "" "" none ⟨[]⟩ [] lending.fields .empty = .ok (left, after) ∧
        left.slots.map Prod.fst = [(.offset, "shelf.books"), (.count, "shelf.books")] ∧
        Keyed lending.fields lending.fields (payloadKeys lending.fields)
          (left.slots.map Prod.fst) := by
  have sound : lending.check = .ok () := by rfl
  have unambiguous := (unambiguous_of_check lending).2 sound
  have wrote : encodeFields "" "" none ⟨[]⟩ [] lending.fields .empty =
      .ok (⟨[((.offset, "shelf.books"), ⟨2⟩), ((.count, "shelf.books"), ⟨0⟩)]⟩,
        ⟨#[0, 0, 0, 0, 0, 0, 0, 0], 8⟩) := by rfl
  refine ⟨sound, by rfl, unambiguous, _, _, wrote, by rfl, ?_⟩
  exact (unambiguous _ List.mem_cons_self).slots (.refl lending.fields) wrote

end Relay.Layout
