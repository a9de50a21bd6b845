import Relay.Proofs.Layout.Trails
import Relay.Proofs.Stream.Yields

/-! # What a message is read as

A level of a message is read field by field. Where a field or an array has an offset it is found
there, wherever that is, and otherwise at the cursor; the elements of arrays are found along exact
chains. This says all there is to say of decoding (`Relay.Layout.AllFollowed`): a message is decoded
as an object if and only if it can be followed as this object
(`Relay.Layout.decode_iff_followed`). -/

namespace Relay.Layout

open Relay.Stream Relay.Frame.Header

/-- The elements of some arrays are found along a chain that leaves the cursor behind the last one,
or where it is if there is none. -/
def Threaded (message : Bytes) (strands : List Strand) (place stop : Nat) : Prop :=
  ∃ visits, Exact message strands visits ∧ stop = visits.getLast?.elim place (·.stop)

/-- A field is found where its offset says, which is behind the headers, or else at the cursor. -/
def Sought (headers : HeaderValues) (key : String) (place start : Nat) : Prop :=
  match headers.get? .offset key with
  | none => start = place
  | some offset => headers.finish ≤ offset.toNat ∧ start = offset.toNat

mutual

/-- What is found from a place on as an element of an array. -/
def ElementFollowed : Field → Bytes → Value → Nat → Nat → Prop
  | .scalars _ type _, message, value, place, stop =>
    ∀ path, Reads False (Decode.scalar type path) message place value stop
  | .items _ fields _, message, value, place, stop =>
    ∃ inner left, value = .object inner ∧
      AllFollowed message "" [] fields ⟨[]⟩ place inner left stop
  | _, _, _, _, _ => False

/-- What is found from a place on for a field that is no array. The headers read so far grow by
those that the field contains. -/
def Followed (message : Bytes) (base : String) :
    Field → HeaderValues → Nat → List (String × Value) → HeaderValues → Nat → Prop
  | .header kind key, headers, place, values, left, stop =>
    place + 2 ≤ message.size ∧ stop = place + 2 ∧ values = [] ∧
      left = headers.insert kind (dotted base key) (numberAt message place)
  | .scalar name type, headers, place, values, left, stop =>
    left = headers ∧ ∃ value, values = [(name, value)] ∧
      ∀ path, Reads False (Decode.scalar type path) message place value stop
  | .string name, headers, place, values, left, stop =>
    left = headers ∧ ∃ text start, values = [(name, .string text)] ∧
      Sought headers (dotted base name) place start ∧
      Reads False Read.string message start text stop
  | .bytes name, headers, place, values, left, stop =>
    left = headers ∧ ∃ run start, values = [(name, .bytes run)] ∧
      (if 0 < countOf headers (dotted base name) then Sought headers (dotted base name) place start
        else start = place) ∧
      Reads False (Read.bytes (countOf headers (dotted base name))) message start run stop
  | .object name fields, headers, place, values, left, stop =>
    ∃ inner, values = [(name, .object inner)] ∧
      AllFollowed message (dotted base name) [] fields headers place inner left stop
  | _, _, _, _, _, _ => False

/-- What is found from a place on for the fields of a level, behind the arrays that wait for their
chain. An array has as many items as a header said before it. -/
def AllFollowed (message : Bytes) (base : String) (waiting : List Strand) :
    List Field → HeaderValues → Nat → List (String × Value) → HeaderValues → Nat → Prop
  | [], headers, place, values, left, stop =>
    values = [] ∧ left = headers ∧ Threaded message waiting place stop
  | field :: rest, headers, place, values, left, stop =>
    if field.isArray then
      ∃ items others, values = (field.name, .array items) :: others ∧
        countOf headers (dotted base field.name) = items.length ∧
        let strand := strandOf headers base field.name items (ElementFollowed field)
        if field.isMixed then
          AllFollowed message base (waiting ++ [strand]) rest headers place others left stop
        else
          ∃ start middle, Threaded message waiting place start ∧
            Threaded message [strand] start middle ∧
            AllFollowed message base [] rest headers middle others left stop
    else
      ∃ own others start middle between, values = own ++ others ∧
        Threaded message waiting place start ∧
        Followed message base field headers start own between middle ∧
        AllFollowed message base [] rest between middle others left stop

end

variable {message : Bytes} {place : Nat}

/-! ## Single reads -/

theorem yields_within {α : Type} {read : Read α} {has : α → Nat → Prop}
    (yields : Yields read message place has) (path : String) :
    Yields (Decode.within path read) message place has := by
  intro remarks
  unfold Decode.within
  rcases yields remarks with ⟨value, stop, later, found, only⟩ | ⟨⟨error, reader, failed⟩, none⟩
  · rw [found]
    exact .inl ⟨value, stop, later, rfl, only⟩
  · rw [failed]
    exact .inr ⟨⟨_, _, rfl⟩, none⟩

/-- What a scalar is read as does not depend on what it is called. -/
theorem yields_scalar (type : Scalar) (path : String) :
    Yields (Decode.scalar type path) message place fun value stop =>
      ∀ path, Reads False (Decode.scalar type path) message place value stop := by
  obtain ⟨has, all⟩ : ∃ has, ∀ path, Yields (Decode.scalar type path) message place has := by
    suffices steady : ∃ read : Read Value, Steady read ∧
        ∀ path, Decode.scalar type path = Decode.within path read by
      obtain ⟨read, steady, same⟩ := steady
      exact ⟨_, fun path => same path ▸ yields_within (steady message place) path⟩
    cases type with
    | bool => exact ⟨_, Steady.bool.map _, fun _ => rfl⟩
    | byte => exact ⟨_, (Steady.wrapped 1 _).map _, fun _ => rfl⟩
    | int16 | uint16 => exact ⟨_, (Steady.wrapped 2 _).map _, fun _ => rfl⟩
    | int32 | uint32 => exact ⟨_, (Steady.wrapped 4 _).map _, fun _ => rfl⟩
    | int64 | uint64 => exact ⟨_, (Steady.wrapped 8 _).map _, fun _ => rfl⟩
    | float => exact ⟨_, Steady.single.map _, fun _ => rfl⟩
    | double => exact ⟨_, Steady.double.map _, fun _ => rfl⟩
    | vector => exact ⟨_, Steady.vector.map _, fun _ => rfl⟩
    | rotation => exact ⟨_, (Steady.vector.map _).map _, fun _ => rfl⟩
    | angle => exact ⟨_, ((Steady.wrapped 2 _).map _).map _, fun _ => rfl⟩
    | skill32 => exact ⟨_, ((Steady.wrapped 4 _).map _).map _, fun _ => rfl⟩
    | skill => exact ⟨_, ((Steady.wrapped 8 _).map _).map _, fun _ => rfl⟩
    | appearance => exact ⟨_, ((Steady.wrapped 8 _).map _).map _, fun _ => rfl⟩
  refine (all path).congr fun value stop => ?_
  exact ⟨fun holds path => (all path).reads holds,
    fun found => (all path).iff_reads.mpr (found path)⟩

/-- A number of two bytes is yielded as it stands there. -/
theorem yields_number (path : String) :
    Yields (Decode.within path Read.uint16) message place fun value stop =>
      place + 2 ≤ message.size ∧ value = numberAt message place ∧ stop = place + 2 := by
  refine (yields_within (Yields.wrapped 2 UInt16.ofNat) path).congr fun value stop => ?_
  constructor
  · rintro ⟨enough, rfl, rfl⟩
    exact ⟨by omega, rfl, rfl⟩
  · rintro ⟨inside, rfl, rfl⟩
    exact ⟨by omega, rfl, rfl⟩

/-- A remark in front of a read changes nothing. -/
theorem yields_warn_bind {α : Type} {next : Unit → Decode α} {has : α → Nat → Prop}
    (yields : Yields (next ()) message place has) (text : String)
    (details : List (String × String)) :
    Yields (Decode.warn text details >>= next) message place has :=
  (Yields.remark _).move_bind yields fun _ _ _ => trivial

/-- To go to a place and read there is to read there, if the read needs the place to exist. -/
theorem yields_seek_bind {α : Type} {next : Unit → Decode α} {has : α → Nat → Prop} {target : Nat}
    (yields : Yields (next ()) message target has)
    (inside : ∀ value stop, has value stop → target ≤ message.size) (path : String) :
    Yields (Decode.within path (Read.seek target) >>= next) message place has :=
  (yields_within (.seek target) path).move_bind yields inside

/-- To go to where an offset says yields the place that is sought. -/
theorem yields_seekTarget (headers : HeaderValues) (key path : String) :
    Yields (Decode.seekTarget headers key path) message place fun _ start =>
      Sought headers key place start ∧ (start ≠ place → start ≤ message.size) := by
  unfold Decode.seekTarget Sought
  cases headers.get? .offset key with
  | none =>
      refine (Yields.pure ()).congr fun _ start => ?_
      exact ⟨fun holds => ⟨holds.2, fun moved => absurd holds.2 moved⟩, fun holds => ⟨rfl, holds.1⟩⟩
  | some offset =>
      have goes (outside : headers.finish ≤ offset.toNat) : Yields (do
          let position := (← get).position
          if position ≠ offset.toNat then
            Decode.warn "offset mismatch" [("path", path), ("position", toString position),
              ("expected", toString offset.toNat)]
            Decode.within path (Read.seek offset.toNat)) message place fun _ start =>
              (headers.finish ≤ offset.toNat ∧ start = offset.toNat) ∧
                (start ≠ place → start ≤ message.size) := by
        refine .get_bind fun _ => .ite (fun moves => ?_) fun stays => ?_
        · refine yields_warn_bind ((yields_within (.seek _) path).congr fun _ start => ?_) _ _
          constructor
          · rintro ⟨rfl, inside⟩
            exact ⟨⟨outside, rfl⟩, fun _ => inside⟩
          · rintro ⟨⟨_, rfl⟩, inside⟩
            exact ⟨rfl, inside (Ne.symm moves)⟩
        · have here : place = offset.toNat := not_ne_iff.mp stays
          refine (Yields.pure ()).congr fun _ start => ?_
          constructor
          · rintro ⟨_, rfl⟩
            exact ⟨⟨outside, here⟩, fun moved => absurd rfl moved⟩
          · rintro ⟨⟨_, there⟩, _⟩
            exact ⟨rfl, there.trans here.symm⟩
      refine .ite (fun inside => .throw_bind _ fun _ _ holds => ?_) fun outside => ?_
      · exact Nat.not_lt.mpr holds.1.1 inside
      · exact goes (Nat.not_lt.mp outside)

/-- A field that is sought is read where it is found. -/
theorem yields_seekTarget_bind {α : Type} {next : Unit → Decode α} {has : Nat → α → Nat → Prop}
    (yields : ∀ start, Yields (next ()) message start (has start))
    (inside : ∀ start value stop, has start value stop → start ≤ message.size)
    (headers : HeaderValues) (key path : String) :
    Yields (Decode.seekTarget headers key path >>= next) message place fun value stop =>
      ∃ start, Sought headers key place start ∧ has start value stop := by
  refine ((yields_seekTarget headers key path).bind fun _ start _ => yields start).congr
    fun value stop => ?_
  constructor
  · rintro ⟨_, start, ⟨sought, _⟩, holds⟩
    exact ⟨start, sought, holds⟩
  · rintro ⟨start, sought, holds⟩
    exact ⟨(), start, ⟨sought, fun _ => inside start value stop holds⟩, holds⟩

/-- The links of an element name its own place and another. -/
theorem yields_enterElement (column : ReadColumn) (index : Nat) (target : UInt16) :
    Yields (Decode.enterElement column index target) message place fun next last =>
      target.toNat + 4 ≤ message.size ∧ numberAt message target.toNat = target ∧
        next = numberAt message (target.toNat + 2) ∧ last = target.toNat + 4 := by
  have links : Yields (do
      let here ← Decode.within column.path Read.uint16
      if here ≠ target then throw (.elementMismatch column.path target.toNat here)
      Decode.within column.path Read.uint16) message target.toNat fun next last =>
        target.toNat + 4 ≤ message.size ∧ numberAt message target.toNat = target ∧
          next = numberAt message (target.toNat + 2) ∧ last = target.toNat + 4 := by
    have second (here : UInt16) (middle : Nat) : Yields (do
        if here ≠ target then throw (.elementMismatch column.path target.toNat here)
        Decode.within column.path Read.uint16) message middle fun next last =>
          here = target ∧ middle + 2 ≤ message.size ∧ next = numberAt message middle ∧
            last = middle + 2 := by
      refine .ite (fun differs => .throw_bind _ fun _ _ holds => differs holds.1) fun same => ?_
      exact (yields_number _).congr fun _ _ => by simp [not_ne_iff.mp same]
    refine ((yields_number _).bind fun here middle _ => second here middle).congr
      fun next last => ?_
    constructor
    · rintro ⟨here, middle, ⟨_, rfl, rfl⟩, same, inside, rfl, rfl⟩
      exact ⟨inside, same, rfl, rfl⟩
    · rintro ⟨inside, same, rfl, rfl⟩
      exact ⟨_, _, ⟨by omega, rfl, rfl⟩, same, inside, rfl, rfl⟩
  have goes : Yields (do
      let position := (← get).position
      if position ≠ target.toNat then
        Decode.warn "offset mismatch for array" [("path", column.path),
          ("position", toString position), ("expected", toString target.toNat)]
        Decode.within column.path (Read.seek target.toNat)
      let here ← Decode.within column.path Read.uint16
      if here ≠ target then throw (.elementMismatch column.path target.toNat here)
      Decode.within column.path Read.uint16) message place fun next last =>
        target.toNat + 4 ≤ message.size ∧ numberAt message target.toNat = target ∧
          next = numberAt message (target.toNat + 2) ∧ last = target.toNat + 4 := by
    refine .get_bind fun _ => .ite (fun _ => ?_) fun stays => ?_
    · exact yields_warn_bind (yields_seek_bind links (fun _ _ holds => by omega) _) _ _
    · have here : place = target.toNat := not_ne_iff.mp stays
      exact here ▸ links
  unfold Decode.enterElement
  exact .ite (fun _ => yields_warn_bind goes _ _) fun _ => goes

end Relay.Layout
