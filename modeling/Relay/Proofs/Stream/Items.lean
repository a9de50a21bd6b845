import Relay.Proofs.Stream.Carried

/-! # Values written one after the other

Whatever values are written one after the other, reading values of the same kinds from the front of
the bytes gives them back. Every read begins where the value was written and stops behind the bytes
that were written for it, and in the end nothing is left to read (`Relay.Stream.undone_written`). -/

namespace Relay.Stream

open Floating

/-- A value that can be written. -/
inductive Item where
  | bool (value : Bool)
  | uint8 (value : UInt8)
  | uint16 (value : UInt16)
  | uint32 (value : UInt32)
  | uint64 (value : UInt64)
  | int16 (value : Int16)
  | int32 (value : Int32)
  | int64 (value : Int64)
  | single (value : Single)
  | double (value : Double)
  | vector (value : Vector3)
  | angle (value : Angle)
  | appearance (value : Appearance)
  | skill (value : Skill)
  | skill32 (value : Skill)
  | string (text : String)
  | bytes (run : Bytes)
  deriving DecidableEq, Repr

/-- What is to be read: a value of some type, or so many bytes. -/
inductive Kind where
  | bool
  | uint8
  | uint16
  | uint32
  | uint64
  | int16
  | int32
  | int64
  | single
  | double
  | vector
  | angle
  | appearance
  | skill
  | skill32
  | string
  | bytes (count : Nat)
  deriving DecidableEq, Repr

/-- Read a value. -/
def Kind.read : Kind → Read Item
  | .bool => .bool <$> Read.bool
  | .uint8 => .uint8 <$> Read.uint8
  | .uint16 => .uint16 <$> Read.uint16
  | .uint32 => .uint32 <$> Read.uint32
  | .uint64 => .uint64 <$> Read.uint64
  | .int16 => .int16 <$> Read.int16
  | .int32 => .int32 <$> Read.int32
  | .int64 => .int64 <$> Read.int64
  | .single => .single <$> Read.single
  | .double => .double <$> Read.double
  | .vector => .vector <$> Read.vector
  | .angle => .angle <$> Read.angle
  | .appearance => .appearance <$> Read.appearance
  | .skill => .skill <$> Read.skill
  | .skill32 => .skill32 <$> Read.skill32
  | .string => .string <$> Read.string
  | .bytes count => .bytes <$> Read.bytes count

namespace Item

/-- Write a value. -/
def write (writer : Writer) : Item → Writer
  | .bool value => writer.bool value
  | .uint8 value => writer.uint8 value
  | .uint16 value => writer.uint16 value
  | .uint32 value => writer.uint32 value
  | .uint64 value => writer.uint64 value
  | .int16 value => writer.int16 value
  | .int32 value => writer.int32 value
  | .int64 value => writer.int64 value
  | .single value => writer.single value
  | .double value => writer.double value
  | .vector value => writer.vector value
  | .angle value => writer.angle value
  | .appearance value => writer.appearance value
  | .skill value => writer.skill value
  | .skill32 value => writer.skill32 value
  | .string text => writer.string text
  | .bytes run => writer.putBytes run

/-- What is to be read where a value was written. -/
def kind : Item → Kind
  | .bool _ => .bool
  | .uint8 _ => .uint8
  | .uint16 _ => .uint16
  | .uint32 _ => .uint32
  | .uint64 _ => .uint64
  | .int16 _ => .int16
  | .int32 _ => .int32
  | .int64 _ => .int64
  | .single _ => .single
  | .double _ => .double
  | .vector _ => .vector
  | .angle _ => .angle
  | .appearance _ => .appearance
  | .skill _ => .skill
  | .skill32 _ => .skill32
  | .string _ => .string
  | .bytes run => .bytes run.size

/-- Whether a value can be told from its bytes: skills fit their word, and texts have no zero
character, which would end them. -/
def Storable : Item → Prop
  | .skill value => value.Fits .wide
  | .skill32 value => value.Fits .narrow
  | .string text => '\x00' ∉ text.toList
  | _ => True

/-- The bytes of a value. -/
def run (item : Item) : List UInt8 :=
  (item.write .empty).bytes.toList

/-- A value is told by its bytes: they are what is written for it at any place, and a read of its
kind finds it in them. -/
structure Told (item : Item) : Prop where
  writes : ∀ writer, item.write writer = writer.put item.run
  reads : ∀ message place, Holds message place item.run →
    Reads True item.kind.read message place item (place + item.run.length)

/-- What is written for a value at any place is what is written for it at the front. -/
theorem run_eq {item : Item} {run : List UInt8}
    (writes : ∀ writer, item.write writer = writer.put run) : item.run = run := by
  rw [Item.run, writes, Writer.put_atEnd rfl]
  simp [Writer.empty]

/-- A value is told by a run if it is written as the run and read back from it. -/
theorem told_of_run {item : Item} {run : List UInt8}
    (writes : ∀ writer, item.write writer = writer.put run)
    (reads : ∀ message place, Holds message place run →
      Reads True item.kind.read message place item (place + run.length)) : item.Told := by
  have same : item.run = run := run_eq writes
  rw [← same] at writes reads
  exact ⟨writes, reads⟩

/-- A quantity that is carried unchanged is told. -/
theorem told_of_carried {α : Type} {write : Writer → α → Writer} {read : Read α} {width : Nat}
    {stored : α → α} (carried : Carried write read width stored) {value : α}
    (same : stored value = value) {item : Item} {wrap : α → Item} (wrapped : wrap value = item)
    (writes : ∀ writer, item.write writer = write writer value)
    (reads : item.kind.read = wrap <$> read) : item.Told := by
  obtain ⟨run, length, written, found⟩ := carried value
  refine told_of_run (fun writer => (writes writer).trans (written writer))
    fun message place holds => ?_
  have result := (found message place holds).map wrap
  rw [same, wrapped, ← reads, ← length] at result
  exact result

/-- Every value is written as its bytes, at any place. -/
theorem write_eq_put (item : Item) (writer : Writer) :
    item.write writer = writer.put item.run := by
  have written : ∃ run, ∀ writer, item.write writer = writer.put run := by
    cases item with
    | vector value =>
        obtain ⟨run, _, writes, _⟩ := Carried.vector value
        exact ⟨run, writes⟩
    | string text => exact ⟨textBytes text, fun writer => writer.string_eq_put text⟩
    | bytes run => exact ⟨run.toList, fun writer => writer.putBytes_eq_put run⟩
    | bool value | uint8 value | uint16 value | uint32 value | uint64 value | int16 value
    | int32 value | int64 value | single value | double value | angle value | appearance value
    | skill value | skill32 value => exact ⟨littleEndian _ _, fun _ => rfl⟩
  obtain ⟨run, writes⟩ := written
  rw [run_eq writes, writes]

/-- **Every storable value is told by its bytes.** -/
theorem told {item : Item} (storable : item.Storable) : item.Told := by
  cases item with
  | bool value => exact told_of_carried .bool rfl rfl (fun _ => rfl) rfl
  | uint8 value => exact told_of_carried .uint8 rfl rfl (fun _ => rfl) rfl
  | uint16 value => exact told_of_carried .uint16 rfl rfl (fun _ => rfl) rfl
  | uint32 value => exact told_of_carried .uint32 rfl rfl (fun _ => rfl) rfl
  | uint64 value => exact told_of_carried .uint64 rfl rfl (fun _ => rfl) rfl
  | int16 value => exact told_of_carried .int16 rfl rfl (fun _ => rfl) rfl
  | int32 value => exact told_of_carried .int32 rfl rfl (fun _ => rfl) rfl
  | int64 value => exact told_of_carried .int64 rfl rfl (fun _ => rfl) rfl
  | single value => exact told_of_carried .single rfl rfl (fun _ => rfl) rfl
  | double value => exact told_of_carried .double rfl rfl (fun _ => rfl) rfl
  | vector value => exact told_of_carried .vector rfl rfl (fun _ => rfl) rfl
  | angle value => exact told_of_carried .angle rfl rfl (fun _ => rfl) rfl
  | appearance value => exact told_of_carried .appearance rfl rfl (fun _ => rfl) rfl
  | skill value =>
      exact told_of_carried .skill (Skill.ofWide_toWide storable) rfl (fun _ => rfl) rfl
  | skill32 value =>
      exact told_of_carried .skill32 (Skill.ofNarrow_toNarrow storable) rfl (fun _ => rfl) rfl
  | string text =>
      exact told_of_run (fun writer => writer.string_eq_put text) fun message place holds =>
        (reads_string storable holds).map Item.string
  | bytes run =>
      exact told_of_run (fun writer => writer.putBytes_eq_put run) fun message place holds =>
        (reads_bytes holds).map Item.bytes

end Item

/-- The writer after values were written one after the other. -/
def written (items : List Item) : Writer :=
  items.foldl Item.write .empty

/-- Read values one after the other. -/
def readAll (kinds : List Kind) : Read (List Item) :=
  kinds.mapM Kind.read

variable {items : List Item}

/-- Values that are told are written as their runs, one behind the other. -/
theorem foldl_write (told : ∀ item ∈ items, item.Told) (writer : Writer) :
    items.foldl Item.write writer = writer.put (items.flatMap Item.run) := by
  induction items generalizing writer with
  | nil => rfl
  | cons item rest ih =>
      rw [List.forall_mem_cons] at told
      rw [List.foldl_cons, ih told.2, told.1.writes, List.flatMap_cons, Writer.put_append]

/-- What is written is the bytes of the values, one after the other. -/
theorem written_eq (told : ∀ item ∈ items, item.Told) :
    written items = ⟨(items.flatMap Item.run).toArray, (items.flatMap Item.run).length⟩ := by
  rw [written, foldl_write told, Writer.put_atEnd rfl]
  simp [Writer.empty]

/-- Values are found one after the other where their bytes stand. -/
theorem reads_readAll (told : ∀ item ∈ items, item.Told) {message : Bytes} {place : Nat}
    (holds : Holds message place (items.flatMap Item.run)) :
    Reads True (readAll (items.map Item.kind)) message place items
      (place + (items.flatMap Item.run).length) := by
  induction items generalizing place with
  | nil => exact .pure []
  | cons item rest ih =>
      rw [List.forall_mem_cons] at told
      rw [List.flatMap_cons, Holds.append] at holds
      rw [readAll, List.map_cons, List.mapM_cons, List.flatMap_cons, List.length_append,
        ← Nat.add_assoc]
      exact (told.1.reads message place holds.1).bind ((ih told.2 holds.2).bind (.pure _))

/-- How values that were written one after the other are read: every write appends the bytes of its
value; a read of the kind of the value goes from where they begin to where they end and finds the
value; values from the front on are read up to where the writer was behind them; and when all are
read nothing is left and there was nothing odd about the bytes. -/
structure Undone (items : List Item) : Prop where
  appends : ∀ front item back, items = front ++ item :: back →
    (written (front ++ [item])).bytes = (written front).bytes ++ item.run.toArray
  step : ∀ front item back, items = front ++ item :: back →
    item.kind.read ⟨(written items).bytes, (written front).length, #[]⟩ =
      .ok item ⟨(written items).bytes, (written (front ++ [item])).length, #[]⟩
  front : ∀ front back, items = front ++ back →
    readAll (front.map Item.kind) (.ofBytes (written items).bytes) =
      .ok front ⟨(written items).bytes, (written front).length, #[]⟩
  whole : ∃ reader, readAll (items.map Item.kind) (.ofBytes (written items).bytes) =
    .ok items reader ∧ reader.isEmpty = true ∧ reader.remarks = #[]

/-- The bytes of the first values stand at the front of the message, and those of the next one
behind them. -/
theorem holds_written {front back : List Item} (told : ∀ item ∈ front ++ back, item.Told) :
    Holds (written (front ++ back)).bytes 0 (front.flatMap Item.run) ∧
      Holds (written (front ++ back)).bytes (written front).length (back.flatMap Item.run) := by
  have early : ∀ item ∈ front, item.Told := fun item member =>
    told item (List.mem_append_left _ member)
  rw [written_eq told, written_eq early, List.flatMap_append]
  have all : Holds (front.flatMap Item.run ++ back.flatMap Item.run).toArray 0
      (front.flatMap Item.run ++ back.flatMap Item.run) := by
    intro index inside
    simp
  have apart := Holds.append.mp all
  rw [Nat.zero_add] at apart
  exact apart

/-- What is written is as long as all runs together. -/
theorem length_written (told : ∀ item ∈ items, item.Told) :
    (written items).length = (items.flatMap Item.run).length := by
  rw [written_eq told]
  exact List.size_toArray

/-- **Reading undoes writing.** Skills have to fit their words and texts must not have a zero
character; then all values that are written come back. -/
theorem undone_written (storable : ∀ item ∈ items, item.Storable) : Undone items := by
  have told : ∀ item ∈ items, item.Told := fun item member => Item.told (storable item member)
  have begun {front back : List Item} (parts : items = front ++ back) :
      ∀ item ∈ front, item.Told :=
    fun item member => told item (parts ▸ List.mem_append_left _ member)
  have reads : ∀ front back, items = front ++ back →
      readAll (front.map Item.kind) (.ofBytes (written items).bytes) =
        .ok front ⟨(written items).bytes, (written front).length, #[]⟩ := by
    intro front back parts
    have early := begun parts
    subst parts
    obtain ⟨remarks, found, quiet⟩ := reads_readAll early (holds_written told).1 #[]
    rw [quiet trivial, Nat.zero_add, ← length_written early] at found
    exact found
  refine ⟨?appends, ?step, reads, ?whole⟩
  case appends =>
    intro front item back parts
    rw [written_eq (begun (parts.trans (List.append_cons ..))), written_eq (begun parts)]
    simp
  case step =>
    intro front item back parts
    have early := begun (parts.trans (List.append_cons ..))
    have stop : (written front).length + item.run.length = (written (front ++ [item])).length := by
      rw [length_written early, length_written (begun parts)]
      simp
    subst parts
    have behind := (holds_written told).2
    rw [List.flatMap_cons, Holds.append] at behind
    obtain ⟨remarks, found, quiet⟩ := (early item (by simp)).reads _ _ behind.1 #[]
    rw [quiet trivial, stop] at found
    exact found
  case whole =>
    refine ⟨_, reads items [] (List.append_nil items).symm, ?_, rfl⟩
    simp [Reader.isEmpty, Reader.remaining, Writer.length]

instance : (item : Item) → Decidable item.Storable
  | .skill value => inferInstanceAs (Decidable (value.Fits .wide))
  | .skill32 value => inferInstanceAs (Decidable (value.Fits .narrow))
  | .string text => inferInstanceAs (Decidable ('\x00' ∉ text.toList))
  | .bool _ | .uint8 _ | .uint16 _ | .uint32 _ | .uint64 _ | .int16 _ | .int32 _ | .int64 _
  | .single _ | .double _ | .vector _ | .angle _ | .appearance _ | .bytes _ =>
    inferInstanceAs (Decidable True)

/-- Values of all sorts: a number below zero, a NaN with its bits, a character that takes two units,
a skill that names a zone, and no bytes at all. -/
def assorted : List Item :=
  [.bool true, .int16 (-2), .string "a😀", .bytes #[], .single ⟨0x7FA00001⟩,
    .skill ⟨0xFFFF, 0xFFF, 1, true, 1⟩, .skill32 ⟨0x3FFFFFF, 0, 15, false, 0⟩, .string "",
    .vector ⟨⟨0x80000000⟩, ⟨1⟩, ⟨0x7F800000⟩⟩, .uint64 0xFFFFFFFFFFFFFFFF, .bytes #[0, 0, 7]]

theorem undone_assorted : (∀ item ∈ assorted, item.Storable) ∧ Undone assorted :=
  have storable : ∀ item ∈ assorted, item.Storable := by decide +kernel
  ⟨storable, undone_written storable⟩

end Relay.Stream
