import Relay.Proofs.Stream.Items

/-! # Where a failed read leaves the cursor

Whatever a reader is asked, its cursor stays within the bytes. A seek, a skip and a read of one
number or of one run of bytes either goes well or leaves the reader as it was. A read that takes
several numbers one by one, which are a vector, a vector of angles and a text, leaves the cursor
behind the last number that is there as a whole (`Relay.Stream.Reader.stands_run`), and so does
not undo what it has read (`Relay.Stream.Reader.vector_torn`). -/

namespace Relay.Stream

/-! ## Numbers one by one -/

/-- The reader behind all numbers of `width` bytes that are left as a whole. -/
def Reader.pastWhole (reader : Reader) (width : Nat) : Reader :=
  { reader with position := reader.position + (reader.remaining - reader.remaining % width) }

variable {reader : Reader} {width : Nat}

/-- Where not even one number is left, the reader stays. -/
theorem Reader.pastWhole_of_short (short : reader.remaining < width) :
    reader.pastWhole width = reader := by
  rw [pastWhole, Nat.mod_eq_of_lt short, Nat.sub_self]
  rfl

/-- Behind all whole numbers the reader is still within the bytes. -/
theorem Reader.pastWhole_inside (inside : reader.position ≤ reader.data.size) :
    (reader.pastWhole width).position ≤ reader.data.size := by
  simp only [pastWhole, remaining]
  omega

/-- It does not matter how many of the numbers were read before. -/
theorem Reader.pastWhole_behind {count : Nat} (room : width * count ≤ reader.remaining) :
    Reader.pastWhole { reader with position := reader.position + width * count } width =
      reader.pastWhole width := by
  have less : reader.data.size - (reader.position + width * count) =
      reader.remaining - width * count := (Nat.sub_sub ..).symm
  have torn := Nat.sub_mul_mod room
  have most := Nat.mod_le (reader.remaining - width * count) width
  have place : reader.position + width * count +
      (reader.remaining - width * count - reader.remaining % width) =
        reader.position + (reader.remaining - reader.remaining % width) := by
    omega
  simp only [pastWhole]
  rw [show Reader.remaining { reader with position := reader.position + width * count } =
    reader.remaining - width * count from less, torn, place]

/-- A read takes numbers of `width` bytes one by one: it goes well and has taken some of them, or
it has taken all that are left as a whole and fails at a torn one. -/
def TakesNumbers {α : Type} (read : Read α) (width : Nat) : Prop :=
  ∀ reader, (∃ value count, width * count ≤ reader.remaining ∧
      read reader = .ok value { reader with position := reader.position + width * count }) ∨
    read reader = .error (.unexpectedEnd (reader.pastWhole width).position width
      (reader.remaining % width)) (reader.pastWhole width)

namespace TakesNumbers

variable {α β : Type} {read : Read α}

theorem pure (value : α) : TakesNumbers (Pure.pure value) width :=
  fun _ => .inl ⟨value, 0, Nat.zero_le _, rfl⟩

/-- **One read after the other**: where the second one fails does not depend on how much the first
one has taken. -/
theorem bind {next : α → Read β} (first : TakesNumbers read width)
    (second : ∀ value, TakesNumbers (next value) width) : TakesNumbers (read >>= next) width := by
  intro reader
  change (∃ result count, _ ∧ EStateM.bind read next reader = _) ∨
    EStateM.bind read next reader = _
  rw [EStateM.bind]
  rcases first reader with ⟨value, count, room, found⟩ | failed
  · rw [found]
    simp only
    have less : Reader.remaining { reader with position := reader.position + width * count } =
        reader.remaining - width * count := (Nat.sub_sub ..).symm
    rcases second value { reader with position := reader.position + width * count } with
      ⟨result, more, further, done⟩ | failed
    · rw [less] at further
      refine .inl ⟨result, count + more, ?_, ?_⟩
      · rw [Nat.mul_add]
        omega
      · rw [done, Nat.mul_add, Nat.add_assoc]
    · rw [failed, Reader.pastWhole_behind room, less, Nat.sub_mul_mod room]
      exact .inr rfl
  · rw [failed]
    exact .inr rfl

theorem map (takes : TakesNumbers read width) (change : α → β) :
    TakesNumbers (change <$> read) width :=
  takes.bind fun value => .pure (change value)

theorem bytes (count : Nat) : TakesNumbers (Read.bytes count) count := by
  intro reader
  rw [Read.bytes]
  by_cases short : reader.remaining < count
  · rw [if_pos short, Reader.pastWhole_of_short short, Nat.mod_eq_of_lt short]
    exact .inr rfl
  · rw [if_neg short]
    refine .inl ⟨_, 1, ?_, by rw [Nat.mul_one]⟩
    omega

theorem number (width : Nat) : TakesNumbers (Read.number width) width :=
  (bytes width).map _

theorem single : TakesNumbers Read.single 4 := ((number 4).map _).map _

theorem vector : TakesNumbers Read.vector 4 :=
  single.bind fun _ => single.bind fun _ => single.bind fun _ => .pure _

theorem unitsUntilZero (fuel : Nat) (found : List UInt16) :
    TakesNumbers (Read.unitsUntilZero fuel found) 2 := by
  induction fuel generalizing found with
  | zero => exact .pure _
  | succ fuel ih =>
      refine ((number 2).map UInt16.ofNat).bind fun unit => ?_
      split
      next => exact .pure _
      next => exact ih _

theorem string : TakesNumbers Read.string 2 := by
  intro reader
  exact ((unitsUntilZero (reader.remaining + 1) []).bind fun _ => .pure _) reader

end TakesNumbers

/-! ## Operations of a reader -/

/-- From any place within the bytes, a read goes well and stops within them, or it fails and leaves
the reader in a certain way. -/
def Halts {α : Type} (read : Read α) (left : Reader → Reader) : Prop :=
  ∀ reader : Reader, reader.position ≤ reader.data.size →
    (∃ value later, read reader = .ok value later ∧ later.data = reader.data ∧
      later.position ≤ reader.data.size) ∨
    ∃ cause, read reader = .error cause (left reader)

namespace Halts

variable {α β : Type} {read : Read α} {left : Reader → Reader}

/-- A read that takes numbers one by one leaves the reader behind all that are whole. -/
theorem of_takesNumbers (takes : TakesNumbers read width) : Halts read (·.pastWhole width) := by
  intro reader inside
  rcases takes reader with ⟨value, count, room, found⟩ | failed
  · refine .inl ⟨value, _, found, rfl, ?_⟩
    rw [Reader.remaining] at room
    simp only
    omega
  · exact .inr ⟨_, failed⟩

/-- What a read finds may be changed and remarked upon. -/
theorem bind {next : α → Read β} (first : Halts read left)
    (second : ∀ value reader, ∃ result remarks,
      next value reader = .ok result { reader with remarks := remarks }) :
    Halts (read >>= next) left := by
  intro reader inside
  change (∃ result later, EStateM.bind read next reader = _ ∧ _) ∨
    ∃ cause, EStateM.bind read next reader = _
  rw [EStateM.bind]
  rcases first reader inside with ⟨value, later, found, same, stop⟩ | ⟨cause, failed⟩
  · rw [found]
    obtain ⟨result, remarks, done⟩ := second value later
    exact .inl ⟨result, _, done, same, stop⟩
  · rw [failed]
    exact .inr ⟨cause, rfl⟩

theorem map (halts : Halts read left) (change : α → β) : Halts (change <$> read) left :=
  halts.bind fun value reader => ⟨change value, reader.remarks, rfl⟩

/-- One run of bytes is taken as a whole or not at all. -/
theorem bytes (count : Nat) : Halts (Read.bytes count) id := by
  intro reader inside
  rw [Read.bytes]
  by_cases short : reader.remaining < count
  · rw [if_pos short]
    exact .inr ⟨_, rfl⟩
  · rw [if_neg short]
    refine .inl ⟨_, _, rfl, rfl, ?_⟩
    rw [Reader.remaining] at short
    simp only
    omega

theorem wrapped (width : Nat) (wrap : Nat → α) : Halts (wrap <$> Read.number width) id :=
  ((bytes width).map _).map wrap

theorem bool : Halts Read.bool id := by
  intro reader
  refine (wrapped 1 UInt8.ofNat).bind (fun value later => ?_) reader
  by_cases odd : 1 < value
  · rw [if_pos odd]
    exact ⟨_, _, rfl⟩
  · rw [if_neg odd]
    exact ⟨_, later.remarks, rfl⟩

theorem seek (target : Nat) : Halts (Read.seek target) id := by
  intro reader inside
  rw [Read.seek]
  by_cases beyond : reader.data.size < target
  · rw [if_pos beyond]
    exact .inr ⟨_, rfl⟩
  · rw [if_neg beyond]
    exact .inl ⟨(), _, rfl, rfl, Nat.not_lt.mp beyond⟩

theorem skip (count : Nat) : Halts (Read.skip count) id :=
  fun reader => seek _ reader

end Halts

namespace Reader

/-- What a reader is asked. -/
inductive Operation where
  | seek (target : Nat)
  | skip (count : Nat)
  | read (kind : Kind)
  | rotation
  deriving DecidableEq, Repr

namespace Operation

/-- Do what is asked. What is found is of no concern here. -/
def perform : Operation → Read Unit
  | .seek target => Read.seek target
  | .skip count => Read.skip count
  | .read kind => (fun _ => ()) <$> kind.read
  | .rotation => (fun _ => ()) <$> Read.rotation

/-- Where an operation leaves the reader if it fails. -/
def left : Operation → Reader → Reader
  | .rotation, reader | .read .vector, reader => reader.pastWhole 4
  | .read .string, reader => reader.pastWhole 2
  | _, reader => reader

/-- **One operation** stays within the bytes. -/
theorem halts_perform (operation : Operation) : Halts operation.perform operation.left := by
  cases operation with
  | seek target => exact .seek target
  | skip count => exact .skip count
  | rotation => exact ((Halts.of_takesNumbers .vector).map _).map _
  | read kind =>
      refine Halts.map ?_ _
      cases kind with
      | bool => exact .map .bool _
      | uint8 | uint16 | uint32 | uint64 | int16 | int32 | int64 => exact .map (.wrapped _ _) _
      | single | double | angle | appearance | skill | skill32 =>
          exact .map (.map (.wrapped _ _) _) _
      | vector => exact .map (.of_takesNumbers .vector) _
      | string => exact .map (.of_takesNumbers .string) _
      | bytes count => exact .map (.bytes count) _

end Operation

/-- The reader behind an operation, also if it fails. -/
def after (reader : Reader) (operation : Operation) : Reader :=
  match operation.perform reader with
  | .ok _ later | .error _ later => later

/-- The reader of a message behind some operations. -/
def run (message : Bytes) (operations : List Operation) : Reader :=
  operations.foldl after (.ofBytes message)

/-- What holds of a reader of a message and an operation: the message is what it was, and the cursor
stands within it; the operation goes well and stops within the message, or it fails and leaves the
reader behind all whole numbers if it takes them one by one, and as it was if not; and bytes that
are taken are so many as were asked for. -/
structure Stands (message : Bytes) (reader : Reader) (operation : Operation) : Prop where
  same : reader.data = message
  inside : reader.position ≤ message.size
  halts : (∃ later, operation.perform reader = .ok () later ∧ later.data = message ∧
      later.position ≤ message.size) ∨
    ∃ cause, operation.perform reader = .error cause (operation.left reader)
  taken : ∀ count run later, Read.bytes count reader = .ok run later →
    run.size = count ∧ later.position = reader.position + count

/-- Where an operation leaves the reader is within the message. -/
theorem left_inside (operation : Operation) (inside : reader.position ≤ reader.data.size) :
    (operation.left reader).data = reader.data ∧
      (operation.left reader).position ≤ reader.data.size := by
  unfold Operation.left
  split
  case h_1 | h_2 | h_3 => exact ⟨rfl, pastWhole_inside inside⟩
  case h_4 => exact ⟨rfl, inside⟩

/-- **An operation leaves the reader within the message**, also if it fails. -/
theorem inside_after (operation : Operation) (inside : reader.position ≤ reader.data.size) :
    (reader.after operation).data = reader.data ∧
      (reader.after operation).position ≤ reader.data.size := by
  unfold after
  rcases operation.halts_perform reader inside with ⟨_, later, done, same, stop⟩ | ⟨cause, failed⟩
  · rw [done]
    exact ⟨same, stop⟩
  · rw [failed]
    exact left_inside operation inside

/-- **The reader of a message stands within it after any operations.** -/
theorem inside_run (message : Bytes) (operations : List Operation) :
    (run message operations).data = message ∧
      (run message operations).position ≤ message.size := by
  have onwards (reader : Reader) (inside : reader.position ≤ reader.data.size) :
      (operations.foldl after reader).data = reader.data ∧
        (operations.foldl after reader).position ≤ reader.data.size := by
    induction operations generalizing reader with
    | nil => exact ⟨rfl, inside⟩
    | cons operation rest ih =>
        obtain ⟨same, stop⟩ := inside_after operation inside
        obtain ⟨still, last⟩ := ih (reader.after operation) (same ▸ stop)
        exact ⟨still.trans same, same ▸ last⟩
  exact onwards (.ofBytes message) (Nat.zero_le _)

/-- **Where operations leave the cursor**, after whatever else a reader was asked. -/
theorem stands_run (message : Bytes) (operations : List Operation) (operation : Operation) :
    Stands message (run message operations) operation := by
  obtain ⟨same, inside⟩ := inside_run message operations
  refine ⟨same, inside, ?_, ?_⟩
  · have halts := operation.halts_perform (run message operations) (by rw [same]; exact inside)
    rw [same] at halts
    exact halts.imp_left fun ⟨_, later, found⟩ => ⟨later, found⟩
  · intro count taken later found
    rw [Read.bytes, remaining] at found
    split at found
    next => cases found
    next enough =>
      cases found
      refine ⟨?_, rfl⟩
      rw [Array.size_extract]
      omega

/-- A vector of which only five bytes are left is not given back: the cursor stays behind its first
component. -/
theorem vector_torn : ¬ ∀ message operations operation cause later,
    Operation.perform operation (run message operations) = .error cause later →
      later.position = (run message operations).position := by
  intro untouched
  have torn : Operation.perform (.read .vector) (run #[0, 0, 0, 0, 0] []) =
      .error (.unexpectedEnd 4 4 1) ⟨#[0, 0, 0, 0, 0], 4, #[]⟩ := rfl
  exact absurd (untouched _ _ _ _ _ torn) (by decide)

end Reader

end Relay.Stream
