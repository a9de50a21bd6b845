import Relay.Proofs.Quantity.Packing
import Relay.Proofs.Stream.Draft
import Relay.Proofs.Text.Units
import Relay.Stream.Reader

/-! # What was written is read

A read finds a value between two places of a message. A quantity is carried when it is written as a
run of bytes of a fixed width in which the read finds it, or what it becomes by being stored. All
quantities of fixed width are carried, and so are texts without a zero character. -/

namespace Relay.Stream

open Floating

/-- From the first place a read finds a value and stops at the second. A quiet one remarks upon
nothing. -/
def Reads {ε α : Type} (quiet : Prop) (read : EStateM ε Reader α) (message : Bytes) (start : Nat)
    (value : α) (stop : Nat) : Prop :=
  ∀ remarks, ∃ later, read ⟨message, start, remarks⟩ = .ok value ⟨message, stop, later⟩ ∧
    (quiet → later = remarks)

namespace Reads

variable {ε α β : Type} {quiet : Prop} {message : Bytes} {start middle stop : Nat}

theorem pure (value : α) :
    Reads quiet (Pure.pure value : EStateM ε Reader α) message start value start :=
  fun remarks => ⟨remarks, rfl, fun _ => rfl⟩

/-- **One read after the other** finds what the second one does and stops where it does. -/
theorem bind {read : EStateM ε Reader α} {next : α → EStateM ε Reader β} {value : α} {result : β}
    (first : Reads quiet read message start value middle)
    (second : Reads quiet (next value) message middle result stop) :
    Reads quiet (read >>= next) message start result stop := by
  intro remarks
  obtain ⟨between, found, silent⟩ := first remarks
  obtain ⟨later, result, still⟩ := second between
  refine ⟨later, ?_, fun noted => (still noted).trans (silent noted)⟩
  change EStateM.bind read next _ = _
  rw [EStateM.bind, found]
  exact result

theorem map {read : EStateM ε Reader α} {value : α} (change : α → β)
    (found : Reads quiet read message start value stop) :
    Reads quiet (change <$> read) message start (change value) stop := by
  intro remarks
  obtain ⟨later, result, silent⟩ := found remarks
  refine ⟨later, ?_, silent⟩
  change EStateM.map change read _ = _
  rw [EStateM.map, result]

/-- A read that looks at the cursor first. -/
theorem get_bind {next : Reader → EStateM ε Reader β} {result : β}
    (found : ∀ remarks, Reads quiet (next ⟨message, start, remarks⟩) message start result stop) :
    Reads quiet (get >>= next) message start result stop :=
  fun remarks => found remarks remarks

/-- What is found without a remark is found. -/
theorem of_quiet {read : EStateM ε Reader α} {value : α}
    (found : Reads True read message start value stop) :
    Reads quiet read message start value stop := by
  intro remarks
  obtain ⟨later, result, silent⟩ := found remarks
  exact ⟨later, result, fun _ => silent trivial⟩

end Reads

variable {message : Bytes} {place : Nat}

/-- So many bytes as there are in a run are read as this run. -/
theorem reads_bytes {run : List UInt8} (holds : Holds message place run) :
    Reads True (Read.bytes run.length) message place run.toArray (place + run.length) := by
  intro remarks
  refine ⟨remarks, ?_, fun _ => rfl⟩
  have enough : ¬ message.size - place < run.length := by
    intro short
    have bounded := holds.le_size (List.ne_nil_of_length_pos (by omega))
    omega
  have found : message.extract place (place + run.length) = run.toArray :=
    Array.toList_inj.mp holds.extract
  simp only [Read.bytes, Reader.remaining, enough, ↓reduceIte, found]

/-- A number of two bytes is read where it stands. -/
theorem reads_numberAt (inside : place + 2 ≤ message.size) :
    Reads True Read.uint16 message place (Frame.Header.numberAt message place) (place + 2) := by
  have enough : ¬ message.size - place < 2 := by omega
  have bytes : Reads True (Read.bytes 2) message place (message.extract place (place + 2))
      (place + 2) := by
    intro remarks
    refine ⟨remarks, ?_, fun _ => rfl⟩
    simp only [Read.bytes, Reader.remaining, enough, ↓reduceIte]
  exact (bytes.map fun run : Bytes => ofLittleEndian run.toList).map UInt16.ofNat

/-- A quantity is written as a run of so many bytes, in which the read finds what it became by
being stored. -/
def Carried {α β : Type} (write : Writer → α → Writer) (read : Read β) (width : Nat)
    (stored : α → β) : Prop :=
  ∀ value, ∃ run : List UInt8, run.length = width ∧
    (∀ writer, write writer value = writer.put run) ∧
    ∀ message place, Holds message place run →
      Reads True read message place (stored value) (place + width)

namespace Carried

variable {α β γ δ : Type} {write : Writer → α → Writer} {read : Read β} {width : Nat}
  {stored : α → β}

/-- A quantity that is changed before it is written and after it was read. -/
theorem map (carried : Carried write read width stored) (front : γ → α) (back : β → δ) :
    Carried (fun writer value => write writer (front value)) (back <$> read) width
      fun value => back (stored (front value)) := by
  intro value
  obtain ⟨run, length, written, found⟩ := carried (front value)
  exact ⟨run, length, written, fun message place holds => (found message place holds).map back⟩

/-- A quantity that is changed before it is written. -/
theorem before (carried : Carried write read width stored) (front : γ → α) :
    Carried (fun writer value => write writer (front value)) read width
      fun value => stored (front value) :=
  fun value => carried (front value)

/-- What a quantity becomes may be said in other words. -/
theorem congr (carried : Carried write read width stored) {other : α → β}
    (same : ∀ value, stored value = other value) : Carried write read width other := by
  have equal : stored = other := funext same
  exact equal ▸ carried

/-- A number is carried up to what its width leaves of it. -/
theorem number (width : Nat) :
    Carried (fun writer n => writer.number width n) (Read.number width) width
      (· % Nat.pow 256 width) := by
  intro n
  refine ⟨littleEndian width n, length_littleEndian width n, fun _ => rfl, ?_⟩
  intro message place holds
  have bytes := reads_bytes holds
  rw [length_littleEndian] at bytes
  have found := bytes.map fun run : Bytes => ofLittleEndian run.toList
  rw [List.toList_toArray, ofLittleEndian_littleEndian] at found
  exact found

theorem uint8 : Carried Writer.uint8 Read.uint8 1 id := by
  refine ((number 1).map UInt8.toNat UInt8.ofNat).congr fun value => ?_
  apply UInt8.toNat_inj.mp
  have bounded := value.toNat_lt
  simp only [UInt8.toNat_ofNat', Nat.pow_eq, id_eq]
  omega

theorem uint16 : Carried Writer.uint16 Read.uint16 2 id := by
  refine ((number 2).map UInt16.toNat UInt16.ofNat).congr fun value => ?_
  apply UInt16.toNat_inj.mp
  have bounded := value.toNat_lt
  simp only [UInt16.toNat_ofNat', Nat.pow_eq, id_eq]
  omega

theorem uint32 : Carried Writer.uint32 Read.uint32 4 id := by
  refine ((number 4).map UInt32.toNat UInt32.ofNat).congr fun value => ?_
  apply UInt32.toNat_inj.mp
  have bounded := value.toNat_lt
  simp only [UInt32.toNat_ofNat', Nat.pow_eq, id_eq]
  omega

theorem uint64 : Carried Writer.uint64 Read.uint64 8 id := by
  refine ((number 8).map UInt64.toNat UInt64.ofNat).congr fun value => ?_
  apply UInt64.toNat_inj.mp
  have bounded := value.toNat_lt
  simp only [UInt64.toNat_ofNat', Nat.pow_eq, id_eq]
  omega

theorem int16 : Carried Writer.int16 Read.int16 2 id := by
  refine ((number 2).map (fun value : Int16 => value.toUInt16.toNat)
    Int16.ofNat).congr fun value => ?_
  have bounded := value.toBitVec.isLt
  apply Int16.toBitVec_inj.mp
  apply BitVec.eq_of_toNat_eq
  change (value.toBitVec.toNat % 65536) % 2 ^ 16 = value.toBitVec.toNat
  omega

theorem int32 : Carried Writer.int32 Read.int32 4 id := by
  refine ((number 4).map (fun value : Int32 => value.toUInt32.toNat)
    Int32.ofNat).congr fun value => ?_
  have bounded := value.toBitVec.isLt
  apply Int32.toBitVec_inj.mp
  apply BitVec.eq_of_toNat_eq
  change (value.toBitVec.toNat % 4294967296) % 2 ^ 32 = value.toBitVec.toNat
  omega

theorem int64 : Carried Writer.int64 Read.int64 8 id := by
  refine ((number 8).map (fun value : Int64 => value.toUInt64.toNat)
    Int64.ofNat).congr fun value => ?_
  have bounded := value.toBitVec.isLt
  apply Int64.toBitVec_inj.mp
  apply BitVec.eq_of_toNat_eq
  change (value.toBitVec.toNat % 18446744073709551616) % 2 ^ 64 = value.toBitVec.toNat
  omega

/-- A truth value is written as one of the two bytes that are read without a remark. -/
theorem bool : Carried Writer.bool Read.bool 1 id := by
  intro value
  obtain ⟨run, length, written, found⟩ := uint8 (.ofNat value.toNat)
  refine ⟨run, length, ?_, ?_⟩
  · intro writer
    rw [← written]
    cases value <;> rfl
  · intro message place holds
    refine .get_bind fun _ => (found message place holds).bind ?_
    cases value <;> exact .pure _

theorem single : Carried Writer.single Read.single 4 id :=
  uint32.map Single.bits Single.mk

theorem double : Carried Writer.double Read.double 8 id :=
  uint64.map Double.bits Double.mk

theorem vector : Carried Writer.vector Read.vector 12 id := by
  intro value
  obtain ⟨run₁, length₁, written₁, found₁⟩ := single value.x
  obtain ⟨run₂, length₂, written₂, found₂⟩ := single value.y
  obtain ⟨run₃, length₃, written₃, found₃⟩ := single value.z
  refine ⟨run₁ ++ run₂ ++ run₃, by simp [length₁, length₂, length₃], ?_, ?_⟩
  · intro writer
    rw [Writer.put_append, Writer.put_append, ← written₁, ← written₂, ← written₃]
    rfl
  · intro message place holds
    obtain ⟨front, third⟩ := Holds.append.mp holds
    obtain ⟨first, second⟩ := Holds.append.mp front
    rw [List.length_append, length₁, length₂] at third
    rw [length₁] at second
    exact (found₁ _ _ first).bind ((found₂ _ _ second).bind ((found₃ _ _ third).bind (.pure _)))

theorem rotation : Carried Writer.rotation Read.rotation 12
    fun value => (value.map Angle.componentUnits).map Angle.componentRadians :=
  vector.map (Vector3.map Angle.componentUnits) (Vector3.map Angle.componentRadians)

theorem angle : Carried Writer.angle Read.angle 2 id :=
  int16.map Angle.raw Angle.mk

theorem skill : Carried Writer.skill Read.skill 8 fun value => .ofWide value.toWide :=
  uint64.map Skill.toWide Skill.ofWide

theorem skill32 : Carried Writer.skill32 Read.skill32 4 fun value => .ofNarrow value.toNarrow :=
  uint32.map Skill.toNarrow Skill.ofNarrow

theorem appearance : Carried Writer.appearance Read.appearance 8 id :=
  (uint64.map Appearance.toWord Appearance.ofWord).congr Appearance.ofWord_toWord

end Carried

/-- The bytes of a run of text units. -/
def unitBytes (run : List UInt16) : List UInt8 :=
  run.flatMap fun unit => littleEndian 2 unit.toNat

/-- The bytes of a text: its units and the zero behind them. -/
def textBytes (text : String) : List UInt8 :=
  unitBytes (Text.units text.toList) ++ littleEndian 2 0

/-- Every unit takes two bytes. -/
theorem length_unitBytes (run : List UInt16) : (unitBytes run).length = 2 * run.length := by
  induction run with
  | nil => rfl
  | cons unit rest ih =>
      rw [unitBytes, List.flatMap_cons, List.length_append, length_littleEndian]
      rw [unitBytes] at ih
      rw [ih, List.length_cons]
      omega

/-- A text takes two bytes for every unit and two for the zero behind them. -/
theorem length_textBytes (text : String) :
    (textBytes text).length = 2 * ((Text.units text.toList).length + 1) := by
  rw [textBytes, List.length_append, length_unitBytes, length_littleEndian]
  omega

/-- To write a text is to put its bytes. -/
theorem Writer.string_eq_put (writer : Writer) (text : String) :
    writer.string text = writer.put (textBytes text) := by
  have units (run : List UInt16) (writer : Writer) :
      run.foldl Writer.uint16 writer = writer.put (unitBytes run) := by
    induction run generalizing writer with
    | nil => rfl
    | cons unit rest ih =>
        rw [List.foldl_cons, ih]
        simp only [unitBytes, List.flatMap_cons, Writer.put_append]
        rfl
  rw [Writer.string, units, textBytes, Writer.put_append]
  rfl

/-- Where the two bytes of a number stand it is read. -/
theorem reads_uint16 {value : UInt16} (holds : Holds message place (littleEndian 2 value.toNat)) :
    Reads True Read.uint16 message place value (place + 2) := by
  obtain ⟨run, _, written, found⟩ := Carried.uint16 value
  have same : run = littleEndian 2 value.toNat := by
    have images := written .empty
    rw [Writer.uint16, Writer.number, Writer.put_atEnd rfl, Writer.put_atEnd rfl] at images
    injection images with bytes
    simpa [Writer.empty] using bytes.symm
  exact found message place (same ▸ holds)

/-- Reading units up to the zero behind them. -/
theorem reads_unitsUntilZero {run : List UInt16} (plain : 0 ∉ run) {fuel : Nat}
    (enough : run.length < fuel) (found : List UInt16)
    (holds : Holds message place (unitBytes run ++ littleEndian 2 0)) :
    Reads True (Read.unitsUntilZero fuel found) message place (found.reverse ++ run)
      (place + (unitBytes run ++ littleEndian 2 0).length) := by
  induction run generalizing fuel found place with
  | nil =>
      obtain ⟨fuel, rfl⟩ : ∃ less, fuel = less + 1 := ⟨fuel - 1, by omega⟩
      have zero : Reads True Read.uint16 message place 0 (place + 2) := reads_uint16 holds
      refine zero.bind ?_
      simp only [↓reduceIte, List.append_nil]
      exact .pure _
  | cons unit rest ih =>
      obtain ⟨fuel, rfl⟩ : ∃ less, fuel = less + 1 := ⟨fuel - 1, by omega⟩
      simp only [List.length_cons, Nat.add_lt_add_iff_right] at enough
      rw [List.mem_cons, not_or] at plain
      rw [unitBytes, List.flatMap_cons, List.append_assoc] at holds
      obtain ⟨first, others⟩ := Holds.append.mp holds
      rw [length_littleEndian] at others
      refine (reads_uint16 first).bind ?_
      have further := ih plain.2 enough (unit :: found) others
      have stop : place + 2 + (unitBytes rest ++ littleEndian 2 0).length =
          place + (unitBytes (unit :: rest) ++ littleEndian 2 0).length := by
        simp only [List.length_append, length_unitBytes, List.length_cons]
        omega
      rw [stop] at further
      simp only [if_neg (Ne.symm plain.1)]
      simpa using further

/-- **A text without a zero character is read back.** -/
theorem reads_string {text : String} (plain : '\x00' ∉ text.toList)
    (holds : Holds message place (textBytes text)) :
    Reads True Read.string message place text (place + (textBytes text).length) := by
  have nonempty : textBytes text ≠ [] := by
    apply List.ne_nil_of_length_pos
    rw [length_textBytes]
    omega
  have bounded := holds.le_size nonempty
  rw [length_textBytes] at bounded
  have enough : (Text.units text.toList).length < message.size - place + 1 := by omega
  have back : String.ofList (Text.ofUnits (Text.units text.toList)) = text := by
    rw [Text.ofUnits_units, String.ofList_toList]
  refine .get_bind fun _ =>
    (reads_unitsUntilZero (Text.zero_notMem_units plain) enough [] holds).bind ?_
  simp only [List.reverse_nil, List.nil_append, back]
  exact .pure _

end Relay.Stream
