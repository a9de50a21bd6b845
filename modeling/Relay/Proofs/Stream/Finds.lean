import Relay.Proofs.Quantity.Packing
import Relay.Proofs.Text.Units
import Relay.Stream.Reader

/-! # What can be read at all

Whatever the bytes of a message are, a read that goes well finds something of a certain kind and
leaves the message alone (`Relay.Stream.Finds`). A skill always fits its word, and a text has no
zero character and no more units than the message has room for (`Relay.Stream.Finds.string`). -/

namespace Relay.Stream

/-- A read that goes well on a message finds something with a property. The message stays. -/
def Finds {ε α : Type} (read : EStateM ε Reader α) (message : Bytes) (has : α → Prop) : Prop :=
  ∀ reader value later, reader.data = message → read reader = .ok value later →
    later.data = message ∧ has value

/-- What goes well as a whole goes well in both parts. -/
theorem bind_eq_found {ε α β : Type} {read : EStateM ε Reader α}
    {next : α → EStateM ε Reader β} {reader later : Reader} {result : β}
    (found : (read >>= next) reader = .ok result later) :
    ∃ value between, read reader = .ok value between ∧ next value between = .ok result later := by
  change EStateM.bind read next reader = _ at found
  rw [EStateM.bind] at found
  split at found
  next value between first => exact ⟨value, between, first, found⟩
  next => cases found

namespace Finds

variable {ε α β : Type} {message : Bytes} {has : α → Prop} {also : β → Prop}

theorem pure {value : α} (holds : has value) :
    Finds (Pure.pure value : EStateM ε Reader α) message has := by
  intro reader _ _ same found
  cases found
  exact ⟨same, holds⟩

theorem throw (error : ε) : Finds (MonadExcept.throw error : EStateM ε Reader α) message has := by
  intro reader _ _ _ found
  cases found

/-- **One read after the other** finds what the second one does of all that the first one finds. -/
theorem bind {read : EStateM ε Reader α} {next : α → EStateM ε Reader β}
    (first : Finds read message has)
    (second : ∀ value, has value → Finds (next value) message also) :
    Finds (read >>= next) message also := by
  intro reader result later same found
  obtain ⟨value, between, begun, found⟩ := bind_eq_found found
  obtain ⟨still, holds⟩ := first reader value between same begun
  exact second value holds between result later still found

theorem throw_bind {next : α → EStateM ε Reader β} (error : ε) :
    Finds (MonadExcept.throw error >>= next) message also := by
  intro reader _ _ _ found
  obtain ⟨_, _, refused, _⟩ := bind_eq_found found
  cases refused

theorem ite {condition : Prop} [Decidable condition] {read other : EStateM ε Reader α}
    (first : condition → Finds read message has) (second : ¬ condition → Finds other message has) :
    Finds (if condition then read else other) message has := by
  split
  next holds => exact first holds
  next fails => exact second fails

theorem map {read : EStateM ε Reader α} {change : α → β} (found : Finds read message has)
    (implies : ∀ value, has value → also (change value)) :
    Finds (change <$> read) message also :=
  found.bind fun value holds => .pure (implies value holds)

theorem imp {read : EStateM ε Reader α} (found : Finds read message has) {other : α → Prop}
    (implies : ∀ value, has value → other value) : Finds read message other := by
  intro reader value later same result
  obtain ⟨still, holds⟩ := found reader value later same result
  exact ⟨still, implies value holds⟩

theorem get : Finds (MonadState.get : EStateM ε Reader Reader) message fun reader =>
    reader.data = message := by
  intro reader _ _ same found
  cases found
  exact ⟨same, same⟩

theorem modify {change : Reader → Reader} (stays : ∀ reader, (change reader).data = reader.data) :
    Finds (modify change : EStateM ε Reader Unit) message fun _ => True := by
  intro reader _ _ same found
  cases found
  exact ⟨(stays reader).trans same, trivial⟩

theorem seek (target : Nat) : Finds (Read.seek target) message fun _ => True := by
  intro reader _ _ same found
  rw [Read.seek] at found
  split at found
  next => cases found
  next =>
    cases found
    exact ⟨same, trivial⟩

/-- So many bytes are read as the message has behind the cursor. -/
theorem bytes (count : Nat) : Finds (Read.bytes count) message fun run => run.size = count := by
  intro reader _ _ same found
  rw [Read.bytes, Reader.remaining] at found
  split at found
  next => cases found
  next enough =>
    cases found
    have size : (reader.data.extract reader.position (reader.position + count)).size = count := by
      rw [Array.size_extract]
      omega
    exact ⟨same, size⟩

theorem number (width : Nat) : Finds (Read.number width) message fun _ => True :=
  (bytes width).map fun _ _ => trivial

/-- A number may stand for whatever it stands for. -/
theorem wrapped (width : Nat) (wrap : Nat → α) :
    Finds (wrap <$> Read.number width) message fun _ => True :=
  (number width).map fun _ _ => trivial

theorem bool : Finds Read.bool message fun _ => True := by
  refine Finds.get.bind fun _ _ => (wrapped 1 UInt8.ofNat).bind fun value _ => ?_
  refine .ite (fun _ => Finds.bind (modify ?_) fun _ _ => .pure trivial) fun _ => .pure trivial
  exact fun _ => rfl

theorem single : Finds Read.single message fun _ => True :=
  (wrapped 4 UInt32.ofNat).map fun _ _ => trivial

theorem vector : Finds Read.vector message fun _ => True := by
  refine single.bind fun _ _ => single.bind fun _ _ => single.bind fun _ _ => ?_
  exact .pure trivial

theorem double : Finds Read.double message fun _ => True :=
  (wrapped 8 UInt64.ofNat).map fun _ _ => trivial

theorem rotation : Finds Read.rotation message fun _ => True :=
  vector.map fun _ _ => trivial

theorem angle : Finds Read.angle message fun _ => True :=
  (wrapped 2 Int16.ofNat).map fun _ _ => trivial

theorem appearance : Finds Read.appearance message fun _ => True :=
  (wrapped 8 UInt64.ofNat).map fun _ _ => trivial

/-- A skill fits the word that it was read from. -/
theorem skill : Finds Read.skill message (Skill.Fits .wide) :=
  (wrapped 8 UInt64.ofNat).map fun word _ => Skill.fits_unpack (.inl rfl) word.toNat

theorem skill32 : Finds Read.skill32 message (Skill.Fits .narrow) :=
  (wrapped 4 UInt32.ofNat).map fun word _ => Skill.fits_unpack (.inr rfl) word.toNat

end Finds

/-- Reading a number of two bytes moves the cursor behind it. -/
theorem uint16_eq_found {reader later : Reader} {value : UInt16}
    (found : Read.uint16 reader = .ok value later) :
    later.data = reader.data ∧ later.position = reader.position + 2 ∧
      reader.position + 2 ≤ reader.data.size := by
  have short : ¬ reader.remaining < 2 := by
    intro short
    have failed : Read.uint16 reader =
        .error (.unexpectedEnd reader.position 2 reader.remaining) reader := by
      change EStateM.map _ (EStateM.map _ (Read.bytes 2)) reader = _
      rw [EStateM.map, EStateM.map, Read.bytes, if_pos short]
    rw [failed] at found
    cases found
  have read : Read.uint16 reader =
      .ok (.ofNat (ofLittleEndian (reader.data.extract reader.position
        (reader.position + 2)).toList)) { reader with position := reader.position + 2 } := by
    change EStateM.map _ (EStateM.map _ (Read.bytes 2)) reader = _
    rw [EStateM.map, EStateM.map, Read.bytes, if_neg short]
  rw [read] at found
  cases found
  rw [Reader.remaining] at short
  exact ⟨rfl, rfl, by omega⟩

/-- Units that are read up to a zero are none themselves, and each takes two bytes. -/
theorem unitsUntilZero_eq_found {fuel : Nat} {found units : List UInt16} {reader later : Reader}
    (read : Read.unitsUntilZero fuel found reader = .ok units later) :
    later.data = reader.data ∧ ∃ run, units = found.reverse ++ run ∧ 0 ∉ run ∧
      2 * run.length ≤ reader.data.size - reader.position := by
  induction fuel generalizing found reader with
  | zero =>
      cases read
      exact ⟨rfl, [], (List.append_nil _).symm, List.not_mem_nil, Nat.zero_le _⟩
  | succ fuel ih =>
      rw [Read.unitsUntilZero] at read
      obtain ⟨unit, between, first, read⟩ := bind_eq_found read
      obtain ⟨same, moved, inside⟩ := uint16_eq_found first
      split at read
      next =>
        cases read
        exact ⟨same, [], (List.append_nil _).symm, List.not_mem_nil, Nat.zero_le _⟩
      next nonzero =>
        obtain ⟨still, run, rfl, plain, room⟩ := ih read
        refine ⟨still.trans same, unit :: run, by simp, ?_, ?_⟩
        · rw [List.mem_cons, not_or]
          exact ⟨Ne.symm nonzero, plain⟩
        · rw [same, moved] at room
          rw [List.length_cons]
          omega

/-- **A text that is read has no zero character**, and two bytes for each of its units. -/
theorem Finds.string {message : Bytes} : Finds Read.string message fun text =>
    '\x00' ∉ text.toList ∧ 2 * (Text.units text.toList).length ≤ message.size := by
  refine Finds.get.bind fun first _ => ?_
  intro reader _ _ same found
  obtain ⟨units, between, read, found⟩ := bind_eq_found found
  cases found
  obtain ⟨still, run, spelled, plain, room⟩ := unitsUntilZero_eq_found read
  have spelled : units = run := spelled
  subst spelled
  rw [same] at room
  have fewer := Text.length_units_ofUnits_le units
  refine ⟨still.trans same, ?_, ?_⟩
  · simpa using Text.zero_notMem_ofUnits plain
  · rw [String.toList_ofList]
    omega

end Relay.Stream
