import Relay.Proofs.Stream.Carried
import Relay.Proofs.Stream.Finds

/-! # What a read yields, and nothing else

From a place of a message, a read either fails or yields one value and stops at one place, whatever
was remarked before. A relation says all there is to say of it when it has exactly this value and
this place, and none where the read fails (`Relay.Stream.Yields`). Such relations compose as the
reads do. -/

namespace Relay.Stream

/-- From a place of a message, a read yields exactly the value and the last place that a relation
has, and fails where it has none. -/
def Yields {ε α : Type} (read : EStateM ε Reader α) (message : Bytes) (place : Nat)
    (has : α → Nat → Prop) : Prop :=
  ∀ remarks,
    (∃ value stop later, read ⟨message, place, remarks⟩ = .ok value ⟨message, stop, later⟩ ∧
      ∀ other last, has other last ↔ other = value ∧ last = stop) ∨
    (∃ error reader, read ⟨message, place, remarks⟩ = .error error reader) ∧
      ∀ other last, ¬ has other last

namespace Yields

variable {ε α β : Type} {message : Bytes} {place stop : Nat} {has : α → Nat → Prop}
  {also : α → Nat → β → Nat → Prop} {read : EStateM ε Reader α}

theorem congr {other : α → Nat → Prop} (yields : Yields read message place has)
    (same : ∀ value stop, has value stop ↔ other value stop) : Yields read message place other := by
  have equal : has = other := funext fun value => funext fun stop => propext (same value stop)
  rwa [← equal]

/-- What the relation has is what is read. -/
theorem reads (yields : Yields read message place has) {value : α} (holds : has value stop) :
    Reads False read message place value stop := by
  intro remarks
  rcases yields remarks with ⟨only, last, later, found, all⟩ | ⟨_, none⟩
  · obtain ⟨rfl, rfl⟩ := (all value stop).mp holds
    exact ⟨later, found, False.elim⟩
  · exact absurd holds (none value stop)

/-- What is read is what the relation has. -/
theorem of_ok (yields : Yields read message place has) {remarks : Journal} {value : α}
    {later : Reader} (found : read ⟨message, place, remarks⟩ = .ok value later) :
    later.data = message ∧ has value later.position := by
  rcases yields remarks with ⟨only, last, left, result, all⟩ | ⟨⟨error, reader, failed⟩, _⟩
  · rw [result] at found
    cases found
    exact ⟨rfl, (all value last).mpr ⟨rfl, rfl⟩⟩
  · rw [failed] at found
    cases found

/-- A relation that a read yields has the values that are read. -/
theorem iff_reads (yields : Yields read message place has) {value : α} :
    has value stop ↔ Reads False read message place value stop := by
  refine ⟨yields.reads, fun found => ?_⟩
  obtain ⟨_, result, _⟩ := found #[]
  exact (yields.of_ok result).2

/-- All that is to be said of a read is what it reads. -/
theorem steady (yields : Yields read message place has) :
    Yields read message place (Reads False read message place) :=
  yields.congr fun _ _ => yields.iff_reads

theorem pure (value : α) : Yields (Pure.pure value : EStateM ε Reader α) message place
    fun other last => other = value ∧ last = place :=
  fun remarks => .inl ⟨value, place, remarks, rfl, fun _ _ => Iff.rfl⟩

theorem throw (error : ε) (none : ∀ value stop, ¬ has value stop) :
    Yields (MonadExcept.throw error : EStateM ε Reader α) message place has :=
  fun _ => .inr ⟨⟨error, _, rfl⟩, none⟩

/-- **One read after the other** yields what the second yields from where the first stops. -/
theorem bind {next : α → EStateM ε Reader β} (first : Yields read message place has)
    (second : ∀ value middle, has value middle →
      Yields (next value) message middle (also value middle)) :
    Yields (read >>= next) message place fun result last =>
      ∃ value middle, has value middle ∧ also value middle result last := by
  intro remarks
  have run : (read >>= next) ⟨message, place, remarks⟩ =
      EStateM.bind read next ⟨message, place, remarks⟩ := rfl
  rw [run, EStateM.bind]
  rcases first remarks with ⟨value, middle, later, found, only⟩ | ⟨⟨error, reader, failed⟩, none⟩
  · have begun : has value middle := (only value middle).mpr ⟨rfl, rfl⟩
    have unique (result : β) (last : Nat) :
        (∃ other between, has other between ∧ also other between result last) ↔
          also value middle result last := by
      constructor
      · rintro ⟨other, between, holds, further⟩
        obtain ⟨rfl, rfl⟩ := (only other between).mp holds
        exact further
      · exact fun further => ⟨value, middle, begun, further⟩
    rw [found]
    rcases second value middle begun later with ⟨result, last, left, done, all⟩ | ⟨failed, none⟩
    · exact .inl ⟨result, last, left, done, fun _ _ => (unique _ _).trans (all _ _)⟩
    · exact .inr ⟨failed, fun _ _ holds => none _ _ ((unique _ _).mp holds)⟩
  · rw [failed]
    refine .inr ⟨⟨error, reader, rfl⟩, ?_⟩
    rintro _ _ ⟨value, middle, holds, _⟩
    exact none value middle holds

theorem map (change : α → β) (yields : Yields read message place has) :
    Yields (change <$> read) message place fun result last =>
      ∃ value, has value last ∧ result = change value := by
  refine (yields.bind fun value middle _ => .pure (change value)).congr fun result last => ?_
  constructor
  · rintro ⟨value, _, holds, rfl, rfl⟩
    exact ⟨value, holds, rfl⟩
  · rintro ⟨value, holds, rfl⟩
    exact ⟨value, last, holds, rfl, rfl⟩

theorem throw_bind {next : α → EStateM ε Reader β} {has : β → Nat → Prop} (error : ε)
    (none : ∀ value stop, ¬ has value stop) :
    Yields (MonadExcept.throw error >>= next) message place has :=
  fun _ => .inr ⟨⟨error, _, rfl⟩, none⟩

/-- A read that looks at the cursor first. -/
theorem get_bind {next : Reader → EStateM ε Reader β} {has : β → Nat → Prop}
    (yields : ∀ remarks, Yields (next ⟨message, place, remarks⟩) message place has) :
    Yields (get >>= next) message place has :=
  fun remarks => yields remarks remarks

/-- A read behind a move of the cursor yields what it yields there, if it yields nothing where the
cursor cannot go. -/
theorem move_bind {move : EStateM ε Reader Unit} {next : Unit → EStateM ε Reader β} {target : Nat}
    {possible : Prop} {has : β → Nat → Prop}
    (moves : Yields move message place fun _ last => last = target ∧ possible)
    (yields : Yields (next ()) message target has)
    (needs : ∀ value stop, has value stop → possible) :
    Yields (move >>= next) message place has := by
  have there (value : Unit) (middle : Nat) (arrived : middle = target ∧ possible) :
      Yields (next value) message middle has := arrived.1 ▸ yields
  refine (moves.bind there).congr fun value stop => ⟨?_, fun holds => ?_⟩
  · rintro ⟨_, _, _, holds⟩
    exact holds
  · exact ⟨(), target, ⟨rfl, needs value stop holds⟩, holds⟩

/-- Remarks change nothing. -/
theorem remark (entry : Entry) :
    Yields (modify (·.remark entry) : EStateM ε Reader Unit) message place
      fun _ last => last = place ∧ True :=
  fun remarks => .inl ⟨(), place, remarks.push entry, rfl, fun _ _ => by simp⟩

theorem ite {condition : Prop} [Decidable condition] {other : EStateM ε Reader α}
    (first : condition → Yields read message place has)
    (second : ¬ condition → Yields other message place has) :
    Yields (if condition then read else other) message place has := by
  split
  next holds => exact first holds
  next fails => exact second fails

theorem seek (target : Nat) : Yields (Read.seek target) message place fun _ last =>
    last = target ∧ target ≤ message.size := by
  intro remarks
  rw [Read.seek]
  split
  next beyond =>
    exact .inr ⟨⟨_, _, rfl⟩, fun _ _ holds => Nat.not_lt.mpr holds.2 beyond⟩
  next inside =>
    refine .inl ⟨(), target, remarks, rfl, fun _ _ => ?_⟩
    exact ⟨fun holds => ⟨rfl, holds.1⟩, fun holds => ⟨holds.2, Nat.not_lt.mp inside⟩⟩

theorem bytes (count : Nat) : Yields (Read.bytes count) message place fun run last =>
    count ≤ message.size - place ∧ run = message.extract place (place + count) ∧
      last = place + count := by
  intro remarks
  rw [Read.bytes, Reader.remaining]
  split
  next short =>
    exact .inr ⟨⟨_, _, rfl⟩, fun _ _ holds => Nat.not_lt.mpr holds.1 short⟩
  next enough =>
    refine .inl ⟨_, _, remarks, rfl, fun _ _ => ?_⟩
    exact ⟨fun holds => holds.2, fun holds => ⟨Nat.not_lt.mp enough, holds⟩⟩

/-- A number that may stand for whatever it stands for. -/
theorem wrapped (width : Nat) (wrap : Nat → α) :
    Yields (wrap <$> Read.number width) message place fun value last =>
      width ≤ message.size - place ∧ last = place + width ∧
        value = wrap (ofLittleEndian (message.extract place (place + width)).toList) := by
  refine (((bytes width).map (ofLittleEndian ·.toList)).map wrap).congr fun value last => ?_
  constructor
  · rintro ⟨_, ⟨_, ⟨enough, rfl, rfl⟩, rfl⟩, rfl⟩
    exact ⟨enough, rfl, rfl⟩
  · rintro ⟨enough, rfl, rfl⟩
    exact ⟨_, ⟨_, ⟨enough, rfl, rfl⟩, rfl⟩, rfl⟩

end Yields

/-! ## Reads that yield something -/

/-- A read that yields the same whatever was remarked before. -/
def Steady {ε α : Type} (read : EStateM ε Reader α) : Prop :=
  ∀ message place, Yields read message place (Reads False read message place)

namespace Steady

variable {ε α β : Type} {read : EStateM ε Reader α}

/-- One steady read after another is steady. -/
theorem bind {next : α → EStateM ε Reader β} (first : Steady read)
    (second : ∀ value, Steady (next value)) : Steady (read >>= next) :=
  fun message place => ((first message place).bind fun value middle _ =>
    second value message middle).steady

theorem map (change : α → β) (steady : Steady read) : Steady (change <$> read) :=
  fun message place => ((steady message place).map change).steady

theorem pure (value : α) : Steady (Pure.pure value : EStateM ε Reader α) :=
  fun _ _ => (Yields.pure value).steady

theorem wrapped (width : Nat) (wrap : Nat → α) : Steady (wrap <$> Read.number width) :=
  fun _ _ => (Yields.wrapped width wrap).steady

/-- A read that looks at the cursor first, and not at the remarks. -/
theorem get_bind {next : Reader → EStateM ε Reader β} (steady : ∀ reader, Steady (next reader))
    (blind : ∀ message place remarks, next ⟨message, place, remarks⟩ = next ⟨message, place, #[]⟩) :
    Steady (get >>= next) := by
  intro message place
  have yields : Yields (get >>= next) message place
      (Reads False (next ⟨message, place, #[]⟩) message place) := by
    refine .get_bind fun remarks => ?_
    rw [blind]
    exact steady _ message place
  exact yields.steady

theorem bool : Steady Read.bool := by
  refine get_bind (fun reader => ?_) fun _ _ _ => rfl
  refine (wrapped 1 UInt8.ofNat).bind fun value => ?_
  split
  next => exact .bind (fun _ _ => (Yields.remark _).steady) fun _ => .pure _
  next => exact .pure _

theorem single : Steady Read.single := (wrapped 4 UInt32.ofNat).map _

theorem double : Steady Read.double := (wrapped 8 UInt64.ofNat).map _

theorem vector : Steady Read.vector :=
  single.bind fun _ => single.bind fun _ => single.bind fun _ => .pure _

theorem unitsUntilZero (fuel : Nat) (found : List UInt16) :
    Steady (Read.unitsUntilZero fuel found) := by
  induction fuel generalizing found with
  | zero => exact .pure _
  | succ fuel ih =>
      refine (wrapped 2 UInt16.ofNat).bind fun unit => ?_
      split
      next => exact .pure _
      next => exact ih _

theorem string : Steady Read.string :=
  get_bind (fun _ => (unitsUntilZero _ _).bind fun _ => .pure _) fun _ _ _ => rfl

end Steady

/-- A text that is read takes at least the two bytes of its end. -/
theorem Reads.string_inside {quiet : Prop} {message : Bytes} {place stop : Nat} {text : String}
    (found : Reads quiet Read.string message place text stop) : place + 2 ≤ message.size := by
  obtain ⟨later, result, _⟩ := found #[]
  obtain ⟨first, between, seen, result⟩ := bind_eq_found result
  cases seen
  obtain ⟨_, _, units, _⟩ := bind_eq_found result
  rw [Read.unitsUntilZero] at units
  obtain ⟨_, _, unit, _⟩ := bind_eq_found units
  exact (uint16_eq_found unit).2.2

end Relay.Stream
