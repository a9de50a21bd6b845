import Relay.Layout.Encode
import Relay.Proofs.Stream.Draft

/-! # Single steps of writing

What a step of writing did when it went well. A draw takes something from an item and leaves the
message alone (`Relay.Layout.Draws`); filling in headers covers a stretch of the draft in which
their slots are closed. -/

namespace Relay.Layout

open Relay.Stream Relay.Floating

variable {α β : Type} {writer after : Writer}

namespace Encode

/-- A step goes well as a whole if both of its parts do, one after the other. -/
theorem bind_eq_ok {step : Encode α} {next : α → Encode β} {result : β × Writer} :
    (step >>= next) writer = .ok result ↔
      ∃ value middle, step writer = .ok (value, middle) ∧ next value middle = .ok result := by
  change (step writer >>= fun pair => next pair.1 pair.2) = .ok result ↔ _
  cases step writer with
  | error cause =>
      constructor
      · intro impossible
        cases impossible
      · rintro ⟨_, _, impossible, _⟩
        cases impossible
  | ok pair =>
      constructor
      · intro further
        exact ⟨pair.1, pair.2, rfl, further⟩
      · rintro ⟨value, middle, found, further⟩
        cases found
        exact further

/-- A step behind one that goes well goes on from there. -/
theorem bind_of_ok {step : Encode α} {next : α → Encode β} {value : α}
    (done : step writer = .ok (value, after)) : (step >>= next) writer = next value after := by
  change (step writer >>= fun pair => next pair.1 pair.2) = _
  rw [done]
  rfl

/-- What a step results in may be changed. -/
theorem map_eq_ok {step : Encode α} {change : α → β} {result : β × Writer} :
    (change <$> step) writer = .ok result ↔
      ∃ value, step writer = .ok (value, result.2) ∧ change value = result.1 := by
  change (step writer >>= fun pair => Except.ok (change pair.1, pair.2)) = .ok result ↔ _
  cases step writer with
  | error cause =>
      constructor
      · intro impossible
        cases impossible
      · rintro ⟨_, impossible, _⟩
        cases impossible
  | ok pair =>
      constructor
      · intro found
        cases found
        exact ⟨pair.1, rfl, rfl⟩
      · rintro ⟨value, found, same⟩
        obtain ⟨output, after⟩ := result
        cases found
        cases same
        rfl

theorem pure_eq_ok {value : α} {result : α × Writer} :
    (pure value : Encode α) writer = .ok result ↔ result = (value, writer) := by
  change Except.ok (value, writer) = .ok result ↔ _
  rw [Except.ok.injEq, eq_comm]

theorem throw_ne_ok {error : EncodeError} {result : α × Writer} :
    ¬ (throw error : Encode α) writer = .ok result := by
  intro equal
  change Except.error error = .ok result at equal
  cases equal

theorem write_eq_ok {change : Writer → Writer} {result : Unit × Writer} :
    write change writer = .ok result ↔ result = ((), change writer) := by
  change Except.ok ((), change writer) = .ok result ↔ _
  rw [Except.ok.injEq, eq_comm]

theorem get_eq_ok {result : Writer × Writer} :
    (get : Encode Writer) writer = .ok result ↔ result = (writer, writer) := by
  change Except.ok (writer, writer) = .ok result ↔ _
  rw [Except.ok.injEq, eq_comm]

/-- The position of the cursor is found when it is a number of two bytes. -/
theorem here_of_short (short : writer.position < UInt16.size) :
    here writer = .ok (.ofNat writer.position, writer) := by
  have found : writer.shortPosition = .ok (.ofNat writer.position) := by
    rw [Writer.shortPosition, if_pos short]
  unfold here
  refine bind_eq_ok.mpr ⟨writer, writer, rfl, ?_⟩
  rw [found]
  rfl

/-- A place that is too far is refused. -/
theorem here_of_long (long : ¬ writer.position < UInt16.size) :
    here writer = .error (.tooLarge writer.position) := by
  have refused : writer.shortPosition = .error (.positionOverflow writer.position) := by
    rw [Writer.shortPosition, if_neg long]
  unfold here
  rw [bind_of_ok (get_eq_ok.mpr rfl), refused]
  rfl

/-- A place that is told is that of the writer. -/
theorem here_eq_ok {position : UInt16} (found : here writer = .ok (position, after)) :
    after = writer ∧ position.toNat = writer.position := by
  by_cases short : writer.position < UInt16.size
  · rw [here_of_short short] at found
    cases found
    exact ⟨rfl, UInt16.toNat_ofNat_of_lt' short⟩
  · rw [here_of_long short] at found
    cases found

end Encode

/-- A step that takes what is offered and leaves the message alone. It fails when nothing is. -/
def Draws (draw : Encode α) (offer : Option α) : Prop :=
  ∀ writer result, draw writer = .ok result ↔ ∃ value, offer = some value ∧ result = (value, writer)

namespace Draws

theorem pure (value : α) : Draws (Pure.pure value) (some value) := by
  intro writer result
  rw [Encode.pure_eq_ok]
  simp

theorem refuse (error : EncodeError) : Draws (throw error : Encode α) none := by
  intro writer result
  constructor
  · intro found
    exact absurd found Encode.throw_ne_ok
  · rintro ⟨_, impossible, _⟩
    cases impossible

theorem map {draw : Encode α} {offer : Option α} (draws : Draws draw offer) (change : α → β) :
    Draws (change <$> draw) (offer.map change) := by
  intro writer result
  rw [Encode.map_eq_ok]
  constructor
  · rintro ⟨value, found, same⟩
    obtain ⟨_, offered, equal⟩ := (draws _ _).mp found
    cases equal
    exact ⟨change value, by rw [offered, Option.map_some], Prod.ext same.symm rfl⟩
  · rintro ⟨value, offered, rfl⟩
    obtain ⟨source, present, rfl⟩ := Option.map_eq_some_iff.mp offered
    exact ⟨source, (draws _ _).mpr ⟨source, present, rfl⟩, rfl⟩

/-- What was drawn is written. -/
theorem write {draw : Encode α} {offer : Option α} (draws : Draws draw offer)
    (change : α → Writer → Writer) {result : Unit × Writer} :
    (draw >>= fun value => Encode.write (change value)) writer = .ok result ↔
      ∃ value, offer = some value ∧ result = ((), change value writer) := by
  rw [Encode.bind_eq_ok]
  constructor
  · rintro ⟨value, middle, found, written⟩
    obtain ⟨_, offered, equal⟩ := (draws _ _).mp found
    cases equal
    exact ⟨value, offered, Encode.write_eq_ok.mp written⟩
  · rintro ⟨value, offered, rfl⟩
    exact ⟨value, writer, (draws _ _).mpr ⟨value, offered, rfl⟩, rfl⟩

/-- What is offered can be written. -/
theorem writes {draw : Encode α} {offer : Option α} (draws : Draws draw offer) {value : α}
    (offered : offer = some value) (change : α → Writer → Writer) :
    ∃ result, (draw >>= fun value => Encode.write (change value)) writer = .ok result :=
  ⟨_, (draws.write change).mpr ⟨value, offered, rfl⟩⟩

end Draws

namespace Offer

/-- A whole number between two bounds. What is left out counts as zero in all draws. -/
def whole (lowest highest : Int) : Option Value → Option Int
  | none => some 0
  | some value => value.integerWithin? lowest highest

/-- A whole number of so many bits without a sign. -/
def natural (bits : Nat) (item : Option Value) : Option Nat :=
  (whole 0 (Nat.pow 2 bits - 1) item).map Int.toNat

/-- A whole number of so many bits with a sign. -/
def signed (bits : Nat) (item : Option Value) : Option Int :=
  whole (-Nat.pow 2 (bits - 1)) (Nat.pow 2 (bits - 1) - 1) item

/-- A number. -/
def real : Option Value → Option Double
  | none => some .zero
  | some value => value.number?

/-- A truth value. -/
def truth : Option Value → Option Bool
  | none => some false
  | some (.bool value) => some value
  | some value => value.integer?.map (· != 0)

/-- A vector. -/
def vector : Option Value → Option Vector3
  | none => some .zero
  | some (.vector value) => some value
  | some _ => none

/-- An angle, or a number of radians. -/
def angle : Option Value → Option Angle
  | some (.angle value) => some value
  | item => (real item).map Angle.ofRadians

/-- A skill, or the number of a skill of a player. -/
def skill : Option Value → Option Skill
  | none => some .zero
  | some (.skill value) => some value
  | item => (natural 32 item).map fun n => .player (.ofNat n)

/-- An appearance, or its word. -/
def appearance : Option Value → Option Appearance
  | some (.appearance value) => some value
  | item => (natural 64 item).map fun n => .ofWord (.ofNat n)

end Offer

section

variable (path expected : String) (item : Option Value)

theorem draws_integer (lowest highest : Int) :
    Draws (Encode.integer lowest highest path expected item)
      (Offer.whole lowest highest item) := by
  cases item with
  | none => exact .pure 0
  | some value =>
      rw [Encode.integer, Offer.whole, Value.integerWithin?]
      cases value.integer? with
      | none => exact .refuse _
      | some n =>
          by_cases inside : lowest ≤ n ∧ n ≤ highest
          · simp only [inside, Option.filter, and_self, decide_true, ↓reduceIte]
            exact .pure n
          · simp only [inside, Option.filter, decide_false, Bool.false_eq_true, ↓reduceIte]
            exact .refuse _

theorem draws_natural (bits : Nat) :
    Draws (Encode.natural bits path expected item) (Offer.natural bits item) :=
  (draws_integer path expected item _ _).map Int.toNat

theorem draws_signed (bits : Nat) :
    Draws (Encode.signed bits path expected item) (Offer.signed bits item) :=
  draws_integer path expected item _ _

theorem draws_number : Draws (Encode.number path expected item) (Offer.real item) := by
  cases item with
  | none => exact .pure _
  | some value =>
      rw [Encode.number, Offer.real]
      cases value.number? with
      | none => exact .refuse _
      | some n => exact .pure n

theorem draws_truth : Draws (Encode.truth path expected item) (Offer.truth item) := by
  cases item with
  | none => exact .pure _
  | some value =>
      cases value with
      | bool value => exact .pure _
      | byte | int16 | uint16 | int32 | uint32 | int64 | uint64 => exact .pure _
      | _ => exact .refuse _

theorem draws_vector : Draws (Encode.vector path expected item) (Offer.vector item) := by
  cases item with
  | none => exact .pure _
  | some value =>
      cases value with
      | vector value => exact .pure _
      | _ => exact .refuse _

theorem draws_angle : Draws (Encode.angle path expected item) (Offer.angle item) := by
  have asNumber := (draws_number path expected item).map Angle.ofRadians
  cases item with
  | none => exact asNumber
  | some value =>
      cases value with
      | angle value => exact .pure _
      | _ => exact asNumber

theorem draws_skill : Draws (Encode.skill path expected item) (Offer.skill item) := by
  have asNumber := (draws_natural path expected item 32).map fun n => Skill.player (.ofNat n)
  cases item with
  | none => exact .pure _
  | some value =>
      cases value with
      | skill value => exact .pure _
      | _ => exact asNumber

theorem draws_appearance :
    Draws (Encode.appearance path expected item) (Offer.appearance item) := by
  have asNumber := (draws_natural path expected item 64).map fun n => Appearance.ofWord (.ofNat n)
  cases item with
  | none => exact asNumber
  | some value =>
      cases value with
      | appearance value => exact .pure _
      | _ => exact asNumber

end

end Relay.Layout
