import Relay.Proofs.Stream.Items

/-! # What writing leaves alone

Whatever was written, sought, skipped, reserved and filled in before, a slot that is still open lies
within the bytes, so that it can be filled in at any time. Every operation of a writer changes the
bytes that it covers and no other, and never shortens them (`Relay.Stream.Writer.keeps_run`). -/

namespace Relay.Stream

namespace Writer

/-! ## Bytes at the cursor -/

/-- A run of bytes goes over those at the cursor and then beyond the end. Nothing else changes. -/
structure Overwrites (before after : Writer) (run : List UInt8) : Prop where
  position : after.position = before.position + run.length
  length : after.length = max before.length (before.position + run.length)
  holds : Holds after.bytes before.position run
  same : ∀ place, place < before.position ∨ before.position + run.length ≤ place →
    after.bytes[place]? = before.bytes[place]?

section

variable {before middle after writer : Writer} {run more : List UInt8}

/-- What goes over bytes one after the other goes over them at once. -/
theorem Overwrites.trans (first : Overwrites before middle run)
    (second : Overwrites middle after more) : Overwrites before after (run ++ more) where
  position := by
    rw [second.position, first.position, List.length_append]
    omega
  length := by
    rw [second.length, first.length, first.position, List.length_append]
    omega
  holds := by
    refine Holds.append.mpr ⟨fun index inside => ?_, first.position ▸ second.holds⟩
    rw [second.same _ (.inl (by rw [first.position]; omega)), first.holds index inside]
  same place outside := by
    rw [List.length_append] at outside
    rw [second.same place (by rw [first.position]; omega), first.same place (by omega)]

/-- No bytes go over none. -/
theorem overwrites_nil (inside : writer.position ≤ writer.length) :
    Overwrites writer writer [] where
  position := rfl
  length := (Nat.max_eq_left inside).symm
  holds _ none := absurd none (Nat.not_lt_zero _)
  same _ _ := rfl

/-- A byte goes over the one at the cursor or beyond the end. -/
theorem overwrites_putByte (inside : writer.position ≤ writer.length) (b : UInt8) :
    Overwrites writer (writer.putByte b) [b] := by
  obtain ⟨bytes, position⟩ := writer
  simp only [length] at inside
  rw [putByte]
  split
  next within =>
    refine ⟨rfl, ?_, ?_, fun place outside => ?_⟩
    · simp only [length, Array.size_set, List.length_singleton]
      omega
    · intro index only
      cases Nat.lt_one_iff.mp only
      exact Array.getElem?_set_self within
    · simp only [List.length_singleton] at outside
      exact Array.getElem?_set_ne within (by omega)
  next beyond =>
    have atEnd : position = bytes.size := by omega
    subst atEnd
    refine ⟨rfl, ?_, ?_, fun place outside => ?_⟩
    · simp only [length, Array.size_push, List.length_singleton]
      omega
    · intro index only
      cases Nat.lt_one_iff.mp only
      exact Array.getElem?_push_size
    · simp only [List.length_singleton] at outside
      rw [Array.getElem?_push, if_neg (by omega)]

/-- **A write at the cursor** changes the bytes that it covers and no other. -/
theorem overwrites_put (inside : writer.position ≤ writer.length) (run : List UInt8) :
    Overwrites writer (writer.put run) run := by
  induction run generalizing writer with
  | nil => exact overwrites_nil inside
  | cons b rest ih =>
      have first := overwrites_putByte inside b
      have room : (writer.putByte b).position ≤ (writer.putByte b).length := by
        rw [first.position, first.length]
        exact Nat.le_max_right ..
      exact first.trans (ih room)

theorem seek_of_le {target : Nat} (within : target ≤ writer.length) :
    writer.seek target = .ok { writer with position := target } :=
  if_neg (Nat.not_lt.mpr within)

theorem seek_of_lt {target : Nat} (beyond : writer.length < target) :
    writer.seek target = .error (.seekOutOfBounds target writer.length) :=
  if_pos beyond

/-- The cursor goes on, over bytes that stay and then over zeros. -/
structure Skips (before after : Writer) (count : Nat) : Prop where
  position : after.position = before.position + count
  length : after.length = max before.length (before.position + count)
  same : ∀ place < before.length, after.bytes[place]? = before.bytes[place]?
  zeros : ∀ place, before.length ≤ place → place < after.length →
    after.bytes[place]? = some 0

/-- To skip goes on by so many bytes. -/
theorem skips_skip (writer : Writer) (count : Nat) : Skips writer (writer.skip count) count := by
  obtain ⟨bytes, position⟩ := writer
  refine ⟨rfl, ?_, fun place within => ?_, fun place beyond within => ?_⟩
  · simp only [skip, length, Array.size_append, Array.size_replicate]
    omega
  · exact Array.getElem?_append_left within
  · simp only [skip, length, Array.size_append, Array.size_replicate] at beyond within ⊢
    rw [Array.getElem?_append_right beyond, Array.getElem?_replicate, if_pos (by omega)]

/-- The two bytes of a slot become a number. Nothing else changes. -/
structure Fills (before after : Writer) (slot : Slot) (value : UInt16) : Prop where
  position : after.position = before.position
  length : after.length = before.length
  holds : Holds after.bytes slot.position (littleEndian 2 value.toNat)
  same : ∀ place, slot.Misses place → after.bytes[place]? = before.bytes[place]?

/-- A slot within the bytes is filled in. -/
theorem fills_resolve {slot : Slot} (inside : slot.position + 2 ≤ writer.length)
    (value : UInt16) : Fills writer (writer.resolve slot value) slot value where
  position := resolve_position writer slot value
  length := resolve_size writer slot value
  holds := holds_resolve inside
  same _ misses := resolve_getElem?_of_misses misses

end

/-! ## Operations of a writer -/

/-- What a writer is asked. -/
inductive Operation where
  | item (item : Item)
  | rotation (value : Vector3)
  | seek (target : Nat)
  | skip (count : Nat)
  | reserve
  | resolve (slot : Slot) (value : UInt16)
  | resolveHere (slot : Slot)
  deriving DecidableEq, Repr

/-- A writer and the slots that it gave out and that are still open. -/
structure Session where
  writer : Writer
  slots : List Slot
  deriving DecidableEq, Repr

namespace Session

/-- Nothing written yet, and no slot given out. -/
def start : Session := ⟨.empty, []⟩

/-- Do what is asked. Only a slot that is open can be filled in. It is used up by that, even where
the position of the cursor is too large for it. -/
def perform (session : Session) : Operation → Session
  | .item item => { session with writer := item.write session.writer }
  | .rotation value => { session with writer := session.writer.rotation value }
  | .seek target =>
    match session.writer.seek target with
    | .ok after => { session with writer := after }
    | .error _ => session
  | .skip count => { session with writer := session.writer.skip count }
  | .reserve =>
    let (slot, after) := session.writer.reserve
    ⟨after, slot :: session.slots⟩
  | .resolve slot value =>
    if slot ∈ session.slots then ⟨session.writer.resolve slot value, session.slots.erase slot⟩
    else session
  | .resolveHere slot =>
    if slot ∈ session.slots then
      match session.writer.resolveHere slot with
      | .ok (_, after) => ⟨after, session.slots.erase slot⟩
      | .error _ => { session with slots := session.slots.erase slot }
    else session

/-- The session after some operations. -/
def run (operations : List Operation) : Session :=
  operations.foldl perform start

/-- What an operation does to a session: a value that is written goes over the bytes at the cursor;
a seek moves the cursor, or does nothing if its target is beyond the end; a slot that is reserved
stands where the cursor was; and one that is filled in becomes a number, which is the position of
the cursor if that is what is asked for and two bytes suffice. -/
def Does (before after : Session) : Operation → Prop
  | .item item => after.slots = before.slots ∧ Overwrites before.writer after.writer item.run
  | .rotation _ => after.slots = before.slots ∧
    ∃ run, run.length = 12 ∧ Overwrites before.writer after.writer run
  | .seek target =>
    if target ≤ before.writer.length then
      after = { before with writer := { before.writer with position := target } }
    else after = before
  | .skip count => after.slots = before.slots ∧ Skips before.writer after.writer count
  | .reserve => after.slots = ⟨before.writer.position⟩ :: before.slots ∧
    Overwrites before.writer after.writer [0, 0]
  | .resolve slot value =>
    if slot ∈ before.slots then
      after.slots = before.slots.erase slot ∧ Fills before.writer after.writer slot value
    else after = before
  | .resolveHere slot =>
    if slot ∈ before.slots then
      after.slots = before.slots.erase slot ∧
        if before.writer.position < UInt16.size then
          Fills before.writer after.writer slot (.ofNat before.writer.position)
        else after.writer = before.writer
    else after = before

/-- The cursor and the open slots lie within the bytes. -/
structure Sound (session : Session) : Prop where
  inside : session.writer.position ≤ session.writer.length
  slots : ∀ slot ∈ session.slots, slot.position + 2 ≤ session.writer.length

variable {session before after : Session} {operation : Operation}

/-- **One operation** does what it is to do. -/
theorem does_perform (sound : session.Sound) (operation : Operation) :
    Does session (session.perform operation) operation := by
  cases operation with
  | item item =>
      rw [Does, perform, item.write_eq_put]
      exact ⟨rfl, overwrites_put sound.inside item.run⟩
  | rotation value =>
      obtain ⟨run, length, writes, _⟩ := Carried.rotation value
      rw [Does, perform, writes]
      exact ⟨rfl, run, length, overwrites_put sound.inside run⟩
  | seek target =>
      rw [Does, perform]
      by_cases within : target ≤ session.writer.length
      · rw [if_pos within, seek_of_le within]
      · rw [if_neg within, seek_of_lt (Nat.not_le.mp within)]
  | skip count =>
      rw [Does, perform]
      exact ⟨rfl, skips_skip session.writer count⟩
  | reserve =>
      rw [Does, perform]
      exact ⟨rfl, overwrites_put sound.inside [0, 0]⟩
  | resolve slot value =>
      rw [Does, perform]
      by_cases waiting : slot ∈ session.slots
      · rw [if_pos waiting, if_pos waiting]
        exact ⟨rfl, fills_resolve (sound.slots slot waiting) value⟩
      · rw [if_neg waiting, if_neg waiting]
  | resolveHere slot =>
      rw [Does, perform]
      by_cases waiting : slot ∈ session.slots
      · rw [if_pos waiting, if_pos waiting, resolveHere, shortPosition]
        by_cases short : session.writer.position < UInt16.size
        · rw [if_pos short, if_pos short]
          exact ⟨rfl, fills_resolve (sound.slots slot waiting) _⟩
        · rw [if_neg short, if_neg short]
          exact ⟨rfl, rfl⟩
      · rw [if_neg waiting, if_neg waiting]

/-- Behind an operation the cursor and the open slots lie within the bytes, which have not become
fewer. -/
structure StaysSound (before after : Session) : Prop where
  sound : after.Sound
  grows : before.writer.length ≤ after.writer.length

namespace StaysSound

/-- Of the slots that are open afterwards, only a new one needs a reason of its own. -/
theorem of_grows (sound : before.Sound)
    (inside : after.writer.position ≤ after.writer.length)
    (grows : before.writer.length ≤ after.writer.length)
    (slots : ∀ slot ∈ after.slots,
      slot ∈ before.slots ∨ slot.position + 2 ≤ after.writer.length) :
    StaysSound before after := by
  refine ⟨⟨inside, fun slot member => ?_⟩, grows⟩
  rcases slots slot member with earlier | new
  · exact Nat.le_trans (sound.slots slot earlier) grows
  · exact new

theorem refl (sound : session.Sound) : StaysSound session session :=
  ⟨sound, Nat.le_refl _⟩

/-- What goes over bytes leaves a session sound if it does not open slots elsewhere. -/
theorem overwrites {run : List UInt8} (sound : before.Sound)
    (written : Overwrites before.writer after.writer run)
    (slots : ∀ slot ∈ after.slots,
      slot ∈ before.slots ∨ slot.position + 2 ≤ before.writer.position + run.length) :
    StaysSound before after := by
  have length := written.length
  refine of_grows sound ?_ (by omega) fun slot member => ?_
  · rw [written.position]
    omega
  · refine (slots slot member).imp_right fun room => ?_
    omega

/-- A slot that is filled in is not open any more, and the bytes are as many as before. -/
theorem closes {slot : Slot} (sound : before.Sound)
    (slots : after.slots = before.slots.erase slot)
    (position : after.writer.position = before.writer.position)
    (length : after.writer.length = before.writer.length) : StaysSound before after := by
  refine of_grows sound ?_ (Nat.le_of_eq length.symm) fun other member => .inl ?_
  · rw [position, length]
    exact sound.inside
  · exact List.mem_of_mem_erase (slots ▸ member)

end StaysSound

/-- **What is done keeps all within the bytes.** -/
theorem Does.staysSound (does : Does before after operation) (sound : before.Sound) :
    StaysSound before after := by
  cases operation with
  | item item =>
      obtain ⟨slots, written⟩ := does
      exact .overwrites sound written fun slot member => .inl (slots ▸ member)
  | rotation value =>
      obtain ⟨slots, run, _, written⟩ := does
      exact .overwrites sound written fun slot member => .inl (slots ▸ member)
  | reserve =>
      obtain ⟨slots, written⟩ := does
      refine .overwrites sound written fun slot member => ?_
      rw [slots] at member
      rcases List.mem_cons.mp member with rfl | earlier
      · exact .inr (Nat.le_refl _)
      · exact .inl earlier
  | seek target =>
      rw [Does] at does
      split at does
      next within =>
        subst does
        exact .of_grows sound within (Nat.le_refl _) fun slot member => .inl member
      next =>
        subst does
        exact .refl sound
  | skip count =>
      obtain ⟨slots, skipped⟩ := does
      have length := skipped.length
      refine .of_grows sound ?_ (by omega) fun slot member => .inl (slots ▸ member)
      rw [skipped.position]
      omega
  | resolve slot value =>
      rw [Does] at does
      split at does
      next => exact .closes sound does.1 does.2.position does.2.length
      next =>
        subst does
        exact .refl sound
  | resolveHere slot =>
      rw [Does] at does
      split at does
      next =>
        obtain ⟨slots, does⟩ := does
        split at does
        next => exact .closes sound slots does.position does.length
        next => exact .closes sound slots (by rw [does]) (by rw [does])
      next =>
        subst does
        exact .refl sound

/-- **A session is sound after any operations.** -/
theorem sound_run (operations : List Operation) : (run operations).Sound := by
  have onwards (session : Session) (sound : session.Sound) :
      (operations.foldl perform session).Sound := by
    induction operations generalizing session with
    | nil => exact sound
    | cons operation rest ih =>
        exact ih _ ((does_perform sound operation).staysSound sound).sound
  exact onwards start ⟨Nat.le_refl _, fun slot none => absurd none List.not_mem_nil⟩

end Session

/-- What holds of a session and an operation: the cursor stands within the bytes, and so do the
open slots, which can be filled in at any time; and the operation does what it is to do, by which
the bytes do not become fewer. -/
structure Keeps (session : Session) (operation : Operation) : Prop where
  inside : session.writer.position ≤ session.writer.length
  slots : ∀ slot ∈ session.slots, slot.position + 2 ≤ session.writer.length
  grows : session.writer.length ≤ (session.perform operation).writer.length
  does : Session.Does session (session.perform operation) operation

/-- **Writing leaves all else alone**, after whatever else a writer was asked. -/
theorem keeps_run (operations : List Operation) (operation : Operation) :
    Keeps (Session.run operations) operation := by
  have sound := Session.sound_run operations
  have does := Session.does_perform sound operation
  exact ⟨sound.inside, sound.slots, (does.staysSound sound).grows, does⟩

/-- A slot that is filled in after it was written over. -/
example : (Session.run [.item (.uint8 7), .reserve, .seek 0, .item (.uint32 0x04030201),
    .resolveHere ⟨1⟩]).writer.bytes = #[1, 4, 0, 4] := by decide

end Writer

end Relay.Stream
