import Relay.Frame.Header
import Relay.Stream.Writer

/-! # Drafts of a message

While a message is written, some of its numbers are only reserved. A draft is a writer together
with the slots that are still open; a message completes a draft when it goes on after it and
differs from it at most in those slots. A stretch of writing leads from one draft to another:
whatever completes the later one also completes the earlier one, and has a property that the
stretch established. Stretches compose (`Relay.Stream.Stretch.trans`), so what a message looks like
can be collected piece by piece, although its slots are filled in out of order. -/

namespace Relay.Stream

/-- A run of bytes stands at a place of a message. -/
def Holds (message : Bytes) (place : Nat) (run : List UInt8) : Prop :=
  ∀ index (inside : index < run.length), message[place + index]? = some run[index]

/-- Two runs stand at a place, one behind the other, if the second one stands where the first one
ends. -/
theorem Holds.append {message : Bytes} {place : Nat} {run rest : List UInt8} :
    Holds message place (run ++ rest) ↔
      Holds message place run ∧ Holds message (place + run.length) rest := by
  constructor
  · intro whole
    constructor
    · intro index inside
      rw [whole index (by rw [List.length_append]; omega), List.getElem_append_left inside]
    · intro index inside
      rw [Nat.add_assoc, whole (run.length + index) (by rw [List.length_append]; omega)]
      congr 1
      rw [List.getElem_append_right (Nat.le_add_right ..)]
      congr 1
      omega
  · rintro ⟨front, back⟩ index inside
    by_cases before : index < run.length
    · rw [front index before, List.getElem_append_left before]
    · rw [List.length_append] at inside
      have split : place + index = place + run.length + (index - run.length) := by omega
      rw [split, back (index - run.length) (by omega), List.getElem_append_right (by omega)]

/-- A run that is not empty lies within the message. -/
theorem Holds.le_size {message : Bytes} {place : Nat} {run : List UInt8}
    (holds : Holds message place run) (nonempty : run ≠ []) :
    place + run.length ≤ message.size := by
  have positive := List.length_pos_iff.mpr nonempty
  have last := holds (run.length - 1) (by omega)
  obtain ⟨inside, _⟩ := Array.getElem?_eq_some_iff.mp last
  omega

/-- The bytes at the place of a run are the run. -/
theorem Holds.extract {message : Bytes} {place : Nat} {run : List UInt8}
    (holds : Holds message place run) :
    (message.extract place (place + run.length)).toList = run := by
  apply List.ext_getElem?
  intro index
  rw [Array.getElem?_toList, Array.getElem?_extract]
  by_cases inside : index < run.length
  · have present := holds index inside
    obtain ⟨bounded, _⟩ := Array.getElem?_eq_some_iff.mp present
    rw [if_pos (by omega), present, List.getElem?_eq_getElem inside]
  · rw [if_neg (by omega), List.getElem?_eq_none (by omega)]

/-- The number of two bytes at the place of its run. -/
theorem Holds.numberAt {message : Bytes} {place n : Nat}
    (holds : Holds message place (littleEndian 2 n)) :
    Frame.Header.numberAt message place = UInt16.ofNat n := by
  have run := holds.extract
  rw [length_littleEndian] at run
  rw [Frame.Header.numberAt, run, ofLittleEndian_littleEndian]
  apply UInt16.toNat_inj.mp
  simp only [UInt16.toNat_ofNat', Nat.pow_eq]
  omega

/-- Two slots do not overlap. -/
def Slot.Apart (slot other : Slot) : Prop :=
  slot.position + 2 ≤ other.position ∨ other.position + 2 ≤ slot.position

theorem Slot.Apart.symm {slot other : Slot} (apart : slot.Apart other) : other.Apart slot :=
  Or.symm apart

/-- A place is none of the two of a slot. -/
def Slot.Misses (slot : Slot) (place : Nat) : Prop :=
  place < slot.position ∨ slot.position + 2 ≤ place

/-- A writer at the end of its bytes, with open slots apart from each other within them. -/
structure Drafted (writer : Writer) (slots : List Slot) : Prop where
  atEnd : writer.position = writer.bytes.size
  inside : ∀ slot ∈ slots, slot.position + 2 ≤ writer.bytes.size
  apart : slots.Pairwise Slot.Apart

/-- A message goes on after a draft and agrees with it outside the open slots. -/
structure Completes (message : Bytes) (writer : Writer) (slots : List Slot) : Prop where
  longer : writer.bytes.size ≤ message.size
  agrees : ∀ place < writer.bytes.size, (∀ slot ∈ slots, slot.Misses place) →
    message[place]? = writer.bytes[place]?

/-- A stretch of writing from one draft to another, after which a property of the message is
settled. -/
structure Stretch (before : Writer) (slots : List Slot) (after : Writer) (left : List Slot)
    (fact : Bytes → Prop) : Prop where
  drafted : Drafted before slots → Drafted after left
  settles : Drafted before slots → ∀ message, Completes message after left →
    Completes message before slots ∧ fact message

/-- The order of open slots does not matter to a draft. -/
theorem Drafted.perm {writer : Writer} {slots others : List Slot} (same : slots.Perm others)
    (draft : Drafted writer slots) : Drafted writer others where
  atEnd := draft.atEnd
  inside slot member := draft.inside slot (same.mem_iff.mpr member)
  apart := (same.pairwise_iff Slot.Apart.symm).mp draft.apart

/-- The order of open slots does not matter to what completes a draft. -/
theorem Completes.perm {message : Bytes} {writer : Writer} {slots others : List Slot}
    (same : slots.Perm others) (completes : Completes message writer slots) :
    Completes message writer others where
  longer := completes.longer
  agrees place inside misses :=
    completes.agrees place inside fun slot member => misses slot (same.mem_iff.mp member)

namespace Stretch

variable {before middle after : Writer} {slots between left : List Slot}
  {fact other : Bytes → Prop}

/-- Where nothing is written nothing is settled. -/
theorem refl (writer : Writer) (slots : List Slot) :
    Stretch writer slots writer slots fun _ => True where
  drafted draft := draft
  settles _ _ completes := ⟨completes, trivial⟩

theorem imp (stretch : Stretch before slots after left fact)
    (implies : ∀ message, Completes message after left → fact message → other message) :
    Stretch before slots after left other where
  drafted := stretch.drafted
  settles draft message completes :=
    ⟨(stretch.settles draft message completes).1,
      implies message completes (stretch.settles draft message completes).2⟩

/-- **Stretches compose**, and what each of them settled holds of the message. -/
theorem trans (first : Stretch before slots middle between fact)
    (second : Stretch middle between after left other) :
    Stretch before slots after left fun message => fact message ∧ other message where
  drafted draft := second.drafted (first.drafted draft)
  settles draft message completes := by
    -- drafts go forwards, and completing them backwards
    obtain ⟨earlier, later⟩ := second.settles (first.drafted draft) message completes
    obtain ⟨earliest, settled⟩ := first.settles draft message earlier
    exact ⟨earliest, settled, later⟩

/-- The order in which open slots are listed does not matter. -/
theorem perm {slots' left' : List Slot} (stretch : Stretch before slots after left fact)
    (sameBefore : slots.Perm slots') (sameAfter : left.Perm left') :
    Stretch before slots' after left' fact where
  drafted draft := (stretch.drafted (draft.perm sameBefore.symm)).perm sameAfter
  settles draft message completes := by
    obtain ⟨earlier, settled⟩ :=
      stretch.settles (draft.perm sameBefore.symm) message (completes.perm sameAfter.symm)
    exact ⟨earlier.perm sameBefore, settled⟩

end Stretch

namespace Writer

/-- Writing at the end appends. -/
theorem put_atEnd {writer : Writer} (atEnd : writer.position = writer.bytes.size)
    (run : List UInt8) :
    writer.put run = ⟨writer.bytes ++ run.toArray, writer.bytes.size + run.length⟩ := by
  unfold put
  induction run generalizing writer with
  | nil =>
      obtain ⟨bytes, position⟩ := writer
      simp only at atEnd
      simp [atEnd]
  | cons b rest ih =>
      obtain ⟨bytes, position⟩ := writer
      simp only at atEnd
      subst atEnd
      have pushed : putByte ⟨bytes, bytes.size⟩ b = ⟨bytes.push b, bytes.size + 1⟩ := by
        simp only [putByte, Nat.lt_irrefl, ↓reduceDIte]
      rw [List.foldl_cons, pushed, ih (by simp)]
      simp only [Writer.mk.injEq, Array.size_push, List.length_cons]
      refine ⟨?_, by omega⟩
      apply Array.toList_inj.mp
      simp

theorem putBytes_eq_put (writer : Writer) (run : Bytes) :
    writer.putBytes run = writer.put run.toList := by
  rw [putBytes, put, Array.foldl_toList]

theorem put_append (writer : Writer) (run rest : List UInt8) :
    writer.put (run ++ rest) = (writer.put run).put rest := by
  rw [put, List.foldl_append, put, put]

/-- A byte moves the position by one. -/
theorem putByte_position (writer : Writer) (b : UInt8) :
    (writer.putByte b).position = writer.position + 1 := by
  obtain ⟨bytes, position⟩ := writer
  rw [putByte]
  split <;> rfl

/-- A run moves the position by its length. -/
theorem put_position (writer : Writer) (run : List UInt8) :
    (writer.put run).position = writer.position + run.length := by
  unfold put
  induction run generalizing writer with
  | nil => rfl
  | cons b rest ih =>
      rw [List.foldl_cons, ih, putByte_position, List.length_cons]
      omega

/-- Filling in a slot keeps the cursor and the length. -/
@[simp] theorem resolve_position (writer : Writer) (slot : Slot) (value : UInt16) :
    (writer.resolve slot value).position = writer.position := rfl

@[simp] theorem resolve_size (writer : Writer) (slot : Slot) (value : UInt16) :
    (writer.resolve slot value).bytes.size = writer.bytes.size := by
  simp [resolve]

/-- Filling in a slot changes no other place. -/
theorem resolve_getElem?_of_misses {writer : Writer} {slot : Slot} {value : UInt16} {place : Nat}
    (misses : slot.Misses place) :
    (writer.resolve slot value).bytes[place]? = writer.bytes[place]? := by
  unfold Slot.Misses at misses
  rw [resolve, Array.getElem?_setIfInBounds_ne (by omega),
    Array.getElem?_setIfInBounds_ne (by omega)]

/-- A slot that was filled in holds the number. -/
theorem holds_resolve {writer : Writer} {slot : Slot} {value : UInt16}
    (inside : slot.position + 2 ≤ writer.bytes.size) :
    Holds (writer.resolve slot value).bytes slot.position (littleEndian 2 value.toNat) := by
  intro index bounded
  rw [length_littleEndian] at bounded
  have cases : index = 0 ∨ index = 1 := by omega
  rcases cases with rfl | rfl
  · rw [resolve, Array.getElem?_setIfInBounds_ne (by omega), Nat.add_zero,
      Array.getElem?_setIfInBounds_self_of_lt (by omega)]
    rfl
  · rw [resolve, Array.getElem?_setIfInBounds_self_of_lt (by simp; omega)]
    rfl

end Writer

/-- Bytes of a draft outside its open slots are bytes of every message that completes it. -/
theorem Completes.holds {message : Bytes} {writer : Writer} {slots : List Slot}
    (completes : Completes message writer slots) {place : Nat} {run : List UInt8}
    (holds : Holds writer.bytes place run)
    (clear : ∀ slot ∈ slots, place + run.length ≤ slot.position ∨ slot.position + 2 ≤ place) :
    Holds message place run := by
  intro index inside
  have present := holds index inside
  obtain ⟨bounded, _⟩ := Array.getElem?_eq_some_iff.mp present
  rw [completes.agrees _ bounded, present]
  intro slot member
  unfold Slot.Misses
  have apart := clear slot member
  omega

namespace Stretch

variable {writer : Writer} {slots : List Slot}

/-- Written bytes stand where the cursor was. -/
theorem put (run : List UInt8) :
    Stretch writer slots (writer.put run) slots fun message =>
      Holds message writer.position run where
  drafted draft := by
    rw [Writer.put_atEnd draft.atEnd]
    refine ⟨by simp, ?_, draft.apart⟩
    intro slot member
    have inside := draft.inside slot member
    simp only [Array.size_append]
    omega
  settles draft message completes := by
    rw [Writer.put_atEnd draft.atEnd] at completes
    have longer := completes.longer
    simp only [Array.size_append, List.size_toArray] at longer
    refine ⟨⟨by omega, ?_⟩, completes.holds ?_ ?_⟩
    · intro place inside misses
      rw [completes.agrees place (by simp only [Array.size_append]; omega) misses,
        Array.getElem?_append_left inside]
    · intro index inside
      rw [draft.atEnd, Array.getElem?_append_right (by omega)]
      simp [inside]
    · intro slot member
      have inside := draft.inside slot member
      rw [draft.atEnd]
      exact Or.inr inside

/-- A number that is reserved becomes an open slot. -/
theorem reserve :
    Stretch writer slots (writer.uint16 0) (⟨writer.position⟩ :: slots) fun message =>
      writer.position + 2 ≤ message.size where
  drafted draft := by
    have appended : Stretch writer slots (writer.put (littleEndian 2 0)) slots _ :=
      put (littleEndian 2 0)
    have written : Drafted (writer.uint16 0) slots := appended.drafted draft
    have grown : (writer.uint16 0).bytes.size = writer.bytes.size + 2 := by
      rw [Writer.uint16, Writer.number, Writer.put_atEnd draft.atEnd]
      simp
    refine ⟨written.atEnd, ?_, ?_⟩
    · intro slot member
      rcases List.mem_cons.mp member with rfl | member
      · have atEnd := draft.atEnd
        change writer.position + 2 ≤ _
        omega
      · exact written.inside slot member
    · refine List.pairwise_cons.mpr ⟨?_, draft.apart⟩
      intro slot member
      have inside := draft.inside slot member
      rw [← draft.atEnd] at inside
      exact Or.inr inside
  settles draft message completes := by
    have grown : writer.uint16 0 = ⟨writer.bytes ++ (littleEndian 2 0).toArray,
        writer.bytes.size + (littleEndian 2 0).length⟩ := by
      rw [Writer.uint16, Writer.number, Writer.put_atEnd draft.atEnd]
      rfl
    rw [grown] at completes
    have longer := completes.longer
    simp only [Array.size_append, List.size_toArray, length_littleEndian] at longer
    refine ⟨⟨by omega, ?_⟩, by rw [draft.atEnd]; omega⟩
    intro place inside misses
    rw [completes.agrees place (by simp only [Array.size_append]; omega),
      Array.getElem?_append_left inside]
    intro slot member
    rcases List.mem_cons.mp member with rfl | member
    · left
      rw [draft.atEnd]
      exact inside
    · exact misses slot member

/-- A slot that is filled in is closed, and the message has the number there. -/
theorem resolve (slot : Slot) (value : UInt16) :
    Stretch writer (slot :: slots) (writer.resolve slot value) slots fun message =>
      Frame.Header.numberAt message slot.position = value where
  drafted draft := by
    refine ⟨by simpa using draft.atEnd, ?_, (List.pairwise_cons.mp draft.apart).2⟩
    intro other member
    rw [Writer.resolve_size]
    exact draft.inside other (List.mem_cons_of_mem _ member)
  settles draft message completes := by
    have longer := completes.longer
    rw [Writer.resolve_size] at longer
    refine ⟨⟨longer, ?_⟩, ?_⟩
    · intro place inside misses
      rw [completes.agrees place (by rw [Writer.resolve_size]; exact inside)
          fun other member => misses other (List.mem_cons_of_mem _ member),
        Writer.resolve_getElem?_of_misses (misses slot List.mem_cons_self)]
    · have inside := draft.inside slot List.mem_cons_self
      have filled : Holds (writer.resolve slot value).bytes slot.position
          (littleEndian 2 value.toNat) := Writer.holds_resolve inside
      have holds := completes.holds filled (by
        intro other member
        rw [length_littleEndian]
        exact (List.pairwise_cons.mp draft.apart).1 other member)
      rw [holds.numberAt, UInt16.ofNat_toNat]

end Stretch

end Relay.Stream
