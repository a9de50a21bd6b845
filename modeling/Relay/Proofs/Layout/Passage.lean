import Relay.Proofs.Layout.InOrder
import Relay.Proofs.Layout.Slots

/-! # Passages of a level

While a level is written, its headers wait to be filled in. A passage is a stretch of writing
together with what a decoder knows that reads along: before and after it, the headers that the
decoder has read are those that wait, with the values that they will have in the end
(`Relay.Layout.Desk.Synced`). Headers that still wait although their field was written will be zero
(`Relay.Layout.Desk.Spent`), so a field that wrote nothing is read as empty. -/

namespace Relay.Layout

open Relay.Stream Relay.Frame.Header

/-- Where the writing of a level stands: the draft, the headers that wait, the keys of the fields
that are still due, and the open slots that are no business of the level. -/
structure Desk where
  writer : Writer
  waiting : OpenSlots
  due : List String
  held : List Slot

namespace Desk

/-- The open slots of the draft. -/
def slots (desk : Desk) : List Slot :=
  desk.waiting.slots.map Prod.snd ++ desk.held

/-- Headers whose field is not due any more are zero in a message. -/
def Spent (desk : Desk) (message : Bytes) : Prop :=
  ∀ entry ∈ desk.waiting.slots, entry.1.2 ∉ desk.due → numberAt message entry.2.position = 0

/-- The headers that were read for the fields that are due are those that wait. -/
def Synced (desk : Desk) (headers : HeaderValues) (message : Bytes) : Prop :=
  ∀ kind, ∀ key ∈ desk.due, headers.get? kind key =
    (desk.waiting.slots.lookup (kind, key)).map fun slot => numberAt message slot.position

end Desk

/-- Known headers wait as long as their field is due. -/
def OpenSlots.Knows (waiting : OpenSlots) (due : List String)
    (known : List (HeaderKind × String)) : Prop :=
  ∀ entry ∈ known, entry.2 ∈ due → (waiting.slots.lookup entry).isSome

/-- A stretch of writing along which a decoder keeps up. -/
def Passage (before after : Desk) (fact : Bytes → HeaderValues → HeaderValues → Prop) : Prop :=
  Stretch before.writer before.slots after.writer after.slots fun message =>
    after.Spent message → before.Spent message ∧
      ∀ headers, before.Synced headers message →
        ∃ left, fact message headers left ∧ after.Synced left message

namespace Passage

variable {before middle after : Desk} {fact other : Bytes → HeaderValues → HeaderValues → Prop}

/-- **Passages compose.** -/
theorem trans (first : Passage before middle fact) (second : Passage middle after other) :
    Passage before after fun message headers left =>
      ∃ between, fact message headers between ∧ other message between left := by
  refine (Stretch.trans first second).imp ?_
  intro message _ settled spent
  -- what is spent is known from the end backwards, what is read from the beginning
  obtain ⟨spentBefore, further⟩ := settled.2 spent
  obtain ⟨spentFirst, reading⟩ := settled.1 spentBefore
  refine ⟨spentFirst, fun headers synced => ?_⟩
  obtain ⟨between, known, syncedBetween⟩ := reading headers synced
  obtain ⟨left, found, syncedAfter⟩ := further between syncedBetween
  exact ⟨left, ⟨between, known, found⟩, syncedAfter⟩

theorem imp (passage : Passage before after fact)
    (implies : ∀ message headers left, fact message headers left → other message headers left) :
    Passage before after other := by
  refine Stretch.imp passage ?_
  intro message _ settled spent
  obtain ⟨spentBefore, reading⟩ := settled spent
  refine ⟨spentBefore, fun headers synced => ?_⟩
  obtain ⟨left, found, syncedAfter⟩ := reading headers synced
  exact ⟨left, implies message headers left found, syncedAfter⟩

/-- A stretch that leaves the headers of the level alone. -/
theorem of_stretch {writer next : Writer} {waiting : OpenSlots} {due : List String}
    {held left : List Slot} {fact : Bytes → Prop}
    (stretch : Stretch writer (waiting.slots.map Prod.snd ++ held) next
      (waiting.slots.map Prod.snd ++ left) fact) :
    Passage ⟨writer, waiting, due, held⟩ ⟨next, waiting, due, left⟩ fun message headers left =>
      left = headers ∧ fact message := by
  refine Stretch.imp stretch ?_
  intro message _ settled spent
  exact ⟨spent, fun headers synced => ⟨headers, ⟨rfl, settled⟩, synced⟩⟩

/-- The order of the other open slots does not matter. -/
theorem perm {writer next : Writer} {waiting left : OpenSlots} {due more : List String}
    {held held' rest rest' : List Slot}
    (passage : Passage ⟨writer, waiting, due, held⟩ ⟨next, left, more, rest⟩ fact)
    (sameBefore : held.Perm held') (sameAfter : rest.Perm rest') :
    Passage ⟨writer, waiting, due, held'⟩ ⟨next, left, more, rest'⟩ fact :=
  Stretch.perm passage (sameBefore.append_left _) (sameAfter.append_left _)

end Passage

/-- Only headers for one key were taken out of those that wait. -/
structure Taken (key : String) (waiting left : OpenSlots) : Prop where
  lookup : ∀ entry : HeaderKind × String, entry.2 ≠ key →
    left.slots.lookup entry = waiting.slots.lookup entry
  kept : ∀ entry ∈ waiting.slots, entry.1.2 ≠ key → entry ∈ left.slots

namespace Taken

variable {key : String} {waiting between left : OpenSlots}

theorem refl (key : String) (waiting : OpenSlots) : Taken key waiting waiting :=
  ⟨fun _ _ => rfl, fun _ member _ => member⟩

/-- What a field takes is keyed to it. -/
theorem take (kind : HeaderKind) (key : String) (waiting : OpenSlots) :
    Taken key waiting (waiting.take kind key).2 := by
  refine ⟨fun entry differs => ?_, fun entry member differs => ?_⟩
  · apply waiting.lookup_take kind key
    rintro rfl
    exact differs rfl
  · apply waiting.mem_take_of_ne kind key member
    intro same
    exact differs (congrArg Prod.snd same)

theorem trans (first : Taken key waiting between) (second : Taken key between left) :
    Taken key waiting left where
  lookup entry differs := (second.lookup entry differs).trans (first.lookup entry differs)
  kept entry member differs := second.kept entry (first.kept entry member differs) differs

end Taken

/-- A stretch in which a field is written and its headers are taken out. What is left of them is
zero, and the decoder knows them by the slots that waited. -/
theorem Passage.close {writer next : Writer} {waiting left : OpenSlots} {key : String}
    {due : List String} {held rest : List Slot} {fact : Bytes → Prop}
    (stretch : Stretch writer (waiting.slots.map Prod.snd ++ held) next
      (left.slots.map Prod.snd ++ rest) fact)
    (taken : Taken key waiting left) (fresh : key ∉ due) :
    Passage ⟨writer, waiting, key :: due, held⟩ ⟨next, left, due, rest⟩
      fun message headers after => after = headers ∧ fact message ∧
        (∀ kind, headers.get? kind key =
          (waiting.slots.lookup (kind, key)).map fun slot => numberAt message slot.position) ∧
        ∀ entry ∈ left.slots, entry.1.2 = key → numberAt message entry.2.position = 0 := by
  refine Stretch.imp stretch ?_
  intro message _ settled spent
  refine ⟨?_, fun headers synced => ⟨headers, ⟨rfl, settled, ?_, ?_⟩, ?_⟩⟩
  · intro entry member past
    rw [List.mem_cons, not_or] at past
    exact spent entry (taken.kept entry member past.1) past.2
  · exact fun kind => synced kind key List.mem_cons_self
  · intro entry member same
    exact spent entry member (same ▸ fresh)
  · intro kind other member
    have differs : other ≠ key := by
      rintro rfl
      exact fresh member
    rw [synced kind other (List.mem_cons_of_mem _ member), taken.lookup (kind, other) differs]

/-- What was known of the other fields is still known when a field is written. -/
theorem OpenSlots.Knows.close {waiting left : OpenSlots} {key : String} {due : List String}
    {known : List (HeaderKind × String)} (knows : waiting.Knows (key :: due) known)
    (taken : Taken key waiting left) (fresh : key ∉ due) : left.Knows due known := by
  intro entry member stillDue
  have differs : entry.2 ≠ key := by
    rintro rfl
    exact fresh stillDue
  rw [taken.lookup entry differs]
  exact knows entry member (List.mem_cons_of_mem _ stillDue)

end Relay.Layout
