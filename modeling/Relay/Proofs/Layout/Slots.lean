import Relay.Proofs.Layout.Fields

/-! # Filling in headers

Each way of filling in headers keeps the cursor and closes slots of the draft, and in a message that
completes what follows the headers have the values that were filled in. -/

namespace Relay.Layout

open Relay.Stream Relay.Frame.Header Encode

variable {writer after : Writer}

/-- Filling in a header, or none. -/
theorem resolve_eq_ok {slot : Option Slot} {value : UInt16} {result : Unit × Writer} :
    Encode.resolve slot value writer = .ok result ↔
      result = ((), slot.elim writer (writer.resolve · value)) := by
  cases slot with
  | none => exact pure_eq_ok
  | some slot => exact write_eq_ok

/-- A slot that is filled in holds the number, however the message goes on. -/
theorem stretch_resolve {slot : Option Slot} {value : UInt16}
    (found : Encode.resolve slot value writer = .ok ((), after)) :
    after.position = writer.position ∧ ∀ slots,
      Stretch writer (slot.toList ++ slots) after slots fun message =>
        ∀ header ∈ slot, numberAt message header.position = value := by
  have same := congrArg Prod.snd (resolve_eq_ok.mp found)
  simp only at same
  subst same
  cases slot with
  | none =>
      refine ⟨rfl, fun slots => (Stretch.refl writer slots).imp ?_⟩
      intro _ _ _ header none
      cases none
  | some slot =>
      refine ⟨rfl, fun slots => (Stretch.resolve slot value).imp ?_⟩
      intro _ _ filled header same
      cases same
      exact filled

/-- A slot that is filled in with the place holds the position of the writer. -/
theorem stretch_resolveHere {slot : Option Slot}
    (found : resolveHere slot writer = .ok ((), after)) :
    after.position = writer.position ∧ ∀ slots,
      Stretch writer (slot.toList ++ slots) after slots fun message =>
        ∀ header ∈ slot, (numberAt message header.position).toNat = writer.position := by
  cases slot with
  | none =>
      cases pure_eq_ok.mp found
      refine ⟨rfl, fun slots => (Stretch.refl writer slots).imp ?_⟩
      intro _ _ _ header none
      cases none
  | some slot =>
      obtain ⟨position, middle, here, filled⟩ := bind_eq_ok.mp found
      obtain ⟨rfl, number⟩ := here_eq_ok here
      obtain ⟨still, stretch⟩ := stretch_resolve filled
      refine ⟨still, fun slots => (stretch slots).imp ?_⟩
      intro _ _ filled header member
      rw [filled header member, number]

/-- A slot that is filled in with a count holds the count. -/
theorem stretch_resolveCount {slot : Option Slot} {path : String} {count : Nat}
    (found : resolveCount slot path count writer = .ok ((), after)) :
    after.position = writer.position ∧ ∀ slots,
      Stretch writer (slot.toList ++ slots) after slots fun message =>
        ∀ header ∈ slot, (numberAt message header.position).toNat = count := by
  cases slot with
  | none =>
      cases pure_eq_ok.mp found
      refine ⟨rfl, fun slots => (Stretch.refl writer slots).imp ?_⟩
      intro _ _ _ header none
      cases none
  | some slot =>
      rw [resolveCount] at found
      split at found
      next small =>
        obtain ⟨still, stretch⟩ := stretch_resolve found
        refine ⟨still, fun slots => (stretch slots).imp ?_⟩
        intro _ _ filled header member
        rw [filled header member, UInt16.toNat_ofNat_of_lt' small]
      next => exact absurd found throw_ne_ok

/-- Slots that are filled in with zeros hold zeros. -/
theorem stretch_foldl_resolve (entries : List ((HeaderKind × String) × Slot)) (writer : Writer) :
    (entries.foldl (fun writer (_, slot) => writer.resolve slot 0) writer).position =
        writer.position ∧
      ∀ slots, Stretch writer (entries.map Prod.snd ++ slots)
        (entries.foldl (fun writer (_, slot) => writer.resolve slot 0) writer) slots
        fun message => ∀ entry ∈ entries, numberAt message entry.2.position = 0 := by
  induction entries generalizing writer with
  | nil =>
      refine ⟨rfl, fun slots => (Stretch.refl writer slots).imp ?_⟩
      intro _ _ _ entry member
      cases member
  | cons entry rest ih =>
      obtain ⟨still, stretch⟩ := ih (writer.resolve entry.2 0)
      refine ⟨still, fun slots => ((Stretch.resolve entry.2 0).trans (stretch slots)).imp ?_⟩
      intro _ _ filled other member
      rcases List.mem_cons.mp member with rfl | member
      · exact filled.1
      · exact filled.2 other member

/-- Headers that nobody filled in are zero. -/
theorem stretch_resolveRest {waiting : OpenSlots}
    (found : resolveRest waiting writer = .ok ((), after)) :
    after.position = writer.position ∧ ∀ slots,
      Stretch writer (waiting.slots.map Prod.snd ++ slots) after slots fun message =>
        ∀ entry ∈ waiting.slots, numberAt message entry.2.position = 0 := by
  cases write_eq_ok.mp found
  exact stretch_foldl_resolve waiting.slots writer

namespace OpenSlots

variable (waiting : OpenSlots) (kind : HeaderKind) (key : String)

/-- A header that is taken out is one of those that were open. -/
theorem perm_take :
    (waiting.slots.map Prod.snd).Perm
      ((waiting.take kind key).1.toList ++ (waiting.take kind key).2.slots.map Prod.snd) := by
  obtain ⟨entries⟩ := waiting
  simp only [take]
  induction entries with
  | nil => exact .refl _
  | cons entry rest ih =>
      obtain ⟨other, slot⟩ := entry
      rw [List.lookup_cons, List.eraseP_cons]
      by_cases same : other = (kind, key)
      · subst same
        simp
      · have differs : ((kind, key) == other) = false := beq_eq_false_iff_ne.mpr (Ne.symm same)
        have differs' : (other == (kind, key)) = false := beq_eq_false_iff_ne.mpr same
        simp only [differs, differs', cond_false, List.map_cons]
        exact (List.Perm.cons slot ih).trans List.perm_middle.symm

/-- The slots that are open are the one that is taken out and those that are left. -/
theorem perm_take_append (held : List Slot) :
    ((waiting.take kind key).1.toList ++
      ((waiting.take kind key).2.slots.map Prod.snd ++ held)).Perm
        (waiting.slots.map Prod.snd ++ held) := by
  rw [← List.append_assoc]
  exact ((waiting.perm_take kind key).append_right held).symm

/-- A slot that is found is one of those that wait. -/
theorem mem_of_lookup {entry : HeaderKind × String} {slot : Slot}
    (found : waiting.slots.lookup entry = some slot) : (entry, slot) ∈ waiting.slots := by
  obtain ⟨front, back, split, _⟩ := List.lookup_eq_some_iff.mp found
  rw [split]
  exact List.mem_append_right _ List.mem_cons_self

theorem lookup_take {other : HeaderKind × String} (differs : other ≠ (kind, key)) :
    (waiting.take kind key).2.slots.lookup other = waiting.slots.lookup other :=
  lookup_eraseP waiting.slots differs

/-- A slot that is added is found, and the others as before. -/
theorem lookup_add (slot : Slot) (other : HeaderKind × String) :
    (waiting.add kind key slot).slots.lookup other =
      if other = (kind, key) then some slot else waiting.slots.lookup other := by
  rw [add, List.lookup_cons]
  by_cases same : other = (kind, key)
  · rw [if_pos same, beq_iff_eq.mpr same]
  · rw [if_neg same, beq_eq_false_iff_ne.mpr same]

/-- An open header is taken out or stays. -/
theorem mem_take_or {entry : (HeaderKind × String) × Slot} (member : entry ∈ waiting.slots) :
    entry ∈ (waiting.take kind key).2.slots ∨ (waiting.take kind key).1 = some entry.2 := by
  obtain ⟨entries⟩ := waiting
  simp only [take] at member ⊢
  induction entries with
  | nil => cases member
  | cons first rest ih =>
      obtain ⟨name, slot⟩ := first
      rw [List.eraseP_cons, List.lookup_cons]
      by_cases same : name = (kind, key)
      · subst same
        simp only [beq_self_eq_true, cond_true]
        rcases List.mem_cons.mp member with rfl | member
        · exact .inr rfl
        · exact .inl member
      · have kept : (name == (kind, key)) = false := beq_eq_false_iff_ne.mpr same
        have absent : ((kind, key) == name) = false := beq_eq_false_iff_ne.mpr (Ne.symm same)
        simp only [kept, absent, cond_false]
        rcases List.mem_cons.mp member with rfl | member
        · exact .inl List.mem_cons_self
        · exact (ih member).imp (List.mem_cons_of_mem _) id

theorem mem_take_of_ne {entry : (HeaderKind × String) × Slot} (member : entry ∈ waiting.slots)
    (differs : entry.1 ≠ (kind, key)) : entry ∈ (waiting.take kind key).2.slots :=
  (List.mem_eraseP_of_neg (by simpa using differs)).mpr member

end OpenSlots

end Relay.Layout
