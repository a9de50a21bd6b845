import Mathlib.Data.List.TakeWhile
import Relay.Proofs.Layout.Content

/-! # Texts that end at their first zero character

A text is written to the end and read up to its first zero character
(`Relay.Layout.reads_clip`). What a text is does not show in the rest of an object: of objects that
are the same but for one text, what is read differs in that text at most
(`Relay.Layout.blot_clippedFields`). -/

namespace Relay.Layout

open Relay.Stream

/-- A text up to its first zero character. -/
def clip (text : String) : String :=
  String.ofList (text.toList.takeWhile (· != '\x00'))

mutual

/-- A value with all its texts up to their first zero character. -/
def clipped : Value → Value
  | .string text => .string (clip text)
  | .array items => .array (clippedItems items)
  | .object fields => .object (clippedFields fields)
  | value => value

/-- Items with all their texts up to their first zero character. -/
def clippedItems : List Value → List Value
  | [] => []
  | item :: rest => clipped item :: clippedItems rest

/-- Named values with all their texts up to their first zero character. -/
def clippedFields : List (String × Value) → List (String × Value)
  | [] => []
  | (name, value) :: rest => (name, clipped value) :: clippedFields rest

end

/-! ## Reading a text -/

/-- A clipped text has no zero character. -/
theorem zero_notMem_clip (text : String) : '\x00' ∉ (clip text).toList := by
  rw [clip, String.toList_ofList]
  intro member
  simpa using List.mem_takeWhile_imp member

/-- A text without a zero character is left as it is. -/
theorem clip_of_plain {text : String} (plain : '\x00' ∉ text.toList) : clip text = text := by
  have whole : text.toList.takeWhile (· != '\x00') = text.toList :=
    List.takeWhile_eq_self_iff.mpr fun character member =>
      bne_iff_ne.mpr fun zero => plain (zero ▸ member)
  rw [clip, whole, String.ofList_toList]

/-- The bytes of a text begin with those of what is read of it: its first zero character stands for
the zero behind it. -/
theorem textBytes_eq_clip (text : String) :
    ∃ more, textBytes text = textBytes (clip text) ++ more := by
  by_cases zero : '\x00' ∈ text.toList
  · obtain ⟨front, rest, split, before⟩ := List.eq_append_cons_of_mem zero
    have kept : (clip text).toList = front := by
      rw [clip, String.toList_ofList, split, List.takeWhile_append_of_pos, List.takeWhile_cons]
      · simp
      · exact fun character member => bne_iff_ne.mpr fun same => before (same ▸ member)
    refine ⟨unitBytes (Text.units rest) ++ littleEndian 2 0, ?_⟩
    have unit : Text.charUnits '\x00' = [0] := by decide
    rw [textBytes, textBytes, kept, split]
    simp [Text.units, unitBytes, unit]
  · exact ⟨[], by rw [clip_of_plain zero, List.append_nil]⟩

/-- **A text is read up to its first zero character.** -/
theorem reads_clip {message : Bytes} {place : Nat} {text : String}
    (holds : Holds message place (textBytes text)) :
    Reads True Read.string message place (clip text) (place + (textBytes (clip text)).length) := by
  obtain ⟨more, spelled⟩ := textBytes_eq_clip text
  rw [spelled] at holds
  exact reads_string (zero_notMem_clip text) (Holds.append.mp holds).1

/-! ## Values but for one text -/

/-- A step down into a value. -/
inductive Descent where
  | item (index : Nat)
  | name (name : String)

/-- A value with an empty text for the text that some steps lead to. -/
def blot : List Descent → Value → Value
  | [], .string _ => .string ""
  | .item index :: path, .array items => .array (items.modify index (blot path))
  | .name name :: path, .object fields =>
    .object (fields.map fun (other, value) =>
      (other, if other = name then blot path value else value))
  | _, value => value

/-- Items are clipped one by one. -/
theorem clippedItems_eq_map (items : List Value) : clippedItems items = items.map clipped := by
  induction items with
  | nil => rfl
  | cons item rest ih => rw [clippedItems, ih, List.map_cons]

/-- Named values are clipped one by one. -/
theorem clippedFields_eq_map (fields : List (String × Value)) :
    clippedFields fields = fields.map fun (name, value) => (name, clipped value) := by
  induction fields with
  | nil => rfl
  | cons pair rest ih =>
      obtain ⟨name, value⟩ := pair
      rw [clippedFields, ih, List.map_cons]

/-- What two functions do in either order they do to one item of a list in either order. -/
theorem map_modify {α β : Type} {change : α → β} {own : α → α} {other : β → β}
    (commute : ∀ x, other (change x) = change (own x)) (items : List α) (index : Nat) :
    (items.map change).modify index other = (items.modify index own).map change := by
  apply List.ext_getElem?
  intro place
  rw [List.getElem?_modify, List.getElem?_map, List.getElem?_map, List.getElem?_modify]
  cases items[place]? with
  | none => rfl
  | some x =>
      by_cases here : index = place
      · simp [here, commute]
      · simp [here]

/-- It does not matter whether a text is blotted out before or after all are clipped. -/
theorem blot_clipped (path : List Descent) (value : Value) :
    blot path (clipped value) = clipped (blot path value) := by
  induction path generalizing value with
  | nil =>
      cases value with
      | string text => exact congrArg Value.string (clip_of_plain (by simp)).symm
      | _ => rfl
  | cons step path ih =>
      cases step with
      | item index =>
          cases value with
          | array items =>
              rw [clipped, blot, blot, clipped, clippedItems_eq_map, clippedItems_eq_map,
                map_modify ih]
          | _ => rfl
      | name name =>
          cases value with
          | object fields =>
              rw [clipped, blot, blot, clipped, clippedFields_eq_map, clippedFields_eq_map,
                List.map_map, List.map_map]
              congr 2
              funext pair
              by_cases here : pair.1 = name
              · simp [here, ih]
              · simp [here]
          | _ => rfl

/-! ## What a layout makes of a value but for one text -/

/-- What becomes of a value but for one text is of the same kind, and the same if it is a scalar. -/
theorem blot_kind (path : List Descent) (value : Value) : blot path value = value ∨
    (∃ text other, value = .string text ∧ blot path value = .string other) ∨
    (∃ items others, value = .array items ∧ blot path value = .array others) ∨
    ∃ fields others, value = .object fields ∧ blot path value = .object others := by
  unfold blot
  split
  · exact .inr (.inl ⟨_, _, rfl, rfl⟩)
  · exact .inr (.inr (.inl ⟨_, _, rfl, rfl⟩))
  · exact .inr (.inr (.inr ⟨_, _, rfl, rfl⟩))
  · exact .inl rfl

/-- A scalar keeps nothing of a text. -/
theorem stored_blot (type : Scalar) (path : List Descent) (item : Option Value) :
    type.stored (item.map (blot path)) = type.stored item := by
  cases item with
  | none => rfl
  | some value =>
      rw [Option.map_some]
      rcases blot_kind path value with same | ⟨_, _, rfl, other⟩ | ⟨_, _, rfl, other⟩ |
        ⟨_, _, rfl, other⟩
      · rw [same]
      all_goals
        rw [other]
        cases type <;> rfl

/-- In what is stored of a scalar there is no text to blot out. -/
theorem blot_stored (type : Scalar) (path : List Descent) (item : Option Value) :
    blot path (type.stored item) = type.stored item := by
  rcases blot_kind path (type.stored item) with same | ⟨_, _, found, _⟩ | ⟨_, _, found, _⟩ |
    ⟨_, _, found, _⟩
  · exact same
  all_goals cases type <;> cases found

/-- If every value changes by its name, so does the one that is found. -/
theorem lookup_map_of_name (fields : List (String × Value)) (name : String)
    (change : String → Value → Value) :
    (fields.map fun (other, value) => (other, change other value)).lookup name =
      (fields.lookup name).map (change name) := by
  induction fields with
  | nil => rfl
  | cons pair rest ih =>
      obtain ⟨other, value⟩ := pair
      rw [List.map_cons, List.lookup_cons, List.lookup_cons, ih]
      split
      next same =>
        rw [beq_iff_eq.mp same]
        rfl
      next => rfl

/-- A text is blotted out in the field on the way to it, and the other fields stay. -/
theorem under_blot (name : String) (path : List Descent) (item : Option Value) (field : Field) :
    under ((item.map (blot (.name name :: path))).bind Value.object?) field =
      (under (item.bind Value.object?) field).map fun value =>
        if field.name = name then blot path value else value := by
  cases item with
  | none => rfl
  | some value =>
      cases value with
      | object fields =>
          exact lookup_map_of_name fields field.name fun other value =>
            if other = name then blot path value else value
      | _ => rfl

/-- Blotting below a name goes through the completion of the fields of a level. -/
theorem completedAll_blot {name : String} {path : List Descent}
    (below : ∀ field item,
      completed (item.map (blot path)) field = blot path (completed item field))
    {object other : Option Object}
    (same : ∀ field, under other field = (under object field).map fun value =>
      if field.name = name then blot path value else value) (fields : List Field) :
    completedAll other fields = (completedAll object fields).map fun (found, value) =>
      (found, if found = name then blot path value else value) := by
  induction fields with
  | nil => rfl
  | cons field rest ih =>
      rw [completedAll, completedAll]
      split
      · exact ih
      · rw [List.map_cons, ih, same]
        by_cases here : field.name = name
        · simp only [here, ↓reduceIte]
          rw [below]
        · simp only [here, ↓reduceIte, Option.map_id']

/-- A text is blotted out in the item on the way to it, and the other items stay. -/
theorem itemsIn_blot (index : Nat) (path : List Descent) (item : Option Value) :
    itemsIn (item.map (blot (.item index :: path))) =
      (itemsIn item).modify index (blot path) := by
  cases item with
  | none => exact (List.modify_nil ..).symm
  | some value =>
      cases value with
      | array items => rfl
      | _ => exact (List.modify_nil ..).symm

/-- Where the way goes on by a name no item changes. -/
theorem itemsIn_blot_name (name : String) (path : List Descent) (item : Option Value) :
    itemsIn (item.map (blot (.name name :: path))) = itemsIn item := by
  cases item with
  | none => rfl
  | some value => cases value <;> rfl

/-- Where the way goes on by an item no object changes. -/
theorem object?_blot_item (index : Nat) (path : List Descent) (item : Option Value) :
    (item.map (blot (.item index :: path))).bind Value.object? = item.bind Value.object? := by
  cases item with
  | none => rfl
  | some value => cases value <;> rfl

/-- What is read of a value but for one text is what is read of the value, but for this text. -/
theorem completed_blot (path : List Descent) (field : Field) (item : Option Value) :
    completed (item.map (blot path)) field = blot path (completed item field) := by
  induction path generalizing field item with
  | nil =>
      cases field with
      | scalar name type => rw [completed_scalar, completed_scalar, stored_blot, blot_stored]
      | _ =>
          cases item with
          | none => rfl
          | some value => cases value <;> rfl
  | cons step path ih =>
      cases field with
      | header kind key =>
          rw [completed, completed]
          cases step with
          | item index => rw [blot, List.modify_nil]
          | name name => rfl
      | scalar name type => rw [completed_scalar, completed_scalar, stored_blot, blot_stored]
      | string name | bytes name =>
          cases item with
          | none => cases step <;> rfl
          | some value => cases step <;> cases value <;> rfl
      | object name fields =>
          rw [completed, completed]
          cases step with
          | item index =>
              rw [object?_blot_item]
              rfl
          | name inner =>
              exact congrArg Value.object (completedAll_blot ih (under_blot inner path item) fields)
      | scalars name type mixed =>
          rw [completed, completed]
          cases step with
          | item index =>
              rw [itemsIn_blot, blot, map_modify]
              intro value
              exact (blot_stored ..).trans (stored_blot type path (some value)).symm
          | name inner =>
              rw [itemsIn_blot_name]
              rfl
      | items name fields mixed =>
          rw [completed, completed]
          cases step with
          | item index =>
              rw [itemsIn_blot, blot, map_modify]
              intro value
              exact (ih (.object name fields) (some value)).symm
          | name inner =>
              rw [itemsIn_blot_name]
              rfl

/-- **One text does not show in the others.** Of objects that are the same but for the text that
some steps lead to, what is read up to the zero characters is the same but for this text. -/
theorem blot_clippedFields {path : List Descent} {first second : Object}
    (same : blot path (.object first.fields) = blot path (.object second.fields))
    (fields : List Field) :
    blot path (.object (clippedFields (completedAll (some first) fields))) =
      blot path (.object (clippedFields (completedAll (some second) fields))) := by
  have through (object : Object) :
      blot path (.object (clippedFields (completedAll (some object) fields))) =
        clipped (completed (some (blot path (.object object.fields))) (.object "" fields)) := by
    have below := completed_blot path (.object "" fields) (some (.object object.fields))
    rw [Option.map_some] at below
    rw [below, ← blot_clipped]
    rfl
  rw [through, through, same]

end Relay.Layout
