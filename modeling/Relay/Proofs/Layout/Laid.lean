import Relay.Proofs.Layout.InOrder

/-! # Messages that are laid out in order

The parts of a message are laid out one after the other, and what a text takes between two places is
left open (`Relay.Layout.AllLaid`). Where texts are read as they stand this is the order in which a
message is read (`Relay.Layout.allLaid_eq_allInOrder`); where they only stand as they were
written, it is the order in which any message was written. -/

namespace Relay.Layout

open Relay.Stream Relay.Frame.Header

/-- What a text is to a message between two places. -/
abbrev TextPlacement := Bytes → String → Nat → Nat → Prop

/-- A text is read between two places. -/
def readText : TextPlacement :=
  fun message text place stop => Reads True Read.string message place text stop

/-- The bytes of a text stand between two places. -/
def writtenText : TextPlacement := fun message text place stop =>
  Holds message place (textBytes text) ∧ stop = place + (textBytes text).length

/-- A text takes, where its bytes are written, the place of its bytes. -/
def Placed (texts : TextPlacement) (text : String) : Prop :=
  ∀ message place, Holds message place (textBytes text) →
    texts message text place (place + (textBytes text).length)

/-- Whether a value is no text but one that takes the place of its bytes. -/
def IsPlaced (texts : TextPlacement) : Value → Prop
  | .string text => Placed texts text
  | _ => True

/-- A text without a zero character is read where it is written. -/
theorem placed_readText {text : String} (plain : '\x00' ∉ text.toList) : Placed readText text :=
  fun _ _ holds => reads_string plain holds

/-- A text without a zero character takes the place of its bytes. -/
theorem isPlaced_readText {value : Value} (plain : IsPlain value) : IsPlaced readText value := by
  cases value with
  | string text => exact placed_readText plain
  | _ => trivial

/-- Every text is written where it is written. -/
theorem isPlaced_writtenText (value : Value) : IsPlaced writtenText value := by
  cases value with
  | string text => exact fun _ _ holds => ⟨holds, rfl⟩
  | _ => trivial

/-- The text that is written for an item, which is empty if there is none. -/
theorem placed_textIn {texts : TextPlacement} (empty : Placed texts "") {item : Option Value}
    (placed : ∀ value ∈ item, Throughout (IsPlaced texts) value) : Placed texts (textIn item) := by
  cases item with
  | none => exact empty
  | some value =>
      have whole := placed value rfl
      cases value with
      | string text => exact whole
      | _ => exact empty

section

variable (texts : TextPlacement) (quiet : Prop)

mutual

/-- A value is laid out between two places as an element of an array. -/
def ElementLaid : Field → Bytes → Value → Nat → Nat → Prop
  | .scalars _ type _, message, value, place, stop =>
    stop = place + type.width ∧
      ∀ path, Reads True (Decode.scalar type path) message place value stop
  | .items _ fields _, message, value, place, stop =>
    ∃ inner left, value = .object inner ∧
      AllLaid message "" [] fields ⟨[]⟩ place inner left stop
  | _, _, _, _, _ => False

/-- What a field that is no array gives to its object is laid out between two places. -/
def Laid (message : Bytes) (base : String) :
    Field → HeaderValues → Nat → List (String × Value) → HeaderValues → Nat → Prop
  | .header kind key, headers, place, values, left, stop =>
    place + 2 ≤ message.size ∧ stop = place + 2 ∧ values = [] ∧
      left = headers.insert kind (dotted base key) (numberAt message place)
  | .scalar name type, headers, place, values, left, stop =>
    left = headers ∧ stop = place + type.width ∧ ∃ value, values = [(name, value)] ∧
      ∀ path, Reads True (Decode.scalar type path) message place value stop
  | .string name, headers, place, values, left, stop =>
    left = headers ∧ PointsAt headers (dotted base name) place ∧ place ≤ stop ∧
      ∃ text, values = [(name, .string text)] ∧ texts message text place stop
  | .bytes name, headers, place, values, left, stop =>
    left = headers ∧ ∃ run : Bytes, values = [(name, .bytes run)] ∧
      countOf headers (dotted base name) = run.size ∧
      (0 < run.size → PointsAt headers (dotted base name) place) ∧ stop = place + run.size ∧
      Reads True (Read.bytes run.size) message place run stop
  | .object name fields, headers, place, values, left, stop =>
    ∃ inner, values = [(name, .object inner)] ∧
      AllLaid message (dotted base name) [] fields headers place inner left stop
  | _, _, _, _, _, _ => False

/-- What the fields of a level give to their object is laid out between two places, behind the
arrays that wait for their chain. -/
def AllLaid (message : Bytes) (base : String) (waiting : List Strand) :
    List Field → HeaderValues → Nat → List (String × Value) → HeaderValues → Nat → Prop
  | [], headers, place, values, left, stop =>
    values = [] ∧ left = headers ∧ Chained quiet message waiting place stop
  | field :: rest, headers, place, values, left, stop =>
    if field.isArray then
      ∃ items others, values = (field.name, .array items) :: others ∧
        countOf headers (dotted base field.name) = items.length ∧
        let strand := strandOf headers base field.name items (ElementLaid field)
        if field.isMixed then
          AllLaid message base (waiting ++ [strand]) rest headers place others left stop
        else
          ∃ start middle, Chained quiet message waiting place start ∧
            Chained quiet message [strand] start middle ∧
            AllLaid message base [] rest headers middle others left stop
    else
      ∃ own others start middle between, values = own ++ others ∧
        Chained quiet message waiting place start ∧
        Laid message base field headers start own between middle ∧
        AllLaid message base [] rest between middle others left stop

end

end

variable {quiet : Prop}

mutual

/-- An element that is laid out with its texts to be read stands in order. -/
theorem elementLaid_eq_elementInOrder :
    ∀ field : Field, ElementLaid readText quiet field = ElementInOrder quiet field
  | .scalars _ type _ => by
      funext message value place stop
      rw [ElementLaid, ElementInOrder]
  | .items _ fields _ => by
      funext message value place stop
      rw [ElementLaid, ElementInOrder]
      simp only [allLaid_eq_allInOrder fields]
  | .header .. | .scalar .. | .string _ | .bytes _ | .object .. => rfl

/-- A field that is laid out with its texts to be read stands in order. -/
theorem laid_eq_inOrder : ∀ (field : Field) {message : Bytes} {base : String},
    Laid readText quiet message base field = InOrder quiet message base field
  | .header .. | .scalar .. | .string _ | .bytes _ | .scalars .. | .items .. => rfl
  | .object name fields => by
      funext headers place values left stop
      rw [Laid, InOrder]
      simp only [allLaid_eq_allInOrder fields]

/-- **Where texts are read as they stand, what is laid out is in order.** -/
theorem allLaid_eq_allInOrder : ∀ (fields : List Field) {message : Bytes} {base : String}
    {waiting : List Strand},
    AllLaid readText quiet message base waiting fields =
      AllInOrder quiet message base waiting fields
  | [] => by
      funext headers place values left stop
      rw [AllLaid, AllInOrder]
  | field :: rest => by
      funext headers place values left stop
      rw [AllLaid, AllInOrder, elementLaid_eq_elementInOrder field]
      simp only [allLaid_eq_allInOrder rest, laid_eq_inOrder field]

end

end Relay.Layout
