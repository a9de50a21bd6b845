import Relay.Proofs.Layout.Clipped
import Relay.Proofs.Layout.RoundTrip

/-! # Whole numbers in a message

What was given as a whole number of any width, and was written, is read as the same number, if the
number fits the part of the message that it goes to (`Relay.Layout.wholes_decode_encode`). Of the
numbers that do not fit all are refused but some of skills: these need only be numbers of 32 bits,
and are cut to the 28 or 26 bits that a word has for them. -/

namespace Relay

open Relay.Stream

namespace Skill

/-- What is left of the number of a skill of a player in a word. -/
theorem id_unpack_pack_player {packing : Packing} (known : packing.InUse) (id : UInt32) :
    (unpack packing (pack packing (player id))).id.toNat =
      id.toNat % Nat.pow 2 packing.idBits := by
  have plain : namesZone (player id).npc (player id).kind.toNat = false := rfl
  have kind : (player id).kind.toNat = 1 := rfl
  have owner : (player id).npc.toNat = 0 := rfl
  have reserved : (player id).reserved.toNat = 0 := rfl
  have packed : pack packing (player id) =
      id.toNat % Nat.pow 2 packing.idBits + Nat.pow 2 packing.idBits := by
    rw [pack, plain, kind, owner, reserved]
    simp [player]
  have unowned : namesZone (pack packing (player id) / Nat.pow 2 packing.npcShift % 2 == 1)
      (pack packing (player id) / Nat.pow 2 packing.idBits % 16) = false := by
    rw [packed]
    rcases known with rfl | rfl <;>
    · simp only [namesZone, Packing.wide, Packing.narrow, Nat.pow_eq, Bool.and_eq_false_iff,
        beq_eq_false_iff_ne]
      omega
  rw [(unpack_plain known unowned).1, packed]
  simp

end Skill

/-- A word is put together again from the bytes of its appearance. -/
theorem Appearance.toWord_ofWord (word : UInt64) : (ofWord word).toWord = word := by
  apply UInt64.toNat_inj.mp
  have below := word.toNat_lt
  simp only [ofWord, toWord, toList, Stream.ofLittleEndian, UInt64.toNat_ofNat',
    UInt8.toNat_ofNat', Nat.pow_eq]
  omega

/-- The whole number that a value is: of a skill its number, of an appearance its word. -/
def Value.whole? : Value → Option Int
  | .skill value => some value.id.toNat
  | .appearance value => some value.toWord.toNat
  | other => other.integer?

namespace Scalar

/-- Whether a whole number can stand in the bits of a scalar. -/
def Holds (type : Scalar) (n : Int) : Prop :=
  match type with
  | .byte => 0 ≤ n ∧ n < Nat.pow 2 8
  | .int16 => -Nat.pow 2 15 ≤ n ∧ n < Nat.pow 2 15
  | .uint16 => 0 ≤ n ∧ n < Nat.pow 2 16
  | .int32 => -Nat.pow 2 31 ≤ n ∧ n < Nat.pow 2 31
  | .uint32 => 0 ≤ n ∧ n < Nat.pow 2 32
  | .int64 => -Nat.pow 2 63 ≤ n ∧ n < Nat.pow 2 63
  | .uint64 => 0 ≤ n ∧ n < Nat.pow 2 64
  | .skill32 => 0 ≤ n ∧ n < Nat.pow 2 26
  | .skill => 0 ≤ n ∧ n < Nat.pow 2 28
  | .appearance => 0 ≤ n ∧ n < Nat.pow 2 64
  | _ => False

/-- Whether a scalar takes whole numbers and holds one. -/
def isWhole : Scalar → Bool
  | .byte | .int16 | .uint16 | .int32 | .uint32 | .int64 | .uint64 => true
  | .skill32 | .skill | .appearance => true
  | _ => false

/-- What a scalar keeps of a whole number that it takes, and when it takes it. -/
def Keeps (type : Scalar) (n : Int) (found : Value) : Prop :=
  match type with
  | .skill32 => 0 ≤ n ∧ n < Nat.pow 2 32 ∧ found.whole? = some (n % Nat.pow 2 26)
  | .skill => 0 ≤ n ∧ n < Nat.pow 2 32 ∧ found.whole? = some (n % Nat.pow 2 28)
  | type => type.Holds n ∧ found.whole? = some n

/-- A whole number that a scalar can hold is kept as it is. -/
theorem Keeps.whole {type : Scalar} {n : Int} {found : Value} (keeps : type.Keeps n found)
    (holds : type.Holds n) : found.whole? = some n := by
  cases type with
  | skill32 =>
      obtain ⟨_, _, cut⟩ := keeps
      rw [cut, Int.emod_eq_of_lt holds.1 holds.2]
  | skill =>
      obtain ⟨_, _, cut⟩ := keeps
      rw [cut, Int.emod_eq_of_lt holds.1 holds.2]
  | _ => exact keeps.2

end Scalar

namespace Layout

namespace Offer

variable {value : Value} {n : Int}

/-- A whole number without a sign that is taken is the one that is given. -/
theorem natural_eq {bits taken : Nat} (number : value.integer? = some n)
    (offered : natural bits (some value) = some taken) : n = taken ∧ taken < Nat.pow 2 bits := by
  have small := natural_lt offered
  obtain ⟨m, found, same⟩ := Option.map_eq_some_iff.mp offered
  obtain ⟨given, inside⟩ := Option.filter_eq_some_iff.mp found
  rw [number, Option.some.injEq] at given
  simp only [decide_eq_true_eq] at inside
  exact ⟨by omega, small⟩

/-- A whole number with a sign that is taken is the one that is given. -/
theorem signed_eq {bits : Nat} {taken : Int} (number : value.integer? = some n)
    (offered : signed bits (some value) = some taken) :
    n = taken ∧ -Nat.pow 2 (bits - 1) ≤ n ∧ n ≤ Nat.pow 2 (bits - 1) - 1 := by
  have bounds := signed_bounds offered
  obtain ⟨given, _⟩ := Option.filter_eq_some_iff.mp offered
  rw [number, Option.some.injEq] at given
  subst given
  exact ⟨rfl, bounds⟩

/-- A number that is taken as a skill is that of a skill of a player. -/
theorem skill_eq {taken : Skill} (number : value.integer? = some n)
    (offered : skill (some value) = some taken) :
    ∃ id : Nat, taken = .player (.ofNat id) ∧ n = id ∧ id < Nat.pow 2 32 := by
  have given : (natural 32 (some value)).map (fun id => Skill.player (.ofNat id)) = some taken := by
    cases value with
    | skill => cases number
    | _ => exact offered
  obtain ⟨id, drawn, rfl⟩ := Option.map_eq_some_iff.mp given
  exact ⟨id, rfl, natural_eq number drawn⟩

/-- A number that is taken as an appearance is its word. -/
theorem appearance_eq {taken : Appearance} (number : value.integer? = some n)
    (offered : appearance (some value) = some taken) :
    ∃ word : Nat, taken = .ofWord (.ofNat word) ∧ n = word ∧ word < Nat.pow 2 64 := by
  have given : (natural 64 (some value)).map (fun word => Appearance.ofWord (.ofNat word)) =
      some taken := by
    cases value with
    | appearance => cases number
    | _ => exact offered
  obtain ⟨word, drawn, rfl⟩ := Option.map_eq_some_iff.mp given
  exact ⟨word, rfl, natural_eq number drawn⟩

end Offer

section

variable {value : Value} {n : Int} {bits : Nat} {path expected : String} {writer : Writer}
  {result : Unit × Writer}

/-- A whole number without a sign is written only if the bits hold it. -/
theorem natural_written (number : value.integer? = some n) {change : Nat → Writer → Writer}
    (found : (Encode.natural bits path expected (some value) >>= fun taken =>
      Encode.write (change taken)) writer = .ok result) :
    ∃ taken : Nat, Offer.natural bits (some value) = some taken ∧ n = taken ∧
      taken < Nat.pow 2 bits := by
  obtain ⟨taken, offered, _⟩ := ((draws_natural _ _ _ _).write change).mp found
  exact ⟨taken, offered, Offer.natural_eq number offered⟩

/-- A whole number with a sign is written only if the bits hold it. -/
theorem signed_written (number : value.integer? = some n) {change : Int → Writer → Writer}
    (found : (Encode.signed bits path expected (some value) >>= fun taken =>
      Encode.write (change taken)) writer = .ok result) :
    Offer.signed bits (some value) = some n ∧ -Nat.pow 2 (bits - 1) ≤ n ∧
      n < Nat.pow 2 (bits - 1) := by
  obtain ⟨taken, offered, _⟩ := ((draws_signed _ _ _ _).write change).mp found
  obtain ⟨rfl, least, most⟩ := Offer.signed_eq number offered
  exact ⟨offered, least, Int.lt_of_le_sub_one most⟩

/-- **A whole number that was written as a scalar is kept**, and only numbers are written that the
scalar takes. -/
theorem keeps_of_scalar {type : Scalar} (takes : type.isWhole = true)
    (number : value.integer? = some n)
    (found : Encode.scalar type (some value) path writer = .ok result) :
    type.Keeps n (type.stored (some value)) := by
  cases type with
  | byte =>
      obtain ⟨taken, offered, rfl, small⟩ := natural_written number found
      rw [Scalar.stored, offered]
      exact ⟨⟨by omega, by omega⟩,
        congrArg (some ∘ Int.ofNat) (UInt8.toNat_ofNat_of_lt' small)⟩
  | int16 =>
      obtain ⟨offered, bounds⟩ := signed_written number found
      rw [Scalar.stored, offered]
      exact ⟨bounds, congrArg some (Int16.toInt_ofInt_of_le bounds.1 bounds.2)⟩
  | uint16 =>
      obtain ⟨taken, offered, rfl, small⟩ := natural_written number found
      rw [Scalar.stored, offered]
      exact ⟨⟨by omega, by omega⟩,
        congrArg (some ∘ Int.ofNat) (UInt16.toNat_ofNat_of_lt' small)⟩
  | int32 =>
      obtain ⟨offered, bounds⟩ := signed_written number found
      rw [Scalar.stored, offered]
      exact ⟨bounds, congrArg some (Int32.toInt_ofInt_of_le bounds.1 bounds.2)⟩
  | uint32 =>
      obtain ⟨taken, offered, rfl, small⟩ := natural_written number found
      rw [Scalar.stored, offered]
      exact ⟨⟨by omega, by omega⟩,
        congrArg (some ∘ Int.ofNat) (UInt32.toNat_ofNat_of_lt' small)⟩
  | int64 =>
      obtain ⟨offered, bounds⟩ := signed_written number found
      rw [Scalar.stored, offered]
      exact ⟨bounds, congrArg some (Int64.toInt_ofInt_of_le bounds.1 bounds.2)⟩
  | uint64 =>
      obtain ⟨taken, offered, rfl, small⟩ := natural_written number found
      rw [Scalar.stored, offered]
      exact ⟨⟨by omega, by omega⟩,
        congrArg (some ∘ Int.ofNat) (UInt64.toNat_ofNat_of_lt' small)⟩
  | skill32 =>
      obtain ⟨taken, offered, _⟩ := ((draws_skill _ _ _).write _).mp found
      obtain ⟨id, rfl, rfl, small⟩ := Offer.skill_eq number offered
      rw [Scalar.stored, offered, Option.getD_some, Skill.ofNarrow, Skill.toNat_toNarrow]
      refine ⟨by omega, by omega, ?_⟩
      rw [Value.whole?, Skill.id_unpack_pack_player (.inr rfl), UInt32.toNat_ofNat_of_lt' small]
      rfl
  | skill =>
      obtain ⟨taken, offered, _⟩ := ((draws_skill _ _ _).write _).mp found
      obtain ⟨id, rfl, rfl, small⟩ := Offer.skill_eq number offered
      rw [Scalar.stored, offered, Option.getD_some, Skill.ofWide, Skill.toNat_toWide]
      refine ⟨by omega, by omega, ?_⟩
      rw [Value.whole?, Skill.id_unpack_pack_player (.inl rfl), UInt32.toNat_ofNat_of_lt' small]
      rfl
  | appearance =>
      obtain ⟨taken, offered, _⟩ := ((draws_appearance _ _ _).write _).mp found
      obtain ⟨word, rfl, rfl, small⟩ := Offer.appearance_eq number offered
      rw [Scalar.stored, offered, Option.getD_some]
      refine ⟨⟨by omega, by omega⟩, ?_⟩
      rw [Value.whole?, Appearance.toWord_ofWord, UInt64.toNat_ofNat_of_lt' small]
  | _ => cases takes

end

/-! ## Ways to a scalar -/

/-- At the end of a way through fields stands a scalar, by itself or as an element of an array, at
whatever depth. -/
inductive ScalarAt : List Field → List Descent → Scalar → Prop
  | scalar {fields : List Field} {name : String} {type : Scalar}
      (member : .scalar name type ∈ fields) : ScalarAt fields [.name name] type
  | scalars {fields : List Field} {name : String} {type : Scalar} {mixed : Bool} {index : Nat}
      (member : .scalars name type mixed ∈ fields) :
      ScalarAt fields [.name name, .item index] type
  | object {fields inner : List Field} {name : String} {type : Scalar} {rest : List Descent}
      (member : .object name inner ∈ fields) (deeper : ScalarAt inner rest type) :
      ScalarAt fields (.name name :: rest) type
  | items {fields inner : List Field} {name : String} {type : Scalar} {mixed : Bool}
      {index : Nat} {rest : List Descent} (member : .items name inner mixed ∈ fields)
      (deeper : ScalarAt inner rest type) :
      ScalarAt fields (.name name :: .item index :: rest) type

/-- What stands at the end of a way into a value. -/
def valueAt : List Descent → Value → Option Value
  | [], value => some value
  | .name name :: rest, .object fields => (fields.lookup name).bind (valueAt rest)
  | .item index :: rest, .array items => items[index]?.bind (valueAt rest)
  | _ :: _, _ => none

/-- What an object has at the end of a way. -/
def standing (object : Option Object) (way : List Descent) : Option Value :=
  object.bind fun known => valueAt way (.object known.fields)

variable {object : Option Object} {fields : List Field} {type : Scalar} {way : List Descent}
  {given : Value}

theorem standing_field (object : Option Object) (field : Field) (rest : List Descent) :
    standing object (.name field.name :: rest) = (under object field).bind (valueAt rest) := by
  cases object <;> rfl

/-- A way to a scalar leads into an object. -/
theorem ScalarAt.valueAt_eq (stands : ScalarAt fields way type) (value : Value) :
    valueAt way value = standing value.object? way := by
  cases stands <;> cases value <;> rfl

/-- What stands at the end of a way that begins with an item stands in this item. -/
theorem itemsIn_of_valueAt {item : Option Value} {index : Nat} {rest : List Descent}
    (found : item.bind (valueAt (.item index :: rest)) = some given) :
    ∃ value, (itemsIn item)[index]? = some value ∧ valueAt rest value = some given := by
  obtain ⟨value, rfl, found⟩ := Option.bind_eq_some_iff.mp found
  cases value with
  | array items => exact Option.bind_eq_some_iff.mp found
  | _ => cases found

/-- Below every field of well named ones the fields are well named. -/
theorem wellNamedBelow_of_mem (named : WellNamed fields) :
    ∀ field ∈ fields, WellNamedBelow field := by
  induction fields with
  | nil => exact List.forall_mem_nil _
  | cons field rest ih => exact List.forall_mem_cons.mpr ⟨named.2.1, ih named.2.2⟩

/-- At the end of a way to a scalar is read what the scalar keeps of what was given there. -/
theorem standing_completedAll (stands : ScalarAt fields way type) (named : WellNamed fields)
    (found : standing object way = some given) :
    standing (some ⟨completedAll object fields⟩) way = some (type.stored (some given)) := by
  induction stands generalizing object with
  | @scalar fields name type member =>
      have item : under object (.scalar name type) = some given := by
        obtain ⟨_, present, same⟩ := Option.bind_eq_some_iff.mp
          ((standing_field object (.scalar name type) []).symm.trans found)
        cases same
        exact present
      refine (standing_field _ (.scalar name type) []).trans ?_
      rw [under_completedAll named object _ member rfl, item, completed_scalar]
      rfl
  | @scalars fields name type mixed index member =>
      obtain ⟨value, present, same⟩ := itemsIn_of_valueAt
        ((standing_field object (.scalars name type mixed) [.item index]).symm.trans found)
      cases same
      refine (standing_field _ (.scalars name type mixed) [.item index]).trans ?_
      rw [under_completedAll named object _ member rfl, completed, Option.bind_some, valueAt,
        List.getElem?_map, present]
      rfl
  | @object fields inner name type rest member deeper ih =>
      have below : WellNamed inner := wellNamedBelow_of_mem named _ member
      obtain ⟨value, present, reached⟩ := Option.bind_eq_some_iff.mp
        ((standing_field object (.object name inner) rest).symm.trans found)
      rw [deeper.valueAt_eq] at reached
      refine (standing_field _ (.object name inner) rest).trans ?_
      rw [under_completedAll named object _ member rfl, present, completed, Option.bind_some,
        deeper.valueAt_eq]
      exact ih below reached
  | @items fields inner name type mixed index rest member deeper ih =>
      have below : WellNamed inner := wellNamedBelow_of_mem named _ member
      obtain ⟨value, present, reached⟩ := itemsIn_of_valueAt
        ((standing_field object (.items name inner mixed) (.item index :: rest)).symm.trans found)
      rw [deeper.valueAt_eq] at reached
      refine (standing_field _ (.items name inner mixed) (.item index :: rest)).trans ?_
      rw [under_completedAll named object _ member rfl, completed, Option.bind_some, valueAt,
        List.getElem?_map, present, Option.map_some, Option.bind_some, deeper.valueAt_eq]
      exact ih below reached

/-! ## What was written on the way -/

open Encode

/-- Whether all elements of an array were written. -/
def ColumnWritten (column : WriteColumn) : Prop :=
  ∀ item ∈ column.items, ∃ place writer result, column.element place item writer = .ok result

/-- Whether a field was written, or if it is an array, its elements. -/
def FieldWritten (object : Option Object) (field : Field) : Prop :=
  (field.isArray = false → ∃ base path waiting writer result,
    encodeField base path object waiting field writer = .ok result) ∧
  (field.isArray = true → ∀ item ∈ itemsIn (under object field), ∃ place writer result,
    writeElement field place item writer = .ok result)

/-- Every element that links lead to was written. -/
theorem element_of_writeLinks {columns : Array WriteColumn} {links : List Link}
    (inside : ∀ link ∈ links, link.array < columns.size) {previous : Option Slot}
    {writer after : Writer} (found : writeLinks columns previous links writer = .ok ((), after)) :
    ∀ link ∈ links, ∀ column, columns[link.array]? = some column → ∃ place writer result,
      column.element place (column.items.getD link.place default) writer = .ok result := by
  induction links generalizing previous writer with
  | nil => exact List.forall_mem_nil _
  | cons link rest ih =>
      obtain ⟨here, others⟩ := List.forall_mem_cons.mp inside
      have present : columns[link.array]? = some columns[link.array] :=
        Array.getElem?_eq_getElem here
      obtain ⟨_, _, _, _, _, _, _, wrote, further⟩ := writeLinks_cons_eq_ok present found
      refine List.forall_mem_cons.mpr ⟨fun column owner => ?_, ih others further⟩
      cases present.symm.trans owner
      exact ⟨_, _, _, wrote⟩

/-- A chain that was written has written all elements of its arrays. -/
theorem written_of_chain {columns : List WriteColumn} {writer after : Writer}
    (found : Encode.chain columns writer = .ok ((), after)) :
    ∀ column ∈ columns, ColumnWritten column := by
  intro column member item listed
  obtain ⟨array, owner⟩ := List.mem_iff_getElem?.mp member
  obtain ⟨place, present⟩ := Array.mem_iff_getElem?.mp listed
  obtain ⟨small, value⟩ := Array.getElem?_eq_some_iff.mp present
  have count : (columns.map (·.items.size)).getD array 0 = column.items.size := by
    rw [List.getD_eq_getElem?_getD, List.getElem?_map, owner]
    rfl
  have linked : (⟨array, place⟩ : Link) ∈
      (roundRobin (columns.map (·.items.size))).filter (·.array == array) := by
    rw [filter_roundRobin, count]
    exact List.mem_map.mpr ⟨place, List.mem_range.mpr small, rfl⟩
  have inside : ∀ link ∈ roundRobin (columns.map (·.items.size)),
      link.array < columns.toArray.size := by
    intro link member
    obtain ⟨_, counted, _⟩ := mem_of_mem_roundRobin member
    obtain ⟨within, _⟩ := List.getElem?_eq_some_iff.mp counted
    rwa [List.length_map] at within
  obtain ⟨spot, before, result, wrote⟩ :=
    element_of_writeLinks inside found _ (List.mem_filter.mp linked).1 column (by simpa using owner)
  rw [Array.getD_eq_getD_getElem?, present] at wrote
  exact ⟨spot, before, result, wrote⟩

/-- The elements of an array are those that were prepared. -/
theorem written_of_column {base path : String} {field : Field} {waiting : OpenSlots}
    {writer : Writer} {result : (WriteColumn × OpenSlots) × Writer}
    (found : Encode.column base path field.name object waiting (writeElement field) writer =
      .ok result) (written : ColumnWritten result.1.1) :
    ∀ item ∈ itemsIn (under object field), ∃ place writer result,
      writeElement field place item writer = .ok result := by
  have opened := column_eq_ok found
  intro item member
  have some : (itemsIn (under object field)).isEmpty = false :=
    List.isEmpty_eq_false_iff.mpr (List.ne_nil_of_mem member)
  unfold openColumn at opened
  rw [show (itemsIn (object.bind (·.get? field.name))).isEmpty = false from some,
    if_neg Bool.false_ne_true] at opened
  split at opened
  next => exact absurd opened throw_ne_ok
  next =>
    obtain ⟨_, _, _, opened⟩ := bind_eq_ok.mp opened
    cases pure_eq_ok.mp opened
    exact written item (List.mem_toArray.mpr member)

/-- **A level that was written has written its fields**, and the arrays that waited before it. -/
theorem written_of_encodeFields {base path : String} {waiting : OpenSlots}
    {arrays : List WriteColumn} {writer : Writer} {result : OpenSlots × Writer}
    (found : encodeFields base path object waiting arrays fields writer = .ok result) :
    (∀ column ∈ arrays, ColumnWritten column) ∧ ∀ field ∈ fields, FieldWritten object field := by
  induction fields generalizing waiting arrays writer with
  | nil =>
      rw [encodeFields] at found
      obtain ⟨_, after, wrote, _⟩ := bind_eq_ok.mp found
      exact ⟨written_of_chain wrote, List.forall_mem_nil _⟩
  | cons field rest ih =>
      by_cases mixed : field.isMixed = true
      · rw [encodeFields_mixed mixed] at found
        obtain ⟨prepared, _, column, found⟩ := bind_eq_ok.mp found
        obtain ⟨columns, others⟩ := ih found
        obtain ⟨before, own⟩ := List.forall_mem_append.mp columns
        refine ⟨before, List.forall_mem_cons.mpr ⟨⟨fun single => ?_, fun _ => ?_⟩, others⟩⟩
        · rw [Field.isArray_of_isMixed mixed] at single
          cases single
        · exact written_of_column column (own _ List.mem_cons_self)
      · rw [encodeFields_plain (Bool.eq_false_iff.mpr mixed)] at found
        obtain ⟨_, _, chain, found⟩ := bind_eq_ok.mp found
        obtain ⟨left, _, own, found⟩ := bind_eq_ok.mp found
        obtain ⟨_, others⟩ := ih found
        refine ⟨written_of_chain chain, List.forall_mem_cons.mpr ⟨⟨fun _ => ?_, fun array => ?_⟩,
          others⟩⟩
        · exact ⟨_, _, _, _, _, own⟩
        · rw [encodeField_array array] at own
          obtain ⟨prepared, _, column, own⟩ := bind_eq_ok.mp own
          obtain ⟨_, _, chain, _⟩ := bind_eq_ok.mp own
          exact written_of_column column (written_of_chain chain _ List.mem_cons_self)

/-- What stands at the end of a way to a scalar was written as the scalar. -/
theorem scalar_written (stands : ScalarAt fields way type) {base path : String}
    {waiting : OpenSlots} {arrays : List WriteColumn} {writer : Writer}
    {result : OpenSlots × Writer}
    (found : encodeFields base path object waiting arrays fields writer = .ok result)
    (present : standing object way = some given) :
    ∃ place writer result, Encode.scalar type (some given) place writer = .ok result := by
  induction stands generalizing object base path waiting arrays writer result with
  | @scalar fields name type member =>
      obtain ⟨_, item, same⟩ := Option.bind_eq_some_iff.mp
        ((standing_field object (.scalar name type) []).symm.trans present)
      cases same
      obtain ⟨_, place, _, before, _, wrote⟩ :=
        ((written_of_encodeFields found).2 _ member).1 rfl
      rw [encodeField] at wrote
      obtain ⟨_, _, wrote, _⟩ := bind_eq_ok.mp wrote
      rw [show object.bind (·.get? name) = some given from item] at wrote
      exact ⟨_, _, _, wrote⟩
  | @scalars fields name type mixed index member =>
      obtain ⟨value, item, same⟩ := itemsIn_of_valueAt
        ((standing_field object (.scalars name type mixed) [.item index]).symm.trans present)
      cases same
      exact ((written_of_encodeFields found).2 _ member).2 rfl _ (List.mem_of_getElem? item)
  | @object fields inner name type rest member deeper ih =>
      obtain ⟨value, item, reached⟩ := Option.bind_eq_some_iff.mp
        ((standing_field object (.object name inner) rest).symm.trans present)
      rw [deeper.valueAt_eq] at reached
      obtain ⟨_, place, _, before, _, wrote⟩ :=
        ((written_of_encodeFields found).2 _ member).1 rfl
      rw [encodeField] at wrote
      obtain ⟨below, _, opened, wrote⟩ := bind_eq_ok.mp wrote
      cases inner_eq_ok opened
      rw [show object.bind (·.get? name) = some value from item] at wrote
      exact ih wrote reached
  | @items fields inner name type mixed index rest member deeper ih =>
      obtain ⟨value, item, reached⟩ := itemsIn_of_valueAt
        ((standing_field object (.items name inner mixed) (.item index :: rest)).symm.trans present)
      rw [deeper.valueAt_eq] at reached
      obtain ⟨spot, before, _, wrote⟩ :=
        ((written_of_encodeFields found).2 _ member).2 rfl _ (List.mem_of_getElem? item)
      cases value with
      | object values =>
          rw [writeElement] at wrote
          obtain ⟨_, _, wrote, _⟩ := bind_eq_ok.mp wrote
          exact ih wrote reached
      | _ => cases reached

/-- **No whole number is changed without a word**, but for the numbers of skills. Take a layout
with all headers ahead and an object without zero characters that was written. Where a whole number
was given for a scalar that holds one, at whatever depth, the number could stand there or was the
number of a skill, and it is read again; of the number of a skill that is too large for its word the
lower bits are read. -/
theorem wholes_decode_encode {layout : Layout} {code : UInt16} {object : Object} {bytes : Bytes}
    (sound : layout.check = .ok ()) (ahead : headersAhead layout = true)
    (plain : FieldsThroughout IsPlain object.fields)
    (encoded : layout.encode code object = .ok bytes) :
    ∃ again : Object, (layout.decode bytes).1 = .ok again ∧
      ∀ way type given n, ScalarAt layout.fields way type → type.isWhole = true →
        valueAt way (.object object.fields) = some given → given.integer? = some n →
        ∃ found, valueAt way (.object again.fields) = some found ∧ type.Keeps n found ∧
          (type.Holds n → found.whole? = some n) := by
  have named := wellNamed_of_check sound
  refine ⟨_, decode_encode_completed named plain (allAddressed_of_areAhead ahead) encoded, ?_⟩
  intro way type given n stands takes present number
  obtain ⟨left, middle, _, wrote, _⟩ := encode_eq_ok encoded
  have present : standing (some object) way = some given := present
  obtain ⟨place, before, _, wrote⟩ := scalar_written stands wrote present
  have keeps := keeps_of_scalar takes number wrote
  exact ⟨_, standing_completedAll stands named present, keeps, keeps.whole⟩

/-- A layout with numbers in an object, in an array and in the elements of an array. -/
def ledgerLayout : Layout :=
  ⟨placeHeaders [.object "hero" [.scalar "level" .int16, .scalars "skills" .skill false],
    .items "looks" [.scalar "face" .appearance, .scalar "mark" .skill32] true]⟩

/-- Numbers of all widths for the ledger, among them the largest that a skill and an appearance
hold. -/
def ledgerObject : Object :=
  ⟨[("hero", .object [("level", .byte 7), ("skills", .array [.uint32 268435455, .int64 5])]),
    ("looks", .array [.object [("face", .uint64 18446744073709551615), ("mark", .uint16 9)]])]⟩

theorem wholes_decode_encode_ledger : ∃ bytes again,
    ledgerLayout.encode 1 ledgerObject = .ok bytes ∧
    (ledgerLayout.decode bytes).1 = .ok again ∧
    ∃ found, valueAt [.name "hero", .name "skills", .item 0] (.object again.fields) = some found ∧
      found.whole? = some 268435455 := by
  have some : (ledgerLayout.encode 1 ledgerObject).toOption.isSome := by decide +kernel
  obtain ⟨bytes, wrote⟩ := Option.isSome_iff_exists.mp some
  have encoded := eq_ok_of_toOption wrote
  have plain : FieldsThroughout IsPlain ledgerObject.fields := by
    simp [ledgerObject, FieldsThroughout, Throughout, ItemsThroughout, IsPlain]
  obtain ⟨again, decoded, kept⟩ := wholes_decode_encode rfl rfl plain encoded
  have stands : ScalarAt ledgerLayout.fields [.name "hero", .name "skills", .item 0] .skill := by
    have hero : .object "hero" [.scalar "level" .int16, .scalars "skills" .skill false] ∈
        ledgerLayout.fields := by
      simp [ledgerLayout, placeHeaders, allWithElementHeaders, withElementHeaders]
    have skills : .scalars "skills" .skill false ∈
        [Field.scalar "level" .int16, .scalars "skills" .skill false] :=
      .tail _ List.mem_cons_self
    exact .object hero (.scalars skills)
  obtain ⟨found, present, _, whole⟩ := kept _ _ _ _ stands rfl rfl rfl
  exact ⟨bytes, again, encoded, decoded, found, present, whole ⟨by decide, by decide⟩⟩

/-- A layout of a skill in a word of 32 bits. -/
def skillLayout : Layout :=
  ⟨[.scalar "skill" .skill32]⟩

/-- **A skill may be changed without a word.** The number 67108864 has 27 bits, is written for a
skill that has 26 of them, and is read as zero. -/
theorem skill_cut : skillLayout.check = .ok () ∧ headersAhead skillLayout = true ∧
    FieldsThroughout IsPlain [("skill", .uint32 67108864)] ∧
    ScalarAt skillLayout.fields [.name "skill"] .skill32 ∧ ¬ Scalar.skill32.Holds 67108864 ∧
    ∃ bytes again found, skillLayout.encode 1 ⟨[("skill", .uint32 67108864)]⟩ = .ok bytes ∧
      (skillLayout.decode bytes).1 = .ok again ∧
      valueAt [.name "skill"] (.object again.fields) = some found ∧ found.whole? = some 0 := by
  have some : (skillLayout.encode 1 ⟨[("skill", .uint32 67108864)]⟩).toOption.bind (fun bytes =>
      (skillLayout.decode bytes).1.toOption.bind fun again =>
        (valueAt [.name "skill"] (.object again.fields)).bind Value.whole?) = some 0 := by
    decide +kernel
  obtain ⟨bytes, wrote, some⟩ := Option.bind_eq_some_iff.mp some
  obtain ⟨again, read, some⟩ := Option.bind_eq_some_iff.mp some
  obtain ⟨found, present, number⟩ := Option.bind_eq_some_iff.mp some
  refine ⟨rfl, rfl, ⟨trivial, trivial⟩, .scalar List.mem_cons_self, ?_, bytes, again, found,
    eq_ok_of_toOption wrote, eq_ok_of_toOption read, present, number⟩
  exact fun holds => absurd holds.2 (by decide)

end Layout

end Relay
