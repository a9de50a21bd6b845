import Relay.Layout.Decode
import Relay.Layout.Encode
import Relay.Proofs.Layout.Content

/-! # The fields of a level, one by one

Writing and reading treat the two sorts of arrays alike but for their elements, and the
interleaved arrays of a level differ from its other fields in that they wait for their chain. A text
and a run of bytes are written alike, too, once it is clear which bytes they are. -/

namespace Relay.Layout

open Relay.Stream Encode Decode

/-- Write a run behind its headers, the count of which is `length`. -/
def sendRun (key path : String) (waiting : OpenSlots) (length : Nat) (run : List UInt8) :
    Encode OpenSlots := do
  resolveCount (waiting.take .count key).1 path length
  resolveHere ((waiting.take .count key).2.take .offset key).1
  write (·.put run)
  pure ((waiting.take .count key).2.take .offset key).2

/-- Prepare an array with these items. -/
def openColumn (key path : String) (waiting : OpenSlots) (element : String → Value → Encode Unit)
    (items : List Value) : Encode (WriteColumn × OpenSlots) :=
  if items.isEmpty then pure (⟨path, #[], none, element⟩, waiting)
  else if UInt16.size ≤ items.length then throw (.countOverflow path items.length)
  else do
    resolve (waiting.take .count key).1 (.ofNat items.length)
    pure (⟨path, items.toArray, ((waiting.take .count key).2.take .offset key).1, element⟩,
      ((waiting.take .count key).2.take .offset key).2)

/-- Write an element of an array. -/
def writeElement : Field → String → Value → Encode Unit
  | .scalars _ type _, place, item => Encode.scalar type (some item) place
  | .items _ fields _, place, .object values => do
    let left ← encodeFields "" place (some ⟨values⟩) ⟨[]⟩ [] fields
    resolveRest left
  | .items .., place, other => mismatch place "object" other
  | _, _, _ => pure ()

/-- Read an element of an array. -/
def readElement : Field → String → Decode Value
  | .scalars _ type _, place => Decode.scalar type place
  | .items _ fields _, place => do
    let inner ← decodeFields "" place ⟨⟨[]⟩, .empty⟩ [] fields
    pure (.object inner.object.fields)
  | _, _ => pure default

section

variable {base path : String} {object : Option Object} {waiting : OpenSlots}
  {arrays : List WriteColumn} {rest : List Field} {field : Field}

/-- A text is sent as a run if it is there, and as an empty one if not. -/
theorem string_eq (name : String) :
    Encode.string base path name object waiting =
      match object.bind (·.get? name) with
      | none => sendRun (dotted base name) (dotted path name) waiting
          (Text.units "".toList).length (textBytes "")
      | some (.string text) => sendRun (dotted base name) (dotted path name) waiting
          (Text.units text.toList).length (textBytes text)
      | some other => mismatch (dotted path name) "string" other := by
  have sent (text : String) : (fun writer : Writer => writer.string text) =
      fun writer => writer.put (textBytes text) := by
    funext writer
    exact writer.string_eq_put text
  unfold Encode.string sendRun
  simp only [← sent]
  cases object.bind (·.get? name) with
  | none => rfl
  | some value => cases value <;> rfl

/-- Bytes are sent as a run if they are there, and as an empty one if not. -/
theorem bytes_eq (name : String) :
    Encode.bytes base path name object waiting =
      match object.bind (·.get? name) with
      | none => sendRun (dotted base name) (dotted path name) waiting 0 []
      | some (.bytes run) => sendRun (dotted base name) (dotted path name) waiting run.size
          run.toList
      | some other => mismatch (dotted path name) "bytes" other := by
  have sent (run : Bytes) : (fun writer : Writer => writer.putBytes run) =
      fun writer => writer.put run.toList := by
    funext writer
    exact writer.putBytes_eq_put run
  unfold Encode.bytes
  simp only [sent]
  unfold sendRun
  cases object.bind (·.get? name) with
  | none => rfl
  | some value => cases value <;> rfl

/-- An array is opened with its items if it is there, and with none if not. -/
theorem column_eq (name : String) (element : String → Value → Encode Unit) :
    Encode.column base path name object waiting element =
      match object.bind (·.get? name) with
      | none => openColumn (dotted base name) (dotted path name) waiting element []
      | some (.array items) =>
        openColumn (dotted base name) (dotted path name) waiting element items
      | some other => mismatch (dotted path name) "array" other := by
  unfold Encode.column openColumn
  cases object.bind (·.get? name) with
  | none => rfl
  | some value => cases value <;> rfl

section

variable {writer : Writer} {name : String}

/-- A text was written as its bytes, or nothing as the empty text. -/
theorem string_eq_ok {result : OpenSlots × Writer}
    (found : Encode.string base path name object waiting writer = .ok result) :
    sendRun (dotted base name) (dotted path name) waiting
      (Text.units (textIn (object.bind (·.get? name))).toList).length
      (textBytes (textIn (object.bind (·.get? name)))) writer = .ok result := by
  rw [string_eq] at found
  cases item : object.bind (·.get? name) with
  | none =>
      rw [item] at found
      exact found
  | some value =>
      rw [item] at found
      cases value with
      | string text => exact found
      | _ => exact absurd found throw_ne_ok

/-- Bytes that are written are sent as the run that they are. -/
theorem bytes_eq_ok {result : OpenSlots × Writer}
    (found : Encode.bytes base path name object waiting writer = .ok result) :
    sendRun (dotted base name) (dotted path name) waiting (runIn (object.bind (·.get? name))).size
      (runIn (object.bind (·.get? name))).toList writer = .ok result := by
  rw [bytes_eq] at found
  cases item : object.bind (·.get? name) with
  | none =>
      rw [item] at found
      exact found
  | some value =>
      rw [item] at found
      cases value with
      | bytes run => exact found
      | _ => exact absurd found throw_ne_ok

/-- An array that is written is opened with the items that it has. -/
theorem column_eq_ok {element : String → Value → Encode Unit}
    {result : (WriteColumn × OpenSlots) × Writer}
    (found : Encode.column base path name object waiting element writer = .ok result) :
    openColumn (dotted base name) (dotted path name) waiting element
      (itemsIn (object.bind (·.get? name))) writer = .ok result := by
  rw [column_eq] at found
  cases item : object.bind (·.get? name) with
  | none =>
      rw [item] at found
      exact found
  | some value =>
      rw [item] at found
      cases value with
      | array items => exact found
      | _ => exact absurd found throw_ne_ok

/-- A header is reserved, and a stale one of the same kind and key becomes zero. -/
theorem header_eq_ok {kind : HeaderKind} {key : String} {left : OpenSlots} {after : Writer}
    (found : Encode.header kind key waiting writer = .ok (left, after)) :
    left = (waiting.take kind key).2.add kind key ⟨writer.position⟩ ∧
      resolve (waiting.take kind key).1 0 (writer.uint16 0) = .ok ((), after) := by
  obtain ⟨_, _, seen, found⟩ := bind_eq_ok.mp found
  cases get_eq_ok.mp seen
  obtain ⟨_, _, wrote, found⟩ := bind_eq_ok.mp found
  cases write_eq_ok.mp wrote
  obtain ⟨_, _, stale, found⟩ := bind_eq_ok.mp found
  cases pure_eq_ok.mp found
  exact ⟨rfl, stale⟩

/-- An object that is gone into is the one that is there, and nothing is written for it. -/
theorem inner_eq_ok {result : Option Object × Writer}
    (found : Encode.inner path name object writer = .ok result) :
    result = ((object.bind (·.get? name)).bind Value.object?, writer) := by
  unfold Encode.inner at found
  cases item : object.bind (·.get? name) with
  | none =>
      rw [item] at found
      exact pure_eq_ok.mp found
  | some value =>
      rw [item] at found
      cases value with
      | object fields => exact pure_eq_ok.mp found
      | _ => exact absurd found throw_ne_ok

end

/-- An element is written behind its links, and then the others are. -/
theorem writeLinks_cons {columns : Array WriteColumn} {previous : Option Slot} {link : Link}
    {rest : List Link} {column : WriteColumn} (present : columns[link.array]? = some column) :
    writeLinks columns previous (link :: rest) = (do
      let position ← here
      resolve (if link.place = 0 then column.first else none) position
      resolve previous position
      write (·.uint16 position)
      let slot : Slot := ⟨(← get).position⟩
      write (·.uint16 0)
      column.element s!"{column.path}[{link.place}]" (column.items.getD link.place default)
      writeLinks columns (some slot) rest) := by
  rw [writeLinks]
  simp only [present]
  by_cases first : link.place = 0
  · simp only [if_pos first]
  · simp only [if_neg first]
    rfl

/-- An array that may share its chain is opened, and waits for it with the others. -/
theorem encodeFields_mixed (mixed : field.isMixed = true) :
    encodeFields base path object waiting arrays (field :: rest) = (do
      let prepared ← Encode.column base path field.name object waiting (writeElement field)
      encodeFields base path object prepared.2 (arrays ++ [prepared.1]) rest) := by
  cases field with
  | scalars name type mixed =>
      cases mixed
      rw [encodeFields]
      rfl
  | items name fields mixed =>
      cases mixed
      rw [encodeFields]
      refine congrArg (Encode.column base path name object waiting · >>= _) ?_
      funext place item
      cases item <;> rfl
  | _ => cases mixed

/-- A field that does not wait is written behind the chain of the arrays that do. -/
theorem encodeFields_plain (plain : field.isMixed = false) :
    encodeFields base path object waiting arrays (field :: rest) = (do
      Encode.chain arrays
      let waiting ← encodeField base path object waiting field
      encodeFields base path object waiting [] rest) := by
  cases field with
  | scalars name type mixed =>
      have apart : mixed = false := plain
      subst apart
      rw [encodeFields]
      all_goals rintro _ _ ⟨⟩
  | items name fields mixed =>
      have apart : mixed = false := plain
      subst apart
      rw [encodeFields]
      all_goals rintro _ _ ⟨⟩
  | _ =>
      rw [encodeFields]
      all_goals rintro _ _ ⟨⟩

/-- An array that is written alone has a chain of its own. -/
theorem encodeField_array (array : field.isArray = true) :
    encodeField base path object waiting field = (do
      let prepared ← Encode.column base path field.name object waiting (writeElement field)
      Encode.chain [prepared.1]
      pure prepared.2) := by
  cases field with
  | scalars name type mixed =>
      rw [encodeField]
      rfl
  | items name fields mixed =>
      rw [encodeField]
      refine congrArg (Encode.column base path name object waiting · >>= _) ?_
      funext place item
      cases item <;> rfl
  | _ => cases array

end

section

variable {base path : String} {level : LevelRead} {waiting : List ReadColumn} {rest : List Field}
  {field : Field}

/-- An array that may share its chain is looked up, and waits for it with the others. -/
theorem decodeFields_mixed (mixed : field.isMixed = true) :
    decodeFields base path level waiting (field :: rest) =
      decodeFields base path level
        (waiting ++ [Decode.column level.headers base path field.name (readElement field)])
        rest := by
  cases field with
  | scalars name type mixed =>
      cases mixed
      rw [decodeFields]
      rfl
  | items name fields mixed =>
      cases mixed
      rw [decodeFields]
      rfl
  | _ => cases mixed

/-- A field that does not wait is read behind the chain of the arrays that do. -/
theorem decodeFields_plain (plain : field.isMixed = false) :
    decodeFields base path level waiting (field :: rest) = (do
      let level ← Decode.chain waiting level
      let level ← decodeField base path level field
      decodeFields base path level [] rest) := by
  cases field with
  | scalars name type mixed =>
      have apart : mixed = false := plain
      subst apart
      rw [decodeFields]
      all_goals rintro _ _ ⟨⟩
  | items name fields mixed =>
      have apart : mixed = false := plain
      subst apart
      rw [decodeFields]
      all_goals rintro _ _ ⟨⟩
  | _ =>
      rw [decodeFields]
      all_goals rintro _ _ ⟨⟩

/-- An array that is read alone has a chain of its own. -/
theorem decodeField_array (array : field.isArray = true) :
    decodeField base path level field =
      Decode.chain [Decode.column level.headers base path field.name (readElement field)]
        level := by
  cases field with
  | scalars name type mixed =>
      rw [decodeField]
      rfl
  | items name fields mixed =>
      rw [decodeField]
      rfl
  | _ => cases array

end

/-- Taking one key out leaves the others as they are. -/
theorem lookup_eraseP {α β : Type} [BEq α] [LawfulBEq α] (entries : List (α × β)) {key other : α}
    (differs : other ≠ key) :
    (entries.eraseP fun (name, _) => name == key).lookup other = entries.lookup other := by
  induction entries with
  | nil => rfl
  | cons entry rest ih =>
      obtain ⟨name, value⟩ := entry
      rw [List.eraseP_cons]
      by_cases same : name = key
      · subst same
        have absent : (other == name) = false := beq_eq_false_iff_ne.mpr differs
        simp only [beq_self_eq_true, cond_true, List.lookup_cons, absent]
      · have kept : (name == key) = false := beq_eq_false_iff_ne.mpr same
        simp only [kept, cond_false, List.lookup_cons, ih]

/-- Taking an entry out takes its key from the keys. -/
theorem map_fst_eraseP {α β : Type} [BEq α] [LawfulBEq α] (entries : List (α × β)) (key : α) :
    (entries.eraseP fun (name, _) => name == key).map Prod.fst =
      (entries.map Prod.fst).erase key := by
  rw [List.erase_eq_eraseP, List.eraseP_map]
  congr 2
  funext entry
  exact BEq.comm

/-- A header that was read is found, and the others as before. -/
theorem get?_insert (headers : HeaderValues) (kind other : HeaderKind) (key name : String)
    (value : UInt16) :
    (headers.insert kind key value).get? other name =
      if (other, name) = (kind, key) then some value else headers.get? other name := by
  rw [HeaderValues.get?, HeaderValues.insert, List.lookup_cons]
  by_cases same : (other, name) = (kind, key)
  · rw [if_pos same, beq_iff_eq.mpr same]
  · rw [if_neg same, beq_eq_false_iff_ne.mpr same]
    exact lookup_eraseP headers.values same

/-- A header that was read ends at most two bytes behind the others. -/
theorem finish_insert (headers : HeaderValues) (kind : HeaderKind) (key : String)
    (value : UInt16) : (headers.insert kind key value).finish ≤ headers.finish + 2 := by
  have fewer : (headers.insert kind key value).values.length ≤ headers.values.length + 1 :=
    Nat.succ_le_succ List.length_eraseP_le
  simp only [HeaderValues.finish]
  omega

/-- A value under a new name goes behind the others. -/
theorem insert_of_notMem {object : Object} {name : String} (fresh : name ∉ object.names)
    (value : Value) : object.insert name value = ⟨object.fields ++ [(name, value)]⟩ := by
  have absent : object.contains name = false := by
    rw [Object.contains, Object.get?, Option.isSome_eq_false_iff, Option.isNone_iff_eq_none,
      List.lookup_eq_none_iff]
    intro pair member
    rw [bne_iff_ne]
    rintro rfl
    exact fresh (List.mem_map.mpr ⟨pair, member, rfl⟩)
  rw [Object.insert, absent]
  rfl

/-- Arrays under new names go behind the others, in order. -/
theorem foldl_insert_arrays {columns : List ReadColumn} {first : Nat} {items : Nat → List Value}
    {object : Object} (fresh : (object.names ++ columns.map (·.name)).Nodup) :
    (columns.zipIdx first).foldl
        (fun object (owner, array) => object.insert owner.name (.array (items array))) object =
      ⟨object.fields ++ (columns.zipIdx first).map fun (owner, array) =>
        (owner.name, .array (items array))⟩ := by
  induction columns generalizing object first with
  | nil => simp
  | cons column rest ih =>
      have new : column.name ∉ object.names := by
        rw [List.nodup_append] at fresh
        intro member
        exact fresh.2.2 _ member _ (by simp) rfl
      have later : ((⟨object.fields ++ [(column.name, .array (items first))]⟩ : Object).names ++
          rest.map (·.name)).Nodup := by
        simpa [Object.names] using fresh
      rw [List.zipIdx_cons, List.foldl_cons]
      simp only [insert_of_notMem new]
      rw [ih later]
      simp

end Relay.Layout
