import Mathlib.Logic.Basic
import Relay.Proofs.Layout.Names
import Relay.Proofs.Protocol.Rows

/-! # Tables of codes are paired

In every opcode table that comes about, the code of a name has this name, and the name of a code has
this code (`Relay.OpcodeTable.Made.paired`): an insertion strikes from both sides what it takes
(`Relay.OpcodeTable.code?_insert`, `Relay.OpcodeTable.name?_insert`). For this reason the order in
which the rows of a table are laid over another does not matter
(`Relay.OpcodeTable.code?_overlay_eq_some`). -/

namespace Relay.OpcodeTable

section Entries

variable {α β : Type} [DecidableEq α] {entries : List (α × β)}

/-- Once a key is forgotten it is not found, and all others are. -/
theorem lookup_forget (key other : α) :
    (forget entries key).lookup other = if other = key then none else entries.lookup other := by
  induction entries with
  | nil => exact (ite_self _).symm
  | cons entry rest ih =>
      obtain ⟨own, value⟩ := entry
      unfold forget at ih ⊢
      rw [List.filter_cons]
      split
      next kept =>
        have differs : own ≠ key := by simpa using kept
        rw [List.lookup_cons, List.lookup_cons, ih]
        split
        next found =>
          rw [if_neg]
          rwa [eq_of_beq found]
        next => rfl
      next gone =>
        have same : own = key := by simpa using gone
        rw [ih, List.lookup_cons]
        split
        next => rfl
        next absent =>
          have unlike : (other == own) = false := by simpa [same] using absent
          rw [unlike]

/-- Once a key is assigned it has its value, and all others have theirs. -/
theorem lookup_assign (key other : α) (value : β) : (assign entries key value).lookup other =
    if other = key then some value else entries.lookup other := by
  rw [assign, List.lookup_append, lookup_forget, List.lookup_cons]
  by_cases same : other = key
  · rw [if_pos same, if_pos same, same, beq_self_eq_true]
    rfl
  · rw [if_neg same, if_neg same, beq_eq_false_iff_ne.mpr same]
    exact Option.or_none

/-- Nothing is put in when a former key is struck. -/
theorem sublist_strike (former : Option α) (kept : α) :
    (strike entries former kept).Sublist entries := by
  cases former with
  | none => exact List.Sublist.refl _
  | some former =>
      rw [strike]
      split
      next => exact List.Sublist.refl _
      next => exact List.filter_sublist

/-- Only the former key is struck, and only if it is not kept. -/
theorem lookup_strike (former : Option α) (kept other : α) :
    (strike entries former kept).lookup other =
      if former = some other ∧ other ≠ kept then none else entries.lookup other := by
  cases former with
  | none => exact (if_neg fun both => nomatch both.1).symm
  | some former =>
      rw [strike]
      by_cases same : former = kept
      · rw [if_pos same, if_neg]
        rintro ⟨found, differs⟩
        exact differs ((Option.some.inj found).symm.trans same)
      · rw [if_neg same, lookup_forget]
        refine if_congr ⟨?_, ?_⟩ rfl rfl
        · rintro rfl
          exact ⟨rfl, same⟩
        · rintro ⟨found, _⟩
          exact (Option.some.inj found).symm

/-- An assignment leaves one value for a key. -/
theorem nodup_assign (distinct : (entries.map Prod.fst).Nodup) (key : α) (value : β) :
    ((assign entries key value).map Prod.fst).Nodup := by
  have others : ((forget entries key).map Prod.fst).Nodup :=
    distinct.sublist (List.filter_sublist.map _)
  have fresh : key ∉ (forget entries key).map Prod.fst := by
    intro member
    obtain ⟨entry, kept, rfl⟩ := List.mem_map.mp member
    simpa using (List.mem_filter.mp kept).2
  rw [assign, List.map_append, List.map_cons, List.map_nil]
  refine List.nodup_append.mpr ⟨others, List.nodup_cons.mpr ⟨nofun, List.nodup_nil⟩, ?_⟩
  rintro other member _ (_ | ⟨_, ⟨⟩⟩) rfl
  exact fresh member

end Entries

variable {table other : OpcodeTable} {name : String} {code : UInt16}

/-- Whether both sides of a table say the same. -/
def Paired (table : OpcodeTable) : Prop :=
  ∀ name code, table.code? name = some code ↔ table.name? code = some name

theorem paired_empty : Paired empty := fun _ _ => ⟨nofun, nofun⟩

/-! ## Insertions -/

/-- An insertion gives its code its name, and strikes the code that the name had. -/
theorem name?_insert (table : OpcodeTable) (name : String) (code query : UInt16) :
    (table.insert name code).name? query =
      if query = code then some name
      else if table.code? name = some query then none else table.name? query := by
  rw [insert, name?, lookup_assign, lookup_strike]
  by_cases own : query = code
  · rw [if_pos own, if_pos own]
  · rw [if_neg own, if_neg own]
    exact if_congr (and_iff_left own) rfl rfl

/-- An insertion gives its name its code, and strikes the name that had the code. -/
theorem code?_insert (paired : Paired table) (name query : String) (code : UInt16) :
    (table.insert name code).code? query =
      if query = name then some code
      else if table.code? query = some code then none else table.code? query := by
  have holder : (strike table.names (table.codes.lookup name) code).lookup code =
      table.name? code := by
    rw [lookup_strike]
    exact if_neg fun both => both.2 rfl
  rw [insert, code?, holder, lookup_strike, lookup_assign]
  by_cases own : query = name
  · rw [if_neg fun both => both.2 own, if_pos own, if_pos own]
  · rw [if_neg own, if_neg own]
    exact if_congr ((and_iff_left own).trans (paired query code).symm) rfl rfl

/-- After a row, a name has a code if the row says so or if it had it and the row takes neither. -/
theorem code?_insert_eq_some (paired : Paired table) {query : String} {held : UInt16} :
    (table.insert name code).code? query = some held ↔
      query = name ∧ held = code ∨ query ≠ name ∧ held ≠ code ∧ table.code? query = some held := by
  rw [code?_insert paired]
  grind

/-- After a row, a code has a name if the row says so or if it had it and the row takes neither. -/
theorem name?_insert_eq_some (paired : Paired table) {query : String} {held : UInt16} :
    (table.insert name code).name? held = some query ↔
      query = name ∧ held = code ∨ query ≠ name ∧ held ≠ code ∧ table.code? query = some held := by
  have former := paired name held
  rw [name?_insert, paired query held]
  grind

/-- **What an insertion takes, it strikes from both sides.** -/
theorem paired_insert (paired : Paired table) (name : String) (code : UInt16) :
    Paired (table.insert name code) := fun _ _ =>
  (code?_insert_eq_some paired).trans (name?_insert_eq_some paired).symm

/-! ## Rows that are laid over a table -/

/-- Rows inserted one after the other. -/
def insertAll (table : OpcodeTable) (rows : List (String × UInt16)) : OpcodeTable :=
  rows.foldl (fun table (name, code) => table.insert name code) table

/-- Rows that do not take anything from each other. -/
def Apart (row other : String × UInt16) : Prop :=
  row.1 ≠ other.1 ∧ row.2 ≠ other.2

/-- Rows that are apart are all kept, and what they do not take is kept as well. -/
theorem code?_insertAll_eq_some {rows : List (String × UInt16)} (paired : Paired table)
    (apart : rows.Pairwise Apart) {query : String} {held : UInt16} :
    (table.insertAll rows).code? query = some held ↔ (query, held) ∈ rows ∨
      table.code? query = some held ∧ ∀ row ∈ rows, Apart (query, held) row := by
  induction rows generalizing table with
  | nil => exact ⟨fun found => .inr ⟨found, List.forall_mem_nil _⟩, fun
      | .inr ⟨found, _⟩ => found⟩
  | cons row rest ih =>
      obtain ⟨name, code⟩ := row
      obtain ⟨first, others⟩ := List.pairwise_cons.mp apart
      have further := ih (paired_insert paired name code) others
      rw [List.mem_cons, List.forall_mem_cons, Prod.mk.injEq]
      refine further.trans ?_
      rw [code?_insert_eq_some paired]
      constructor
      · rintro (later | ⟨⟨rfl, rfl⟩ | ⟨name, code, found⟩, kept⟩)
        · exact .inl (.inr later)
        · exact .inl (.inl ⟨rfl, rfl⟩)
        · exact .inr ⟨found, ⟨name, code⟩, kept⟩
      · rintro ((⟨rfl, rfl⟩ | later) | ⟨found, ⟨name, code⟩, kept⟩)
        · exact .inr ⟨.inl ⟨rfl, rfl⟩, first⟩
        · exact .inl later
        · exact .inr ⟨.inr ⟨name, code, found⟩, kept⟩

/-! ## Tables that come about -/

/-- Whether a table is paired and has one row for a name. -/
structure Sound (table : OpcodeTable) : Prop where
  paired : Paired table
  distinct : (table.codes.map Prod.fst).Nodup

theorem sound_empty : Sound empty := ⟨paired_empty, List.nodup_nil⟩

/-- A row keeps a table sound. -/
theorem sound_insert (sound : Sound table) (name : String) (code : UInt16) :
    Sound (table.insert name code) where
  paired := paired_insert sound.paired name code
  distinct := (nodup_assign sound.distinct name code).sublist ((sublist_strike _ _).map _)

/-- **Rows keep a table sound**, however many. -/
theorem sound_insertAll (sound : Sound table) (rows : List (String × UInt16)) :
    Sound (table.insertAll rows) := by
  induction rows generalizing table with
  | nil => exact sound
  | cons row rest ih => exact ih (sound_insert sound row.1 row.2)

/-- Every table that is made of rows is sound. -/
theorem sound_ofList (rows : List (String × UInt16)) : Sound (ofList rows) :=
  sound_insertAll sound_empty rows

/-- A table that is laid over a sound one leaves it sound. -/
theorem sound_overlay (sound : Sound table) (other : OpcodeTable) : Sound (table.overlay other) :=
  sound_insertAll sound other.codes

/-- Every table that is read from a text is sound. -/
theorem sound_parse (source origin : String) : Sound (parse source origin).1 := by
  rw [parse_eq_ofList]
  exact sound_ofList _

/-- The codes of a sound table are what it finds for their names. -/
theorem Sound.mem_codes (sound : Sound table) :
    (name, code) ∈ table.codes ↔ table.code? name = some code := by
  constructor
  · exact Layout.lookup_of_mem sound.distinct
  · intro found
    obtain ⟨front, back, split, _⟩ := List.lookup_eq_some_iff.mp found
    rw [split]
    exact List.mem_append_right _ List.mem_cons_self

/-- The rows of a table do not take anything from each other. -/
theorem Sound.apart (sound : Sound table) : table.codes.Pairwise Apart := by
  refine (List.pairwise_map.mp sound.distinct).imp_of_mem fun {row other} first second differs => ?_
  refine ⟨differs, fun same => differs ?_⟩
  have named := (sound.paired _ _).mp (sound.mem_codes.mp first)
  have named' := (sound.paired _ _).mp (sound.mem_codes.mp second)
  rw [same, named'] at named
  exact (Option.some.inj named).symm

/-- **A table that is laid over another covers its names and its codes.** The order of its rows
does not matter. -/
theorem code?_overlay_eq_some (paired : Paired table) (sound : Sound other)
    {rows : List (String × UInt16)} (order : rows.Perm other.codes) :
    (table.insertAll rows).code? name = some code ↔
      other.code? name = some code ∨
        table.code? name = some code ∧ other.code? name = none ∧ other.name? code = none := by
  have symmetric : ∀ {row row' : String × UInt16}, Apart row row' → Apart row' row :=
    fun apart => ⟨apart.1.symm, apart.2.symm⟩
  have apart : rows.Pairwise Apart := (order.pairwise_iff symmetric).mpr sound.apart
  have untouched : (∀ row ∈ rows, Apart (name, code) row) ↔
      other.code? name = none ∧ other.name? code = none := by
    constructor
    · intro all
      have free (row : String × UInt16) (found : other.code? row.1 = some row.2) :
          Apart (name, code) row := all row (order.mem_iff.mpr (sound.mem_codes.mpr found))
      refine ⟨Option.eq_none_iff_forall_ne_some.mpr fun held found => ?_,
        Option.eq_none_iff_forall_ne_some.mpr fun held found => ?_⟩
      · exact (free (name, held) found).1 rfl
      · exact (free (held, code) ((sound.paired _ _).mpr found)).2 rfl
    · rintro ⟨nameless, codeless⟩ ⟨name', code'⟩ member
      have found := sound.mem_codes.mp (order.mem_iff.mp member)
      refine ⟨?_, ?_⟩
      · rintro rfl
        rw [nameless] at found
        cases found
      · rintro rfl
        rw [(sound.paired _ _).mp found] at codeless
        cases codeless
  rw [code?_insertAll_eq_some paired apart, untouched, order.mem_iff, sound.mem_codes]

/-- The tables that come about: by insertions, by laying one over another in whatever order its rows
come, from a list of rows, and from a text. -/
inductive Made : OpcodeTable → Prop
  | empty : Made empty
  | insert {table : OpcodeTable} (made : Made table) (name : String) (code : UInt16) :
    Made (table.insert name code)
  | overlay {table other : OpcodeTable} (made : Made table) (upper : Made other)
    {rows : List (String × UInt16)} (order : rows.Perm other.codes) : Made (table.insertAll rows)
  | ofList (rows : List (String × UInt16)) : Made (ofList rows)
  | parse (source origin : String) : Made (parse source origin).1

/-- **Every table is paired.** -/
theorem Made.sound (made : Made table) : Sound table := by
  induction made with
  | empty => exact sound_empty
  | insert _ name code sound => exact sound_insert sound name code
  | overlay _ _ _ sound => exact sound_insertAll sound _
  | ofList rows => exact sound_ofList rows
  | parse source origin => exact sound_parse source origin

end Relay.OpcodeTable
