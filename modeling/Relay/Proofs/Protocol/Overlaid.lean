import Mathlib.Data.List.Induction
import Mathlib.Data.List.Nodup
import Relay.Proofs.Protocol.Paired

/-! # Which rows a table has

Of rows that are added one after the other, those are left that no later row takes a name or a code
from (`Relay.OpcodeTable.code?_ofList_eq_some`). Hence the rows of a text are told by its lines
alone (`Relay.OpcodeTable.parse_rows`). Of a table that another is laid over, those rows are left
that the upper table takes nothing from; this says all of the outcome, and in which order the upper
table gives its rows does not show (`Relay.OpcodeTable.overlay_same`). -/

namespace Relay.OpcodeTable

open Text

variable {table other base : OpcodeTable} {rows : List (String × UInt16)} {name : String}
  {code : UInt16}

/-! ## Rows one after the other -/

/-- The last row is put into the table of all others. -/
theorem ofList_concat (rows : List (String × UInt16)) (row : String × UInt16) :
    ofList (rows ++ [row]) = (ofList rows).insert row.1 row.2 := by
  unfold ofList
  rw [List.foldl_append]
  rfl

/-- **The last row wins.** A row is left if and only if no row behind it has its name or its
code. -/
theorem code?_ofList_eq_some : (ofList rows).code? name = some code ↔
    ∃ front back, rows = front ++ (name, code) :: back ∧ ∀ row ∈ back, Apart (name, code) row := by
  induction rows using List.reverseRecOn with
  | nil => simp [ofList, code?, empty]
  | append_singleton rows last ih =>
      rw [ofList_concat, code?_insert_eq_some (sound_ofList rows).paired, ih]
      constructor
      · rintro (⟨rfl, rfl⟩ | ⟨unnamed, uncoded, front, back, rfl, kept⟩)
        · exact ⟨rows, [], rfl, List.forall_mem_nil _⟩
        · refine ⟨front, back ++ [last], by simp, List.forall_mem_append.mpr ⟨kept, ?_⟩⟩
          simpa using ⟨unnamed, uncoded⟩
      · rintro ⟨front, back, same, kept⟩
        -- the last row is the one asked for, or it is the last of those behind it
        rcases List.eq_nil_or_concat back with rfl | ⟨between, final, rfl⟩
        · obtain ⟨_, final⟩ := List.append_inj' same rfl
          cases final
          exact .inl ⟨rfl, rfl⟩
        · rw [List.concat_eq_append] at same kept
          rw [← List.cons_append, ← List.append_assoc] at same
          obtain ⟨rfl, final⟩ := List.append_inj' same rfl
          cases final
          obtain ⟨kept, apart⟩ := List.forall_mem_append.mp kept
          obtain ⟨unnamed, uncoded⟩ := apart _ (List.mem_singleton_self _)
          exact .inr ⟨unnamed, uncoded, front, between, rfl, kept⟩

/-! ## The rows of a text -/

theorem IsWord.count {text : List Char} (word : IsWord text) : text.count '=' = 0 :=
  List.count_eq_zero.mpr fun member => (word.2 _ member).2 rfl

theorem IsGap.count {text : List Char} (gap : IsGap text) : text.count '=' = 0 :=
  List.count_eq_zero.mpr fun member => absurd (gap _ member) (by decide)

/-- A line that spells a row has at most one equals sign. -/
theorem Spells.count_le {line name code : List Char} (spells : Spells line name code) :
    line.count '=' ≤ 1 := by
  cases spells with
  | blanks named coded _ gaps => simp [named.count, coded.count, gaps.count]
  | equals named coded gaps gaps' => simp [named.count, coded.count, gaps.count, gaps'.count]

/-- **The rows of a text.** There is one list of rows that its lines give, in their order. The text
comes to the table of these rows, which has those that no later row takes a name or a code from. If
no line has the form in which the first equals sign is followed by a second, these are the rows that
the lines spell. -/
theorem parse_rows (source origin : String) : ∃ rows,
    (∀ others, Lists Accepts (lines source.toList) others ↔ others = rows) ∧
      (parse source origin).1 = ofList rows ∧
      (∀ name code, (parse source origin).1.code? name = some code ↔ ∃ front back,
        rows = front ++ (name, code) :: back ∧ ∀ row ∈ back, Apart (name, code) row) ∧
      ((∀ line ∈ lines source.toList, ∀ name code, ¬ Doubles (trim (dropComment line)) name code) →
        Lists Spells (lines source.toList) rows) := by
  refine ⟨(lines source.toList).filterMap row?, fun others => lists_iff, parse_eq_ofList _ _,
    fun name code => ?_, fun single => ?_⟩
  · rw [parse_eq_ofList]
    exact code?_ofList_eq_some
  · exact Lists.of_or (lists_iff.mpr rfl) single

/-- A line with a second equals sign spells no row, and is read as one. -/
theorem parse_second_equals : ¬ ∀ (source origin : String) (rows : List (String × UInt16)),
    Lists Spells (lines source.toList) rows → (parse source origin).1 = ofList rows := by
  intro all
  have none : ∀ row, ¬ Gives Spells "S_A==5".toList row := by
    rintro row ⟨name, code, spells, _⟩
    exact absurd spells.count_le (by decide)
  have read := all "S_A==5" "test.map" [] (.skip none .nil)
  exact absurd (congrArg (code? · "S_A") read) (by decide)

/-! ## One table over another -/

/-- Whether two tables have the same rows, in whatever order. -/
structure Same (table other : OpcodeTable) : Prop where
  codes : table.codes.Perm other.codes
  names : table.names.Perm other.names

/-- After a row every code still has one name. -/
theorem nodup_names_insert (distinct : (table.names.map Prod.fst).Nodup) (name : String)
    (code : UInt16) : ((table.insert name code).names.map Prod.fst).Nodup := by
  apply nodup_assign
  exact distinct.sublist ((sublist_strike _ _).map _)

/-- After any rows every code still has one name. -/
theorem nodup_names_insertAll (distinct : (table.names.map Prod.fst).Nodup)
    (rows : List (String × UInt16)) : ((table.insertAll rows).names.map Prod.fst).Nodup := by
  induction rows generalizing table with
  | nil => exact distinct
  | cons row rest ih => exact ih (nodup_names_insert distinct row.1 row.2)

/-- In a table that comes about a code has one entry on the side of the names as well. -/
theorem Made.distinct_names (made : Made table) : (table.names.map Prod.fst).Nodup := by
  have empty : (OpcodeTable.empty.names.map Prod.fst).Nodup := List.nodup_nil
  induction made with
  | empty => exact empty
  | insert _ name code distinct => exact nodup_names_insert distinct name code
  | overlay _ _ _ distinct => exact nodup_names_insertAll distinct _
  | ofList rows => exact nodup_names_insertAll empty rows
  | parse source origin =>
      rw [parse_eq_ofList]
      exact nodup_names_insertAll empty _

/-- In a table that was made both maps have the same entries. -/
theorem Made.mem_names (made : Made table) :
    (code, name) ∈ table.names ↔ (name, code) ∈ table.codes := by
  rw [made.sound.mem_codes, made.sound.paired]
  constructor
  · exact Layout.lookup_of_mem made.distinct_names
  · intro found
    obtain ⟨front, back, split, _⟩ := List.lookup_eq_some_iff.mp found
    rw [split]
    exact List.mem_append_right _ List.mem_cons_self

/-- A name is not among the entries if and only if it has no code. -/
theorem Sound.notMem_names (sound : Sound table) :
    name ∉ table.codes.map Prod.fst ↔ table.code? name = none := by
  rw [Option.eq_none_iff_forall_ne_some]
  simp [sound.mem_codes]

/-- A code is not among the entries if and only if it has no name. -/
theorem Sound.notMem_codes (sound : Sound table) :
    code ∉ table.codes.map Prod.snd ↔ table.name? code = none := by
  rw [Option.eq_none_iff_forall_ne_some]
  simp [sound.mem_codes, sound.paired _ _]

/-- Tables that give names the same codes have the same rows. -/
theorem Made.same_of_code? (made : Made table) (made' : Made other)
    (codes : ∀ name code, table.code? name = some code ↔ other.code? name = some code) :
    Same table other := by
  have rows : ∀ row, row ∈ table.codes ↔ row ∈ other.codes := by
    intro ⟨name, code⟩
    rw [made.sound.mem_codes, made'.sound.mem_codes, codes]
  constructor
  · apply (List.perm_ext_iff_of_nodup (List.Nodup.of_map _ made.sound.distinct)
      (List.Nodup.of_map _ made'.sound.distinct)).mpr
    exact rows
  · apply (List.perm_ext_iff_of_nodup (List.Nodup.of_map _ made.distinct_names)
      (List.Nodup.of_map _ made'.distinct_names)).mpr
    intro ⟨code, name⟩
    rw [made.mem_names, made'.mem_names, rows]

/-- **A table that is laid over another.** Whatever the order in which it gives its rows, the
outcome is the same: it has the rows of the upper table, and those of the lower one whose name and
whose code the upper one does not have, on both sides. Laying the upper table over it once more, in
any order, changes nothing. -/
theorem overlay_same (made : Made base) (upper : Made other) (order : rows.Perm other.codes) :
    Same (base.insertAll rows) (base.overlay other) ∧
      Same ((base.overlay other).insertAll rows) (base.overlay other) ∧
      (∀ name code, (name, code) ∈ (base.overlay other).codes ↔ (name, code) ∈ other.codes ∨
        (name, code) ∈ base.codes ∧ name ∉ other.codes.map Prod.fst ∧
          code ∉ other.codes.map Prod.snd) ∧
      ∀ name code, (code, name) ∈ (base.overlay other).names ↔
        (name, code) ∈ (base.overlay other).codes := by
  have laid : Made (base.overlay other) := made.overlay upper (List.Perm.refl other.codes)
  have covers {name : String} {code : UInt16} : (base.overlay other).code? name = some code ↔
      other.code? name = some code ∨
        base.code? name = some code ∧ other.code? name = none ∧ other.name? code = none :=
    code?_overlay_eq_some made.sound.paired upper.sound (List.Perm.refl other.codes)
  refine ⟨?_, ?_, fun name code => ?_, fun name code => laid.mem_names⟩
  · apply (made.overlay upper order).same_of_code? laid
    intro name code
    rw [code?_overlay_eq_some made.sound.paired upper.sound order]
    exact covers.symm
  · apply (laid.overlay upper order).same_of_code? laid
    intro name code
    rw [code?_overlay_eq_some laid.sound.paired upper.sound order]
    constructor
    · rintro (upper | ⟨found, _⟩)
      · exact covers.mpr (.inl upper)
      · exact found
    · intro found
      rcases covers.mp found with upper | ⟨_, unnamed, uncoded⟩
      · exact .inl upper
      · exact .inr ⟨found, unnamed, uncoded⟩
  · rw [laid.sound.mem_codes, upper.sound.mem_codes, made.sound.mem_codes,
      upper.sound.notMem_names, upper.sound.notMem_codes]
    exact covers

/-- Two names that swap their codes. -/
theorem overlay_same_swapped :
    let base := ofList [("C_ASK", 1), ("S_REPLY", 2), ("C_SEE", 3)]
    let other := ofList [("C_ASK", 2), ("S_REPLY", 1)]
    Same (base.insertAll [("S_REPLY", 1), ("C_ASK", 2)]) (base.overlay other) ∧
      ("C_SEE", 3) ∈ (base.overlay other).codes ∧ ("C_ASK", 1) ∉ (base.overlay other).codes := by
  intro base other
  have made : Made base := .ofList _
  have upper : Made other := .ofList _
  have order : [("S_REPLY", 1), ("C_ASK", 2)].Perm other.codes := by decide
  obtain ⟨same, _, rows, _⟩ := overlay_same made upper order
  refine ⟨same, (rows "C_SEE" 3).mpr (.inr (by decide)), ?_⟩
  rw [rows]
  decide

end Relay.OpcodeTable
