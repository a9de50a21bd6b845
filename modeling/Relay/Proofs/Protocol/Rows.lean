import Mathlib.Data.List.TakeWhile
import Relay.Proofs.Layout.Names
import Relay.Protocol.OpcodeTable

/-! # The lines of a table

A line of a table gives a name a code if it spells both: with blanks between them, or with one
equals sign that may have blanks around it (`Relay.OpcodeTable.Spells`). The reader accepts these
lines and one more form, in which a second equals sign follows the first
(`Relay.OpcodeTable.splitLine_iff`). A text comes to the table of the rows that its lines give, in
their order (`Relay.OpcodeTable.parse_eq_ofList`), and all other lines might as well not be
there. -/

namespace Relay.OpcodeTable

open Text

variable {line name code : List Char} {table : OpcodeTable} {rows : List (String × UInt16)}

/-! ## The form of a line -/

/-- Whether a text can be a name or a code: it is not empty, and has neither blanks nor equals
signs. -/
def IsWord (text : List Char) : Prop :=
  text ≠ [] ∧ ∀ c ∈ text, isBlank c = false ∧ c ≠ '='

/-- Whether a text has nothing but blanks. -/
def IsGap (text : List Char) : Prop :=
  ∀ c ∈ text, isBlank c = true

/-- The lines that spell a name and a code. -/
inductive Spells : List Char → List Char → List Char → Prop
  | blanks {name gap code : List Char} (named : IsWord name) (coded : IsWord code) (some : gap ≠ [])
    (gaps : IsGap gap) : Spells (name ++ gap ++ code) name code
  | equals {name before after code : List Char} (named : IsWord name) (coded : IsWord code)
    (gaps : IsGap before) (gaps' : IsGap after) :
    Spells (name ++ before ++ '=' :: after ++ code) name code

/-- The lines with a second equals sign that are read as if it were not there: the first one stands
right behind the name. -/
inductive Doubles : List Char → List Char → List Char → Prop
  | equals {name before after code : List Char} (named : IsWord name) (coded : IsWord code)
    (gaps : IsGap before) (gaps' : IsGap after) :
    Doubles (name ++ '=' :: before ++ '=' :: after ++ code) name code

/-- The lines that are accepted. -/
def Accepts (line name code : List Char) : Prop :=
  Spells line name code ∨ Doubles line name code

/-! ## Splitting a line -/

/-- Whether a name ends at a character. -/
def isMark (c : Char) : Bool :=
  isBlank c || c == '='

/-- What follows a mark, without blanks and one equals sign before it. -/
def behindMark (rest : List Char) : List Char :=
  match trimLeft rest with
  | '=' :: behind => trimLeft behind
  | _ => trimLeft rest

theorem isMark_eq_false {c : Char} : isMark c = false ↔ isBlank c = false ∧ c ≠ '=' := by
  simp [isMark]

theorem isWord_iff {text : List Char} :
    IsWord text ↔ text ≠ [] ∧ ∀ c ∈ text, isMark c = false := by
  simp only [IsWord, isMark_eq_false]

/-- A line is split if a name stands before its first mark and a word behind it. -/
theorem splitLine_eq_some : splitLine line = some (name, code) ↔
    ∃ rest, splitOnce isMark line = some (name, rest) ∧ behindMark rest = code ∧
      name ≠ [] ∧ IsWord code := by
  change (splitOnce isMark line).bind (fun parts =>
    if parts.1.isEmpty || (behindMark parts.2).isEmpty || (behindMark parts.2).any isMark then none
    else some (parts.1, behindMark parts.2)) = _ ↔ _
  simp only [Option.bind_eq_some_iff, Prod.exists, isWord_iff]
  constructor
  · intro found
    obtain ⟨before, rest, found, accepted⟩ := found
    split at accepted
    next => cases accepted
    next plain =>
      cases accepted
      simp only [Bool.or_eq_true, List.isEmpty_iff, List.any_eq_true, not_or, not_exists, not_and,
        Bool.not_eq_true] at plain
      exact ⟨rest, found, rfl, plain.1.1, plain.1.2, plain.2⟩
  · rintro ⟨rest, found, rfl, named, some, plain⟩
    refine ⟨name, rest, found, if_neg ?_⟩
    simpa [named, some] using plain

/-- Blanks before a text that does not begin with one are dropped. -/
theorem trimLeft_gap {gap text : List Char} (gaps : IsGap gap)
    (begins : ∀ c ∈ text.head?, isBlank c = false) : trimLeft (gap ++ text) = text := by
  unfold trimLeft
  rw [List.dropWhile_append_of_pos gaps]
  cases text with
  | nil => rfl
  | cons c rest => exact trimLeft_cons (begins c rfl) rest

/-- A word does not begin with a blank. -/
theorem IsWord.head {text : List Char} (word : IsWord text) :
    ∀ c ∈ text.head?, isBlank c = false := by
  intro c first
  exact (word.2 c (List.mem_of_mem_head? first)).1

/-- Behind blanks the word is found. -/
theorem behindMark_word {gap : List Char} (coded : IsWord code) (gaps : IsGap gap) :
    behindMark (gap ++ code) = code := by
  unfold behindMark
  rw [trimLeft_gap gaps coded.head]
  split
  next behind => exact absurd rfl (coded.2 '=' List.mem_cons_self).2
  next => rfl

/-- Behind an equals sign with blanks around it the word is found. -/
theorem behindMark_equals {before after : List Char} (coded : IsWord code) (gaps : IsGap before)
    (gaps' : IsGap after) : behindMark (before ++ '=' :: after ++ code) = code := by
  have begins : ∀ c ∈ ('=' :: after ++ code).head?, isBlank c = false := by
    simp [isBlank]
  unfold behindMark
  rw [List.append_assoc, trimLeft_gap gaps begins]
  exact trimLeft_gap gaps' coded.head

/-- A text is the blanks in front of it and the rest. -/
theorem exists_gap (text : List Char) : ∃ gap, IsGap gap ∧ text = gap ++ trimLeft text := by
  refine ⟨text.takeWhile isBlank, ?_, List.takeWhile_append_dropWhile.symm⟩
  intro c member
  exact List.mem_takeWhile_imp member

/-- What stands behind a mark is a code with blanks before it, or with an equals sign before it that
may have blanks around it. -/
theorem exists_of_behindMark (rest : List Char) :
    ∃ before, IsGap before ∧ (rest = before ++ behindMark rest ∨
      ∃ after, IsGap after ∧ rest = before ++ '=' :: after ++ behindMark rest) := by
  obtain ⟨before, gaps, same⟩ := exists_gap rest
  refine ⟨before, gaps, ?_⟩
  unfold behindMark
  split
  next behind trimmed =>
    obtain ⟨after, gaps', same'⟩ := exists_gap behind
    refine .inr ⟨after, gaps', ?_⟩
    calc
      rest = before ++ '=' :: behind := by rw [← trimmed, ← same]
      _ = before ++ '=' :: (after ++ trimLeft behind) := by rw [← same']
      _ = before ++ '=' :: after ++ trimLeft behind := by simp
  next => exact .inl same

theorem splitOnce_gap {gap : List Char} {mark : Char} (named : IsWord name)
    (marks : isMark mark = true) :
    splitOnce isMark (name ++ mark :: gap) = some (name, gap) :=
  splitOnce_eq_some.mpr ⟨mark, rfl, marks, (isWord_iff.mp named).2⟩

theorem isMark_of_isBlank {c : Char} (blank : isBlank c = true) : isMark c = true := by
  simp [isMark, blank]

/-- An accepted line is split into its name and its code. -/
theorem splitLine_of_accepts (accepts : Accepts line name code) :
    splitLine line = some (name, code) := by
  apply splitLine_eq_some.mpr
  rcases accepts with spells | doubles
  · cases spells with
    | @blanks _ gap _ named coded some gaps =>
        cases gap with
        | nil => exact absurd rfl some
        | cons first more =>
            obtain ⟨blank, others⟩ := List.forall_mem_cons.mp gaps
            refine ⟨more ++ code, ?_, behindMark_word coded others, named.1, coded⟩
            rw [List.append_assoc]
            exact splitOnce_gap named (isMark_of_isBlank blank)
    | @equals _ before after _ named coded gaps gaps' =>
        cases before with
        | nil =>
            refine ⟨after ++ code, ?_, behindMark_word coded gaps', named.1, coded⟩
            rw [List.append_nil, List.append_assoc]
            exact splitOnce_gap named rfl
        | cons first more =>
            obtain ⟨blank, others⟩ := List.forall_mem_cons.mp gaps
            refine ⟨more ++ '=' :: after ++ code, ?_, behindMark_equals coded others gaps', named.1,
              coded⟩
            simp only [List.append_assoc, List.cons_append]
            exact splitOnce_gap named (isMark_of_isBlank blank)
  · cases doubles with
    | @equals _ before after _ named coded gaps gaps' =>
        refine ⟨before ++ '=' :: after ++ code, ?_, behindMark_equals coded gaps gaps', named.1,
          coded⟩
        simp only [List.append_assoc, List.cons_append]
        exact splitOnce_gap named rfl

/-- A line that is split is accepted. -/
theorem accepts_of_splitLine (split : splitLine line = some (name, code)) :
    Accepts line name code := by
  obtain ⟨rest, found, rfl, some, coded⟩ := splitLine_eq_some.mp split
  obtain ⟨mark, rfl, marks, free⟩ := splitOnce_eq_some.mp found
  have named : IsWord name := isWord_iff.mpr ⟨some, free⟩
  obtain ⟨before, gaps, behind⟩ := exists_of_behindMark rest
  -- the name ends at a blank or at an equals sign, and an equals sign may follow before the code
  generalize behindMark rest = code at behind coded
  have ends : isBlank mark = true ∨ mark = '=' := by
    simpa [isMark] using marks
  rcases ends with blank | rfl
  · have gap : IsGap (mark :: before) := List.forall_mem_cons.mpr ⟨blank, gaps⟩
    rcases behind with rfl | ⟨after, gaps', rfl⟩
    · have spelled := Spells.blanks named coded (List.cons_ne_nil mark before) gap
      rw [List.append_assoc] at spelled
      exact .inl spelled
    · have spelled := Spells.equals named coded gap gaps'
      simp only [List.append_assoc, List.cons_append] at spelled ⊢
      exact .inl spelled
  · rcases behind with rfl | ⟨after, gaps', rfl⟩
    · have spelled := Spells.equals named coded (List.forall_mem_nil _) gaps
      rw [List.append_nil, List.append_assoc] at spelled
      exact .inl spelled
    · have doubled := Doubles.equals named coded gaps gaps'
      simp only [List.append_assoc, List.cons_append] at doubled ⊢
      exact .inr doubled

/-- **A line is split if and only if it is accepted.** -/
theorem splitLine_iff : splitLine line = some (name, code) ↔ Accepts line name code :=
  ⟨accepts_of_splitLine, splitLine_of_accepts⟩

/-! ## The rows of a text -/

/-- Whether a line gives a row, if lines of some form are accepted: without its comment and the
blanks at its ends it has this form, and its code is the numeral of a code. -/
def Gives (form : List Char → List Char → List Char → Prop) (line : List Char)
    (row : String × UInt16) : Prop :=
  ∃ name code, form (trim (dropComment line)) name code ∧ row.1 = String.ofList name ∧
    Denotes code row.2.toNat

/-- The rows that lines give, in their order. Lines that give none are left out. -/
inductive Lists (form : List Char → List Char → List Char → Prop) :
    List (List Char) → List (String × UInt16) → Prop
  | nil : Lists form [] []
  | row {line : List Char} {row : String × UInt16} {lines rows} (gives : Gives form line row)
    (rest : Lists form lines rows) : Lists form (line :: lines) (row :: rows)
  | skip {line : List Char} {lines rows} (none : ∀ row, ¬ Gives form line row)
    (rest : Lists form lines rows) : Lists form (line :: lines) rows

/-- The row that is read in a line. -/
def row? (line : List Char) : Option (String × UInt16) :=
  (splitLine (trim (dropComment line))).bind fun (name, code) =>
    (numeral (UInt16.size - 1) code).toOption.map fun n => (String.ofList name, .ofNat n)

/-- The numeral of a code is read if and only if it denotes one. -/
theorem code_eq_iff {code : List Char} {value : UInt16} :
    (∃ n, numeral (UInt16.size - 1) code = .ok n ∧ UInt16.ofNat n = value) ↔
      Denotes code value.toNat := by
  constructor
  · rintro ⟨n, read, rfl⟩
    obtain ⟨denotes, fits⟩ := numeral_eq_ok.mp read
    have small : n < UInt16.size := Nat.lt_of_le_pred (by decide) fits
    rwa [UInt16.toNat_ofNat_of_lt' small]
  · intro denotes
    refine ⟨value.toNat, numeral_eq_ok.mpr ⟨denotes, ?_⟩, UInt16.ofNat_toNat⟩
    exact Nat.le_pred_of_lt value.toNat_lt

/-- A line is a row if and only if it is accepted and gives this row. -/
theorem row?_eq_some {row : String × UInt16} : row? line = some row ↔ Gives Accepts line row := by
  obtain ⟨text, value⟩ := row
  simp only [row?, Gives, Option.bind_eq_some_iff, Option.map_eq_some_iff, Prod.exists,
    Prod.mk.injEq, splitLine_iff]
  constructor
  · rintro ⟨name, code, accepts, n, read, rfl, coded⟩
    exact ⟨name, code, accepts, rfl, code_eq_iff.mp ⟨n, Layout.eq_ok_of_toOption read, coded⟩⟩
  · rintro ⟨name, code, accepts, rfl, denotes⟩
    obtain ⟨n, read, coded⟩ := code_eq_iff.mpr denotes
    exact ⟨name, code, accepts, n, congrArg Except.toOption read, rfl, coded⟩

/-- The rows of lines are those that are read in them. -/
theorem lists_iff {lines : List (List Char)} :
    Lists Accepts lines rows ↔ rows = lines.filterMap row? := by
  constructor
  · intro lists
    induction lists with
    | nil => rfl
    | row gives _ ih => rw [List.filterMap_cons_some (row?_eq_some.mpr gives), ih]
    | skip none _ ih =>
        rw [List.filterMap_cons_none, ih]
        exact Option.eq_none_iff_forall_ne_some.mpr fun row read =>
          none row (row?_eq_some.mp read)
  · rintro rfl
    induction lines with
    | nil => exact .nil
    | cons line rest ih =>
        cases read : row? line with
        | none =>
            rw [List.filterMap_cons_none read]
            refine .skip (fun row gives => ?_) ih
            rw [row?_eq_some.mpr gives] at read
            cases read
        | some row =>
            rw [List.filterMap_cons_some read]
            exact .row (row?_eq_some.mp read) ih

/-- Where no line has a form, it does not matter whether lines of this form are accepted. -/
theorem Lists.of_or {form other : List Char → List Char → List Char → Prop}
    {lines : List (List Char)} (lists : Lists (fun line name code => form line name code ∨
      other line name code) lines rows)
    (absent : ∀ line ∈ lines, ∀ name code, ¬ other (trim (dropComment line)) name code) :
    Lists form lines rows := by
  induction lists with
  | nil => exact .nil
  | row gives _ ih =>
      obtain ⟨first, others⟩ := List.forall_mem_cons.mp absent
      obtain ⟨name, code, formed, rest⟩ := gives
      exact .row ⟨name, code, formed.resolve_right (first name code), rest⟩ (ih others)
  | skip none _ ih =>
      refine .skip (fun row gives => ?_) (ih (List.forall_mem_cons.mp absent).2)
      obtain ⟨name, code, formed, rest⟩ := gives
      exact none row ⟨name, code, .inl formed, rest⟩

/-! ## Reading a text -/

/-- A line inserts the row that is read in it. -/
theorem fst_addLine (origin : String) (state : OpcodeTable × Journal) (line : List Char)
    (number : Nat) : (addLine origin state (line, number)).1 =
      (row? line).elim state.1 fun row => state.1.insert row.1 row.2 := by
  obtain ⟨table, remarks⟩ := state
  unfold addLine row?
  dsimp only
  split
  next empty =>
    rw [List.isEmpty_iff.mp empty]
    rfl
  next =>
    cases splitLine (trim (dropComment line)) with
    | none => rfl
    | some parts =>
        obtain ⟨name, code⟩ := parts
        dsimp only [Option.bind_some]
        cases numeral (UInt16.size - 1) code <;> rfl

/-- The table that lines come to is that of their rows. -/
theorem fst_foldl_addLine (origin : String) (numbered : List (List Char × Nat))
    (state : OpcodeTable × Journal) : (numbered.foldl (addLine origin) state).1 =
      ((numbered.map Prod.fst).filterMap row?).foldl
        (fun table (name, code) => table.insert name code) state.1 := by
  induction numbered generalizing state with
  | nil => rfl
  | cons first rest ih =>
      obtain ⟨line, number⟩ := first
      rw [List.foldl_cons, ih, fst_addLine, List.map_cons]
      cases read : row? line with
      | none => rw [List.filterMap_cons_none read, Option.elim_none]
      | some row => rw [List.filterMap_cons_some read, List.foldl_cons, Option.elim_some]

/-- **A text comes to the table of its rows.** -/
theorem parse_eq_ofList (source origin : String) :
    (parse source origin).1 = ofList ((lines source.toList).filterMap row?) := by
  unfold parse
  rw [fst_foldl_addLine, List.zipIdx_map_fst]
  rfl

end Relay.OpcodeTable
