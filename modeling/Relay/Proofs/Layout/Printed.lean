import Mathlib.Data.List.TakeWhile
import Relay.Layout.Parse

/-! # The lines of a layout's text

Every field of a layout has a line of its own in the text (`Relay.Layout.headText`), in front of the
lines of the fields that it has. If its name is a word, the line is read back as its depth, type and
name (`Relay.Layout.read_headText`), which stand for the field or, if it has fields of its own, for
what opens it (`Relay.Layout.meaning_headLine`). -/

namespace Relay.Layout

open Text

/-- A word that can stand in a line: not empty, without blanks, and nothing of it is a comment. -/
def IsWord (word : List Char) : Prop :=
  word ≠ [] ∧ ∀ c ∈ word, isBlank c = false ∧ c ≠ '#'

instance (word : List Char) : Decidable (IsWord word) :=
  -- the characters of the word are to be checked, and not all that there are
  @instDecidableAnd _ _ inferInstance (List.decidableBAll _ word)

/-- A word that cannot be taken for dashes, as the types of fields are. -/
def IsTypeWord (word : List Char) : Prop :=
  IsWord word ∧ word.head? ≠ some '-'

instance (word : List Char) : Decidable (IsTypeWord word) :=
  inferInstanceAs (Decidable (_ ∧ _))

/-! ## Lines of words -/

/-- Words with a blank between neighbours. -/
def spaced : List (List Char) → List Char
  | [] => []
  | [word] => word
  | word :: rest => word ++ ' ' :: spaced rest

variable {tokens : List (List Char)}

/-- Words with blanks between them are read as these words. -/
theorem words_spaced (named : ∀ token ∈ tokens, IsWord token) : words (spaced tokens) = tokens := by
  induction tokens with
  | nil => rfl
  | cons token rest ih =>
      obtain ⟨⟨nonempty, plain⟩, others⟩ := List.forall_mem_cons.mp named
      cases rest with
      | nil => exact words_word nonempty fun c member => (plain c member).1
      | cons next more =>
          rw [spaced, words_append nonempty (fun c member => (plain c member).1) (by decide),
            ih others]
          exact List.cons_ne_nil _ _

/-- Between words there is nothing but blanks, and in them no comment. -/
theorem of_mem_spaced (named : ∀ token ∈ tokens, IsWord token) :
    ∀ c ∈ spaced tokens, c = ' ' ∨ isBlank c = false ∧ c ≠ '#' := by
  induction tokens with
  | nil => exact List.forall_mem_nil _
  | cons token rest ih =>
      obtain ⟨⟨_, plain⟩, others⟩ := List.forall_mem_cons.mp named
      cases rest with
      | nil => exact fun c member => .inr (plain c member)
      | cons next more =>
          intro c member
          rw [spaced, List.mem_append, List.mem_cons] at member
          · rcases member with own | rfl | later
            · exact .inr (plain c own)
            · exact .inl rfl
            · exact ih others c later
          · exact List.cons_ne_nil _ _

/-- A line of words begins with what is not in front of a line. -/
theorem head_spaced {first : List Char} (type : IsTypeWord first) (rest : List (List Char)) :
    ∃ c behind, spaced (first :: rest) = c :: behind ∧ isBlank c = false ∧
      Line.isLead c = false := by
  obtain ⟨⟨nonempty, plain⟩, undashed⟩ := type
  obtain ⟨c, letters, rfl⟩ := List.exists_cons_of_ne_nil nonempty
  have letter : isBlank c = false := (plain c List.mem_cons_self).1
  have differs : c ≠ '-' := fun dash => undashed (congrArg some dash)
  have unlead : Line.isLead c = false := by simp [Line.isLead, letter, differs]
  cases rest with
  | nil => exact ⟨c, letters, rfl, letter, unlead⟩
  | cons next more => exact ⟨c, _, rfl, letter, unlead⟩

/-- A line of words ends with a character that is not blank. -/
theorem last_spaced (named : ∀ token ∈ tokens, IsWord token) (nonempty : tokens ≠ []) :
    ∃ front last, spaced tokens = front ++ [last] ∧ isBlank last = false := by
  induction tokens with
  | nil => exact absurd rfl nonempty
  | cons token rest ih =>
      obtain ⟨⟨filled, plain⟩, others⟩ := List.forall_mem_cons.mp named
      cases rest with
      | nil =>
          exact ⟨token.dropLast, token.getLast filled, (List.dropLast_concat_getLast filled).symm,
            (plain _ (List.getLast_mem filled)).1⟩
      | cons next more =>
          obtain ⟨front, last, same, solid⟩ := ih others (List.cons_ne_nil _ _)
          have whole : spaced (token :: next :: more) = token ++ ' ' :: spaced (next :: more) :=
            rfl
          refine ⟨token ++ ' ' :: front, last, ?_, solid⟩
          rw [whole, same, List.append_assoc, List.cons_append]

/-- The characters of the dashes in front of a line. -/
theorem toList_indentation (depth : Nat) : (indentation depth).toList =
    if depth = 0 then [] else List.replicate depth '-' ++ [' '] := by
  rw [indentation]
  split
  next => rfl
  next => rw [String.toList_append, String.toList_ofList]; rfl

/-- There is nothing but dashes and blanks in an indentation. -/
theorem of_mem_indentation {depth : Nat} {c : Char} (member : c ∈ (indentation depth).toList) :
    c = '-' ∨ c = ' ' := by
  rw [toList_indentation] at member
  split at member
  next => cases member
  next =>
    rcases List.mem_append.mp member with dash | blank
    · exact .inl (List.eq_of_mem_replicate dash)
    · exact .inr (List.mem_singleton.mp blank)

/-- An indentation has a dash for each level. -/
theorem count_indentation (depth : Nat) : (indentation depth).toList.count '-' = depth := by
  rw [toList_indentation]
  split
  next zero => exact zero.symm
  next => simp [List.count_append]

/-- The dashes of a line and the blank behind them are told from its words. -/
theorem splits_lead (depth : Nat) {c : Char} (unlead : Line.isLead c = false)
    (behind : List Char) :
    ((indentation depth).toList ++ c :: behind).takeWhile Line.isLead =
        (indentation depth).toList ∧
      ((indentation depth).toList ++ c :: behind).dropWhile Line.isLead = c :: behind := by
  have leads : ∀ d ∈ (indentation depth).toList, Line.isLead d = true := by
    intro d member
    rcases of_mem_indentation member with rfl | rfl <;> decide
  constructor
  · rw [List.takeWhile_append_of_pos leads, List.takeWhile_cons_of_neg (by simp [unlead]),
      List.append_nil]
  · rw [List.dropWhile_append_of_pos leads, List.dropWhile_cons_of_neg (by simp [unlead])]

/-- An indented word does not begin with a blank. -/
theorem begins_indented (depth : Nat) {c : Char} (letter : isBlank c = false)
    (behind : List Char) : ∃ first rest,
      (indentation depth).toList ++ c :: behind = first :: rest ∧ isBlank first = false := by
  rw [toList_indentation]
  split
  next => exact ⟨c, behind, rfl, letter⟩
  next deep =>
    obtain ⟨less, rfl⟩ := Nat.exists_eq_succ_of_ne_zero deep
    exact ⟨'-', _, rfl, by decide⟩

/-- A line of words that begins with a type is read as the parts that its words tell. -/
theorem read_spaced {depth : Nat} {first : List Char} {rest : List (List Char)} {line : Line}
    (type : IsTypeWord first) (others : ∀ token ∈ rest, IsWord token)
    (parts : Line.ofTokens depth (first :: rest) = some line) :
    Line.read ((indentation depth).toList ++ spaced (first :: rest)) = some (.ok line) := by
  have named : ∀ token ∈ first :: rest, IsWord token := List.forall_mem_cons.mpr ⟨type.1, others⟩
  obtain ⟨c, behind, begins, letter, unlead⟩ := head_spaced type rest
  obtain ⟨front, last, ends, solid⟩ := last_spaced named (List.cons_ne_nil _ _)
  obtain ⟨d, indented, starts, plain⟩ := begins_indented depth letter behind
  obtain ⟨taken, dropped⟩ := splits_lead depth unlead behind
  have commentless : dropComment ((indentation depth).toList ++ spaced (first :: rest)) =
      (indentation depth).toList ++ spaced (first :: rest) := by
    refine List.takeWhile_eq_self_iff.mpr fun d member => ?_
    rcases List.mem_append.mp member with lead | inside
    · rcases of_mem_indentation lead with rfl | rfl <;> decide
    · rcases of_mem_spaced named d inside with rfl | ⟨_, kept⟩
      · decide
      · simpa using kept
  have trimmed : trim ((indentation depth).toList ++ spaced (first :: rest)) =
      (indentation depth).toList ++ spaced (first :: rest) := by
    have startsWith : (indentation depth).toList ++ spaced (first :: rest) = d :: indented := by
      rw [begins, starts]
    have endsWith : (indentation depth).toList ++ spaced (first :: rest) =
        ((indentation depth).toList ++ front) ++ [last] := by
      rw [ends, List.append_assoc]
    exact trim_eq_self startsWith endsWith plain solid
  have filled : ((indentation depth).toList ++ spaced (first :: rest)).isEmpty = false := by
    rw [begins]
    simp
  rw [← begins] at taken dropped
  rw [Line.read, commentless, trimmed, taken, dropped, count_indentation, words_spaced named]
  simp only [filled, parts]
  rfl

/-! ## The line of a field -/

/-- The mark of an interleaved array, as the words that it is. -/
def marks (mixed : Bool) : List (List Char) :=
  if mixed then ["[interleaved]".toList] else []

/-- The word for the type of a field. -/
def typeToken : Field → List Char
  | .header kind _ => kind.name.toList
  | .scalar _ type => type.name.toList
  | .string _ => "string".toList
  | .bytes _ => "bytes".toList
  | .object _ _ => "object".toList
  | .scalars _ type _ => ("array<" ++ type.name ++ ">").toList
  | .items _ _ _ => "array".toList

/-- The name of a field, with the mark of an interleaved array in front of it. -/
def nameTokens : Field → List (List Char)
  | .scalars name _ mixed => marks mixed ++ [name.toList]
  | .items name _ mixed => marks mixed ++ [name.toList]
  | field => [field.name.toList]

/-- The line that a field begins with. -/
def headText (depth : Nat) (field : Field) : List Char :=
  (indentation depth).toList ++ spaced (typeToken field :: nameTokens field)

/-- The parts of the line that a field begins with. -/
def headLine (depth : Nat) : Field → Line
  | .header kind key => ⟨depth, kind.name.toList, none, [], key.toList⟩
  | .scalar name type => ⟨depth, type.name.toList, none, [], name.toList⟩
  | .string name => ⟨depth, "string".toList, none, [], name.toList⟩
  | .bytes name => ⟨depth, "bytes".toList, none, [], name.toList⟩
  | .object name _ => ⟨depth, "object".toList, none, [], name.toList⟩
  | .scalars name type mixed => ⟨depth, "array".toList, some type.name.toList,
      if mixed then ["interleaved".toList] else [], name.toList⟩
  | .items name _ mixed =>
    ⟨depth, "array".toList, none, if mixed then ["interleaved".toList] else [], name.toList⟩

/-- What the line stands for that a field begins with. -/
def headMeaning : Field → Meaning
  | .object _ _ => .opening .object
  | .items _ _ mixed => .opening (.array mixed)
  | field => .fields [field]

theorem depth_headLine (depth : Nat) (field : Field) : (headLine depth field).depth = depth := by
  cases field <;> rfl

theorem name_headLine (depth : Nat) (field : Field) :
    (headLine depth field).name = field.name.toList := by
  cases field <;> rfl

theorem isTypeWord_kind (kind : HeaderKind) : IsTypeWord kind.name.toList := by
  cases kind <;> decide

theorem isTypeWord_scalar (type : Scalar) :
    IsTypeWord type.name.toList ∧ IsTypeWord ("array<" ++ type.name ++ ">").toList := by
  cases type <;> decide

/-- The type of a field is no dash. -/
theorem isTypeWord_typeToken (field : Field) : IsTypeWord (typeToken field) := by
  cases field with
  | header kind => exact isTypeWord_kind kind
  | scalar _ type => exact (isTypeWord_scalar type).1
  | string => exact (by decide : IsTypeWord "string".toList)
  | bytes => exact (by decide : IsTypeWord "bytes".toList)
  | object => exact (by decide : IsTypeWord "object".toList)
  | scalars _ type => exact (isTypeWord_scalar type).2
  | items => exact (by decide : IsTypeWord "array".toList)

/-- The name of a field is one word, or the second of two. -/
theorem isWord_nameTokens {field : Field} (named : IsWord field.name.toList) :
    ∀ token ∈ nameTokens field, IsWord token := by
  have marked (mixed : Bool) : ∀ token ∈ marks mixed ++ [field.name.toList], IsWord token := by
    rw [List.forall_mem_append]
    refine ⟨?_, List.forall_mem_singleton.mpr named⟩
    cases mixed <;> decide
  cases field with
  | scalars _ _ mixed => exact marked mixed
  | items _ _ mixed => exact marked mixed
  | _ => exact List.forall_mem_singleton.mpr named

/-- The parts of a line are told by its words. -/
theorem ofTokens_headTokens (depth : Nat) (field : Field) :
    Line.ofTokens depth (typeToken field :: nameTokens field) = some (headLine depth field) := by
  cases field with
  | header kind => cases kind <;> rfl
  | scalar _ type => cases type <;> rfl
  | scalars _ type mixed => cases mixed <;> cases type <;> rfl
  | items _ _ mixed => cases mixed <;> rfl
  | _ => rfl

/-- **The line of a field is read back.** -/
theorem read_headText (depth : Nat) {field : Field} (named : IsWord field.name.toList) :
    Line.read (headText depth field) = some (.ok (headLine depth field)) :=
  read_spaced (isTypeWord_typeToken field) (isWord_nameTokens named)
    (ofTokens_headTokens depth field)

/-- The line of a field means the field. -/
theorem meaning_headLine (depth : Nat) (field : Field) :
    (headLine depth field).meaning = .ok (headMeaning field) := by
  cases field with
  | header kind =>
      simp only [Line.meaning, headLine, String.ofList_toList]
      cases kind <;> rfl
  | scalar _ type =>
      simp only [Line.meaning, headLine, String.ofList_toList]
      cases type <;> rfl
  | scalars _ type mixed =>
      simp only [Line.meaning, headLine, String.ofList_toList]
      cases mixed <;> cases type <;> rfl
  | items _ _ mixed =>
      simp only [Line.meaning, headLine, String.ofList_toList]
      cases mixed <;> rfl
  | _ =>
      simp only [Line.meaning, headLine, String.ofList_toList]
      rfl

end Relay.Layout
