import Relay.Layout.Render
import Relay.Proofs.Layout.Printed

/-! # A tree rebuilt from its lines

A draft is seen on a level: with the open fields closed that lie below it
(`Relay.Layout.Draft.seen`). What is seen there after the lines of fields are taken in is what was
seen before, with these fields at the end of the innermost open field
(`Relay.Layout.Draft.puts_fields`). -/

namespace Relay.Layout

open Text

/-! ## The lines of fields -/

mutual

/-- The lines of one field. -/
def linesOf (depth : Nat) : Field → List (List Char)
  | .object name fields =>
    headText depth (.object name fields) :: allLinesOf (depth + 1) fields
  | .items name fields mixed =>
    headText depth (.items name fields mixed) :: allLinesOf (depth + 1) fields
  | field => [headText depth field]

/-- The lines of fields. -/
def allLinesOf (depth : Nat) : List Field → List (List Char)
  | [] => []
  | field :: rest => linesOf depth field ++ allLinesOf depth rest

end

mutual

/-- The names and the header keys in a field. -/
def namesOf : Field → List String
  | .object name fields => name :: allNames fields
  | .items name fields _ => name :: allNames fields
  | field => [field.name]

/-- The names and the header keys in fields. -/
def allNames : List Field → List String
  | [] => []
  | field :: rest => namesOf field ++ allNames rest

end

/-- The fields that a field has of its own. -/
def below : Field → List Field
  | .object _ fields => fields
  | .items _ fields _ => fields
  | _ => []

theorem linesOf_eq (depth : Nat) (field : Field) :
    linesOf depth field = headText depth field :: allLinesOf (depth + 1) (below field) := by
  cases field <;> rfl

theorem namesOf_eq (field : Field) : namesOf field = field.name :: allNames (below field) := by
  cases field <;> rfl

mutual

private theorem induction_field {motive : List Field → Prop} (nil : motive [])
    (cons : ∀ field rest, motive (below field) → motive rest → motive (field :: rest)) :
    ∀ field : Field, motive (below field)
  | .object _ fields => induction_fields nil cons fields
  | .items _ fields _ => induction_fields nil cons fields
  | .header .. => nil
  | .scalar .. => nil
  | .string _ => nil
  | .bytes _ => nil
  | .scalars .. => nil

/-- What holds of fields if it holds of those that each of them has of its own. -/
@[elab_as_elim]
theorem induction_fields {motive : List Field → Prop} (nil : motive [])
    (cons : ∀ field rest, motive (below field) → motive rest → motive (field :: rest)) :
    ∀ fields : List Field, motive fields
  | [] => nil
  | field :: rest =>
    cons field rest (induction_field nil cons field) (induction_fields nil cons rest)

end

/-- Whether the names and the header keys in fields are words. -/
def Worded (fields : List Field) : Prop :=
  ∀ name ∈ allNames fields, IsWord name.toList

instance (fields : List Field) : Decidable (Worded fields) :=
  inferInstanceAs (Decidable (∀ name ∈ allNames fields, IsWord name.toList))

theorem worded_nil : Worded [] :=
  List.forall_mem_nil _

/-- Fields are worded if the first one is named by a word, and so are those below it and the
others. -/
theorem worded_cons {field : Field} {rest : List Field} : Worded (field :: rest) ↔
    IsWord field.name.toList ∧ Worded (below field) ∧ Worded rest := by
  unfold Worded
  rw [allNames, namesOf_eq, List.forall_mem_append, List.forall_mem_cons, and_assoc]

theorem toList_line (depth : Nat) (type name : String) : (line depth type name).toList =
    (indentation depth).toList ++ spaced [type.toList, name.toList] ++ ['\n'] := by
  simp [line, spaced, String.toList_append]

/-- The line of an array has its mark between the type and the name. -/
theorem toList_line_marked (depth : Nat) (type name : String) (mixed : Bool) :
    (line depth (type ++ interleavedMark mixed) name).toList =
      (indentation depth).toList ++ spaced (type.toList :: (marks mixed ++ [name.toList])) ++
        ['\n'] := by
  rw [toList_line]
  cases mixed <;> simp [interleavedMark, marks, spaced, String.toList_append]

/-- A field is rendered as its head and what is rendered below it. -/
theorem toList_renderField (depth : Nat) (field : Field) : (renderField depth field).toList =
    headText depth field ++ ['\n'] ++ (renderFields (depth + 1) (below field)).toList := by
  cases field with
  | object => exact (String.toList_append ..).trans (congrArg (· ++ _) (toList_line ..))
  | items => exact (String.toList_append ..).trans (congrArg (· ++ _) (toList_line_marked ..))
  | scalars => exact (toList_line_marked ..).trans (List.append_nil _).symm
  | _ => exact (toList_line ..).trans (List.append_nil _).symm

/-- Fields are rendered as their lines. -/
theorem toList_renderFields (depth : Nat) (fields : List Field) :
    (renderFields depth fields).toList = (allLinesOf depth fields).flatMap (· ++ ['\n']) := by
  induction fields using induction_fields generalizing depth with
  | nil => rfl
  | cons field rest inside behind =>
      rw [renderFields, String.toList_append, toList_renderField, inside, behind, allLinesOf,
        linesOf_eq, List.flatMap_append, List.flatMap_cons]

/-- The head of a field is one line if it is named by a word. -/
theorem unbroken_headText {field : Field} (named : IsWord field.name.toList) (depth : Nat) :
    '\n' ∉ headText depth field ∧ '\r' ∉ headText depth field := by
  have tokens : ∀ token ∈ typeToken field :: nameTokens field, IsWord token :=
    List.forall_mem_cons.mpr ⟨(isTypeWord_typeToken field).1, isWord_nameTokens named⟩
  have plain : ∀ c ∈ headText depth field, c = '-' ∨ c = ' ' ∨ isBlank c = false := by
    intro c member
    rcases List.mem_append.mp member with lead | inside
    · exact (of_mem_indentation lead).imp_right .inl
    · exact .inr ((of_mem_spaced tokens c inside).imp_right And.left)
  exact ⟨fun member => absurd (plain _ member) (by decide),
    fun member => absurd (plain _ member) (by decide)⟩

/-- The lines of fields that are named by words have no ends within them. -/
theorem unbroken_allLinesOf {fields : List Field} (named : Worded fields) (depth : Nat) :
    ∀ text ∈ allLinesOf depth fields, '\n' ∉ text ∧ '\r' ∉ text := by
  induction fields using induction_fields generalizing depth with
  | nil => exact List.forall_mem_nil _
  | cons field rest inside behind =>
      obtain ⟨own, deeper, others⟩ := worded_cons.mp named
      rw [allLinesOf, linesOf_eq, List.forall_mem_append, List.forall_mem_cons]
      exact ⟨⟨unbroken_headText own depth, inside deeper _⟩, behind others _⟩

/-- The lines of a text are the lines of the fields that it shows. -/
theorem lines_render {layout : Layout} (named : Worded layout.fields) :
    lines (render layout).toList = allLinesOf 0 layout.fields := by
  rw [render, toList_renderFields, lines_flatMap (unbroken_allLinesOf named 0)]

/-! ## Drafts seen on a level -/

namespace Draft

variable {root : List Field} {opened : List OpenField} {kept outer : Nat} {draft : Draft}
  {fields more : List Field}

/-- Few open fields stay open. -/
theorem closeTo_of_le (few : opened.length ≤ kept) : closeTo kept root opened = (root, opened) := by
  cases opened with
  | nil => rw [closeTo.eq_def]
  | cons level rest => rw [closeTo.eq_def]; exact if_neg (Nat.not_lt.mpr few)

theorem closeTo_nil : closeTo kept root [] = (root, []) :=
  closeTo_of_le (Nat.zero_le kept)

/-- Closing a field makes it one of the fields of the next. -/
theorem closeTo_cons {level : OpenField} {rest : List OpenField} (many : kept ≤ rest.length) :
    closeTo kept root (level :: rest) =
      closeTo kept (addFields root rest [level.close]).1 (addFields root rest [level.close]).2 := by
  rw [closeTo.eq_def]
  cases rest with
  | nil => rw [addFields, closeTo_nil]; exact if_pos (Nat.lt_succ_of_le many)
  | cons parent others => exact if_pos (Nat.lt_succ_of_le many)

theorem length_addFields : (addFields root opened fields).2.length = opened.length := by
  cases opened <;> rfl

theorem addFields_nil : addFields root opened [] = (root, opened) := by
  cases opened with
  | nil => rw [addFields, List.append_nil]
  | cons => rw [addFields, List.append_nil]

theorem addFields_addFields : addFields (addFields root opened fields).1
    (addFields root opened fields).2 more = addFields root opened (fields ++ more) := by
  cases opened with
  | nil => simp [addFields]
  | cons => simp [addFields]

/-- So many open fields are left as are kept, or all of them. -/
theorem length_closeTo : (closeTo kept root opened).2.length = min kept opened.length := by
  induction opened using closeTo.induct kept with
  | case1 => rw [closeTo_nil]; exact (Nat.min_zero kept).symm
  | case2 level many =>
      have none : kept = 0 := Nat.lt_one_iff.mp many
      rw [closeTo_cons (Nat.le_of_lt_succ many), addFields, closeTo_nil, none, Nat.zero_min]
      rfl
  | case3 level parent others many ih =>
      rw [closeTo_cons (Nat.le_of_lt_succ many), addFields, ih]
      simp only [List.length_cons] at many ⊢
      omega
  | case4 level rest few =>
      rw [closeTo_of_le (Nat.le_of_not_lt few)]
      exact (Nat.min_eq_right (Nat.le_of_not_lt few)).symm

/-- What is closed in two steps is closed in one. -/
theorem closeTo_closeTo (less : kept ≤ outer) :
    closeTo kept (closeTo outer root opened).1 (closeTo outer root opened).2 =
      closeTo kept root opened := by
  induction opened using closeTo.induct outer with
  | case1 => rw [closeTo_nil, closeTo_nil]
  | case2 level many =>
      rw [closeTo_cons (Nat.le_of_lt_succ many),
        closeTo_cons (less.trans (Nat.le_of_lt_succ many)), addFields, closeTo_nil, closeTo_nil]
  | case3 level parent others many ih =>
      rw [closeTo_cons (Nat.le_of_lt_succ many),
        closeTo_cons (less.trans (Nat.le_of_lt_succ many)), addFields, ih]
  | case4 level rest few =>
      have unchanged : closeTo outer root (level :: rest) = (root, level :: rest) :=
        closeTo_of_le (Nat.le_of_not_lt few)
      rw [unchanged]

/-- The fields of a draft with the open fields below a level closed. -/
def seen (depth : Nat) (draft : Draft) : List Field × List OpenField :=
  closeTo depth draft.root draft.opened

/-- Whether a line on a level is put there. Then the last line opened a field, or did not. -/
structure Ready (depth : Nat) (draft : Draft) : Prop where
  reached : depth ≤ draft.opened.length
  last : draft.opened.length = draft.depth ∨ draft.opened.length = draft.depth + 1

/-- Whether fields were put on a level, and no line was left out. -/
structure Puts (depth : Nat) (fields : List Field) (before after : Draft) : Prop where
  ready : Ready depth after
  errors : after.errors = before.errors
  placed : after.seen depth = addFields (before.seen depth).1 (before.seen depth).2 fields

theorem Puts.nil {depth : Nat} (ready : Ready depth draft) : Puts depth [] draft draft where
  ready := ready
  errors := rfl
  placed := addFields_nil.symm

/-- What is put on a level and then more are all that is put on it. -/
theorem Puts.append {depth : Nat} {before between after : Draft}
    (first : Puts depth fields before between) (second : Puts depth more between after) :
    Puts depth (fields ++ more) before after where
  ready := second.ready
  errors := second.errors.trans first.errors
  placed := by rw [second.placed, first.placed, addFields_addFields]

/-- What a draft becomes by lines of text that follow `number - 1` others. -/
def takes (origin : String) (number : Nat) (texts : List (List Char)) (draft : Draft) : Draft :=
  (texts.zipIdx number).foldl (addRaw origin) draft

/-- The lines of two texts are taken one after the other. -/
theorem takes_append (origin : String) (number : Nat) (front back : List (List Char)) :
    takes origin number (front ++ back) draft =
      takes origin (number + front.length) back (takes origin number front draft) := by
  rw [takes, List.zipIdx_append, List.foldl_append]
  rfl

/-! ## What lines put into a draft -/

variable {depth : Nat} {name : String} {before after : Draft} (origin : String) (number : Nat)

theorem length_seen (ready : Ready depth draft) : (draft.seen depth).2.length = depth := by
  rw [seen, length_closeTo, Nat.min_eq_left ready.reached]

/-- To note a header puts nothing. -/
theorem puts_noteHeader (ready : Ready depth draft) (line : Line) :
    Puts depth [] draft (draft.noteHeader origin number line) := by
  rw [noteHeader]
  split
  next => exact ⟨⟨ready.reached, ready.last⟩, rfl, addFields_nil.symm⟩
  next => exact .nil ready

/-- Fields that are placed on a level are put there. -/
theorem puts_place (name : String) (ready : Ready depth draft) :
    Puts depth fields draft (draft.place depth name (.fields fields)) := by
  have length : (addFields (draft.seen depth).1 (draft.seen depth).2 fields).2.length = depth :=
    length_addFields.trans (length_seen ready)
  exact ⟨⟨length.ge, .inl length⟩, rfl, closeTo_of_le length.le⟩

/-- The lines below a line that opens a field make up the field. -/
theorem puts_opening (opening : Opening) (ready : Ready depth before)
    (inside : Puts (depth + 1) fields (before.place depth name (.opening opening)) after) :
    Puts depth [OpenField.close ⟨opening, name, fields⟩] before after where
  ready := ⟨(Nat.le_succ depth).trans inside.ready.reached, inside.ready.last⟩
  errors := inside.errors
  placed := by
    have length : (before.seen depth).2.length = depth := length_seen ready
    have innermost : (before.place depth name (.opening opening)).seen (depth + 1) =
        ((before.seen depth).1, ⟨opening, name, []⟩ :: (before.seen depth).2) :=
      closeTo_of_le (Nat.succ_le_succ length.le)
    have twice : after.seen depth =
        closeTo depth (after.seen (depth + 1)).1 (after.seen (depth + 1)).2 :=
      (closeTo_closeTo (Nat.le_succ depth)).symm
    rw [twice, inside.placed, innermost, addFields, closeTo_cons length.ge, List.nil_append]
    exact closeTo_of_le (length_addFields.trans length).le

/-- A line is put on the level that it was written for. -/
theorem add_headLine (ready : Ready depth draft) (field : Field) :
    draft.add origin number (headLine depth field) =
      draft.place depth field.name (headMeaning field) := by
  rw [add, meaning_headLine, depth_headLine, name_headLine, String.ofList_toList]
  simp only
  split
  next below =>
    have reached : draft.depth + 1 = depth := by
      have := ready.reached
      have := ready.last
      omega
    have opens : draft.opened.length ≠ draft.depth := by
      have := ready.reached
      omega
    rw [if_neg opens, reached, if_neg (by simp)]
  next => rfl

/-- A line stands for its field, or for what opens the field. -/
theorem headMeaning_eq (field : Field) :
    headMeaning field = .fields [field] ∧ below field = [] ∨
      ∃ opening, headMeaning field = .opening opening ∧
        OpenField.close ⟨opening, field.name, below field⟩ = field := by
  cases field with
  | object => exact .inr ⟨.object, rfl, rfl⟩
  | items _ _ mixed => exact .inr ⟨.array mixed, rfl, rfl⟩
  | _ => exact .inl ⟨rfl, rfl⟩

/-- **The lines of a field put it on its level**, if those of the fields below it put them one level
deeper. -/
theorem puts_field {field : Field} (named : IsWord field.name.toList) (ready : Ready depth draft)
    (inside : ∀ {opened : Draft}, Ready (depth + 1) opened → Puts (depth + 1) (below field) opened
      (takes origin (number + 1) (allLinesOf (depth + 1) (below field)) opened)) :
    Puts depth [field] draft (takes origin number (linesOf depth field) draft) := by
  have noted := puts_noteHeader origin number ready (headLine depth field)
  have added : takes origin number (linesOf depth field) draft =
      takes origin (number + 1) (allLinesOf (depth + 1) (below field))
        ((draft.noteHeader origin number (headLine depth field)).place depth field.name
          (headMeaning field)) := by
    rw [← add_headLine origin number noted.ready, linesOf_eq, takes,
      List.zipIdx_cons, List.foldl_cons, addRaw, read_headText depth named]
    rfl
  rw [added]
  refine noted.append ?_
  rcases headMeaning_eq field with ⟨plain, alone⟩ | ⟨opening, opens, whole⟩
  · rw [plain, alone]
    exact puts_place field.name noted.ready
  · rw [opens]
    have length := length_seen noted.ready
    have innermost : Ready (depth + 1) ((draft.noteHeader origin number
        (headLine depth field)).place depth field.name (.opening opening)) :=
      ⟨(congrArg Nat.succ length).ge, .inr (congrArg Nat.succ length)⟩
    have made := puts_opening opening noted.ready (inside innermost)
    rwa [whole] at made

/-- **Lines put their fields into a draft**, at the level that they were written for. -/
theorem puts_fields (named : Worded fields) (ready : Ready depth draft) :
    Puts depth fields draft (takes origin number (allLinesOf depth fields) draft) := by
  induction fields using induction_fields generalizing depth draft number with
  | nil => exact .nil ready
  | cons field rest inside behind =>
      obtain ⟨own, deeper, others⟩ := worded_cons.mp named
      have first : Puts depth [field] draft (takes origin number (linesOf depth field) draft) :=
        puts_field origin number own ready (inside _ deeper)
      rw [allLinesOf, takes_append]
      exact first.append (behind _ others first.ready)

/-- The lines of fields make up the fields, and none is left out. -/
theorem finish_takes (named : Worded fields) :
    (takes origin 1 (allLinesOf 0 fields) start).finish = fields ∧
      (takes origin 1 (allLinesOf 0 fields) start).errors = #[] := by
  have made := puts_fields origin 1 named
    (⟨Nat.zero_le _, .inl rfl⟩ : Ready 0 start)
  refine ⟨?_, made.errors⟩
  have fresh : start.seen 0 = ([], []) := closeTo_nil
  have placed := made.placed
  rw [fresh, addFields, List.nil_append] at placed
  exact congrArg Prod.fst placed

end Draft

end Relay.Layout
