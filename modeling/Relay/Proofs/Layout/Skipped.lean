import Relay.Proofs.Layout.Outline

/-! # Lines that are left out

A line at fault is left out without trace: the text without the lines that were reported is read
without fault, and as the same layout (`Relay.Layout.parse_withoutReported`). A line that is left
out changes nothing of a draft but what is reported and remarked
(`Relay.Layout.Draft.addRaw_alike`), so the lines behind it take the places that they would have
without it, and only a line that is not left out can keep headers from being implied
(`Relay.Layout.anyHeader_treeOf`). -/

namespace Relay

namespace Text

variable {line : List Char}

/-- A text without the lines of some numbers, where its first line has the number `number`. With a
line goes its line feed. -/
def withoutLines (gone : List Nat) : Nat → List Char → List Char
  | _, [] => []
  | number, c :: rest =>
    let others := withoutLines gone (if c = '\n' then number + 1 else number) rest
    if gone.contains number then others else c :: others

/-- The last line is left out or stays. -/
theorem withoutLines_last (gone : List Nat) (number : Nat) (whole : '\n' ∉ line) :
    withoutLines gone number line = if gone.contains number then [] else line := by
  induction line with
  | nil => exact (ite_self _).symm
  | cons c rest ih =>
      rw [List.mem_cons, not_or] at whole
      rw [withoutLines, if_neg (Ne.symm whole.1), ih whole.2]
      split <;> rfl

/-- The first line is left out with its line feed or stays with it, and so are the others. -/
theorem withoutLines_append (gone : List Nat) (number : Nat) (whole : '\n' ∉ line)
    (rest : List Char) : withoutLines gone number (line ++ '\n' :: rest) =
      (if gone.contains number then [] else line ++ ['\n']) ++
        withoutLines gone (number + 1) rest := by
  induction line with
  | nil =>
      rw [List.nil_append, withoutLines, if_pos rfl]
      split <;> rfl
  | cons c others ih =>
      rw [List.mem_cons, not_or] at whole
      rw [List.cons_append, withoutLines, if_neg (Ne.symm whole.1), ih whole.2]
      split <;> rfl

/-- The lines that are left are those of other numbers, in their order. -/
theorem lines_withoutLines (gone : List Nat) (number : Nat) (text : List Char) :
    lines (withoutLines gone number text) =
      (((lines text).zipIdx number).filter fun entry => !gone.contains entry.2).map Prod.fst := by
  induction text using induction_lines generalizing number with
  | last line whole =>
      rw [withoutLines_last gone number whole, lines_last whole]
      by_cases listed : number ∈ gone
      · cases line <;> simp [lines_last, listed]
      · cases line <;> simp [lines_last whole, listed]
  | append line rest whole ih =>
      rw [withoutLines_append gone number whole, lines_append whole, List.zipIdx_cons,
        List.filter_cons]
      by_cases listed : number ∈ gone
      · simpa [listed] using ih (number + 1)
      · simpa [listed, lines_append whole] using ih (number + 1)

end Text

namespace Layout

open Text

namespace Draft

variable {draft other third : Draft}

/-! ## One line -/

/-- Drafts that differ at most in what was reported and remarked. -/
structure Alike (draft other : Draft) : Prop where
  root : other.root = draft.root
  opened : other.opened = draft.opened
  depth : other.depth = draft.depth

namespace Alike

theorem refl (draft : Draft) : draft.Alike draft :=
  ⟨rfl, rfl, rfl⟩

theorem symm (alike : draft.Alike other) : other.Alike draft :=
  ⟨alike.root.symm, alike.opened.symm, alike.depth.symm⟩

theorem trans (first : draft.Alike other) (second : other.Alike third) : draft.Alike third :=
  ⟨second.root.trans first.root, second.opened.trans first.opened,
    second.depth.trans first.depth⟩

/-- To place a field keeps drafts alike. -/
theorem place (alike : draft.Alike other) (depth : Nat) (name : String) (meaning : Meaning) :
    (draft.place depth name meaning).Alike (other.place depth name meaning) := by
  unfold Draft.place
  rw [alike.root, alike.opened]
  cases meaning with
  | opening => exact ⟨rfl, rfl, rfl⟩
  | fields => exact ⟨rfl, rfl, rfl⟩

/-- A header that is noted leaves a draft alike. -/
theorem noteHeader (draft : Draft) (origin : String) (number : Nat) (line : Line) :
    draft.Alike (draft.noteHeader origin number line) := by
  rw [Draft.noteHeader]
  split <;> exact ⟨rfl, rfl, rfl⟩

theorem finish (alike : draft.Alike other) : other.finish = draft.finish := by
  rw [Draft.finish, Draft.finish, alike.root, alike.opened]

end Alike

/-- What a line does to a draft and to another that is like it: it is left out and changes nothing
but what is reported and remarked, or both take it in, without a fault. -/
inductive Turns (origin : String) (number : Nat) (draft after other later : Draft) : Prop
  | skipped {fault : LineFault} (errors : after.errors = draft.errors.push ⟨origin, number, fault⟩)
      (same : draft.Alike after)
  | taken (errors : after.errors = draft.errors) (sound : later.errors = other.errors)
      (alike : after.Alike later)

/-- **A line turns drafts that are alike into drafts that are alike**, or is left out. -/
theorem turns_add (alike : draft.Alike other) (origin : String) (number again : Nat)
    (line : Line) :
    Turns origin number draft (draft.add origin number line) other
      (other.add origin again line) := by
  obtain ⟨_, _, _, _, _, _⟩ := draft
  obtain ⟨_, opened, depth, _, _, _⟩ := other
  obtain ⟨rfl, rfl, rfl⟩ := alike
  rw [add, add]
  cases line.meaning with
  | error fault => exact .skipped rfl ⟨rfl, rfl, rfl⟩
  | ok meaning =>
      by_cases deeper : depth < line.depth
      · simp only [if_pos deeper]
        by_cases closed : opened.length = depth
        · rw [if_pos closed]
          exact .skipped rfl ⟨rfl, rfl, rfl⟩
        · rw [if_neg closed, if_neg closed]
          refine .taken (place_errors ..) (place_errors ..) (Alike.place ?_ _ _ _)
          exact ⟨rfl, rfl, rfl⟩
      · simp only [if_neg deeper]
        refine .taken (place_errors ..) (place_errors ..) (Alike.place ?_ _ _ _)
        exact ⟨rfl, rfl, rfl⟩

/-- **A line that is left out leaves no trace**, whatever its number, and one that is taken in does
the same to drafts that are alike. -/
theorem addRaw_alike (alike : draft.Alike other) (origin : String) (raw : List Char)
    (number again : Nat) :
    Turns origin number draft (draft.addRaw origin (raw, number)) other
      (other.addRaw origin (raw, again)) := by
  rw [addRaw, addRaw]
  cases Line.read raw with
  | none => exact .taken rfl rfl alike
  | some result =>
      cases result with
      | error fault => exact .skipped rfl ⟨rfl, rfl, rfl⟩
      | ok line =>
          have noted := Alike.noteHeader draft origin number line
          have anew := Alike.noteHeader other origin again line
          cases turns_add (noted.symm.trans (alike.trans anew)) origin number again line with
          | skipped errors same =>
              rw [noteHeader_errors] at errors
              exact .skipped errors (noted.trans same)
          | taken errors sound alike =>
              rw [noteHeader_errors] at errors sound
              exact .taken errors sound alike

/-! ## All lines -/

/-- Whether lines led from a draft to another with some faults, and the same lines without those at
fault lead to a draft that is like it, whatever their numbers, without a fault. -/
structure Retraced (origin : String) (texts : List (List Char × Nat)) (draft after : Draft)
    (faults : List LineError) : Prop where
  errors : after.errors.toList = draft.errors.toList ++ faults
  lines : ∀ fault ∈ faults, fault.line ∈ texts.map Prod.snd
  again : ∀ {other : Draft} {others : List (List Char × Nat)}, draft.Alike other →
    others.map Prod.fst = (unreported faults texts).map Prod.fst →
    after.Alike (others.foldl (addRaw origin) other) ∧
      (others.foldl (addRaw origin) other).errors = other.errors

/-- **Lines that are left out leave no trace.** -/
theorem exists_retraced (origin : String) {texts : List (List Char × Nat)}
    (distinct : (texts.map Prod.snd).Nodup) (draft : Draft) :
    ∃ faults, Retraced origin texts draft (texts.foldl (addRaw origin) draft) faults := by
  induction texts generalizing draft with
  | nil =>
      refine ⟨[], (List.append_nil _).symm, List.forall_mem_nil _, fun alike none => ?_⟩
      rw [List.map_eq_nil_iff.mp none]
      exact ⟨alike, rfl⟩
  | cons text rest ih =>
      obtain ⟨raw, number⟩ := text
      obtain ⟨fresh, apart⟩ := List.nodup_cons.mp distinct
      obtain ⟨faults, errors, lines, again⟩ := ih apart (draft.addRaw origin (raw, number))
      have behind : ∀ fault ∈ faults, fault.line ∈ ((raw, number) :: rest).map Prod.snd :=
        fun fault member => .tail _ (lines fault member)
      rw [List.foldl_cons]
      cases addRaw_alike (.refl draft) origin raw number number with
      | @skipped fault reported same =>
          refine ⟨⟨origin, number, fault⟩ :: faults, ?_, ?_, fun alike equal => again ?_ ?_⟩
          · rw [errors, reported, Array.toList_push, List.append_assoc]
            rfl
          · exact List.forall_mem_cons.mpr ⟨List.mem_cons_self, behind⟩
          · exact same.symm.trans alike
          · rwa [unreported, List.filter_cons_of_neg (by simp), ← unreported,
              unreported_cons fresh] at equal
      | taken unchanged _ _ =>
          refine ⟨faults, errors.trans (by rw [unchanged]), behind, fun alike equal => ?_⟩
          have kept : number ∉ faults.map LineError.line := by
            intro member
            obtain ⟨fault, listed, same⟩ := List.mem_map.mp member
            exact fresh (same ▸ lines fault listed)
          rw [unreported, List.filter_cons_of_pos (by simpa using kept), ← unreported,
            List.map_cons] at equal
          obtain ⟨⟨raw, position⟩, later, rfl, rfl, remaining⟩ := List.map_eq_cons_iff.mp equal
          cases addRaw_alike alike origin raw number position with
          | skipped reported _ =>
              rw [unchanged] at reported
              exact absurd (congrArg Array.size reported) (by simp)
          | taken _ sound alike =>
              obtain ⟨last, none⟩ := again alike remaining
              exact ⟨last, none.trans sound⟩

end Draft

/-! ## Headers that are written out -/

/-- A header is written out just if the outline of the fields has one. -/
theorem anyHeader_eq_outline (depth : Nat) (fields : List Field) :
    anyHeader fields = (outline depth fields).any (mentionsHeader ·.2) := by
  induction fields using induction_fields generalizing depth with
  | nil => rfl
  | cons field rest inside behind =>
      have own : mentionsHeader field =
          (mentionsHeader (head field) || anyHeader (below field)) := by
        cases field <;> rfl
      rw [anyHeader, own, inside (depth + 1), behind depth, outline, outlineOf_eq, List.any_append,
        List.any_cons]

namespace Line

/-- Whether a line of text is understood and its type is that of headers. -/
def writesHeader (raw : List Char) : Bool :=
  match read raw with
  | some (.ok line) => (headerTypes.lookup (String.ofList line.type)).isSome
  | _ => false

/-- A line stands for headers just if its type is that of headers. -/
theorem any_meaning {line : Line} {fields : List Field}
    (meant : line.meaning = .ok (.fields fields)) :
    fields.any mentionsHeader = (headerTypes.lookup (String.ofList line.type)).isSome := by
  cases stands_meaning meant with
  | @headers kinds header =>
      have listed : (String.ofList line.type, kinds) ∈ headerTypes := by
        obtain ⟨front, back, parts, _⟩ := List.lookup_eq_some_iff.mp header
        rw [parts]
        exact List.mem_append_right _ List.mem_cons_self
      have nonempty : ∀ entry ∈ headerTypes, entry.2 ≠ [] := by decide
      obtain ⟨kind, rest, rfl⟩ := List.exists_cons_of_ne_nil (nonempty _ listed)
      rw [header]
      rfl
  | plain other _ _ _ _ own => rw [other, List.any_cons, own]; rfl

end Line

/-- The fields of a seat are headers just if its line is of a type of headers. -/
theorem Seat.any_entries {seat : Seat} (meant : seat.line.meaning = .ok seat.meaning) :
    seat.entries.any (mentionsHeader ·.2) =
      (headerTypes.lookup (String.ofList seat.line.type)).isSome := by
  obtain ⟨depth, line, meaning⟩ := seat
  cases meaning with
  | fields fields =>
      rw [← Line.any_meaning meant, Seat.entries, List.any_map]
      rfl
  | opening opening =>
      have other : headerTypes.lookup (String.ofList line.type) = none := by
        rcases (Line.meaning_opening meant).mp ⟨opening, rfl⟩ with ⟨array, _⟩ | object
        · rw [array]
          rfl
        · rw [object]
          rfl
      rw [other]
      cases opening <;> rfl

/-- Lines in their seats spell headers just if one of them is of a type of headers. -/
theorem Seated.any_entries {previous : Option Seat} {texts : List (List Char × Nat)}
    {seats : List Seat} (seated : Seated previous texts seats) :
    (seats.flatMap Seat.entries).any (mentionsHeader ·.2) =
      texts.any fun text => Line.writesHeader text.1 := by
  induction seated with
  | nil => rfl
  | cons found meant sits others ih =>
      rw [List.flatMap_cons, List.any_append, List.any_cons, ih, Line.writesHeader, found,
        Seat.any_entries meant]

/-- The lines of a text, each with its number. -/
def numbered (source : String) : List (List Char × Nat) :=
  (lines source.toList).zipIdx 1

/-- No two lines have the same number. -/
theorem nodup_numbered (source : String) : ((numbered source).map Prod.snd).Nodup := by
  rw [numbered, List.zipIdx_map_snd]
  exact List.nodup_range'

/-- **Only a line that was not reported can keep headers from being implied.** -/
theorem anyHeader_treeOf (source origin : String) : anyHeader (treeOf source origin) =
    (unreported (parse source origin).1.errors (numbered source)).any
      fun text => Line.writesHeader text.1 := by
  obtain ⟨seats, faults, ran⟩ :=
    Draft.exists_ran origin (nodup_numbered source) Draft.shows_start
  have errors : (parse source origin).1.errors = faults := ran.errors.trans (List.nil_append _)
  have whole : outline 0 (treeOf source origin) = seats.flatMap Seat.entries :=
    (Draft.outline_finish _).trans ran.shows.entries
  rw [anyHeader_eq_outline 0, whole, ran.seated.any_entries, errors, accepted_eq, List.any_filter]
  congr 1
  funext text
  have content : Line.writesHeader text.1 = true → (Line.read text.1).isSome = true := by
    rw [Line.writesHeader]
    cases Line.read text.1 with
    | none => exact fun written => written
    | some => exact fun _ => rfl
  cases written : Line.writesHeader text.1 with
  | true => rw [content written]; rfl
  | false => exact Bool.and_false _

/-- A count that has no place leaves headers implied. -/
example : (parse "- count a\nstring a" "").1.errors.map LineError.line = [1] ∧
    anyHeader (treeOf "- count a\nstring a" "") = false := by
  decide +kernel

/-- A text without the lines that are reported. -/
def withoutReported (source origin : String) : String :=
  String.ofList
    (withoutLines ((parse source origin).1.errors.map LineError.line) 1 source.toList)

/-- **Lines at fault leave no trace.** The text without the lines that were reported is read without
fault and as the same layout, from the same fields. Whether headers are implied is decided by the
lines that were not reported, and so is what is open after any of the lines, and how deep, so that
those that follow nest as they would without the lines at fault. -/
theorem parse_withoutReported (source origin : String) :
    (parse (withoutReported source origin) origin).1 = ⟨(parse source origin).1.layout, []⟩ ∧
      treeOf (withoutReported source origin) origin = treeOf source origin ∧
      anyHeader (treeOf source origin) =
        (unreported (parse source origin).1.errors (numbered source)).any
          (fun text => Line.writesHeader text.1) ∧
      ∀ front back, numbered source = front ++ back →
        (front.foldl (Draft.addRaw origin) .start).Alike
          ((unreported (parse source origin).1.errors front).foldl (Draft.addRaw origin)
            .start) := by
  obtain ⟨faults, retraced⟩ := Draft.exists_retraced origin (nodup_numbered source) .start
  have reported : (parse source origin).1.errors = faults :=
    retraced.errors.trans (List.nil_append _)
  have left : (numbered (withoutReported source origin)).map Prod.fst =
      (unreported faults (numbered source)).map Prod.fst := by
    rw [numbered, List.zipIdx_map_fst, withoutReported, String.toList_ofList, lines_withoutLines,
      reported]
    rfl
  obtain ⟨alike, none⟩ := retraced.again (.refl .start) left
  have tree : treeOf (withoutReported source origin) origin = treeOf source origin := alike.finish
  refine ⟨?_, tree, anyHeader_treeOf source origin, fun front back parts => ?_⟩
  · exact congrArg₂ Parsed.mk (congrArg ofFields tree) (congrArg Array.toList none)
  · have distinct := nodup_numbered source
    rw [parts, List.map_append, List.nodup_append] at distinct
    obtain ⟨apart, others, disjoint⟩ := distinct
    obtain ⟨before, first⟩ := Draft.exists_retraced origin apart .start
    obtain ⟨after, last⟩ := Draft.exists_retraced origin others
      (front.foldl (Draft.addRaw origin) .start)
    have all : (parse source origin).1.errors = before ++ after := by
      have split : (parse source origin).1.errors = _ :=
        congrArg (fun texts => (List.foldl (Draft.addRaw origin) .start texts).errors.toList) parts
      rw [split, List.foldl_append, last.errors, first.errors]
      rfl
    have elsewhere : ∀ error ∈ after, error.line ∉ front.map Prod.snd :=
      fun error late early => disjoint _ early _ (last.lines error late) rfl
    rw [all, unreported_append elsewhere]
    exact (first.again (.refl .start) rfl).1

end Layout

end Relay
