import Relay.Proofs.Layout.ReadBack

/-! # The tree that lines describe

The outline of fields lists them in preorder, each with its depth and without the fields it has of
its own; it tells the fields (`Relay.Layout.outline_inj`). The outline of the tree read from a text
is what the lines of the text spell, one after the other, those left out excepted
(`Relay.Layout.parse_outline`). A line lies as deep as it has dashes, but no deeper than one level
below the line before it, and below that only if that line opens an array or an object. -/

namespace Relay.Layout

open Text

/-! ## Outlines -/

/-- A field without the fields it has of its own. -/
def head : Field → Field
  | .object name _ => .object name []
  | .items name _ mixed => .items name [] mixed
  | field => field

mutual

/-- A field and what lies below it in preorder, each with its depth. -/
def outlineOf (depth : Nat) : Field → List (Nat × Field)
  | .object name fields => (depth, .object name []) :: outline (depth + 1) fields
  | .items name fields mixed => (depth, .items name [] mixed) :: outline (depth + 1) fields
  | field => [(depth, field)]

/-- Fields and what lies below them in preorder, each with its depth. -/
def outline (depth : Nat) : List Field → List (Nat × Field)
  | [] => []
  | field :: rest => outlineOf depth field ++ outline depth rest

end

theorem outlineOf_eq (depth : Nat) (field : Field) :
    outlineOf depth field = (depth, head field) :: outline (depth + 1) (below field) := by
  cases field <;> rfl

/-- The outline of some fields and others is that of the first ones and then of the others. -/
theorem outline_append (depth : Nat) (front back : List Field) :
    outline depth (front ++ back) = outline depth front ++ outline depth back := by
  induction front with
  | nil => rfl
  | cons field rest ih => rw [List.cons_append, outline, outline, ih, List.append_assoc]

/-- Fields with none of their own are listed one by one. -/
theorem outline_flat {fields : List Field} (depth : Nat)
    (flat : ∀ field ∈ fields, below field = []) : outline depth fields = fields.map (depth, ·) := by
  induction fields with
  | nil => rfl
  | cons field rest ih =>
      obtain ⟨own, others⟩ := List.forall_mem_cons.mp flat
      have alone : head field = field := by
        cases field with
        | object => cases own; rfl
        | items => cases own; rfl
        | _ => rfl
      rw [outline, outlineOf_eq, own, alone, ih others]
      rfl

/-- What lies in an outline lies no higher than the outline itself. -/
theorem depth_of_mem_outline {fields : List Field} {depth : Nat} :
    ∀ entry ∈ outline depth fields, depth ≤ entry.1 := by
  induction fields using induction_fields generalizing depth with
  | nil => exact List.forall_mem_nil _
  | cons field rest inside behind =>
      rw [outline, outlineOf_eq, List.cons_append, List.forall_mem_cons, List.forall_mem_append]
      refine ⟨Nat.le_refl depth, fun entry member => ?_, behind⟩
      exact (Nat.le_succ depth).trans (inside entry member)

/-- The outline of fields is over where an entry lies as high as they do. -/
theorem takeWhile_outline (depth : Nat) (fields rest : List Field) :
    (outline (depth + 1) fields ++ outline depth rest).takeWhile (depth < ·.1) =
      outline (depth + 1) fields := by
  have deeper : ∀ entry ∈ outline (depth + 1) fields, decide (depth < entry.1) = true :=
    fun entry member => decide_eq_true (depth_of_mem_outline entry member)
  rw [List.takeWhile_append_of_pos deeper]
  cases rest with
  | nil => exact List.append_nil _
  | cons field others =>
      have ends : decide (depth < depth) = false := decide_eq_false (Nat.lt_irrefl depth)
      rw [outline, outlineOf_eq, List.cons_append, List.takeWhile_cons]
      simp only [ends, Bool.false_eq_true, ↓reduceIte, List.append_nil]

/-- Fields are told by what they are without fields of their own, and by these. -/
theorem eq_of_head {field other : Field} (heads : head field = head other)
    (inner : below field = below other) : field = other := by
  cases field <;> cases other <;> simp_all [head, below]

/-- **The outline of fields tells the fields.** -/
theorem outline_inj {depth : Nat} {fields others : List Field}
    (same : outline depth fields = outline depth others) : fields = others := by
  induction fields using induction_fields generalizing depth others with
  | nil =>
      cases others with
      | nil => rfl
      | cons other rest => rw [outline, outline, outlineOf_eq] at same; cases same
  | cons field rest inside behind =>
      cases others with
      | nil => rw [outline, outline, outlineOf_eq] at same; cases same
      | cons other more =>
          rw [outline, outline, outlineOf_eq, outlineOf_eq, List.cons_append, List.cons_append,
            List.cons.injEq] at same
          obtain ⟨first, later⟩ := same
          have inner := congrArg (List.takeWhile (depth < ·.1)) later
          rw [takeWhile_outline, takeWhile_outline] at inner
          rw [inner] at later
          have own := eq_of_head (congrArg Prod.snd first) (inside inner)
          rw [own, behind (List.append_cancel_left later)]

/-! ## Seats of lines -/

namespace Line

variable {line : Line} {meaning : Meaning}

/-- A line of a type that stands for headers stands for these, under its name. -/
theorem meaning_header {kinds : List HeaderKind}
    (header : headerTypes.lookup (String.ofList line.type) = some kinds)
    (meant : line.meaning = .ok meaning) :
    meaning = .fields (kinds.map (.header · (String.ofList line.name))) := by
  cases stands_meaning meant with
  | headers known =>
      cases known.symm.trans header
      rfl
  | array _ type => rw [type] at header; cases header
  | object type => rw [type] at header; cases header
  | plain other => cases other.symm.trans header

/-- A line opens a field if it is an array without a type of elements or an object, and no other
line does. -/
theorem meaning_opening (meant : line.meaning = .ok meaning) :
    (∃ opening, meaning = .opening opening) ↔
      String.ofList line.type = "array" ∧ line.element = none ∨
        String.ofList line.type = "object" := by
  cases stands_meaning meant with
  | headers header =>
      refine ⟨fun ⟨_, opens⟩ => (nomatch opens), ?_⟩
      rintro (⟨array, _⟩ | object)
      · rw [array] at header; cases header
      · rw [object] at header; cases header
  | array mixed type bare => exact ⟨fun _ => .inl ⟨type, bare⟩, fun _ => ⟨_, rfl⟩⟩
  | object type => exact ⟨fun _ => .inr type, fun _ => ⟨_, rfl⟩⟩
  | plain _ shut apart =>
      refine ⟨fun ⟨_, opens⟩ => (nomatch opens), fun opens => ?_⟩
      exact absurd opens (not_or.mpr ⟨shut, apart⟩)

/-- What a line says by its type: three types are short for headers under the name of the line, and
only an array without a type of elements and an object open a field. -/
structure Says (line : Line) (meaning : Meaning) : Prop where
  refArray : String.ofList line.type = "refArray" → meaning = .fields
    [.header .count (String.ofList line.name), .header .offset (String.ofList line.name)]
  refBytes : String.ofList line.type = "refBytes" → meaning = .fields
    [.header .offset (String.ofList line.name), .header .count (String.ofList line.name)]
  refString : String.ofList line.type = "refString" → meaning = .fields
    [.header .offset (String.ofList line.name)]
  opening : (∃ opening, meaning = .opening opening) ↔
    String.ofList line.type = "array" ∧ line.element = none ∨
      String.ofList line.type = "object"

/-- A line that is understood says what it means. -/
theorem says_meaning (meant : line.meaning = .ok meaning) : line.Says meaning where
  refArray type := by
    have kinds : headerTypes.lookup (String.ofList line.type) = some [.count, .offset] := by
      rw [type]
      rfl
    exact meaning_header kinds meant
  refBytes type := by
    have kinds : headerTypes.lookup (String.ofList line.type) = some [.offset, .count] := by
      rw [type]
      rfl
    exact meaning_header kinds meant
  refString type := by
    have kinds : headerTypes.lookup (String.ofList line.type) = some [.offset] := by
      rw [type]
      rfl
    exact meaning_header kinds meant
  opening := meaning_opening meant

end Line

/-- An accepted line at the depth it was given. -/
structure Seat where
  depth : Nat
  line : Line
  meaning : Meaning

/-- The entries of an outline that a line at its depth spells. -/
def Seat.entries (seat : Seat) : List (Nat × Field) :=
  match seat.meaning with
  | .opening .object => [(seat.depth, .object (String.ofList seat.line.name) [])]
  | .opening (.array mixed) => [(seat.depth, .items (String.ofList seat.line.name) [] mixed)]
  | .fields fields => fields.map (seat.depth, ·)

/-- Whether lines may lie below a line. -/
def Seat.opens (seat : Seat) : Bool :=
  match seat.meaning with
  | .opening _ => true
  | .fields _ => false

/-- The depth of the line before, if there is one. -/
def depthBefore : Option Seat → Nat
  | none => 0
  | some seat => seat.depth

/-- Whether a line with some dashes has a place after the line before it. -/
def CanSit (previous : Option Seat) (dashes : Nat) : Prop :=
  dashes ≤ depthBefore previous ∨ previous.any Seat.opens = true

/-- The depth of a line with some dashes after the line before it. -/
def depthAfter (previous : Option Seat) (dashes : Nat) : Nat :=
  if dashes ≤ depthBefore previous then dashes else depthBefore previous + 1

/-- The seats of lines that are all understood and have a place, each after the one before it. -/
inductive Seated : Option Seat → List (List Char × Nat) → List Seat → Prop
  | nil {previous : Option Seat} : Seated previous [] []
  | cons {previous : Option Seat} {raw : List Char} {number : Nat}
      {rest : List (List Char × Nat)} {line : Line} {meaning : Meaning} {seats : List Seat}
      (found : Line.read raw = some (.ok line)) (meant : line.meaning = .ok meaning)
      (sits : CanSit previous line.depth)
      (others : Seated (some ⟨depthAfter previous line.depth, line, meaning⟩) rest seats) :
      Seated previous ((raw, number) :: rest)
        (⟨depthAfter previous line.depth, line, meaning⟩ :: seats)

/-- The lines with content that were not left out. -/
def accepted (errors : List LineError) (texts : List (List Char × Nat)) :
    List (List Char × Nat) :=
  texts.filter fun (raw, number) =>
    (Line.read raw).isSome && !(errors.map LineError.line).contains number

namespace Draft

/-! ## What a draft shows -/

variable {root : List Field} {opened : List OpenField} {draft after : Draft} {fields : List Field}

/-- The outline of the open fields. -/
def outlineOpened : List OpenField → List (Nat × Field)
  | [] => []
  | level :: rest =>
    outlineOpened rest ++
      (rest.length, head level.close) :: outline (rest.length + 1) level.fields

/-- The outline of what a draft holds. -/
def outlined (root : List Field) (opened : List OpenField) : List (Nat × Field) :=
  outline 0 root ++ outlineOpened opened

/-- Below a field that is closed are the fields that were put into it. -/
theorem below_close (level : OpenField) : below level.close = level.fields := by
  obtain ⟨opening, _, _⟩ := level
  cases opening <;> rfl

/-- The head of an open field does not depend on the fields in it. -/
theorem head_close_fields (level : OpenField) (fields : List Field) :
    head (OpenField.close { level with fields := fields }) = head level.close := by
  obtain ⟨opening, _, _⟩ := level
  cases opening <;> rfl

/-- Fields that are added come last, below the innermost open field. -/
theorem outlined_addFields (root : List Field) (opened : List OpenField) (fields : List Field) :
    outlined (addFields root opened fields).1 (addFields root opened fields).2 =
      outlined root opened ++ outline opened.length fields := by
  unfold outlined
  cases opened with
  | nil => rw [addFields, outline_append, outlineOpened, List.append_nil, List.append_nil]; rfl
  | cons level rest =>
      simp only [addFields, outlineOpened, head_close_fields, outline_append, List.length_cons,
        List.append_assoc, List.cons_append]

/-- Closing fields changes nothing of the outline. -/
theorem outlined_closeTo (kept : Nat) (root : List Field) (opened : List OpenField) :
    outlined (closeTo kept root opened).1 (closeTo kept root opened).2 = outlined root opened := by
  have closing : ∀ level rest, outlined (addFields root rest [OpenField.close level]).1
      (addFields root rest [level.close]).2 = outlined root (level :: rest) := by
    intro level rest
    rw [outlined_addFields, outlined, outlined, outlineOpened, outline, outline, outlineOf_eq,
      below_close, List.append_nil, List.append_assoc]
  induction opened using closeTo.induct kept with
  | case1 => rw [closeTo_nil]
  | case2 level many =>
      rw [closeTo_cons (Nat.le_of_lt_succ many), ← closing level []]
      exact congrArg (fun pair => outlined pair.1 pair.2) closeTo_nil
  | case3 level parent others many ih =>
      rw [closeTo_cons (Nat.le_of_lt_succ many), ← closing level (parent :: others)]
      exact ih
  | case4 level rest few => rw [closeTo_of_le (Nat.le_of_not_lt few)]

/-- At the end nothing is left open. -/
theorem outline_finish (draft : Draft) :
    outline 0 draft.finish = outlined draft.root draft.opened := by
  have none : (closeTo 0 draft.root draft.opened).2 = [] := by
    rw [← List.length_eq_zero_iff, length_closeTo, Nat.zero_min]
  rw [← outlined_closeTo 0, outlined, none, outlineOpened, List.append_nil]
  rfl

/-- The fields of a draft stay in front when others are put into it. -/
theorem addFields_root (root : List Field) (opened : List OpenField) (fields : List Field) :
    root <+: (addFields root opened fields).1 := by
  cases opened with
  | nil => exact List.prefix_append _ _
  | cons => exact List.prefix_rfl

/-- The outermost level stays open: what is on it stays, and more comes behind. -/
theorem closeTo_root (kept : Nat) (root : List Field) (opened : List OpenField) :
    root <+: (closeTo kept root opened).1 := by
  induction opened using closeTo.induct kept with
  | case1 => exact ⟨[], (List.append_nil root).trans (congrArg Prod.fst closeTo_nil).symm⟩
  | case2 level many =>
      rw [closeTo_cons (Nat.le_of_lt_succ many), addFields, closeTo_nil]
      exact List.prefix_append _ _
  | case3 level parent others many ih =>
      rw [closeTo_cons (Nat.le_of_lt_succ many)]
      exact ih
  | case4 level rest few =>
      have unchanged : closeTo kept root (level :: rest) = (root, level :: rest) :=
        closeTo_of_le (Nat.le_of_not_lt few)
      exact ⟨[], (List.append_nil root).trans (congrArg Prod.fst unchanged).symm⟩

/-- What a draft shows after lines with seats: the depth of the last, whether it is open, and the
entries of all of them in order. -/
structure Shows (seats : List Seat) (draft : Draft) : Prop where
  depth : draft.depth = depthBefore seats.getLast?
  opened : draft.opened.length = draft.depth + (seats.getLast?.any Seat.opens).toNat
  entries : outlined draft.root draft.opened = seats.flatMap Seat.entries

theorem shows_start : Shows [] start := ⟨rfl, rfl, rfl⟩

variable {seats : List Seat}

/-- The levels are as deep as the last line just if nothing may lie below it. -/
theorem Shows.closed_iff (shows : Shows seats draft) :
    draft.opened.length = draft.depth ↔ seats.getLast?.any Seat.opens = false := by
  rw [shows.opened]
  cases seats.getLast?.any Seat.opens with
  | false => exact ⟨fun _ => rfl, fun _ => rfl⟩
  | true => exact ⟨fun same => absurd same (Nat.succ_ne_self _), nofun⟩

theorem place_errors (draft : Draft) (depth : Nat) (name : String) (meaning : Meaning) :
    (draft.place depth name meaning).errors = draft.errors := by
  cases meaning <;> rfl

/-- A header that is noted adds no error. -/
theorem noteHeader_errors (draft : Draft) (origin : String) (number : Nat) (line : Line) :
    (draft.noteHeader origin number line).errors = draft.errors := by
  rw [Draft.noteHeader]
  split <;> rfl

/-- A header that is noted does not change what is shown. -/
theorem Shows.noteHeader (shows : Shows seats draft) (origin : String) (number : Nat)
    (line : Line) : Shows seats (draft.noteHeader origin number line) := by
  rw [Draft.noteHeader]
  split
  · exact ⟨shows.depth, shows.opened, shows.entries⟩
  · exact shows

/-- A line that is put on a level which is open shows at the end. -/
theorem Shows.place (shows : Shows seats draft) {line : Line} {meaning : Meaning} {depth : Nat}
    (meant : line.meaning = .ok meaning) (reached : depth ≤ draft.opened.length) :
    Shows (seats ++ [⟨depth, line, meaning⟩])
      (draft.place depth (String.ofList line.name) meaning) := by
  have length : (closeTo depth draft.root draft.opened).2.length = depth :=
    length_closeTo.trans (Nat.min_eq_left reached)
  have before := (outlined_closeTo depth draft.root draft.opened).trans shows.entries
  have last : (seats ++ [(⟨depth, line, meaning⟩ : Seat)]).getLast? = some ⟨depth, line, meaning⟩ :=
    List.getLast?_concat
  cases meaning with
  | opening opening =>
      refine ⟨?_, ?_, ?_⟩
      · rw [last]
        rfl
      · rw [last]
        exact congrArg Nat.succ length
      · rw [List.flatMap_append, ← before]
        cases opening with
        | _ => simp [Draft.place, outlined, outlineOpened, length, outline, Seat.entries,
            OpenField.close, head]
  | fields fields =>
      have flat : ∀ field ∈ fields, below field = [] :=
        fun field member => (Line.of_mem_meaning meant field member).2
      refine ⟨?_, ?_, ?_⟩
      · rw [last]
        rfl
      · rw [last]
        exact length_addFields.trans length
      · rw [List.flatMap_append, ← before]
        refine (outlined_addFields _ _ fields).trans ?_
        rw [length, outline_flat depth flat, List.flatMap_singleton]
        rfl

/-! ## One line, and all lines -/

/-- What a line of text does to a draft: nothing without content, and else it takes its seat or is
left out. Of the lines that are understood only those without a place are left out. -/
inductive Takes (origin : String) (seats : List Seat) (raw : List Char) (number : Nat)
    (draft after : Draft) : Prop
  | blank (empty : Line.read raw = none) (same : after = draft)
  | seated {line : Line} {meaning : Meaning} (found : Line.read raw = some (.ok line))
      (meant : line.meaning = .ok meaning) (sits : CanSit seats.getLast? line.depth)
      (errors : after.errors = draft.errors)
      (shows : Shows (seats ++ [⟨depthAfter seats.getLast? line.depth, line, meaning⟩]) after)
  | rejected {fault : LineFault} (content : (Line.read raw).isSome = true)
      (astray : ∀ line meaning, Line.read raw = some (.ok line) → line.meaning = .ok meaning →
        ¬ CanSit seats.getLast? line.depth ∧ fault = .noParent)
      (errors : after.errors = draft.errors.push ⟨origin, number, fault⟩)
      (shows : Shows seats after)

/-- A line that is read takes its seat or is left out. -/
theorem Shows.takes_add (shows : Shows seats draft) (origin : String) {raw : List Char}
    (number : Nat) {line : Line} (found : Line.read raw = some (.ok line)) :
    Takes origin seats raw number draft
      ((draft.noteHeader origin number line).add origin number line) := by
  have noted := shows.noteHeader origin number line
  have errors := noteHeader_errors draft origin number line
  have content : (Line.read raw).isSome = true := by rw [found]; rfl
  rw [add]
  split
  next fault unclear =>
    refine .rejected content (fun other meaning again meant => ?_)
      (congrArg (Array.push · _) errors) ⟨noted.depth, noted.opened, noted.entries⟩
    cases found.symm.trans again
    cases unclear.symm.trans meant
  next meaning meant =>
    simp only
    split
    next deeper =>
      rw [noted.depth] at deeper
      split
      next closed =>
        refine .rejected content (fun other unclear again _ => ⟨?_, rfl⟩)
          (congrArg (Array.push · _) errors) ⟨noted.depth, noted.opened, noted.entries⟩
        cases found.symm.trans again
        intro sits
        rcases sits with shallow | opens
        · exact absurd shallow (Nat.not_le.mpr deeper)
        · exact absurd ((noted.closed_iff.mp closed).symm.trans opens) Bool.false_ne_true
      next inside =>
        have opens := eq_true_of_ne_false (mt noted.closed_iff.mpr inside)
        have given : depthAfter seats.getLast? line.depth =
            (draft.noteHeader origin number line).depth + 1 := by
          rw [noted.depth]
          exact if_neg (Nat.not_le.mpr deeper)
        refine .seated found meant (.inr opens) ((place_errors ..).trans errors) ?_
        rw [given]
        refine Shows.place ?_ meant ?_
        · exact ⟨noted.depth, noted.opened, noted.entries⟩
        · exact (noted.opened.trans (congrArg (_ + Bool.toNat ·) opens)).ge
    next shallow =>
      have reached := Nat.le_of_not_lt shallow
      have given : depthAfter seats.getLast? line.depth = line.depth := by
        rw [noted.depth] at reached
        exact if_pos reached
      refine .seated found meant (.inl (noted.depth ▸ reached))
        ((place_errors ..).trans errors) ?_
      rw [given]
      exact noted.place meant (reached.trans (by rw [noted.opened]; exact Nat.le_add_right _ _))

/-- **A line takes its seat, or is left out.** -/
theorem Shows.takes (shows : Shows seats draft) (origin : String) (raw : List Char)
    (number : Nat) : Takes origin seats raw number draft (draft.addRaw origin (raw, number)) := by
  rw [addRaw]
  split
  next empty => exact .blank empty rfl
  next fault found =>
    refine .rejected (by rw [found]; rfl) (fun _ _ again _ => ?_) rfl
      ⟨shows.depth, shows.opened, shows.entries⟩
    cases found.symm.trans again
  next line found => exact shows.takes_add origin number found

/-- Whether lines of text led from a draft to another that shows their seats besides, and which of
them were left out. -/
structure Ran (texts : List (List Char × Nat)) (before : List Seat) (draft after : Draft)
    (seats : List Seat) (faults : List LineError) : Prop where
  errors : after.errors.toList = draft.errors.toList ++ faults
  lines : ∀ fault ∈ faults, fault.line ∈ texts.map Prod.snd
  seated : Seated before.getLast? (accepted faults texts) seats
  shows : Shows (before ++ seats) after

end Draft

/-- The lines that were not reported. -/
def unreported (errors : List LineError) (texts : List (List Char × Nat)) :
    List (List Char × Nat) :=
  texts.filter fun text => !(errors.map LineError.line).contains text.2

/-- The unreported lines depend on the reported numbers only. -/
theorem unreported_congr {errors others : List LineError} {texts : List (List Char × Nat)}
    (same : ∀ text ∈ texts,
      text.2 ∈ errors.map LineError.line ↔ text.2 ∈ others.map LineError.line) :
    unreported errors texts = unreported others texts := by
  refine List.filter_congr fun text member => ?_
  rw [Bool.eq_iff_iff, Bool.not_eq_true', Bool.not_eq_true', ← Bool.not_eq_true,
    ← Bool.not_eq_true, List.contains_iff_mem, List.contains_iff_mem]
  exact not_congr (same text member)

/-- What is reported about other lines takes none of these away. -/
theorem unreported_append {errors others : List LineError} {texts : List (List Char × Nat)}
    (apart : ∀ error ∈ others, error.line ∉ texts.map Prod.snd) :
    unreported (errors ++ others) texts = unreported errors texts := by
  refine unreported_congr fun text member => ?_
  rw [List.map_append, List.mem_append, or_iff_left]
  intro late
  obtain ⟨error, listed, spot⟩ := List.mem_map.mp late
  exact apart error listed (spot ▸ List.mem_map_of_mem member)

/-- The fault of another line takes none of these away. -/
theorem unreported_cons {error : LineError} {errors : List LineError}
    {texts : List (List Char × Nat)} (apart : error.line ∉ texts.map Prod.snd) :
    unreported (error :: errors) texts = unreported errors texts := by
  refine unreported_congr fun text member => ?_
  rw [List.map_cons, List.mem_cons, or_iff_right]
  exact fun same => apart (same ▸ List.mem_map_of_mem member)

/-- The accepted lines are those with content that were not reported. -/
theorem accepted_eq (errors : List LineError) (texts : List (List Char × Nat)) :
    accepted errors texts =
      (unreported errors texts).filter fun text => (Line.read text.1).isSome :=
  (List.filter_filter ..).symm

namespace Draft

variable {draft : Draft} {before : List Seat}

/-- **Lines take their seats one after the other**, those left out excepted. -/
theorem exists_ran (origin : String) {texts : List (List Char × Nat)}
    (distinct : (texts.map Prod.snd).Nodup) (shows : Shows before draft) :
    ∃ seats faults, Ran texts before draft (texts.foldl (addRaw origin) draft) seats faults := by
  induction texts generalizing draft before with
  | nil =>
      refine ⟨[], [], (List.append_nil _).symm, List.forall_mem_nil _, .nil, ?_⟩
      rwa [List.append_nil]
  | cons text rest ih =>
      obtain ⟨raw, number⟩ := text
      obtain ⟨fresh, apart⟩ := List.nodup_cons.mp distinct
      -- the faults of the lines behind do not touch this one
      have unmarked : ∀ {faults : List LineError},
          (∀ fault ∈ faults, fault.line ∈ rest.map Prod.snd) →
            ∀ fault ∈ faults, fault.line ≠ number := by
        intro faults lines fault member same
        exact fresh (same ▸ lines fault member)
      rw [List.foldl_cons]
      cases shows.takes origin raw number with
      | blank empty same =>
          rw [same]
          obtain ⟨seats, faults, ran⟩ := ih apart shows
          refine ⟨seats, faults, ran.errors, fun fault member => .tail _ (ran.lines fault member),
            ?_, ran.shows⟩
          rw [accepted, List.filter_cons_of_neg (by simp [empty])]
          exact ran.seated
      | @seated line meaning found meant sits errors shown =>
          obtain ⟨seats, faults, ran⟩ := ih apart shown
          have others := ran.seated
          have shows := ran.shows
          rw [List.getLast?_concat] at others
          rw [List.append_assoc] at shows
          refine ⟨_, faults, errors ▸ ran.errors,
            fun fault member => .tail _ (ran.lines fault member), ?_, shows⟩
          rw [accepted, List.filter_cons_of_pos (by simpa [found] using unmarked ran.lines)]
          exact .cons found meant sits others
      | @rejected fault content astray errors shown =>
          obtain ⟨seats, faults, ran⟩ := ih apart shown
          refine ⟨seats, ⟨origin, number, fault⟩ :: faults, ?_, ?_, ?_, ran.shows⟩
          · rw [ran.errors, errors, Array.toList_push, List.append_assoc]
            rfl
          · exact List.forall_mem_cons.mpr
              ⟨List.mem_cons_self, fun fault member => .tail _ (ran.lines fault member)⟩
          · have unmoved : accepted (⟨origin, number, fault⟩ :: faults) rest =
                accepted faults rest := by
              rw [accepted_eq, accepted_eq, unreported_cons fresh]
            have seated := ran.seated
            rw [← unmoved] at seated
            rwa [accepted, List.filter_cons_of_neg (by simp)]

/-- A line that is understood is left out just if it has no place, and then for this. -/
theorem Takes.outcome {origin : String} {seats : List Seat} {raw : List Char} {number : Nat}
    {after : Draft} {line : Line} {meaning : Meaning}
    (step : Takes origin seats raw number draft after) (found : Line.read raw = some (.ok line))
    (meant : line.meaning = .ok meaning) :
    ∃ own shown, after.errors.toList = draft.errors.toList ++ own ∧ Shows shown after ∧
      (own ≠ [] ↔ ¬ CanSit seats.getLast? line.depth) ∧
      ∀ error ∈ own, error = ⟨origin, number, .noParent⟩ := by
  cases step with
  | blank empty => cases empty.symm.trans found
  | seated again _ sits errors shows =>
      cases found.symm.trans again
      refine ⟨[], _, ?_, shows, ?_, List.forall_mem_nil _⟩
      · rw [errors, List.append_nil]
      · exact ⟨fun some => absurd rfl some, fun astray => absurd sits astray⟩
  | rejected _ astray errors shows =>
      obtain ⟨unseated, rfl⟩ := astray line meaning found meant
      refine ⟨[⟨origin, number, .noParent⟩], _, ?_, shows, ?_, ?_⟩
      · rw [errors, Array.toList_push]
      · exact ⟨fun _ => unseated, fun _ => List.cons_ne_nil _ _⟩
      · exact List.forall_mem_singleton.mpr rfl

/-- The fields of a draft stay in front, whatever lines there are. -/
theorem foldl_root (origin : String) (texts : List (List Char × Nat)) (draft : Draft) :
    draft.root <+: (texts.foldl (addRaw origin) draft).root := by
  have placed : ∀ {root : List Field} {draft : Draft} {depth name meaning}, draft.root = root →
      root <+: (draft.place depth name meaning).root := by
    rintro _ draft depth name meaning rfl
    have closed := closeTo_root depth draft.root draft.opened
    cases meaning with
    | opening => exact closed
    | fields fields => exact closed.trans (addFields_root _ _ _)
  induction texts generalizing draft with
  | nil => exact List.prefix_rfl
  | cons text rest ih =>
      obtain ⟨raw, number⟩ := text
      rw [List.foldl_cons]
      refine List.IsPrefix.trans ?_ (ih _)
      rw [addRaw]
      split
      next => exact List.prefix_rfl
      next => exact List.prefix_rfl
      next line _ =>
        have noted : (draft.noteHeader origin number line).root = draft.root := by
          rw [Draft.noteHeader]
          split <;> rfl
        rw [← noted, add]
        split
        next => exact List.prefix_rfl
        next =>
          simp only
          split
          next =>
            split
            next => exact List.prefix_rfl
            next => exact placed rfl
          next => exact placed rfl

end Draft

/-- The fields that the lines of a text describe, before headers are placed. -/
def treeOf (source origin : String) : List Field :=
  (((lines source.toList).zipIdx 1).foldl (Draft.addRaw origin) .start).finish

/-- What becomes of a line that is understood: the lines before it have their seats, and it is left
out just if it has no place behind them. -/
theorem verdict {origin : String} {front back : List (List Char × Nat)} {raw : List Char}
    {number : Nat} {line : Line} {meaning : Meaning}
    (distinct : ((front ++ (raw, number) :: back).map Prod.snd).Nodup)
    (found : Line.read raw = some (.ok line)) (meant : line.meaning = .ok meaning)
    {errors : List LineError}
    (all : ((front ++ (raw, number) :: back).foldl (Draft.addRaw origin) .start).errors.toList =
      errors) :
    ∃ seats, Seated none (accepted errors front) seats ∧
      ((∃ error ∈ errors, error.line = number) ↔ ¬ CanSit seats.getLast? line.depth) ∧
      ∀ error ∈ errors, error.line = number → error = ⟨origin, number, .noParent⟩ := by
  rw [List.map_append, List.nodup_append] at distinct
  obtain ⟨apart, behind, disjoint⟩ := distinct
  obtain ⟨fresh, later⟩ := List.nodup_cons.mp behind
  obtain ⟨seats, before, first⟩ := Draft.exists_ran origin apart Draft.shows_start
  obtain ⟨own, shown, step, shows, unseated, named⟩ :=
    (first.shows.takes origin raw number).outcome found meant
  obtain ⟨_, after, last⟩ := Draft.exists_ran origin later shows
  rw [List.nil_append] at unseated
  rw [List.foldl_append, List.foldl_cons, last.errors, step, first.errors] at all
  have parts : errors = before ++ own ++ after := all.symm.trans (List.nil_append _)
  have front_apart : ∀ error ∈ before, error.line ≠ number := fun error member =>
    disjoint _ (first.lines error member) _ List.mem_cons_self
  have back_apart : ∀ error ∈ after, error.line ≠ number := fun error member same =>
    fresh (same ▸ last.lines error member)
  refine ⟨seats, ?_, ?_, ?_⟩
  · have elsewhere : ∀ error ∈ own ++ after, error.line ∉ front.map Prod.snd := by
      refine List.forall_mem_append.mpr ⟨fun error mine place => ?_, fun error late place => ?_⟩
      · rw [named error mine] at place
        exact disjoint _ place _ List.mem_cons_self rfl
      · exact disjoint _ place _ (.tail _ (last.lines error late)) rfl
    rw [parts, List.append_assoc, accepted_eq, unreported_append elsewhere, ← accepted_eq]
    exact first.seated
  · rw [← unseated, parts]
    constructor
    · rintro ⟨error, member, spot⟩ none
      rw [none, List.append_nil] at member
      rcases List.mem_append.mp member with early | late
      · exact front_apart error early spot
      · exact back_apart error late spot
    · intro some
      obtain ⟨error, mine⟩ := List.exists_mem_of_ne_nil own some
      refine ⟨error, List.mem_append_left _ (List.mem_append_right _ mine), ?_⟩
      rw [named error mine]
  · intro error member spot
    rw [parts] at member
    rcases List.mem_append.mp member with member | late
    · rcases List.mem_append.mp member with early | mine
      · exact absurd spot (front_apart error early)
      · exact named error mine
    · exact absurd spot (back_apart error late)

/-- **A text is read as the tree that its lines describe.** In preorder the fields before headers
are placed are what the accepted lines spell, in their order, and no other fields have this outline.
A line that is understood is left out just if it has no place after the accepted lines before it,
and then for this. What once stands on the outermost level stays there. -/
theorem parse_outline (source origin : String) :
    (parse source origin).1.layout = ofFields (treeOf source origin) ∧
    (∃ seats, Seated none (accepted (parse source origin).1.errors
        ((lines source.toList).zipIdx 1)) seats ∧
      ∀ fields, outline 0 fields = seats.flatMap Seat.entries ↔
        fields = treeOf source origin) ∧
    (∀ front raw number back line meaning,
      (lines source.toList).zipIdx 1 = front ++ (raw, number) :: back →
      Line.read raw = some (.ok line) → line.meaning = .ok meaning → line.Says meaning ∧
      ∃ seats, Seated none (accepted (parse source origin).1.errors front) seats ∧
        ((∃ error ∈ (parse source origin).1.errors, error.line = number) ↔
          ¬ CanSit seats.getLast? line.depth) ∧
        ∀ error ∈ (parse source origin).1.errors, error.line = number →
          error = ⟨origin, number, .noParent⟩) ∧
    ∀ front back, (lines source.toList).zipIdx 1 = front ++ back →
      (front.foldl (Draft.addRaw origin) .start).root <+: treeOf source origin := by
  have distinct : (((lines source.toList).zipIdx 1).map Prod.snd).Nodup := by
    rw [List.zipIdx_map_snd]
    exact List.nodup_range'
  refine ⟨rfl, ?_, ?_, ?_⟩
  · obtain ⟨seats, faults, ran⟩ := Draft.exists_ran origin distinct Draft.shows_start
    have errors : (parse source origin).1.errors = faults :=
      ran.errors.trans (List.nil_append _)
    have whole : outline 0 (treeOf source origin) = seats.flatMap Seat.entries :=
      (Draft.outline_finish _).trans ran.shows.entries
    refine ⟨seats, errors ▸ ran.seated, fun fields => ⟨fun same => ?_, ?_⟩⟩
    · exact outline_inj (same.trans whole.symm)
    · rintro rfl
      exact whole
  · intro front raw number back line meaning parts found meant
    refine ⟨Line.says_meaning meant, verdict (parts ▸ distinct) found meant ?_⟩
    rw [← parts]
    rfl
  · intro front back parts
    unfold treeOf Draft.finish
    rw [parts, List.foldl_append]
    exact (Draft.foldl_root origin back _).trans (Draft.closeTo_root 0 _ _)

end Relay.Layout
