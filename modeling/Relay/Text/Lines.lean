/-! # Lines and separators

Cutting text at line ends and at single characters. A line ends at a line feed; a carriage return
just before the line feed belongs to the line end, and an empty piece after the last line feed is
no line. -/

namespace Relay.Text

/-- A line without the carriage return before its line feed. -/
def dropReturn : List Char → List Char
  | [] => []
  | ['\r'] => []
  | c :: rest => c :: dropReturn rest

/-- Lines of `text`, where `current` holds the characters of the open line in reverse. -/
private def linesFrom : List Char → List Char → List (List Char)
  | current, [] => if current.isEmpty then [] else [current.reverse]
  | current, '\n' :: rest => dropReturn current.reverse :: linesFrom [] rest
  | current, c :: rest => linesFrom (c :: current) rest

/-- The lines of a text. -/
def lines (text : List Char) : List (List Char) :=
  linesFrom [] text

/-- A line without a carriage return is left as it is. -/
theorem dropReturn_of_notMem {line : List Char} (absent : '\r' ∉ line) :
    dropReturn line = line := by
  induction line with
  | nil => rfl
  | cons c rest ih =>
    rw [List.mem_cons, not_or] at absent
    rw [dropReturn, ih absent.2]
    exact fun own => absurd own.symm absent.1

/-- A line that ends is the first of all lines. -/
private theorem linesFrom_append {line : List Char} (whole : '\n' ∉ line)
    (current rest : List Char) : linesFrom current (line ++ '\n' :: rest) =
      dropReturn (current.reverse ++ line) :: linesFrom [] rest := by
  induction line generalizing current with
  | nil => simp [linesFrom]
  | cons c others ih =>
    rw [List.mem_cons, not_or] at whole
    rw [List.cons_append, linesFrom, ih whole.2, List.reverse_cons, List.append_assoc]
    · rfl
    · exact fun own => absurd own.symm whole.1

/-- A text without a line end is one line, or none if it is empty. -/
private theorem linesFrom_of_notMem {line : List Char} (whole : '\n' ∉ line)
    (current : List Char) : linesFrom current line =
      if (current.reverse ++ line).isEmpty then [] else [current.reverse ++ line] := by
  induction line generalizing current with
  | nil => simp [linesFrom]
  | cons c others ih =>
    rw [List.mem_cons, not_or] at whole
    rw [linesFrom, ih whole.2, List.reverse_cons, List.append_assoc]
    · rfl
    · exact fun own => absurd own.symm whole.1

/-- The first line of a text ends at its first line feed. -/
theorem lines_append {line : List Char} (whole : '\n' ∉ line) (rest : List Char) :
    lines (line ++ '\n' :: rest) = dropReturn line :: lines rest :=
  linesFrom_append whole [] rest

/-- What stands behind the last line feed is a line, unless there is nothing. -/
theorem lines_last {line : List Char} (whole : '\n' ∉ line) :
    lines line = if line.isEmpty then [] else [line] :=
  linesFrom_of_notMem whole []

/-- What holds of a text without line feeds, and of a text with one more line in front, holds of
every text. -/
@[elab_as_elim]
theorem induction_lines {motive : List Char → Prop} (last : ∀ line, '\n' ∉ line → motive line)
    (append : ∀ line rest, '\n' ∉ line → motive rest → motive (line ++ '\n' :: rest))
    (text : List Char) : motive text := by
  by_cases feed : '\n' ∈ text
  · obtain ⟨line, rest, same, whole⟩ := List.eq_append_cons_of_mem feed
    have shorter : rest.length < text.length := by
      rw [same, List.length_append, List.length_cons]
      omega
    rw [same]
    exact append line rest whole (induction_lines last append rest)
  · exact last text feed
  termination_by text.length

/-- Lines with a line feed behind each are the lines of the text that they make. -/
theorem lines_flatMap {texts : List (List Char)}
    (whole : ∀ text ∈ texts, '\n' ∉ text ∧ '\r' ∉ text) :
    lines (texts.flatMap (· ++ ['\n'])) = texts := by
  induction texts with
  | nil => rfl
  | cons text rest ih =>
    obtain ⟨first, others⟩ := List.forall_mem_cons.mp whole
    rw [List.flatMap_cons, List.append_assoc, List.singleton_append, lines_append first.1,
      dropReturn_of_notMem first.2, ih others]

/-- The part of a line before its first `#`. -/
def dropComment (line : List Char) : List Char :=
  line.takeWhile (· != '#')

/-- The text before and after the first character that satisfies `stop`. -/
def splitOnce (stop : Char → Bool) : List Char → Option (List Char × List Char)
  | [] => none
  | c :: rest =>
    if stop c then some ([], rest)
    else (splitOnce stop rest).map fun (before, after) => (c :: before, after)

/-- A text is cut at a character that satisfies `stop`, and none before it does. -/
theorem splitOnce_eq_some {stop : Char → Bool} {text before after : List Char} :
    splitOnce stop text = some (before, after) ↔
      ∃ mark, text = before ++ mark :: after ∧ stop mark = true ∧
        ∀ c ∈ before, stop c = false := by
  induction text generalizing before with
  | nil => simp [splitOnce]
  | cons c rest ih =>
    rw [splitOnce]
    split
    next stops =>
      constructor
      · rintro ⟨⟩
        exact ⟨c, rfl, stops, nofun⟩
      · intro ⟨mark, same, _, free⟩
        cases before with
        | nil =>
          cases same
          rfl
        | cons first others =>
          cases same
          rw [free _ List.mem_cons_self] at stops
          cases stops
    next goes =>
      rw [Option.map_eq_some_iff]
      constructor
      · rintro ⟨⟨front, behind⟩, found, same⟩
        cases same
        obtain ⟨mark, rfl, stops, free⟩ := ih.mp found
        refine ⟨mark, rfl, stops, List.forall_mem_cons.mpr ⟨?_, free⟩⟩
        exact eq_false_of_ne_true goes
      · intro ⟨mark, same, stops, free⟩
        cases before with
        | nil =>
          cases same
          exact absurd stops goes
        | cons first others =>
          cases same
          exact ⟨(others, after),
            ih.mpr ⟨mark, rfl, stops, (List.forall_mem_cons.mp free).2⟩, rfl⟩

/-- The pieces between the characters that equal `mark`; there is always at least one. -/
def splitAll (mark : Char) : List Char → List (List Char)
  | [] => [[]]
  | c :: rest =>
    if c = mark then [] :: splitAll mark rest
    else
      match splitAll mark rest with
      | [] => [[c]]
      | piece :: pieces => (c :: piece) :: pieces

/-- What follows `head` at the front of the text. -/
def afterFront : List Char → List Char → Option (List Char)
  | [], text => some text
  | _ :: _, [] => none
  | h :: head, c :: rest => if h = c then afterFront head rest else none

/-- What precedes `tail` at the back of the text. -/
def beforeBack (tail : List Char) (text : List Char) : Option (List Char) :=
  if tail.length ≤ text.length then
    let kept := text.length - tail.length
    if text.drop kept = tail then some (text.take kept) else none
  else none

/-- Items with a separator between neighbours. -/
def joinWith (separator : String) : List String → String
  | [] => ""
  | [only] => only
  | first :: rest => first ++ separator ++ joinWith separator rest

end Relay.Text
