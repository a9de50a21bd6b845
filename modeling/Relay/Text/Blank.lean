/-! # Blank characters

The characters with the White_Space property, and cutting text at them. Main statements: trimming
leaves alone what has no blank at either end (`Relay.Text.trim_eq_self`), and words are runs of
characters that are not blank, never empty (`Relay.Text.of_mem_words`). -/

namespace Relay.Text

/-- Whether a character has the White_Space property. -/
def isBlank (c : Char) : Bool :=
  let n := c.toNat
  (9 ≤ n && n ≤ 13) || n == 0x20 || n == 0x85 || n == 0xA0 || n == 0x1680 ||
    (0x2000 ≤ n && n ≤ 0x200A) || n == 0x2028 || n == 0x2029 || n == 0x202F || n == 0x205F ||
    n == 0x3000

/-- Drop the blanks at the front. -/
def trimLeft (text : List Char) : List Char :=
  text.dropWhile isBlank

/-- Drop the blanks at the back. -/
def trimRight : List Char → List Char
  | [] => []
  | c :: rest =>
    match trimRight rest with
    | [] => if isBlank c then [] else [c]
    | kept => c :: kept

/-- Drop the blanks at both ends. -/
def trim (text : List Char) : List Char :=
  trimRight (trimLeft text)

/-- Put a character in front of the first word, or start it. -/
private def extendWord (c : Char) : List (List Char) → List (List Char)
  | [] => [[c]]
  | word :: words => (c :: word) :: words

/-- The runs between blanks. The flag says whether the text begins inside a run, so that a
following run is a new one. -/
private def wordsFrom : List Char → Bool × List (List Char)
  | [] => (false, [])
  | c :: rest =>
    let (inside, words) := wordsFrom rest
    if isBlank c then (false, words)
    else if inside then (true, extendWord c words)
    else (true, [c] :: words)

/-- The maximal runs of characters that are not blank, in order. -/
def words (text : List Char) : List (List Char) :=
  (wordsFrom text).2

/-- A text that begins with a character that is not blank has none to drop at the front. -/
theorem trimLeft_cons {c : Char} (plain : isBlank c = false) (rest : List Char) :
    trimLeft (c :: rest) = c :: rest :=
  List.dropWhile_cons_of_neg (by simp [plain])

/-- A text that ends with a character that is not blank has none to drop at the back. -/
theorem trimRight_concat {c : Char} (plain : isBlank c = false) (front : List Char) :
    trimRight (front ++ [c]) = front ++ [c] := by
  induction front with
  | nil => simp [trimRight, plain]
  | cons first rest ih =>
    rw [List.cons_append, trimRight, ih]
    split
    next none => simp at none
    next => rfl

/-- A text without blanks at either end is left alone. -/
theorem trim_eq_self {text front rest : List Char} {first last : Char}
    (begins : text = first :: rest) (ends : text = front ++ [last])
    (plain : isBlank first = false) (solid : isBlank last = false) : trim text = text := by
  rw [trim, begins, trimLeft_cons plain, ← begins, ends, trimRight_concat solid]

/-- Nothing is put in when blanks are taken off the end. -/
theorem sublist_trimRight (text : List Char) : (trimRight text).Sublist text := by
  induction text with
  | nil => exact List.Sublist.refl _
  | cons c rest ih =>
    rw [trimRight]
    split
    next none =>
      split
      next => exact List.nil_sublist _
      next => exact List.Sublist.cons_cons c (List.nil_sublist rest)
    next => exact List.Sublist.cons_cons c ih

theorem sublist_trim (text : List Char) : (trim text).Sublist text :=
  (sublist_trimRight _).trans (List.dropWhile_sublist _)

/-- A word before what does not go on with it is the first of all words. -/
private theorem wordsFrom_append {word rest : List Char} (nonempty : word ≠ [])
    (plain : ∀ c ∈ word, isBlank c = false) (apart : (wordsFrom rest).1 = false) :
    wordsFrom (word ++ rest) = (true, word :: words rest) := by
  induction word with
  | nil => exact absurd rfl nonempty
  | cons c others ih =>
    obtain ⟨first, more⟩ := List.forall_mem_cons.mp plain
    rw [List.cons_append, wordsFrom]
    cases others with
    | nil => simp [first, apart, words]
    | cons =>
      rw [ih (List.cons_ne_nil _ _) more]
      simp [first, extendWord]

/-- A run is the only word of itself. -/
theorem words_word {word : List Char} (nonempty : word ≠ [])
    (plain : ∀ c ∈ word, isBlank c = false) : words word = [word] := by
  have alone : wordsFrom (word ++ []) = _ := wordsFrom_append nonempty plain rfl
  rw [List.append_nil] at alone
  rw [words, alone]
  rfl

/-- A run before a blank is the first word. -/
theorem words_append {word : List Char} {blank : Char} (nonempty : word ≠ [])
    (plain : ∀ c ∈ word, isBlank c = false) (stop : isBlank blank = true) (rest : List Char) :
    words (word ++ blank :: rest) = word :: words rest := by
  have behind : wordsFrom (blank :: rest) = (false, words rest) := by
    rw [wordsFrom]
    simp [stop, words]
  rw [words, wordsFrom_append nonempty plain (by rw [behind]), words, behind]

/-- A word after a character was put in front of the first one goes on with it or was there. -/
private theorem of_mem_extendWord {c : Char} {word : List Char} {words : List (List Char)}
    (member : word ∈ extendWord c words) :
    (∃ first, (first = [] ∨ first ∈ words) ∧ word = c :: first) ∨ word ∈ words := by
  cases words with
  | nil => exact .inl ⟨[], .inl rfl, List.mem_singleton.mp member⟩
  | cons first others =>
    rcases List.mem_cons.mp member with rfl | behind
    · exact .inl ⟨first, .inr List.mem_cons_self, rfl⟩
    · exact .inr (List.mem_cons_of_mem _ behind)

/-- Words are runs of characters of the text that are not blank. -/
theorem of_mem_words {text word : List Char} (member : word ∈ words text) :
    word ≠ [] ∧ ∀ c ∈ word, isBlank c = false ∧ c ∈ text := by
  induction text generalizing word with
  | nil => cases member
  | cons c rest ih =>
    have begins : (∃ first, (first = [] ∨ first ∈ words rest) ∧ word = c :: first ∧
        isBlank c = false) ∨ word ∈ words rest := by
      rw [words, wordsFrom] at member
      simp only at member
      split at member
      next => exact .inr member
      next plain =>
        rw [Bool.not_eq_true] at plain
        split at member
        next =>
          rcases of_mem_extendWord member with ⟨first, found, same⟩ | later
          · exact .inl ⟨first, found, same, plain⟩
          · exact .inr later
        next =>
          rcases List.mem_cons.mp member with same | later
          · exact .inl ⟨[], .inl rfl, same, plain⟩
          · exact .inr later
    rcases begins with ⟨first, found, rfl, plain⟩ | later
    · refine ⟨List.cons_ne_nil _ _, List.forall_mem_cons.mpr
        ⟨⟨plain, List.mem_cons_self⟩, fun d inside => ?_⟩⟩
      rcases found with rfl | listed
      · cases inside
      · exact ⟨((ih listed).2 d inside).1, List.mem_cons_of_mem c ((ih listed).2 d inside).2⟩
    · exact ⟨(ih later).1, fun d inside =>
        ⟨((ih later).2 d inside).1, List.mem_cons_of_mem c ((ih later).2 d inside).2⟩⟩

end Relay.Text
