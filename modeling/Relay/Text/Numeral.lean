/-! # Decimal numerals with a bound

A numeral is an optional plus sign and decimal digits. A reader distinguishes text that is no
numeral from a numeral beyond the largest value allowed. Main statement: it accepts exactly the
numerals of numbers up to that value (`Relay.Text.numeral_eq_ok`). -/

namespace Relay.Text

/-- Why a text is not an acceptable numeral. -/
inductive NumeralError where
  | empty
  | invalidDigit
  | tooLarge
  deriving DecidableEq, Repr

namespace NumeralError

/-- The wording of a refusal. -/
def message : NumeralError → String
  | .empty => "cannot parse integer from empty string"
  | .invalidDigit => "invalid digit found in string"
  | .tooLarge => "number too large to fit in target type"

end NumeralError

/-- The value of a decimal digit. -/
def digit? (c : Char) : Option Nat :=
  if '0' ≤ c ∧ c ≤ '9' then some (c.toNat - 48) else none

/-- Whether a text consists of decimal digits and has at least one. -/
def isDigits (text : List Char) : Bool :=
  !text.isEmpty && text.all fun c => (digit? c).isSome

/-- Whether a text consists of ASCII letters, digits and underscores and has at least one. -/
def isIdentifier (text : List Char) : Bool :=
  !text.isEmpty && text.all fun c => c.isAlphanum || c == '_'

/-- Continue a numeral whose digits so far are worth `value`. The first digit at fault decides
the error. -/
private def numeralFrom (largest : Nat) : Nat → List Char → Except NumeralError Nat
  | value, [] => .ok value
  | value, c :: rest =>
    match digit? c with
    | none => .error .invalidDigit
    | some d =>
      if largest < value * 10 + d then .error .tooLarge
      else numeralFrom largest (value * 10 + d) rest

/-- The value of a numeral up to `largest`. -/
def numeral (largest : Nat) : List Char → Except NumeralError Nat
  | [] => .error .empty
  | ['+'] => .error .invalidDigit
  | '+' :: digits => numeralFrom largest 0 digits
  | digits => numeralFrom largest 0 digits

/-- A number with a decimal digit behind it. -/
def shifted (value : Nat) (digit : Char) : Nat :=
  value * 10 + (digit.toNat - 48)

/-- The number that decimal digits stand for. -/
def worth (digits : List Char) : Nat :=
  digits.foldl shifted 0

/-- Whether a text is a numeral of a number: decimal digits, at least one, with or without a plus
sign before them. -/
def Denotes (text : List Char) (n : Nat) : Prop :=
  ∃ digits, (text = digits ∨ text = '+' :: digits) ∧ isDigits digits = true ∧ worth digits = n

/-- A numeral never becomes smaller with more digits. -/
private theorem le_foldl_shifted (digits : List Char) (value : Nat) :
    value ≤ digits.foldl shifted value := by
  induction digits generalizing value with
  | nil => exact Nat.le_refl value
  | cons c rest ih =>
    have first : value ≤ shifted value c := by
      unfold shifted
      omega
    exact Nat.le_trans first (ih _)

/-- A digit is put behind a value by ten times the value. -/
private theorem shifted_of_digit {c : Char} {d value : Nat} (digit : digit? c = some d) :
    value * 10 + d = shifted value c := by
  unfold digit? at digit
  split at digit
  next =>
    cases digit
    rfl
  next => cases digit

/-- Behind a number in front of them, only digits are accepted that do not lead beyond the
largest. -/
private theorem numeralFrom_eq_ok {largest value n : Nat} {text : List Char}
    (small : value ≤ largest) : numeralFrom largest value text = .ok n ↔
      (∀ c ∈ text, (digit? c).isSome = true) ∧ text.foldl shifted value = n ∧ n ≤ largest := by
  induction text generalizing value with
  | nil =>
    simp only [numeralFrom, Except.ok.injEq, List.foldl_nil, List.not_mem_nil, false_implies,
      implies_true, true_and]
    exact ⟨fun same => ⟨same, same ▸ small⟩, And.left⟩
  | cons c rest ih =>
    rw [numeralFrom, List.forall_mem_cons, List.foldl_cons]
    cases digit : digit? c with
    | none => simp
    | some d =>
      simp only [Option.isSome_some, true_and, shifted_of_digit digit]
      split
      next beyond =>
        have further := le_foldl_shifted rest (shifted value c)
        constructor
        · exact nofun
        · intro ⟨_, same, fits⟩
          omega
      next within => exact ih (Nat.le_of_not_lt within)

/-- What does not begin with a plus sign is read from its first digit on. -/
private theorem numeral_of_digits {largest : Nat} {text : List Char} (nonempty : text ≠ [])
    (unsigned : ∀ digits, text ≠ '+' :: digits) :
    numeral largest text = numeralFrom largest 0 text := by
  unfold numeral
  split
  next => exact absurd rfl nonempty
  next => exact absurd rfl (unsigned [])
  next digits _ => exact absurd rfl (unsigned digits)
  next => rfl

/-- What begins with a plus sign is read behind it. -/
private theorem numeral_of_plus {largest : Nat} {digits : List Char} (nonempty : digits ≠ []) :
    numeral largest ('+' :: digits) = numeralFrom largest 0 digits := by
  cases digits with
  | nil => exact absurd rfl nonempty
  | cons => rfl

private theorem isDigits_iff {text : List Char} :
    isDigits text = true ↔ text ≠ [] ∧ ∀ c ∈ text, (digit? c).isSome = true := by
  simp [isDigits]

/-- **A numeral is accepted if and only if its number is not too large.** -/
theorem numeral_eq_ok {largest n : Nat} {text : List Char} :
    numeral largest text = .ok n ↔ Denotes text n ∧ n ≤ largest := by
  have read {digits : List Char} (nonempty : digits ≠ []) :
      numeralFrom largest 0 digits = .ok n ↔
        (isDigits digits = true ∧ worth digits = n) ∧ n ≤ largest := by
    rw [numeralFrom_eq_ok (Nat.zero_le _), isDigits_iff, and_assoc, and_assoc]
    exact ⟨fun ⟨all, rest⟩ => ⟨nonempty, all, rest⟩, fun ⟨_, rest⟩ => rest⟩
  constructor
  · intro accepted
    have some : text ≠ [] := by
      rintro rfl
      cases accepted
    by_cases signed : ∃ digits, text = '+' :: digits
    · obtain ⟨digits, rfl⟩ := signed
      have behind : digits ≠ [] := by
        rintro rfl
        cases accepted
      rw [numeral_of_plus behind, read behind] at accepted
      exact ⟨⟨digits, .inr rfl, accepted.1⟩, accepted.2⟩
    · rw [numeral_of_digits some fun digits same => signed ⟨digits, same⟩, read some] at accepted
      exact ⟨⟨text, .inl rfl, accepted.1⟩, accepted.2⟩
  · intro ⟨⟨digits, written, isDigits, worth⟩, fits⟩
    obtain ⟨nonempty, all⟩ := isDigits_iff.mp isDigits
    rcases written with rfl | rfl
    · rw [numeral_of_digits nonempty, read nonempty]
      · exact ⟨⟨isDigits, worth⟩, fits⟩
      · rintro rest rfl
        exact absurd (all '+' List.mem_cons_self) (by decide)
    · rw [numeral_of_plus nonempty, read nonempty]
      exact ⟨⟨isDigits, worth⟩, fits⟩

/-- The value of a hexadecimal digit. -/
def hexDigit? (c : Char) : Option Nat :=
  if '0' ≤ c ∧ c ≤ '9' then some (c.toNat - 48)
  else if 'a' ≤ c ∧ c ≤ 'f' then some (c.toNat - 87)
  else if 'A' ≤ c ∧ c ≤ 'F' then some (c.toNat - 55)
  else none

/-- The hexadecimal digit of a value below sixteen. -/
def hexDigit (n : Nat) : Char :=
  if n < 10 then Char.ofNat (48 + n) else Char.ofNat (87 + n)

/-- Hexadecimal digits of a number, at least one. -/
def hexText (n : Nat) : String :=
  String.ofList (Nat.toDigits 16 n)

/-- Two hexadecimal digits a byte. -/
def hexBytes (bytes : Array UInt8) : String :=
  bytes.foldl (fun text b =>
    (text.push (hexDigit (b.toNat / 16))).push (hexDigit (b.toNat % 16))) ""

end Relay.Text
