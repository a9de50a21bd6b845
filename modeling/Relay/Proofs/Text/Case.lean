import Relay.Proofs.Text.Units
import Relay.Text.Case

/-! # Small letters stay as they are

What a character becomes in small letters has no smaller form (`Relay.Text.fixed_of_mem_smallChar`),
so a text in small letters is the same in small letters (`Relay.Text.toSmall_toSmall`). -/

namespace Relay.Text

/-- A character without a smaller form. -/
def Fixed (c : Char) : Prop := smallChar c = [c]

instance (c : Char) : Decidable (Fixed c) :=
  inferInstanceAs (Decidable (smallChar c = [c]))

/-! ## What capital letters become -/

/-- Whether a number is one of a run. -/
def isIn (n : Nat) (run : Nat × Nat × Nat × Int) : Bool :=
  Nat.ble run.1 n && Nat.ble n run.2.1 && (n - run.1) % run.2.2.1 == 0

/-- Whether the numbers `first`, `first + stride` and so on up to `first + length` are in no run of
capital letters and all of them numbers of characters. -/
def isSmall (first length stride : Nat) : Bool :=
  (Nat.blt (first + length) 0xD800 || Nat.ble 0xE000 first && Nat.blt (first + length) 0x110000) &&
  (Nat.blt (first + length) 0x130 || Nat.blt 0x130 first) &&
  capitalRuns.all fun run => Nat.blt (first + length) run.1 || Nat.blt run.2.1 first ||
    (List.range (length / stride + 1)).all fun k => !isIn (first + k * stride) run

theorem nonneg_capitalRuns : ∀ run ∈ capitalRuns, 0 ≤ (run.1 : Int) + run.2.2.2 := by
  decide +kernel

/-- No run of capital letters becomes capital letters. -/
theorem isSmall_capitalRuns : ∀ run ∈ capitalRuns,
    isSmall ((run.1 : Int) + run.2.2.2).toNat (run.2.1 - run.1) run.2.2.1 = true := by
  rw [← List.all_eq_true]
  decide +kernel

/-- A character that is shifted is in one of the runs, and shifted as the run says. -/
theorem isIn_of_smallShift {n : Nat} {shift : Int} {runs : List (Nat × Nat × Nat × Int)}
    (found : smallShift n runs = some shift) :
    ∃ run ∈ runs, isIn n run = true ∧ run.2.2.2 = shift := by
  induction runs with
  | nil => cases found
  | cons run rest ih =>
      obtain ⟨first, last, stride, other⟩ := run
      rw [smallShift] at found
      split at found
      next => cases found
      next reached =>
        split at found
        next within =>
          cases found
          refine ⟨_, List.mem_cons_self, ?_, rfl⟩
          simpa [isIn, Nat.le_of_not_lt reached] using within
        next =>
          obtain ⟨run, member, within⟩ := ih found
          exact ⟨run, List.mem_cons_of_mem _ member, within⟩

/-- The characters of a small run have no smaller form. -/
theorem fixed_of_isSmall {first length stride k : Nat} (small : isSmall first length stride = true)
    (below : k ≤ length) (step : k % stride = 0) : Fixed (Char.ofNat (first + k)) := by
  simp only [isSmall, Bool.and_eq_true, Bool.or_eq_true, Nat.blt_eq, Nat.ble_eq] at small
  obtain ⟨⟨character, undotted⟩, apart⟩ := small
  have valid : (first + k).isValidChar := by
    rw [Nat.isValidChar]
    omega
  rw [Fixed, smallChar, toNat_ofNat valid, if_neg (by omega)]
  cases found : smallShift (first + k) capitalRuns with
  | none => rfl
  | some shift =>
      obtain ⟨run, listed, within, _⟩ := isIn_of_smallShift found
      have outside := List.all_eq_true.mp apart run listed
      have reached : k / stride < length / stride + 1 :=
        Nat.lt_succ_of_le (Nat.div_le_div_right below)
      have same : k / stride * stride = k := Nat.div_mul_cancel (Nat.dvd_of_mod_eq_zero step)
      simp only [Bool.or_eq_true, Nat.blt_eq, List.all_eq_true, List.mem_range,
        Bool.not_eq_true'] at outside
      rcases outside with (before | after) | missed
      · simp only [isIn, Bool.and_eq_true, Nat.ble_eq] at within
        omega
      · simp only [isIn, Bool.and_eq_true, Nat.ble_eq] at within
        omega
      · rw [← same, missed _ reached] at within
        cases within

/-- What a character becomes when it is made small has no smaller form. -/
theorem fixed_of_mem_smallChar {c small : Char} (member : small ∈ smallChar c) : Fixed small := by
  rw [smallChar] at member
  split at member
  next =>
    rcases List.mem_cons.mp member with rfl | other
    · decide +kernel
    · obtain rfl := List.mem_singleton.mp other
      decide +kernel
  next undotted =>
    cases found : smallShift c.toNat capitalRuns with
    | none =>
        rw [found] at member
        obtain rfl := List.mem_singleton.mp member
        rw [Fixed, smallChar, if_neg undotted, found]
    | some shift =>
        rw [found] at member
        obtain rfl := List.mem_singleton.mp member
        obtain ⟨run, listed, within, rfl⟩ := isIn_of_smallShift found
        simp only [isIn, Bool.and_eq_true, Nat.ble_eq, beq_iff_eq] at within
        obtain ⟨⟨above, below⟩, step⟩ := within
        have start := nonneg_capitalRuns run listed
        have image : ((c.toNat : Int) + run.2.2.2).toNat =
            ((run.1 : Int) + run.2.2.2).toNat + (c.toNat - run.1) := by omega
        rw [image]
        exact fixed_of_isSmall (isSmall_capitalRuns run listed) (by omega) step

/-! ## Texts -/

/-- No character of a text that is made small has a smaller form. -/
theorem fixed_of_mem_smallFrom {text before : List Char} {small : Char}
    (member : small ∈ smallFrom before text) : Fixed small := by
  induction text generalizing before with
  | nil => cases member
  | cons c rest ih =>
      rw [smallFrom, List.mem_append] at member
      rcases member with own | later
      · split at own
        next =>
          -- a capital sigma becomes one of the two small ones
          obtain rfl := List.mem_singleton.mp own
          split
          next => decide +kernel
          next => decide +kernel
        next => exact fixed_of_mem_smallChar own
      · exact ih later

/-- A text of which no character has a smaller form is left as it is. -/
theorem smallFrom_eq_self {text : List Char} (fixed : ∀ c ∈ text, Fixed c) (before : List Char) :
    smallFrom before text = text := by
  induction text generalizing before with
  | nil => rfl
  | cons c rest ih =>
      rw [List.forall_mem_cons] at fixed
      have capital : ¬ Fixed (Char.ofNat 0x3A3) := by decide +kernel
      have small : c.toNat ≠ 0x3A3 := by
        intro sigma
        rw [← sigma, c.ofNat_toNat] at capital
        exact capital fixed.1
      have same : smallChar c = [c] := fixed.1
      rw [smallFrom, if_neg small, same, ih fixed.2]
      rfl

/-- **Small letters stay as they are.** -/
@[simp]
theorem toSmall_toSmall (text : String) : toSmall (toSmall text) = toSmall text := by
  rw [toSmall, toSmall, String.toList_ofList]
  exact congrArg _ (smallFrom_eq_self (fun _ => fixed_of_mem_smallFrom) [])

end Relay.Text
