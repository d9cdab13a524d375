import ChipEight.CommandLine
import Mathlib.Data.List.Forall2

/-!
# Writing the command line

An `Item` is something that is given on the command line as a whole: the program, an option with its
number, or the switch. `Item.Written` lists the ways to write it as arguments, and `Gives` the ways
to write several items, in any order. A number is written as a decimal numeral (`IsNumeral`), which
is read back as that number whatever zeros or sign it starts with.
-/

namespace ChipEight.CommandLine

/-! ### Items and how they are written -/

/-- The text is the decimal numeral of `n`, after any number of zeros, with a plus sign or not. -/
def IsNumeral (n : Nat) (text : String) : Prop :=
  ∃ zeros, text = String.ofList (List.replicate zeros '0') ++ toString n ∨
    text = "+" ++ String.ofList (List.replicate zeros '0') ++ toString n

/-- The path is not empty and does not look like an option. -/
def IsPlain (path : String) : Prop :=
  path ≠ "" ∧ path.toList.head? ≠ some '-'

/-- How an option is written in full. -/
def OptionName.inFull (name : OptionName) : String :=
  "--" ++ name.long

/-- How an option is written with its letter. -/
def shortForm (letter : Char) : String :=
  String.ofList ['-', letter]

/-- The ways to write an option with the value `text`. Those with a letter are for the options that
have one. -/
inductive NumberOption.Spelled (text : String) : NumberOption → List String → Prop where
  | separate (option : NumberOption) : Spelled text option [(OptionName.number option).inFull, text]
  | joined (option : NumberOption) :
      Spelled text option [(OptionName.number option).inFull ++ "=" ++ text]
  | short {option : NumberOption} {letter : Char}
      (hletter : option.declaration.short = some letter) :
      Spelled text option [shortForm letter, text]
  | attached {option : NumberOption} {letter : Char}
      (hletter : option.declaration.short = some letter) :
      Spelled text option [shortForm letter ++ text]
  | equated {option : NumberOption} {letter : Char}
      (hletter : option.declaration.short = some letter) :
      Spelled text option [shortForm letter ++ "=" ++ text]

/-- Something that is given on the command line. -/
inductive Item where
  /-- The program at this path. -/
  | program (path : String)
  /-- The option with the number `n`. -/
  | number (option : NumberOption) (n : Nat)
  /-- The switch that changes the flag of a left shift. -/
  | normalizeShiftFlag
deriving DecidableEq, Repr

/-- A number is in the range of its option. -/
def Item.InRange : Item → Prop
  | number option n => option.declaration.least ≤ n ∧ n ≤ option.declaration.greatest
  | program _ | normalizeShiftFlag => True

/-- The option that is given, or none for the program. -/
def Item.name? : Item → Option OptionName
  | program _ => none
  | number option _ => some (.number option)
  | normalizeShiftFlag => some (.switch .normalizeShiftFlag)

/-- The ways to write an item. -/
inductive Item.Written : Item → List String → Prop where
  | program {path : String} (hplain : IsPlain path) : Written (.program path) [path]
  | number {option : NumberOption} {n : Nat} {text : String} {arguments : List String}
      (hnumeral : IsNumeral n text) (hspelled : option.Spelled text arguments) :
      Written (.number option n) arguments
  | normalizeShiftFlag :
      Written .normalizeShiftFlag [(OptionName.switch .normalizeShiftFlag).inFull]

/-- The arguments give the items, each of them once, in any order and written in any way. -/
def Gives (items : List Item) (arguments : List String) : Prop :=
  ∃ order pieces, order.Perm items ∧ List.Forall₂ Item.Written order pieces ∧
    arguments = pieces.flatten

/-! ### Numerals -/

theorem digitsValue?_eq_some {text : List Char} (h : ∀ c ∈ text, c.isDigit = true) (n : Nat) :
    digitsValue? n text = some (Nat.ofDigitChars 10 text n) := by
  induction text generalizing n with
  | nil => rw [digitsValue?, Nat.ofDigitChars_nil]
  | cons c rest ih =>
    obtain ⟨hc, hrest⟩ := List.forall_mem_cons.1 h
    have hdigit : '0' ≤ c ∧ c ≤ '9' := by
      simpa [Char.isDigit, Char.le_def] using hc
    rw [digitsValue?, if_pos hdigit, ih hrest, Nat.ofDigitChars_cons]

/-- Decimal digits are read as the number that they stand for, with a plus sign or not. -/
theorem numeralValue?_of_digits {digits : List Char} (hne : digits ≠ [])
    (h : ∀ c ∈ digits, c.isDigit = true) :
    numeralValue? digits = some (Nat.ofDigitChars 10 digits 0) ∧
      numeralValue? ('+' :: digits) = some (Nat.ofDigitChars 10 digits 0) := by
  obtain ⟨c, rest, rfl⟩ := List.exists_cons_of_ne_nil hne
  have hsign : c ≠ '+' := by
    rintro rfl
    exact absurd (h '+' List.mem_cons_self) (by decide)
  have hvalue := digitsValue?_eq_some h 0
  constructor
  · simpa [numeralValue?, hsign] using hvalue
  · exact hvalue

namespace IsNumeral

variable {n : Nat} {text : String}

theorem exists_digits (h : IsNumeral n text) :
    ∃ digits, digits ≠ [] ∧ (∀ c ∈ digits, c.isDigit = true) ∧ Nat.ofDigitChars 10 digits 0 = n ∧
      (text.toList = digits ∨ text.toList = '+' :: digits) := by
  obtain ⟨zeros, htext⟩ := h
  -- the zeros in front are digits like the others, and add nothing to the value
  refine ⟨List.replicate zeros '0' ++ Nat.toDigits 10 n, ?_, fun c hc => ?_, ?_, ?_⟩
  · exact List.append_ne_nil_of_right_ne_nil _ Nat.toDigits_ne_nil
  · rcases List.mem_append.1 hc with hzero | hdigit
    · rw [List.eq_of_mem_replicate hzero]
      rfl
    · exact Nat.isDigit_of_mem_toDigits (by decide) (by decide) hdigit
  · rw [Nat.ofDigitChars_append, Nat.ofDigitChars_replicate_zero, Nat.mul_zero,
      Nat.ofDigitChars_ten_toDigits]
  · rcases htext with rfl | rfl
    · left
      simp
    · right
      simp

theorem numeralValue? (h : IsNumeral n text) : numeralValue? text.toList = some n := by
  obtain ⟨digits, hne, hdigits, rfl, htext | htext⟩ := h.exists_digits
  · rw [htext, (numeralValue?_of_digits hne hdigits).1]
  · rw [htext, (numeralValue?_of_digits hne hdigits).2]

/-- A numeral cannot be taken for an option, nor for the sign before a value. -/
theorem exists_first (h : IsNumeral n text) :
    ∃ first rest, text.toList = first :: rest ∧ first ≠ '-' ∧ first ≠ '=' := by
  obtain ⟨digits, hne, hdigits, -, htext | htext⟩ := h.exists_digits
  · obtain ⟨c, rest, rfl⟩ := List.exists_cons_of_ne_nil hne
    have hc := hdigits c List.mem_cons_self
    refine ⟨c, rest, htext, ?_, ?_⟩ <;> rintro rfl <;> exact absurd hc (by decide)
  · exact ⟨'+', digits, htext, by decide, by decide⟩

end IsNumeral

/-- A number in its range is taken, and any other number is refused. -/
theorem NumberOption.value?_of_isNumeral {option : NumberOption} {n : Nat} {text : String}
    (h : IsNumeral n text) :
    option.value? text.toList =
      if option.declaration.least ≤ n ∧ n ≤ option.declaration.greatest then some n else none := by
  rw [value?, h.numeralValue?, Option.filter_some]
  simp only [decide_eq_true_eq]

end ChipEight.CommandLine
