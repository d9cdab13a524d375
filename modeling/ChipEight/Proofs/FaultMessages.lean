import ChipEight.Fault

/-!
# What a fault message tells

A user sees the message of a fault and nothing else. `Fault.message_inj` says that nothing is lost
on the way: faults with the same message are the same fault, of the same kind and with the same
facts.

A message is the `Fault.opening` of its kind, followed by the `Fault.details`. No two openings begin
with the same two letters, so the kind can be told. In the details a numeral ends the message or is
followed by a blank. No numeral contains a blank, so its end can be told, too; and whatever zeros
it starts with, it stands for one number only.
-/

namespace ChipEight

/-! ### Hexadecimal numerals -/

namespace Hexadecimal

/-- The value of a digit. -/
def digitValue (c : Char) : Nat :=
  if c.toNat < 'A'.toNat then c.toNat - '0'.toNat else c.toNat - 'A'.toNat + 10

/-- The number for which a numeral stands. -/
def value (numeral : List Char) : Nat :=
  numeral.foldl (fun n c => 16 * n + digitValue c) 0

theorem digitValue_digit : ∀ d < 16, digitValue (digit d) = d := by
  decide

theorem digit_ne_blank : ∀ d < 16, digit d ≠ ' ' := by
  decide

theorem value_concat (numeral : List Char) (c : Char) :
    value (numeral ++ [c]) = 16 * value numeral + digitValue c := by
  rw [value, List.foldl_append]
  rfl

theorem value_digits (n : Nat) : value (digits n) = n := by
  -- `digits` writes the last digit behind the others, and `value` reads it last
  induction n using digits.induct with
  | case1 n h =>
    rw [digits_of_lt h, ← List.nil_append [digit n], value_concat, digitValue_digit n h]
    exact Nat.zero_add n
  | case2 n h ih =>
    rw [digits_of_le (Nat.le_of_not_lt h), value_concat, ih,
      digitValue_digit _ (Nat.mod_lt n (by decide))]
    exact Nat.div_add_mod n 16

/-- Zeros in front of a numeral do not count. -/
theorem value_zeros (zeros : Nat) (numeral : List Char) :
    value (List.replicate zeros '0' ++ numeral) = value numeral := by
  induction zeros with
  | zero => rfl
  | succ zeros ih => exact ih

theorem value_padded (width n : Nat) : value (padded width n).toList = n := by
  rw [padded, String.toList_ofList, List.leftpad, value_zeros, value_digits]

/-- A numeral that is filled up with zeros stands for one number only. -/
theorem prefixed_injective (width : Nat) : Function.Injective (prefixed width) := by
  intro n n' h
  have hpadded : padded width n = padded width n' := (String.append_right_inj "0x").1 h
  rw [← value_padded width n, hpadded, value_padded]

theorem blank_not_mem_digits (n : Nat) : ' ' ∉ digits n := by
  induction n using digits.induct with
  | case1 n h =>
    rw [digits_of_lt h, List.mem_singleton]
    exact (digit_ne_blank n h).symm
  | case2 n h ih =>
    rw [digits_of_le (Nat.le_of_not_lt h), List.mem_append, List.mem_singleton, not_or]
    exact ⟨ih, (digit_ne_blank _ (Nat.mod_lt n (by decide))).symm⟩

theorem blank_not_mem_prefixed (width n : Nat) : ' ' ∉ (prefixed width n).toList := by
  rw [prefixed, padded, String.toList_append, String.toList_ofList, List.leftpad]
  simp [blank_not_mem_digits]

end Hexadecimal

namespace Fault

/-! ### Decimal numerals and blanks -/

theorem decimal_injective : Function.Injective (toString : Nat → String) := by
  intro n n' h
  rw [Nat.toString_eq_ofList_toDigits, Nat.toString_eq_ofList_toDigits] at h
  have hdigits : Nat.toDigits 10 n = Nat.toDigits 10 n' := String.ofList_inj.1 h
  rw [← Nat.ofDigitChars_ten_toDigits (n := n), hdigits, Nat.ofDigitChars_ten_toDigits]

theorem blank_not_mem_decimal (n : Nat) : ' ' ∉ (toString n).toList := by
  intro hblank
  rw [Nat.toString_eq_ofList_toDigits, String.toList_ofList] at hblank
  have hdigit := Nat.isDigit_of_mem_toDigits (by decide) (by decide) hblank
  exact absurd hdigit (by decide)

/-- What stands before the first blank can be told from a text, and then also what comes behind
words that begin with that blank. -/
theorem append_inj_of_blank {a a' words s s' : String} (hwords : words.toList.head? = some ' ')
    (ha : ' ' ∉ a.toList) (ha' : ' ' ∉ a'.toList) (h : a ++ (words ++ s) = a' ++ (words ++ s')) :
    a = a' ∧ s = s' := by
  obtain ⟨rest, hrest⟩ := List.head?_eq_some_iff.1 hwords
  -- cutting a text at its first blank leaves what stands before the words
  have hcut {a s : String} (ha : ' ' ∉ a.toList) :
      (a ++ (words ++ s)).toList.takeWhile (· ≠ ' ') = a.toList := by
    rw [String.toList_append, String.toList_append, hrest, List.cons_append,
      List.takeWhile_append_of_pos, List.takeWhile_cons_of_neg (by decide), List.append_nil]
    intro c hc
    rw [decide_eq_true_eq]
    rintro rfl
    exact ha hc
  obtain rfl : a = a' := by
    rw [← String.toList_inj, ← hcut ha, h, hcut ha']
  exact ⟨rfl, (String.append_right_inj words).1 ((String.append_right_inj a).1 h)⟩

/-! ### The parts of a message -/

/-- The words with which all messages of a kind begin. -/
def opening : Fault → String
  | programTooLarge .. => "program is too large ("
  | unknownOpcode .. => "unknown opcode "
  | stackUnderflow .. => "return with an empty call stack at "
  | stackOverflow .. => "call stack exceeded "
  | memoryOutOfBounds .. => "memory access out of bounds at "
  | invalidConfig .. => "invalid configuration: "
  | platform .. => "platform error: "

/-- What a message tells after its opening. -/
def details : Fault → String
  | programTooLarge size max =>
    toString size ++ (" bytes), max size is " ++ (toString max ++ " bytes"))
  | unknownOpcode opcode address =>
    Hexadecimal.prefixed 4 opcode.toNat ++ (" at " ++ codeAddress address)
  | stackUnderflow address => codeAddress address
  | stackOverflow address limit => toString limit ++ (" levels at " ++ codeAddress address)
  | memoryOutOfBounds address => Hexadecimal.prefixed 4 address
  | invalidConfig reason => reason
  | platform text => text

theorem message_eq (f : Fault) : f.message = f.opening ++ f.details := by
  unfold message opening details
  cases f <;> simp only [String.append_assoc, toString]

/-- The two letters with which all messages of a kind begin, and no others. -/
def initials : Fault → List Char
  | programTooLarge .. => ['p', 'r']
  | unknownOpcode .. => ['u', 'n']
  | stackUnderflow .. => ['r', 'e']
  | stackOverflow .. => ['c', 'a']
  | memoryOutOfBounds .. => ['m', 'e']
  | invalidConfig .. => ['i', 'n']
  | platform .. => ['p', 'l']

theorem take_message (f : Fault) : f.message.toList.take 2 = f.initials := by
  rw [message_eq, String.toList_append]
  cases f <;> simp [opening, initials]

/-- The opening of a message can be told from its initials. -/
theorem opening_eq_of_message {f g : Fault} (h : f.message = g.message) :
    f.opening = g.opening := by
  have hinitials : f.initials = g.initials := by
    rw [← take_message, h, take_message]
  cases f <;> cases g <;> first | rfl | simp [initials] at hinitials

theorem codeAddress_injective : Function.Injective codeAddress :=
  fun _ _ h => UInt16.toNat_inj.1 (Hexadecimal.prefixed_injective 3 h)

/-- Faults have the same message only if they are equal: a message tells the kind of the fault and
all its facts. -/
theorem message_inj {f g : Fault} : f.message = g.message ↔ f = g := by
  refine ⟨fun h => ?_, fun h => congrArg message h⟩
  -- the initials tell the opening, and behind equal openings stand equal details
  have hopening := opening_eq_of_message h
  have hdetails : f.details = g.details := by
    rw [message_eq, message_eq, hopening] at h
    exact (String.append_right_inj _).1 h
  cases f <;> cases g
  case programTooLarge.programTooLarge size max size' max' =>
    obtain ⟨hsize, hrest⟩ := append_inj_of_blank rfl (blank_not_mem_decimal size)
      (blank_not_mem_decimal size') hdetails
    have hmax : toString max = toString max' := (String.append_left_inj " bytes").1 hrest
    rw [decimal_injective hsize, decimal_injective hmax]
  case unknownOpcode.unknownOpcode opcode address opcode' address' =>
    obtain ⟨hdigits, haddress⟩ := append_inj_of_blank rfl
      (Hexadecimal.blank_not_mem_prefixed 4 opcode.toNat)
      (Hexadecimal.blank_not_mem_prefixed 4 opcode'.toNat) hdetails
    have hopcode : opcode = opcode' :=
      UInt16.toNat_inj.1 (Hexadecimal.prefixed_injective 4 hdigits)
    rw [hopcode, codeAddress_injective haddress]
  case stackUnderflow.stackUnderflow address address' =>
    exact congrArg stackUnderflow (codeAddress_injective hdetails)
  case stackOverflow.stackOverflow address limit address' limit' =>
    obtain ⟨hlimit, haddress⟩ := append_inj_of_blank rfl (blank_not_mem_decimal limit)
      (blank_not_mem_decimal limit') hdetails
    rw [decimal_injective hlimit, codeAddress_injective haddress]
  case memoryOutOfBounds.memoryOutOfBounds address address' =>
    exact congrArg memoryOutOfBounds (Hexadecimal.prefixed_injective 4 hdetails)
  case invalidConfig.invalidConfig reason reason' => exact congrArg invalidConfig hdetails
  case platform.platform text text' => exact congrArg platform hdetails
  -- the other pairs are of two kinds, with two openings
  all_goals simp [opening] at hopening

end Fault

end ChipEight
