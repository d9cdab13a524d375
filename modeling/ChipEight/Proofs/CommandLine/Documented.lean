import ChipEight.Proofs.CommandLine.Spelling

/-!
# What is documented about the parser

The parser of the command line is derived from the declarations of the options by a library.
`Documented` says of a parser what that library documents: what is accepted first, and then how one
option more changes the answer, wherever it stands and however it is written. What follows from
these rules holds of every such parser. `CommandLine.parse` is one of them
(`documented_parse` in the module `Proofs.CommandLine.Parser`).

A value is given as a text. Which texts are numbers, and which numbers an option takes, is not for
the library to say (`NumberOption.value?`).
-/

namespace ChipEight

namespace Settings

/-- The number of an option, if there is one. -/
def value (s : Settings) : CommandLine.NumberOption → Option Nat
  | .rate => some s.rate
  | .scale => some s.scale
  | .seed => s.seed
  | .stackLimit => s.stackLimit

/-- The settings with another number for an option. -/
def set (s : Settings) (option : CommandLine.NumberOption) (n : Nat) : Settings :=
  match option with
  | .rate => { s with rate := n }
  | .scale => { s with scale := n }
  | .seed => { s with seed := some n }
  | .stackLimit => { s with stackLimit := some n }

theorem value_set (s : Settings) (option option' : CommandLine.NumberOption) (n : Nat) :
    (s.set option n).value option' = if option' = option then some n else s.value option' := by
  cases option <;> cases option' <;> rfl

@[simp] theorem program_set (s : Settings) (option : CommandLine.NumberOption) (n : Nat) :
    (s.set option n).program = s.program := by
  cases option <;> rfl

@[simp] theorem normalizeShiftFlag_set (s : Settings) (option : CommandLine.NumberOption)
    (n : Nat) : (s.set option n).normalizeShiftFlag = s.normalizeShiftFlag := by
  cases option <;> rfl

/-- Settings are told apart by the program, the numbers and the switch. -/
theorem ext_value {s s' : Settings} (hprogram : s.program = s'.program)
    (hvalue : ∀ option, s.value option = s'.value option)
    (hflag : s.normalizeShiftFlag = s'.normalizeShiftFlag) : s = s' := by
  obtain ⟨program, rate, scale, seed, stackLimit, flag⟩ := s
  obtain ⟨program', rate', scale', seed', stackLimit', flag'⟩ := s'
  obtain rfl : program = program' := hprogram
  obtain rfl : flag = flag' := hflag
  obtain rfl : rate = rate' := Option.some.inj (hvalue .rate)
  obtain rfl : scale = scale' := Option.some.inj (hvalue .scale)
  obtain rfl : seed = seed' := hvalue .seed
  obtain rfl : stackLimit = stackLimit' := hvalue .stackLimit
  rfl

end Settings

namespace CommandLine

/-! ### Options on a line -/

/-- The argument starts like this option. -/
def OptionName.StartsIn (name : OptionName) (argument : String) : Prop :=
  name.inFull.toList <+: argument.toList ∨
    ∃ letter, name.short = some letter ∧ ['-', letter] <+: argument.toList

/-- None of the arguments in front of `--` starts like this option. -/
def OptionName.Absent (name : OptionName) (line : List String) : Prop :=
  ∀ argument ∈ line.takeWhile (· ≠ "--"), ¬ name.StartsIn argument

/-- The text can stand for the value of an option in every spelling: it starts with neither `-` nor
`=`. -/
def IsValue (text : String) : Prop :=
  ∃ first rest, text.toList = first :: rest ∧ first ≠ '-' ∧ first ≠ '='

/-- An option on a line, with the text of its value. -/
inductive Occurrence where
  /-- An option that takes a number. -/
  | number (option : NumberOption) (text : String)
  /-- The switch that changes the flag of a left shift. -/
  | normalizeShiftFlag
deriving DecidableEq, Repr

namespace Occurrence

/-- The option that occurs. -/
def name : Occurrence → OptionName
  | number option _ => .number option
  | normalizeShiftFlag => .switch .normalizeShiftFlag

/-- The ways to write the option. -/
inductive Written : Occurrence → List String → Prop where
  | number {option : NumberOption} {text : String} {arguments : List String}
      (hvalue : IsValue text) (hspelled : option.Spelled text arguments) :
      Written (.number option text) arguments
  | normalizeShiftFlag :
      Written .normalizeShiftFlag [(OptionName.switch .normalizeShiftFlag).inFull]

/-- What becomes of settings that did not have the option yet. -/
def addTo (settings : Settings) : Occurrence → Except Exit Settings
  | number option text =>
    match option.value? text.toList with
    | none => .error .badValue
    | some n => .ok (settings.set option n)
  | normalizeShiftFlag => .ok { settings with normalizeShiftFlag := true }

end Occurrence

/-- What is documented about a parser that is derived from the declarations of the options. -/
structure Documented (parser : List String → Except Exit Settings) : Prop where
  /-- The program is all that is required, and an option that is not given has its default. -/
  program {path : String} (hplain : IsPlain path) : parser [path] = .ok (.default path)
  /-- Behind `--` an argument is no option, whatever it looks like. -/
  escaped {path : String} (hpath : path ≠ "") : parser ["--", path] = .ok (.default path)
  /-- An option may stand in front of what is accepted without it. -/
  before {line piece : List String} {settings : Settings} {occurrence : Occurrence}
    (haccepted : parser line = .ok settings) (hnew : occurrence.name.Absent line)
    (hwritten : occurrence.Written piece) : parser (piece ++ line) = occurrence.addTo settings
  /-- An option may stand behind what is accepted without it, unless `--` has ended the options. -/
  behind {line piece : List String} {settings : Settings} {occurrence : Occurrence}
    (haccepted : parser line = .ok settings) (hnew : occurrence.name.Absent line)
    (hopen : "--" ∉ line) (hwritten : occurrence.Written piece) :
    parser (line ++ piece) = occurrence.addTo settings
  /-- Every number that is given has been checked against the range of its option, and the defaults
  are checked as well. -/
  inRange {line : List String} {settings : Settings} (haccepted : parser line = .ok settings)
    {option : NumberOption} {n : Nat} (hvalue : settings.value option = some n) :
    (Item.number option n).InRange
  /-- A path is not empty. -/
  path {line : List String} {settings : Settings} (haccepted : parser line = .ok settings) :
    settings.program ≠ ""

/-! ### Which options an argument starts like -/

section
variable {name other : OptionName} {line line' : List String}

theorem OptionName.Absent.append (h : name.Absent line) (h' : name.Absent line') :
    name.Absent (line ++ line') := by
  intro argument hargument
  rw [List.takeWhile_append] at hargument
  split at hargument
  · next hlength =>
    have hall : line.takeWhile (· ≠ "--") = line :=
      (List.takeWhile_prefix _).eq_of_length hlength
    rcases List.mem_append.1 hargument with hmem | hmem
    · exact h argument (hall.symm ▸ hmem)
    · exact h' argument hmem
  · exact h argument hargument

theorem OptionName.absent_cons_iff {argument : String} (hdashes : argument ≠ "--") :
    name.Absent (argument :: line) ↔ ¬ name.StartsIn argument ∧ name.Absent line := by
  unfold Absent
  rw [List.takeWhile_cons_of_pos (by simpa using hdashes), List.forall_mem_cons]

theorem OptionName.absent_of_forall (h : ∀ argument ∈ line, ¬ name.StartsIn argument) :
    name.Absent line :=
  fun argument hargument => h argument ((List.takeWhile_prefix _).subset hargument)

/-- Every option starts with a dash. -/
theorem OptionName.StartsIn.head?_eq {argument : String} (h : name.StartsIn argument) :
    argument.toList.head? = some '-' := by
  rcases h with ⟨rest, hrest⟩ | ⟨letter, -, rest, hrest⟩
  · rw [← hrest, inFull, String.toList_append]
    rfl
  · rw [← hrest]
    rfl

theorem IsValue.head?_ne {text : String} (h : IsValue text) : text.toList.head? ≠ some '-' := by
  obtain ⟨first, rest, htext, hdash, -⟩ := h
  rw [htext]
  exact fun hfirst => hdash (Option.some.inj hfirst)

/-- A text without `=` that is a prefix of one with `=` ends in front of it. -/
theorem prefix_of_prefix_append_equals {l l' rest : List Char} (hequals : '=' ∉ l)
    (h : l <+: l' ++ '=' :: rest) : l <+: l' := by
  rcases Nat.lt_or_ge l'.length l.length with hlt | hle
  · have hstarts : l' ++ ['='] <+: l' ++ '=' :: rest := ⟨rest, by simp⟩
    have hlonger : l' ++ ['='] <+: l :=
      List.prefix_of_prefix_length_le hstarts h (by simpa using Nat.succ_le_of_lt hlt)
    exact absurd (hlonger.subset (by simp)) hequals
  · exact List.prefix_of_prefix_length_le h (List.prefix_append _ _) hle

theorem OptionName.mem_all (name : OptionName) : name ∈ all := by
  rcases name with option | switch
  · cases option <;> decide
  · cases switch <;> decide

/-- The argument is this option, in full or with its letter, with a value behind it or without. -/
inductive OptionName.Forms (name : OptionName) (argument : String) : Prop where
  | full (rest : List Char) (hargument : argument.toList = name.inFull.toList ++ rest)
      (hrest : rest = [] ∨ ∃ value, rest = '=' :: value)
  | short (letter : Char) (rest : List Char) (hletter : name.short = some letter)
      (hargument : argument.toList = '-' :: letter :: rest)

/-- No option starts like another one. -/
theorem OptionName.Forms.not_startsIn {argument : String} (h : other.Forms argument)
    (hne : name ≠ other) : ¬ name.StartsIn argument := by
  have hlong : ∀ name ∈ all, ∀ other ∈ all, name ≠ other →
      '=' ∉ name.inFull.toList ∧ ¬ name.inFull.toList <+: other.inFull.toList := by decide
  have hshort : ∀ name ∈ all, ∀ other ∈ all, name ≠ other → name.short ≠ some '-' ∧
      other.short ≠ some '-' ∧ (other.short = none ∨ name.short ≠ other.short) := by decide
  obtain ⟨hequals, hdiffers⟩ := hlong name name.mem_all other other.mem_all hne
  obtain ⟨hdash, hdash', hdiffers'⟩ := hshort name name.mem_all other other.mem_all hne
  unfold StartsIn
  cases h with
  | full rest hargument hrest =>
    rw [hargument]
    rintro (hstarts | ⟨letter, hletter, hstarts⟩)
    · rcases hrest with rfl | ⟨value, rfl⟩
      · rw [List.append_nil] at hstarts
        exact hdiffers hstarts
      · exact hdiffers (prefix_of_prefix_append_equals hequals hstarts)
    · -- the second character of an option in full is a dash, which is no letter
      rw [inFull, String.toList_append] at hstarts
      obtain ⟨-, hsecond⟩ := List.cons_prefix_cons.1 hstarts
      have hletter' : letter = '-' := (List.cons_prefix_cons.1 hsecond).1
      exact hdash (hletter' ▸ hletter)
  | short letter rest hletter hargument =>
    rw [hargument]
    rintro (hstarts | ⟨letter', hletter', hstarts⟩)
    · rw [inFull, String.toList_append] at hstarts
      obtain ⟨-, hsecond⟩ := List.cons_prefix_cons.1 hstarts
      have hletter' : '-' = letter := (List.cons_prefix_cons.1 hsecond).1
      exact hdash' (hletter' ▸ hletter)
    · have hsame : letter' = letter := by simpa using hstarts
      rw [hletter, hletter', hsame] at hdiffers'
      simp at hdiffers'

/-- No option is `--` alone. -/
theorem OptionName.Forms.ne_dashes {argument : String} (h : name.Forms argument) :
    argument ≠ "--" := by
  have hall : ∀ name ∈ all, 2 < name.inFull.toList.length ∧ name.short ≠ some '-' := by decide
  -- a name is longer than the dashes in front of it, and no letter is a dash
  obtain ⟨hlong, hshort⟩ := hall name name.mem_all
  rintro rfl
  cases h with
  | full rest hargument =>
    have hlength := congrArg List.length hargument
    rw [List.length_append] at hlength
    have hdashes : "--".toList.length = 2 := rfl
    omega
  | short letter rest hletter hargument =>
    have hletter' : '-' = letter := (List.cons.inj (List.cons.inj hargument).2).1
    exact hshort (hletter' ▸ hletter)

theorem forms_inFull (name : OptionName) : name.Forms name.inFull :=
  .full [] (List.append_nil _).symm (.inl rfl)

/-- However an option is written, each of its arguments is the option or its value. -/
theorem NumberOption.Spelled.forms {option : NumberOption} {text : String} {piece : List String}
    (hspelled : option.Spelled text piece) :
    ∀ argument ∈ piece, (OptionName.number option).Forms argument ∨ argument = text := by
  cases hspelled with
  | separate => simp [forms_inFull]
  | joined =>
    refine List.forall_mem_singleton.2 (.inl (.full ('=' :: text.toList) ?_ (.inr ⟨_, rfl⟩)))
    rw [String.toList_append, String.toList_append, List.append_assoc]
    rfl
  | short hletter =>
    refine List.forall_mem_cons.2 ⟨.inl (.short _ [] hletter ?_), by simp⟩
    rw [shortForm, String.toList_ofList]
  | attached hletter =>
    refine List.forall_mem_singleton.2 (.inl (.short _ text.toList hletter ?_))
    rw [String.toList_append, shortForm, String.toList_ofList]
    rfl
  | equated hletter =>
    refine List.forall_mem_singleton.2 (.inl (.short _ ('=' :: text.toList) hletter ?_))
    rw [String.toList_append, String.toList_append, shortForm, String.toList_ofList]
    rfl

end

end CommandLine

end ChipEight
