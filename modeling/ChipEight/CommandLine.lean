import ChipEight.Timestep

/-!
# The command line

The program declares its options: how they are written, which numbers they take
(`NumberOption.declaration`), and what holds where they are not given (`Settings.default`).

`CommandLine.parse` is a parser for these declarations. (What is documented of all such parsers is
stated in the module `Proofs.CommandLine.Documented`.) It reads the arguments of the program into
`Settings`, or gives the reason to exit instead. The arguments are read from left to right. An
option written without `=` is not complete before the argument after it is known, and the name of
the program is not checked at once either. Such an item is *pending*. It is completed, and refused
if it is wrong, when the next item starts or the arguments end. An argument that is wrong by itself
is refused before what is pending.
-/

namespace ChipEight

/-- What the user asked for. -/
structure Settings where
  /-- The path of the program to run. -/
  program : String
  /-- Ticks a second. -/
  rate : Nat
  /-- The width of a pixel of the machine, in pixels of the window. -/
  scale : Nat
  /-- The seed of the random bytes. -/
  seed : Option Nat
  /-- The deepest that calls may nest. -/
  stackLimit : Option Nat
  /-- A left shift leaves 1, not `0x80`, in the flag register. -/
  normalizeShiftFlag : Bool
deriving DecidableEq, Repr

/-- The scale when none is chosen. -/
def CommandLine.defaultScale : Nat := 10

/-- The settings for the program at `path` when no option is given. -/
def Settings.default (path : String) : Settings where
  program := path
  rate := Timestep.defaultRate
  scale := CommandLine.defaultScale
  seed := none
  stackLimit := none
  normalizeShiftFlag := false

namespace CommandLine

/-- Reasons to exit before a program is run. -/
inductive Exit where
  /-- The user asked for help. -/
  | help
  /-- The user asked for the version. -/
  | version
  /-- There is no such option, or there is a second program. -/
  | unknownArgument
  /-- An option has no value, or the program has no name. -/
  | missingValue
  /-- The value of an option is not a number in its range. -/
  | badValue
  /-- An option that takes no value has one. -/
  | unexpectedValue
  /-- An option is given twice. -/
  | repeatedOption
  /-- There is no program. -/
  | missingProgram
deriving DecidableEq, Repr

/-- The exit code of the process. Only mistakes count as failures. -/
def Exit.code : Exit → Nat
  | help | version => 0
  | _ => 2

/-- The options that take a number. -/
inductive NumberOption where
  /-- Ticks a second. -/
  | rate
  /-- Window pixels for a pixel of the machine. -/
  | scale
  /-- The seed of the random bytes. -/
  | seed
  /-- The deepest that calls may nest. -/
  | stackLimit
deriving DecidableEq, Repr

/-- The options that take no value. -/
inductive Switch where
  /-- Show the help. -/
  | help
  /-- Show the version. -/
  | version
  /-- A left shift leaves 1, not `0x80`, in the flag register. -/
  | normalizeShiftFlag
deriving DecidableEq, Repr

/-- An option of either kind. -/
inductive OptionName where
  /-- An option that takes a number. -/
  | number (option : NumberOption)
  /-- An option that takes no value. -/
  | switch (switch : Switch)
deriving DecidableEq, Repr

/-- How an option that takes a number is declared. -/
structure Declaration where
  /-- The name that is written behind two dashes. -/
  long : String
  /-- The letter that is written behind one dash, if there is one. -/
  short : Option Char := none
  /-- The least value. -/
  least : Nat := 0
  /-- The greatest value. -/
  greatest : Nat

/-- The declarations of the options that take a number. The seed and the limit of the stack fill 64
bits. -/
def NumberOption.declaration : NumberOption → Declaration
  | rate => { long := "rate", short := some 'r', least := 1, greatest := Timestep.maxRate }
  | scale => { long := "scale", least := 1, greatest := UInt32.size - 1 }
  | seed => { long := "seed", greatest := UInt64.size - 1 }
  | stackLimit => { long := "stack-limit", greatest := UInt64.size - 1 }

/-- The options that take a number. -/
def NumberOption.all : List NumberOption :=
  [.rate, .scale, .seed, .stackLimit]

/-- All options. -/
def OptionName.all : List OptionName :=
  NumberOption.all.map .number ++
    [.switch .normalizeShiftFlag, .switch .help, .switch .version]

/-- The name that is written behind two dashes. -/
def OptionName.long : OptionName → String
  | number option => option.declaration.long
  | switch .help => "help"
  | switch .version => "version"
  | switch .normalizeShiftFlag => "normalize-shift-flag"

/-- The letter that is written behind one dash, if there is one. -/
def OptionName.short : OptionName → Option Char
  | number option => option.declaration.short
  | switch .help => some 'h'
  | switch .version => some 'V'
  | switch .normalizeShiftFlag => none

/-- The option that is written as two dashes and this name. -/
def OptionName.ofLong? (name : List Char) : Option OptionName :=
  all.find? fun option => decide (option.long.toList = name)

/-- The option that is written as one dash and this letter. -/
def OptionName.ofShort? (letter : Char) : Option OptionName :=
  all.find? fun option => decide (option.short = some letter)

/-! ### Numbers -/

/-- The value of a list of decimal digits that continues a number of value `n`; there is none if
another character occurs. -/
def digitsValue? (n : Nat) : List Char → Option Nat
  | [] => some n
  | c :: rest =>
    if '0' ≤ c ∧ c ≤ '9' then digitsValue? (10 * n + (c.toNat - '0'.toNat)) rest else none

/-- The value of a numeral: at least one decimal digit, after a plus sign or not. -/
def numeralValue? (text : List Char) : Option Nat :=
  let digits := match text with
    | '+' :: rest => rest
    | _ => text
  if digits.isEmpty then none else digitsValue? 0 digits

/-- The value that `text` gives to an option, if it is a numeral in range. -/
def NumberOption.value? (option : NumberOption) (text : List Char) : Option Nat :=
  (numeralValue? text).filter fun n =>
    decide (option.declaration.least ≤ n ∧ n ≤ option.declaration.greatest)

/-! ### Reading the arguments -/

/-- The item that may not be complete yet. -/
inductive Pending where
  /-- No item. -/
  | nothing
  /-- An option, with its value once that was met. -/
  | option (name : NumberOption) (text : Option (List Char))
  /-- The path of the program. -/
  | program (path : List Char)
deriving DecidableEq, Repr

/-- What was read so far. -/
structure State where
  /-- The path of the program. -/
  program : Option (List Char) := none
  /-- The values of the options. -/
  values : NumberOption → Option Nat := fun _ => none
  /-- A left shift was chosen to leave 1 in the flag register. -/
  normalizeShiftFlag : Bool := false
  /-- The item that may not be complete yet. -/
  pending : Pending := .nothing
  /-- Only the program may follow, whatever it looks like. -/
  onlyProgram : Bool := false

namespace State

/-- Gives a value to an option. -/
def store (s : State) (option : NumberOption) (text : List Char) : Except Exit State :=
  -- An option that is given twice is refused whatever its second value is.
  if (s.values option).isSome then .error .repeatedOption
  else
    match option.value? text with
    | none => .error .badValue
    | some n => .ok { s with values := fun o => if o = option then some n else s.values o }

/-- Completes the pending item. -/
def complete (s : State) : Except Exit State :=
  let rest := { s with pending := .nothing }
  match s.pending with
  | .nothing => .ok rest
  | .option _ none => .error .missingValue
  | .option option (some text) => rest.store option text
  | .program path =>
    if path.isEmpty then .error .missingValue else .ok { rest with program := some path }

/-- The path of the program was met. -/
def hasProgram (s : State) : Bool :=
  s.program.isSome || match s.pending with
    | .program _ => true
    | _ => false

/-- Reads an argument that is no option. -/
def readProgram (s : State) (path : List Char) : Except Exit State :=
  if s.hasProgram then .error .unknownArgument
  else
    match s.complete with
    | .error exit => .error exit
    | .ok s => .ok { s with pending := .program path }

/-- Reads an option that takes a number, with the value written in the same argument, if one is. -/
def readNumber (s : State) (option : NumberOption) (text : Option (List Char)) :
    Except Exit State :=
  match s.complete with
  | .error exit => .error exit
  | .ok s =>
    match text with
    | none => .ok { s with pending := .option option none }
    | some text => s.store option text

/-- Reads an option that takes no value. -/
def readSwitch (s : State) (switch : Switch) : Except Exit State :=
  match s.complete with
  | .error exit => .error exit
  | .ok s =>
    match switch with
    | .help => .error .help
    | .version => .error .version
    | .normalizeShiftFlag =>
      if s.normalizeShiftFlag then .error .repeatedOption
      else .ok { s with normalizeShiftFlag := true }

/-- Reads an argument that starts with two dashes, which are left out. What follows the first `=`
is the value. -/
def readLong (s : State) (text : List Char) : Except Exit State :=
  let value := match text.dropWhile (· ≠ '=') with
    | [] => none
    | _ :: value => some value
  match OptionName.ofLong? (text.takeWhile (· ≠ '=')), value with
  | none, _ => .error .unknownArgument
  | some (.number option), value => s.readNumber option value
  | some (.switch _), some _ => .error .unexpectedValue
  | some (.switch switch), none => s.readSwitch switch

/-- Reads an argument that starts with one dash, which is left out, and the letter `letter`. The
rest is the value of an option that takes a number; one `=` in front of it does not count. -/
def readShort (s : State) (letter : Char) (rest : List Char) : Except Exit State :=
  match OptionName.ofShort? letter with
  | none => .error .unknownArgument
  | some (.switch switch) => s.readSwitch switch
  | some (.number option) =>
    s.readNumber option (match rest with
      | [] => none
      | '=' :: value => some value
      | value => some value)

/-- Reads an argument that looks like a value: it goes to the option that waits for one, or is the
path of the program. -/
def readPlain (s : State) (text : List Char) : Except Exit State :=
  match s.pending with
  | .option option none => .ok { s with pending := .option option (some text) }
  | _ => s.readProgram text

/-- Reads one argument. -/
def read (s : State) (argument : List Char) : Except Exit State :=
  if s.onlyProgram then s.readProgram argument
  else
    match argument with
    | ['-', '-'] => .ok { s with onlyProgram := true }
    | '-' :: '-' :: text => s.readLong text
    | '-' :: letter :: rest => s.readShort letter rest
    | text => s.readPlain text

/-- Reads all arguments in order, up to the first that is refused. -/
def readAll (s : State) : List (List Char) → Except Exit State
  | [] => .ok s
  | argument :: rest =>
    match s.read argument with
    | .error exit => .error exit
    | .ok s => s.readAll rest

/-- The settings once all arguments were read, with defaults for the options not given. -/
def settings (s : State) : Except Exit Settings :=
  match s.complete with
  | .error exit => .error exit
  | .ok s =>
    match s.program with
    | none => .error .missingProgram
    | some path =>
      let unset := Settings.default (String.ofList path)
      .ok
        { unset with
          rate := (s.values .rate).getD unset.rate
          scale := (s.values .scale).getD unset.scale
          seed := s.values .seed
          stackLimit := s.values .stackLimit
          normalizeShiftFlag := s.normalizeShiftFlag }

end State

/-- Reads the arguments of the program, its own name left out. -/
def parse (arguments : List String) : Except Exit Settings :=
  match ({} : State).readAll (arguments.map String.toList) with
  | .error exit => .error exit
  | .ok s => s.settings

end CommandLine

end ChipEight
