import ChipEight.CommandLine

/-!
# Help and complaints

The texts that are shown when the command line asks for no program to be run.
-/

namespace ChipEight.CommandLine

/-- How the program is called. -/
def usage : String :=
  "Usage: chipeight [OPTIONS] <PROGRAM>"

/-- The help. -/
def help : String :=
  "\n".intercalate [
    "CHIP-8 virtual machine", "", usage, "",
    "Arguments:",
    "  <PROGRAM>  Raw CHIP-8 program, loaded verbatim at 0x200", "",
    "Options:",
    s!"  -r, --rate <RATE>           Virtual ticks per second [default: {Timestep.defaultRate}]",
    s!"      --scale <SCALE>         Window pixels per CHIP-8 pixel [default: {defaultScale}]",
    "      --seed <SEED>           Seed for the random number instruction",
    "      --stack-limit <LIMIT>   Fail when subroutine calls nest deeper than this",
    "      --normalize-shift-flag  Store 0/1 instead of 0x80 in VF on shift left",
    "  -h, --help                  Print help",
    "  -V, --version               Print version"]

/-- What is shown on exit. -/
def Exit.text : Exit → String
  | help => CommandLine.help
  | version => "chipeight 0.1.0"
  | unknownArgument => "error: unexpected argument\n\n" ++ usage
  | missingValue => "error: a value is required\n\n" ++ usage
  | badValue => "error: invalid value for an option\n\n" ++ usage
  | unexpectedValue => "error: unexpected value for an option\n\n" ++ usage
  | repeatedOption => "error: an option cannot be used multiple times\n\n" ++ usage
  | missingProgram => "error: no program was given\n\n" ++ usage

end ChipEight.CommandLine
