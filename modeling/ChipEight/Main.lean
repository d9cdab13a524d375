import ChipEight.Frontend.Terminal
import ChipEight.Launch
import ChipEight.ProgramFile
import ChipEight.Usage

/-!
# The command

Reads the command line and the program file, and runs the program on the terminal.
-/

namespace ChipEight.Command

/-- The number of a failure of the system. Some of its calls give the number negated. -/
def systemNumber (code : UInt32) : Nat :=
  if code < 0x80000000 then code.toNat else (0 - code).toNat

/-- The reason why a file could not be read, if it is one that is reported by number. -/
def readFailure? : IO.Error → Option ReadFailure
  | .noFileOrDirectory _ code _ | .inappropriateType _ code _ | .invalidArgument _ code _
  | .otherError code _ => ReadFailure.ofNumber? (systemNumber code)
  | _ => none

/-- A key of random words from the system. -/
def systemEntropy : IO (Vector UInt32 8) := do
  let bytes ← IO.getRandomBytes 32
  let byte (i : Nat) : Nat := (bytes.data.getD i 0).toNat
  return Vector.ofFn fun i =>
    UInt32.ofNat (byte (4 * i) + 0x100 * byte (4 * i + 1) + 0x10000 * byte (4 * i + 2)
      + 0x1000000 * byte (4 * i + 3))

/-- Collects what is typed until the input ends. -/
partial def collect (input : IO.FS.Stream) (terminal : IO.Ref Terminal) : IO Unit := do
  let line ← input.getLine
  if line.isEmpty then
    terminal.modify fun t => { t with ended := true }
  else
    terminal.modify fun t => { t with typed := t.typed ++ line.toList }
    collect input terminal

/-- Goes on frame by frame until the session ends. -/
partial def play (terminal : IO.Ref Terminal) (last : Nat) (p : Session.Progress Terminal) :
    IO Session.Ending := do
  let typed ← terminal.modifyGet fun t => (t, { t with typed := [] })
  let now ← IO.monoNanosNow
  let elapsed := (Duration.ofNanoseconds? (now - last)).getD .zero
  let p := { p with session := { p.session with frontend := typed } }
  let next := { p.advance elapsed with log := #[] }
  match next.ending with
  | some ending => return ending
  | none =>
    if next.session.machine.screen.pixels != p.session.machine.screen.pixels then
      IO.println ("\x1b[H\x1b[2J" ++ Terminal.picture next.session.machine.screen)
    IO.sleep 5
    play terminal now next

/-- Ends with the text of a fault and a failure. -/
def abort (fault : Fault) : IO UInt32 := do
  IO.eprintln ("Error: " ++ fault.message)
  return 1

/-- Runs a program with the given settings. -/
def run (settings : Settings) (program : List UInt8) : IO UInt32 := do
  match settings.session ({} : Terminal) (← systemEntropy) with
  | .error fault => abort fault
  | .ok session =>
    let report := session.machine.load program
    match report.fault with
    | some fault => abort fault
    | none =>
      let terminal ← IO.mkRef ({} : Terminal)
      let _ ← IO.asTask (collect (← IO.getStdin) terminal)
      let started := Session.Progress.start { session with machine := report.machine }
      match ← play terminal (← IO.monoNanosNow) started with
      | .closed => return 0
      | .aborted fault => abort fault
      | .clockOverflow => abort (.platform "the clock overflowed")

end ChipEight.Command

open ChipEight in
/-- Runs the program named on the command line. -/
def main (arguments : List String) : IO UInt32 := do
  match CommandLine.parse arguments with
  | .error exit =>
    if exit.code = 0 then IO.println exit.text else IO.eprintln exit.text
    return UInt32.ofNat exit.code
  | .ok settings =>
    match ← (IO.FS.readBinFile settings.program).toBaseIO with
    | .ok bytes => Command.run settings bytes.data.toList
    | .error error =>
      match Command.readFailure? error with
      | some failure => IO.eprint (failure.report settings.program)
      | none => IO.eprintln ("Error: failed to read program " ++ settings.program
          ++ "\n\nCaused by:\n    " ++ toString error)
      return 1
