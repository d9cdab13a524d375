import ChipEight.CommandLine
import ChipEight.Session

/-!
# From settings to a session

What the settings of the command line mean for the machine and the session that are made from them.
-/

namespace ChipEight.Settings

/-- The configuration of the machine. -/
def machineConfig (s : Settings) : Machine.Config where
  stackLimit := s.stackLimit
  normalizeShiftFlag := s.normalizeShiftFlag
  seed := s.seed.map UInt64.ofNat

/-- A session with a new machine on the given frontend, before the program is loaded. The key
`entropy` determines the random bytes if there is no seed. -/
def session {σ : Type} (s : Settings) (frontend : σ) (entropy : Vector UInt32 8) :
    Except Fault (Session σ) :=
  Session.ofRate (Machine.new s.machineConfig entropy) frontend s.rate

end ChipEight.Settings
