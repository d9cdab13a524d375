import ChipEight.Proofs.CommandLine.Choices
import ChipEight.Proofs.TickTotal
import ChipEight.Session
import Mathlib.Data.List.Permutation

/-!
# Rates on the command line and in a session

Two checks decide which rates can be used: the command line has a range for its option, and the
clock refuses a rate at which a tick would be empty or infinite. `rate_checks_agree` says that they
draw the same line, for every parser that is documented. Whatever arguments are accepted, a session
can be made from them, and a rate that the clock refuses is refused on the command line already,
however it is written.
-/

namespace ChipEight.CommandLine

/-- The clock runs at exactly the rates in the range of the option. -/
theorem inRange_rate_iff {rate : Nat} :
    (Item.number .rate rate).InRange ↔ ∃ timestep, Timestep.ofRate rate = .ok timestep := by
  refine ⟨fun hrange => Timestep.exists_ofRate hrange.1 hrange.2, fun ⟨timestep, hrate⟩ => ?_⟩
  unfold Timestep.ofRate at hrate
  split at hrate
  · assumption
  · cases hrate

/-- Two items stand in one of two orders. -/
theorem exists_written_of_gives {first second : Item} {arguments : List String}
    (hgives : Gives [first, second] arguments) :
    ∃ piece piece', first.Written piece ∧ second.Written piece' ∧
      (arguments = piece ++ piece' ∨ arguments = piece' ++ piece) := by
  obtain ⟨order, pieces, hperm, hwritten, rfl⟩ := hgives
  rcases List.perm_pair.1 hperm with rfl | rfl <;>
    simp only [List.forall₂_cons_left_iff, List.forall₂_nil_left_iff] at hwritten
  · obtain ⟨piece, _, hfirst, ⟨piece', _, hsecond, rfl, rfl⟩, rfl⟩ := hwritten
    exact ⟨piece, piece', hfirst, hsecond, .inl (by simp)⟩
  · obtain ⟨piece', _, hsecond, ⟨piece, _, hfirst, rfl, rfl⟩, rfl⟩ := hwritten
    exact ⟨piece, piece', hfirst, hsecond, .inr (by simp)⟩

section
variable {parser : List String → Except Exit Settings} {program : String} {rate : Nat}
  {arguments : List String}

/-- A rate in its range is read, and all else has its default. -/
theorem parses_of_inRange (h : Documented parser) (hrange : (Item.number .rate rate).InRange)
    (hgives : Gives [.program program, .number .rate rate] arguments) :
    parser arguments =
      .ok
        { program
          rate
          scale := 10
          seed := none
          stackLimit := none
          normalizeShiftFlag := false } := by
  let c : Choices := ⟨program, some rate, none, none, none, false⟩
  have hchosen : c.InRange := by
    refine ⟨fun n hn => ?_, nofun, nofun, nofun⟩
    cases hn
    exact hrange
  exact parses_of_gives h hchosen hgives

/-- A rate out of its range is refused, whether it stands before the program or behind it. -/
theorem parses_of_not_inRange (h : Documented parser)
    (hrange : ¬ (Item.number .rate rate).InRange)
    (hgives : Gives [.program program, .number .rate rate] arguments) :
    parser arguments = .error .badValue := by
  obtain ⟨piece, piece', hprogram, hrate, horder⟩ := exists_written_of_gives hgives
  obtain ⟨occurrence, hwritten, hname, -, hrefused⟩ := hrate.occurrence rfl
  have hnew : occurrence.name.Absent piece := hprogram.absent (hname ▸ nofun)
  have hopen : "--" ∉ piece := hprogram.ne_dashes
  cases hprogram with
  | program hplain =>
    -- without the rate the line would be accepted
    have haccepted := h.program hplain
    rw [← hrefused hrange (.default program)]
    rcases horder with rfl | rfl
    · exact h.behind haccepted hnew hopen hwritten
    · exact h.before haccepted hnew hwritten

/-- The option is usually written with its number behind it. -/
theorem gives_rate (hplain : IsPlain program) (rate : Nat) :
    Gives [.program program, .number .rate rate] [program, "--rate", toString rate] := by
  have hnumeral : IsNumeral rate (toString rate) := ⟨0, .inl String.empty_append.symm⟩
  exact ⟨_, _, .refl _,
    .cons (.program hplain) (.cons (.number hnumeral (.separate .rate)) .nil), rfl⟩

/-- The command line and the clock agree on the rates. What a parser that is documented reads from
the command line can be used, whatever the arguments are. A rate at which the clock runs can be
given, and a rate that it refuses is refused, wherever and however it is written. -/
theorem rate_checks_agree (h : Documented parser) :
    (∀ arguments settings, parser arguments = .ok settings →
      settings.program ≠ "" ∧ 1 ≤ settings.scale ∧
        ∀ (σ : Type) (machine : Machine) (frontend : σ), ∃ session,
          Session.ofRate machine frontend settings.rate = .ok session ∧
            session.timestep.tick.nanoseconds = Duration.perSecond / settings.rate ∧
            1 ≤ session.timestep.tick.nanoseconds) ∧
    (∀ rate timestep, Timestep.ofRate rate = .ok timestep → ∀ program, IsPlain program →
      parser [program, "--rate", toString rate] =
        .ok
          { program
            rate
            scale := 10
            seed := none
            stackLimit := none
            normalizeShiftFlag := false }) ∧
    ∀ rate fault, Timestep.ofRate rate = .error fault → ∀ program arguments,
      Gives [.program program, .number .rate rate] arguments →
        parser arguments = .error .badValue := by
  refine ⟨fun arguments settings hparse => ?_, fun rate timestep hrate program hplain => ?_,
    fun rate fault hrate program arguments hgives => ?_⟩
  · have hscale : (Item.number .scale settings.scale).InRange := h.inRange hparse rfl
    obtain ⟨timestep, hrate⟩ := inRange_rate_iff.1 (h.inRange hparse rfl)
    obtain ⟨-, htick, -⟩ := Timestep.ofRate_eq_ok hrate
    -- a session is refused only where its clock is
    refine ⟨h.path hparse, hscale.1, fun σ machine frontend => ?_⟩
    exact ⟨{ machine, frontend, timestep }, by rw [Session.ofRate, hrate], htick,
      timestep.tick_pos⟩
  · exact parses_of_inRange h (inRange_rate_iff.2 ⟨timestep, hrate⟩) (gives_rate hplain rate)
  · refine parses_of_not_inRange h (fun hrange => ?_) hgives
    obtain ⟨timestep, hok⟩ := inRange_rate_iff.1 hrange
    rw [hok] at hrate
    cases hrate

end

/-- The highest rate is read and gives a clock with ticks of a nanosecond; the one above it is
refused in front of the program, and so is zero behind it. -/
theorem rate_checks_agree_limits :
    let m := Machine.new {} (Vector.replicate 8 0)
    Documented parse ∧
      parse ["game", "--rate", "1000000000"] = .ok ⟨"game", 1000000000, 10, none, none, false⟩ ∧
      (∃ session, Session.ofRate m () 1000000000 = .ok session ∧
        session.timestep.tick.nanoseconds = 1) ∧
      parse ["-r+001000000001", "game"] = .error .badValue ∧
      parse ["game", "--rate=0"] = .error .badValue := by
  intro m
  obtain ⟨hread, haccepted, hrefused⟩ := rate_checks_agree documented_parse
  have hplain : IsPlain "game" := by constructor <;> decide
  have hgame : (Item.program "game").Written ["game"] := .program hplain
  have hhighest : parse ["game", "--rate", "1000000000"] =
      .ok ⟨"game", 1000000000, 10, none, none, false⟩ :=
    haccepted 1000000000 ⟨⟨1, by decide⟩, .zero, by decide⟩ rfl "game" hplain
  obtain ⟨-, -, hsession⟩ := hread _ _ hhighest
  obtain ⟨session, hnew, htick, -⟩ := hsession Unit m ()
  have habove : (Item.number .rate 1000000001).Written [shortForm 'r' ++ "+001000000001"] :=
    .number ⟨2, .inr (by decide)⟩ (.attached rfl)
  have hzero : (Item.number .rate 0).Written [(OptionName.number .rate).inFull ++ "=" ++ "0"] :=
    .number ⟨0, .inl (by decide)⟩ (.joined .rate)
  exact ⟨documented_parse, hhighest, ⟨session, hnew, htick⟩,
    hrefused 1000000001 _ rfl "game" _ ⟨_, _, .swap _ _ _, .cons habove (.cons hgame .nil), rfl⟩,
    hrefused 0 _ rfl "game" _ ⟨_, _, .refl _, .cons hgame (.cons hzero .nil), rfl⟩⟩

end ChipEight.CommandLine
