import ChipEight.Proofs.Clock
import Mathlib.Algebra.Order.Group.Abs
import Mathlib.Algebra.Order.Ring.Int
import Mathlib.Tactic.Linarith
import Mathlib.Tactic.Ring
import Mathlib.Tactic.Zify

/-!
# Counting ticks

An advance gives the number of turns of the loop that takes out ticks, as long as its counter can
hold them.

* `advance_accounts_for_time`: the ticks that are counted and the time that stays pending make up
  all the time that passed, unless the counter overflows. At the highest rate it does so after 4.3
  seconds (`advance_counter_overflows`).
* `ticks_follow_rate`: over any number of advances, the ticks keep to the rate up to one tick and up
  to what the length of a tick lacks, which is rounded down to nanoseconds. So a clock keeps to its
  rate for good exactly if the rate divides a second into whole nanoseconds.
-/

namespace ChipEight.Timestep

/-! ### The time of a single advance -/

/-- No time is lost as long as the counter can hold the ticks. The loop of an advance always ends,
and its turns and its rest make up all the time there was. If there are fewer than `2 ^ 32` turns,
the advance gives their number and keeps the rest; otherwise the counter overflows, and there is no
answer. -/
theorem advance_accounts_for_time (t : Timestep) (elapsed : Duration)
    (hfits : t.pending.nanoseconds + elapsed.nanoseconds < Duration.limit) :
    ∃ turns rest,
      Drains t.tick.nanoseconds (t.pending.nanoseconds + elapsed.nanoseconds) turns rest ∧
      turns * t.tick.nanoseconds + rest = t.pending.nanoseconds + elapsed.nanoseconds ∧
      (turns < UInt32.size →
        ∃ count t', t.advance? elapsed = some (count, t') ∧ count.toNat = turns ∧
          t'.tick = t.tick ∧ t'.pending.nanoseconds = rest ∧
          count.toNat * t.tick.nanoseconds + t'.pending.nanoseconds =
            t.pending.nanoseconds + elapsed.nanoseconds) ∧
      (UInt32.size ≤ turns → t.advance? elapsed = none) := by
  obtain ⟨turns, rest, hdrains⟩ :=
    exists_drains t.tick_pos (t.pending.nanoseconds + elapsed.nanoseconds)
  refine ⟨turns, rest, hdrains, hdrains.mul_add, fun hcount => ?_,
    advance?_of_drains_overflow hdrains⟩
  obtain ⟨t', hadvance, htick, hrest⟩ := advance?_of_drains hdrains hfits hcount
  have hturns : (UInt32.ofNat turns).toNat = turns := UInt32.toNat_ofNat_of_lt hcount
  refine ⟨UInt32.ofNat turns, t', hadvance, hturns, htick, hrest, ?_⟩
  rw [hturns, hrest]
  exact hdrains.mul_add

/-- At 60 ticks a second, 50 ms are three ticks and 2 ns that stay pending. -/
theorem advance_accounts_for_time_sixty :
    let t : Timestep := ⟨⟨16666666, by decide⟩, .zero, by decide⟩
    Timestep.ofRate 60 = .ok t ∧ t.pending.nanoseconds + 50000000 < Duration.limit ∧
      ∃ count t', t.advance? ⟨50000000, by decide⟩ = some (count, t') ∧ count = 3 ∧
        count.toNat * 16666666 + t'.pending.nanoseconds = 50000000 := by
  intro t
  have hfits : t.pending.nanoseconds + 50000000 < Duration.limit := by decide
  obtain ⟨turns, rest, hdrains, -, hcounted, -⟩ :=
    advance_accounts_for_time t ⟨50000000, by decide⟩ hfits
  have hturns : turns = 3 := (hdrains.turns_eq t.tick_pos).trans (by decide)
  obtain ⟨count, t', hadvance, hcount, -, -, htime⟩ := hcounted (by rw [hturns]; decide)
  exact ⟨rfl, hfits, count, t', hadvance, UInt32.toNat_inj.1 (hcount.trans hturns),
    htime.trans (Nat.zero_add _)⟩

/-- At the highest rate `2 ^ 32` ticks are due after 4.294967297 s. That is far within the limit of
a duration, but the counter overflows. -/
theorem advance_counter_overflows :
    let t : Timestep := ⟨⟨1, by decide⟩, .zero, by decide⟩
    let elapsed : Duration := ⟨4294967297, by decide⟩
    Timestep.ofRate maxRate = .ok t ∧
      t.pending.nanoseconds + elapsed.nanoseconds < Duration.limit ∧ t.advance? elapsed = none :=
  ⟨rfl, by decide, by decide +kernel⟩

/-! ### Many advances -/

/-- Lets the times of a list pass one after the other. Gives the counts of the advances, in order,
and the clock at the end. -/
def advanceAll? (t : Timestep) : List Duration → Option (List UInt32 × Timestep)
  | [] => some ([], t)
  | elapsed :: times =>
    match t.advance? elapsed with
    | none => none
    | some (count, t') => (t'.advanceAll? times).map fun (counts, t'') => (count :: counts, t'')

/-- The number of ticks in a list of counts. -/
def tickTotal (counts : List UInt32) : Nat :=
  (counts.map UInt32.toNat).sum

@[simp] theorem tickTotal_cons (count : UInt32) (counts : List UInt32) :
    tickTotal (count :: counts) = count.toNat + tickTotal counts :=
  List.sum_cons

/-- Times that can pass one after the other drain what is due for their total. -/
theorem Accepts.advanceAll? {t : Timestep} {times : List Duration} (h : t.Accepts times)
    (hsettled : t.Settled) :
    ∃ counts t', t.advanceAll? times = some (counts, t') ∧ t'.Settled ∧ t'.tick = t.tick ∧
      tickTotal counts = t.due (Duration.total times) ∧
      tickTotal counts * t.tick.nanoseconds + t'.pending.nanoseconds =
        t.pending.nanoseconds + Duration.total times := by
  induction times generalizing t with
  | nil =>
    refine ⟨[], t, rfl, hsettled, rfl, hsettled.due_zero.symm, ?_⟩
    simp [tickTotal, Duration.total]
  | cons elapsed times ih =>
    obtain ⟨count, t', hadvance, htimes⟩ := h.exists_advance?
    obtain ⟨hdrained, htick, htime⟩ := advance?_eq_some hadvance
    obtain ⟨counts, t'', hlater, hsettled'', htick'', htotal, htime''⟩ :=
      ih htimes (settled_of_advance? hadvance)
    refine ⟨count :: counts, t'', ?_, hsettled'', htick''.trans htick, ?_, ?_⟩
    · rw [Timestep.advanceAll?, hadvance]
      dsimp only
      rw [hlater]
      rfl
    · rw [tickTotal_cons, Duration.total_cons, due_add hadvance, hdrained, htotal]
    · -- what the first advance has left is part of the time of the others
      rw [htick] at htime''
      rw [tickTotal_cons, Duration.total_cons, hdrained, Nat.add_mul]
      omega

/-! ### The rate -/

theorem ofRate_eq_ok {rate : Nat} {t : Timestep} (h : ofRate rate = .ok t) :
    rate ≤ maxRate ∧ t.tick.nanoseconds = Duration.perSecond / rate ∧ t.pending = .zero := by
  unfold ofRate at h
  split at h
  · next hrate =>
    cases h
    exact ⟨hrate.2, rfl, rfl⟩
  · cases h

/-- A tick is short by what remains of a second when it is divided into `rate` parts. That remainder
adds up with every tick. -/
theorem ticks_mul_perSecond {rate ticks passed pending : Nat} {t : Timestep}
    (hrate : ofRate rate = .ok t) (htime : ticks * t.tick.nanoseconds + pending = passed) :
    ticks * Duration.perSecond + pending * rate =
      passed * rate + ticks * (Duration.perSecond % rate) := by
  obtain ⟨-, htick, -⟩ := ofRate_eq_ok hrate
  have hsecond : rate * t.tick.nanoseconds + Duration.perSecond % rate = Duration.perSecond := by
    rw [htick]
    exact Nat.div_add_mod _ _
  calc ticks * Duration.perSecond + pending * rate
      = ticks * (rate * t.tick.nanoseconds + Duration.perSecond % rate) + pending * rate := by
        rw [hsecond]
    _ = (ticks * t.tick.nanoseconds + pending) * rate + ticks * (Duration.perSecond % rate) := by
        ring
    _ = passed * rate + ticks * (Duration.perSecond % rate) := by rw [htime]

/-- What a new clock drains when the times of a list pass, and what it leaves. -/
theorem ticks_of_ofRate {rate : Nat} {t : Timestep} (hrate : ofRate rate = .ok t)
    {times : List Duration} (haccepts : t.Accepts times) :
    ∃ counts t', t.advanceAll? times = some (counts, t') ∧
      t'.pending.nanoseconds ≤ t.tick.nanoseconds ∧
      tickTotal counts = t.drained (Duration.total times) ∧
      tickTotal counts * t.tick.nanoseconds + t'.pending.nanoseconds = Duration.total times := by
  obtain ⟨-, -, hzero⟩ := ofRate_eq_ok hrate
  obtain ⟨counts, t', hadvance, hsettled, htick, hcount, htime⟩ :=
    haccepts.advanceAll? (Reachable.ofRate rate hrate).settled
  rw [due, hzero, Duration.nanoseconds_zero, Nat.zero_add] at hcount
  rw [hzero, Duration.nanoseconds_zero, Nat.zero_add] at htime
  exact ⟨counts, t', hadvance, htick ▸ hsettled, hcount, htime⟩

/-- The number of ticks over any sequence of advances is what the rate asks for, up to one tick, if
the time that the length of a tick lacks is counted. -/
theorem ticks_near_rate {rate : Nat} {t : Timestep} (hrate : ofRate rate = .ok t)
    {times : List Duration} (haccepts : t.Accepts times) :
    ∃ counts t', t.advanceAll? times = some (counts, t') ∧
      |(tickTotal counts * Duration.perSecond : ℤ) - Duration.total times * rate
          - tickTotal counts * (Duration.perSecond % rate : ℕ)| ≤ Duration.perSecond := by
  obtain ⟨-, htick, -⟩ := ofRate_eq_ok hrate
  obtain ⟨counts, t', hadvance, hsettled, -, htime⟩ := ticks_of_ofRate hrate haccepts
  have hexact := ticks_mul_perSecond hrate htime
  -- what is pending is at most a tick, hence at most the share of a second that a tick is
  have hpending : t'.pending.nanoseconds * rate ≤ Duration.perSecond :=
    calc t'.pending.nanoseconds * rate ≤ t.tick.nanoseconds * rate :=
          Nat.mul_le_mul_right rate hsettled
      _ = Duration.perSecond / rate * rate := by rw [htick]
      _ ≤ Duration.perSecond := Nat.div_mul_le_self _ _
  have hbehind : (tickTotal counts * Duration.perSecond : ℤ) - Duration.total times * rate
      - tickTotal counts * (Duration.perSecond % rate : ℕ) =
        -(t'.pending.nanoseconds * rate : ℕ) := by
    zify at hexact
    push_cast
    linarith
  refine ⟨counts, t', hadvance, ?_⟩
  rw [hbehind, abs_neg, Nat.abs_cast]
  exact_mod_cast hpending

/-- If a second cannot be divided by the rate, then four billion ticks come too early by more than
a tick. That many still fit one advance. -/
theorem exists_drift {rate : Nat} {t : Timestep} (hrate : ofRate rate = .ok t)
    (hrounded : ¬ rate ∣ Duration.perSecond) :
    ∃ times counts t', t.Accepts times ∧ t.advanceAll? times = some (counts, t') ∧
      (Duration.perSecond : ℤ) <
        |(tickTotal counts * Duration.perSecond : ℤ) - Duration.total times * rate| := by
  obtain ⟨hmax, htick, hzero⟩ := ofRate_eq_ok hrate
  have hshort : t.tick.nanoseconds ≤ Duration.perSecond := htick ▸ Nat.div_le_self _ _
  -- one nanosecond more than the ticks, for the last of them to be drained
  have hlimit : 4000000000 * t.tick.nanoseconds + 1 < Duration.limit :=
    Nat.lt_of_le_of_lt (Nat.succ_le_succ (Nat.mul_le_mul_left _ hshort)) (by decide)
  have htotal : Duration.total [⟨_, hlimit⟩] = 4000000000 * t.tick.nanoseconds + 1 := Nat.add_zero _
  have hdrained : t.drained (Duration.total [⟨_, hlimit⟩]) = 4000000000 := by
    rw [htotal, drained, Nat.add_sub_cancel]
    exact Nat.mul_div_cancel _ t.tick_pos
  have haccepts : t.Accepts [⟨_, hlimit⟩] := by
    apply accepts_of_total
    · rw [hzero, htotal, Duration.nanoseconds_zero, Nat.zero_add]
      exact hlimit
    · rw [due, hzero, Duration.nanoseconds_zero, Nat.zero_add, hdrained]
      decide
  obtain ⟨counts, t', hadvance, -, hcount, htime⟩ := ticks_of_ofRate hrate haccepts
  rw [hdrained] at hcount
  have hexact := ticks_mul_perSecond hrate htime
  rw [hcount, htotal] at htime
  have hone : t'.pending.nanoseconds = 1 := by omega
  have hremains : 1 ≤ Duration.perSecond % rate :=
    Nat.pos_of_ne_zero fun h => hrounded (Nat.dvd_of_mod_eq_zero h)
  refine ⟨_, counts, t', haccepts, hadvance, lt_abs.2 (.inl ?_)⟩
  -- every tick is early by `hremains` at least, and the rate is at most a billion
  rw [hcount, hone] at hexact
  rw [hcount]
  unfold maxRate at hmax
  unfold Duration.perSecond at hexact hremains ⊢
  omega

/-- Over any sequence of advances, the ticks are those that the rate asks for, up to one tick and
the time that the length of a tick lacks. They are so without that correction, for all sequences,
exactly if the rate divides a second into whole nanoseconds. -/
theorem ticks_follow_rate {rate : Nat} {t : Timestep} (hrate : ofRate rate = .ok t) :
    (∀ times, t.Accepts times → ∃ counts t', t.advanceAll? times = some (counts, t') ∧
        |(tickTotal counts * Duration.perSecond : ℤ) - Duration.total times * rate
            - tickTotal counts * (Duration.perSecond % rate : ℕ)| ≤ Duration.perSecond) ∧
      ((∀ times counts t', t.Accepts times → t.advanceAll? times = some (counts, t') →
          |(tickTotal counts * Duration.perSecond : ℤ) - Duration.total times * rate| ≤
            Duration.perSecond) ↔
        rate ∣ Duration.perSecond) := by
  refine ⟨?_, ?_, ?_⟩
  · intro times haccepts
    exact ticks_near_rate hrate haccepts
  · intro hall
    by_contra hrounded
    obtain ⟨times, counts, t', haccepts, hadvance, hdrift⟩ := exists_drift hrate hrounded
    exact absurd (hall times counts t' haccepts hadvance) (not_le_of_gt hdrift)
  · -- nothing is lacking then, so the correction is zero
    intro hdvd times counts t' haccepts hadvance
    obtain ⟨counts', t'', hadvance', hnear⟩ := ticks_near_rate hrate haccepts
    cases hadvance.symm.trans hadvance'
    rw [Nat.mod_eq_zero_of_dvd hdvd, Nat.cast_zero, mul_zero, sub_zero] at hnear
    exact hnear

/-- At 50 ticks a second, which are whole numbers of nanoseconds, a quarter and half a second. -/
theorem ticks_follow_rate_fifty :
    let t : Timestep := ⟨⟨20000000, by decide⟩, .zero, by decide⟩
    let times : List Duration := [⟨250000000, by decide⟩, ⟨500000000, by decide⟩]
    ofRate 50 = .ok t ∧ t.Accepts times ∧
      ∃ counts t', t.advanceAll? times = some (counts, t') ∧
        |(tickTotal counts * Duration.perSecond : ℤ) - Duration.total times * (50 : ℕ)| ≤
          Duration.perSecond := by
  intro t times
  have hrate : ofRate 50 = .ok t := rfl
  have haccepts : t.Accepts times := accepts_of_total (by decide) (by decide)
  obtain ⟨hnear, hkeeps⟩ := ticks_follow_rate hrate
  obtain ⟨counts, t', hadvance, -⟩ := hnear times haccepts
  exact ⟨hrate, haccepts, counts, t', hadvance,
    hkeeps.2 (by decide) times counts t' haccepts hadvance⟩

/-- At 600 million ticks a second, 9 ticks are drained after 10 ns, where the rate asks for 6. -/
theorem ticks_ahead_of_rate :
    let t : Timestep := ⟨⟨1, by decide⟩, .zero, by decide⟩
    let times : List Duration := [⟨10, by decide⟩]
    let t' : Timestep := { t with pending := ⟨1, by decide⟩ }
    ofRate 600000000 = .ok t ∧ t.Accepts times ∧ t.advanceAll? times = some ([9], t') ∧
      ¬ |(tickTotal [9] * Duration.perSecond : ℤ) - Duration.total times * (600000000 : ℕ)| ≤
        Duration.perSecond := by
  intro t times t'
  have haccepts : t.Accepts times := accepts_of_total (by decide) (by decide)
  exact ⟨rfl, haccepts, by decide +kernel, by decide⟩

end ChipEight.Timestep
