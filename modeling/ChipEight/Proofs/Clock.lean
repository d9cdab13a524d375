import ChipEight.Timestep
import Mathlib.Algebra.Ring.Nat

/-!
# The clock over many advances

What `Timestep.advance?` leaves pending is carried over, so that cutting a stretch of time into
pieces does not change how many ticks it drains. `Timestep.due_add` says so for one cut, and
everything about lists of times follows from it by induction.

* `Timestep.Reachable` holds of the clocks that come from `Timestep.ofRate` by advancing.
* `Timestep.Settled` is what all of them have in common: no tick is overdue.
* `Timestep.Accepts` says that a clock can take up the times of a list one after the other.
* `Timestep.Drains` is the loop that takes out ticks one by one. `Timestep.advance?` finds the
  number of its turns by a division; `Timestep.advance?_of_drains` and
  `Timestep.advance?_of_drains_overflow` show that it comes to the same.
-/

namespace ChipEight

/-- The nanoseconds of all the times in a list. -/
def Duration.total (times : List Duration) : Nat :=
  (times.map Duration.nanoseconds).sum

@[simp] theorem Duration.total_cons (elapsed : Duration) (times : List Duration) :
    Duration.total (elapsed :: times) = elapsed.nanoseconds + Duration.total times :=
  List.sum_cons

attribute [ext] Timestep

namespace Timestep

/-- The clocks that can come about: new ones, and those that advancing leaves. -/
inductive Reachable : Timestep → Prop where
  /-- A new clock. -/
  | ofRate (rate : Nat) {t : Timestep} (hrate : Timestep.ofRate rate = .ok t) : Reachable t
  /-- A clock after some time has passed. -/
  | advance {t t' : Timestep} {elapsed : Duration} {count : UInt32} (ht : Reachable t)
      (hadvance : t.advance? elapsed = some (count, t')) : Reachable t'

/-- No tick is overdue. The one that is just complete may be pending. -/
def Settled (t : Timestep) : Prop :=
  t.pending.nanoseconds ≤ t.tick.nanoseconds

/-- The times in a list can pass one after the other: with each of them the pending time stays within
the limit of a duration, and fewer ticks are due than their counter can hold. -/
inductive Accepts : Timestep → List Duration → Prop where
  /-- No time passes. -/
  | nil (t : Timestep) : Accepts t []
  /-- A time passes, and then the others. -/
  | cons {t : Timestep} {elapsed : Duration} {times : List Duration}
      (hlimit : t.pending.nanoseconds + elapsed.nanoseconds < Duration.limit)
      (hcount : t.due elapsed.nanoseconds < UInt32.size)
      (htimes : ∀ count t', t.advance? elapsed = some (count, t') → Accepts t' times) :
      Accepts t (elapsed :: times)

/-- Taking out `tick` nanoseconds while more than that are pending ends after a number of turns
with the given rest. -/
inductive Drains (tick : Nat) : (pending turns rest : Nat) → Prop where
  /-- No more than a tick is pending. -/
  | stop {pending : Nat} (hpending : pending ≤ tick) : Drains tick pending 0 pending
  /-- A tick is taken out, and then the others. -/
  | turn {pending turns rest : Nat} (hpending : tick < pending)
      (hlater : Drains tick (pending - tick) turns rest) : Drains tick pending (turns + 1) rest

/-! ### What is drained and what stays -/

theorem drained_of_le {t : Timestep} {total : Nat} (h : total ≤ t.tick.nanoseconds) :
    t.drained total = 0 := by
  have htick := t.tick_pos
  exact Nat.div_eq_of_lt (by omega)

/-- What is drained leaves at least a nanosecond pending, if anything was. -/
theorem drained_mul_lt (t : Timestep) {total : Nat} (h : 0 < total) :
    t.drained total * t.tick.nanoseconds < total := by
  have hle : t.drained total * t.tick.nanoseconds ≤ total - 1 := Nat.div_mul_le_self _ _
  omega

/-- What is drained leaves at most one tick pending. -/
theorem le_drained_mul_add (t : Timestep) (total : Nat) :
    total ≤ t.drained total * t.tick.nanoseconds + t.tick.nanoseconds := by
  have hlt : total - 1 < t.tick.nanoseconds * (t.drained total + 1) :=
    Nat.lt_mul_div_succ (total - 1) t.tick_pos
  rw [Nat.mul_add_one, Nat.mul_comm] at hlt
  omega

theorem settled_of_advance? {t t' : Timestep} {elapsed : Duration} {count : UInt32}
    (h : t.advance? elapsed = some (count, t')) : t'.Settled := by
  obtain ⟨-, htick, htime⟩ := advance?_eq_some h
  have hle := t.le_drained_mul_add (t.pending.nanoseconds + elapsed.nanoseconds)
  unfold Settled
  unfold due at htime
  rw [htick]
  omega

theorem Reachable.settled {t : Timestep} (h : t.Reachable) : t.Settled := by
  cases h with
  | ofRate rate hrate =>
    unfold Timestep.ofRate at hrate
    split at hrate
    · cases hrate
      exact Nat.zero_le _
    · cases hrate
  | advance ht hadvance => exact settled_of_advance? hadvance

theorem Settled.due_zero {t : Timestep} (h : t.Settled) : t.due 0 = 0 :=
  drained_of_le h

/-- A stretch of time that is cut in two drains the same ticks: those of the first part, and then
those of the second part together with what the first has left. -/
theorem due_add {t t' : Timestep} {elapsed : Duration} {count : UInt32}
    (h : t.advance? elapsed = some (count, t')) (later : Nat) :
    t.due (elapsed.nanoseconds + later) = t.due elapsed.nanoseconds + t'.due later := by
  obtain ⟨-, htick, htime⟩ := advance?_eq_some h
  unfold due at htime ⊢
  rw [← Nat.add_assoc]
  -- A tick that is just complete stays pending, so the case where no time passed is apart.
  generalize htotal : t.pending.nanoseconds + elapsed.nanoseconds = total at htime ⊢
  rcases Nat.eq_zero_or_pos total with hzero | hpos
  · have hrest : t'.pending.nanoseconds = 0 := by omega
    have hnone : t.drained 0 = 0 := drained_of_le (Nat.zero_le _)
    rw [hzero, hrest, hnone]
    simp only [Nat.zero_add, drained, htick]
  · -- Something is left of the first part, so its ticks come out before the one is subtracted.
    have hlt := t.drained_mul_lt hpos
    have hsplit : total + later - 1 =
        (t'.pending.nanoseconds + later - 1) + t.drained total * t.tick.nanoseconds := by
      omega
    calc t.drained (total + later)
        = ((t'.pending.nanoseconds + later - 1) + t.drained total * t.tick.nanoseconds)
            / t.tick.nanoseconds := by rw [← hsplit]; rfl
      _ = (t'.pending.nanoseconds + later - 1) / t.tick.nanoseconds + t.drained total :=
          Nat.add_mul_div_right _ _ t.tick_pos
      _ = t.drained total + t'.drained (t'.pending.nanoseconds + later) := by
          rw [Nat.add_comm]
          simp only [drained, htick]

theorem due_mono (t : Timestep) {elapsed later : Nat} (h : elapsed ≤ later) :
    t.due elapsed ≤ t.due later :=
  Nat.div_le_div_right (Nat.sub_le_sub_right (Nat.add_le_add_left h _) 1)

/-- Time can pass if the pending time stays within the limit of a duration and the ticks fit their
counter. -/
theorem exists_advance? {t : Timestep} {elapsed : Duration}
    (hlimit : t.pending.nanoseconds + elapsed.nanoseconds < Duration.limit)
    (hcount : t.due elapsed.nanoseconds < UInt32.size) :
    ∃ count t', t.advance? elapsed = some (count, t') := by
  cases hadvance : t.advance? elapsed with
  | none => rcases advance?_eq_none_iff.1 hadvance <;> omega
  | some drained => exact ⟨drained.1, drained.2, rfl⟩

/-- The first time can pass, and then the others. -/
theorem Accepts.exists_advance? {t : Timestep} {elapsed : Duration} {times : List Duration}
    (h : t.Accepts (elapsed :: times)) :
    ∃ count t', t.advance? elapsed = some (count, t') ∧ t'.Accepts times := by
  cases h with
  | cons hlimit hcount htimes =>
    obtain ⟨count, t', hadvance⟩ := Timestep.exists_advance? hlimit hcount
    exact ⟨count, t', hadvance, htimes count t' hadvance⟩

/-- A clock that can take up a total at once can take it up in any pieces. -/
theorem accepts_of_total {t : Timestep} {times : List Duration}
    (hlimit : t.pending.nanoseconds + Duration.total times < Duration.limit)
    (hcount : t.due (Duration.total times) < UInt32.size) : t.Accepts times := by
  induction times generalizing t with
  | nil => exact .nil t
  | cons elapsed times ih =>
    -- The first piece drains a part of the ticks and leaves a part of the time to the others.
    rw [Duration.total_cons] at hlimit hcount
    have hfirst : t.due elapsed.nanoseconds < UInt32.size :=
      Nat.lt_of_le_of_lt (t.due_mono (Nat.le_add_right _ _)) hcount
    refine .cons (by omega) hfirst fun count t' hadvance => ?_
    obtain ⟨-, -, htime⟩ := advance?_eq_some hadvance
    rw [due_add hadvance] at hcount
    exact ih (by omega) (by omega)

/-! ### The loop of one advance -/

section
variable {tick pending turns rest : Nat}

/-- The loop ends if a tick is not empty, which is why a clock refuses rates above `maxRate`. -/
theorem exists_drains (htick : 0 < tick) (pending : Nat) :
    ∃ turns rest, Drains tick pending turns rest := by
  induction pending using Nat.strongRecOn with
  | ind pending ih =>
    rcases Nat.lt_or_ge tick pending with hmore | hle
    · obtain ⟨turns, rest, hlater⟩ := ih (pending - tick) (by omega)
      exact ⟨turns + 1, rest, .turn hmore hlater⟩
    · exact ⟨0, pending, .stop hle⟩

/-- The number of turns is a quotient. -/
theorem Drains.turns_eq (h : Drains tick pending turns rest) (htick : 0 < tick) :
    turns = (pending - 1) / tick := by
  induction h with
  | stop hpending => exact (Nat.div_eq_of_lt (by omega)).symm
  | turn hpending hlater ih =>
    rw [ih, Nat.sub_right_comm, ← Nat.div_eq_sub_div htick (by omega)]

/-- The turns and the rest make up all that was pending. -/
theorem Drains.mul_add (h : Drains tick pending turns rest) : turns * tick + rest = pending := by
  induction h with
  | stop hpending => rw [Nat.zero_mul, Nat.zero_add]
  | turn hpending hlater ih =>
    rw [Nat.add_one_mul]
    omega

end

section
variable {t : Timestep} {elapsed : Duration} {turns rest : Nat}

theorem Drains.turns_eq_due
    (h : Drains t.tick.nanoseconds (t.pending.nanoseconds + elapsed.nanoseconds) turns rest) :
    turns = t.due elapsed.nanoseconds :=
  h.turns_eq t.tick_pos

/-- Where the counter can hold the turns of the loop, an advance gives them and the rest. -/
theorem advance?_of_drains
    (h : Drains t.tick.nanoseconds (t.pending.nanoseconds + elapsed.nanoseconds) turns rest)
    (hlimit : t.pending.nanoseconds + elapsed.nanoseconds < Duration.limit)
    (hcount : turns < UInt32.size) :
    ∃ t', t.advance? elapsed = some (UInt32.ofNat turns, t') ∧ t'.tick = t.tick ∧
      t'.pending.nanoseconds = rest := by
  have hturns := h.turns_eq_due
  rw [hturns] at hcount
  obtain ⟨count, t', hadvance⟩ := exists_advance? hlimit hcount
  obtain ⟨hdue, htick, htime⟩ := advance?_eq_some hadvance
  rw [← hturns] at hdue htime
  refine ⟨t', ?_, htick, Nat.add_left_cancel (htime.trans h.mul_add.symm)⟩
  rw [hadvance, ← hdue, UInt32.ofNat_toNat]

/-- Where it cannot, it overflows. -/
theorem advance?_of_drains_overflow
    (h : Drains t.tick.nanoseconds (t.pending.nanoseconds + elapsed.nanoseconds) turns rest)
    (hcount : UInt32.size ≤ turns) : t.advance? elapsed = none :=
  advance?_eq_none_iff.2 (.inr (h.turns_eq_due ▸ hcount))

end

end Timestep

end ChipEight
