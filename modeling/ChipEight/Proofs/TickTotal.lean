import ChipEight.Proofs.TickCount

/-!
# The ticks of a total

However a stretch of time is cut into pieces, a new clock drains the same ticks and keeps the same
rest: of a total of `T` nanoseconds `(T - 1) / tick` ticks are drained, and what stays pending is at
least a nanosecond and at most one tick, unless no time passed at all.

* `DrainsTotal` is the closed form of what a new clock makes of a total.
* `ticks_of_total` states it for every rate and every sequence of advances.
-/

namespace ChipEight.Timestep

/-! ### Any sequence of advances -/

/-- Every rate that is not refused makes a clock. -/
theorem exists_ofRate {rate : Nat} (hpos : 1 ≤ rate) (hmax : rate ≤ maxRate) :
    ∃ t, ofRate rate = .ok t := by
  unfold ofRate
  rw [dif_pos ⟨hpos, hmax⟩]
  exact ⟨_, rfl⟩

theorem length_of_advanceAll? {t t' : Timestep} {times : List Duration} {counts : List UInt32}
    (h : t.advanceAll? times = some (counts, t')) : counts.length = times.length := by
  induction times generalizing t counts with
  | nil =>
    cases h
    rfl
  | cons elapsed times ih =>
    unfold advanceAll? at h
    split at h
    · cases h
    · next count t₁ hadvance =>
      obtain ⟨⟨later, t₂⟩, hlater, hpair⟩ := Option.map_eq_some_iff.1 h
      cases hpair
      rw [List.length_cons, List.length_cons, ih hlater]

/-- What a new clock makes of a total of `total` nanoseconds: so many ticks, and this rest. -/
structure DrainsTotal (t : Timestep) (total ticks : Nat) (t' : Timestep) : Prop where
  /-- The length of a tick stays the same. -/
  tick_eq : t'.tick = t.tick
  /-- The tick that is just complete is not drained. -/
  ticks_eq : ticks = if total = 0 then 0 else (total - 1) / t.tick.nanoseconds
  /-- What was not drained is pending. -/
  pending_eq : t'.pending.nanoseconds = total - t.tick.nanoseconds * ticks
  /-- Some time is always left. -/
  pending_pos : 0 < total → 1 ≤ t'.pending.nanoseconds
  /-- No more than a tick is left. -/
  pending_le : t'.pending.nanoseconds ≤ t.tick.nanoseconds

/-- Equal totals leave equal clocks. -/
theorem DrainsTotal.unique {t t₁ t₂ : Timestep} {total ticks₁ ticks₂ : Nat}
    (h₁ : DrainsTotal t total ticks₁ t₁) (h₂ : DrainsTotal t total ticks₂ t₂) :
    ticks₁ = ticks₂ ∧ t₁ = t₂ := by
  have hticks : ticks₁ = ticks₂ := h₁.ticks_eq.trans h₂.ticks_eq.symm
  refine ⟨hticks, Timestep.ext (h₁.tick_eq.trans h₂.tick_eq.symm) (Duration.ext ?_)⟩
  rw [h₁.pending_eq, h₂.pending_eq, hticks]

/-- The times of a list add up, whatever their number. -/
theorem drainsTotal_of_ofRate {rate : Nat} {t : Timestep} (hrate : ofRate rate = .ok t)
    {times : List Duration} (haccepts : t.Accepts times) :
    ∃ counts t', t.advanceAll? times = some (counts, t') ∧ counts.length = times.length ∧
      DrainsTotal t (Duration.total times) (tickTotal counts) t' := by
  obtain ⟨counts, t', hadvance, hle, hcount, htime⟩ := ticks_of_ofRate hrate haccepts
  obtain ⟨counts', t'', hadvance', -, htick, -⟩ :=
    haccepts.advanceAll? (Reachable.ofRate rate hrate).settled
  cases hadvance.symm.trans hadvance'
  have hpending : t'.pending.nanoseconds =
      Duration.total times - t.tick.nanoseconds * tickTotal counts := by
    rw [Nat.mul_comm]
    exact Nat.eq_sub_of_add_eq' htime
  refine ⟨counts, t', hadvance, length_of_advanceAll? hadvance, htick, ?_, hpending, ?_, hle⟩
  · rw [hcount]
    split
    · next hzero => exact drained_of_le (hzero ▸ Nat.zero_le _)
    · rfl
  · intro hpos
    have hlt := t.drained_mul_lt hpos
    rw [← hcount] at hlt
    omega

/-- The closed form of advancing, at every rate. A tick is at least a nanosecond, so that the loop
of every advance ends, with an answer if its turns can be counted; whatever times pass one after the
other, the ticks and the rest are those of their total, and so they are the same for any two
sequences with one total. -/
theorem ticks_of_total (rate : Nat) (hpos : 1 ≤ rate) (hmax : rate ≤ maxRate) :
    ∃ t, ofRate rate = .ok t ∧ t.tick.nanoseconds = Duration.perSecond / rate ∧
      1 ≤ t.tick.nanoseconds ∧
      (∀ (t₁ : Timestep) (elapsed : Duration), t₁.tick = t.tick →
        t₁.pending.nanoseconds + elapsed.nanoseconds < Duration.limit →
        ∃ turns rest,
          Drains t.tick.nanoseconds (t₁.pending.nanoseconds + elapsed.nanoseconds) turns rest ∧
          (turns < UInt32.size → ∃ t₂, t₁.advance? elapsed = some (UInt32.ofNat turns, t₂) ∧
            t₂.tick = t₁.tick ∧ t₂.pending.nanoseconds = rest) ∧
          (UInt32.size ≤ turns → t₁.advance? elapsed = none)) ∧
      (∀ times, t.Accepts times →
        ∃ counts t', t.advanceAll? times = some (counts, t') ∧ counts.length = times.length ∧
          DrainsTotal t (Duration.total times) (tickTotal counts) t') ∧
      (∀ times times', Duration.total times = Duration.total times' → t.Accepts times →
        t.Accepts times' →
        ∃ counts counts' t', t.advanceAll? times = some (counts, t') ∧
          t.advanceAll? times' = some (counts', t') ∧ tickTotal counts = tickTotal counts') := by
  obtain ⟨t, hrate⟩ := exists_ofRate hpos hmax
  obtain ⟨-, htick, -⟩ := ofRate_eq_ok hrate
  refine ⟨t, hrate, htick, t.tick_pos, ?_, ?_, ?_⟩
  · intro t₁ elapsed hsame hfits
    rw [← hsame]
    obtain ⟨turns, rest, hdrains⟩ :=
      exists_drains t₁.tick_pos (t₁.pending.nanoseconds + elapsed.nanoseconds)
    exact ⟨turns, rest, hdrains, advance?_of_drains hdrains hfits,
      advance?_of_drains_overflow hdrains⟩
  · intro times haccepts
    exact drainsTotal_of_ofRate hrate haccepts
  · intro times times' htotal haccepts haccepts'
    obtain ⟨counts, t₁, hadvance, -, hdrains⟩ := drainsTotal_of_ofRate hrate haccepts
    obtain ⟨counts', t₂, hadvance', -, hdrains'⟩ := drainsTotal_of_ofRate hrate haccepts'
    rw [← htotal] at hdrains'
    obtain ⟨hticks, rfl⟩ := hdrains.unique hdrains'
    exact ⟨counts, counts', t₁, hadvance, hadvance', hticks⟩

/-- At 60 ticks a second, a twentieth of a second in two pieces and in one: three ticks are drained,
and 2 ns stay pending. -/
theorem ticks_of_total_sixty :
    let t : Timestep := ⟨⟨16666666, by decide⟩, .zero, by decide⟩
    let times : List Duration := [⟨33333333, by decide⟩, ⟨16666667, by decide⟩]
    let times' : List Duration := [⟨50000000, by decide⟩]
    1 ≤ 60 ∧ 60 ≤ maxRate ∧ t.Accepts times ∧ t.Accepts times' ∧
      ∃ counts counts' t', t.advanceAll? times = some (counts, t') ∧
        t.advanceAll? times' = some (counts', t') ∧ tickTotal counts = 3 ∧ tickTotal counts' = 3 ∧
        t'.pending.nanoseconds = 2 := by
  intro t times times'
  have hmax : 60 ≤ maxRate := by decide
  have haccepts : t.Accepts times := accepts_of_total (by decide) (by decide)
  have haccepts' : t.Accepts times' := accepts_of_total (by decide) (by decide)
  obtain ⟨t₀, hrate, -, -, -, hform, hbatches⟩ := ticks_of_total 60 (by decide) hmax
  obtain rfl : t = t₀ := Except.ok.inj hrate
  obtain ⟨counts, counts', t', hadvance, hadvance', hsame⟩ :=
    hbatches times times' rfl haccepts haccepts'
  obtain ⟨counts'', t'', hadvance'', -, hdrains⟩ := hform times haccepts
  cases hadvance.symm.trans hadvance''
  have hticks : tickTotal counts = 3 := hdrains.ticks_eq.trans (by decide)
  have hpending : t'.pending.nanoseconds = 50000000 - 16666666 * tickTotal counts :=
    hdrains.pending_eq
  rw [hticks] at hpending
  exact ⟨by decide, hmax, haccepts, haccepts', counts, counts', t', hadvance, hadvance', hticks,
    hsame ▸ hticks, hpending⟩

end ChipEight.Timestep
