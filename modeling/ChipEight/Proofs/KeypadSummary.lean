import ChipEight.Proofs.KeyHistory

/-!
# The keypad as a summary of its history

Whoever uses a keypad sends it events or takes the latched press. A history is the list of these
uses, from the first one of an idle keypad on. Both things that a keypad can be asked are read off
the history.

* A key is held if the last use that concerns it was a press of it (`isHeld_useAll`).
* What is taken is the key of the last rising press, unless it was taken before
  (`latch_useAll_eq_some_iff`). A press rises if its key is not held at that moment.

`keypad_summarizes_history` puts the two together.
-/

namespace ChipEight

/-- Something that is done to a keypad. -/
inductive KeypadUse where
  /-- The keypad receives an event. -/
  | event (event : KeyEvent)
  /-- The latched press is taken. -/
  | take
deriving DecidableEq, Repr

namespace KeypadUse

/-- The use presses, releases or otherwise concerns key `key`. -/
def concerns (key : Nat) : KeypadUse → Bool
  | .event (.press k) | .event (.release k) => k == key
  | .event .releaseAll => true
  | .take => false

/-- Of all uses that concern `key`, which is one of the sixteen keys, the last one presses it. -/
def PressedLast (history : List KeypadUse) (key : Nat) : Prop :=
  key < 16 ∧ (history.filter (concerns key)).getLast? = some (.event (.press key))

instance (history : List KeypadUse) (key : Nat) : Decidable (PressedLast history key) :=
  inferInstanceAs (Decidable (_ ∧ _))

/-- The use number `n` is a press of one of the sixteen keys, `key`, that was not held. -/
def Rises (history : List KeypadUse) (n : Nat) (key : Fin 16) : Prop :=
  history[n]? = some (.event (.press key)) ∧ ¬ PressedLast (history.take n) key

instance (history : List KeypadUse) (n : Nat) (key : Fin 16) : Decidable (Rises history n key) :=
  inferInstanceAs (Decidable (_ ∧ _))

/-- Someone takes the latched press after the use number `n`. -/
def TakenSince (history : List KeypadUse) (n : Nat) : Prop :=
  ∃ l, n < l ∧ history[l]? = some .take

/-- The use number `n` is the last rising press, and it was not taken since. -/
structure RisesLast (history : List KeypadUse) (n : Nat) (key : Fin 16) : Prop where
  rises : Rises history n key
  untaken : ¬ TakenSince history n
  last : ∀ l, n < l → ∀ other, ¬ Rises history l other

/-- What is to be taken after the history: the key of the last rising press, or nothing if every
rising press was taken already. -/
def Leaves (history : List KeypadUse) : Option (Fin 16) → Prop
  | some key => ∃ n, RisesLast history n key
  | none => ∀ n key, Rises history n key → TakenSince history n

/-! ### A history with one use more -/

section
variable {history : List KeypadUse} {use : KeypadUse} {n : Nat} {key : Fin 16}

theorem pressedLast_concat (history : List KeypadUse) (use : KeypadUse) (j : Nat) :
    PressedLast (history ++ [use]) j ↔
      if use.concerns j then j < 16 ∧ use = .event (.press j) else PressedLast history j := by
  rw [PressedLast, List.filter_append]
  by_cases h : use.concerns j = true
  · simp [h]
  · simp [h, PressedLast]

theorem getElem?_concat (history : List KeypadUse) (use : KeypadUse) (n : Nat) :
    (history ++ [use])[n]? = if n = history.length then some use else history[n]? := by
  split
  · next h => rw [h, List.getElem?_concat_length]
  · next h =>
    rcases Nat.lt_or_gt_of_ne h with hlt | hgt
    · rw [List.getElem?_append_left hlt]
    · rw [List.getElem?_eq_none (by simp; omega), List.getElem?_eq_none (by omega)]

theorem Rises.lt (h : Rises history n key) : n < history.length :=
  (List.getElem?_eq_some_iff.1 h.1).1

/-- A rising press of the longer history is one of the shorter history, or it is the latest use. -/
theorem rises_concat :
    Rises (history ++ [use]) n key ↔
      Rises history n key ∨
        n = history.length ∧ use = .event (.press key) ∧ ¬ PressedLast history key := by
  rw [Rises, getElem?_concat]
  split
  · next h =>
    subst h
    have hearlier : ¬ Rises history history.length key := fun h => Nat.lt_irrefl _ h.lt
    simp [hearlier]
  · next h =>
    -- what came before an earlier use is not touched by the latest one
    have hsame : history[n]? = some (.event (.press key)) →
        (history ++ [use]).take n = history.take n := fun hn =>
      List.take_append_of_le_length (Nat.le_of_lt (List.getElem?_eq_some_iff.1 hn).1)
    simp only [h, false_and, or_false, Rises]
    exact and_congr_right fun hn => by rw [hsame hn]

/-- A use more changes nothing about what was taken, unless it takes something itself. -/
theorem takenSince_concat (h : use ≠ .take) :
    TakenSince (history ++ [use]) n ↔ TakenSince history n := by
  refine exists_congr fun l => and_congr_right fun _ => ?_
  rw [getElem?_concat]
  split
  · next hl => simp [h, hl]
  · exact Iff.rfl

/-- A take leaves nothing to be taken. -/
theorem leaves_concat_take : Leaves (history ++ [.take]) none := by
  intro n key hrises
  rcases rises_concat.1 hrises with hearlier | ⟨-, hpress, -⟩
  · exact ⟨history.length, hearlier.lt, List.getElem?_concat_length⟩
  · cases hpress

/-- After a rising press its key is to be taken. -/
theorem leaves_concat_press (h : ¬ PressedLast history key) :
    Leaves (history ++ [.event (.press key)]) (some key) := by
  refine ⟨history.length, rises_concat.2 (.inr ⟨rfl, rfl, h⟩), ?_, ?_⟩
  · rintro ⟨l, hl, htake⟩
    rw [List.getElem?_eq_none (by simp; omega)] at htake
    cases htake
  · intro l hl other hrises
    have hlt := hrises.lt
    rw [List.length_append, List.length_singleton] at hlt
    omega

/-- Any other event changes nothing about what is to be taken. -/
theorem Leaves.concat_event {event : KeyEvent} {key? : Option (Fin 16)} (h : Leaves history key?)
    (hrises : ∀ key : Fin 16, event = .press key → PressedLast history key) :
    Leaves (history ++ [.event event]) key? := by
  have hearlier : ∀ {n key}, Rises (history ++ [.event event]) n key → Rises history n key := by
    intro n key hrise
    rcases rises_concat.1 hrise with hrise | ⟨-, hpress, hfree⟩
    · exact hrise
    · exact absurd (hrises key (KeypadUse.event.inj hpress)) hfree
  cases key? with
  | none =>
    intro n key hrise
    exact (takenSince_concat (by simp)).2 (h n key (hearlier hrise))
  | some key =>
    obtain ⟨n, hlast⟩ := h
    refine ⟨n, rises_concat.2 (.inl hlast.rises), ?_, ?_⟩
    · rw [takenSince_concat (by simp)]
      exact hlast.untaken
    · exact fun l hl other hrise => hlast.last l hl other (hearlier hrise)

/-- There is at most one answer to what is to be taken. -/
theorem Leaves.unique {key? key?' : Option (Fin 16)} (h : Leaves history key?)
    (h' : Leaves history key?') : key? = key?' := by
  cases key? with
  | none =>
    cases key?' with
    | none => rfl
    | some key =>
      obtain ⟨n, hlast⟩ := h'
      exact absurd (h n key hlast.rises) hlast.untaken
  | some key =>
    obtain ⟨n, hlast⟩ := h
    cases key?' with
    | none => exact absurd (h' n key hlast.rises) hlast.untaken
    | some key' =>
      obtain ⟨n', hlast'⟩ := h'
      -- of two last rising presses neither comes after the other
      obtain rfl : n = n' := by
        rcases Nat.lt_trichotomy n n' with hlt | heq | hgt
        · exact absurd hlast'.rises (hlast.last n' hlt key')
        · exact heq
        · exact absurd hlast.rises (hlast'.last n hgt key)
      have hpress := Option.some.inj (hlast.rises.1.symm.trans hlast'.rises.1)
      exact congrArg some (Fin.ext (KeyEvent.press.inj (KeypadUse.event.inj hpress)))

end

end KeypadUse

namespace HexKeypad

open KeypadUse (PressedLast Rises RisesLast TakenSince Leaves concerns)

/-- The keypad after something is done to it. -/
def use (k : HexKeypad) : KeypadUse → HexKeypad
  | .event event => k.handle event
  | .take => k.take.2

/-- The keypad after all uses of a history. -/
def useAll (k : HexKeypad) (history : List KeypadUse) : HexKeypad :=
  history.foldl use k

theorem useAll_concat (k : HexKeypad) (history : List KeypadUse) (u : KeypadUse) :
    k.useAll (history ++ [u]) = (k.useAll history).use u :=
  List.foldl_append

/-! ### The keys that are held -/

/-- A use that concerns a key decides whether it is held, and any other use leaves it alone. -/
theorem isHeld_use (k : HexKeypad) (u : KeypadUse) (j : Nat) :
    (k.use u).isHeld j = true ↔
      if u.concerns j then j < 16 ∧ u = .event (.press j) else k.isHeld j = true := by
  cases u with
  | take => exact Iff.rfl
  | event event =>
    show (k.handle event).isHeld j = true ↔ _
    rw [isHeld_handle]
    cases event with
    | press key =>
      by_cases hkey : key = j
      · subst hkey
        -- numbers that name no key are never held
        have hexists : k.isHeld key = true → key < 16 := by
          intro hheld
          by_contra hout
          rw [isHeld_of_le k (Nat.le_of_not_lt hout)] at hheld
          cases hheld
        simpa [KeyEvent.holdAfter, concerns] using hexists
      · simp [KeyEvent.holdAfter, concerns, hkey, Ne.symm hkey]
    | release key =>
      by_cases hkey : key = j
      · simp [KeyEvent.holdAfter, concerns, hkey]
      · simp [KeyEvent.holdAfter, concerns, hkey, Ne.symm hkey]
    | releaseAll => simp [KeyEvent.holdAfter, concerns]

/-- A key is held when the last use that concerns it was a press of it. -/
theorem isHeld_useAll (history : List KeypadUse) (j : Nat) :
    (idle.useAll history).isHeld j = true ↔ PressedLast history j := by
  induction history using List.reverseRecOn with
  | nil => simp [useAll, PressedLast]
  | append_singleton history u ih =>
    rw [useAll_concat, isHeld_use, KeypadUse.pressedLast_concat, ih]

/-! ### The press in the latch -/

/-- An event is a rising press of a key when it presses one of the sixteen keys and that key was not
pressed last. -/
theorem rising?_eq_some_iff (history : List KeypadUse) (event : KeyEvent) (key : Fin 16) :
    event.rising? (idle.useAll history).isHeld = some key ↔
      event = .press key ∧ ¬ PressedLast history key := by
  rw [← isHeld_useAll, Bool.not_eq_true]
  cases event with
  | press k =>
    simp only [KeyEvent.rising?, KeyEvent.press.injEq]
    split
    · next h =>
      rw [Option.some.injEq, Fin.ext_iff]
      exact ⟨fun hk => ⟨hk, hk ▸ h.2⟩, And.left⟩
    · next h =>
      refine iff_of_false (Option.some_ne_none key).symm ?_
      rintro ⟨rfl, hfree⟩
      exact h ⟨key.isLt, hfree⟩
  | release _ | releaseAll => simp [KeyEvent.rising?]

/-- The latch has what is to be taken after its history. -/
theorem leaves_latch (history : List KeypadUse) : Leaves history (idle.useAll history).latch := by
  induction history using List.reverseRecOn with
  | nil =>
    intro n key hrises
    exact absurd hrises.lt (Nat.not_lt_zero n)
  | append_singleton history u ih =>
    rw [useAll_concat]
    cases u with
    | take => exact KeypadUse.leaves_concat_take
    | event event =>
      show Leaves _ ((idle.useAll history).handle event).latch
      rw [latch_handle]
      cases hrising : event.rising? (idle.useAll history).isHeld with
      | some key =>
        obtain ⟨rfl, hfree⟩ := (rising?_eq_some_iff history event key).1 hrising
        exact KeypadUse.leaves_concat_press hfree
      | none =>
        -- a press that does not rise repeats the one of a key that is held
        refine ih.concat_event fun key hpress => ?_
        by_contra hfree
        rw [(rising?_eq_some_iff history event key).2 ⟨hpress, hfree⟩] at hrising
        cases hrising

theorem latch_useAll_eq_iff (history : List KeypadUse) (key? : Option (Fin 16)) :
    (idle.useAll history).latch = key? ↔ Leaves history key? :=
  ⟨fun h => h ▸ leaves_latch history, (leaves_latch history).unique⟩

/-- A keypad says what its history says. A key is held if it is one of the sixteen and the last use
that concerns it was a press of it. What can be taken is the key of the last rising press, whatever
was released or repeated since, unless it was taken; if all were taken, there is none. Other key
numbers have no effect. -/
theorem keypad_summarizes_history (history : List KeypadUse) :
    let keypad := idle.useAll history
    (∀ j, keypad.isHeld j = true ↔ PressedLast history j) ∧
      (∀ key, keypad.take.1 = some key ↔ ∃ n, RisesLast history n key) ∧
      (keypad.take.1 = none ↔ ∀ n key, Rises history n key → TakenSince history n) ∧
      ∀ key, 16 ≤ key → keypad.press key = keypad ∧ keypad.release key = keypad := by
  intro keypad
  refine ⟨isHeld_useAll history, fun key => latch_useAll_eq_iff history (some key),
    latch_useAll_eq_iff history none, fun key hout => ?_⟩
  have hout : ¬ key < 16 := Nat.not_lt.2 hout
  exact ⟨dif_neg hout, dif_neg hout⟩

/-- Key 3 is pressed, taken, repeated and released, and key 7 is pressed and released after a press
of a key that does not exist: 7 is to be taken, and no key is held. -/
theorem keypad_summarizes_history_repeated :
    let history : List KeypadUse :=
      [.event (.press 3), .take, .event (.press 3), .event (.release 3), .event (.press 16),
        .event (.press 7), .event .releaseAll]
    RisesLast history 5 7 ∧ (idle.useAll history).take.1 = some 7 ∧
      ¬ PressedLast history 7 ∧ (idle.useAll history).isHeld 7 = false ∧
      (idle.useAll history).press 16 = idle.useAll history := by
  intro history
  obtain ⟨hheld, htaken, -, hout⟩ := keypad_summarizes_history history
  -- only the release of all keys comes after the press of key 7
  have hafter : ∀ {l u}, 5 < l → history[l]? = some u → u = .event .releaseAll := by
    intro l u hl hu
    have hlt : l < 7 := (List.getElem?_eq_some_iff.1 hu).1
    obtain rfl : l = 6 := by omega
    exact (Option.some.inj hu).symm
  have hlast : RisesLast history 5 7 := by
    refine ⟨by decide, ?_, ?_⟩
    · rintro ⟨l, hl, htake⟩
      cases hafter hl htake
    · rintro l hl other ⟨hpress, -⟩
      cases hafter hl hpress
  have hreleased : ¬ PressedLast history 7 := by decide
  refine ⟨hlast, (htaken 7).2 ⟨5, hlast⟩, hreleased, ?_, (hout 16 (Nat.le_refl 16)).1⟩
  exact Bool.eq_false_iff.2 fun h => hreleased ((hheld 7).1 h)

end HexKeypad

end ChipEight
