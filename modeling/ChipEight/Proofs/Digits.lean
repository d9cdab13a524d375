import ChipEight.Proofs.SpriteCollision
import ChipEight.Proofs.StraightLine.Execution

/-!
# Digits

The font lies below the memory where programs are loaded, so only a program can damage it, by
storing bytes there. As long as a program does not do so, what it prints as a digit is this digit.

* `Machine.read_after_of_not_stores` is the footprint of a whole run: below `Memory.programStart` a
  byte changes only in a cycle that stores it.
* `Machine.slice_font_after` applies it to the font.
* `Machine.digits_print_as_digits` adds what the two instructions do that print a digit.
-/

namespace ChipEight.Machine

variable {m s : Machine} {address : Nat} {actions : List Action}

/-! ### Memory below the program -/

/-- The next cycle executes an instruction that stores a byte at `address`. -/
def StoresAt (m : Machine) (address : Nat) : Prop :=
  ∃ i, m.Executes i ∧ i.Stores m.index.toNat address

/-- A cycle that succeeds changes no byte but those that it stores. -/
theorem read_cycle_of_not_stores (hsuccess : s.cycle.fault = none) (h : ¬ s.StoresAt address) :
    s.cycle.machine.memory.read address = s.memory.read address := by
  cases successCase hsuccess with
  | paused x _ hcycle =>
    rw [hcycle, (pauseFootprint_awaitKey s x).2.memory]
  | executed i hsome hrefusal hmachine =>
    have hexec : s.Executes i := instruction?_eq_some_iff.1 hsome
    rw [hmachine]
    exact (footprint_of_refusal hrefusal).memory address fun hstores => h ⟨i, hexec, hstores⟩

/-- Whatever is no successful cycle leaves the memory below the program alone. -/
theorem read_act_of_not_succeeds {action : Action} (hlow : address < Memory.programStart)
    (h : ¬ s.Succeeds action) : (s.act action).memory.read address = s.memory.read address := by
  cases action with
  | load program =>
    rw [act_load]
    dsimp only
    split
    · rfl
    · exact Memory.read_write_outside _ (.inl hlow)
  | cycle =>
    have hfault : s.cycle.fault ≠ none := fun hnone => h ⟨rfl, hnone⟩
    show s.cycle.machine.memory.read address = _
    rcases cycle_of_fault hfault with hcycle | hcycle
    · rw [hcycle]
    · rw [hcycle]
      rfl
  | _ => rfl

/-- Below the program a byte stays the same throughout a run that does not store it. -/
theorem read_after_of_not_stores (hlow : address < Memory.programStart)
    (h : ∀ s ∈ m.successes actions, ¬ s.StoresAt address) :
    (m.after actions).memory.read address = m.memory.read address := by
  -- What is known of the chronicle goes into the induction, for the part of it so far.
  revert h
  refine successes_induction (P := fun s past =>
    (∀ t ∈ past, ¬ t.StoresAt address) → s.memory.read address = m.memory.read address)
    (fun _ => rfl) ?_ ?_
  · intro s past ih hsuccess h
    have hs : ¬ s.StoresAt address := h s (by simp)
    rw [read_cycle_of_not_stores hsuccess hs]
    exact ih fun t ht => h t (List.mem_append_left _ ht)
  · intro s past action _ ih hidle h
    rw [read_act_of_not_succeeds hlow hidle]
    exact ih h

/-! ### The font -/

/-- If the next cycle stores anything, it stores it behind the font. -/
def SparesFont (m : Machine) : Prop :=
  ∀ x, m.Executes (.storeDecimal x) ∨ m.Executes (.storeRegisters x) → 80 ≤ m.index.toNat

instance (m : Machine) : Decidable m.SparesFont :=
  decidable_of_iff
    (∀ x, m.instruction? = some (.storeDecimal x) ∨ m.instruction? = some (.storeRegisters x) →
      80 ≤ m.index.toNat)
    (by simp only [instruction?_eq_some_iff]; rfl)

theorem SparesFont.not_storesAt (h : m.SparesFont) (hfont : address < 80) :
    ¬ m.StoresAt address := by
  rintro ⟨i, hexec, hstores⟩
  -- only two instructions store bytes, and both begin at the index
  cases i with
  | storeDecimal x =>
    have hbehind := h x (.inl hexec)
    exact absurd hstores.1 (by omega)
  | storeRegisters x =>
    have hbehind := h x (.inr hexec)
    exact absurd hstores.1 (by omega)
  | _ => exact hstores

/-- A program that spares the font finds it where it was at the start. -/
theorem read_font_after (config : Config) (entropy : Vector UInt32 8)
    (h : ∀ s ∈ (Machine.new config entropy).successes actions, s.SparesFont)
    (hfont : address < 80) :
    ((Machine.new config entropy).after actions).memory.read address =
      Font.sprites.getD address 0 := by
  have hlow : address < Memory.programStart := Nat.lt_trans hfont (by decide)
  rw [read_after_of_not_stores hlow fun s hs => (h s hs).not_storesAt hfont]
  exact read_bootMemory address

theorem slice_font_after (config : Config) (entropy : Vector UInt32 8)
    (h : ∀ s ∈ (Machine.new config entropy).successes actions, s.SparesFont) :
    ((Machine.new config entropy).after actions).memory.slice 0 80 = Font.sprites := by
  refine List.ext_getElem (by rw [Memory.length_slice]; rfl) fun k hk hk' => ?_
  rw [Memory.length_slice] at hk
  rw [Memory.getElem_slice, Nat.zero_add, read_font_after config entropy h hk,
    List.getD_eq_getElem _ _ hk']

/-! ### Printing a digit -/

/-- The cell lies under a set bit of the digit `k` when the digit is drawn with its upper left
corner at the coordinates `left` and `top`. -/
def UnderDigit (k left top : Nat) (c : Cell) : Prop :=
  ∃ (row : Fin 5) (column : Fin 8),
    (Font.sprites.getD (5 * k + row) 0).toNat.testBit (7 - column) = true ∧
      c.x.val = (left + column) % 64 ∧ c.y.val = (top + row) % 32

instance (k left top : Nat) (c : Cell) : Decidable (UnderDigit k left top c) :=
  inferInstanceAs (Decidable (∃ (_ : Fin 5) (_ : Fin 8), _))

variable {x y z : Fin 16}

/-- Pointing at a digit always succeeds and moves the index only. -/
theorem cycle_of_pointAtDigit (hexec : s.Executes (.pointAtDigit x)) :
    s.cycle.fault = none ∧
      s.cycle.machine = { s.fetched with index := Font.address (s.v x) }.tickTimers :=
  cycle_of_not_refused hexec rfl

/-- The mask of the digit at which the index points. -/
theorem mask_of_digit {k : Nat} (hk : k ≤ 15)
    (hfont : ∀ a < 80, s.memory.read a = Font.sprites.getD a 0) (hindex : s.index.toNat = 5 * k)
    (c : Cell) : s.mask x y 5 c = true ↔ UnderDigit k (s.v x).toNat (s.v y).toNat c := by
  unfold mask UnderDigit
  rw [decide_eq_true_eq]
  -- each row of the sprite is a byte inside the font
  refine exists_congr fun row => exists_congr fun column => ?_
  rw [hindex, hfont _ (by omega)]

/-- Where the font is in place, a digit that is pointed at and drawn turns over the pixels under it,
at the coordinates in the registers `y` and `z`. -/
theorem digit_printed (hfont : ∀ a < 80, s.memory.read a = Font.sprites.getD a 0)
    (hpoint : s.Executes (.pointAtDigit x)) (hdigit : (s.v x).toNat ≤ 15)
    (hdraw : s.cycle.machine.Executes (.draw y z 5)) :
    s.cycle.fault = none ∧ s.cycle.machine.cycle.fault = none ∧
      ∀ c, s.cycle.machine.cycle.machine.screen.isLit c ≠ s.screen.isLit c ↔
        UnderDigit (s.v x).toNat (s.v y).toNat (s.v z).toNat c := by
  obtain ⟨hpointed, hmachine⟩ := cycle_of_pointAtDigit hpoint
  -- memory, registers and screen are still those from before the first instruction
  have hmemory : s.cycle.machine.memory = s.memory := congrArg (·.memory) hmachine
  have hv : ∀ r, s.cycle.machine.v r = s.v r := fun r => congrArg (·.v r) hmachine
  have hscreen : s.cycle.machine.screen = s.screen := congrArg (·.screen) hmachine
  have hindex : s.cycle.machine.index.toNat = 5 * (s.v x).toNat := by
    rw [hmachine]
    exact Font.toNat_address (s.v x)
  have hinside : s.cycle.machine.index.toNat + (5 : Fin 16) ≤ 4096 := by
    have hfive : ((5 : Fin 16) : Nat) = 5 := rfl
    omega
  refine ⟨hpointed, (cycle_of_draw hdraw hinside).1, fun c => ?_⟩
  have hturned : s.cycle.machine.cycle.machine.screen.isLit c =
      (s.screen.isLit c ^^ s.cycle.machine.mask y z 5 c) := by
    rw [isLit_cycle_of_draw hdraw hinside, hscreen]
    rfl
  have hmask : s.cycle.machine.mask y z 5 c = true ↔
      UnderDigit (s.v x).toNat (s.v y).toNat (s.v z).toNat c := by
    rw [mask_of_digit hdigit (by rwa [hmemory]) hindex, hv, hv]
  rw [hturned, ← hmask]
  cases s.cycle.machine.mask y z 5 c <;> simp

/-- Digits print as digits as long as the program leaves the font alone. If every cycle of a run
that stored something stored it behind the font, the font is in place after the run, and a digit
that is then pointed at and drawn turns over exactly the pixels under it. -/
theorem digits_print_as_digits (config : Config) (entropy : Vector UInt32 8)
    (actions : List Action)
    (hspares : ∀ s ∈ (Machine.new config entropy).successes actions, s.SparesFont) :
    let s := (Machine.new config entropy).after actions
    s.memory.slice 0 80 = Font.sprites ∧
      ∀ x y z, s.Executes (.pointAtDigit x) → (s.v x).toNat ≤ 15 →
        s.cycle.machine.Executes (.draw y z 5) →
          s.cycle.fault = none ∧ s.cycle.machine.cycle.fault = none ∧
            ∀ c, s.cycle.machine.cycle.machine.screen.isLit c ≠ s.screen.isLit c ↔
              UnderDigit (s.v x).toNat (s.v y).toNat (s.v z).toNat c := by
  intro s
  refine ⟨slice_font_after config entropy hspares, fun x y z hpoint hdigit hdraw => ?_⟩
  exact digit_printed (fun a ha => read_font_after config entropy hspares ha) hpoint hdigit hdraw

/-- A number is stored right behind the font, and the digit B is drawn over the lower right corner
of the screen: its upper left pixel is turned over there, and one of its fourth row on the other
side of both edges. -/
theorem digits_print_as_digits_corner :
    let program : List Instruction :=
      [.setIndex 80, .setByte 1 0xB, .storeDecimal 1, .setByte 2 62, .setByte 3 30,
        .pointAtDigit 1, .draw 2 3 5]
    let m := Machine.new {} (Vector.replicate 8 0)
    let actions : List Action :=
      [.load (Instruction.assemble program), .cycle, .cycle, .cycle, .key (.press 3), .cycle,
        .cycle]
    let s := m.after actions
    (∀ t ∈ m.successes actions, t.SparesFont) ∧ s.Executes (.pointAtDigit 1) ∧
      (s.v 1).toNat ≤ 15 ∧ s.cycle.machine.Executes (.draw 2 3 5) ∧
      s.memory.slice 0 80 = Font.sprites ∧ s.cycle.machine.cycle.fault = none ∧
      s.cycle.machine.cycle.machine.screen.isLit ⟨62, 30⟩ ≠ s.screen.isLit ⟨62, 30⟩ ∧
      s.cycle.machine.cycle.machine.screen.isLit ⟨1, 1⟩ ≠ s.screen.isLit ⟨1, 1⟩ := by
  intro program m actions s
  -- the run is evaluated once for all that has to be known of it
  obtain ⟨hspares, hpoint, hdigit, hdraw, hcorner, htop⟩ :
      (∀ t ∈ m.successes actions, t.SparesFont) ∧ s.instruction? = some (.pointAtDigit 1) ∧
        (s.v 1).toNat ≤ 15 ∧ s.cycle.machine.instruction? = some (.draw 2 3 5) ∧
        UnderDigit (s.v 1).toNat (s.v 2).toNat (s.v 3).toNat ⟨62, 30⟩ ∧
        UnderDigit (s.v 1).toNat (s.v 2).toNat (s.v 3).toNat ⟨1, 1⟩ := by
    decide +kernel
  have hpoint : s.Executes (.pointAtDigit 1) := instruction?_eq_some_iff.1 hpoint
  have hdraw : s.cycle.machine.Executes (.draw 2 3 5) := instruction?_eq_some_iff.1 hdraw
  obtain ⟨hfont, hprinted⟩ :=
    digits_print_as_digits {} (Vector.replicate 8 0) actions hspares
  obtain ⟨-, hdrawn, hturned⟩ := hprinted 1 2 3 hpoint hdigit hdraw
  exact ⟨hspares, hpoint, hdigit, hdraw, hfont, hdrawn, (hturned _).2 hcorner, (hturned _).2 htop⟩

end ChipEight.Machine
