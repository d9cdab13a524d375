import ChipEight.Proofs.Chronicle
import ChipEight.Proofs.Lockstep
import Mathlib.Data.Set.Defs

/-!
# Memory that is never read has no influence

A cycle reads two bytes when it fetches a word, and more of them when it draws a sprite or loads
registers. `Machine.ReadsByte` says which. Everything else in memory has no influence on it: two
machines that differ only in bytes that are not read go through the cycle in the same way
(`Machine.lockstep_memory`), and through a whole run if no cycle of it reads one of these bytes
(`Machine.unread_memory_has_no_influence`). What is stored does not depend on what was there, so a
byte in which they differ may be overwritten, and is then the same.
-/

namespace ChipEight

/-- The instruction reads the byte at `address` when the index is `index`. -/
def Instruction.Loads (index address : Nat) : Instruction → Prop
  | .draw _ _ rows => index ≤ address ∧ address < index + rows
  | .loadRegisters x => index ≤ address ∧ address ≤ index + x
  | _ => False

instance (index address : Nat) : (i : Instruction) → Decidable (i.Loads index address)
  | .draw _ _ _ | .loadRegisters _ => inferInstanceAs (Decidable (_ ∧ _))
  | .clear | .ret | .jump _ | .call _ | .skipIf _ | .setByte _ _ | .addByte _ _ | .alu _ _ _
  | .setIndex _ | .jumpOffset _ | .random _ _ | .readDelay _ | .waitKey _ | .setDelay _
  | .setSound _ | .addIndex _ | .pointAtDigit _ | .storeDecimal _ | .storeRegisters _ =>
    inferInstanceAs (Decidable False)

/-- The memories agree at all addresses outside `Q`. -/
def Memory.SameBut (Q : Set Nat) (memory memory' : Memory) : Prop :=
  ∀ address, address ∉ Q → memory'.read address = memory.read address

namespace Memory

variable {Q : Set Nat} {memory memory' : Memory}

/-- The same bytes written to both leave the memories in agreement where they were, and make them
agree where the bytes are. -/
theorem SameBut.write (h : SameBut Q memory memory') (start : Nat) (bytes : List UInt8) :
    SameBut Q (memory.write start bytes) (memory'.write start bytes) := by
  intro address haddress
  rw [read_write, read_write, h address haddress]

/-- A block of which no byte lies in `Q` is the same in both. -/
theorem SameBut.slice (h : SameBut Q memory memory') {start n : Nat}
    (hout : ∀ k < n, start + k ∉ Q) : memory'.slice start n = memory.slice start n := by
  refine List.ext_getElem (by simp) fun k hk _ => ?_
  rw [length_slice] at hk
  rw [getElem_slice, getElem_slice, h _ (hout k hk)]

/-- A word of which no byte lies in `Q` is the same in both. -/
theorem SameBut.word (h : SameBut Q memory memory') {address : Nat} (hfirst : address ∉ Q)
    (hsecond : address + 1 ∉ Q) : memory'.word address = memory.word address := by
  rw [Memory.word, Memory.word, h _ hfirst, h _ hsecond]

end Memory

namespace Machine

/-- The machine with another memory. -/
def withMemory (m : Machine) (memory : Memory) : Machine :=
  { m with memory }

/-- The machines are in the same state but for the bytes of memory at the addresses in `Q`. -/
def SameButMemory (Q : Set Nat) (m m' : Machine) : Prop :=
  ∃ memory, m' = m.withMemory memory ∧ m.memory.SameBut Q memory

/-- The next cycle reads the byte at `address`. -/
inductive ReadsByte (m : Machine) (address : Nat) : Prop where
  /-- A word that is fetched is read, also if it is no instruction. -/
  | fetched (hrunning : m.waiting = none) (hinside : m.pc.toNat + 1 < 4096)
      (haddress : address = m.pc.toNat ∨ address = m.pc.toNat + 1)
  /-- A sprite that is drawn is read, and registers that are loaded are. -/
  | loaded (i : Instruction) (hexec : m.Executes i) (hsuccess : m.cycle.fault = none)
      (hloads : i.Loads m.index.toNat address)

instance (m : Machine) (address : Nat) : Decidable (m.ReadsByte address) :=
  decidable_of_iff
    ((m.waiting = none ∧ m.pc.toNat + 1 < 4096 ∧
        (address = m.pc.toNat ∨ address = m.pc.toNat + 1)) ∨
      ∃ i ∈ m.instruction?, m.cycle.fault = none ∧ i.Loads m.index.toNat address) <| by
    constructor
    · rintro (⟨hrunning, hinside, haddress⟩ | ⟨i, hsome, hsuccess, hloads⟩)
      · exact .fetched hrunning hinside haddress
      · exact .loaded i (instruction?_eq_some_iff.1 hsome) hsuccess hloads
    · rintro (⟨hrunning, hinside, haddress⟩ | ⟨i, hexec, hsuccess, hloads⟩)
      · exact .inl ⟨hrunning, hinside, haddress⟩
      · exact .inr ⟨i, instruction?_eq_some_iff.2 hexec, hsuccess, hloads⟩

variable {Q : Set Nat} {m m' : Machine} {memory : Memory} {i : Instruction}

/-- An instruction that reads no byte at an address in `Q` has the same effect on both machines, and
leaves them with memories that agree outside `Q`. -/
theorem effect_withMemory (hsame : m.memory.SameBut Q memory)
    (hunread : ∀ a ∈ Q, ¬ i.Loads m.index.toNat a) :
    SameButMemory Q (m.effect i) ((m.withMemory memory).effect i) := by
  -- Two instructions put the same bytes in both memories, and two look at bytes outside `Q`.
  cases i with
  | storeDecimal x => exact ⟨_, rfl, hsame.write _ _⟩
  | storeRegisters x => exact ⟨_, rfl, hsame.write _ _⟩
  | draw x y rows =>
    have hsprite : memory.slice m.index.toNat rows = m.memory.slice m.index.toNat rows :=
      hsame.slice fun k hk hQ =>
        hunread _ hQ ⟨Nat.le_add_right _ _, Nat.add_lt_add_left hk _⟩
    refine ⟨memory, ?_, hsame⟩
    simp only [effect, draw, withMemory, hsprite]
    rfl
  | loadRegisters x =>
    have hblock : m.registers.fill x (fun k => memory.read (m.index.toNat + k)) =
        m.registers.fill x fun k => m.memory.read (m.index.toNat + k) := by
      refine Registers.ext_get fun y => ?_
      rw [Registers.get_fill, Registers.get_fill]
      split
      · next hle =>
        exact hsame _ fun hQ => hunread _ hQ ⟨Nat.le_add_right _ _, Nat.add_le_add_left hle _⟩
      · rfl
    simp only [effect, withMemory, hblock]
    exact ⟨memory, rfl, hsame⟩
  | skipIf condition =>
    refine ⟨memory, ?_, hsame⟩
    cases condition <;> rfl
  | _ => exact ⟨memory, rfl, hsame⟩

/-- Memory does not decide whether an instruction is refused. -/
theorem refusal_withMemory (m : Machine) (memory : Memory) (i : Instruction) :
    (m.withMemory memory).refusal i = m.refusal i := by
  cases i <;> rfl

theorem alike_awaitKey_withMemory (hsame : m.memory.SameBut Q memory) (x : Fin 16) :
    (m.awaitKey x).Alike (SameButMemory Q) ((m.withMemory memory).awaitKey x) := by
  have htake : (m.withMemory memory).keypad.take = m.keypad.take := rfl
  unfold awaitKey
  rw [htake]
  split <;> exact ⟨⟨memory, rfl, hsame⟩, rfl, rfl⟩

/-- A cycle that reads no byte in which two machines differ goes the same way on both. -/
theorem lockstep_memory (hsame : SameButMemory Q m m') (hunread : ∀ a ∈ Q, ¬ m.ReadsByte a) :
    Lockstep (SameButMemory Q) m m' := by
  obtain ⟨memory, rfl, hsame⟩ := hsame
  refine
    { waiting := rfl
      pc := rfl
      word := ?_
      start := ⟨memory, rfl, hsame⟩
      fetched := ⟨memory, rfl, hsame⟩
      refusal := fun i _ => refusal_withMemory m.fetched memory i
      effect := ?_
      awaitKey := fun x _ => alike_awaitKey_withMemory hsame x }
  · intro hrunning hinside
    apply hsame.word
    · exact fun hQ => hunread _ hQ (.fetched hrunning hinside (.inl rfl))
    · exact fun hQ => hunread _ hQ (.fetched hrunning hinside (.inr rfl))
  · intro i hexec hrefusal
    have hsuccess : m.cycle.fault = none := (cycle_of_not_refused hexec hrefusal).1
    have heffect : SameButMemory Q (m.fetched.effect i) ((m.fetched.withMemory memory).effect i) :=
      effect_withMemory hsame fun a hQ hloads => hunread a hQ (.loaded i hexec hsuccess hloads)
    obtain ⟨memory', hmachine, hsame'⟩ := heffect
    exact ⟨memory', congrArg tickTimers hmachine, hsame'⟩

/-- Actions other than cycles read nothing from memory. -/
theorem alike_perform_memory (hsame : SameButMemory Q m m') {action : Action}
    (haction : action ≠ .cycle) :
    (m.perform action).Alike (SameButMemory Q) (m'.perform action) := by
  obtain ⟨memory, rfl, hsame⟩ := hsame
  cases action with
  | load program =>
    show (m.load program).Alike _ ((m.withMemory memory).load program)
    unfold load
    split
    · exact ⟨⟨memory, rfl, hsame⟩, rfl, rfl⟩
    · exact ⟨⟨_, rfl, hsame.write _ program⟩, rfl, rfl⟩
  | cycle => exact absurd rfl haction
  | _ => exact ⟨⟨memory, rfl, hsame⟩, rfl, rfl⟩

/-- Memory that is never read has no influence. Take two machines that differ only in bytes of
memory at addresses in `Q`. If no cycle in the run of the first one reads such a byte, each action
gives the same result on both, and their states never differ in anything else. -/
theorem unread_memory_has_no_influence (Q : Set Nat) (m m' : Machine)
    (hsame : SameButMemory Q m m') (actions : List Action)
    (hunread : ∀ before after, actions = before ++ .cycle :: after →
      ∀ a ∈ Q, ¬ (m.after before).ReadsByte a) :
    (∀ before after, actions = before ++ after →
      SameButMemory Q (m.after before) (m'.after before)) ∧
      ∀ before action after, actions = before ++ action :: after →
        let report := (m.after before).perform action
        let report' := (m'.after before).perform action
        report'.fault = report.fault ∧ report'.log = report.log := by
  have hstep : ∀ before action after, actions = before ++ action :: after →
      SameButMemory Q (m.after before) (m'.after before) →
        ((m.after before).perform action).Alike (SameButMemory Q)
          ((m'.after before).perform action) := by
    intro before action after hsplit hbefore
    by_cases haction : action = .cycle
    · subst haction
      exact (lockstep_memory hbefore (hunread before after hsplit)).cycle
    · exact alike_perform_memory hbefore haction
  obtain ⟨hstates, hreports⟩ := alike_after (R := fun _ => SameButMemory Q) hsame hstep
  refine ⟨hstates, fun before action after hsplit => ?_⟩
  obtain ⟨-, hfault, hlog⟩ := hreports before action after hsplit
  exact ⟨hfault, hlog⟩

/-- The two machines differ in the byte at `0x300`. A sprite ends before it, registers are loaded
from behind it, and then it is overwritten. -/
theorem unread_memory_has_no_influence_overwritten :
    let program : List Instruction :=
      [.setIndex 0x2FE, .draw 0 1 2, .setIndex 0x301, .loadRegisters 3, .setIndex 0x300,
        .storeDecimal 0]
    let m := (Machine.new {} (Vector.replicate 8 0)).act (.load (Instruction.assemble program))
    let m' := m.withMemory (m.memory.set 0x300 7)
    let actions : List Action :=
      [.cycle, .cycle, .cycle, .key (.press 3), .cycle, .cycle, .cycle]
    SameButMemory {0x300} m m' ∧
      (∀ before after, actions = before ++ .cycle :: after →
        ∀ a ∈ ({0x300} : Set Nat), ¬ (m.after before).ReadsByte a) ∧
      SameButMemory {0x300} (m.after actions) (m'.after actions) := by
  intro program m m' actions
  have hsame : SameButMemory {0x300} m m' := by
    refine ⟨_, rfl, fun address haddress => ?_⟩
    rw [Memory.read_set, if_neg fun h => haddress h.1.symm]
  have hunread : ∀ k < actions.length, ¬ (m.after (actions.take k)).ReadsByte 0x300 := by
    decide +kernel
  have hrun : ∀ before after, actions = before ++ .cycle :: after →
      ∀ a ∈ ({0x300} : Set Nat), ¬ (m.after before).ReadsByte a := by
    rintro before after hsplit a rfl
    have hlength : before.length < actions.length := by simp [hsplit]
    have hbefore := hunread _ hlength
    rwa [hsplit, List.take_left] at hbefore
  obtain ⟨hstates, -⟩ := unread_memory_has_no_influence {0x300} m m' hsame actions hrun
  exact ⟨hsame, hrun, hstates actions [] (List.append_nil actions).symm⟩

end Machine

end ChipEight
