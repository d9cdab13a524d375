import ChipEight.Proofs.Chronicle

/-!
# The order of the random bytes

The random bytes of a machine with a seed are fixed from the start, and a program takes them one
after the other. `Machine.randomCycles` picks the cycles that took a byte from the chronicle of a
run. However they lie in the run, the one with the number `k` got the byte with the number `k` of
the stream (`random_bytes_in_order`), so two programs with the same seed get the same bytes in the
same order.
-/

namespace ChipEight.Machine

variable {m s : Machine} {actions : List Action}

/-- The next cycle executes an instruction that takes a random byte. -/
def takesByte (m : Machine) : Bool :=
  match m.instruction? with
  | some (.random _ _) => true
  | _ => false

theorem takesByte_iff : m.takesByte = true ↔ ∃ x mask, m.Executes (.random x mask) := by
  simp only [← instruction?_eq_some_iff]
  unfold takesByte
  constructor
  · intro h
    split at h
    · next x mask hsome => exact ⟨x, mask, hsome⟩
    · cases h
  · rintro ⟨x, mask, hsome⟩
    rw [hsome]

/-- The machines of a chronicle that took a random byte. -/
def randomCycles (past : List Machine) : List Machine :=
  past.filter takesByte

/-- The number of bytes that an instruction takes, read off the machine that executes it. -/
theorem randomBytes_eq {i : Instruction} (hsome : m.instruction? = some i) :
    i.randomBytes = (randomCycles [m]).length := by
  cases i <;> simp [randomCycles, takesByte, hsome, Instruction.randomBytes]

/-- A cycle that succeeds takes as many bytes as its instruction, and none while the machine
waits. -/
theorem random_cycle (hsuccess : s.cycle.fault = none) :
    s.cycle.machine.random =
      { s.random with position := s.random.position + (randomCycles [s]).length } := by
  cases successCase hsuccess with
  | paused x hnone hcycle =>
    have hnothing : randomCycles [s] = [] := by simp [randomCycles, takesByte, hnone]
    rw [hcycle, hnothing]
    exact (pauseFootprint_awaitKey s x).2.random
  | executed i hsome _ hmachine =>
    rw [hmachine, ← randomBytes_eq hsome]
    exact random_effect s.fetched i

/-- A run takes one byte in each of its random cycles, and no other. -/
theorem random_after (m : Machine) (actions : List Action) :
    (m.after actions).random =
      { m.random with
        position := m.random.position + (randomCycles (m.successes actions)).length } := by
  refine successes_induction (P := fun s past =>
    s.random = { m.random with position := m.random.position + (randomCycles past).length })
    rfl ?_ ?_
  · intro s past h hsuccess
    rw [random_cycle hsuccess, h]
    simp [randomCycles, List.filter_append, Nat.add_assoc]
  · intro s past action _ h hidle
    rw [(idle_of_not_succeeds hidle).random, h]

/-- An element that a filter keeps splits the list, with as many kept elements before it as its
number says. -/
theorem exists_split_of_filter {α : Type} {p : α → Bool} {l : List α} {k : Nat} {a : α}
    (h : (l.filter p)[k]? = some a) :
    ∃ before after, l = before ++ a :: after ∧ (before.filter p).length = k ∧ p a = true := by
  obtain ⟨hk, ha⟩ := List.getElem?_eq_some_iff.1 h
  -- The kept elements are cut before the one with the number `k`, and the list where that cut is:
  -- up to `before` it holds the first `k` kept ones, and what it `skipped` from there holds none.
  have hsplit : l.filter p = (l.filter p).take k ++ (l.filter p).drop k :=
    (List.take_append_drop k _).symm
  rw [List.drop_eq_getElem_cons hk, ha] at hsplit
  obtain ⟨before, rest, hl, hbefore, hrest⟩ := List.filter_eq_append_iff.1 hsplit
  obtain ⟨skipped, after, hrest, hskipped, hkept, -⟩ := List.filter_eq_cons_iff.1 hrest
  refine ⟨before ++ skipped, after, ?_, ?_, hkept⟩
  · rw [hl, hrest, List.append_assoc]
  · have hnone : skipped.filter p = [] := List.filter_eq_nil_iff.2 hskipped
    rw [List.filter_append, hnone, List.append_nil, hbefore, List.length_take]
    omega

/-- The random cycle with the number `k` finds `k` bytes taken. -/
theorem random_of_randomCycles {k : Nat} (h : (randomCycles (m.successes actions))[k]? = some s) :
    s.random = { m.random with position := m.random.position + k } ∧ s.takesByte = true := by
  obtain ⟨earlier, later, hsplit, hnumber, htakes⟩ := exists_split_of_filter h
  -- up to that cycle the run is a run of its own, and has as many random cycles as the number says
  obtain ⟨before, -, -, rfl, rfl, -, -⟩ := exists_run_to hsplit
  refine ⟨?_, htakes⟩
  rw [random_after, randomCycles, hnumber]

/-- The next cycle succeeds in taking a random byte, gets `byte` and keeps of it what its mask
lets pass. -/
def Receives (m : Machine) (byte : UInt8) : Prop :=
  ∃ x mask, m.Executes (.random x mask) ∧ m.cycle.fault = none ∧
    m.cycle.machine.v x = byte &&& mask

theorem receives_of_takesByte (h : m.takesByte = true) :
    m.Receives (ByteStream.byte m.random.key m.random.position) := by
  obtain ⟨x, mask, hexec⟩ := takesByte_iff.1 h
  obtain ⟨hsuccess, hmachine⟩ := cycle_of_not_refused hexec rfl
  refine ⟨x, mask, hexec, hsuccess, ?_⟩
  rw [hmachine]
  exact Registers.get_set_self m.registers x _

/-- The byte that a random cycle gets depends on the seed and on its number alone. -/
theorem receives_of_randomCycles (config : Config) (entropy : Vector UInt32 8) (seed : UInt64)
    (actions : List Action) {k : Nat} :
    let m := Machine.new { config with seed := some seed } entropy
    (randomCycles (m.successes actions))[k]? = some s →
      s.Receives (ByteStream.byte (ByteStream.keyOfSeed seed) k) := by
  intro m h
  obtain ⟨hrandom, htakes⟩ := random_of_randomCycles h
  have hkey : s.random.key = ByteStream.keyOfSeed seed := by
    rw [hrandom]
    rfl
  have hposition : s.random.position = k := by
    rw [hrandom]
    exact Nat.zero_add k
  rw [← hkey, ← hposition]
  exact receives_of_takesByte htakes

/-- In every run of a machine with a seed, the random cycle with the number `k` gets the low byte of
the word `k % 16` of the block `k / 16` under the key of the seed, and nothing else takes a byte.
Hence the random cycles with the same number get the same byte in any two runs with the same
seed. -/
theorem random_bytes_in_order (config : Config) (entropy : Vector UInt32 8) (seed : UInt64)
    (actions : List Action) :
    let m := Machine.new { config with seed := some seed } entropy
    let key := ByteStream.keyOfSeed seed
    let byte := fun k : Nat =>
      ((ByteStream.block key (k / 16)).get ⟨k % 16, Nat.mod_lt k (by decide)⟩).toUInt8
    (m.after actions).random = ⟨key, (randomCycles (m.successes actions)).length⟩ ∧
      (∀ (k : Nat) (s : Machine), (randomCycles (m.successes actions))[k]? = some s →
        s.Receives (byte k)) ∧
      ∀ (config' : Config) (entropy' : Vector UInt32 8) (actions' : List Action),
        let m' := Machine.new { config' with seed := some seed } entropy'
        ∀ (k : Nat) (s s' : Machine), (randomCycles (m.successes actions))[k]? = some s →
          (randomCycles (m'.successes actions'))[k]? = some s' →
            s.Receives (byte k) ∧ s'.Receives (byte k) := by
  intro m key byte
  refine ⟨?_, fun k s => receives_of_randomCycles config entropy seed actions, ?_⟩
  · rw [random_after]
    exact congrArg (ByteStream.mk key) (Nat.zero_add _)
  · intro config' entropy' actions' m' k s s' h h'
    exact ⟨receives_of_randomCycles config entropy seed actions h,
      receives_of_randomCycles config' entropy' seed actions' h'⟩

/-- The first program lets no bit of its first byte pass and the second one waits for a key before
its second byte; that byte is the same in both. -/
theorem random_bytes_in_order_waiting :
    let key := ByteStream.keyOfSeed 7
    let m := Machine.new { seed := some 7 } (Vector.replicate 8 0)
    let program : List Instruction := [.random 0 0x00, .setByte 3 1, .random 1 0x0F]
    let actions : List Action :=
      [.load (Instruction.assemble program), .cycle, .cycle, .cycle]
    let m' := Machine.new { seed := some 7, stackLimit := some 2 } (Vector.replicate 8 1)
    let program' : List Instruction := [.random 5 0xFF, .waitKey 2, .random 6 0xF0]
    let actions' : List Action :=
      [.load (Instruction.assemble program'), .cycle, .cycle, .cycle, .key (.press 4), .cycle,
        .cycle]
    ∃ s s', (randomCycles (m.successes actions))[1]? = some s ∧
      (randomCycles (m'.successes actions'))[1]? = some s' ∧
      s.Receives ((ByteStream.block key 0).get ⟨1, by decide⟩).toUInt8 ∧
      s'.Receives ((ByteStream.block key 0).get ⟨1, by decide⟩).toUInt8 := by
  intro key m program actions m' program' actions'
  have hsecond : 1 < (randomCycles (m.successes actions)).length := by decide +kernel
  have hsecond' : 1 < (randomCycles (m'.successes actions')).length := by decide +kernel
  have htaken := List.getElem?_eq_getElem hsecond
  have htaken' := List.getElem?_eq_getElem hsecond'
  obtain ⟨-, -, hsame⟩ := random_bytes_in_order {} (Vector.replicate 8 0) 7 actions
  exact ⟨_, _, htaken, htaken',
    hsame { stackLimit := some 2 } (Vector.replicate 8 1) actions' 1 _ _ htaken htaken'⟩

end ChipEight.Machine
