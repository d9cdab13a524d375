import ChipEight.Proofs.CycleCases
import ChipEight.Proofs.Runs

/-!
# Bounds of a running machine

A program can move `pc` past the end of memory, by an offset jump, by a skip at the last word or by
plain running on, but never far: `Bounded` lists how far each address of a machine can go.
`bounded_after` shows that these bounds hold after every run of a new machine.

The bound on `pc` rests on two others. A return goes to an address on the stack, and an address on
the stack was `pc` right behind a call that could be fetched, hence lies between 2 and the end of
memory. Only an offset jump gets beyond `0x1002`.
-/

namespace ChipEight.Machine

/-- How far the addresses of a machine and its stack can go. -/
structure Bounded (m : Machine) : Prop where
  /-- The furthest place is the one of an offset jump from `0xFFF` by `0xFF`. -/
  pc_le : m.pc.toNat ≤ 0x10FE
  /-- The last word of memory is at `0xFFE`. -/
  fetchedAt_le : m.fetchedAt.toNat ≤ 0xFFE
  /-- Return addresses follow a call. -/
  stack_mem : ∀ address ∈ m.stack, 2 ≤ address.toNat ∧ address.toNat ≤ 0x1000
  /-- The register that waits for a key exists. -/
  waiting_lt : ∀ x, m.waiting = some x → x.val < 16
  /-- The key in the latch exists. -/
  latch_lt : ∀ key, m.keypad.latch = some key → key.val < 16
  /-- Calls nest no deeper than they may. -/
  depth_le : ∀ limit, m.config.stackLimit = some limit → m.depth ≤ limit

/-- From within memory, an instruction leads no further than an offset jump can. -/
theorem pc_effect_le (m : Machine) (i : Instruction) (hpc : m.pc.toNat ≤ 0x1000)
    (hstack : ∀ address ∈ m.stack, address.toNat ≤ 0x1000) :
    (m.effect i).pc.toNat ≤ 0x10FE := by
  rw [pc_effect]
  cases i with
  | ret =>
    cases hm : m.stack with
    | nil => exact Nat.le_trans hpc (by decide)
    | cons address stack =>
      -- The return address was pushed behind a call that could be fetched.
      have haddress := hstack address (by simp [hm])
      exact Nat.le_trans haddress (by decide)
  | jump target =>
    have htarget := target.isLt
    rw [UInt16.toNat_ofNat']
    omega
  | call target =>
    have htarget := target.isLt
    rw [UInt16.toNat_ofNat']
    omega
  | skipIf condition =>
    dsimp only
    split
    · -- The skip goes at most to `0x1002` and does not wrap around.
      have hskip : (m.pc + 2).toNat = (m.pc.toNat + 2) % 65536 := UInt16.toNat_add m.pc 2
      omega
    · omega
  | jumpOffset base =>
    -- Twelve bits and eight bits add up to no more than thirteen.
    have hbase := base.isLt
    have hoffset := (m.v Registers.first).toNat_lt
    rw [UInt16.toNat_ofNat']
    omega
  | _ => exact Nat.le_trans hpc (by decide)

/-- Return addresses that are added lie right behind the call. -/
theorem mem_stack_effect {m : Machine} {i : Instruction} {address : UInt16}
    (h : address ∈ (m.effect i).stack) : address = m.pc ∨ address ∈ m.stack := by
  rw [stack_effect] at h
  cases i with
  | ret => exact Or.inr (List.mem_of_mem_tail h)
  | call target => exact List.mem_cons.mp h
  | _ => exact Or.inr h

/-- A call that is not refused keeps to the limit. -/
theorem depth_effect_le {m : Machine} {i : Instruction} {limit : Nat}
    (hlimit : m.config.stackLimit = some limit) (hdepth : m.depth ≤ limit)
    (hrefusal : m.refusal i = none) : (m.effect i).depth ≤ limit := by
  rw [depth, stack_effect]
  cases i with
  | ret =>
    rw [List.length_tail]
    exact Nat.le_trans (Nat.sub_le _ _) hdepth
  | call target =>
    have hopen : ¬ limit ≤ m.depth := by
      intro hfull
      simp [refusal, hlimit, hfull] at hrefusal
    exact Nat.lt_of_not_le hopen
  | _ => exact hdepth

/-- The bounds do not read the memory, the registers, the index, the timers, the screen, the keys
that are held or the random bytes. -/
theorem Bounded.of_eq {m m' : Machine} (h : m.Bounded) (hpc : m'.pc = m.pc)
    (hfetchedAt : m'.fetchedAt = m.fetchedAt) (hstack : m'.stack = m.stack)
    (hconfig : m'.config = m.config) : m'.Bounded := by
  refine ⟨?_, ?_, ?_, fun x _ => x.isLt, fun key _ => key.isLt, ?_⟩
  · rw [hpc]
    exact h.pc_le
  · rw [hfetchedAt]
    exact h.fetchedAt_le
  · rw [hstack]
    exact h.stack_mem
  · rw [hconfig, depth, hstack]
    exact h.depth_le

theorem Bounded.fetched {m : Machine} (h : m.Bounded) (hpc : m.pc.toNat + 1 < 4096) :
    m.fetched.Bounded := by
  refine ⟨?_, ?_, h.stack_mem, h.waiting_lt, h.latch_lt, h.depth_le⟩
  · have hnext := toNat_pc_fetched hpc
    omega
  · have hat : m.fetched.fetchedAt = m.pc := rfl
    rw [hat]
    omega

theorem Bounded.effect {m : Machine} {i : Instruction} (h : m.Bounded) (hexec : m.Executes i)
    (hrefusal : m.fetched.refusal i = none) : (m.fetched.effect i).Bounded := by
  have hfetched := h.fetched hexec.inside
  have hinside := hexec.inside
  have hpc := toNat_pc_fetched hinside
  refine ⟨?_, ?_, ?_, fun x _ => x.isLt, fun key _ => key.isLt, ?_⟩
  · refine pc_effect_le _ _ (by omega) ?_
    exact fun address hmem => (hfetched.stack_mem address hmem).2
  · rw [fetchedAt_effect]
    exact hfetched.fetchedAt_le
  · intro address hmem
    rcases mem_stack_effect hmem with rfl | hold
    · -- A new address is `pc` after the fetch, two behind a word that lies in memory.
      omega
    · exact hfetched.stack_mem address hold
  · intro limit hlimit
    rw [config_effect] at hlimit
    exact depth_effect_le hlimit (hfetched.depth_le limit hlimit) hrefusal

theorem Bounded.cycle {m : Machine} (h : m.Bounded) : m.cycle.machine.Bounded := by
  cases m.cycleCase with
  | paused x hwaiting hcycle =>
    rw [hcycle, awaitKey]
    split <;> exact h.of_eq rfl rfl rfl rfl
  | unfetched hrunning hpc hcycle =>
    rw [hcycle]
    exact h
  | unreadable hrunning hpc hword hcycle =>
    rw [hcycle]
    exact h.fetched hpc
  | refused i fault hexec hrefusal hcycle =>
    rw [hcycle]
    exact h.fetched hexec.inside
  | executed i hexec hrefusal hcycle =>
    rw [hcycle]
    exact (h.effect hexec hrefusal).of_eq rfl rfl rfl rfl

theorem Bounded.act {m : Machine} (h : m.Bounded) (action : Action) : (m.act action).Bounded := by
  cases action with
  | load program =>
    rw [act_load]
    exact h.of_eq rfl rfl rfl rfl
  | cycle => exact h.cycle
  | _ => exact h.of_eq rfl rfl rfl rfl

theorem bounded_new (config : Config) (entropy : Vector UInt32 8) :
    (Machine.new config entropy).Bounded where
  pc_le := by
    show (UInt16.ofNat Memory.programStart).toNat ≤ 0x10FE
    decide
  fetchedAt_le := by
    show (UInt16.ofNat Memory.programStart).toNat ≤ 0xFFE
    decide
  stack_mem := by simp [Machine.new]
  waiting_lt := fun x _ => x.isLt
  latch_lt := fun key _ => key.isLt
  depth_le := fun limit _ => Nat.zero_le limit

/-- The bounds hold after every run of a new machine. -/
theorem bounded_after (config : Config) (entropy : Vector UInt32 8) (actions : List Action) :
    ((Machine.new config entropy).after actions).Bounded :=
  after_induction (fun _ action h => h.act action) (bounded_new config entropy) actions

end ChipEight.Machine
