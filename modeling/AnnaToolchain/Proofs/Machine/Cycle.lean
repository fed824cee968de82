import AnnaToolchain.Machine.Run

/-! # Cycles and runs

    A run is a row of cycles.  Each cycle attempts the instruction at the
    program counter, unless there is a breakpoint to stop at:

    * **`attempt`** is one cycle without regard to breakpoints: the machine
      goes on, or the run has ended;
    * **`Steps`** is a row of cycles after each of which the machine goes on;
    * **`Ending`** is what can follow such a row, in a run with a given
      number of cycles left.

    Every run is a row of steps and an ending (`runCycles_ending`), so that
    what holds of a run follows from what holds of one attempt. -/

namespace AnnaToolchain

/-! ## One cycle -/

/-- What comes of an attempt to execute an instruction. -/
inductive Cycle where
  /-- The run is over. -/
  | ended (m : Machine) (result : Except Fault Stop)
  /-- The machine goes on. -/
  | went (m : Machine)

/-- The same outcome of a machine that looks different. -/
def Cycle.map (f : Machine → Machine) : Cycle → Cycle
  | .ended m result => .ended (f m) result
  | .went m => .went (f m)

namespace Machine

/-- Attempts the instruction at the program counter. -/
def attempt (m : Machine) : Cycle :=
  match Instruction.decode (m.memory.read m.pc) with
  | .error e => .ended m.start (.error (.invalidOpcode e))
  | .ok i =>
    if i.isHalt then .ended { m.start with status := .halted } (.ok .halted)
    else
      match m.start.execute i with
      | (m', .error fault) => .ended m' (.error fault)
      | (m', .ok next) =>
        if m'.status = .halted then .ended (m'.advance m.registers next) (.ok .halted)
        else .went (m'.advance m.registers next)

/-- What an attempt comes to, by the way it takes. -/
inductive Attempt (m : Machine) : Cycle → Prop where
  /-- The word at the program counter is no instruction. -/
  | undecodable {e : InvalidOpcode} (hd : Instruction.decode (m.memory.read m.pc) = .error e) :
      Attempt m (.ended m.start (.error (.invalidOpcode e)))
  /-- It is the halt word. -/
  | haltWord {i : Instruction} (hd : Instruction.decode (m.memory.read m.pc) = .ok i)
      (hh : i.isHalt = true) :
      Attempt m (.ended { m.start with status := .halted } (.ok .halted))
  /-- The instruction cannot be done. -/
  | faulted {i : Instruction} {m' : Machine} {fault : Fault}
      (hd : Instruction.decode (m.memory.read m.pc) = .ok i) (hh : i.isHalt = false)
      (he : m.start.execute i = (m', .error fault)) : Attempt m (.ended m' (.error fault))
  /-- The instruction is done, and has halted the machine. -/
  | halted {i : Instruction} {m' : Machine} {next : Word}
      (hd : Instruction.decode (m.memory.read m.pc) = .ok i) (hh : i.isHalt = false)
      (he : m.start.execute i = (m', .ok next)) (hs : m'.status = .halted) :
      Attempt m (.ended (m'.advance m.registers next) (.ok .halted))
  /-- The instruction is done, and the next one can follow. -/
  | went {i : Instruction} {m' : Machine} {next : Word}
      (hd : Instruction.decode (m.memory.read m.pc) = .ok i) (hh : i.isHalt = false)
      (he : m.start.execute i = (m', .ok next)) (hs : m'.status ≠ .halted) :
      Attempt m (.went (m'.advance m.registers next))

/-- **One cycle.**  There is no other way for an attempt to go. -/
theorem attempt_spec (m : Machine) : Attempt m m.attempt := by
  unfold attempt
  cases hd : Instruction.decode (m.memory.read m.pc) with
  | error e => exact .undecodable hd
  | ok i =>
    cases hh : i.isHalt with
    | true =>
      simp only [hh, if_true]
      exact .haltWord hd hh
    | false =>
      simp only [hh, Bool.false_eq_true, if_false]
      rcases he : m.start.execute i with ⟨m', fault | next⟩
      · exact .faulted hd hh he
      · by_cases hs : m'.status = .halted
        · simp only [hs, if_true]
          exact .halted hd hh he hs
        · simp only [hs, if_false]
          exact .went hd hh he hs

theorem runCycles_zero (m : Machine) :
    runCycles 0 m = ({ m with status := .paused }, .ok .cyclesExceeded) := rfl

theorem runCycles_succ (budget : Nat) (m : Machine) :
    runCycles (budget + 1) m =
      if m.atBreakpoint then (m.pauseHere, .ok .breakpoint)
      else
        match m.attempt with
        | .ended m' result => (m', result)
        | .went m' => runCycles budget m' := by
  rw [runCycles]
  by_cases hb : m.atBreakpoint = true
  · rw [if_pos hb, if_pos hb]
  · rw [if_neg hb, if_neg hb]
    unfold attempt
    -- the start of a cycle moves neither the program counter nor a word
    cases hd : Instruction.decode (m.memory.read m.pc) with
    | error e =>
      have hd' : Instruction.decode (m.start.memory.read m.start.pc) = .error e := hd
      simp only [hd']
    | ok i =>
      have hd' : Instruction.decode (m.start.memory.read m.start.pc) = .ok i := hd
      simp only [hd']
      by_cases hh : i.isHalt = true
      · simp only [hh, if_true]
      · rcases he : m.start.execute i with ⟨m', fault | next⟩
        · simp only [hh, Bool.false_eq_true, if_false]
        · have hr : m.start.registers = m.registers := rfl
          have hs : (m'.advance m.registers next).status = m'.status := rfl
          simp only [hh, hr, hs, Bool.false_eq_true, if_false]
          by_cases hm : m'.status = .halted <;> simp [hm]

/-! ## What an attempt can do -/

/-- An action leaves alone what belongs to the run and not to the program. -/
structure Untouched (m m' : Machine) : Prop where
  pc : m'.pc = m.pc
  cycles : m'.cycles = m.cycles
  lastStop : m'.lastStop = m.lastStop
  pausedAt : m'.pausedAt = m.pausedAt
  config : m'.config = m.config
  length : m'.memory.length = m.memory.length
  hasBreakpoint : ∀ address, m'.memory.hasBreakpoint address = m.memory.hasBreakpoint address

theorem Untouched.refl (m : Machine) : Untouched m m :=
  ⟨rfl, rfl, rfl, rfl, rfl, rfl, fun _ => rfl⟩

theorem perform_untouched (m : Machine) (a : Action) : Untouched m (m.perform a).1 := by
  cases a with
  | input rd =>
    unfold perform
    cases m.input with
    | nil => exact .refl m
    | cons value rest => exact ⟨rfl, rfl, rfl, rfl, rfl, rfl, fun _ => rfl⟩
  | print value =>
    obtain ⟨outputs, hprint⟩ := m.perform_print_fst value
    rw [hprint]
    exact ⟨rfl, rfl, rfl, rfl, rfl, rfl, fun _ => rfl⟩
  | store address value =>
    exact ⟨rfl, rfl, rfl, rfl, rfl, by simp [perform], by simp [perform]⟩
  | _ => exact ⟨rfl, rfl, rfl, rfl, rfl, rfl, fun _ => rfl⟩

theorem execute_untouched (m : Machine) (i : Instruction) : Untouched m (m.execute i).1 := by
  unfold execute
  cases m.action i with
  | ok a => exact perform_untouched m a
  | error fault => exact .refl m

/-- A machine that went on has spent one cycle, and is not paused. -/
structure WentOn (m m' : Machine) : Prop where
  cycles : m'.cycles = m.cycles + 1
  status : m'.status ≠ .halted
  lastStop : m'.lastStop = m.lastStop
  pausedAt : m'.pausedAt = none
  config : m'.config = m.config
  length : m'.memory.length = m.memory.length
  hasBreakpoint : ∀ address, m'.memory.hasBreakpoint address = m.memory.hasBreakpoint address

theorem attempt_went {m m' : Machine} (h : m.attempt = .went m') : WentOn m m' := by
  have hspec := attempt_spec m
  rw [h] at hspec
  cases hspec with
  | @went i m₁ next hd hh he hs =>
    have hu := execute_untouched m.start i
    rw [he] at hu
    exact ⟨congrArg (· + 1) hu.cycles, hs, hu.lastStop, hu.pausedAt, hu.config, hu.length,
      hu.hasBreakpoint⟩

/-- An attempt ends a run with a halt or with a fault, and has spent at most one cycle. -/
structure RunOver (m m' : Machine) (result : Except Fault Stop) : Prop where
  result_ne : ∀ stop, result = .ok stop → stop = .halted
  cycles_ge : m.cycles ≤ m'.cycles
  cycles_le : m'.cycles ≤ m.cycles + 1

theorem attempt_ended {m m' : Machine} {result : Except Fault Stop}
    (h : m.attempt = .ended m' result) : RunOver m m' result := by
  have hspec := attempt_spec m
  rw [h] at hspec
  cases hspec with
  | undecodable hd => exact ⟨nofun, Nat.le_refl _, Nat.le_succ _⟩
  | haltWord hd hh => exact ⟨by rintro _ ⟨⟩; rfl, Nat.le_refl _, Nat.le_succ _⟩
  | @faulted i _ fault hd hh he =>
    -- what failed is not counted as a cycle
    have hu := execute_untouched m.start i
    rw [he] at hu
    have hc : m'.cycles = m.cycles := hu.cycles
    exact ⟨nofun, by omega, by omega⟩
  | @halted i m₁ next hd hh he hs =>
    have hu := execute_untouched m.start i
    rw [he] at hu
    have hc : (m₁.advance m.registers next).cycles = m.cycles + 1 := congrArg (· + 1) hu.cycles
    exact ⟨by rintro _ ⟨⟩; rfl, by omega, by omega⟩

/-- An attempt looks neither at the status nor at where the machine is paused. -/
theorem attempt_status (m : Machine) (status : Status) (pausedAt : Option Word) :
    attempt { m with status := status, pausedAt := pausedAt } = m.attempt := rfl

/-! ## Rows of cycles -/

/-- The machine goes on for a number of cycles, and comes to no breakpoint before any of them. -/
inductive Steps : Nat → Machine → Machine → Prop where
  | refl (m : Machine) : Steps 0 m m
  | step {k : Nat} {m m₁ m' : Machine} (hb : m.atBreakpoint = false) (hw : m.attempt = .went m₁)
      (rest : Steps k m₁ m') : Steps (k + 1) m m'

/-- How a run with `left` cycles left can end where it is. -/
inductive Ending (m : Machine) (left : Nat) : Machine × Except Fault Stop → Prop where
  | exhausted (h : left = 0) : Ending m left ({ m with status := .paused }, .ok .cyclesExceeded)
  | breakpoint (h : 0 < left) (hb : m.atBreakpoint = true) :
      Ending m left (m.pauseHere, .ok .breakpoint)
  | finished {m' : Machine} {result : Except Fault Stop} (h : 0 < left)
      (hb : m.atBreakpoint = false) (he : m.attempt = .ended m' result) : Ending m left (m', result)

theorem Steps.cycles {k : Nat} {m m' : Machine} (h : Steps k m m') :
    m'.cycles = m.cycles + k := by
  induction h with
  | refl m => rfl
  | step _ hw _ ih =>
    have hc := (attempt_went hw).cycles
    omega

theorem Steps.pausedAt {k : Nat} {m m' : Machine} (h : Steps (k + 1) m m') :
    m'.pausedAt = none := by
  cases h with
  | @step _ _ m₁ _ _ hw rest =>
    have h₁ : m₁.pausedAt = none := (attempt_went hw).pausedAt
    clear hw
    induction rest with
    | refl m => exact h₁
    | step _ hw _ ih => exact ih (attempt_went hw).pausedAt

/-- A row of steps at the front of a run can be taken off. -/
theorem Steps.runCycles {k : Nat} {m m' : Machine} (h : Steps k m m') (n : Nat) :
    runCycles (k + n) m = runCycles n m' := by
  induction h with
  | refl m => rw [Nat.zero_add]
  | @step k m m₁ m' hb hw _ ih =>
    rw [show k + 1 + n = k + n + 1 from by omega, runCycles_succ]
    simp only [hb, hw, Bool.false_eq_true, if_false]
    exact ih

/-- **Every run** is a row of steps and an ending. -/
theorem runCycles_ending (n : Nat) (m : Machine) :
    ∃ k m₁, k ≤ n ∧ Steps k m m₁ ∧ Ending m₁ (n - k) (runCycles n m) := by
  -- either the run ends where it is, or it goes on with a cycle less
  induction n generalizing m with
  | zero => exact ⟨0, m, Nat.le_refl 0, .refl m, .exhausted rfl⟩
  | succ n ih =>
    rw [runCycles_succ]
    by_cases hb : m.atBreakpoint = true
    · rw [if_pos hb]
      exact ⟨0, m, Nat.zero_le _, .refl m, .breakpoint (by omega) hb⟩
    · have hb' : m.atBreakpoint = false := by simpa using hb
      rw [if_neg hb]
      cases ha : m.attempt with
      | ended m' result => exact ⟨0, m, Nat.zero_le _, .refl m, .finished (by omega) hb' ha⟩
      | went m' =>
        obtain ⟨k, m₁, hk, hsteps, hend⟩ := ih m'
        refine ⟨k + 1, m₁, by omega, .step hb' ha hsteps, ?_⟩
        rwa [show n + 1 - (k + 1) = n - k from by omega]

/-- A run ends for want of cycles exactly after as many steps as it had cycles. -/
theorem steps_of_cyclesExceeded {n : Nat} {m m' : Machine}
    (h : runCycles n m = (m', .ok .cyclesExceeded)) :
    ∃ m₁, Steps n m m₁ ∧ m' = { m₁ with status := .paused } := by
  obtain ⟨k, m₁, hk, hsteps, hend⟩ := runCycles_ending n m
  rw [h] at hend
  -- breakpoints and attempts end a run otherwise
  cases hend with
  | exhausted hleft =>
    have : k = n := by omega
    subst this
    exact ⟨m₁, hsteps, rfl⟩
  | finished _ _ he => cases (attempt_ended he).result_ne _ rfl

/-- A run spends no more cycles than it was given. -/
theorem runCycles_cycles (n : Nat) (m : Machine) :
    m.cycles ≤ (runCycles n m).1.cycles ∧ (runCycles n m).1.cycles ≤ m.cycles + n := by
  obtain ⟨k, m₁, hk, hsteps, hend⟩ := runCycles_ending n m
  have hc := hsteps.cycles
  generalize runCycles n m = ran at hend
  cases hend with
  | exhausted hleft => constructor <;> simp only <;> omega
  | breakpoint hleft hb => constructor <;> simp only [pauseHere] <;> omega
  | finished hleft hb he =>
    have hge := (attempt_ended he).cycles_ge
    have hle := (attempt_ended he).cycles_le
    constructor <;> simp only <;> omega

end Machine

end AnnaToolchain
