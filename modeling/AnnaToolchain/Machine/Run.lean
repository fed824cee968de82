import AnnaToolchain.Machine.Execution

/-! # Running

    A run executes instructions until the machine halts, fails, comes to a
    breakpoint or has used up the cycles it was given.  The next run goes on
    from there.  A machine that is paused at a breakpoint executes the
    instruction there and does not stop at it again. -/

namespace AnnaToolchain.Machine

/-- Whether the machine has come to a breakpoint it is not already paused at. -/
def atBreakpoint (m : Machine) : Bool :=
  m.memory.hasBreakpoint m.pc && m.pausedAt != some m.pc

/-- The machine stopped at a breakpoint. -/
def pauseHere (m : Machine) : Machine :=
  { m with status := .paused, pausedAt := some m.pc }

/-- The machine about to execute an instruction. -/
def start (m : Machine) : Machine :=
  { m with pausedAt := none, status := .running }

/-- The machine after an instruction, which started with the registers `before` and goes on at
    `next`. -/
def advance (m : Machine) (before : Registers) (next : Word) : Machine :=
  { m with
    pc := m.memory.wrap next
    cycles := m.cycles + 1
    changes := m.changes.addRegisters before m.registers }

/-- Executes at most as many instructions as it is given cycles. -/
def runCycles : Nat → Machine → Machine × Except Fault Stop
  | 0, m => ({ m with status := .paused }, .ok .cyclesExceeded)
  | budget + 1, m =>
    if m.atBreakpoint then (m.pauseHere, .ok .breakpoint)
    else
      let m := m.start
      match Instruction.decode (m.memory.read m.pc) with
      | .error e => (m, .error (.invalidOpcode e))
      | .ok i =>
        if i.isHalt then ({ m with status := .halted }, .ok .halted)
        else
          let before := m.registers
          match m.execute i with
          | (m, .error fault) => (m, .error fault)
          | (m, .ok next) =>
            let m := m.advance before next
            if m.status = .halted then (m, .ok .halted) else runCycles budget m

/-- Notes how a run ended. -/
def conclude (run : Machine × Except Fault Stop) : Machine × Except Fault Stop :=
  match run with
  | (m, .ok stop) => ({ m with lastStop := some stop }, .ok stop)
  | (m, .error fault) => ({ m with status := .halted, lastStop := none }, .error fault)

/-- Executes at most `budget` instructions. -/
def run (m : Machine) (budget : Nat) : Machine × Except Fault Stop :=
  conclude (runCycles budget { m with changes := .none })

/-- Executes one instruction. -/
def step (m : Machine) : Machine × Except Fault Stop :=
  m.run 1

/-! ## Running past breakpoints -/

/-- A stop at a breakpoint. -/
structure Visit where
  pc : Word
  registers : Registers
  deriving DecidableEq, Repr

/-- A machine that was run past its breakpoints. -/
structure Session where
  machine : Machine
  result : Except Fault Stop
  /-- The stops at breakpoints, in order. -/
  visits : List Visit

/-- Runs with the cycles left, again and again while the machine stops at breakpoints, of which it
    passes at most `more`; `seen` are the stops so far, last first. -/
def resumeFrom (m : Machine) (budget : Nat) (seen : List Visit) : (more : Nat) → Session
  | 0 =>
    let ran := m.run budget
    ⟨ran.1, ran.2, seen.reverse⟩
  | more + 1 =>
    let before := m.cycles
    match m.run budget with
    | (m, .ok .breakpoint) =>
      resumeFrom m (budget - (m.cycles - before)) (⟨m.pc, m.registers⟩ :: seen) more
    | (m, result) => ⟨m, result, seen.reverse⟩

/-- Runs past all breakpoints.  Between two stops at least one instruction is executed, so there
    are no more stops than cycles. -/
def resume (m : Machine) (budget : Nat) : Session :=
  m.resumeFrom budget [] budget

end AnnaToolchain.Machine
