import AnnaToolchain.Image.Basic
import AnnaToolchain.Instruction
import AnnaToolchain.Machine.Changes
import AnnaToolchain.Machine.Memory
import AnnaToolchain.Machine.Output

/-! # The machine

    The state of a machine, and the operations on it other than running. -/

namespace AnnaToolchain

/-- Whether a machine can go on. -/
inductive Status where
  /-- It halted, failed, or has not started. -/
  | halted
  | running
  /-- It stopped at a breakpoint or for want of cycles. -/
  | paused
  deriving DecidableEq, Repr

/-- Why a run stopped. -/
inductive Stop where
  | halted
  | breakpoint
  | cyclesExceeded
  deriving DecidableEq, Repr

/-- Why an instruction could not be executed. -/
inductive Fault where
  /-- There is no input left. -/
  | inputExhausted
  /-- The word is no instruction. -/
  | invalidOpcode (error : InvalidOpcode)
  /-- The instruction lacks a field. -/
  | fieldAccess (error : FieldAccess)
  | divideByZero
  /-- The output was refused. -/
  | outputClosed
  deriving DecidableEq, Repr

/-- The error as shown to a user. -/
def Fault.diagnostic : Fault → Diagnostic
  | .inputExhausted =>
      { message := "input queue is empty"
        help := some "provide more input values before running" }
  | .invalidOpcode error => error.diagnostic
  | .fieldAccess error => error.diagnostic
  | .divideByZero =>
      { message := "division by zero"
        help := some "check the divisor register before dividing" }
  | .outputClosed => { message := "output could not be delivered" }

/-- How memory is made. -/
structure Config where
  /-- The number of cells, brought into `1 .. 65536`. -/
  memLen : Nat := maxMemory
  fill : Fill := .zeroed
  deriving DecidableEq, Repr

/-- The state of a machine. -/
structure Machine where
  memory : Memory
  registers : Registers
  /-- The address of the next instruction. -/
  pc : Word
  /-- What the last run changed. -/
  changes : Changes
  config : Config
  status : Status
  /-- Why the last run stopped; none if it failed, or there was none since the last reset. -/
  lastStop : Option Stop
  /-- The breakpoint the machine is paused at. -/
  pausedAt : Option Word
  /-- The number of instructions executed since the last reset. -/
  cycles : Nat
  /-- The values to be read, the next one first. -/
  input : List Word
  sink : Sink
  /-- The output that was taken and kept. -/
  outputs : Array Output

namespace Machine

/-- A machine with fresh memory and nothing to read, whose output is lost. -/
def new (config : Config) (random : RandomWords := default) : Machine where
  memory := .fresh config.memLen config.fill random
  registers := .zeroed
  pc := 0
  changes := .none
  config := config
  status := .halted
  lastStop := none
  pausedAt := none
  cycles := 0
  input := []
  sink := .discard
  outputs := #[]

/-- The machine before the first instruction, with new input.  Memory stays as it is. -/
def reset (m : Machine) (input : List Word) : Machine :=
  { m with
    registers := .zeroed
    pc := 0
    cycles := 0
    status := .halted
    lastStop := none
    pausedAt := none
    input := input
    changes := .none }

/-- The machine with fresh memory. -/
def renewMemory (m : Machine) (random : RandomWords := default) : Machine :=
  { m with memory := .fresh m.config.memLen m.config.fill random }

/-- Adds a value to the end of the input. -/
def pushInput (m : Machine) (value : Word) : Machine :=
  { m with input := m.input ++ [value] }

/-- Writes the words of an image to memory. -/
def load (m : Machine) (image : Image) : Machine :=
  { m with
    memory := image.blocks.foldl (fun memory block => memory.copyBlock block.1 block.2) m.memory }

/-- Writes a word to memory. -/
def writeMemory (m : Machine) (address value : Word) : Machine :=
  { m with memory := m.memory.write address value }

/-- The value of a register. -/
def register (m : Machine) (r : Register) : Word :=
  m.registers.get r

/-- Writes a register. -/
def setRegister (m : Machine) (r : Register) (value : Word) : Machine :=
  { m with registers := m.registers.set r value }

/-- Sends output elsewhere from now on. -/
def setSink (m : Machine) (sink : Sink) : Machine :=
  { m with sink := sink }

/-! ## Breakpoints -/

/-- Sets a breakpoint. -/
def setBreakpoint (m : Machine) (address : Word) : Machine :=
  { m with memory := m.memory.setBreakpoint address true }

/-- Clears a breakpoint. -/
def clearBreakpoint (m : Machine) (address : Word) : Machine :=
  { m with memory := m.memory.setBreakpoint address false }

/-- Sets a breakpoint where there is none, and clears it where there is one. -/
def toggleBreakpoint (m : Machine) (address : Word) : Machine :=
  { m with memory := m.memory.setBreakpoint address (!m.memory.hasBreakpoint address) }

/-- Clears all breakpoints. -/
def clearBreakpoints (m : Machine) : Machine :=
  { m with memory := m.memory.clearBreakpoints }

end Machine

end AnnaToolchain
