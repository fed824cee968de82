import AnnaToolchain.Machine.State

/-! # Executing an instruction

    An instruction asks for an action, which depends on the registers; then
    the action is done.  An instruction that fails changes nothing, though a
    sink that has refused a value may have taken notice of it. -/

namespace AnnaToolchain

/-- The result of an arithmetic or logic operation; division by zero has none. -/
def MathOp.eval? : MathOp → Word → Word → Option Word
  | .add, a, b => some (a + b)
  | .sub, a, b => some (a - b)
  | .and, a, b => some (a &&& b)
  | .or, a, b => some (a ||| b)
  | .not, a, _ => some (~~~a)
  | .mul, a, b => some (a * b)
  | .div, a, b => if b = 0 then none else some (a.sdiv b)
  | .mod, a, b => if b = 0 then none else some (a.srem b)

/-- A word shifted to the left by a positive amount, and arithmetically to the right by a negative
    one. -/
def Word.shift (w : Word) (amount : Int) : Word :=
  if amount > 0 then w <<< amount.toNat else w.sshiftRight (-amount).toNat

/-- What an instruction does. -/
inductive Action where
  /-- Writes a register. -/
  | set (rd : Register) (value : Word)
  /-- Writes the address of the next instruction to a register and goes to `target`. -/
  | link (rd : Register) (target : Word)
  /-- Reads a value of the input. -/
  | input (rd : Register)
  /-- Puts out a value. -/
  | print (value : Output)
  | halt
  /-- Reads a cell. -/
  | load (rd : Register) (address : Word)
  /-- Writes a cell. -/
  | store (address value : Word)
  | goto (target : Word)
  deriving DecidableEq, Repr

namespace Machine

/-- The address `rs1 + imm6` of a load or a store. -/
def effectiveAddress (m : Machine) (i : Instruction) : Except FieldAccess Word := do
  let rs1 ← i.rs1
  let imm ← i.imm6
  return m.memory.wrap (m.register rs1 + Immediate.extend imm)

/-- What an output instruction puts out. -/
def outputOf (m : Machine) (kind : OutputKind) (value : Word) : Output :=
  match kind with
  | .number => .number value
  | .line => .line value
  | .text => .text (m.memory.readText value)

/-- The action of an instruction other than a math instruction. -/
def plainAction (m : Machine) (i : Instruction) : Except FieldAccess Action := do
  let rd := i.rd
  match i.opcode with
  | .math _ => return .goto (m.pc + 1)
  -- the target is read before the link is written: `jalr r1, r1` goes to the old `r1`
  | .jalr => return .link (← i.rs1) (m.register rd)
  | .input => return .input rd
  | .output kind =>
    return if rd = Register.zero then .halt else .print (m.outputOf kind (m.register rd))
  | .addi => return .set rd (m.register (← i.rs1) + Immediate.extend (← i.imm6))
  | .shf => return .set rd ((m.register (← i.rs1)).shift (← i.imm6).toInt)
  | .lw => return .load rd (← m.effectiveAddress i)
  | .sw => return .store (← m.effectiveAddress i) (m.register rd)
  | .lli => return .set rd (Immediate.extend (← i.imm8))
  | .lui =>
    let high ← i.imm8
    return .set rd (BitVec.ofNat 16 (high.toNat * 256 + (m.register rd).toNat % 256))
  | .branch cond =>
    if cond.holds (m.register rd).toInt then
      return .goto (m.pc + 1 + Immediate.extend (← i.imm8))
    else return .goto (m.pc + 1)

/-- The action of an instruction. -/
def action (m : Machine) (i : Instruction) : Except Fault Action :=
  match i.opcode with
  | .math op =>
    match i.rs1, i.rs2 with
    | .ok rs1, .ok rs2 =>
      match op.eval? (m.register rs1) (m.register rs2) with
      | some value => .ok (.set i.rd value)
      | none => .error .divideByZero
    | .error e, _ => .error (.fieldAccess e)
    | .ok _, .error e => .error (.fieldAccess e)
  | _ => (m.plainAction i).mapError .fieldAccess

/-- Does an action.  Returns the address of the next instruction, before it is wrapped. -/
def perform (m : Machine) : Action → Machine × Except Fault Word
  | .set rd value => (m.setRegister rd value, .ok (m.pc + 1))
  | .link rd target => (m.setRegister rd (m.pc + 1), .ok target)
  | .input rd =>
    match m.input with
    | value :: rest => ({ m.setRegister rd value with input := rest }, .ok (m.pc + 1))
    | [] => (m, .error .inputExhausted)
  | .print value =>
    match m.sink.emit value with
    | (sink, true) =>
      ({ m with
          sink := sink
          outputs := if m.sink.keeps then m.outputs.push value else m.outputs },
        .ok (m.pc + 1))
    | (sink, false) => ({ m with sink := sink }, .error .outputClosed)
  | .halt => ({ m with status := .halted }, .ok m.pc)
  | .load rd address =>
    ({ m.setRegister rd (m.memory.read address) with
        changes := m.changes.addAccess address { read := true } },
      .ok (m.pc + 1))
  | .store address value =>
    -- the old word is read first, so that memory is changed in place
    let modified := m.memory.read address != value
    ({ m with
        memory := m.memory.write address value
        changes := m.changes.addAccess address { written := true, modified := modified } },
      .ok (m.pc + 1))
  | .goto target => (m, .ok target)

theorem perform_print_taken {m : Machine} {value : Output} {sink : Sink}
    (h : m.sink.emit value = (sink, true)) :
    m.perform (.print value) =
      ({ m with
          sink := sink
          outputs := if m.sink.keeps then m.outputs.push value else m.outputs },
        .ok (m.pc + 1)) := by
  simp only [perform, h]

theorem perform_print_refused {m : Machine} {value : Output} {sink : Sink}
    (h : m.sink.emit value = (sink, false)) :
    m.perform (.print value) = ({ m with sink := sink }, .error .outputClosed) := by
  simp only [perform, h]

/-- Whether the value is taken or not, only the sink and what was kept can be others. -/
theorem perform_print_fst (m : Machine) (value : Output) : ∃ outputs,
    (m.perform (.print value)).1
      = { m with sink := (m.sink.emit value).1, outputs := outputs } := by
  rcases hs : m.sink.emit value with ⟨sink, taken⟩
  cases taken with
  | true =>
    rw [perform_print_taken hs]
    exact ⟨_, rfl⟩
  | false =>
    rw [perform_print_refused hs]
    exact ⟨_, rfl⟩

/-- An action fails for want of input, or because its output is refused. -/
theorem perform_fault {m m' : Machine} {a : Action} {fault : Fault}
    (h : m.perform a = (m', .error fault)) :
    (fault = .inputExhausted ∧ m' = m) ∨
      (fault = .outputClosed ∧
        ∃ value sink, m.sink.emit value = (sink, false) ∧ m' = { m with sink := sink }) := by
  cases a with
  | input rd =>
    unfold perform at h
    cases hi : m.input with
    | nil =>
      simp only [hi, Prod.mk.injEq, Except.error.injEq] at h
      exact .inl ⟨h.2.symm, h.1.symm⟩
    | cons value rest => simp [hi] at h
  | print value =>
    rcases hs : m.sink.emit value with ⟨sink, taken⟩
    cases taken with
    | true =>
      rw [perform_print_taken hs] at h
      cases h
    | false =>
      rw [perform_print_refused hs] at h
      simp only [Prod.mk.injEq, Except.error.injEq] at h
      exact .inr ⟨h.2.symm, value, sink, hs, h.1.symm⟩
  | _ => cases h

/-- Executes an instruction.  Returns the address of the next one, before it is wrapped. -/
def execute (m : Machine) (i : Instruction) : Machine × Except Fault Word :=
  match m.action i with
  | .ok action => m.perform action
  | .error fault => (m, .error fault)

/-- An instruction that fails changes nothing but the sink. -/
theorem execute_fault {m m' : Machine} {i : Instruction} {fault : Fault}
    (h : m.execute i = (m', .error fault)) : ∃ sink, m' = { m with sink := sink } := by
  unfold execute at h
  cases ha : m.action i with
  | error fault' =>
    simp only [ha, Prod.mk.injEq] at h
    exact ⟨m.sink, h.1.symm⟩
  | ok action =>
    simp only [ha] at h
    rcases perform_fault h with ⟨-, rfl⟩ | ⟨-, value, sink, -, rfl⟩
    · exact ⟨m'.sink, rfl⟩
    · exact ⟨sink, rfl⟩

end Machine

end AnnaToolchain
