import AnnaToolchain.Proofs.Instruction
import AnnaToolchain.Proofs.Machine.Cycle

/-! # What instructions compute

    An instruction that neither reads input nor puts anything out moves the
    machine to another place, with other registers or another memory
    (`Moved`).  Each lemma on an instruction gives its action, each lemma on
    an action gives the move, and a row of moves is what a run computes
    (`Computes`). -/

namespace AnnaToolchain

namespace Memory

/-- In the largest memory every word is an address of its own. -/
theorem index_eq {m : Memory} (h : m.length = maxMemory) (address : Word) :
    m.index address = address.toNat := by
  have hl := address.isLt
  unfold index
  rw [show m.cells.size = 65536 from h]
  omega

theorem wrap_eq {m : Memory} (h : m.length = maxMemory) (address : Word) :
    m.wrap address = address := by
  unfold wrap
  rw [index_eq h]
  exact BitVec.ofNat_toNat 16 address

end Memory

namespace Machine

/-! ## Moves -/

/-- The machine `m'` is `m` at another place, with other registers and another memory. -/
structure Moved (m : Machine) (pc : Word) (registers : Registers) (memory : Memory)
    (m' : Machine) : Prop where
  pc : m'.pc = pc
  registers : m'.registers = registers
  memory : m'.memory = memory
  input : m'.input = m.input
  sink : m'.sink = m.sink
  outputs : m'.outputs = m.outputs

theorem Moved.trans {m m' m'' : Machine} {pc pc' : Word} {registers registers' : Registers}
    {memory memory' : Memory} (h : Moved m pc registers memory m')
    (h' : Moved m' pc' registers' memory' m'') : Moved m pc' registers' memory' m'' where
  pc := h'.pc
  registers := h'.registers
  memory := h'.memory
  input := h'.input.trans h.input
  sink := h'.sink.trans h.sink
  outputs := h'.outputs.trans h.outputs

theorem Steps.trans {j k : Nat} {m m' m'' : Machine} (h : Steps j m m') (h' : Steps k m' m'') :
    Steps (j + k) m m'' := by
  induction h with
  | refl m => rwa [Nat.zero_add]
  | @step j m m₁ m' hb hw _ ih =>
    rw [show j + 1 + k = j + k + 1 from by omega]
    exact .step hb hw (ih h')

/-- `n` instructions take the machine to `pc`, with the given registers and memory. -/
def Reaches (m : Machine) (n : Nat) (pc : Word) (registers : Registers) (memory : Memory) : Prop :=
  ∃ m', Steps n m m' ∧ Moved m pc registers memory m'

/-- Instructions in a row. -/
theorem Steps.reaches {m m' : Machine} {j k : Nat} {pc pc' : Word}
    {registers registers' : Registers} {memory memory' : Memory} (h : Steps j m m')
    (hm : Moved m pc registers memory m') (h' : m'.Reaches k pc' registers' memory') :
    m.Reaches (j + k) pc' registers' memory' := by
  obtain ⟨m'', hsteps, hmoved⟩ := h'
  exact ⟨m'', h.trans hsteps, hm.trans hmoved⟩

/-- A run of `n` cycles executes `n` instructions, and leaves the machine at `pc` with the given
    registers and memory.  Nothing is read and nothing put out. -/
structure Computes (m : Machine) (n : Nat) (pc : Word) (registers : Registers)
    (memory : Memory) : Prop where
  result : (m.run n).2 = .ok .cyclesExceeded
  moved : Moved m pc registers memory (m.run n).1

/-- A run that ends for want of cycles. -/
theorem Steps.run_eq {m m' : Machine} {n : Nat} (h : Steps n { m with changes := .none } m') :
    m.run n
      = ({ m' with status := .paused, lastStop := some .cyclesExceeded }, .ok .cyclesExceeded) := by
  have hn := h.runCycles 0
  rw [Nat.add_zero, runCycles_zero] at hn
  unfold run
  rw [hn]
  rfl

theorem Reaches.computes {m : Machine} {n : Nat} {pc : Word} {registers : Registers}
    {memory : Memory} (h : Reaches { m with changes := .none } n pc registers memory) :
    Computes m n pc registers memory := by
  obtain ⟨m', hsteps, hm⟩ := h
  -- after the steps there are no cycles left
  constructor
  · rw [hsteps.run_eq]
  · rw [hsteps.run_eq]
    exact ⟨hm.pc, hm.registers, hm.memory, hm.input, hm.sink, hm.outputs⟩

/-! ## Actions -/

/-- The instruction the machine is about to execute, with no breakpoint to stop at. -/
structure Faces (m : Machine) (i : Instruction) : Prop where
  word : m.memory.read m.pc = i.encode
  clear : m.atBreakpoint = false

/-- A run starts with an empty record of changes, which is no part of what comes next. -/
theorem Faces.unchanged {m : Machine} {i : Instruction} (h : m.Faces i) :
    Faces { m with changes := .none } i :=
  ⟨h.word, h.clear⟩

/-- The halt word asks for a halt, so an instruction that asks for anything else is another one. -/
theorem isHalt_eq_false {m : Machine} {i : Instruction} {a : Action} (ha : m.action i = .ok a)
    (hne : a ≠ .halt) : i.isHalt = false := by
  cases hh : i.isHalt with
  | false => rfl
  | true =>
    rw [Instruction.eq_halt hh] at ha
    exact absurd (Except.ok.inj ha).symm hne

/-- An instruction that is done without trouble is one step. -/
theorem Faces.steps {m m' : Machine} {i : Instruction} {a : Action} {next : Word}
    (h : m.Faces i) (ha : m.action i = .ok a) (hne : a ≠ .halt)
    (hp : m.start.perform a = (m', .ok next)) (hs : m'.status ≠ .halted) :
    Steps 1 m (m'.advance m.registers next) := by
  -- the word is decoded, is not the halt word, and its action is done
  refine .step h.clear ?_ (.refl _)
  have hh := isHalt_eq_false ha hne
  have hd : Instruction.decode (m.memory.read m.pc) = .ok i := by
    rw [h.word]
    exact i.decode_encode
  have he : m.start.execute i = (m', .ok next) := by
    have ha' : m.start.action i = .ok a := ha
    unfold execute
    simp only [ha']
    exact hp
  unfold attempt
  simp only [hd, hh, he, hs, Bool.false_eq_true, if_false]

section

variable {m : Machine} {i : Instruction}

theorem Faces.set {rd : Register} {value : Word} (h : m.Faces i)
    (ha : m.action i = .ok (.set rd value)) :
    m.Reaches 1 (m.memory.wrap (m.pc + 1)) (m.registers.set rd value) m.memory :=
  ⟨_, h.steps ha nofun rfl nofun, ⟨rfl, rfl, rfl, rfl, rfl, rfl⟩⟩

theorem Faces.link {rd : Register} {target : Word} (h : m.Faces i)
    (ha : m.action i = .ok (.link rd target)) :
    m.Reaches 1 (m.memory.wrap target) (m.registers.set rd (m.pc + 1)) m.memory :=
  ⟨_, h.steps ha nofun rfl nofun, ⟨rfl, rfl, rfl, rfl, rfl, rfl⟩⟩

theorem Faces.load {rd : Register} {address : Word} (h : m.Faces i)
    (ha : m.action i = .ok (.load rd address)) :
    m.Reaches 1 (m.memory.wrap (m.pc + 1)) (m.registers.set rd (m.memory.read address))
      m.memory :=
  ⟨_, h.steps ha nofun rfl nofun, ⟨rfl, rfl, rfl, rfl, rfl, rfl⟩⟩

theorem Faces.store {address value : Word} (h : m.Faces i)
    (ha : m.action i = .ok (.store address value)) :
    m.Reaches 1 ((m.memory.write address value).wrap (m.pc + 1)) m.registers
      (m.memory.write address value) :=
  ⟨_, h.steps ha nofun rfl nofun, ⟨rfl, rfl, rfl, rfl, rfl, rfl⟩⟩

theorem Faces.goto {target : Word} (h : m.Faces i)
    (ha : m.action i = .ok (.goto target)) :
    m.Reaches 1 (m.memory.wrap target) m.registers m.memory :=
  ⟨_, h.steps ha nofun rfl nofun, ⟨rfl, rfl, rfl, rfl, rfl, rfl⟩⟩

/-- The next value of the input is read. -/
theorem Faces.input {rd : Register} {value : Word} {rest : List Word} (h : m.Faces i)
    (ha : m.action i = .ok (.input rd)) (hinput : m.input = value :: rest) :
    ∃ m', Steps 1 m m' ∧ m'.pc = m.memory.wrap (m.pc + 1) ∧
      m'.registers = m.registers.set rd value ∧ m'.memory = m.memory ∧ m'.input = rest := by
  have hp : m.start.perform (.input rd)
      = ({ m.start.setRegister rd value with input := rest }, .ok (m.pc + 1)) := by
    have hinput' : m.start.input = value :: rest := hinput
    unfold perform
    rw [hinput']
    rfl
  exact ⟨_, h.steps ha nofun hp nofun, rfl, rfl, rfl, rfl⟩

/-- An instruction that is tried and fails ends the run. -/
theorem Faces.fails {m' : Machine} {a : Action} {fault : Fault} (h : m.Faces i)
    (ha : m.action i = .ok a) (hne : a ≠ .halt) (hp : m.start.perform a = (m', .error fault)) :
    m.attempt = .ended m' (.error fault) := by
  have hh := isHalt_eq_false ha hne
  have hd : Instruction.decode (m.memory.read m.pc) = .ok i := by
    rw [h.word]
    exact i.decode_encode
  have he : m.start.execute i = (m', .error fault) := by
    have ha' : m.start.action i = .ok a := ha
    unfold execute
    simp only [ha']
    exact hp
  unfold attempt
  simp only [hd, hh, he, Bool.false_eq_true, if_false]

/-- Without input there is nothing to read. -/
theorem Faces.starves {rd : Register} (h : m.Faces i) (ha : m.action i = .ok (.input rd))
    (hinput : m.input = []) : m.attempt = .ended m.start (.error .inputExhausted) := by
  have hp : m.start.perform (.input rd) = (m.start, .error .inputExhausted) := by
    have hinput' : m.start.input = [] := hinput
    unfold perform
    rw [hinput']
  exact h.fails ha nofun hp

/-- The halt word ends a run where it is. -/
theorem Faces.halts (h : m.Faces Instruction.halt) (n : Nat) :
    (m.run (n + 1)).2 = .ok .halted ∧
      Moved m m.pc m.registers m.memory (m.run (n + 1)).1 := by
  have hb : atBreakpoint { m with changes := .none } = false := h.unchanged.clear
  have ha : attempt { m with changes := .none }
      = .ended { start { m with changes := .none } with status := .halted } (.ok .halted) := by
    have hh : Instruction.halt.isHalt = true := rfl
    unfold attempt
    simp only [h.word, Instruction.decode_encode, hh, if_true]
  have hrun : m.run (n + 1)
      = conclude ({ start { m with changes := .none } with status := .halted }, .ok .halted) := by
    unfold run
    rw [runCycles_succ, hb, ha]
    rfl
  rw [hrun]
  exact ⟨rfl, ⟨rfl, rfl, rfl, rfl, rfl, rfl⟩⟩

end

/-! ## Instructions -/

section

variable (m : Machine) (rd rs1 rs2 : Register)

theorem action_add (h : (Opcode.math .add).format = .r) :
    m.action (.ofRegisters (.math .add) h rd rs1 rs2)
      = .ok (.set rd (m.register rs1 + m.register rs2)) := by
  simp [action, MathOp.eval?]

theorem action_jalr (h : Opcode.jalr.format = .r) :
    m.action (.ofRegisters .jalr h rd rs1 rs2) = .ok (.link rs1 (m.register rd)) := by
  simp only [action, plainAction, Instruction.opcode_ofRegisters, Instruction.rs1_ofRegisters,
    Instruction.rd_ofRegisters]
  rfl

theorem action_input (h : Opcode.input.format = .r) :
    m.action (.ofRegisters .input h rd rs1 rs2) = .ok (.input rd) := by
  simp only [action, plainAction, Instruction.opcode_ofRegisters, Instruction.rd_ofRegisters]
  rfl

theorem action_addi (h : Opcode.addi.format = .imm6) (imm : BitVec 6) :
    m.action (.ofImm6 .addi h rd rs1 imm)
      = .ok (.set rd (m.register rs1 + Immediate.extend imm)) := by
  simp only [action, plainAction, Instruction.opcode_ofImm6, Instruction.rs1_ofImm6,
    Instruction.imm6_ofImm6, Instruction.rd_ofImm6]
  rfl

theorem effectiveAddress_ofImm6 (op : Opcode) (h : op.format = .imm6) (imm : BitVec 6) :
    m.effectiveAddress (.ofImm6 op h rd rs1 imm)
      = .ok (m.memory.wrap (m.register rs1 + Immediate.extend imm)) := by
  simp only [effectiveAddress, Instruction.rs1_ofImm6, Instruction.imm6_ofImm6]
  rfl

theorem action_lw (h : Opcode.lw.format = .imm6) (imm : BitVec 6) :
    m.action (.ofImm6 .lw h rd rs1 imm)
      = .ok (.load rd (m.memory.wrap (m.register rs1 + Immediate.extend imm))) := by
  simp only [action, plainAction, Instruction.opcode_ofImm6, effectiveAddress_ofImm6,
    Instruction.rd_ofImm6]
  rfl

theorem action_sw (h : Opcode.sw.format = .imm6) (imm : BitVec 6) :
    m.action (.ofImm6 .sw h rd rs1 imm)
      = .ok (.store (m.memory.wrap (m.register rs1 + Immediate.extend imm)) (m.register rd)) := by
  simp only [action, plainAction, Instruction.opcode_ofImm6, effectiveAddress_ofImm6,
    Instruction.rd_ofImm6]
  rfl

theorem action_lli (h : Opcode.lli.format = .imm8) (imm : BitVec 8) :
    m.action (.ofImm8 .lli h rd imm) = .ok (.set rd (Immediate.extend imm)) := by
  simp only [action, plainAction, Instruction.opcode_ofImm8, Instruction.imm8_ofImm8,
    Instruction.rd_ofImm8]
  rfl

theorem action_lui (h : Opcode.lui.format = .imm8) (imm : BitVec 8) :
    m.action (.ofImm8 .lui h rd imm)
      = .ok (.set rd (BitVec.ofNat 16 (imm.toNat * 256 + (m.register rd).toNat % 256))) := by
  simp only [action, plainAction, Instruction.opcode_ofImm8, Instruction.imm8_ofImm8,
    Instruction.rd_ofImm8]
  rfl

theorem action_branch (cond : Condition) (h : (Opcode.branch cond).format = .imm8)
    (imm : BitVec 8) :
    m.action (.ofImm8 (.branch cond) h rd imm)
      = .ok (.goto (if cond.holds (m.register rd).toInt then m.pc + 1 + Immediate.extend imm
          else m.pc + 1)) := by
  simp only [action, plainAction, Instruction.opcode_ofImm8, Instruction.imm8_ofImm8,
    Instruction.rd_ofImm8]
  split <;> rfl

end

end Machine

end AnnaToolchain
