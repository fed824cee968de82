import AnnaToolchain.Proofs.Machine.Touches

/-! # Machines with different code

    Two machines may hold different code below an address `n`, and be alike
    otherwise (`Alike`).  If both are about to execute the same instruction,
    one that goes on behind it and touches no cell below `n`, then they come
    to the same end, or to machines that are alike again
    (`attempt_inStep`). -/

namespace AnnaToolchain

/-- The words of `code` stand below `n`, in a memory of the largest length without breakpoints. -/
structure Memory.Carries (n : Nat) (code : Word → Word) (m : Memory) : Prop where
  length : m.length = maxMemory
  clear : ∀ a, m.hasBreakpoint a = false
  code : ∀ a : Word, a.toNat < n → m.read a = code a

theorem Memory.Carries.write {n : Nat} {code : Word → Word} {m : Memory}
    (h : m.Carries n code) {address : Word} (ha : n ≤ address.toNat) (value : Word) :
    (m.write address value).Carries n code where
  length := (length_write ..).trans h.length
  clear := fun a => (hasBreakpoint_write ..).trans (h.clear a)
  code := fun a hlt => by
    rw [← h.code a hlt]
    refine read_write_ne _ _ fun hindex => ?_
    rw [index_eq h.length, index_eq h.length] at hindex
    omega

namespace Machine

/-- The machines are the same but for the words below `n`, and for where they are. -/
structure SameBeyond (n : Nat) (m m' : Machine) : Prop where
  data : ∀ a : Word, n ≤ a.toNat → m'.memory.read a = m.memory.read a
  registers : m'.registers = m.registers
  input : m'.input = m.input
  sink : m'.sink = m.sink
  outputs : m'.outputs = m.outputs

/-- The machines are the same but for the code they carry below `n`, and for where they are. -/
structure Alike (n : Nat) (code code' : Word → Word) (m m' : Machine) : Prop
    extends SameBeyond n m m' where
  carries : m.memory.Carries n code
  carries' : m'.memory.Carries n code'

section

variable {n : Nat} {code code' : Word → Word} {m m' : Machine} {i : Instruction}

/-- Machines that have only moved are still alike. -/
theorem Alike.moved {m₁ m₁' : Machine} {pc pc' : Word} (h : Alike n code code' m m')
    (hm : Moved m pc m.registers m.memory m₁) (hm' : Moved m' pc' m'.registers m'.memory m₁') :
    Alike n code code' m₁ m₁' where
  carries := by rw [hm.memory]; exact h.carries
  carries' := by rw [hm'.memory]; exact h.carries'
  data := by rw [hm.memory, hm'.memory]; exact h.data
  registers := by rw [hm.registers, hm'.registers, h.registers]
  input := by rw [hm.input, hm'.input, h.input]
  sink := by rw [hm.sink, hm'.sink, h.sink]
  outputs := by rw [hm.outputs, hm'.outputs, h.outputs]

theorem Alike.atBreakpoint (h : Alike n code code' m m') : m'.atBreakpoint = false := by
  simp [Machine.atBreakpoint, h.carries'.clear]

theorem Alike.outputOf (h : Alike n code code' m m') {kind : OutputKind} {address : Word}
    (htext : kind = .text →
      ∀ a ∈ m.memory.textAddresses address m.memory.length, n ≤ a.toNat) :
    m'.outputOf kind address = m.outputOf kind address := by
  cases kind with
  | number | line => rfl
  | text =>
    unfold Machine.outputOf Memory.readText
    have hchars : m'.memory.readChars address [] m.memory.length
        = m.memory.readChars address [] m.memory.length :=
      Memory.readChars_of_textAddresses h.carries.length [] fun a ha => h.data a (htext rfl a ha)
    rw [h.carries'.length, ← h.carries.length, hchars]

/-- The same instruction does the same. -/
theorem Alike.action (h : Alike n code code' m m')
    (hd : Instruction.decode (m.memory.read m.pc) = .ok i) (hjump : i.opcode.isJump = false)
    (htouches : ∀ a ∈ m.touches, n ≤ a.toNat) : m'.action i = m.action i := by
  have hregister (r : Register) : m'.register r = m.register r := by
    unfold Machine.register
    rw [h.registers]
  have haddress : m'.effectiveAddress i = m.effectiveAddress i := by
    unfold effectiveAddress
    simp only [hregister, Memory.wrap_eq h.carries.length, Memory.wrap_eq h.carries'.length]
  unfold Machine.action plainAction
  simp only [hregister, haddress]
  unfold Machine.touches at htouches
  simp only [hd] at htouches
  cases hop : i.opcode with
  | jalr | branch cond => simp [hop, Opcode.isJump] at hjump
  | output kind =>
    -- only a text is read from memory
    by_cases hzero : i.rd = Register.zero
    · simp only [if_pos hzero]
    · have houtput : m'.outputOf kind (m.register i.rd) = m.outputOf kind (m.register i.rd) := by
        refine h.outputOf ?_
        rintro rfl
        simpa only [hop, if_neg hzero] using htouches
      simp only [if_neg hzero, houtput]
  | _ => rfl

/-! ## In step -/

/-- What comes of two attempts that do the same: the same end, after as many cycles, or machines
    that go on behind the instruction. -/
inductive InStep (n : Nat) (code code' : Word → Word) (m m' : Machine) : Cycle → Cycle → Prop
  | ended {m₁ m₁' : Machine} {result : Except Fault Stop} (h : Alike n code code' m₁ m₁')
      (hcycles : m₁'.cycles + m.cycles = m₁.cycles + m'.cycles) :
      InStep n code code' m m' (.ended m₁ result) (.ended m₁' result)
  | went {m₁ m₁' : Machine} (h : Alike n code code' m₁ m₁') (hpc : m₁.pc = m.pc + 1)
      (hpc' : m₁'.pc = m'.pc + 1) : InStep n code code' m m' (.went m₁) (.went m₁')

/-- What comes of an attempt, from what its instruction has done. -/
def outcome (m : Machine) : Machine × Except Fault Word → Cycle
  | (m₁, .error fault) => .ended m₁ (.error fault)
  | (m₁, .ok next) =>
    if m₁.status = .halted then .ended (m₁.advance m.registers next) (.ok .halted)
    else .went (m₁.advance m.registers next)

theorem attempt_of_decode (hd : Instruction.decode (m.memory.read m.pc) = .ok i)
    (hh : i.isHalt = false) : m.attempt = m.outcome (m.start.execute i) := by
  unfold attempt
  simp only [hd, hh, Bool.false_eq_true, if_false]
  rfl

theorem attempt_of_isHalt (hd : Instruction.decode (m.memory.read m.pc) = .ok i)
    (hh : i.isHalt = true) :
    m.attempt = .ended { m.start with status := .halted } (.ok .halted) := by
  unfold attempt
  simp only [hd, hh, if_true]

theorem Alike.start (h : Alike n code code' m m') : Alike n code code' m.start m'.start :=
  ⟨⟨h.data, h.registers, h.input, h.sink, h.outputs⟩, h.carries, h.carries'⟩

/-- The same action, on no cell below `n`. -/
theorem Alike.perform_inStep (h : Alike n code code' m m') {addresses : List Word} {a : Action}
    (ha : a.Within addresses) (haddresses : ∀ a ∈ addresses, n ≤ a.toNat) :
    InStep n code code' m m' (m.outcome (m.start.perform a)) (m'.outcome (m'.start.perform a)) := by
  have hcycles : m'.cycles + m.cycles = m.cycles + m'.cycles := Nat.add_comm _ _
  have hcycles' : m'.cycles + 1 + m.cycles = m.cycles + 1 + m'.cycles := by omega
  have hpc : m.memory.wrap (m.pc + 1) = m.pc + 1 := Memory.wrap_eq h.carries.length _
  have hpc' : m'.memory.wrap (m'.pc + 1) = m'.pc + 1 := Memory.wrap_eq h.carries'.length _
  cases a with
  | goto target => exact ha.elim
  | link rd target => exact ha.elim
  | halt =>
    exact .ended ⟨⟨h.data, h.registers, h.input, h.sink, h.outputs⟩, h.carries, h.carries'⟩
      hcycles'
  | set rd value =>
    refine .went ⟨⟨h.data, ?_, h.input, h.sink, h.outputs⟩, h.carries, h.carries'⟩ hpc hpc'
    exact congrArg (·.set rd value) h.registers
  | input rd =>
    have hinput : m'.start.input = m.start.input := h.input
    unfold perform
    rw [hinput]
    cases hm : m.start.input with
    | nil => exact .ended h.start hcycles
    | cons value rest =>
      refine .went ⟨⟨h.data, ?_, rfl, h.sink, h.outputs⟩, h.carries, h.carries'⟩ hpc hpc'
      exact congrArg (·.set rd value) h.registers
  | print value =>
    have hsink : m'.start.sink = m.start.sink := h.sink
    have houtputs : m'.start.outputs = m.start.outputs := h.outputs
    rcases hs : m.start.sink.emit value with ⟨sink, taken⟩
    have hs' : m'.start.sink.emit value = (sink, taken) := hsink ▸ hs
    cases taken with
    | true =>
      rw [perform_print_taken hs, perform_print_taken hs', hsink, houtputs]
      exact .went ⟨⟨h.data, h.registers, h.input, rfl, rfl⟩, h.carries, h.carries'⟩ hpc hpc'
    | false =>
      rw [perform_print_refused hs, perform_print_refused hs']
      exact .ended ⟨⟨h.data, h.registers, h.input, rfl, h.outputs⟩, h.carries, h.carries'⟩ hcycles
  | load rd address =>
    refine .went ⟨⟨h.data, ?_, h.input, h.sink, h.outputs⟩, h.carries, h.carries'⟩ hpc hpc'
    have hread : m'.memory.read address = m.memory.read address :=
      h.data address (haddresses address ha)
    show m'.registers.set rd (m'.memory.read address) = m.registers.set rd (m.memory.read address)
    rw [h.registers, hread]
  | store address value =>
    have hlow := haddresses address ha
    refine .went ⟨⟨fun a hle => ?_, h.registers, h.input, h.sink, h.outputs⟩,
      h.carries.write hlow value, h.carries'.write hlow value⟩ ?_ ?_
    · show (m'.memory.write address value).read a = (m.memory.write address value).read a
      rw [Memory.read_write, Memory.read_write, h.data a hle, Memory.index_eq h.carries.length,
        Memory.index_eq h.carries.length, Memory.index_eq h.carries'.length,
        Memory.index_eq h.carries'.length]
    · exact Memory.wrap_eq ((Memory.length_write ..).trans h.carries.length) _
    · exact Memory.wrap_eq ((Memory.length_write ..).trans h.carries'.length) _

/-- **In step.**  The same instruction, if it goes on behind itself and touches nothing below `n`,
    keeps alike machines alike. -/
theorem Alike.attempt_inStep (h : Alike n code code' m m')
    (hd : Instruction.decode (m.memory.read m.pc) = .ok i)
    (hd' : Instruction.decode (m'.memory.read m'.pc) = .ok i) (hjump : i.opcode.isJump = false)
    (htouches : ∀ a ∈ m.touches, n ≤ a.toNat) :
    InStep n code code' m m' m.attempt m'.attempt := by
  cases hh : i.isHalt with
  | true =>
    rw [attempt_of_isHalt hd hh, attempt_of_isHalt hd' hh]
    exact .ended ⟨⟨h.data, h.registers, h.input, h.sink, h.outputs⟩, h.carries, h.carries'⟩
      (Nat.add_comm _ _)
  | false =>
    rw [attempt_of_decode hd hh, attempt_of_decode hd' hh]
    unfold execute
    -- an action depends on what both machines have in common
    have haction : m'.start.action i = m.start.action i := h.action hd hjump htouches
    rw [haction]
    cases ha : m.start.action i with
    | error fault => exact .ended h.start (Nat.add_comm _ _)
    | ok a => exact h.perform_inStep (within_of_action hd hjump ha) htouches

end

end Machine

end AnnaToolchain
