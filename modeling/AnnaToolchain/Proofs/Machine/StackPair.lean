import AnnaToolchain.Proofs.Assembly.Meaning
import AnnaToolchain.Proofs.Assembly.References

/-! # A push and its pop

    A `push` stores a register and moves the stack pointer; a `pop` moves it
    back and loads what was stored.  So four instructions do what one `mov`
    does to the registers, whichever of the three registers are the same one
    and whichever is `r0` (`Machine.push_pop_computes`).

    Memory may have any length here, so that the four words may stand round
    its end (`Machine.AtWords`), and the stack pointer is an address only
    once it is wrapped. -/

namespace AnnaToolchain

/-! ## Addresses round memory -/

namespace Word

variable {address : Word} {len j k : Nat}

/-- The address `k` words on, round a memory of `len` words. -/
def ahead (address : Word) (len k : Nat) : Word :=
  BitVec.ofNat 16 ((address.toNat + k) % len)

theorem toNat_ahead (hpos : 0 < len) (hle : len ≤ maxMemory) :
    (address.ahead len k).toNat = (address.toNat + k) % len := by
  have hlt := Nat.mod_lt (address.toNat + k) hpos
  unfold maxMemory at hle
  rw [ahead, BitVec.toNat_ofNat]
  omega

theorem ahead_zero (h : address.toNat < len) : address.ahead len 0 = address := by
  rw [ahead, Nat.add_zero, Nat.mod_eq_of_lt h, BitVec.ofNat_toNat, BitVec.setWidth_eq]

theorem ahead_ahead (hpos : 0 < len) (hle : len ≤ maxMemory) :
    (address.ahead len j).ahead len k = address.ahead len (j + k) := by
  rw [ahead, toNat_ahead hpos hle, Nat.mod_add_mod, Nat.add_assoc]
  rfl

end Word

namespace Memory

variable (m : Memory) (address : Word)

theorem wrap_ahead (k : Nat) : m.wrap (address.ahead m.length k) = address.ahead m.length k := by
  show BitVec.ofNat 16 ((address.ahead m.length k).toNat % m.length) = _
  rw [Word.toNat_ahead m.length_pos m.length_le, Nat.mod_mod]
  rfl

/-- The next address, which may be the first one. -/
theorem wrap_add_one {address : Word} (h : address.toNat < m.length) :
    m.wrap (address + 1) = address.ahead m.length 1 := by
  have hle := m.length_le
  unfold maxMemory at hle
  show BitVec.ofNat 16 ((address + 1).toNat % m.length) = BitVec.ofNat 16 _
  rw [BitVec.toNat_add, show (1 : Word).toNat = 1 from rfl]
  by_cases hlast : address.toNat + 1 < 2 ^ 16
  · rw [Nat.mod_eq_of_lt hlast]
  · -- one past the last address of 16 bits is the front of the largest memory
    rw [show m.length = 2 ^ 16 by omega, Nat.mod_mod]

end Memory

namespace Registers

theorem set_get (regs : Registers) (r : Register) : regs.set r (regs.get r) = regs := by
  apply ext_get
  intro s
  rw [get_set]
  split
  · next h => rw [h.1]
  · rfl

/-- What is taken from a register and given back leaves it as it was. -/
theorem set_sub_add (regs : Registers) (r : Register) (n : Word) :
    (regs.set r (regs.get r - n)).set r ((regs.set r (regs.get r - n)).get r + n) = regs := by
  by_cases hr : r = Register.zero
  · -- `r0` has not moved
    rw [hr, set_zero, set_zero]
  · rw [get_set_self _ _ hr, set_set, BitVec.sub_add_cancel, set_get]

end Registers

/-! ## Words in a row -/

namespace Machine

/-- The machine is about to execute words that stand in a row, round memory, and there are no
    breakpoints. -/
structure AtWords (m : Machine) (words : List Word) : Prop where
  pc : m.pc.toNat < m.memory.length
  words : ∀ k word, words[k]? = some word →
    m.memory.read (m.pc.ahead m.memory.length k) = word
  clear : ∀ address, m.memory.hasBreakpoint address = false

namespace AtWords

variable {m m' : Machine} {i : Instruction} {words : List Word}

theorem faces (h : m.AtWords (i.encode :: words)) : m.Faces i := by
  refine ⟨?_, atBreakpoint_eq_false (h.clear m.pc)⟩
  have hfirst := h.words 0 i.encode rfl
  rwa [Word.ahead_zero h.pc] at hfirst

/-- A run starts with an empty record of changes. -/
theorem unchanged (h : m.AtWords words) : AtWords { m with changes := .none } words :=
  ⟨h.pc, h.words, h.clear⟩

/-- Behind its first word a machine is at the others, unless one of them was overwritten. -/
theorem next {registers : Registers} {memory : Memory} (h : m.AtWords (i.encode :: words))
    (hm : Moved m (m.pc.ahead m.memory.length 1) registers memory m')
    (hlength : memory.length = m.memory.length)
    (hclear : ∀ address, memory.hasBreakpoint address = m.memory.hasBreakpoint address)
    (hkept : ∀ k < words.length, memory.read (m.pc.ahead m.memory.length (k + 1))
      = m.memory.read (m.pc.ahead m.memory.length (k + 1))) : m'.AtWords words := by
  have hpos := m.memory.length_pos
  have hle := m.memory.length_le
  refine ⟨?_, fun k word hk => ?_, fun address => ?_⟩
  · rw [hm.memory, hm.pc, hlength, Word.toNat_ahead hpos hle]
    exact Nat.mod_lt _ hpos
  · rw [hm.memory, hm.pc, hlength, Word.ahead_ahead hpos hle, Nat.add_comm,
      hkept k (List.getElem?_eq_some_iff.mp hk).1]
    exact h.words (k + 1) word hk
  · rw [hm.memory, hclear, h.clear]

theorem set {rd : Register} {value : Word} (h : m.AtWords (i.encode :: words))
    (ha : m.action i = .ok (.set rd value)) :
    ∃ m', Steps 1 m m' ∧ Moved m (m.pc.ahead m.memory.length 1) (m.registers.set rd value)
      m.memory m' ∧ m'.AtWords words := by
  obtain ⟨m', hsteps, hmoved⟩ := h.faces.set ha
  rw [Memory.wrap_add_one _ h.pc] at hmoved
  exact ⟨m', hsteps, hmoved, h.next hmoved rfl (fun _ => rfl) fun _ _ => rfl⟩

/-- A store leaves the words behind it alone if it is to none of their cells. -/
theorem store {address value : Word} (h : m.AtWords (i.encode :: words))
    (ha : m.action i = .ok (.store address value))
    (haway : ∀ k < words.length,
      m.memory.wrap address ≠ m.pc.ahead m.memory.length (k + 1)) :
    ∃ m', Steps 1 m m' ∧ Moved m (m.pc.ahead m.memory.length 1) m.registers
      (m.memory.write address value) m' ∧ m'.AtWords words := by
  obtain ⟨m', hsteps, hmoved⟩ := h.faces.store ha
  have hlength := Memory.length_write m.memory address value
  rw [Memory.wrap_add_one _ (by rw [hlength]; exact h.pc), hlength] at hmoved
  refine ⟨m', hsteps, hmoved, h.next hmoved hlength (fun _ => Memory.hasBreakpoint_write ..)
    fun k hk => Memory.read_write_ne _ _ fun hindex => haway k hk ?_⟩
  rw [← Memory.wrap_ahead]
  exact congrArg (BitVec.ofNat 16) hindex

/-- The four words of a `push` of `a` and a `pop` to `b`, with the stack pointer `s`. -/
theorem reaches_push_pop {s a b : Register}
    (h : m.AtWords [(Instruction.ofImm6 .sw rfl a s 0).encode,
      (Instruction.ofImm6 .addi rfl s s (-1)).encode, (Instruction.ofImm6 .addi rfl s s 1).encode,
      (Instruction.ofImm6 .lw rfl b s 0).encode])
    (haway : ∀ k < 4, m.memory.wrap (m.register s) ≠ m.pc.ahead m.memory.length k) :
    m.Reaches 4 (m.pc.ahead m.memory.length 4) (m.registers.set b (m.register a))
      (m.memory.write (m.register s) (m.register a)) := by
  have hpos := m.memory.length_pos
  have hle := m.memory.length_le
  have hzero : Immediate.extend (0 : BitVec 6) = 0 := by decide
  -- the register is stored in a cell that is none of the four
  have hsw := action_sw m a s rfl 0
  rw [hzero, Word.add_zero] at hsw
  obtain ⟨m₁, hsteps₁, hmoved₁, h₁⟩ := h.store hsw fun k hk => by
    have hk' : k < 3 := hk
    rw [Memory.wrap_wrap]
    exact haway (k + 1) (by omega)
  rw [Memory.write_wrap] at hmoved₁
  -- the stack pointer moves, and moves back
  obtain ⟨m₂, hsteps₂, hmoved₂, h₂⟩ := h₁.set (action_addi m₁ s s rfl (-1))
  obtain ⟨m₃, hsteps₃, hmoved₃, h₃⟩ := h₂.set (action_addi m₂ s s rfl 1)
  have hregisters : m₃.registers = m.registers := by
    have hdown : m₁.register s + Immediate.extend (-1 : BitVec 6) = m.registers.get s - 1 := by
      rw [register, hmoved₁.registers, show Immediate.extend (-1 : BitVec 6) = -1 by decide,
        BitVec.sub_eq_add_neg]
    rw [hmoved₃.registers, register, hmoved₂.registers, hdown, hmoved₁.registers,
      show Immediate.extend (1 : BitVec 6) = 1 by decide, Registers.set_sub_add]
  have hmemory : m₃.memory = m.memory.write (m.register s) (m.register a) := by
    rw [hmoved₃.memory, hmoved₂.memory, hmoved₁.memory]
  have hlength : m₃.memory.length = m.memory.length := by
    rw [hmemory, Memory.length_write]
  have hpc : m₃.pc = m.pc.ahead m.memory.length 3 := by
    rw [hmoved₃.pc, hmoved₂.pc, hmoved₂.memory, hmoved₁.pc, hmoved₁.memory, Memory.length_write,
      Word.ahead_ahead hpos hle, Word.ahead_ahead hpos hle]
  -- so what was stored is loaded
  have hload := h₃.faces.load (action_lw m₃ b s rfl 0)
  have hstored : m₃.memory.read (m₃.memory.wrap (m₃.register s + Immediate.extend (0 : BitVec 6)))
      = m.register a := by
    rw [hzero, Word.add_zero, Memory.read_wrap, register, hregisters, hmemory]
    exact Memory.read_write_self _ _ _
  rw [hstored, hregisters, Memory.wrap_add_one _ h₃.pc, hlength, hpc, Word.ahead_ahead hpos hle,
    hmemory] at hload
  exact hsteps₁.reaches hmoved₁ (hsteps₂.reaches hmoved₂ (hsteps₃.reaches hmoved₃ hload))

/-- The word of a `mov`, which adds `r0`. -/
theorem reaches_mov {a b : Register}
    (h : m.AtWords [(Instruction.ofRegisters (.math .add) rfl b a .zero).encode]) :
    m.Reaches 1 (m.pc.ahead m.memory.length 1) (m.registers.set b (m.register a)) m.memory := by
  have hzero : m.register .zero = 0 := m.registers.get_zero
  have hset := h.faces.set (action_add m b a .zero rfl)
  rwa [hzero, Word.add_zero, Memory.wrap_add_one _ h.pc] at hset

end AtWords

end Machine

/-! ## From the statements -/

namespace Emission

variable {aliases : Aliases} {sp value : String} {s a : Register}

/-- A `push` of named registers becomes two words. -/
theorem ofPseudo_push_eq (hs : aliases.register sp = .ok s) (ha : aliases.register value = .ok a) :
    ofPseudo aliases .push [sp, value]
      = .ok [{ word := (Instruction.ofImm6 .sw rfl a s 0).encode },
        { word := (Instruction.ofImm6 .addi rfl s s (-1)).encode }] := by
  have hsw : ofInstruction aliases .sw [value, sp, "0"] = _ :=
    ofInstruction_of_imm6 rfl ha hs NumberOrLabel.parse_zero rfl
  have haddi : ofInstruction aliases .addi [sp, sp, "-1"] = _ :=
    ofInstruction_of_imm6 rfl hs hs NumberOrLabel.parse_minusOne rfl
  rw [ofPseudo_of_expand rfl, List.mapM_cons, List.mapM_cons, hsw, haddi]
  rfl

/-- A `pop` of named registers becomes two words. -/
theorem ofPseudo_pop_eq (hs : aliases.register sp = .ok s) (ha : aliases.register value = .ok a) :
    ofPseudo aliases .pop [sp, value]
      = .ok [{ word := (Instruction.ofImm6 .addi rfl s s 1).encode },
        { word := (Instruction.ofImm6 .lw rfl a s 0).encode }] := by
  have haddi : ofInstruction aliases .addi [sp, sp, "1"] = _ :=
    ofInstruction_of_imm6 rfl hs hs NumberOrLabel.parse_one rfl
  have hlw : ofInstruction aliases .lw [value, sp, "0"] = _ :=
    ofInstruction_of_imm6 rfl ha hs NumberOrLabel.parse_zero rfl
  rw [ofPseudo_of_expand rfl, List.mapM_cons, List.mapM_cons, haddi, hlw]
  rfl

/-- A `mov` of named registers becomes one word. -/
theorem ofPseudo_mov_eq (hn : aliases.Native) (hs : aliases.register sp = .ok s)
    (ha : aliases.register value = .ok a) :
    ofPseudo aliases .mov [sp, value]
      = .ok [{ word := (Instruction.ofRegisters (.math .add) rfl s a .zero).encode }] := by
  have hregisters : [sp, value, "r0"].mapM aliases.register = .ok [s, a, .zero] := by
    rw [List.mapM_cons, List.mapM_cons, List.mapM_cons, List.mapM_nil, hs, ha, hn.register_zero]
    rfl
  have hadd : ofInstruction aliases (.math .add) [sp, value, "r0"] = _ :=
    ofInstruction_of_registers rfl hregisters
  rw [ofPseudo_of_expand rfl, List.mapM_cons, hadd]
  rfl

end Emission

namespace Machine

/-- **A push and its pop.**  The words of a `push` and of the `pop` after it, under whatever names
    for the registers, leave the pushed register in the popped one and, unless that is the stack
    pointer, the stack pointer as it was (`r0` stays zero, which `Registers.set` says).  Memory
    differs in the one cell that the stack pointer addresses.  The registers are those that the
    `mov` leaves, and unchanged if the two registers are one. -/
theorem push_pop_computes {aliases : Aliases} {sp sp' value target : String} {s a b : Register}
    (hn : aliases.Native) (hs : aliases.register sp = .ok s) (hs' : aliases.register sp' = .ok s)
    (ha : aliases.register value = .ok a) (hb : aliases.register target = .ok b) :
    ∃ push pop mov, Emission.ofPseudo aliases .push [sp, value] = .ok push ∧
      Emission.ofPseudo aliases .pop [sp', target] = .ok pop ∧
      Emission.ofPseudo aliases .mov [target, value] = .ok mov ∧
      ∀ m : Machine, m.AtWords ((push ++ pop).map (·.word)) →
        (∀ k < 4, m.memory.wrap (m.register s) ≠ m.pc.ahead m.memory.length k) →
        m.Computes 4 (m.pc.ahead m.memory.length 4) (m.registers.set b (m.register a))
            (m.memory.write (m.register s) (m.register a)) ∧
          (a = b → (m.run 4).1.registers = m.registers) ∧
          ∀ m' : Machine, m'.AtWords (mov.map (·.word)) → m'.registers = m.registers →
            m'.Computes 1 (m'.pc.ahead m'.memory.length 1) (m.run 4).1.registers m'.memory := by
  refine ⟨_, _, _, Emission.ofPseudo_push_eq hs ha, Emission.ofPseudo_pop_eq hs' hb,
    Emission.ofPseudo_mov_eq hn hb ha, fun m h haway => ?_⟩
  have hpair : m.Computes 4 (m.pc.ahead m.memory.length 4) (m.registers.set b (m.register a))
      (m.memory.write (m.register s) (m.register a)) :=
    (h.unchanged.reaches_push_pop haway).computes
  refine ⟨hpair, ?_, fun m' h' hsame => ?_⟩
  · rintro rfl
    rw [hpair.moved.registers]
    exact m.registers.set_get a
  · have hmov : m'.Computes 1 (m'.pc.ahead m'.memory.length 1)
        (m'.registers.set b (m'.register a)) m'.memory := h'.unchanged.reaches_mov.computes
    rw [register, hsame] at hmov
    rw [hpair.moved.registers]
    exact hmov

/-! ### Round the end of five words -/

/-- The names of registers in `stackMachine`. -/
def stackNames : Aliases :=
  ("sp", .ofBits 7) :: Aliases.initial

/-- A machine with five words of memory before `push sp, r1` and `pop R7, sp`, of which two words
    are at the end of memory and two at its front.  The stack pointer is one round too far. -/
def stackMachine : Machine :=
  { ((((Machine.new { memLen := 5 }).writeMemory 3 0x63C0).writeMemory 4 0x3FFF).writeMemory 0
      0x3FC1).writeMemory 1 0x5FC0 with
    pc := 3
    registers := (Registers.zeroed.set (.ofBits 7) 7).set (.ofBits 1) 0x1234 }

theorem atWords_stackMachine : stackMachine.AtWords [0x63C0, 0x3FFF, 0x3FC1, 0x5FC0] := by
  refine ⟨by decide +kernel, fun k word hk => ?_, fun address => ?_⟩
  · match k, hk with
    | 0, hk | 1, hk | 2, hk | 3, hk =>
      cases hk
      decide +kernel
  · show Memory.hasBreakpoint (((((Memory.fresh 5 .zeroed).write 3 _).write 4 _).write 0 _).write 1 _)
      address = false
    rw [Memory.hasBreakpoint_write, Memory.hasBreakpoint_write, Memory.hasBreakpoint_write,
      Memory.hasBreakpoint_write, Memory.hasBreakpoint_fresh]

/-- The stack pointer itself is popped. -/
theorem push_pop_computes_stackMachine :
    stackMachine.Computes 4 2 (stackMachine.registers.set (.ofBits 7) 0x1234)
      (stackMachine.memory.write 7 0x1234) := by
  have hadd : Aliases.initial.add "r7" "sp" = .ok stackNames := by decide +kernel
  have hn : stackNames.Native := Aliases.native_add Aliases.native_initial hadd
  have hsp : stackNames.register "sp" = .ok (.ofBits 7) := by decide +kernel
  have hr7 : stackNames.register "R7" = .ok (.ofBits 7) := by decide +kernel
  have hr1 : stackNames.register "r1" = .ok (.ofBits 1) := by decide +kernel
  obtain ⟨push, pop, mov, hpush, hpop, -, hcomputes⟩ := push_pop_computes hn hsp hr7 hr1 hsp
  have hpush' : Emission.ofPseudo stackNames .push ["sp", "r1"]
      = .ok [{ word := 0x63C0 }, { word := 0x3FFF }] := by decide +kernel
  have hpop' : Emission.ofPseudo stackNames .pop ["R7", "sp"]
      = .ok [{ word := 0x3FC1 }, { word := 0x5FC0 }] := by decide +kernel
  cases hpush'.symm.trans hpush
  cases hpop'.symm.trans hpop
  exact (hcomputes stackMachine atWords_stackMachine (by decide +kernel)).1

end Machine

end AnnaToolchain
