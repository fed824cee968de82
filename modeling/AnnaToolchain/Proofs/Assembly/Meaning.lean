import AnnaToolchain.Proofs.Assembly.BranchTarget
import AnnaToolchain.Proofs.Machine.Loading
import AnnaToolchain.Proofs.Machine.Slices

/-! # What statements mean

    Branches to labels and pseudo-instructions mean at run time what their
    text says (`Program.meaning`), in a memory of 65536 words.  What a
    statement is made of is no part of its meaning: two words that load the
    two bytes of a number load that number, and a displacement round memory
    leads to its label.

    There is one way to see the words behind a statement.  A `push` stores
    before it moves the stack pointer, and what it stores may be put in the
    place of its own second word. -/

namespace AnnaToolchain

/-! ## Arithmetic -/

theorem Registers.set_set (regs : Registers) (r : Register) (a b : Word) :
    (regs.set r a).set r b = regs.set r b := by
  apply ext_get
  intro s
  simp only [get_set]
  split
  · rfl
  · rfl

theorem Word.add_zero (w : Word) : w + 0 = w :=
  BitVec.add_zero w

/-- The two bytes of a word, loaded one after the other. -/
theorem Word.ofNat_high_low (w : Word) :
    BitVec.ofNat 16 (w.highByte.toNat * 256 + (Immediate.extend w.lowByte).toNat % 256) = w := by
  have hw := w.isLt
  -- sign extension fills the high byte, which the second load replaces
  have hlow : (Immediate.extend w.lowByte).toNat % 256 = w.toNat % 256 := by
    unfold Immediate.extend
    rw [BitVec.toNat_signExtend, BitVec.toNat_setWidth]
    cases w.lowByte.msb with
    | false =>
      simp only [Word.lowByte, BitVec.toNat_ofNat, Bool.false_eq_true, if_false]
      omega
    | true =>
      simp only [Word.lowByte, BitVec.toNat_ofNat, if_true]
      omega
  apply BitVec.eq_of_toNat_eq
  rw [hlow]
  simp only [Word.highByte, BitVec.toNat_ofNat]
  omega

/-- In the largest memory the distance to a label leads to it, whichever way round. -/
theorem goto_distance {address target : Word} {imm : BitVec 8}
    (h : imm.toInt = Relocation.distance 65536 address target) :
    address + 1 + Immediate.extend imm = target := by
  have ht := target.isLt
  have hsum := Relocation.branchSum_distance 65536 address target
  have hnat := toNat_add_extend address imm
  rw [h] at hnat
  -- once round memory is once round 16 bits
  apply BitVec.eq_of_toNat_eq
  omega

/-! ## A machine about to execute a statement -/

namespace Machine

/-- The machine is about to execute a statement: it is at its address, the words there are those
    of the statement, with no breakpoints on them, and its memory is the largest one. -/
structure AtStatement (m : Machine) (s : Statement) : Prop where
  length : m.memory.length = maxMemory
  address : s.address = some m.pc
  words : ∀ k word, s.words[k]? = some word → m.memory.read (m.pc + BitVec.ofNat 16 k) = word
  clear : ∀ k, k < s.words.length → m.memory.hasBreakpoint (m.pc + BitVec.ofNat 16 k) = false

theorem atBreakpoint_eq_false {m : Machine} (h : m.memory.hasBreakpoint m.pc = false) :
    m.atBreakpoint = false := by
  simp [atBreakpoint, h]

namespace AtStatement

variable {m : Machine} {s : Statement} {start : Word} {i i' : Instruction}
  {code : List Instruction}

/-- Only the memory and the program counter matter. -/
theorem congr {m' : Machine} (h : m.AtStatement s) (hmemory : m'.memory = m.memory)
    (hpc : m'.pc = m.pc) : m'.AtStatement s := by
  refine ⟨?_, ?_, ?_, ?_⟩
  · rw [hmemory, h.length]
  · rw [hpc, h.address]
  · rw [hmemory, hpc]
    exact h.words
  · rw [hmemory, hpc]
    exact h.clear

theorem unchanged (h : m.AtStatement s) : AtStatement { m with changes := .none } s :=
  h.congr rfl rfl

theorem faces (h : m.AtStatement s) (hc : s.Codes start (i :: code)) : m.Faces i := by
  have hzero : m.pc + BitVec.ofNat 16 0 = m.pc := Word.add_ofNat_zero _
  refine ⟨?_, atBreakpoint_eq_false ?_⟩
  · have hword := h.words 0 i.encode (by rw [hc.words]; rfl)
    rwa [hzero] at hword
  · have hclear := h.clear 0 (by rw [hc.words, List.length_map, List.length_cons]; omega)
    rwa [hzero] at hclear

/-- After its first word a statement goes on with the second, unless that was overwritten. -/
theorem faces_next {m' : Machine} {registers : Registers} {memory : Memory}
    (h : m.AtStatement s) (hc : s.Codes start (i :: i' :: code))
    (hm : Moved m (m.pc + 1) registers memory m')
    (hword : memory.read (m.pc + 1) = m.memory.read (m.pc + 1))
    (hclear : memory.hasBreakpoint (m.pc + 1) = m.memory.hasBreakpoint (m.pc + 1)) :
    m'.Faces i' := by
  refine ⟨?_, atBreakpoint_eq_false ?_⟩
  · rw [hm.memory, hm.pc, hword]
    exact h.words 1 i'.encode (by rw [hc.words]; rfl)
  · rw [hm.memory, hm.pc, hclear]
    exact h.clear 1 (by rw [hc.words, List.length_map, List.length_cons, List.length_cons]; omega)

/-- Two words on, when the first has left memory as long as it was. -/
theorem wrap_next {m' : Machine} {registers : Registers} {memory : Memory}
    (hm : Moved m (m.pc + 1) registers memory m') (hl : memory.length = maxMemory) :
    m'.memory.wrap (m'.pc + 1) = m.pc + 2 := by
  rw [hm.memory, hm.pc, Memory.wrap_eq hl, BitVec.add_assoc]
  rfl

/-! ### One word -/

theorem reaches_mov {r q : Register} (h : m.AtStatement s)
    (hc : s.Codes start [.ofRegisters (.math .add) rfl r q .zero]) :
    m.Reaches 1 (m.pc + 1) (m.registers.set r (m.register q)) m.memory := by
  have hset := (h.faces hc).set (action_add m r q .zero rfl)
  have hzero : m.register .zero = 0 := m.registers.get_zero
  rwa [hzero, Word.add_zero, Memory.wrap_eq h.length] at hset

theorem reaches_jmp {q : Register} (h : m.AtStatement s)
    (hc : s.Codes start [.ofRegisters .jalr rfl q .zero .zero]) :
    m.Reaches 1 (m.register q) m.registers m.memory := by
  have hlink := (h.faces hc).link (action_jalr m q .zero .zero rfl)
  rwa [Registers.set_zero, Memory.wrap_eq h.length] at hlink

theorem reaches_branch {cond : Condition} {r : Register} {imm : BitVec 8} {target : Word}
    (h : m.AtStatement s) (hc : s.Codes start [.ofImm8 (.branch cond) rfl r imm])
    (himm : imm.toInt = Relocation.distance 65536 m.pc target) :
    m.Reaches 1 (if cond.holds (m.register r).toInt then target else m.pc + 1) m.registers
      m.memory := by
  have hgoto := (h.faces hc).goto (action_branch m r cond rfl imm)
  rwa [goto_distance himm, Memory.wrap_eq h.length] at hgoto

/-! ### Two words -/

theorem reaches_lwi {r : Register} {v : Word} (h : m.AtStatement s)
    (hc : s.Codes start [.ofImm8 .lli rfl r v.lowByte, .ofImm8 .lui rfl r v.highByte]) :
    m.Reaches 2 (m.pc + 2) (m.registers.set r v) m.memory := by
  obtain ⟨m₁, hsteps, hmoved⟩ := (h.faces hc).set (action_lli m r rfl v.lowByte)
  rw [Memory.wrap_eq h.length] at hmoved
  have hnext := h.faces_next hc hmoved rfl rfl
  have hset := hnext.set (action_lui m₁ r rfl v.highByte)
  have hregs : m₁.registers.set r
      (BitVec.ofNat 16 (v.highByte.toNat * 256 + (m₁.register r).toNat % 256))
      = m.registers.set r v := by
    by_cases hr : r = Register.zero
    · -- `r0` takes neither byte
      rw [hr, hmoved.registers, hr, Registers.set_zero, Registers.set_zero, Registers.set_zero]
    · have hlow : m₁.register r = Immediate.extend v.lowByte := by
        unfold register
        rw [hmoved.registers, Registers.get_set_self _ _ hr]
      rw [hlow, Word.ofNat_high_low, hmoved.registers, Registers.set_set]
  rw [wrap_next hmoved h.length, hregs, hmoved.memory] at hset
  exact hsteps.reaches hmoved hset

theorem reaches_pop {r q : Register} (h : m.AtStatement s)
    (hc : s.Codes start [.ofImm6 .addi rfl r r 1, .ofImm6 .lw rfl q r 0]) :
    m.Reaches 2 (m.pc + 2)
      ((m.registers.set r (m.register r + 1)).set q
        (m.memory.read ((m.registers.set r (m.register r + 1)).get r)))
      m.memory := by
  obtain ⟨m₁, hsteps, hmoved⟩ := (h.faces hc).set (action_addi m r r rfl 1)
  rw [Memory.wrap_eq h.length, show Immediate.extend (1 : BitVec 6) = 1 by decide] at hmoved
  have hnext := h.faces_next hc hmoved rfl rfl
  have hload := hnext.load (action_lw m₁ q r rfl 0)
  -- the stack pointer is read again after it was moved, and `r0` has not moved
  have haddress : m₁.memory.wrap (m₁.register r + Immediate.extend (0 : BitVec 6))
      = (m.registers.set r (m.register r + 1)).get r := by
    unfold register
    rw [hmoved.memory, hmoved.registers, Memory.wrap_eq h.length,
      show Immediate.extend (0 : BitVec 6) = 0 by decide, Word.add_zero]
    rfl
  rw [wrap_next hmoved h.length, haddress, hmoved.registers, hmoved.memory] at hload
  exact hsteps.reaches hmoved hload

/-- A push executes its second word unless the first has put another one in its place. -/
theorem reaches_push {r q : Register} (h : m.AtStatement s)
    (hc : s.Codes start [.ofImm6 .sw rfl q r 0, .ofImm6 .addi rfl r r (-1)]) :
    m.Reaches 1 (m.pc + 1) m.registers (m.memory.write (m.register r) (m.register q)) ∧
    (m.register r ≠ m.pc + 1 ∨ s.words[1]? = some (m.register q) →
      m.Reaches 2 (m.pc + 2) (m.registers.set r (m.register r - 1))
        (m.memory.write (m.register r) (m.register q))) := by
  have hstore := (h.faces hc).store (action_sw m q r rfl 0)
  have hlength : (m.memory.write (m.register r) (m.register q)).length = maxMemory := by
    rw [Memory.length_write]
    exact h.length
  rw [show Immediate.extend (0 : BitVec 6) = 0 by decide, Word.add_zero,
    Memory.wrap_eq h.length, Memory.wrap_eq hlength] at hstore
  refine ⟨hstore, ?_⟩
  intro hkept
  obtain ⟨m₁, hsteps, hmoved⟩ := hstore
  -- the word read next is still the push's own second word
  have hword : (m.memory.write (m.register r) (m.register q)).read (m.pc + 1)
      = m.memory.read (m.pc + 1) := by
    rcases hkept with hne | hsame
    · refine Memory.read_write_ne _ _ fun hindex => hne ?_
      rw [Memory.index_eq h.length, Memory.index_eq h.length] at hindex
      exact BitVec.eq_of_toNat_eq hindex
    · rw [Memory.read_write]
      split
      · exact (h.words 1 _ hsame).symm
      · rfl
  have hnext := h.faces_next hc hmoved hword (Memory.hasBreakpoint_write ..)
  have hset := hnext.set (action_addi m₁ r r rfl (-1))
  have hvalue : m₁.register r + Immediate.extend (-1 : BitVec 6) = m.register r - 1 := by
    unfold register
    rw [hmoved.registers, show Immediate.extend (-1 : BitVec 6) = -1 by decide,
      BitVec.sub_eq_add_neg]
  rw [wrap_next hmoved hlength, hvalue, hmoved.registers, hmoved.memory] at hset
  exact hsteps.reaches hmoved hset

/-- A push that stores the halt word over its own second word halts. -/
theorem push_halts {r q : Register} (h : m.AtStatement s)
    (hc : s.Codes start [.ofImm6 .sw rfl q r 0, .ofImm6 .addi rfl r r (-1)])
    (hsp : m.register r = m.pc + 1) (hrv : m.register q = Instruction.haltWord) :
    (m.run 2).2 = .ok .halted := by
  obtain ⟨hresult, hmoved⟩ := (h.unchanged.reaches_push hc).1.computes
  have hmemory : (m.run 1).1.memory = m.memory.write (m.pc + 1) Instruction.haltWord := by
    rw [← hsp, ← hrv]
    exact hmoved.memory
  have hpc : (m.run 1).1.pc = m.pc + 1 := hmoved.pc
  have hfaces : (m.run 1).1.Faces .halt := by
    refine ⟨?_, atBreakpoint_eq_false ?_⟩
    · rw [hpc, hmemory, Memory.read_write_self]
      rfl
    · rw [hpc, hmemory, Memory.hasBreakpoint_write]
      exact h.clear 1 (by rw [hc.words]; exact Nat.one_lt_two)
  rw [show (2 : Nat) = 1 + 1 from rfl, run_add hresult 1]
  exact (hfaces.halts 0).1

end AtStatement

end Machine

/-! ## Meanings -/

/-- What a statement means to a machine that is about to execute it, with the given values of
    labels and names of registers.  Only branches to labels and pseudo-instructions are given a
    meaning of their own. -/
def Statement.Meaning (symbols : SymbolTable) (aliases : Aliases) (s : Statement) (m : Machine) :
    Prop :=
  match s.op, s.operands with
  | some (.real (.branch cond)), [rd, target] =>
    ∀ label, Operand.parse target = .ok (.label label) →
      ∃ r t, aliases.register rd = .ok r ∧ symbols.addressOf? label = some t ∧
        m.Computes 1 (if cond.holds (m.register r).toInt then t else m.pc + 1) m.registers m.memory
  | some (.pseudo .br), [target] =>
    ∀ label, Operand.parse target = .ok (.label label) →
      ∃ t, symbols.addressOf? label = some t ∧ m.Computes 1 t m.registers m.memory
  | some (.pseudo .lwi), [rd, value] =>
    ∃ r n v, aliases.register rd = .ok r ∧ NumberOrLabel.parse value = .ok n ∧
      n.value? symbols = some v ∧ m.Computes 2 (m.pc + 2) (m.registers.set r v) m.memory
  | some (.pseudo .mov), [rd, rs] =>
    ∃ r q, aliases.register rd = .ok r ∧ aliases.register rs = .ok q ∧
      m.Computes 1 (m.pc + 1) (m.registers.set r (m.register q)) m.memory
  | some (.pseudo .jmp), [rs] =>
    ∃ q, aliases.register rs = .ok q ∧ m.Computes 1 (m.register q) m.registers m.memory
  | some (.pseudo .push), [sp, rv] =>
    ∃ r q, aliases.register sp = .ok r ∧ aliases.register rv = .ok q ∧
      m.Computes 1 (m.pc + 1) m.registers (m.memory.write (m.register r) (m.register q)) ∧
      (m.register r ≠ m.pc + 1 ∨ s.words[1]? = some (m.register q) →
        m.Computes 2 (m.pc + 2) (m.registers.set r (m.register r - 1))
          (m.memory.write (m.register r) (m.register q)))
  | some (.pseudo .pop), [sp, rv] =>
    ∃ r q, aliases.register sp = .ok r ∧ aliases.register rv = .ok q ∧
      m.Computes 2 (m.pc + 2)
        ((m.registers.set r (m.register r + 1)).set q
          (m.memory.read ((m.registers.set r (m.register r + 1)).get r)))
        m.memory
  | some (.pseudo .halt), [] =>
    ∀ n, (m.run (n + 1)).2 = .ok .halted ∧
      m.Moved m.pc m.registers m.memory (m.run (n + 1)).1
  | _, _ => True

/-- **Meaning.**  A statement of an assembled program means at run time what it says. -/
theorem Program.meaning {p placed : Program} {image : Image}
    (h : p.assemble maxMemory = (placed, .ok image)) {i : Nat} {s : Statement}
    (hs : placed[i]? = some s) {m : Machine} (hm : m.AtStatement s) :
    s.Meaning image.symbols (p.aliasesBefore i) m := by
  have hmemLen : image.memLen = 65536 := memLen_assemble h
  -- a run starts with an empty record of changes
  have hm' := hm.unchanged
  unfold Statement.Meaning
  split
  · next cond rd target hop hargs =>
    intro label hl
    have hb : s.branch? = some (cond, rd, target) := by simp [Statement.branch?, hop, hargs]
    obtain ⟨start, r, t, imm, hr, ht, himm, hc, -⟩ := codes_branch h hs hb hl
    cases hc.address.symm.trans hm.address
    rw [hmemLen] at himm
    exact ⟨r, t, hr, ht, (hm'.reaches_branch hc himm).computes⟩
  · next target hop hargs =>
    intro label hl
    have hb : s.branch? = some (.eq, "r0", target) := by simp [Statement.branch?, hop, hargs]
    obtain ⟨start, r, t, imm, hr, ht, himm, hc, -⟩ := codes_branch h hs hb hl
    cases hc.address.symm.trans hm.address
    rw [hmemLen] at himm
    rw [(Aliases.native_aliasesBefore p i).register_zero] at hr
    cases hr
    -- `r0` is zero, so the branch is always taken
    have hcomputes : m.Computes 1 (if Condition.eq.holds (m.register .zero).toInt then t
        else m.pc + 1) m.registers m.memory := (hm'.reaches_branch hc himm).computes
    have hzero : m.register .zero = 0 := m.registers.get_zero
    rw [hzero, if_pos (show Condition.eq.holds (0 : Word).toInt = true from rfl)] at hcomputes
    exact ⟨t, ht, hcomputes⟩
  · next rd value hop hargs =>
    obtain ⟨start, r, n, v, hr, hn, hv, hc⟩ := codes_lwi h hs hop hargs
    exact ⟨r, n, v, hr, hn, hv, (hm'.reaches_lwi hc).computes⟩
  · next rd rs hop hargs =>
    obtain ⟨start, r, q, hr, hq, hc⟩ := codes_mov h hs hop hargs
    exact ⟨r, q, hr, hq, (hm'.reaches_mov hc).computes⟩
  · next rs hop hargs =>
    obtain ⟨start, q, hq, hc⟩ := codes_jmp h hs hop hargs
    exact ⟨q, hq, (hm'.reaches_jmp hc).computes⟩
  · next sp rv hop hargs =>
    obtain ⟨start, r, q, hr, hq, hc⟩ := codes_push h hs hop hargs
    obtain ⟨hstore, hpush⟩ := hm'.reaches_push hc
    exact ⟨r, q, hr, hq, hstore.computes, fun hkept => (hpush hkept).computes⟩
  · next sp rv hop hargs =>
    obtain ⟨start, r, q, hr, hq, hc⟩ := codes_pop h hs hop hargs
    exact ⟨r, q, hr, hq, (hm'.reaches_pop hc).computes⟩
  · next hop hargs =>
    obtain ⟨start, hc⟩ := codes_halt h hs hop hargs
    exact (hm.faces hc).halts
  · trivial

/-! ## Statements at the front of memory -/

namespace Machine

/-- A machine with two words at the front of its memory. -/
def primed (first second : Word) : Machine :=
  ((Machine.new {}).writeMemory 0 first).writeMemory 1 second

theorem memory_primed (first second : Word) : (primed first second).memory
    = ((Memory.fresh maxMemory .zeroed).write 0 first).write 1 second := rfl

theorem length_primed (first second : Word) : (primed first second).memory.length = maxMemory := by
  rw [memory_primed, Memory.length_write, Memory.length_write, Memory.length_fresh]
  exact clampMemory_of_le (by decide) (Nat.le_refl _)

theorem read_primed (first second address : Word) :
    (primed first second).memory.read address
      = if (1 : Word) = address then second
        else if (0 : Word) = address then first
        else (Memory.fresh maxMemory .zeroed).read address := by
  have h₀ : (Memory.fresh maxMemory .zeroed).length = maxMemory := by
    rw [Memory.length_fresh]
    exact clampMemory_of_le (by decide) (Nat.le_refl _)
  have h₁ : ((Memory.fresh maxMemory .zeroed).write 0 first).length = maxMemory := by
    rw [Memory.length_write]
    exact h₀
  simp only [memory_primed, Memory.read_write, Memory.index_eq h₀, Memory.index_eq h₁,
    BitVec.toNat_inj]

theorem atStatement_primed {s : Statement} {first second : Word} (ha : s.address = some 0)
    (hw : s.words = [first, second]) : (primed first second).AtStatement s := by
  refine ⟨length_primed first second, ha, ?_, ?_⟩
  · intro k word hk
    have hpc : (primed first second).pc = 0 := rfl
    rw [hpc, read_primed]
    rw [hw] at hk
    match k, hk with
    | 0, hk =>
      cases hk
      rfl
    | 1, hk =>
      cases hk
      rfl
  · intro k _
    rw [memory_primed, Memory.hasBreakpoint_write, Memory.hasBreakpoint_write,
      Memory.hasBreakpoint_fresh]

end Machine

/-- A register by another name is given the address of a word. -/
def pointer : Program :=
  [{ op := some (.directive .ralias), operands := ["r2", "ptr"] },
   { op := some (.pseudo .lwi), operands := ["ptr", "&table"] },
   { labels := ["table"], op := some (.directive .fill), operands := ["7"] }]

/-- The image of `pointer`. -/
def pointerImage : Image :=
  { Image.empty maxMemory with
    words := (((∅ : Std.ExtTreeMap Word Word).insert 0 0x7402).insert 1 0x8400).insert 2 7
    symbols := (∅ : SymbolTable).insert "table" 2 }

theorem meaning_pointer :
    (pointer.assemble maxMemory).2 = .ok pointerImage ∧
    (Machine.primed 0x7402 0x8400).Computes 2 2 (Registers.zeroed.set 2 2)
      (Machine.primed 0x7402 0x8400).memory := by
  have hassemble : (pointer.assemble maxMemory).2 = .ok pointerImage := by decide +kernel
  have hmeaning := Program.meaning (Prod.ext rfl hassemble)
    (show (pointer.assemble maxMemory).1[1]? = some
      { op := some (.pseudo .lwi), operands := ["ptr", "&table"], address := some 0,
        words := [0x7402, 0x8400] } from by decide +kernel)
    (Machine.atStatement_primed rfl rfl)
  obtain ⟨r, n, v, hr, hn, hv, hcomputes⟩ := hmeaning
  -- the register, the label and its value, as the program has them
  have hr' : (pointer.aliasesBefore 1).register "ptr" = .ok 2 := by decide +kernel
  have hn' : NumberOrLabel.parse "&table" = .ok (.label "table") := by decide +kernel
  have hv' : pointerImage.symbols.addressOf? "table" = some 2 := by decide +kernel
  rw [hr'] at hr
  cases hr
  rw [hn'] at hn
  cases hn
  cases hv'.symm.trans hv
  exact ⟨hassemble, hcomputes⟩

/-- A push whose second word is where it stores. -/
def selfPush : Program :=
  [{ op := some (.pseudo .push), operands := ["r7", "r1"] }]

/-- `selfPush` as it is placed. -/
def selfPushStatement : Statement :=
  { op := some (.pseudo .push), operands := ["r7", "r1"], address := some 0,
    words := [0x63C0, 0x3FFF] }

/-- The image of `selfPush`. -/
def selfPushImage : Image :=
  { Image.empty maxMemory with
    words := ((∅ : Std.ExtTreeMap Word Word).insert 0 0x63C0).insert 1 0x3FFF }

/-- A machine about to execute `selfPush`, with the halt word to be stored. -/
def selfPushMachine : Machine :=
  ((Machine.primed 0x63C0 0x3FFF).setRegister (.ofBits 7) 1).setRegister (.ofBits 1)
    Instruction.haltWord

/-- The word stored is the next one executed, and the stack pointer stays as it is. -/
theorem push_over_itself :
    selfPush.assemble maxMemory = ([selfPushStatement], .ok selfPushImage) ∧
    selfPushMachine.AtStatement selfPushStatement ∧
    selfPushMachine.register 7 = 1 ∧ selfPushMachine.register 1 = Instruction.haltWord ∧
    (selfPushMachine.run 2).2 = .ok .halted ∧
    ¬ selfPushMachine.Computes 2 2 (selfPushMachine.registers.set 7 0)
      (selfPushMachine.memory.write 1 Instruction.haltWord) := by
  have hat : selfPushMachine.AtStatement selfPushStatement := by
    have hprimed : (Machine.primed 0x63C0 0x3FFF).AtStatement selfPushStatement :=
      Machine.atStatement_primed rfl rfl
    exact hprimed.congr rfl rfl
  have hc : selfPushStatement.Codes 0 [.ofImm6 .sw rfl 1 7 0, .ofImm6 .addi rfl 7 7 (-1)] :=
    ⟨rfl, by decide +kernel⟩
  have hsp : selfPushMachine.register 7 = 1 := rfl
  have hrv : selfPushMachine.register 1 = Instruction.haltWord := rfl
  have hhalted : (selfPushMachine.run 2).2 = .ok .halted := hat.push_halts hc hsp hrv
  have hassemble : selfPush.assemble maxMemory = ([selfPushStatement], .ok selfPushImage) := by
    decide +kernel
  refine ⟨hassemble, hat, hsp, hrv, hhalted, fun hcomputes => ?_⟩
  -- a push that is done would have used up both cycles
  have hexceeded := hcomputes.result
  rw [hhalted] at hexceeded
  cases hexceeded

end AnnaToolchain
