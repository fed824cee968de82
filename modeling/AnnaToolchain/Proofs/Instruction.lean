import AnnaToolchain.Instruction

/-! # Reading instructions back

    An instruction made of its fields has these fields: each is found again
    in its word, and a word decodes to the instruction it was made for.  An
    immediate can be put into a word later, as its low byte. -/

namespace AnnaToolchain

/-! ## Codes -/

/-- Of a code four bits count, and of a sub-function three. -/
theorem Opcode.ofCode?_mod (code low : Nat) : ofCode? (code % 16) (low % 8) = ofCode? code low := by
  simp only [ofCode?, MathOp.ofSubfunction, OutputKind.ofSubfunction?, Nat.mod_mod]

/-- A code names an instruction of that code, and of that sub-function if it is shared. -/
theorem Opcode.of_ofCode? {code low : Nat} {op : Opcode} (h : ofCode? code low = some op) :
    op.code = code % 16 ∧ ∀ n, op.subfunction? = some n → low % 8 = n := by
  have htable : ∀ (c : Fin 16) (l : Fin 8), ∀ op ∈ ofCode? c l,
      op.code = c ∧ ∀ n ∈ op.subfunction?, l = n := by
    decide
  rw [← ofCode?_mod] at h
  exact htable ⟨code % 16, Nat.mod_lt _ (by decide)⟩ ⟨low % 8, Nat.mod_lt _ (by decide)⟩ op h

namespace Instruction

/-! ## Words -/

theorem decode_encode_opcode (i : Instruction) : Opcode.ofWord? i.encode = some i.opcode :=
  i.decodes

theorem encode_of_decode {w : Word} {i : Instruction} (h : decode w = .ok i) : i.encode = w := by
  unfold decode at h
  split at h
  · cases h
    rfl
  · cases h

/-- An instruction is its word. -/
theorem eq_of_encode {i j : Instruction} (h : i.encode = j.encode) : i = j := by
  have hd : decode i.encode = decode j.encode := congrArg decode h
  rw [decode_encode, decode_encode] at hd
  exact Except.ok.inj hd

@[simp] theorem opcode_ofRegisters (op : Opcode) (h : op.format = .r) (rd rs1 rs2 : Register) :
    (ofRegisters op h rd rs1 rs2).opcode = op := rfl

@[simp] theorem opcode_ofImm6 (op : Opcode) (h : op.format = .imm6) (rd rs1 : Register)
    (imm : BitVec 6) : (ofImm6 op h rd rs1 imm).opcode = op := rfl

@[simp] theorem opcode_ofImm8 (op : Opcode) (h : op.format = .imm8) (rd : Register)
    (imm : BitVec 8) : (ofImm8 op h rd imm).opcode = op := rfl

theorem toNat_ofRegisters (op : Opcode) (h : op.format = .r) (rd rs1 rs2 : Register) :
    (ofRegisters op h rd rs1 rs2).word.toNat
      = op.code * 4096 + rd.val * 512 + (rs1.val * 64 + rs2.val * 8 + op.lowBits) := by
  have h₁ := rs1.isLt
  have h₂ := rs2.isLt
  have h₃ := op.lowBits_lt
  exact toNat_compose rd op.code_lt (by omega)

theorem toNat_ofImm6 (op : Opcode) (h : op.format = .imm6) (rd rs1 : Register) (imm : BitVec 6) :
    (ofImm6 op h rd rs1 imm).word.toNat
      = op.code * 4096 + rd.val * 512 + (rs1.val * 64 + imm.toNat) := by
  have h₁ := rs1.isLt
  have h₂ := imm.isLt
  exact toNat_compose rd op.code_lt (by omega)

theorem toNat_ofImm8 (op : Opcode) (h : op.format = .imm8) (rd : Register) (imm : BitVec 8) :
    (ofImm8 op h rd imm).word.toNat = op.code * 4096 + rd.val * 512 + imm.toNat := by
  have h₁ := imm.isLt
  exact toNat_compose rd op.code_lt (by omega)

/-! ## Fields -/

/-- A field the format has is read from its bits. -/
theorem require_ok {i : Instruction} {field : Field} (h : field.isIn i.format = true) :
    i.require field = .ok () := if_pos h

theorem rs1_eq_bits {i : Instruction} (h : Field.isIn .rs1 i.format = true) :
    i.rs1 = .ok i.bitsRs1 := by
  unfold rs1
  rw [require_ok h]
  rfl

theorem rs2_eq_bits {i : Instruction} (h : Field.isIn .rs2 i.format = true) :
    i.rs2 = .ok i.bitsRs2 := by
  unfold rs2
  rw [require_ok h]
  rfl

theorem imm6_eq_bits {i : Instruction} (h : Field.isIn .imm6 i.format = true) :
    i.imm6 = .ok i.bitsImm6 := by
  unfold imm6
  rw [require_ok h]
  rfl

theorem imm8_eq_bits {i : Instruction} (h : Field.isIn .imm8 i.format = true) :
    i.imm8 = .ok i.bitsImm8 := by
  unfold imm8
  rw [require_ok h]
  rfl

/-- Three bits of a number that hold a register. -/
theorem ofBits_of_mod {n : Nat} {r : Register} (h : n % 8 = r.val) : Register.ofBits n = r :=
  Fin.ext h

@[simp] theorem rd_ofRegisters (op : Opcode) (h : op.format = .r) (rd rs1 rs2 : Register) :
    (ofRegisters op h rd rs1 rs2).rd = rd := by
  have h₁ := rs1.isLt
  have h₂ := rs2.isLt
  have h₃ := op.lowBits_lt
  apply ofBits_of_mod
  rw [toNat_ofRegisters]
  omega

@[simp] theorem rs1_ofRegisters (op : Opcode) (h : op.format = .r) (rd rs1 rs2 : Register) :
    (ofRegisters op h rd rs1 rs2).rs1 = .ok rs1 := by
  have h₂ := rs2.isLt
  have h₃ := op.lowBits_lt
  have hb : (ofRegisters op h rd rs1 rs2).bitsRs1 = rs1 := by
    apply ofBits_of_mod
    rw [toNat_ofRegisters]
    omega
  rw [rs1_eq_bits (by simp [format, h, Field.isIn]), hb]

@[simp] theorem rs2_ofRegisters (op : Opcode) (h : op.format = .r) (rd rs1 rs2 : Register) :
    (ofRegisters op h rd rs1 rs2).rs2 = .ok rs2 := by
  have h₃ := op.lowBits_lt
  have hb : (ofRegisters op h rd rs1 rs2).bitsRs2 = rs2 := by
    apply ofBits_of_mod
    rw [toNat_ofRegisters]
    omega
  rw [rs2_eq_bits (by simp [format, h, Field.isIn]), hb]

@[simp] theorem rd_ofImm6 (op : Opcode) (h : op.format = .imm6) (rd rs1 : Register)
    (imm : BitVec 6) : (ofImm6 op h rd rs1 imm).rd = rd := by
  have h₁ := rs1.isLt
  have h₂ := imm.isLt
  apply ofBits_of_mod
  rw [toNat_ofImm6]
  omega

@[simp] theorem rs1_ofImm6 (op : Opcode) (h : op.format = .imm6) (rd rs1 : Register)
    (imm : BitVec 6) : (ofImm6 op h rd rs1 imm).rs1 = .ok rs1 := by
  have h₂ := imm.isLt
  have hb : (ofImm6 op h rd rs1 imm).bitsRs1 = rs1 := by
    apply ofBits_of_mod
    rw [toNat_ofImm6]
    omega
  rw [rs1_eq_bits (by simp [format, h, Field.isIn]), hb]

@[simp] theorem imm6_ofImm6 (op : Opcode) (h : op.format = .imm6) (rd rs1 : Register)
    (imm : BitVec 6) : (ofImm6 op h rd rs1 imm).imm6 = .ok imm := by
  have h₂ := imm.isLt
  have hb : (ofImm6 op h rd rs1 imm).bitsImm6 = imm := by
    apply BitVec.eq_of_toNat_eq
    unfold bitsImm6
    rw [BitVec.toNat_ofNat, toNat_ofImm6]
    omega
  rw [imm6_eq_bits (by simp [format, h, Field.isIn]), hb]

@[simp] theorem rd_ofImm8 (op : Opcode) (h : op.format = .imm8) (rd : Register) (imm : BitVec 8) :
    (ofImm8 op h rd imm).rd = rd := by
  have h₁ := imm.isLt
  apply ofBits_of_mod
  rw [toNat_ofImm8]
  omega

@[simp] theorem bitsImm8_ofImm8 (op : Opcode) (h : op.format = .imm8) (rd : Register)
    (imm : BitVec 8) : (ofImm8 op h rd imm).bitsImm8 = imm := by
  have h₁ := imm.isLt
  apply BitVec.eq_of_toNat_eq
  unfold bitsImm8
  rw [BitVec.toNat_ofNat, toNat_ofImm8]
  omega

@[simp] theorem imm8_ofImm8 (op : Opcode) (h : op.format = .imm8) (rd : Register)
    (imm : BitVec 8) : (ofImm8 op h rd imm).imm8 = .ok imm := by
  rw [imm8_eq_bits (by simp [format, h, Field.isIn]), bitsImm8_ofImm8]

/-! ## Instructions from their fields -/

section

variable (i : Instruction)

theorem code_opcode : i.opcode.code = i.word.toNat / 4096 := by
  have hlt := i.word.isLt
  obtain ⟨hcode, -⟩ := Opcode.of_ofCode? i.decodes
  omega

theorem subfunction_opcode {n : Nat} (h : i.opcode.subfunction? = some n) : i.word.toNat % 8 = n := by
  rw [← Nat.mod_mod]
  exact (Opcode.of_ofCode? i.decodes).2 n h

/-- An instruction on three registers is made of them, if its low bits are those of its opcode. -/
theorem eq_ofRegisters (hf : i.opcode.format = .r) (hlow : i.word.toNat % 8 = i.opcode.lowBits) :
    i = ofRegisters i.opcode hf i.rd i.bitsRs1 i.bitsRs2 := by
  have hcode := i.code_opcode
  apply eq_of_encode
  apply BitVec.eq_of_toNat_eq
  unfold encode
  rw [toNat_ofRegisters, hcode, ← hlow]
  simp only [rd, bitsRs1, bitsRs2, Register.val_ofBits]
  omega

theorem eq_ofImm6 (hf : i.opcode.format = .imm6) :
    i = ofImm6 i.opcode hf i.rd i.bitsRs1 i.bitsImm6 := by
  have hcode := i.code_opcode
  apply eq_of_encode
  apply BitVec.eq_of_toNat_eq
  unfold encode
  rw [toNat_ofImm6, hcode]
  simp only [rd, bitsRs1, bitsImm6, Register.val_ofBits, BitVec.toNat_ofNat]
  omega

/-- Between its register and its 8-bit immediate, an instruction has a bit that neither uses. -/
theorem eq_ofImm8 (hf : i.opcode.format = .imm8) (hbit : i.word.toNat / 256 % 2 = 0) :
    i = ofImm8 i.opcode hf i.rd i.bitsImm8 := by
  have hcode := i.code_opcode
  apply eq_of_encode
  apply BitVec.eq_of_toNat_eq
  unfold encode
  rw [toNat_ofImm8, hcode]
  simp only [rd, bitsImm8, Register.val_ofBits, BitVec.toNat_ofNat]
  omega

end

/-! ## Immediates put in later -/

/-- Another low byte gives the instruction with that immediate. -/
theorem encode_ofImm8_withLowByte (op : Opcode) (h : op.format = .imm8) (rd : Register)
    (imm imm' : BitVec 8) :
    (ofImm8 op h rd imm).encode.withLowByte imm' = (ofImm8 op h rd imm').encode := by
  have h₁ := imm.isLt
  apply BitVec.eq_of_toNat_eq
  unfold encode
  rw [Word.toNat_withLowByte, toNat_ofImm8, toNat_ofImm8]
  omega

/-! ## The halt word -/

/-- The instruction `out r0`. -/
def halt : Instruction :=
  ofRegisters (.output .number) rfl .zero .zero .zero

/-- The halt word is one instruction and no other. -/
theorem eq_halt {i : Instruction} (h : i.isHalt = true) : i = halt := by
  have hword : i.word = haltWord := by simpa [isHalt] using h
  exact eq_of_encode hword

end Instruction

end AnnaToolchain
