import AnnaToolchain.Proofs.Assembly.Singles
import AnnaToolchain.Proofs.Program.Code
import AnnaToolchain.Proofs.Token.Decimal

/-! # Disassembly

    Words that decode can be written as a source, an instruction to a line.
    That source is assembled to the same words, up to the bits that the texts
    of instructions do not show (`Program.assembles_disassembled`). -/

namespace AnnaToolchain

/-! ## Bits that are shown -/

/-- The bits of an instruction's word that its text shows. -/
def Opcode.shownBits : Opcode → Word
  | .math .not => 0xFFC7
  | .math _ => 0xFFFF
  | .jalr => 0xFFC0
  | .input => 0xFE00
  | .output _ => 0xFE07
  | .addi | .shf | .lw | .sw => 0xFFFF
  | .lli | .lui | .branch _ => 0xFEFF

/-! ## Operands -/

theorem Register.isOperandText_name (r : Register) : IsOperandText r.name := by
  have hscan (c : Char) (h : Token.scan 'r' [c] = (1, .ok (.register r)))
      (hname : r.name.toList = ['r', c]) : IsOperandText r.name :=
    isOperandText_of_scan hname (by decide) h rfl
  match r with
  | 0 => exact hscan '0' rfl rfl
  | 1 => exact hscan '1' rfl rfl
  | 2 => exact hscan '2' rfl rfl
  | 3 => exact hscan '3' rfl rfl
  | 4 => exact hscan '4' rfl rfl
  | 5 => exact hscan '5' rfl rfl
  | 6 => exact hscan '6' rfl rfl
  | 7 => exact hscan '7' rfl rfl

namespace Immediate

theorem toInt_bounds {bits : Nat} (h : bits ≤ 16) (imm : BitVec bits) :
    -32768 ≤ imm.toInt ∧ imm.toInt < 32768 := by
  have hlow := imm.le_two_mul_toInt
  have hhigh := imm.two_mul_toInt_lt
  have hpow : 2 ^ bits ≤ 2 ^ 16 := Nat.pow_le_pow_right (by decide) h
  have hcast : ((2 ^ bits : Nat) : Int) = 2 ^ bits := Int.natCast_pow 2 bits
  omega

theorem isOperandText_text {bits : Nat} (h : bits ≤ 16) (imm : BitVec bits) :
    IsOperandText (text imm) := by
  have hbounds := toInt_bounds h imm
  exact isOperandText_toString hbounds.1 (by omega)

end Immediate

/-! ## Bits that are shown -/

namespace Word

variable {w mask : Word} {k j : Nat}

/-- A field of which a mask has all bits is kept. -/
theorem and_field (h : mask.toNat / 2 ^ k % 2 ^ j = 2 ^ j - 1) :
    (w &&& mask).toNat / 2 ^ k % 2 ^ j = w.toNat / 2 ^ k % 2 ^ j := by
  rw [BitVec.toNat_and, Nat.and_div_two_pow, Nat.and_mod_two_pow, h,
    Nat.and_two_pow_sub_one_eq_mod, Nat.mod_mod]

/-- The lowest field as an immediate. -/
theorem ofNat_and_field (h : mask.toNat / 2 ^ 0 % 2 ^ j = 2 ^ j - 1) :
    BitVec.ofNat j (w &&& mask).toNat = BitVec.ofNat j w.toNat := by
  have hfield := and_field (w := w) h
  rw [Nat.pow_zero, Nat.div_one, Nat.div_one] at hfield
  apply BitVec.eq_of_toNat_eq
  rw [BitVec.toNat_ofNat, BitVec.toNat_ofNat, hfield]

/-- A field of which a mask has no bits is cleared. -/
theorem and_field_eq_zero (h : mask.toNat / 2 ^ k % 2 ^ j = 0) :
    (w &&& mask).toNat / 2 ^ k % 2 ^ j = 0 := by
  rw [BitVec.toNat_and, Nat.and_div_two_pow, Nat.and_mod_two_pow, h, Nat.and_zero]

end Word

namespace Opcode

/-- The opcode bits and the first register are always shown. -/
theorem shownBits_high (op : Opcode) : op.shownBits.toNat / 2 ^ 9 % 2 ^ 7 = 2 ^ 7 - 1 := by
  cases op with
  | math f => cases f <;> rfl
  | branch cond => cases cond <;> rfl
  | output kind => cases kind <;> rfl
  | _ => rfl

/-- A sub-function that tells instructions apart is shown. -/
theorem shownBits_subfunction {op : Opcode} {n : Nat} (h : op.subfunction? = some n) :
    op.shownBits.toNat / 2 ^ 0 % 2 ^ 3 = 2 ^ 3 - 1 := by
  cases op with
  | math f => cases f <;> rfl
  | output kind => cases kind <;> rfl
  | _ => cases h

/-- Other low bits of an instruction on registers are not shown. -/
theorem shownBits_low {op : Opcode} (hf : op.format = .r) (h : op.subfunction? = none) :
    op.shownBits.toNat / 2 ^ 0 % 2 ^ 3 = 0 := by
  cases op with
  | jalr | input => rfl
  | math | output => cases h
  | _ => cases hf

end Opcode

namespace Instruction

/-- An instruction without the bits that its text does not show. -/
def shown (i : Instruction) : Instruction where
  opcode := i.opcode
  word := i.word &&& i.opcode.shownBits
  decodes := by
    have hlt := i.word.isLt
    have hmasked := (i.word &&& i.opcode.shownBits).isLt
    have hhigh := @Word.and_field i.word _ 9 7 i.opcode.shownBits_high
    have hcode : (i.word &&& i.opcode.shownBits).toNat / 4096 = i.opcode.code := by
      rw [i.code_opcode]
      omega
    unfold Opcode.ofWord?
    rw [hcode]
    refine Opcode.ofCode?_code i.opcode _ fun n hn => ?_
    have hlow := @Word.and_field i.word _ 0 3 (Opcode.shownBits_subfunction hn)
    have hsubfunction := i.subfunction_opcode hn
    omega

section

variable {i : Instruction}

@[simp] theorem opcode_shown : i.shown.opcode = i.opcode := rfl

@[simp] theorem rd_shown : i.shown.rd = i.rd := by
  have hhigh := @Word.and_field i.word _ 9 7 i.opcode.shownBits_high
  apply Fin.ext
  show (i.word &&& i.opcode.shownBits).toNat / 512 % 8 = i.word.toNat / 512 % 8
  omega

theorem bitsRs1_shown (h : i.opcode.shownBits.toNat / 2 ^ 6 % 2 ^ 3 = 2 ^ 3 - 1) :
    i.shown.bitsRs1 = i.bitsRs1 :=
  Fin.ext (Word.and_field h)

theorem bitsRs1_shown_eq_zero (h : i.opcode.shownBits.toNat / 2 ^ 6 % 2 ^ 3 = 0) :
    i.shown.bitsRs1 = .zero :=
  Fin.ext (Word.and_field_eq_zero h)

theorem bitsRs2_shown (h : i.opcode.shownBits.toNat / 2 ^ 3 % 2 ^ 3 = 2 ^ 3 - 1) :
    i.shown.bitsRs2 = i.bitsRs2 :=
  Fin.ext (Word.and_field h)

theorem bitsRs2_shown_eq_zero (h : i.opcode.shownBits.toNat / 2 ^ 3 % 2 ^ 3 = 0) :
    i.shown.bitsRs2 = .zero :=
  Fin.ext (Word.and_field_eq_zero h)

theorem bitsImm6_shown (h : i.opcode.shownBits.toNat / 2 ^ 0 % 2 ^ 6 = 2 ^ 6 - 1) :
    i.shown.bitsImm6 = i.bitsImm6 :=
  Word.ofNat_and_field h

theorem bitsImm8_shown (h : i.opcode.shownBits.toNat / 2 ^ 0 % 2 ^ 8 = 2 ^ 8 - 1) :
    i.shown.bitsImm8 = i.bitsImm8 :=
  Word.ofNat_and_field h

end

/-! ## Operands -/

/-- What an instruction is written with. -/
def operands (i : Instruction) : List String :=
  match i.opcode with
  | .math .not | .jalr => [i.rd.name, i.bitsRs1.name]
  | .math _ => [i.rd.name, i.bitsRs1.name, i.bitsRs2.name]
  | .input | .output _ => [i.rd.name]
  | .addi | .shf | .lw | .sw => [i.rd.name, i.bitsRs1.name, Immediate.text i.bitsImm6]
  | .lli | .lui | .branch _ => [i.rd.name, Immediate.text i.bitsImm8]

/-- The text of an instruction is that of a statement. -/
theorem codeText_operands (i : Instruction) :
    (Statement.code (.real i.opcode) i.operands).codeText = i.text := by
  unfold Statement.code Statement.codeText operands text
  cases i.opcode with
  | math f => cases f <;> simp [Mnemonic.name, String.intercalate_cons_cons, String.append_assoc]
  | _ => simp [Mnemonic.name, String.intercalate_cons_cons, String.append_assoc]

/-- The operands of an instruction show no other bits than its text does. -/
theorem operands_shown (i : Instruction) : i.shown.operands = i.operands := by
  unfold operands
  cases hop : i.opcode with
  | math f =>
    cases f with
    | not => simp [hop, bitsRs1_shown, Opcode.shownBits]
    | _ => simp [hop, bitsRs1_shown, bitsRs2_shown, Opcode.shownBits]
  | jalr => simp [hop, bitsRs1_shown, Opcode.shownBits]
  | input | output => simp [hop]
  | addi | shf | lw | sw => simp [hop, bitsRs1_shown, bitsImm6_shown, Opcode.shownBits]
  | lli | lui | branch => simp [hop, bitsImm8_shown, Opcode.shownBits]

theorem text_shown (i : Instruction) : i.shown.text = i.text := by
  rw [← codeText_operands, ← codeText_operands, operands_shown, opcode_shown]

theorem isOperandText_operands (i : Instruction) : ∀ text ∈ i.operands, IsOperandText text := by
  have hreg := Register.isOperandText_name
  have himm6 := Immediate.isOperandText_text (show 6 ≤ 16 by decide) i.bitsImm6
  have himm8 := Immediate.isOperandText_text (show 8 ≤ 16 by decide) i.bitsImm8
  unfold operands
  split
  all_goals simp [hreg, himm6, himm8]

end Instruction

/-! ## Instructions that are read back -/

namespace Instruction

variable {i : Instruction}

/-- The low bits that are shown are those of the opcode. -/
theorem lowBits_shown (hf : i.opcode.format = .r) : i.shown.word.toNat % 8 = i.opcode.lowBits := by
  unfold Opcode.lowBits
  cases hsub : i.opcode.subfunction? with
  | some n => exact i.shown.subfunction_opcode hsub
  | none =>
    have hcleared := @Word.and_field_eq_zero i.word _ 0 3 (Opcode.shownBits_low hf hsub)
    rwa [Nat.pow_zero, Nat.div_one] at hcleared

/-- The registers that an instruction is written with; those it is written without are zero. -/
theorem operands_of_registers (hf : i.opcode.format = .r) :
    ∃ regs : List Register, i.operands = regs.map Register.name ∧ regs.length ≤ 3 ∧
      regs.getD 0 .zero = i.shown.rd ∧ regs.getD 1 .zero = i.shown.bitsRs1 ∧
      regs.getD 2 .zero = i.shown.bitsRs2 := by
  unfold operands
  cases hop : i.opcode with
  | math f =>
    cases f with
    | not =>
      refine ⟨[i.rd, i.bitsRs1], rfl, by simp, rd_shown.symm, (bitsRs1_shown ?_).symm,
        (bitsRs2_shown_eq_zero ?_).symm⟩
      all_goals rw [hop]; rfl
    | _ =>
      refine ⟨[i.rd, i.bitsRs1, i.bitsRs2], rfl, by simp, rd_shown.symm, (bitsRs1_shown ?_).symm,
        (bitsRs2_shown ?_).symm⟩
      all_goals rw [hop]; rfl
  | jalr =>
    refine ⟨[i.rd, i.bitsRs1], rfl, by simp, rd_shown.symm, (bitsRs1_shown ?_).symm,
      (bitsRs2_shown_eq_zero ?_).symm⟩
    all_goals rw [hop]; rfl
  | input =>
    refine ⟨[i.rd], rfl, by simp, rd_shown.symm, (bitsRs1_shown_eq_zero ?_).symm,
      (bitsRs2_shown_eq_zero ?_).symm⟩
    all_goals rw [hop]; rfl
  | output kind =>
    refine ⟨[i.rd], rfl, by simp, rd_shown.symm, (bitsRs1_shown_eq_zero ?_).symm,
      (bitsRs2_shown_eq_zero ?_).symm⟩
    all_goals rw [hop]; cases kind <;> rfl
  | _ =>
    rw [hop] at hf
    cases hf

theorem operands_of_imm6 (hf : i.opcode.format = .imm6) :
    i.opcode.shownBits = 0xFFFF ∧
      i.operands = [i.rd.name, i.bitsRs1.name, Immediate.text i.bitsImm6] := by
  unfold operands
  cases hop : i.opcode with
  | addi | shf | lw | sw => exact ⟨rfl, rfl⟩
  | _ =>
    rw [hop] at hf
    cases hf

theorem operands_of_imm8 (hf : i.opcode.format = .imm8) :
    i.opcode.shownBits = 0xFEFF ∧ i.operands = [i.rd.name, Immediate.text i.bitsImm8] := by
  unfold operands
  cases hop : i.opcode with
  | lli | lui | branch => exact ⟨rfl, rfl⟩
  | _ =>
    rw [hop] at hf
    cases hf

end Instruction

/-- A signed byte is an immediate of every instruction that has one. -/
theorem byteImmediate_toInt (op : Opcode) (imm : BitVec 8) :
    byteImmediate op imm.toInt = .ok imm := by
  have hsigned := Immediate.signed?_ok_iff.mpr (show imm.toInt = imm.toInt from rfl)
  unfold byteImmediate
  split
  · exact hsigned
  · unfold Immediate.byte?
    split
    · exact hsigned
    · have hvalue := imm.toInt_eq_toNat_cond
      rw [Immediate.unsigned?_ok_iff]
      omega

namespace Emission

variable {aliases : Aliases} {i : Instruction}

theorem ofInstruction_operands_r (hn : aliases.Native) (hf : i.opcode.format = .r) :
    ofInstruction aliases i.opcode i.operands = .ok { word := i.shown.encode } := by
  obtain ⟨regs, hregs, hlength, h₀, h₁, h₂⟩ := Instruction.operands_of_registers hf
  have hread : (i.operands.take 3).mapM aliases.register = .ok regs := by
    rw [hregs, List.take_of_length_le (by rwa [List.length_map]), mapM_eq_ok_iff,
      List.forall₂_map_left_iff, List.forall₂_same]
    exact fun r _ => hn.register_name r
  rw [ofInstruction_of_registers hf hread, h₀, h₁, h₂]
  congr 2
  exact (congrArg Instruction.encode
    (i.shown.eq_ofRegisters hf (Instruction.lowBits_shown hf))).symm

theorem ofInstruction_operands_imm6 (hn : aliases.Native) (hf : i.opcode.format = .imm6) :
    ofInstruction aliases i.opcode i.operands = .ok { word := i.shown.encode } := by
  obtain ⟨hbits, hoperands⟩ := Instruction.operands_of_imm6 hf
  have hbounds := Immediate.toInt_bounds (show 6 ≤ 16 by decide) i.bitsImm6
  have hvalue := NumberOrLabel.parse_toString hbounds.1 (by omega)
  have hshown := i.shown.eq_ofImm6 hf
  rw [Instruction.rd_shown, Instruction.bitsRs1_shown (by rw [hbits]; rfl),
    Instruction.bitsImm6_shown (by rw [hbits]; rfl)] at hshown
  rw [hoperands, hshown]
  exact ofInstruction_of_imm6 hf (hn.register_name _) (hn.register_name _) hvalue
    (Immediate.signed?_ok_iff.mpr rfl)

theorem ofInstruction_operands_imm8 (hn : aliases.Native) (hf : i.opcode.format = .imm8) :
    ofInstruction aliases i.opcode i.operands = .ok { word := i.shown.encode } := by
  obtain ⟨hbits, hoperands⟩ := Instruction.operands_of_imm8 hf
  have hbounds := Immediate.toInt_bounds (show 8 ≤ 16 by decide) i.bitsImm8
  have hvalue := NumberOrLabel.parse_toString hbounds.1 (by omega)
  have hcleared := @Word.and_field_eq_zero i.word i.opcode.shownBits 8 1 (by rw [hbits]; rfl)
  have hshown := i.shown.eq_ofImm8 hf hcleared
  rw [Instruction.rd_shown, Instruction.bitsImm8_shown (by rw [hbits]; rfl)] at hshown
  rw [hoperands, hshown]
  exact ofInstruction_of_imm8 hf (hn.register_name _) hvalue (byteImmediate_toInt _ _)

/-- **An instruction** that is written out is assembled to the bits that are shown. -/
theorem ofInstruction_operands (hn : aliases.Native) (i : Instruction) :
    ofInstruction aliases i.opcode i.operands = .ok { word := i.shown.encode } := by
  cases hf : i.opcode.format with
  | r => exact ofInstruction_operands_r hn hf
  | imm6 => exact ofInstruction_operands_imm6 hn hf
  | imm8 => exact ofInstruction_operands_imm8 hn hf
  | directive => exact absurd hf i.opcode.format_ne_directive

end Emission

/-! ## Sources -/

/-- The source of words, with the text of each on a line of its own. -/
def disassemble (words : List Word) : Except InvalidOpcode String := do
  let instructions ← words.mapM Instruction.decode
  return String.intercalate "\n" (instructions.map Instruction.text)

/-- A word without the bits that its text does not show. -/
def Word.shown (w : Word) : Word :=
  match Instruction.decode w with
  | .ok i => i.shown.encode
  | .error _ => w

theorem Word.shown_encode (i : Instruction) : i.encode.shown = i.shown.encode := by
  unfold shown
  rw [Instruction.decode_encode]

theorem disassemble_encode (instructions : List Instruction) :
    disassemble (instructions.map Instruction.encode) =
      .ok (String.intercalate "\n" (instructions.map Instruction.text)) := by
  have hdecode : (instructions.map Instruction.encode).mapM Instruction.decode
      = .ok instructions := by
    rw [mapM_eq_ok_iff, List.forall₂_map_left_iff, List.forall₂_same]
    exact fun i _ => i.decode_encode
  unfold disassemble
  rw [hdecode]
  rfl

/-- Words that all decode are those of instructions. -/
theorem exists_map_encode {words : List Word}
    (h : ∀ w ∈ words, ∃ i, Instruction.decode w = .ok i) :
    ∃ instructions, words = List.map Instruction.encode instructions := by
  induction words with
  | nil => exact ⟨[], rfl⟩
  | cons w words ih =>
    obtain ⟨⟨i, hi⟩, hrest⟩ := List.forall_mem_cons.mp h
    obtain ⟨instructions, rfl⟩ := ih hrest
    exact ⟨i :: instructions, by rw [List.map_cons, Instruction.encode_of_decode hi]⟩

namespace Instruction

/-- The statement of an instruction. -/
def statement (i : Instruction) : Statement :=
  .code (.real i.opcode) i.operands

theorem isCode_statement (i : Instruction) : i.statement.IsCode :=
  ⟨_, _, rfl, i.isOperandText_operands⟩

theorem length_operands (i : Instruction) : i.operands.length = i.opcode.operandCount := by
  unfold operands
  cases i.opcode with
  | math f => cases f <;> rfl
  | _ => rfl

theorem emission?_statement (i : Instruction) :
    i.statement.emission? = some { word := i.shown.encode } := by
  have heffect : Effect.ofStatement maxMemory .initial i.statement
      = .ok (.emit [{ word := i.shown.encode }] .initial) :=
    Effect.ofStatement_of_real rfl i.length_operands
      (Emission.ofInstruction_operands Aliases.native_initial i)
  unfold Statement.emission?
  rw [heffect]
  rfl

end Instruction

theorem Statement.emission?_unnumbered (s : Statement) : s.unnumbered.emission? = s.emission? := rfl

namespace Program

/-- The statements of instructions, one for each. -/
def ofInstructions (instructions : List Instruction) : Program :=
  instructions.map Instruction.statement

theorem codeText_ofInstructions (instructions : List Instruction) :
    codeText (ofInstructions instructions)
      = String.intercalate "\n" (instructions.map Instruction.text) := by
  unfold codeText ofInstructions
  rw [List.map_map]
  exact congrArg _ (List.map_congr_left fun i _ => i.codeText_operands)

/-- A program that was read from the texts of instructions is assembled to their words. -/
theorem assembles_instructions {instructions : List Instruction} {p : Program}
    (hp : p.map Statement.unnumbered = ofInstructions instructions)
    (hlength : instructions.length ≤ maxMemory) :
    ∃ placed image, p.assemble maxMemory = (placed, .ok image) ∧
      ∀ a : Word, image.get? a = (instructions.map fun i => i.shown.encode)[a.toNat]? := by
  have hsame : p.length = instructions.length := by
    simpa [ofInstructions] using congrArg List.length hp
  -- what stands at a place of the program
  have hget : ∀ (k : Nat) (s : Statement), p[k]? = some s →
      ∃ i, instructions[k]? = some i ∧ s.unnumbered = i.statement := by
    intro k s hs
    have hk : (p.map Statement.unnumbered)[k]? = some s.unnumbered := by
      rw [List.getElem?_map, hs]
      rfl
    rw [hp, ofInstructions, List.getElem?_map] at hk
    obtain ⟨i, hi, hstatement⟩ := Option.map_eq_some_iff.mp hk
    exact ⟨i, hi, hstatement.symm⟩
  have hemission : ∀ (k : Nat) (s : Statement), p[k]? = some s → ∃ i, instructions[k]? = some i ∧
      s.labels = [] ∧ s.emission? = some { word := i.shown.encode } := by
    intro k s hs
    obtain ⟨i, hi, hstatement⟩ := hget k s hs
    refine ⟨i, hi, congrArg Statement.labels hstatement, ?_⟩
    rw [← Statement.emission?_unnumbered, hstatement, Instruction.emission?_statement]
  have hsingles : p.Singles := by
    intro s hs
    obtain ⟨k, hk⟩ := List.mem_iff_getElem?.mp hs
    obtain ⟨i, -, -, he⟩ := hemission k s hk
    rw [he]
    rfl
  have hlabels : p.flatMap (·.labels) = [] := by
    rw [List.flatMap_eq_nil_iff]
    intro s hs
    obtain ⟨k, hk⟩ := List.mem_iff_getElem?.mp hs
    obtain ⟨i, -, hnil, -⟩ := hemission k s hk
    exact hnil
  have hreaches : p.Reaches := by
    intro k s e label hs he hlabel
    obtain ⟨i, -, -, he'⟩ := hemission k s hs
    rw [he] at he'
    cases he'
    cases hlabel
  obtain ⟨placed, image, hassemble⟩ := hsingles.assembles (hlabels ▸ List.nodup_nil)
    (hsame ▸ hlength) hreaches
  refine ⟨placed, image, hassemble, fun a => ?_⟩
  have hwords := (hsingles.assembled hassemble).2
  by_cases ha : a.toNat < p.length
  · have hs := List.getElem?_eq_getElem ha
    obtain ⟨i, hi, -, he⟩ := hemission a.toNat _ hs
    obtain ⟨word, hword, hresolves⟩ := hwords a.toNat _ _ hs he
    rw [BitVec.ofNat_toNat, BitVec.setWidth_eq] at hword
    rw [hword, List.getElem?_map, hi]
    exact congrArg some hresolves
  · have hnone : image.get? a = none := by
      rw [← Option.not_isSome_iff_eq_none,
        isSome_get?_of_straight hassemble hsingles.straight, hsingles.wordCount hassemble]
      exact ha
    rw [hnone, List.getElem?_eq_none]
    rw [List.length_map, ← hsame]
    exact Nat.le_of_not_lt ha

/-- **Words** that are disassembled and assembled again are the same words, up to the bits that
    are not shown; and these words are written in the same way. -/
theorem assembles_disassembled {words : List Word}
    (hdecode : ∀ w ∈ words, ∃ i, Instruction.decode w = .ok i)
    (hlength : words.length ≤ maxMemory) :
    ∃ source p placed image, disassemble words = .ok source ∧ parse source = .ok p ∧
      p.assemble maxMemory = (placed, .ok image) ∧
      (∀ a : Word, image.get? a = (words.map Word.shown)[a.toNat]?) ∧
      disassemble (words.map Word.shown) = .ok source := by
  obtain ⟨instructions, rfl⟩ := exists_map_encode hdecode
  rw [List.length_map] at hlength
  have hcode : ∀ s ∈ ofInstructions instructions, s.IsCode := by
    intro s hs
    obtain ⟨i, -, rfl⟩ := List.mem_map.mp hs
    exact i.isCode_statement
  obtain ⟨p, hparse, hp⟩ := parse_code hcode
  rw [codeText_ofInstructions] at hparse
  obtain ⟨placed, image, hassemble, hwords⟩ := assembles_instructions hp hlength
  have hshown : (instructions.map Instruction.encode).map Word.shown
      = (instructions.map Instruction.shown).map Instruction.encode := by
    simp only [List.map_map]
    exact List.map_congr_left fun i _ => Word.shown_encode i
  refine ⟨_, p, placed, image, disassemble_encode instructions, hparse, hassemble, ?_, ?_⟩
  · intro a
    rw [hwords, hshown, List.map_map]
    rfl
  · have htexts : (instructions.map Instruction.shown).map Instruction.text
        = instructions.map Instruction.text := by
      rw [List.map_map]
      exact List.map_congr_left fun i _ => i.text_shown
    rw [hshown, disassemble_encode, htexts]

/-- `lli`, `not`, `in`, `jalr` and `out`, each with bits that are not shown, and `addi`, which has
    none. -/
theorem assembles_disassembled_sample :
    ∃ source p placed image,
      disassemble [0x7100, 0x0A6C, 0x21FF, 0x1EC7, 0xF648, 0x32BF] = .ok source ∧
      parse source = .ok p ∧ p.assemble maxMemory = (placed, .ok image) ∧
      (∀ a : Word, image.get? a
        = ([0x7100, 0x0A6C, 0x21FF, 0x1EC7, 0xF648, 0x32BF].map Word.shown)[a.toNat]?) ∧
      disassemble ([0x7100, 0x0A6C, 0x21FF, 0x1EC7, 0xF648, 0x32BF].map Word.shown)
        = .ok source := by
  refine assembles_disassembled (fun w hw => ?_) (by decide)
  simp only [List.mem_cons, List.not_mem_nil, or_false] at hw
  rcases hw with rfl | rfl | rfl | rfl | rfl | rfl
  all_goals exact ⟨_, rfl⟩

/-- The bit between the register and the immediate of `lli` belongs to no field.  It is lost. -/
theorem disassembled_lli :
    ∃ p placed image, disassemble [0x7100] = .ok "lli r0, 0" ∧ parse "lli r0, 0" = .ok p ∧
      p.assemble maxMemory = (placed, .ok image) ∧
      image.get? 0 = some 0x7000 ∧ image.get? 0 ≠ some 0x7100 := by
  let lli : Instruction := ⟨.lli, 0x7100, rfl⟩
  have hcode : ∀ s ∈ ofInstructions [lli], s.IsCode :=
    List.forall_mem_singleton.mpr lli.isCode_statement
  have hsource : codeText (ofInstructions [lli]) = "lli r0, 0" := by decide +kernel
  obtain ⟨p, hparse, hp⟩ := parse_code hcode
  rw [hsource] at hparse
  obtain ⟨placed, image, hassemble, hwords⟩ := assembles_instructions hp (by decide)
  have hword : image.get? 0 = some 0x7000 := (hwords 0).trans (by decide)
  refine ⟨p, placed, image, by decide +kernel, hparse, hassemble, hword, ?_⟩
  rw [hword]
  decide

example : disassemble [0x7100, 0x0A6C, 0x32BF] = .ok "lli r0, 0\nnot r5, r1\naddi r1, r2, -1" := by
  decide +kernel

end Program

end AnnaToolchain
