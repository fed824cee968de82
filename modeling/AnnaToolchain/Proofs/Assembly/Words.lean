import AnnaToolchain.Proofs.Assembly.Aliases
import AnnaToolchain.Proofs.Instruction
import AnnaToolchain.Proofs.Token.Numbers

/-! # Words of real and pseudo-instructions

    Which words a statement asks for.  A pseudo-instruction is expanded to
    texts, and these are read again: a byte that was written in hexadecimal
    is read as that byte (`parse_byteOperand`), and `r0` as the register
    itself, whatever names are in force. -/

namespace AnnaToolchain

/-! ## Numbers and labels -/

theorem NumberOrLabel.parse_label {value label : String}
    (h : Operand.parse value = .ok (.label label)) :
    NumberOrLabel.parse value = .ok (.label label) := by
  unfold parse
  rw [h]

theorem NumberOrLabel.parse_signed {value : String} {w : Word}
    (h : Operand.parse value = .ok (.signed w)) :
    NumberOrLabel.parse value = .ok (.number w.toInt) := by
  unfold parse
  rw [h]
  rfl

theorem NumberOrLabel.parse_unsigned {value : String} {w : Word}
    (h : Operand.parse value = .ok (.unsigned w)) :
    NumberOrLabel.parse value = .ok (.number w.toNat) := by
  unfold parse
  rw [h]
  rfl

theorem NumberOrLabel.parse_zero : NumberOrLabel.parse "0" = .ok (.number 0) :=
  NumberOrLabel.parse_unsigned Operand.parse_zero

theorem NumberOrLabel.parse_one : NumberOrLabel.parse "1" = .ok (.number 1) :=
  NumberOrLabel.parse_unsigned Operand.parse_one

theorem NumberOrLabel.parse_minusOne : NumberOrLabel.parse "-1" = .ok (.number (-1)) :=
  NumberOrLabel.parse_signed Operand.parse_minusOne

/-! ## Bytes as operands -/

namespace Text

/-- A lower-case hexadecimal digit has its value. -/
theorem digitOf?_hexDigit_toLower :
    ∀ n : Fin 16, digitOf? 16 (hexDigit n).toLower = some n.val := by
  decide +kernel

theorem isNumeral_hexPair {c c' : Char} {d d' : Nat} (hd : digitOf? 16 c = some d)
    (hd' : digitOf? 16 c' = some d') : IsNumeral 16 [c, c'] (d * 16 + d') := by
  have hfirst : IsNumeral 16 ([] ++ [c]) d :=
    isNumeral_concat.mpr ⟨0, d, isNumeral_nil.mpr rfl, hd, by omega⟩
  exact isNumeral_concat.mpr ⟨d, d', hfirst, hd', rfl⟩

end Text

namespace Emission

theorem toList_byteOperand (b : BitVec 8) :
    (byteOperand b).toList = ['0', 'x', (Text.hexDigit (b.toNat / 16 % 16)).toLower,
      (Text.hexDigit (b.toNat % 16)).toLower] := by
  simp [byteOperand, Text.fixedHex, Text.toList_toLower]

/-- A byte is written with hexadecimal digits that stand for it. -/
theorem exists_writes_byteOperand (b : BitVec 8) :
    ∃ digits, NumberBase.Writes digits .hexadecimal (byteOperand b).toList ∧ digits ≠ [] ∧
      Text.IsNumeral 16 digits b.toNat := by
  have hb := b.isLt
  have hhigh := Text.digitOf?_hexDigit_toLower ⟨b.toNat / 16 % 16, by omega⟩
  have hlow := Text.digitOf?_hexDigit_toLower ⟨b.toNat % 16, by omega⟩
  have hvalue : b.toNat / 16 % 16 * 16 + b.toNat % 16 = b.toNat := by omega
  have hnumeral := Text.isNumeral_hexPair hhigh hlow
  simp only [hvalue] at hnumeral
  rw [toList_byteOperand]
  exact ⟨_, .hexadecimal (.inl rfl), List.cons_ne_nil _ _, hnumeral⟩

theorem parse_byteOperand (b : BitVec 8) :
    Operand.parse (byteOperand b) = .ok (.unsigned (BitVec.ofNat 16 b.toNat)) := by
  obtain ⟨digits, hwrites, hne, hnumeral⟩ := exists_writes_byteOperand b
  have hread := Token.readAs_unsigned_of_isNumeral hwrites hne hnumeral
  have hfits : b.toNat < UInt16.size := Nat.lt_trans b.isLt (by decide)
  rw [if_pos hfits] at hread
  obtain ⟨c, run, hs, hgap, hscan⟩ := hread.exists_scan
  exact Operand.parse_of_scan hs hgap hscan rfl

/-! ## Real instructions -/

section

variable {aliases : Aliases} {op : Opcode} {e : Emission}

theorem ofInstruction_r (hf : op.format = .r) {operands : List String}
    (h : ofInstruction aliases op operands = .ok e) :
    ∃ regs, (operands.take 3).mapM aliases.register = .ok regs ∧
      e = { word := (Instruction.ofRegisters op hf (regs.getD 0 .zero) (regs.getD 1 .zero)
        (regs.getD 2 .zero)).encode } := by
  unfold ofInstruction at h
  split at h
  · obtain ⟨regs, hregs, h⟩ := bind_eq_ok h
    exact ⟨regs, hregs, (Except.ok.inj h).symm⟩
  · next hf' => rw [hf] at hf'; cases hf'
  · next hf' => rw [hf] at hf'; cases hf'
  · next hf' => rw [hf] at hf'; cases hf'

theorem ofInstruction_imm6 (hf : op.format = .imm6) {rd rs1 value : String}
    (h : ofInstruction aliases op [rd, rs1, value] = .ok e) :
    ∃ r q v, aliases.register rd = .ok r ∧ aliases.register rs1 = .ok q ∧
      NumberOrLabel.parse value = .ok v ∧
      match v with
      | .number n => ∃ imm, Immediate.signed? 6 n = .ok imm ∧
          e = { word := (Instruction.ofImm6 op hf r q imm).encode }
      | .label name =>
          e = { word := (Instruction.ofImm6 op hf r q 0).encode, label := some name } := by
  unfold ofInstruction at h
  split at h
  · next hf' => rw [hf] at hf'; cases hf'
  · obtain ⟨r, hr, h⟩ := bind_eq_ok h
    obtain ⟨q, hq, h⟩ := bind_eq_ok h
    obtain ⟨v, hv, h⟩ := bind_eq_ok h
    refine ⟨r, q, v, hr, hq, hv, ?_⟩
    cases v with
    | number n =>
      obtain ⟨imm, himm, h⟩ := bind_eq_ok h
      exact ⟨imm, mapError_eq_ok himm, (Except.ok.inj h).symm⟩
    | label name => exact (Except.ok.inj h).symm
  · next hf' => rw [hf] at hf'; cases hf'
  · next hf' => rw [hf] at hf'; cases hf'

theorem ofInstruction_imm8 (hf : op.format = .imm8) {rd value : String}
    (h : ofInstruction aliases op [rd, value] = .ok e) :
    ∃ r v, aliases.register rd = .ok r ∧ NumberOrLabel.parse value = .ok v ∧
      match v with
      | .number n => ∃ imm, byteImmediate op n = .ok imm ∧
          e = { word := (Instruction.ofImm8 op hf r imm).encode }
      | .label name =>
          e = { word := (Instruction.ofImm8 op hf r 0).encode, label := some name } := by
  unfold ofInstruction at h
  split at h
  · next hf' => rw [hf] at hf'; cases hf'
  · next hf' => rw [hf] at hf'; cases hf'
  · obtain ⟨r, hr, h⟩ := bind_eq_ok h
    obtain ⟨v, hv, h⟩ := bind_eq_ok h
    refine ⟨r, v, hr, hv, ?_⟩
    cases v with
    | number n =>
      obtain ⟨imm, himm, h⟩ := bind_eq_ok h
      exact ⟨imm, mapError_eq_ok himm, (Except.ok.inj h).symm⟩
    | label name => exact (Except.ok.inj h).symm
  · next hf' => rw [hf] at hf'; cases hf'

theorem ofInstruction_imm6_number (hf : op.format = .imm6) {rd rs1 value : String} {n : Int}
    (hv : NumberOrLabel.parse value = .ok (.number n))
    (h : ofInstruction aliases op [rd, rs1, value] = .ok e) :
    ∃ r q imm, aliases.register rd = .ok r ∧ aliases.register rs1 = .ok q ∧
      Immediate.signed? 6 n = .ok imm ∧
      e = { word := (Instruction.ofImm6 op hf r q imm).encode } := by
  obtain ⟨r, q, v, hr, hq, hv', h⟩ := ofInstruction_imm6 hf h
  rw [hv] at hv'
  cases hv'
  obtain ⟨imm, himm, he⟩ := h
  exact ⟨r, q, imm, hr, hq, himm, he⟩

theorem ofInstruction_imm8_number (hf : op.format = .imm8) {rd value : String} {n : Int}
    (hv : NumberOrLabel.parse value = .ok (.number n))
    (h : ofInstruction aliases op [rd, value] = .ok e) :
    ∃ r imm, aliases.register rd = .ok r ∧ byteImmediate op n = .ok imm ∧
      e = { word := (Instruction.ofImm8 op hf r imm).encode } := by
  obtain ⟨r, v, hr, hv', h⟩ := ofInstruction_imm8 hf h
  rw [hv] at hv'
  cases hv'
  obtain ⟨imm, himm, he⟩ := h
  exact ⟨r, imm, hr, himm, he⟩

theorem ofInstruction_imm8_label (hf : op.format = .imm8) {rd value label : String}
    (hv : NumberOrLabel.parse value = .ok (.label label))
    (h : ofInstruction aliases op [rd, value] = .ok e) :
    ∃ r, aliases.register rd = .ok r ∧
      e = { word := (Instruction.ofImm8 op hf r 0).encode, label := some label } := by
  obtain ⟨r, v, hr, hv', he⟩ := ofInstruction_imm8 hf h
  rw [hv] at hv'
  cases hv'
  exact ⟨r, hr, he⟩

/-! A real instruction whose operands are read is a word. -/

theorem ofInstruction_of_registers (hf : op.format = .r) {operands : List String}
    {regs : List Register} (h : (operands.take 3).mapM aliases.register = .ok regs) :
    ofInstruction aliases op operands =
      .ok { word := (Instruction.ofRegisters op hf (regs.getD 0 .zero) (regs.getD 1 .zero)
        (regs.getD 2 .zero)).encode } := by
  unfold ofInstruction
  split
  · rw [h]
    rfl
  · next hf' => rw [hf] at hf'; cases hf'
  · next hf' => rw [hf] at hf'; cases hf'
  · next hf' => rw [hf] at hf'; cases hf'

theorem ofInstruction_of_imm6 (hf : op.format = .imm6) {rd rs1 value : String} {r q : Register}
    {n : Int} {imm : BitVec 6} (hr : aliases.register rd = .ok r)
    (hq : aliases.register rs1 = .ok q) (hv : NumberOrLabel.parse value = .ok (.number n))
    (himm : Immediate.signed? 6 n = .ok imm) :
    ofInstruction aliases op [rd, rs1, value] =
      .ok { word := (Instruction.ofImm6 op hf r q imm).encode } := by
  unfold ofInstruction
  split
  · next hf' => rw [hf] at hf'; cases hf'
  · simp only [hr, hq, hv, himm, ok_bind]
    rfl
  · next hf' => rw [hf] at hf'; cases hf'
  · next hf' => rw [hf] at hf'; cases hf'

theorem ofInstruction_of_imm8 (hf : op.format = .imm8) {rd value : String} {r : Register} {n : Int}
    {imm : BitVec 8} (hr : aliases.register rd = .ok r)
    (hv : NumberOrLabel.parse value = .ok (.number n)) (himm : byteImmediate op n = .ok imm) :
    ofInstruction aliases op [rd, value] =
      .ok { word := (Instruction.ofImm8 op hf r imm).encode } := by
  unfold ofInstruction
  split
  · next hf' => rw [hf] at hf'; cases hf'
  · next hf' => rw [hf] at hf'; cases hf'
  · simp only [hr, hv, himm, ok_bind]
    rfl
  · next hf' => rw [hf] at hf'; cases hf'

end

/-! ## Pseudo-instructions -/

section

variable {aliases : Aliases} {es : List Emission}

theorem mapM_of_expand {pseudo : Pseudo} {operands : List String}
    {reals : List (Opcode × List String)} (hx : expand pseudo operands = .ok reals)
    (h : ofPseudo aliases pseudo operands = .ok es) :
    reals.mapM (fun real => ofInstruction aliases real.1 real.2) = .ok es := by
  obtain ⟨reals', hreals, h⟩ := bind_eq_ok h
  rw [hx] at hreals
  cases hreals
  exact h

/-- A pseudo-instruction of one word. -/
theorem ofPseudo_one {pseudo : Pseudo} {operands args : List String} {op : Opcode}
    (hx : expand pseudo operands = .ok [(op, args)])
    (h : ofPseudo aliases pseudo operands = .ok es) :
    ∃ e, ofInstruction aliases op args = .ok e ∧ es = [e] := by
  obtain ⟨e, es', he, hes', rfl⟩ := mapM_cons_eq_ok (mapM_of_expand hx h)
  rw [mapM_nil_eq_ok hes']
  exact ⟨e, he, rfl⟩

/-- A pseudo-instruction of two words. -/
theorem ofPseudo_two {pseudo : Pseudo} {operands args args' : List String} {op op' : Opcode}
    (hx : expand pseudo operands = .ok [(op, args), (op', args')])
    (h : ofPseudo aliases pseudo operands = .ok es) :
    ∃ e e', ofInstruction aliases op args = .ok e ∧ ofInstruction aliases op' args' = .ok e' ∧
      es = [e, e'] := by
  obtain ⟨e, es', he, hes', rfl⟩ := mapM_cons_eq_ok (mapM_of_expand hx h)
  obtain ⟨e', es'', he', hes'', rfl⟩ := mapM_cons_eq_ok hes'
  rw [mapM_nil_eq_ok hes'']
  exact ⟨e, e', he, he', rfl⟩

theorem ofPseudo_mov (hn : aliases.Native) {rd rs : String}
    (h : ofPseudo aliases .mov [rd, rs] = .ok es) :
    ∃ r q, aliases.register rd = .ok r ∧ aliases.register rs = .ok q ∧
      es = [{ word := (Instruction.ofRegisters (.math .add) rfl r q .zero).encode }] := by
  obtain ⟨e, he, rfl⟩ := ofPseudo_one rfl h
  obtain ⟨regs, hregs, rfl⟩ := ofInstruction_r rfl he
  obtain ⟨r, regs₁, hr, hregs₁, rfl⟩ := mapM_cons_eq_ok hregs
  obtain ⟨q, regs₂, hq, hregs₂, rfl⟩ := mapM_cons_eq_ok hregs₁
  obtain ⟨z, regs₃, hz, hregs₃, rfl⟩ := mapM_cons_eq_ok hregs₂
  -- the third operand is the text `r0`
  rw [hn.register_zero] at hz
  cases hz
  exact ⟨r, q, hr, hq, rfl⟩

theorem ofPseudo_jmp (hn : aliases.Native) {rs : String}
    (h : ofPseudo aliases .jmp [rs] = .ok es) :
    ∃ q, aliases.register rs = .ok q ∧
      es = [{ word := (Instruction.ofRegisters .jalr rfl q .zero .zero).encode }] := by
  obtain ⟨e, he, rfl⟩ := ofPseudo_one rfl h
  obtain ⟨regs, hregs, rfl⟩ := ofInstruction_r rfl he
  obtain ⟨q, regs₁, hq, hregs₁, rfl⟩ := mapM_cons_eq_ok hregs
  obtain ⟨z, regs₂, hz, hregs₂, rfl⟩ := mapM_cons_eq_ok hregs₁
  rw [hn.register_zero] at hz
  cases hz
  -- a register that is not given is `r0` as well
  rw [mapM_nil_eq_ok hregs₂]
  exact ⟨q, hq, rfl⟩

theorem ofPseudo_halt (hn : aliases.Native) (h : ofPseudo aliases .halt [] = .ok es) :
    es = [{ word := Instruction.halt.encode }] := by
  obtain ⟨e, he, rfl⟩ := ofPseudo_one rfl h
  obtain ⟨regs, hregs, rfl⟩ := ofInstruction_r rfl he
  obtain ⟨z, regs₁, hz, hregs₁, rfl⟩ := mapM_cons_eq_ok hregs
  rw [hn.register_zero] at hz
  cases hz
  rw [mapM_nil_eq_ok hregs₁]
  rfl

theorem ofPseudo_br (hn : aliases.Native) {target label : String}
    (hl : Operand.parse target = .ok (.label label))
    (h : ofPseudo aliases .br [target] = .ok es) :
    es = [{ word := (Instruction.ofImm8 (.branch .eq) rfl .zero 0).encode,
            label := some label }] := by
  obtain ⟨e, he, rfl⟩ := ofPseudo_one rfl h
  obtain ⟨z, hz, rfl⟩ := ofInstruction_imm8_label rfl (NumberOrLabel.parse_label hl) he
  rw [hn.register_zero] at hz
  cases hz
  rfl

theorem ofPseudo_push {sp rv : String} (h : ofPseudo aliases .push [sp, rv] = .ok es) :
    ∃ r q, aliases.register sp = .ok r ∧ aliases.register rv = .ok q ∧
      es = [{ word := (Instruction.ofImm6 .sw rfl q r 0).encode },
        { word := (Instruction.ofImm6 .addi rfl r r (-1)).encode }] := by
  obtain ⟨e, e', he, he', rfl⟩ := ofPseudo_two rfl h
  obtain ⟨q, r, imm, hq, hr, himm, rfl⟩ :=
    ofInstruction_imm6_number rfl NumberOrLabel.parse_zero he
  obtain ⟨r', r'', imm', hr', hr'', himm', rfl⟩ :=
    ofInstruction_imm6_number rfl NumberOrLabel.parse_minusOne he'
  -- the stack pointer is read three times from the same text
  rw [hr] at hr' hr''
  cases hr'
  cases hr''
  cases himm
  cases himm'
  exact ⟨r, q, hr, hq, rfl⟩

theorem ofPseudo_pop {sp rv : String} (h : ofPseudo aliases .pop [sp, rv] = .ok es) :
    ∃ r q, aliases.register sp = .ok r ∧ aliases.register rv = .ok q ∧
      es = [{ word := (Instruction.ofImm6 .addi rfl r r 1).encode },
        { word := (Instruction.ofImm6 .lw rfl q r 0).encode }] := by
  obtain ⟨e, e', he, he', rfl⟩ := ofPseudo_two rfl h
  obtain ⟨r, r', imm, hr, hr', himm, rfl⟩ :=
    ofInstruction_imm6_number rfl NumberOrLabel.parse_one he
  obtain ⟨q, r'', imm', hq, hr'', himm', rfl⟩ :=
    ofInstruction_imm6_number rfl NumberOrLabel.parse_zero he'
  rw [hr] at hr' hr''
  cases hr'
  cases hr''
  cases himm
  cases himm'
  exact ⟨r, q, hr, hq, rfl⟩

/-- A byte is taken as it is by `lli` and `lui`. -/
theorem byte?_toNat (b : BitVec 8) {imm : BitVec 8}
    (h : Immediate.byte? (BitVec.ofNat 16 b.toNat).toNat = .ok imm) : imm = b := by
  have hb := b.isLt
  unfold Immediate.byte? at h
  -- it is not negative, so it is read as an unsigned number
  rw [if_neg (by omega)] at h
  have himm := Immediate.unsigned?_ok_iff.mp h
  apply BitVec.eq_of_toNat_eq
  rw [himm, Int.toNat_natCast, BitVec.toNat_ofNat]
  omega

theorem ofPseudo_lwi_number {rd value : String} {n : Int}
    (hv : NumberOrLabel.parse value = .ok (.number n))
    (h : ofPseudo aliases .lwi [rd, value] = .ok es) :
    ∃ r, aliases.register rd = .ok r ∧
      es = [{ word := (Instruction.ofImm8 .lli rfl r (Word.ofInt n).lowByte).encode },
        { word := (Instruction.ofImm8 .lui rfl r (Word.ofInt n).highByte).encode }] := by
  have hx : expand .lwi [rd, value] = .ok [(.lli, [rd, byteOperand (Word.ofInt n).lowByte]),
      (.lui, [rd, byteOperand (Word.ofInt n).highByte])] := by
    simp only [expand, hv]
    rfl
  -- what the assembler has written is read back
  have hbyte : ∀ b, NumberOrLabel.parse (byteOperand b)
      = .ok (.number (BitVec.ofNat 16 b.toNat).toNat) :=
    fun b => NumberOrLabel.parse_unsigned (parse_byteOperand b)
  obtain ⟨e, e', he, he', rfl⟩ := ofPseudo_two hx h
  obtain ⟨r, imm, hr, himm, rfl⟩ := ofInstruction_imm8_number rfl (hbyte _) he
  obtain ⟨r', imm', hr', himm', rfl⟩ := ofInstruction_imm8_number rfl (hbyte _) he'
  rw [hr] at hr'
  cases hr'
  rw [byte?_toNat _ himm, byte?_toNat _ himm']
  exact ⟨r, hr, rfl⟩

theorem ofPseudo_lwi_label {rd value label : String}
    (hv : NumberOrLabel.parse value = .ok (.label label))
    (h : ofPseudo aliases .lwi [rd, value] = .ok es) :
    ∃ r, aliases.register rd = .ok r ∧
      es = [{ word := (Instruction.ofImm8 .lli rfl r 0).encode, label := some label },
        { word := (Instruction.ofImm8 .lui rfl r 0).encode, label := some label }] := by
  have hx : expand .lwi [rd, value] = .ok [(.lli, [rd, value]), (.lui, [rd, value])] := by
    simp only [expand, hv]
    rfl
  obtain ⟨e, e', he, he', rfl⟩ := ofPseudo_two hx h
  obtain ⟨r, hr, rfl⟩ := ofInstruction_imm8_label rfl hv he
  obtain ⟨r', hr', rfl⟩ := ofInstruction_imm8_label rfl hv he'
  rw [hr] at hr'
  cases hr'
  exact ⟨r, hr, rfl⟩

end

end Emission

/-! ## Statements -/

namespace Effect

variable {memLen : Nat} {aliases : Aliases} {s : Statement} {effect : Effect}

/-- A statement that does anything has as many operands as its mnemonic takes. -/
theorem accepts_operands {op : Mnemonic} (hop : s.op = some op)
    (h : Effect.ofStatement memLen aliases s = .ok effect) :
    op.arity.accepts s.operands.length = true := by
  unfold ofStatement at h
  simp only [hop] at h
  split at h
  · assumption
  · cases h

theorem ofStatement_real {op : Opcode} (hop : s.op = some (.real op))
    (h : Effect.ofStatement memLen aliases s = .ok effect) :
    ∃ e, Emission.ofInstruction aliases op s.operands = .ok e ∧ effect = .emit [e] aliases := by
  unfold ofStatement at h
  simp only [hop] at h
  split at h
  · obtain ⟨e, he, h⟩ := bind_eq_ok h
    exact ⟨e, he, (Except.ok.inj h).symm⟩
  · cases h

theorem ofStatement_pseudo {op : Pseudo} (hop : s.op = some (.pseudo op))
    (h : Effect.ofStatement memLen aliases s = .ok effect) :
    ∃ es, Emission.ofPseudo aliases op s.operands = .ok es ∧ effect = .emit es aliases := by
  unfold ofStatement at h
  simp only [hop] at h
  split at h
  · obtain ⟨es, hes, h⟩ := bind_eq_ok h
    exact ⟨es, hes, (Except.ok.inj h).symm⟩
  · cases h

theorem ofStatement_of_real {op : Opcode} {e : Emission} (hop : s.op = some (.real op))
    (hlength : s.operands.length = op.operandCount)
    (he : Emission.ofInstruction aliases op s.operands = .ok e) :
    Effect.ofStatement memLen aliases s = .ok (.emit [e] aliases) := by
  have haccepts : (Mnemonic.real op).arity.accepts s.operands.length = true :=
    beq_iff_eq.mpr hlength
  unfold ofStatement
  simp only [hop, haccepts, if_true, he]
  rfl

theorem ofStatement_of_pseudo {op : Pseudo} {es : List Emission} (hop : s.op = some (.pseudo op))
    (hlength : s.operands.length = op.operandCount)
    (hes : Emission.ofPseudo aliases op s.operands = .ok es) :
    Effect.ofStatement memLen aliases s = .ok (.emit es aliases) := by
  have haccepts : (Mnemonic.pseudo op).arity.accepts s.operands.length = true :=
    beq_iff_eq.mpr hlength
  unfold ofStatement
  simp only [hop, haccepts, if_true, hes]
  rfl

end Effect

end AnnaToolchain
