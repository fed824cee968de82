import AnnaToolchain.Proofs.Assembly.Meaning
import AnnaToolchain.Proofs.Assembly.Straight
import AnnaToolchain.Proofs.Machine.Alike

/-! # Plain programs

    A plain program only depends on where it stands through its branches.
    It has no directives, loads no label, goes nowhere but behind each
    instruction or to the label of a branch, and does not use the stack.

    A statement of a plain program that is no branch has become instructions
    that stand in the image just as they were made (`Program.Plain.words_fixed`). -/

namespace AnnaToolchain

/-! ## Plain statements -/

/-- Whether a text is a reference to a label. -/
def Operand.isLabel (text : String) : Bool :=
  match Operand.parse text with
  | .ok (.label _) => true
  | _ => false

theorem Operand.isLabel_iff {text : String} :
    isLabel text = true ↔ ∃ label, Operand.parse text = .ok (.label label) := by
  unfold isLabel
  split
  · next name h => exact ⟨fun _ => ⟨name, h⟩, fun _ => rfl⟩
  · next hnot => exact ⟨nofun, fun ⟨name, h⟩ => absurd h (hnot name)⟩

/-- Whether a real instruction with these operands is plain: its last operand is a label if it is a
    branch, and no label if it loads an immediate. -/
def Opcode.isPlain (op : Opcode) (operands : List String) : Bool :=
  match op with
  | .jalr => false
  | .lli | .lui => !operands.getLast?.any Operand.isLabel
  | .branch _ => operands.getLast?.any Operand.isLabel
  | _ => true

/-- Whether a pseudo-instruction with these operands is plain. -/
def Pseudo.isPlain (op : Pseudo) (operands : List String) : Bool :=
  match op with
  | .jmp | .push | .pop => false
  | .lwi => !operands.getLast?.any Operand.isLabel
  | .br => operands.getLast?.any Operand.isLabel
  | .mov | .halt => true

/-- Whether a statement is plain. -/
def Statement.isPlain (s : Statement) : Bool :=
  match s.op with
  | none => true
  | some (.real op) => op.isPlain s.operands
  | some (.pseudo op) => op.isPlain s.operands
  | some (.directive _) => false

/-- Every statement of the program is plain. -/
def Program.Plain (p : Program) : Prop :=
  ∀ s ∈ p, s.isPlain = true

instance (p : Program) : Decidable p.Plain :=
  inferInstanceAs (Decidable (∀ s ∈ p, s.isPlain = true))

section

variable {s s' : Statement}

theorem Statement.isPlain_congr (hop : s'.op = s.op) (hoperands : s'.operands = s.operands) :
    s'.isPlain = s.isPlain := by
  unfold isPlain
  rw [hop, hoperands]

theorem Statement.isDirective_of_isPlain (h : s.isPlain = true) : s.isDirective = false := by
  unfold isPlain at h
  unfold isDirective
  split
  · next hop => simp [hop] at h
  · rfl

theorem Program.Plain.straight {p : Program} (h : p.Plain) : p.Straight := fun s hs =>
  Statement.isDirective_of_isPlain (h s hs)

/-- A branch of a plain program goes to a label. -/
theorem Statement.target_of_isPlain (h : s.isPlain = true) {cond : Condition}
    {rd target : String} (hb : s.branch? = some (cond, rd, target)) :
    ∃ label, Operand.parse target = .ok (.label label) := by
  unfold branch? at hb
  unfold isPlain at h
  split at hb
  · next hop hargs =>
    cases hb
    simp only [hop, hargs] at h
    exact Operand.isLabel_iff.mp h
  · next hop hargs =>
    cases hb
    simp only [hop, hargs] at h
    exact Operand.isLabel_iff.mp h
  · cases hb

end

/-! ## Words that are found as they were made -/

/-- The word of an instruction that is no jump, and cannot be given the value of a label. -/
structure Emission.Fixed (e : Emission) : Prop where
  instruction : ∃ i : Instruction, e.word = i.encode ∧ i.opcode.isJump = false ∧
    (e.label = none ∨ i.opcode.format = .imm6)

namespace Emission

/-- A word that was patched after all would not have been assembled. -/
theorem Fixed.word_of_resolves {e : Emission} {image : Image} {address word : Word}
    (h : e.Fixed) (hr : e.Resolves image address word) : word = e.word := by
  obtain ⟨i, hword, -, hlabel⟩ := h.instruction
  unfold Resolves at hr
  cases hl : e.label with
  | none =>
    simp only [hl] at hr
    exact hr
  | some label =>
    simp only [hl] at hr
    obtain ⟨target, -, hpatch⟩ := hr
    have hformat : i.opcode.format = .imm6 := by
      rcases hlabel with hnone | hformat
      · rw [hl] at hnone
        cases hnone
      · exact hformat
    unfold Relocation.patch at hpatch
    rw [hword, Instruction.decode_encode_opcode] at hpatch
    cases hop : i.opcode <;> simp [hop, Opcode.format] at hformat hpatch

variable {aliases : Aliases} {op : Opcode} {operands : List String} {e : Emission}

theorem isPlain_imm8 {rd value label : String} (hjump : op.isJump = false)
    (hformat : op.format = .imm8) (hvalue : Operand.parse value = .ok (.label label)) :
    op.isPlain [rd, value] = false := by
  have hlabel : Operand.isLabel value = true := Operand.isLabel_iff.mpr ⟨label, hvalue⟩
  cases op <;> simp_all [Opcode.isJump, Opcode.format, Opcode.isPlain]

theorem parse_of_numberOrLabel {value label : String}
    (h : NumberOrLabel.parse value = .ok (.label label)) :
    Operand.parse value = .ok (.label label) := by
  unfold NumberOrLabel.parse at h
  split at h
  · cases h
  · next name hparse =>
    cases h
    exact hparse
  · next operand _ _ =>
    obtain ⟨n, -, hn⟩ := map_eq_ok (mapError_eq_ok h)
    cases hn

theorem fixed_ofInstruction (hjump : op.isJump = false) (hplain : op.isPlain operands = true)
    (h : ofInstruction aliases op operands = .ok e) : e.Fixed := by
  have hshape := h
  unfold ofInstruction at hshape
  split at hshape
  · next hformat =>
    obtain ⟨regs, -, rfl⟩ := ofInstruction_r hformat h
    exact ⟨_, rfl, hjump, .inl rfl⟩
  · next hformat =>
    split at hshape
    · next rd rs1 value =>
      obtain ⟨r, q, v, -, -, -, he⟩ := ofInstruction_imm6 hformat h
      cases v with
      | number n =>
        obtain ⟨imm, -, rfl⟩ := he
        exact ⟨_, rfl, hjump, .inl rfl⟩
      | label name =>
        rw [he]
        exact ⟨_, rfl, hjump, .inr hformat⟩
    · cases hshape
  · next hformat =>
    split at hshape
    · next rd value =>
      obtain ⟨r, v, -, hv, he⟩ := ofInstruction_imm8 hformat h
      cases v with
      | number n =>
        obtain ⟨imm, -, rfl⟩ := he
        exact ⟨_, rfl, hjump, .inl rfl⟩
      | label name =>
        rw [isPlain_imm8 hjump hformat (parse_of_numberOrLabel hv)] at hplain
        cases hplain
    · cases hshape
  · next hformat => exact absurd hformat op.format_ne_directive

/-- A byte in hexadecimal is no label. -/
theorem isLabel_byteOperand (b : BitVec 8) : Operand.isLabel (byteOperand b) = false := by
  unfold Operand.isLabel
  rw [parse_byteOperand]

/-- A plain pseudo-instruction other than `br` stands for plain instructions that are no jumps. -/
theorem isPlain_of_expand {op : Pseudo} {reals : List (Opcode × List String)}
    (hbr : op ≠ .br) (hplain : op.isPlain operands = true) (h : expand op operands = .ok reals) :
    ∀ real ∈ reals, real.1.isJump = false ∧ real.1.isPlain real.2 = true := by
  unfold expand at h
  split at h
  · cases h
    simp [Opcode.isJump, Opcode.isPlain]
  · cases h
    simp [Opcode.isJump, Opcode.isPlain]
  · cases hplain
  · exact absurd rfl hbr
  · cases hplain
  · cases hplain
  · next rd value =>
    obtain ⟨v, hv, h⟩ := bind_eq_ok h
    cases v with
    | label name =>
      have hlabel := Operand.isLabel_iff.mpr ⟨name, parse_of_numberOrLabel hv⟩
      simp [Pseudo.isPlain, hlabel] at hplain
    | number n =>
      cases h
      simp [Opcode.isJump, Opcode.isPlain, isLabel_byteOperand]
  · cases h

theorem fixed_ofPseudo {op : Pseudo} {es : List Emission} (hbr : op ≠ .br)
    (hplain : op.isPlain operands = true) (h : ofPseudo aliases op operands = .ok es) :
    ∀ e ∈ es, e.Fixed := by
  obtain ⟨reals, hreals, hes⟩ := bind_eq_ok h
  have hplain := isPlain_of_expand hbr hplain hreals
  intro e he
  obtain ⟨real, hreal, hof⟩ := exists_of_mem_mapM hes he
  obtain ⟨hjump, hreal⟩ := hplain real hreal
  exact fixed_ofInstruction hjump hreal hof

end Emission

/-- A plain statement that is no branch has fixed words, and gives no names. -/
theorem Effect.fixed_ofStatement {memLen : Nat} {aliases : Aliases} {s : Statement}
    {effect : Effect} (hplain : s.isPlain = true) (hbranch : s.branch? = none)
    (h : Effect.ofStatement memLen aliases s = .ok effect) :
    ∃ es, effect = .emit es aliases ∧ ∀ e ∈ es, e.Fixed := by
  cases hop : s.op with
  | none =>
    unfold ofStatement at h
    rw [hop] at h
    cases h
    exact ⟨[], rfl, List.forall_mem_nil _⟩
  | some op =>
    -- a branch has as many operands as a branch must have
    have harity := accepts_operands hop h
    unfold Statement.isPlain at hplain
    simp only [hop] at hplain
    cases op with
    | real real =>
      obtain ⟨e, he, rfl⟩ := ofStatement_real hop h
      refine ⟨[e], rfl, List.forall_mem_singleton.mpr ?_⟩
      refine Emission.fixed_ofInstruction ?_ hplain he
      cases real with
      | branch cond =>
        obtain ⟨rd, target, hargs⟩ := List.length_eq_two.mp (beq_iff_eq.mp harity)
        simp [Statement.branch?, hop, hargs] at hbranch
      | jalr => cases hplain
      | _ => rfl
    | pseudo pseudo =>
      obtain ⟨es, hes, rfl⟩ := ofStatement_pseudo hop h
      refine ⟨es, rfl, Emission.fixed_ofPseudo ?_ hplain hes⟩
      rintro rfl
      obtain ⟨target, hargs⟩ := List.length_eq_one_iff.mp (beq_iff_eq.mp harity)
      simp [Statement.branch?, hop, hargs] at hbranch
    | directive kind => cases hplain

/-! ## Words of a plain program -/

namespace Program

variable {p placed : Program} {image : Image} {i : Nat} {t : Statement}

/-- **Words** of a statement that is no branch stand where the statement stands, as they were
    made. -/
theorem Plain.words_fixed (hp : p.Plain) (h : p.assemble maxMemory = (placed, .ok image))
    (ht : placed[i]? = some t) (hplain : t.isPlain = true) (hbranch : t.branch? = none) :
    ∃ es, Effect.ofStatement maxMemory .initial t = .ok (.emit es .initial) ∧
      t.words.length = es.length ∧
      ∀ k e, es[k]? = some e → ∃ ins : Instruction, e.word = ins.encode ∧
        ins.opcode.isJump = false ∧
        image.get? (BitVec.ofNat 16 (placed.offset i + k)) = some ins.encode := by
  have hmemLen : image.memLen = maxMemory := memLen_assemble h
  obtain ⟨effect, heffect, hholds⟩ := assembled h ht
  rw [hmemLen, aliasesBefore_of_straight hp.straight] at heffect
  obtain ⟨es, rfl, hfixed⟩ := Effect.fixed_ofStatement hplain hbranch heffect
  obtain ⟨start, hstart⟩ := hholds
  cases hstart.address.symm.trans (address_of_straight h hp.straight ht)
  refine ⟨es, heffect, hstart.length, fun k e he => ?_⟩
  obtain ⟨word, -, hget, hresolves⟩ := hstart.words k e he
  have he' := hfixed e (List.mem_of_getElem? he)
  obtain ⟨ins, hword, hjump, -⟩ := he'.instruction
  refine ⟨ins, hword, hjump, ?_⟩
  rw [BitVec.ofNat_add, hget, he'.word_of_resolves hresolves, hword]

/-- A statement without mnemonic has no words. -/
theorem words_of_op_none (h : p.assemble maxMemory = (placed, .ok image))
    (ht : placed[i]? = some t) (hop : t.op = none) : t.words = [] := by
  obtain ⟨effect, heffect, hholds⟩ := assembled h ht
  unfold Effect.ofStatement at heffect
  rw [hop] at heffect
  cases heffect
  obtain ⟨start, hstart⟩ := hholds
  exact List.eq_nil_of_length_eq_zero hstart.length

/-- A label stands for the number of words before the statement it is on. -/
theorem Plain.addressOf?_label (hp : p.Plain) (h : p.assemble maxMemory = (placed, .ok image))
    {s : Statement} (hs : p[i]? = some s) {label : String} (hlabel : label ∈ s.labels) :
    image.symbols.addressOf? label = some (BitVec.ofNat 16 (placed.offset i)) := by
  obtain ⟨t, ht, hsame⟩ := getElem?_assemble h hs
  have hdefine : t.op ≠ some (.directive .define) := by
    rw [hsame.op]
    exact Statement.op_ne_of_not_directive (hp.straight s (List.mem_of_getElem? hs)) _
  rw [← hsame.labels] at hlabel
  rw [addressOf?_assemble h (List.mem_of_getElem? ht) hlabel,
    Statement.labelValue?_of_ne hdefine, address_of_straight h hp.straight ht]

end Program

/-- At an address of an image there is a branch to another one. -/
def Image.BranchesAt (image : Image) (address : Word) (cond : Condition) (r : Register)
    (target : Word) : Prop :=
  ∃ imm : BitVec 8, address + 1 + Immediate.extend imm = target ∧
    image.get? address = some (Instruction.ofImm8 (.branch cond) rfl r imm).encode

/-- **Branches** of a plain program are one word, and go to their label. -/
theorem Program.Plain.branchesAt {p placed : Program} {image : Image} {i : Nat} {s : Statement}
    (hp : p.Plain) (h : p.assemble maxMemory = (placed, .ok image)) (hs : p[i]? = some s)
    {cond : Condition} {rd target label : String} (hb : s.branch? = some (cond, rd, target))
    (hl : Operand.parse target = .ok (.label label)) :
    ∃ t r address, placed[i]? = some t ∧ t.words.length = 1 ∧
      Aliases.initial.register rd = .ok r ∧ image.symbols.addressOf? label = some address ∧
      image.BranchesAt (BitVec.ofNat 16 (placed.offset i)) cond r address := by
  obtain ⟨t, ht, hsame⟩ := getElem?_assemble h hs
  rw [← Statement.branch?_congr hsame.op hsame.operands] at hb
  obtain ⟨start, r, address, imm, hr, haddress, himm, hcode, hget⟩ := codes_branch h ht hb hl
  have hmemLen : image.memLen = 65536 := memLen_assemble h
  rw [aliasesBefore_of_straight hp.straight] at hr
  rw [hmemLen] at himm
  cases hcode.address.symm.trans (address_of_straight h hp.straight ht)
  refine ⟨t, r, address, ht, ?_, hr, haddress, imm, goto_distance himm, hget⟩
  rw [hcode.words]
  rfl

end AnnaToolchain
