import AnnaToolchain.Proofs.Assembly.References
import AnnaToolchain.Proofs.Assembly.Strings

/-! # Statements that refer to labels

    Of a program that is assembled, a label is an operand in few places: the
    last operand of a branch, of `lli`, `lui` and `lwi`, and the operand of
    `br`.  In each of these places a number says what the label says
    (`Statement.labelNumber?`), and the statement becomes the same words
    with the number (`Statement.references`). -/

namespace AnnaToolchain

namespace Opcode

variable {op : Opcode}

theorem operandCount_le (op : Opcode) : op.operandCount ≤ 3 := by
  cases op with
  | math f => cases f <;> decide
  | _ => simp [operandCount]

theorem operandCount_imm6 (hf : op.format = .imm6) : op.operandCount = 3 := by
  cases op with
  | addi | shf | lw | sw => rfl
  | math _ | jalr | input | lli | lui | branch _ | output _ => cases hf

theorem operandCount_imm8 (hf : op.format = .imm8) : op.operandCount = 2 := by
  cases op with
  | lli | lui | branch _ => rfl
  | math _ | jalr | input | addi | shf | lw | sw | output _ => cases hf

end Opcode

namespace Statement

/-- The label an operand of a statement refers to, if it does.  A loose statement has no use for
    operands. -/
def label? (s : Statement) (text : String) : Option String :=
  if s.isReal then Operand.labelOf? text else none

theorem label?_eq_none {s : Statement} {text : String} (h : Operand.labelOf? text = none) :
    s.label? text = none := by
  unfold label?
  rw [h]
  split <;> rfl

/-- The number of an operand that is a label. -/
def number? (symbols : SymbolTable) (s : Statement) (text : String) : Option Int := do
  let value ← symbols.addressOf? (← s.label? text)
  s.labelNumber? value

end Statement

/-- An effect with the words that a statement has become. -/
def Effect.settle (words : List Word) : Effect → Effect
  | .emit _ aliases => .emit (words.map fun word => { word := word }) aliases
  | effect => effect

/-- The last operand of a statement is a label, and the number `n` can take its place. -/
structure Statement.Refers (memLen : Nat) (aliases : Aliases) (symbols : SymbolTable)
    (s : Statement) (effect : Effect) (front : List String) (text : String) (n : Int) : Prop where
  operands : s.operands = front ++ [text]
  others : ∀ other ∈ front, s.label? other = none
  number : s.number? symbols text = some n
  writable : IsWritable n
  settles : ∀ value, NumberOrLabel.parse value = .ok (.number n) →
    Effect.ofStatement memLen aliases { s with operands := front ++ [value] }
      = .ok (effect.settle s.words)

/-- A `.fill` statement that does anything writes its numbers. -/
theorem Effect.exists_fill {memLen : Nat} {aliases : Aliases} {s : Statement} {effect : Effect}
    (hop : s.op = some (.directive .fill))
    (h : Effect.ofStatement memLen aliases s = .ok effect) :
    ∃ es, s.operands.mapM Emission.ofFill = .ok es ∧ effect = .emit es aliases := by
  unfold ofStatement at h
  simp only [hop] at h
  split at h
  · unfold ofDirective at h
    obtain ⟨es, hes, h⟩ := bind_eq_ok h
    exact ⟨es, hes, (Except.ok.inj h).symm⟩
  · cases h

/-- A `.ralias` statement that does anything gives a name to a register. -/
theorem Effect.exists_ralias {memLen : Nat} {aliases : Aliases} {s : Statement} {effect : Effect}
    (hop : s.op = some (.directive .ralias))
    (h : Effect.ofStatement memLen aliases s = .ok effect) :
    ∃ real name aliases', s.operands = [real, name] ∧ aliases.add real name = .ok aliases' ∧
      effect = .emit [] aliases' := by
  have haccepts := accepts_operands hop h
  obtain ⟨real, name, hargs⟩ := List.length_eq_two.mp (beq_iff_eq.mp haccepts)
  unfold ofStatement at h
  simp only [hop, haccepts, if_true] at h
  unfold ofDirective at h
  rw [hargs] at h
  obtain ⟨aliases', hadd, h⟩ := bind_eq_ok h
  exact ⟨real, name, aliases', hargs, hadd, (Except.ok.inj h).symm⟩

namespace Statement

variable {memLen : Nat} {aliases : Aliases} {image : Image} {s : Statement} {effect : Effect}

/-- No operand of a statement is a label, and its words are what they were asked to be. -/
def IsNumeric (s : Statement) (effect : Effect) : Prop :=
  (∀ text ∈ s.operands, s.label? text = none) ∧ effect.settle s.words = effect

/-- Words that wait for no label stay what they are. -/
theorem Holds.settle {start : Word} {es : List Emission} (h : s.Holds image start es)
    (hwords : ∀ e ∈ es, e.label = none) : (s.words.map fun word => { word := word }) = es := by
  apply List.ext_getElem?
  intro k
  rw [List.getElem?_map]
  cases hk : es[k]? with
  | none =>
    rw [List.getElem?_eq_none_iff, ← h.length, ← List.getElem?_eq_none_iff] at hk
    rw [hk]
    rfl
  | some e =>
    obtain ⟨word, hword, -, hres⟩ := h.words k e hk
    have hlabel := hwords e (List.mem_of_getElem? hk)
    unfold Emission.Resolves at hres
    simp only [hlabel] at hres
    obtain ⟨w, label⟩ := e
    cases hlabel
    rw [hword, hres]
    rfl

theorem isNumeric_of_unlabeled {start : Word} {es : List Emission} (hholds : s.Holds image start es)
    (h : Emission.Unlabeled s.operands es) : s.IsNumeric (.emit es aliases) := by
  refine ⟨fun text htext => label?_eq_none (h.operands text htext), ?_⟩
  rw [Effect.settle, hholds.settle h.words]

/-- A real instruction refers to a label in its last operand, if at all. -/
theorem references_real {op : Opcode} (hb : aliases.Bare) (hop : s.op = some (.real op))
    (heffect : Effect.ofStatement memLen aliases s = .ok effect) (hp : s.Performs image effect) :
    s.IsNumeric effect ∨
      ∃ front text n, s.Refers memLen aliases image.symbols effect front text n := by
  have haccepts := Effect.accepts_operands hop heffect
  have hlength : s.operands.length = op.operandCount := beq_iff_eq.mp haccepts
  obtain ⟨e, he, rfl⟩ := Effect.ofStatement_real hop heffect
  obtain ⟨start, hholds⟩ := hp
  obtain ⟨word, hwords, -, hres⟩ := hholds.one
  cases hf : op.format with
  | r =>
    have hle := hlength.le.trans op.operandCount_le
    exact .inl (isNumeric_of_unlabeled hholds (Emission.unlabeled_of_r hb hf hle he))
  | imm6 =>
    obtain ⟨rd, rs1, value, hargs⟩ :=
      List.length_eq_three.mp (hlength.trans (Opcode.operandCount_imm6 hf))
    rw [hargs] at he
    refine .inl (isNumeric_of_unlabeled hholds ?_)
    rw [hargs]
    exact Emission.unlabeled_of_imm6 hb hf he hres
  | imm8 =>
    have htwo := Opcode.operandCount_imm8 hf
    obtain ⟨rd, value, hargs⟩ := List.length_eq_two.mp (hlength.trans htwo)
    rw [hargs] at he
    obtain ⟨hrd, hunlabeled | ⟨name, hname⟩⟩ := Emission.labels_of_imm8 hb hf he
    · refine .inl (isNumeric_of_unlabeled hholds ?_)
      rw [hargs]
      exact hunlabeled
    · obtain ⟨target, n, htarget, hn, hwritable, hof⟩ :=
        Emission.ofInstruction_labelNumber hf hname he hres
      refine .inr ⟨[rd], value, n, hargs, List.forall_mem_singleton.mpr (label?_eq_none hrd), ?_,
        hwritable, fun value' hvalue => ?_⟩
      · have hreal : s.isReal = true := by rw [isReal, hop]; rfl
        simp [number?, label?, hreal, hname, htarget, labelNumber?, hop, hwords, hn]
      · rw [hwords]
        exact Effect.ofStatement_of_real hop htwo.symm (hof value' hvalue)
  | directive => exact absurd hf op.format_ne_directive

/-- `br` refers to a label or to a number. -/
theorem references_br (hb : aliases.Bare) (hop : s.op = some (.pseudo .br))
    (heffect : Effect.ofStatement memLen aliases s = .ok effect) (hp : s.Performs image effect) :
    s.IsNumeric effect ∨
      ∃ front text n, s.Refers memLen aliases image.symbols effect front text n := by
  have haccepts := Effect.accepts_operands hop heffect
  obtain ⟨target, hargs⟩ := List.length_eq_one_iff.mp (beq_iff_eq.mp haccepts)
  obtain ⟨es, hes, rfl⟩ := Effect.ofStatement_pseudo hop heffect
  obtain ⟨start, hholds⟩ := hp
  rw [hargs] at hes
  obtain ⟨e, he, rfl⟩ := Emission.ofPseudo_one rfl hes
  obtain ⟨word, hwords, -, hres⟩ := hholds.one
  obtain ⟨-, hunlabeled | ⟨name, hname⟩⟩ := Emission.labels_of_imm8 hb rfl he
  · refine .inl (isNumeric_of_unlabeled hholds ?_)
    rw [hargs]
    exact hunlabeled.mono (by simp)
  · obtain ⟨value, n, hvalue, hn, hwritable, hof⟩ :=
      Emission.ofPseudo_br_labelNumber hname hes (List.forall_mem_singleton.mpr hres)
    refine .inr ⟨[], target, n, hargs, List.forall_mem_nil _, ?_, hwritable,
      fun target' htarget => ?_⟩
    · have hreal : s.isReal = true := by rw [isReal, hop]; rfl
      simp [number?, label?, hreal, hname, hvalue, labelNumber?, hop, hwords, hn]
    · rw [hwords]
      exact Effect.ofStatement_of_pseudo hop rfl (hof target' htarget)

/-- `lwi` loads a number or the value of a label. -/
theorem references_lwi (hb : aliases.Bare) (hop : s.op = some (.pseudo .lwi))
    (heffect : Effect.ofStatement memLen aliases s = .ok effect) (hp : s.Performs image effect) :
    s.IsNumeric effect ∨
      ∃ front text n, s.Refers memLen aliases image.symbols effect front text n := by
  have haccepts := Effect.accepts_operands hop heffect
  obtain ⟨rd, value, hargs⟩ := List.length_eq_two.mp (beq_iff_eq.mp haccepts)
  obtain ⟨es, hes, rfl⟩ := Effect.ofStatement_pseudo hop heffect
  obtain ⟨start, hholds⟩ := hp
  rw [hargs] at hes
  cases hv : NumberOrLabel.parse value with
  | error cause =>
    obtain ⟨reals, hreals, -⟩ := bind_eq_ok hes
    simp only [Emission.expand, hv] at hreals
    cases hreals
  | ok v =>
    cases v with
    | number n =>
      obtain ⟨r, hr, rfl⟩ := Emission.ofPseudo_lwi_number hv hes
      refine .inl (isNumeric_of_unlabeled hholds ⟨?_, by simp⟩)
      simp [hargs, hb.labelOf?_of_register hr, NumberOrLabel.labelOf?_of_number hv]
    | label name =>
      have hname := NumberOrLabel.labelOf?_of_label hv
      obtain ⟨r, hr, rfl⟩ := Emission.ofPseudo_lwi_label hv hes
      obtain ⟨word, word', hwords, hres, hres'⟩ := hholds.two
      obtain ⟨target, htarget, hof⟩ := Emission.ofPseudo_lwi_labelNumber hname hes hres hres'
      refine .inr ⟨[rd], value, target.toNat, hargs,
        List.forall_mem_singleton.mpr (label?_eq_none (hb.labelOf?_of_register hr)), ?_,
        isWritable_toNat (by decide) target, fun value' hvalue => ?_⟩
      · have hreal : s.isReal = true := by rw [isReal, hop]; rfl
        simp [number?, label?, hreal, hname, htarget, labelNumber?, hop]
      · rw [hwords]
        exact Effect.ofStatement_of_pseudo hop rfl (hof value' hvalue)

/-- A pseudo-instruction refers to a label if it is `br` or `lwi`, and in its last operand. -/
theorem references_pseudo {op : Pseudo} (hb : aliases.Bare) (hop : s.op = some (.pseudo op))
    (heffect : Effect.ofStatement memLen aliases s = .ok effect) (hp : s.Performs image effect) :
    s.IsNumeric effect ∨
      ∃ front text n, s.Refers memLen aliases image.symbols effect front text n := by
  by_cases hbr : op = .br
  · rw [hbr] at hop
    exact references_br hb hop heffect hp
  by_cases hlwi : op = .lwi
  · rw [hlwi] at hop
    exact references_lwi hb hop heffect hp
  have hlength := beq_iff_eq.mp (Effect.accepts_operands hop heffect)
  obtain ⟨es, hes, rfl⟩ := Effect.ofStatement_pseudo hop heffect
  obtain ⟨start, hholds⟩ := hp
  exact .inl (isNumeric_of_unlabeled hholds
    (Emission.unlabeled_of_pseudo hb hbr hlwi hlength hes))

/-- No directive refers to a label. -/
theorem isNumeric_of_directive {kind : Directive} (hop : s.op = some (.directive kind))
    (heffect : Effect.ofStatement memLen aliases s = .ok effect) (hp : s.Performs image effect) :
    s.IsNumeric effect := by
  cases kind with
  | org =>
    cases Effect.ofMnemonic heffect with
    | moveTo _ hargs _ haddress _ =>
      refine ⟨?_, rfl⟩
      rw [hargs]
      exact List.forall_mem_singleton.mpr (label?_eq_none (Operand.labelOf?_of_parseWord haddress))
    | define hdefine _ _ _ => simp [hop] at hdefine
    | emit horg _ => exact absurd hop horg
  | define =>
    cases Effect.ofMnemonic heffect with
    | moveTo horg _ _ _ _ => simp [hop] at horg
    | define _ hargs _ hvalue =>
      refine ⟨?_, rfl⟩
      rw [hargs]
      exact List.forall_mem_singleton.mpr (label?_eq_none (Operand.labelOf?_of_parseWord hvalue))
    | emit _ hdefine => exact absurd hop hdefine
  | fill =>
    obtain ⟨es, hes, rfl⟩ := Effect.exists_fill hop heffect
    obtain ⟨start, hholds⟩ := hp
    refine isNumeric_of_unlabeled hholds (Emission.unlabeled_of_fill hes fun e he => ?_)
    obtain ⟨k, hk⟩ := List.mem_iff_getElem?.mp he
    obtain ⟨word, -, -, hres⟩ := hholds.words k e hk
    exact ⟨_, _, _, hres⟩
  | cstr =>
    obtain ⟨contents, hquotes, hnarrow, rfl⟩ := Effect.exists_texts hop heffect
    obtain ⟨start, hholds⟩ := hp
    refine isNumeric_of_unlabeled hholds ⟨fun text htext => ?_, fun e =>
      Emission.label_of_mem_texts⟩
    have htexts := Emission.mapM_ofText_eq_ok_iff.mpr ⟨contents, hquotes, hnarrow, rfl⟩
    obtain ⟨es, -, hes⟩ := ok_of_mem_mapM htexts htext
    obtain ⟨_, hquote, -, -⟩ := Emission.ofText_eq_ok_iff.mp hes
    exact Operand.labelOf?_of_quotes hquote
  | ralias =>
    obtain ⟨real, name, aliases', hargs, hadd, rfl⟩ := Effect.exists_ralias hop heffect
    obtain ⟨hreal, hname⟩ := Aliases.labelOf?_of_add hadd
    obtain ⟨start, hholds⟩ := hp
    refine isNumeric_of_unlabeled hholds ⟨?_, List.forall_mem_nil _⟩
    rw [hargs]
    simp [hreal, hname]

/-- **References.**  An assembled statement refers to no label, or its last operand is one, with a
    number that says the same. -/
theorem references (hb : aliases.Bare)
    (heffect : Effect.ofStatement memLen aliases s = .ok effect) (hp : s.Performs image effect) :
    s.IsNumeric effect ∨
      ∃ front text n, s.Refers memLen aliases image.symbols effect front text n := by
  cases hop : s.op with
  | none =>
    -- what a loose statement does not say cannot be a label
    have hempty : effect = .emit [] aliases := by
      unfold Effect.ofStatement at heffect
      simp only [hop] at heffect
      exact (Except.ok.inj heffect).symm
    subst hempty
    obtain ⟨start, hholds⟩ := hp
    refine .inl ⟨fun text _ => ?_, ?_⟩
    · simp [label?, isReal, hop]
    · rw [Effect.settle, hholds.settle (List.forall_mem_nil _)]
  | some op =>
    cases op with
    | real real => exact references_real hb hop heffect hp
    | pseudo pseudo => exact references_pseudo hb hop heffect hp
    | directive kind => exact .inl (isNumeric_of_directive hop heffect hp)

end Statement

end AnnaToolchain
