import AnnaToolchain.Proofs.Assembly.Code
import AnnaToolchain.Proofs.Assembly.Strings
import AnnaToolchain.Proofs.Token.Reference

/-! # Labels in instructions

    An operand that is read as a register or as anything but a label is no
    label, and a word that waits for a label can be patched only if it is
    one of a branch, of `lli` or of `lui`.  There a number says what the
    label says: with it the instruction has the patched word at once
    (`Emission.ofInstruction_labelNumber`). -/

namespace AnnaToolchain

/-! ## Operands that are labels -/

namespace Operand

/-- The label a text refers to, if it does. -/
def labelOf? (text : String) : Option String :=
  match parse text with
  | .ok (.label name) => some name
  | _ => none

theorem labelOf?_eq_some_iff {text name : String} :
    labelOf? text = some name ↔ parse text = .ok (.label name) := by
  unfold labelOf?
  split
  · next hparse => simp [hparse]
  · next hparse =>
    refine ⟨nofun, fun h => ?_⟩
    exact absurd h (hparse name)

/-- What is read as something that no label is, is no label. -/
theorem labelOf?_of_view {α : Type} (view : Operand → Except OperandError α) {text : String} {a : α}
    (hview : ∀ name, view (.label name) ≠ .ok a) (h : (parse text >>= view) = .ok a) :
    labelOf? text = none := by
  cases hlabel : labelOf? text with
  | none => rfl
  | some name =>
    rw [labelOf?_eq_some_iff.mp hlabel] at h
    exact absurd h (hview name)

theorem labelOf?_of_parseWord {text : String} {word : Word} (h : parseWord text = .ok word) :
    labelOf? text = none :=
  labelOf?_of_view (fun operand => do return Word.ofInt (← operand.asInt)) nofun h

theorem labelOf?_of_quotes {text contents : String} (h : Quotes text contents) :
    labelOf? text = none := by
  unfold labelOf?
  rw [h.parse]

end Operand

theorem NumberOrLabel.labelOf?_of_number {text : String} {n : Int}
    (h : NumberOrLabel.parse text = .ok (.number n)) : Operand.labelOf? text = none := by
  cases hlabel : Operand.labelOf? text with
  | none => rfl
  | some name =>
    rw [parse_label (Operand.labelOf?_eq_some_iff.mp hlabel)] at h
    cases h

/-- What is read as a number or a label is a number, or the label it refers to. -/
theorem NumberOrLabel.labelOf?_of_label {text name : String}
    (h : NumberOrLabel.parse text = .ok (.label name)) : Operand.labelOf? text = some name := by
  unfold parse at h
  split at h
  · cases h
  · next hparse =>
    cases h
    exact Operand.labelOf?_eq_some_iff.mpr hparse
  · next operand hparse =>
    -- a number is not read as a label
    obtain ⟨n, -, hn⟩ := map_eq_ok (mapError_eq_ok h)
    cases hn

/-! ## Names of registers -/

theorem Text.toLower_ne_ampersand {c : Char} (h : c ≠ '&') : c.toLower ≠ '&' := by
  intro hlower
  have hn := toNat_toLower c
  have hcode : ('&' : Char).toNat = 38 := rfl
  rw [hlower, hcode] at hn
  split at hn
  · omega
  · exact h (Char.toNat_inj.mp hn.symm)

namespace Aliases

/-- No name in force is spelled as a reference to a label. -/
def Bare (aliases : Aliases) : Prop :=
  ∀ entry ∈ aliases, entry.1.toList.head? ≠ some '&'

theorem bare_initial : initial.Bare := by
  unfold Bare
  decide +kernel

theorem bare_add {aliases aliases' : Aliases} {real name : String} (hb : aliases.Bare)
    (h : aliases.add real name = .ok aliases') : aliases'.Bare := by
  unfold add at h
  split at h
  · cases h
  · split at h
    · next name' hname =>
      cases h
      obtain ⟨c, rest, n, hscan⟩ := exists_scan_of_nameOf? hname
      obtain ⟨rfl, -⟩ := Token.scan_name hscan
      refine List.forall_mem_cons.mpr ⟨?_, hb⟩
      -- a name starts with the character it is scanned from, which is no `&`
      have hc : c ≠ '&' := by
        rintro rfl
        cases Token.scanned_of_scan hscan with
        | name hstart _ => exact absurd hstart (by decide)
      rw [Text.toList_toLower, String.toList_ofList, List.map_cons, List.head?_cons]
      exact fun heq => Text.toLower_ne_ampersand hc (Option.some.inj heq)
    · cases h

theorem bare_after {aliases : Aliases} (hb : aliases.Bare) (s : Statement) :
    (aliases.after s).Bare := by
  unfold after
  split
  · next real name _ _ =>
    cases h : aliases.add real name with
    | error _ => exact hb
    | ok aliases' => exact bare_add hb h
  · exact hb

theorem bare_aliasesBefore (p : Program) (i : Nat) : (p.aliasesBefore i).Bare :=
  List.foldlRecOn _ _ bare_initial fun _ hb s _ => bare_after hb s

/-- **No label** is taken for a register. -/
theorem Bare.labelOf?_of_register {aliases : Aliases} (hb : aliases.Bare) {text : String}
    {r : Register} (h : aliases.register text = .ok r) : Operand.labelOf? text = none := by
  unfold register at h
  split at h
  · next r' hlookup =>
    cases hlabel : Operand.labelOf? text with
    | none => rfl
    | some name =>
      -- the name it goes by would start as the reference does
      exfalso
      have htarget := Peephole.targetLabel?_of_parse (Operand.labelOf?_eq_some_iff.mp hlabel)
      unfold Peephole.targetLabel? at htarget
      split at htarget
      · next word htrim =>
        obtain ⟨entry, hentry, hname⟩ : ∃ entry ∈ aliases,
            (Text.trim text).toLower = entry.1 := by
          have hsome := List.lookup_isSome_iff.mp (by rw [hlookup]; rfl)
          simpa using hsome
        refine hb entry hentry ?_
        rw [← hname, Text.toList_toLower, Text.trim, String.toList_ofList, htrim]
        rfl
      · cases htarget
  · exact Operand.labelOf?_of_view Operand.asRegister nofun (mapError_eq_ok h)

/-- What names a register is no label, and neither is a register that is given a name. -/
theorem labelOf?_of_add {aliases aliases' : Aliases} {real name : String}
    (h : aliases.add real name = .ok aliases') :
    Operand.labelOf? real = none ∧ Operand.labelOf? name = none := by
  unfold add at h
  split at h
  · cases h
  · next r hreal =>
    split at h
    · next name' hname =>
      refine ⟨Operand.labelOf?_of_view Operand.asRegister nofun hreal, ?_⟩
      -- a name is one token, and no operand
      unfold nameOf? at hname
      split at hname
      · next hlex =>
        unfold Operand.labelOf? Operand.parse
        rw [hlex]
        rfl
      · cases hname
    · cases h

end Aliases

/-! ## Numbers in place of labels -/

/-- The number that says to an instruction what a label of the value `value` says, if its word has
    become `word`: the way that is patched into a branch, or the byte that is loaded. -/
def Opcode.labelNumber? (op : Opcode) (value word : Word) : Option Int :=
  match op with
  | .branch _ => some word.lowByte.toInt
  | .lli => some value.lowByte.toNat
  | .lui => some value.highByte.toNat
  | _ => none

/-- The number that says to an assembled statement what a label of the value `value` says. -/
def Statement.labelNumber? (s : Statement) (value : Word) : Option Int :=
  match s.op, s.words with
  | some (.real op), [word] => op.labelNumber? value word
  | some (.pseudo .br), [word] => (Opcode.branch .eq).labelNumber? value word
  | some (.pseudo .lwi), _ => some value.toNat
  | _, _ => none

/-- A number that can be written as an operand. -/
def IsWritable (n : Int) : Prop :=
  -32768 ≤ n ∧ n < 65536

theorem isWritable_toNat {bits : Nat} (hbits : bits ≤ 16) (b : BitVec bits) :
    IsWritable b.toNat := by
  have hb := b.isLt
  have hpow := Nat.pow_le_pow_right (n := 2) (by decide) hbits
  unfold IsWritable
  omega

theorem isWritable_toInt (b : BitVec 8) : IsWritable b.toInt := by
  have hle := BitVec.le_toInt b
  have hlt := BitVec.toInt_lt (x := b)
  unfold IsWritable
  omega

theorem Instruction.lowByte_encode_ofImm8 {op : Opcode} (h : op.format = .imm8) (rd : Register)
    (imm : BitVec 8) : (ofImm8 op h rd imm).encode.lowByte = imm := by
  have himm := imm.isLt
  apply BitVec.eq_of_toNat_eq
  unfold Word.lowByte encode
  rw [BitVec.toNat_ofNat, toNat_ofImm8]
  omega

theorem Immediate.byte?_natCast (b : BitVec 8) : byte? b.toNat = .ok b := by
  unfold byte?
  rw [if_neg (by omega), unsigned?_ok_iff, Int.toNat_natCast]

namespace Emission

variable {aliases : Aliases} {op : Opcode} {operands : List String} {e : Emission} {image : Image}
  {address word : Word}

/-- **An instruction with a label** becomes the same word with the number that is resolved. -/
theorem ofInstruction_labelNumber {rd value name : String} (hf : op.format = .imm8)
    (hl : Operand.labelOf? value = some name) (he : ofInstruction aliases op [rd, value] = .ok e)
    (hres : e.Resolves image address word) :
    ∃ target n, image.symbols.addressOf? name = some target ∧
      op.labelNumber? target word = some n ∧ IsWritable n ∧
      ∀ value', NumberOrLabel.parse value' = .ok (.number n) →
        ofInstruction aliases op [rd, value'] = .ok { word := word } := by
  have hlabel := NumberOrLabel.parse_label (Operand.labelOf?_eq_some_iff.mp hl)
  obtain ⟨r, hr, rfl⟩ := ofInstruction_imm8_label hf hlabel he
  obtain ⟨target, htarget, hpatch⟩ := hres
  refine ⟨target, ?_⟩
  -- what is patched in is the immediate that the number asks for
  cases op with
  | branch cond =>
    obtain ⟨imm, -, rfl⟩ := Relocation.patch_branch hf hpatch
    refine ⟨imm.toInt, htarget, ?_, isWritable_toInt imm, fun value' hvalue => ?_⟩
    · rw [Opcode.labelNumber?, Instruction.lowByte_encode_ofImm8]
    · exact ofInstruction_of_imm8 hf hr hvalue (Immediate.signed?_ok_iff.mpr rfl)
  | lli =>
    rw [Relocation.patch_lli hf hpatch]
    exact ⟨_, htarget, rfl, isWritable_toNat (by decide) _, fun value' hvalue =>
      ofInstruction_of_imm8 hf hr hvalue (Immediate.byte?_natCast _)⟩
  | lui =>
    rw [Relocation.patch_lui hf hpatch]
    exact ⟨_, htarget, rfl, isWritable_toNat (by decide) _, fun value' hvalue =>
      ofInstruction_of_imm8 hf hr hvalue (Immediate.byte?_natCast _)⟩
  | math _ | jalr | input | addi | shf | lw | sw | output _ => cases hf

/-- A word that can be patched is one of a branch, `lli` or `lui`. -/
theorem label_eq_none_of_format (hop : Opcode.ofWord? e.word = some op) (hf : op.format ≠ .imm8)
    (hres : e.Resolves image address word) : e.label = none := by
  cases hlabel : e.label with
  | none => rfl
  | some name =>
    unfold Resolves at hres
    simp only [hlabel] at hres
    obtain ⟨target, -, hpatch⟩ := hres
    unfold Relocation.patch at hpatch
    rw [hop] at hpatch
    cases op with
    | branch _ | lli | lui => exact absurd rfl hf
    | math _ | jalr | input | addi | shf | lw | sw | output _ => cases hpatch

/-- No operand is a label, and so no word waits for one. -/
structure Unlabeled (operands : List String) (es : List Emission) : Prop where
  operands : ∀ text ∈ operands, Operand.labelOf? text = none
  words : ∀ e ∈ es, e.label = none

/-- What is read as registers is no label. -/
theorem labelOf?_of_registers (hb : aliases.Bare) {regs : List Register}
    (h : operands.mapM aliases.register = .ok regs) :
    ∀ text ∈ operands, Operand.labelOf? text = none := by
  intro text htext
  obtain ⟨r, -, hr⟩ := ok_of_mem_mapM h htext
  exact hb.labelOf?_of_register hr

theorem unlabeled_of_r (hb : aliases.Bare) (hf : op.format = .r) (hlength : operands.length ≤ 3)
    (he : ofInstruction aliases op operands = .ok e) : Unlabeled operands [e] := by
  obtain ⟨regs, hregs, rfl⟩ := ofInstruction_r hf he
  rw [List.take_of_length_le hlength] at hregs
  exact ⟨labelOf?_of_registers hb hregs, List.forall_mem_singleton.mpr rfl⟩

theorem unlabeled_of_imm6 (hb : aliases.Bare) (hf : op.format = .imm6) {rd rs1 value : String}
    (he : ofInstruction aliases op [rd, rs1, value] = .ok e)
    (hres : e.Resolves image address word) :
    Unlabeled [rd, rs1, value] [e] := by
  obtain ⟨r, q, v, hr, hq, hv, hemission⟩ := ofInstruction_imm6 hf he
  have hword : Opcode.ofWord? e.word = some op := by
    cases v with
    | number n =>
      obtain ⟨imm, -, rfl⟩ := hemission
      exact Instruction.decode_encode_opcode _
    | label name =>
      rw [hemission]
      exact Instruction.decode_encode_opcode _
  have hlabel := label_eq_none_of_format hword (by rw [hf]; nofun) hres
  have hnumber : Operand.labelOf? value = none := by
    cases v with
    | number n => exact NumberOrLabel.labelOf?_of_number hv
    | label name =>
      rw [hemission] at hlabel
      cases hlabel
  refine ⟨?_, List.forall_mem_singleton.mpr hlabel⟩
  simp only [List.forall_mem_cons, List.not_mem_nil, false_implies, implies_true, and_true]
  exact ⟨hb.labelOf?_of_register hr, hb.labelOf?_of_register hq, hnumber⟩

/-- The last operand of an instruction may be a label, no other. -/
theorem labels_of_imm8 (hb : aliases.Bare) (hf : op.format = .imm8) {rd value : String}
    (he : ofInstruction aliases op [rd, value] = .ok e) :
    Operand.labelOf? rd = none ∧
      (Unlabeled [rd, value] [e] ∨ ∃ name, Operand.labelOf? value = some name) := by
  obtain ⟨r, v, hr, hv, hemission⟩ := ofInstruction_imm8 hf he
  have hrd := hb.labelOf?_of_register hr
  refine ⟨hrd, ?_⟩
  cases v with
  | number n =>
    obtain ⟨imm, -, rfl⟩ := hemission
    refine .inl ⟨?_, List.forall_mem_singleton.mpr rfl⟩
    simp only [List.forall_mem_cons, List.not_mem_nil, false_implies, implies_true, and_true]
    exact ⟨hrd, NumberOrLabel.labelOf?_of_number hv⟩
  | label name => exact .inr ⟨name, NumberOrLabel.labelOf?_of_label hv⟩

/-! ### Data -/

/-- The operands of `.fill` whose words can be patched are numbers. -/
theorem unlabeled_of_fill {es : List Emission} (h : operands.mapM ofFill = .ok es)
    (hres : ∀ e ∈ es, ∃ image address word, e.Resolves image address word) :
    Unlabeled operands es := by
  have hfill {text : String} {e : Emission} (he : e ∈ es) (hof : ofFill text = .ok e) :
      Operand.labelOf? text = none ∧ e.label = none := by
    obtain ⟨image, address, word, hres⟩ := hres e he
    obtain ⟨v, hv, hof⟩ := bind_eq_ok hof
    cases v with
    | number n =>
      cases hof
      exact ⟨NumberOrLabel.labelOf?_of_number hv, rfl⟩
    | label name =>
      -- zero is the word of an addition
      cases hof
      have hzero : Opcode.ofWord? 0 = some (.math .add) := by decide
      have hlabel := label_eq_none_of_format hzero (by decide) hres
      cases hlabel
  refine ⟨fun text htext => ?_, fun e he => ?_⟩
  · obtain ⟨e, he, hof⟩ := ok_of_mem_mapM h htext
    exact (hfill he hof).1
  · obtain ⟨text, -, hof⟩ := exists_of_mem_mapM h he
    exact (hfill he hof).2

theorem Unlabeled.mono {operands' : List String} {es : List Emission} (h : Unlabeled operands es)
    (hsub : operands' ⊆ operands) : Unlabeled operands' es :=
  ⟨fun text htext => h.operands text (hsub htext), h.words⟩

/-! ### Pseudo-instructions -/

theorem ofPseudo_of_expand {pseudo : Pseudo} {reals : List (Opcode × List String)}
    (h : expand pseudo operands = .ok reals) :
    ofPseudo aliases pseudo operands
      = reals.mapM fun real => ofInstruction aliases real.1 real.2 := by
  unfold ofPseudo
  rw [h, ok_bind]

/-- Only `br` and `lwi` have operands that are not registers. -/
theorem unlabeled_of_pseudo (hb : aliases.Bare) {op : Pseudo} (hbr : op ≠ .br) (hlwi : op ≠ .lwi)
    (hlength : operands.length = op.operandCount) {es : List Emission}
    (hes : ofPseudo aliases op operands = .ok es) : Unlabeled operands es := by
  cases op with
  | mov =>
    obtain ⟨rd, rs, rfl⟩ := List.length_eq_two.mp hlength
    obtain ⟨e, he, rfl⟩ := ofPseudo_one rfl hes
    exact (unlabeled_of_r hb rfl (by simp) he).mono (by simp)
  | halt =>
    obtain rfl := List.length_eq_zero_iff.mp hlength
    obtain ⟨e, he, rfl⟩ := ofPseudo_one rfl hes
    exact (unlabeled_of_r hb rfl (by simp) he).mono (by simp)
  | jmp =>
    obtain ⟨rs, rfl⟩ := List.length_eq_one_iff.mp hlength
    obtain ⟨e, he, rfl⟩ := ofPseudo_one rfl hes
    exact (unlabeled_of_r hb rfl (by simp) he).mono (by simp)
  | push =>
    obtain ⟨sp, rv, rfl⟩ := List.length_eq_two.mp hlength
    obtain ⟨r, q, hr, hq, rfl⟩ := ofPseudo_push hes
    exact ⟨by simp [hb.labelOf?_of_register hr, hb.labelOf?_of_register hq], by simp⟩
  | pop =>
    obtain ⟨sp, rv, rfl⟩ := List.length_eq_two.mp hlength
    obtain ⟨r, q, hr, hq, rfl⟩ := ofPseudo_pop hes
    exact ⟨by simp [hb.labelOf?_of_register hr, hb.labelOf?_of_register hq], by simp⟩
  | br => exact absurd rfl hbr
  | lwi => exact absurd rfl hlwi

/-- `br` with a label becomes the same word with the way to it. -/
theorem ofPseudo_br_labelNumber {target name : String} {es : List Emission}
    (hl : Operand.labelOf? target = some name) (hes : ofPseudo aliases .br [target] = .ok es)
    (hres : ∀ e ∈ es, e.Resolves image address word) :
    ∃ value n, image.symbols.addressOf? name = some value ∧
      (Opcode.branch .eq).labelNumber? value word = some n ∧ IsWritable n ∧
      ∀ target', NumberOrLabel.parse target' = .ok (.number n) →
        ofPseudo aliases .br [target'] = .ok [{ word := word }] := by
  obtain ⟨e, he, rfl⟩ := ofPseudo_one rfl hes
  obtain ⟨value, n, hvalue, hn, hwritable, hof⟩ :=
    ofInstruction_labelNumber rfl hl he (hres e List.mem_cons_self)
  refine ⟨value, n, hvalue, hn, hwritable, fun target' htarget => ?_⟩
  rw [ofPseudo_of_expand rfl, List.mapM_cons, hof target' htarget]
  rfl

/-- `lwi` with a label becomes the same words with the value of the label. -/
theorem ofPseudo_lwi_labelNumber {rd value name : String} {e e' : Emission} {word' : Word}
    (hl : Operand.labelOf? value = some name)
    (hes : ofPseudo aliases .lwi [rd, value] = .ok [e, e'])
    (hres : e.Resolves image address word) (hres' : e'.Resolves image (address + 1) word') :
    ∃ target, image.symbols.addressOf? name = some target ∧
      ∀ value', NumberOrLabel.parse value' = .ok (.number target.toNat) →
        ofPseudo aliases .lwi [rd, value'] = .ok [{ word := word }, { word := word' }] := by
  have hlabel := NumberOrLabel.parse_label (Operand.labelOf?_eq_some_iff.mp hl)
  have hx : expand .lwi [rd, value] = .ok [(.lli, [rd, value]), (.lui, [rd, value])] := by
    simp only [expand, hlabel]
    rfl
  obtain ⟨_, _, he, he', heq⟩ := ofPseudo_two hx hes
  cases heq
  obtain ⟨target, n, htarget, hn, -, hof⟩ := ofInstruction_labelNumber rfl hl he hres
  obtain ⟨target', n', htarget', hn', -, hof'⟩ := ofInstruction_labelNumber rfl hl he' hres'
  -- both bytes are those of one value
  rw [htarget] at htarget'
  cases htarget'
  cases hn
  cases hn'
  refine ⟨target, htarget, fun value' hvalue => ?_⟩
  have hword : Word.ofInt target.toNat = target := by
    rw [Word.ofInt, BitVec.ofInt_natCast, BitVec.ofNat_toNat, BitVec.setWidth_eq]
  have hx' : expand .lwi [rd, value'] = .ok [(.lli, [rd, byteOperand target.lowByte]),
      (.lui, [rd, byteOperand target.highByte])] := by
    simp only [expand, hvalue, ok_bind, hword]
    rfl
  -- the bytes are written out and read back
  have hbyte (b : BitVec 8) :
      NumberOrLabel.parse (byteOperand b) = .ok (.number b.toNat) := by
    have hb := b.isLt
    have hmod : (BitVec.ofNat 16 b.toNat).toNat = b.toNat := by
      rw [BitVec.toNat_ofNat]
      omega
    rw [NumberOrLabel.parse_unsigned (parse_byteOperand b), hmod]
  rw [ofPseudo_of_expand hx', List.mapM_cons, List.mapM_cons, hof _ (hbyte _), hof' _ (hbyte _)]
  rfl

end Emission

end AnnaToolchain
