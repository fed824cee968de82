import AnnaToolchain.Proofs.Assembly.Resolution
import AnnaToolchain.Proofs.Assembly.Words
import Mathlib.Data.List.Basic

/-! # Code of an assembled program

    Which instructions the statements of an assembled program have become,
    once labels have their values.  An instruction that waits for a label is
    patched into the same instruction with another immediate: the low or the
    high byte of the label, or the way to it. -/

namespace AnnaToolchain

/-! ## Patched instructions -/

namespace Relocation

variable {memLen : Nat} {address target : Word} {label : String} {rd : Register}
  {imm : BitVec 8} {word : Word}

theorem patch_lli (h : Opcode.lli.format = .imm8)
    (hp : patch memLen address (Instruction.ofImm8 .lli h rd imm).encode target label = .ok word) :
    word = (Instruction.ofImm8 .lli h rd target.lowByte).encode := by
  unfold patch at hp
  rw [Instruction.decode_encode_opcode, Instruction.opcode_ofImm8] at hp
  simp only [Instruction.encode_ofImm8_withLowByte] at hp
  exact (Except.ok.inj hp).symm

theorem patch_lui (h : Opcode.lui.format = .imm8)
    (hp : patch memLen address (Instruction.ofImm8 .lui h rd imm).encode target label = .ok word) :
    word = (Instruction.ofImm8 .lui h rd target.highByte).encode := by
  unfold patch at hp
  rw [Instruction.decode_encode_opcode, Instruction.opcode_ofImm8] at hp
  simp only [Instruction.encode_ofImm8_withLowByte] at hp
  exact (Except.ok.inj hp).symm

theorem patch_branch {cond : Condition} (h : (Opcode.branch cond).format = .imm8)
    (hp : patch memLen address (Instruction.ofImm8 (.branch cond) h rd imm).encode target label
      = .ok word) :
    ∃ imm' : BitVec 8, imm'.toInt = distance memLen address target ∧
      word = (Instruction.ofImm8 (.branch cond) h rd imm').encode := by
  unfold patch at hp
  rw [Instruction.decode_encode_opcode, Instruction.opcode_ofImm8] at hp
  simp only [Instruction.encode_ofImm8_withLowByte] at hp
  cases hd : Immediate.signed? 8 (distance memLen address target) with
  | error e => simp [hd] at hp
  | ok imm' =>
    simp only [hd] at hp
    exact ⟨imm', Immediate.signed?_ok_iff.mp hd, (Except.ok.inj hp).symm⟩

end Relocation

/-! ## Words of a statement -/

namespace Statement

/-- The words of a statement, from the address `start` on, are those of instructions. -/
structure Codes (s : Statement) (start : Word) (code : List Instruction) : Prop where
  address : s.address = some start
  words : s.words = code.map Instruction.encode

variable {s : Statement} {image : Image} {start : Word}

theorem Holds.one {e : Emission} (h : s.Holds image start [e]) :
    ∃ word, s.words = [word] ∧ image.get? start = some word ∧ e.Resolves image start word := by
  obtain ⟨word, hword, hget, hres⟩ := h.words 0 e rfl
  obtain ⟨word', hwords⟩ := List.length_eq_one_iff.mp h.length
  rw [hwords] at hword
  cases hword
  rw [Word.add_ofNat_zero] at hget hres
  exact ⟨_, hwords, hget, hres⟩

theorem Holds.two {e e' : Emission} (h : s.Holds image start [e, e']) :
    ∃ word word', s.words = [word, word'] ∧ e.Resolves image start word ∧
      e'.Resolves image (start + 1) word' := by
  obtain ⟨word, hword, -, hres⟩ := h.words 0 e rfl
  obtain ⟨word', hword', -, hres'⟩ := h.words 1 e' rfl
  obtain ⟨w, w', hwords⟩ := List.length_eq_two.mp h.length
  rw [hwords] at hword hword'
  cases hword
  cases hword'
  rw [Word.add_ofNat_zero] at hres
  exact ⟨_, _, hwords, hres, hres'⟩

/-- Words that wait for no label are those of the instructions they were made for. -/
theorem Holds.codes_one {i : Instruction} (h : s.Holds image start [{ word := i.encode }]) :
    s.Codes start [i] := by
  obtain ⟨word, hwords, -, rfl⟩ := h.one
  exact ⟨h.address, hwords⟩

theorem Holds.codes_two {i i' : Instruction}
    (h : s.Holds image start [{ word := i.encode }, { word := i'.encode }]) :
    s.Codes start [i, i'] := by
  obtain ⟨word, word', hwords, rfl, rfl⟩ := h.two
  exact ⟨h.address, hwords⟩

end Statement

/-! ## Statements of a program -/

/-- The condition, the register and the target of a branch, as they are written; `br` is a branch
    on `r0`. -/
def Statement.branch? (s : Statement) : Option (Condition × String × String) :=
  match s.op, s.operands with
  | some (.real (.branch cond)), [rd, target] => some (cond, rd, target)
  | some (.pseudo .br), [target] => some (.eq, "r0", target)
  | _, _ => none

theorem Statement.branch?_congr {s s' : Statement} (hop : s'.op = s.op)
    (hoperands : s'.operands = s.operands) : s'.branch? = s.branch? := by
  unfold branch?
  rw [hop, hoperands]

/-- The word a number or a label stands for. -/
def NumberOrLabel.value? (symbols : SymbolTable) : NumberOrLabel → Option Word
  | .number n => some (Word.ofInt n)
  | .label name => symbols.addressOf? name

namespace Program

variable {p placed : Program} {memLen : Nat} {image : Image} {i : Nat} {s : Statement}

theorem holds_real (h : p.assemble memLen = (placed, .ok image)) (hs : placed[i]? = some s)
    {op : Opcode} {operands : List String} (hop : s.op = some (.real op))
    (hargs : s.operands = operands) :
    ∃ start e, Emission.ofInstruction (p.aliasesBefore i) op operands = .ok e ∧
      s.Holds image start [e] := by
  subst hargs
  obtain ⟨effect, heffect, hholds⟩ := assembled h hs
  obtain ⟨e, he, rfl⟩ := Effect.ofStatement_real hop heffect
  obtain ⟨start, hstart⟩ := hholds
  exact ⟨start, e, he, hstart⟩

theorem holds_pseudo (h : p.assemble memLen = (placed, .ok image)) (hs : placed[i]? = some s)
    {op : Pseudo} {operands : List String} (hop : s.op = some (.pseudo op))
    (hargs : s.operands = operands) :
    ∃ start es, Emission.ofPseudo (p.aliasesBefore i) op operands = .ok es ∧
      s.Holds image start es := by
  subst hargs
  obtain ⟨effect, heffect, hholds⟩ := assembled h hs
  obtain ⟨es, hes, rfl⟩ := Effect.ofStatement_pseudo hop heffect
  obtain ⟨start, hstart⟩ := hholds
  exact ⟨start, es, hes, hstart⟩

/-- A branch to a label is a branch by the distance to it. -/
theorem codes_branch (h : p.assemble memLen = (placed, .ok image)) (hs : placed[i]? = some s)
    {cond : Condition} {rd target label : String} (hb : s.branch? = some (cond, rd, target))
    (hl : Operand.parse target = .ok (.label label)) :
    ∃ start r t, ∃ imm : BitVec 8, (p.aliasesBefore i).register rd = .ok r ∧
      image.symbols.addressOf? label = some t ∧
      imm.toInt = Relocation.distance image.memLen start t ∧
      s.Codes start [.ofImm8 (.branch cond) rfl r imm] ∧
      image.get? start = some (Instruction.ofImm8 (.branch cond) rfl r imm).encode := by
  -- in both spellings it is one word that waits for the label
  have hholds : ∃ start r, (p.aliasesBefore i).register rd = .ok r ∧ s.Holds image start
      [{ word := (Instruction.ofImm8 (.branch cond) rfl r 0).encode, label := some label }] := by
    unfold Statement.branch? at hb
    split at hb
    · next hop hargs =>
      cases hb
      obtain ⟨start, e, he, hstart⟩ := holds_real h hs hop hargs
      obtain ⟨r, hr, rfl⟩ := Emission.ofInstruction_imm8_label rfl (NumberOrLabel.parse_label hl) he
      exact ⟨start, r, hr, hstart⟩
    · next hop hargs =>
      cases hb
      have hn := Aliases.native_aliasesBefore p i
      obtain ⟨start, es, hes, hstart⟩ := holds_pseudo h hs hop hargs
      rw [Emission.ofPseudo_br hn hl hes] at hstart
      exact ⟨start, .zero, hn.register_zero, hstart⟩
    · cases hb
  obtain ⟨start, r, hr, hstart⟩ := hholds
  obtain ⟨word, hwords, hget, t, ht, hpatch⟩ := hstart.one
  obtain ⟨imm, himm, rfl⟩ := Relocation.patch_branch rfl hpatch
  exact ⟨start, r, t, imm, hr, ht, himm, ⟨hstart.address, hwords⟩, hget⟩

/-- `lwi` loads its value byte by byte, a number and a label alike. -/
theorem codes_lwi (h : p.assemble memLen = (placed, .ok image)) (hs : placed[i]? = some s)
    {rd value : String} (hop : s.op = some (.pseudo .lwi)) (hargs : s.operands = [rd, value]) :
    ∃ start r n v, (p.aliasesBefore i).register rd = .ok r ∧
      NumberOrLabel.parse value = .ok n ∧ n.value? image.symbols = some v ∧
      s.Codes start [.ofImm8 .lli rfl r v.lowByte, .ofImm8 .lui rfl r v.highByte] := by
  obtain ⟨start, es, hes, hstart⟩ := holds_pseudo h hs hop hargs
  cases hv : NumberOrLabel.parse value with
  | error cause =>
    -- the value is read before anything is expanded
    obtain ⟨reals, hreals, -⟩ := bind_eq_ok hes
    simp only [Emission.expand, hv] at hreals
    cases hreals
  | ok n =>
    cases n with
    | number n =>
      obtain ⟨r, hr, rfl⟩ := Emission.ofPseudo_lwi_number hv hes
      exact ⟨start, r, _, Word.ofInt n, hr, rfl, rfl, hstart.codes_two⟩
    | label label =>
      obtain ⟨r, hr, rfl⟩ := Emission.ofPseudo_lwi_label hv hes
      obtain ⟨word, word', hwords, ⟨t, ht, hp⟩, ⟨t', ht', hp'⟩⟩ := hstart.two
      -- both bytes are those of one value
      rw [ht] at ht'
      cases ht'
      rw [Relocation.patch_lli rfl hp, Relocation.patch_lui rfl hp'] at hwords
      exact ⟨start, r, _, t, hr, rfl, ht, ⟨hstart.address, hwords⟩⟩

theorem codes_mov (h : p.assemble memLen = (placed, .ok image)) (hs : placed[i]? = some s)
    {rd rs : String} (hop : s.op = some (.pseudo .mov)) (hargs : s.operands = [rd, rs]) :
    ∃ start r q, (p.aliasesBefore i).register rd = .ok r ∧
      (p.aliasesBefore i).register rs = .ok q ∧
      s.Codes start [.ofRegisters (.math .add) rfl r q .zero] := by
  obtain ⟨start, es, hes, hstart⟩ := holds_pseudo h hs hop hargs
  obtain ⟨r, q, hr, hq, rfl⟩ := Emission.ofPseudo_mov (Aliases.native_aliasesBefore p i) hes
  exact ⟨start, r, q, hr, hq, hstart.codes_one⟩

theorem codes_jmp (h : p.assemble memLen = (placed, .ok image)) (hs : placed[i]? = some s)
    {rs : String} (hop : s.op = some (.pseudo .jmp)) (hargs : s.operands = [rs]) :
    ∃ start q, (p.aliasesBefore i).register rs = .ok q ∧
      s.Codes start [.ofRegisters .jalr rfl q .zero .zero] := by
  obtain ⟨start, es, hes, hstart⟩ := holds_pseudo h hs hop hargs
  obtain ⟨q, hq, rfl⟩ := Emission.ofPseudo_jmp (Aliases.native_aliasesBefore p i) hes
  exact ⟨start, q, hq, hstart.codes_one⟩

theorem codes_halt (h : p.assemble memLen = (placed, .ok image)) (hs : placed[i]? = some s)
    (hop : s.op = some (.pseudo .halt)) (hargs : s.operands = []) :
    ∃ start, s.Codes start [.halt] := by
  obtain ⟨start, es, hes, hstart⟩ := holds_pseudo h hs hop hargs
  rw [Emission.ofPseudo_halt (Aliases.native_aliasesBefore p i) hes] at hstart
  exact ⟨start, hstart.codes_one⟩

theorem codes_push (h : p.assemble memLen = (placed, .ok image)) (hs : placed[i]? = some s)
    {sp rv : String} (hop : s.op = some (.pseudo .push)) (hargs : s.operands = [sp, rv]) :
    ∃ start r q, (p.aliasesBefore i).register sp = .ok r ∧
      (p.aliasesBefore i).register rv = .ok q ∧
      s.Codes start [.ofImm6 .sw rfl q r 0, .ofImm6 .addi rfl r r (-1)] := by
  obtain ⟨start, es, hes, hstart⟩ := holds_pseudo h hs hop hargs
  obtain ⟨r, q, hr, hq, rfl⟩ := Emission.ofPseudo_push hes
  exact ⟨start, r, q, hr, hq, hstart.codes_two⟩

theorem codes_pop (h : p.assemble memLen = (placed, .ok image)) (hs : placed[i]? = some s)
    {sp rv : String} (hop : s.op = some (.pseudo .pop)) (hargs : s.operands = [sp, rv]) :
    ∃ start r q, (p.aliasesBefore i).register sp = .ok r ∧
      (p.aliasesBefore i).register rv = .ok q ∧
      s.Codes start [.ofImm6 .addi rfl r r 1, .ofImm6 .lw rfl q r 0] := by
  obtain ⟨start, es, hes, hstart⟩ := holds_pseudo h hs hop hargs
  obtain ⟨r, q, hr, hq, rfl⟩ := Emission.ofPseudo_pop hes
  exact ⟨start, r, q, hr, hq, hstart.codes_two⟩

end Program

end AnnaToolchain
