import AnnaToolchain.Assembly.Error
import AnnaToolchain.Instruction

/-! # Words of a statement

    A statement becomes words by itself, without knowing where it is placed.
    Where an operand is a label, the word is made with zero in its place and
    keeps the label for later. -/

namespace AnnaToolchain

/-- A word of a statement, with the label whose address it still needs. -/
structure Emission where
  word : Word
  label : Option String := none
  deriving DecidableEq, Repr

/-! ## Registers by other names -/

/-- The names of registers in lower case, the newest first. -/
abbrev Aliases : Type := List (String × Register)

namespace Aliases

/-- The names every program starts with, `r0` to `r7`. -/
def initial : Aliases :=
  Register.all.map fun r => (r.name, r)

/-- The register of an operand: by any of its names, or as written. -/
def register (aliases : Aliases) (text : String) : Except AssemblyCause Register :=
  match aliases.lookup (Text.trim text).toLower with
  | some r => .ok r
  | none => (Operand.parse text >>= Operand.asRegister).mapError .operand

/-- The one name a text consists of, if it does. -/
def nameOf? (text : String) : Option String :=
  match Token.lex text with
  | ⟨[⟨.name name, _, _⟩], none⟩ => some name
  | _ => none

/-- Names a register, which has to be given as `r0` to `r7`. -/
def add (aliases : Aliases) (real name : String) : Except AssemblyCause Aliases :=
  match Operand.parse real >>= Operand.asRegister with
  | .error _ => .error (.badAlias (Text.trim real))
  | .ok r =>
    match nameOf? name with
    | some name => .ok ((name.toLower, r) :: aliases)
    | none => .error (.badAlias (Text.trim name))

end Aliases

/-! ## Immediates -/

/-- An operand that is a number, or the label of one. -/
inductive NumberOrLabel where
  | number (n : Int)
  | label (name : String)
  deriving DecidableEq, Repr

/-- Reads a number or a label. -/
def NumberOrLabel.parse (text : String) : Except AssemblyCause NumberOrLabel :=
  match Operand.parse text with
  | .error e => .error (.operand e)
  | .ok (.label name) => .ok (.label name)
  | .ok operand => (operand.asInt.map .number).mapError .operand

/-- The 8-bit immediate of an instruction: signed for a branch, either way for the others. -/
def byteImmediate (op : Opcode) (n : Int) : Except RangeError (BitVec 8) :=
  match op with
  | .branch _ => Immediate.signed? 8 n
  | _ => Immediate.byte? n

/-! ## Instructions -/

theorem Opcode.format_ne_directive (op : Opcode) : op.format ≠ .directive := by
  cases op <;> simp [Opcode.format]

namespace Emission

/-- The word of a real instruction with the given operands. -/
def ofInstruction (aliases : Aliases) (op : Opcode) (operands : List String) :
    Except AssemblyCause Emission :=
  match h : op.format with
  | .r => do
    let regs ← (operands.take 3).mapM aliases.register
    let reg (i : Nat) := regs.getD i .zero
    return { word := (Instruction.ofRegisters op h (reg 0) (reg 1) (reg 2)).encode }
  | .imm6 =>
    match operands with
    | [rd, rs1, value] => do
      let rd ← aliases.register rd
      let rs1 ← aliases.register rs1
      match ← NumberOrLabel.parse value with
      | .number n =>
        let imm ← (Immediate.signed? 6 n).mapError AssemblyCause.range
        return { word := (Instruction.ofImm6 op h rd rs1 imm).encode }
      | .label name =>
        return { word := (Instruction.ofImm6 op h rd rs1 0).encode, label := some name }
    | _ => .error (.operandCount (.real op) operands.length)
  | .imm8 =>
    match operands with
    | [rd, value] => do
      let rd ← aliases.register rd
      match ← NumberOrLabel.parse value with
      | .number n =>
        let imm ← (byteImmediate op n).mapError AssemblyCause.range
        return { word := (Instruction.ofImm8 op h rd imm).encode }
      | .label name =>
        return { word := (Instruction.ofImm8 op h rd 0).encode, label := some name }
    | _ => .error (.operandCount (.real op) operands.length)
  | .directive => absurd h op.format_ne_directive

/-- A byte as an operand, in hexadecimal. -/
def byteOperand (b : BitVec 8) : String :=
  "0x" ++ (String.ofList (Text.fixedHex 2 b.toNat)).toLower

/-- The real instructions of a pseudo-instruction, with their operands. -/
def expand (op : Pseudo) (operands : List String) :
    Except AssemblyCause (List (Opcode × List String)) :=
  match op, operands with
  | .mov, [rd, rs] => .ok [(.math .add, [rd, rs, "r0"])]
  | .halt, [] => .ok [(.output .number, ["r0"])]
  | .jmp, [rs] => .ok [(.jalr, [rs, "r0"])]
  | .br, [target] => .ok [(.branch .eq, ["r0", target])]
  | .push, [sp, rv] => .ok [(.sw, [rv, sp, "0"]), (.addi, [sp, sp, "-1"])]
  | .pop, [sp, rv] => .ok [(.addi, [sp, sp, "1"]), (.lw, [rv, sp, "0"])]
  | .lwi, [rd, value] => do
    match ← NumberOrLabel.parse value with
    | .label _ => return [(.lli, [rd, value]), (.lui, [rd, value])]
    | .number n =>
      let w := Word.ofInt n
      return [(.lli, [rd, byteOperand w.lowByte]), (.lui, [rd, byteOperand w.highByte])]
  | op, operands => .error (.operandCount (.pseudo op) operands.length)

/-- The words of a pseudo-instruction. -/
def ofPseudo (aliases : Aliases) (op : Pseudo) (operands : List String) :
    Except AssemblyCause (List Emission) := do
  (← expand op operands).mapM fun real => ofInstruction aliases real.1 real.2

/-! ## Data -/

/-- The word of an operand of `.fill`; negative numbers wrap. -/
def ofFill (text : String) : Except AssemblyCause Emission := do
  match ← NumberOrLabel.parse text with
  | .number n => return { word := Word.ofInt n }
  | .label name => return { word := 0, label := some name }

/-- The word of a character. -/
def ofChar (c : Char) : Except AssemblyCause Emission :=
  if c.toNat < UInt16.size then .ok { word := BitVec.ofNat 16 c.toNat }
  else .error (.charOutOfRange c)

/-- The words of an operand of `.cstr`. -/
def ofText (text : String) : Except AssemblyCause (List Emission) := do
  let contents ← (Operand.parse text >>= Operand.asText).mapError AssemblyCause.operand
  contents.toList.mapM ofChar

/-- The words of `.cstr`: the characters of all the texts, and a zero. -/
def ofCstr (operands : List String) : Except AssemblyCause (List Emission) := do
  let texts ← operands.mapM ofText
  return texts.flatten ++ [{ word := 0 }]

end Emission

/-! ## Statements -/

/-- What a statement does to the program being laid out. -/
inductive Effect where
  /-- Moves to an address. -/
  | moveTo (address : Word)
  /-- Gives its labels a value. -/
  | define (value : Word)
  /-- Writes words, from which on the given names hold. -/
  | emit (words : List Emission) (aliases : Aliases)

/-- What a directive does, in a memory of `memLen` words. -/
def Effect.ofDirective (memLen : Nat) (aliases : Aliases) (s : Statement) (kind : Directive) :
    Except AssemblyCause Effect :=
  match kind, s.operands with
  | .org, [address] => do
    if s.labels ≠ [] then throw .labelOnOrg
    let address ← (Operand.parseWord address).mapError AssemblyCause.operand
    if address.toNat ≥ memLen then throw (.outOfMemory address.toNat)
    return .moveTo address
  | .define, [value] => do
    if s.labels = [] then throw .defineWithoutLabel
    return .define (← (Operand.parseWord value).mapError AssemblyCause.operand)
  | .ralias, [real, name] => do
    return .emit [] (← aliases.add real name)
  | .fill, operands => do
    return .emit (← operands.mapM Emission.ofFill) aliases
  | .cstr, operands => do
    return .emit (← Emission.ofCstr operands) aliases
  | kind, operands => .error (.operandCount (.directive kind) operands.length)

/-- What a statement does.  A loose statement writes no words. -/
def Effect.ofStatement (memLen : Nat) (aliases : Aliases) (s : Statement) :
    Except AssemblyCause Effect :=
  match s.op with
  | none => .ok (.emit [] aliases)
  | some op =>
    if op.arity.accepts s.operands.length then
      match op with
      | .real real => do
        return .emit [← Emission.ofInstruction aliases real s.operands] aliases
      | .pseudo pseudo => do
        return .emit (← Emission.ofPseudo aliases pseudo s.operands) aliases
      | .directive kind => Effect.ofDirective memLen aliases s kind
    else .error (.operandCount op s.operands.length)

end AnnaToolchain
