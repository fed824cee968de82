import AnnaToolchain.Immediate
import AnnaToolchain.Isa.Opcode
import AnnaToolchain.Register

/-! # Instructions

    An instruction is a machine word together with the opcode it decodes to.
    The word keeps all sixteen bits, also those its instruction does not use,
    so encoding gives back exactly the word that was decoded.

    A field can be read only where the format has it. -/

namespace AnnaToolchain

/-! ## Errors -/

/-- A word whose opcode and sub-function name no instruction. -/
structure InvalidOpcode where
  word : Word
  deriving DecidableEq, Repr

/-- The error as shown to a user. -/
def InvalidOpcode.diagnostic (e : InvalidOpcode) : Diagnostic :=
  { message := "invalid opcode in word " ++ e.word.text
    help := some "the output opcode (0xF) only defines sub-functions 0-2" }

/-- The fields that some formats lack. -/
inductive Field where
  | rs1 | rs2 | subfunction | imm6 | imm8
  deriving DecidableEq, Repr

namespace Field

/-- The name of a field. -/
def name : Field → String
  | .rs1 => "rs1"
  | .rs2 => "rs2"
  | .subfunction => "subfunc"
  | .imm6 => "imm6"
  | .imm8 => "imm8"

/-- Whether words of a format have the field. -/
def isIn : Field → Format → Bool
  | .rs1, format => format == .r || format == .imm6
  | .rs2, format => format == .r
  | .subfunction, format => format == .r
  | .imm6, format => format == .imm6
  | .imm8, format => format == .imm8

end Field

/-- A field was read from an instruction whose format lacks it. -/
structure FieldAccess where
  field : Field
  format : Format
  word : Word
  deriving DecidableEq, Repr

/-- The error as shown to a user. -/
def FieldAccess.diagnostic (e : FieldAccess) : Diagnostic :=
  { message := "instruction " ++ e.word.text ++ " has no " ++ e.field.name ++ " field ("
      ++ e.format.name ++ " format)"
    help := some (e.format.name ++ " instructions have the fields: " ++ e.format.fields) }

/-! ## Decoding -/

/-- The opcode of a word, from its high four and low three bits. -/
def Opcode.ofWord? (w : Word) : Option Opcode :=
  Opcode.ofCode? (w.toNat / 4096) (w.toNat % 8)

namespace Opcode

/-- The sub-function bits of an instruction's word, zero where it has none of its own. -/
def lowBits (op : Opcode) : Nat :=
  op.subfunction?.getD 0

theorem lowBits_lt (op : Opcode) : op.lowBits < 8 := by
  cases op with
  | math f => cases f <;> decide
  | output k => cases k <;> decide
  | _ => simp [lowBits, subfunction?]

theorem subfunction?_eq_none (op : Opcode) (h : op.format ≠ .r) : op.subfunction? = none := by
  cases op <;> simp_all [format, subfunction?]

end Opcode

/-- A machine word that decodes. -/
structure Instruction where
  opcode : Opcode
  word : Word
  decodes : Opcode.ofWord? word = some opcode
  deriving DecidableEq

namespace Instruction

/-- The word that halts the machine, `out r0`. -/
def haltWord : Word := 0xF000

/-- Reads a word as an instruction. -/
def decode (w : Word) : Except InvalidOpcode Instruction :=
  match h : Opcode.ofWord? w with
  | some op => .ok ⟨op, w, h⟩
  | none => .error ⟨w⟩

/-- The machine word of an instruction. -/
def encode (i : Instruction) : Word :=
  i.word

theorem decode_encode (i : Instruction) : decode i.encode = .ok i := by
  obtain ⟨op, w, h⟩ := i
  unfold decode encode
  split
  · next op' h' => rw [h] at h'; cases h'; rfl
  · next h' => rw [h] at h'; cases h'

theorem decode_eq_error_iff {w : Word} : decode w = .error ⟨w⟩ ↔ Opcode.ofWord? w = none := by
  unfold decode
  split
  · next op h => simp [h]
  · next h => simp [h]

/-! ## Fields -/

/-- The format of an instruction. -/
def format (i : Instruction) : Format :=
  i.opcode.format

/-- Whether an instruction is the halt word. -/
def isHalt (i : Instruction) : Bool :=
  i.word == haltWord

/-- Refuses a field the format lacks. -/
def require (i : Instruction) (field : Field) : Except FieldAccess Unit :=
  if field.isIn i.format then .ok () else .error ⟨field, i.format, i.word⟩

/-- Bits 11-9, present in every format. -/
def rd (i : Instruction) : Register :=
  .ofBits (i.word.toNat / 512)

/-- Bits 8-6 as a register. -/
def bitsRs1 (i : Instruction) : Register :=
  .ofBits (i.word.toNat / 64)

/-- Bits 5-3 as a register. -/
def bitsRs2 (i : Instruction) : Register :=
  .ofBits (i.word.toNat / 8)

/-- Bits 5-0 as an immediate. -/
def bitsImm6 (i : Instruction) : BitVec 6 :=
  BitVec.ofNat 6 i.word.toNat

/-- Bits 7-0 as an immediate. -/
def bitsImm8 (i : Instruction) : BitVec 8 :=
  BitVec.ofNat 8 i.word.toNat

/-- The first source register of R and Imm6 instructions. -/
def rs1 (i : Instruction) : Except FieldAccess Register := do
  i.require .rs1
  return i.bitsRs1

/-- The second source register of R instructions. -/
def rs2 (i : Instruction) : Except FieldAccess Register := do
  i.require .rs2
  return i.bitsRs2

/-- The sub-function of R instructions. -/
def subfunction (i : Instruction) : Except FieldAccess Nat := do
  i.require .subfunction
  return i.word.toNat % 8

/-- The immediate of Imm6 instructions. -/
def imm6 (i : Instruction) : Except FieldAccess (BitVec 6) := do
  i.require .imm6
  return i.bitsImm6

/-- The immediate of Imm8 instructions. -/
def imm8 (i : Instruction) : Except FieldAccess (BitVec 8) := do
  i.require .imm8
  return i.bitsImm8

/-! ## Encoding -/

/-- The word with the given opcode bits, `rd` and low nine bits. -/
def compose (code : Nat) (rd : Register) (low : Nat) : Word :=
  BitVec.ofNat 16 (code * 4096 + rd.val * 512 + low)

theorem toNat_compose {code low : Nat} (rd : Register) (hc : code < 16) (hl : low < 512) :
    (compose code rd low).toNat = code * 4096 + rd.val * 512 + low := by
  have := rd.isLt
  simp only [compose, BitVec.toNat_ofNat]
  omega

theorem ofWord?_compose (op : Opcode) (rd : Register) {low : Nat} (hl : low < 512)
    (hs : ∀ n, op.subfunction? = some n → low % 8 = n) :
    Opcode.ofWord? (compose op.code rd low) = some op := by
  have hc := op.code_lt
  have hr := rd.isLt
  have hw := toNat_compose rd hc hl
  have h₁ : (compose op.code rd low).toNat / 4096 = op.code := by omega
  have h₂ : (compose op.code rd low).toNat % 8 = low % 8 := by omega
  unfold Opcode.ofWord?
  rw [h₁, h₂]
  exact Opcode.ofCode?_code op _ (by simpa using hs)

/-- An instruction on three registers.  Fields the instruction does not use are kept as given. -/
def ofRegisters (op : Opcode) (_h : op.format = .r) (rd rs1 rs2 : Register) : Instruction where
  opcode := op
  word := compose op.code rd (rs1.val * 64 + rs2.val * 8 + op.lowBits)
  decodes := by
    have h₁ := rs1.isLt
    have h₂ := rs2.isLt
    have h₃ := op.lowBits_lt
    refine ofWord?_compose op rd (by omega) ?_
    intro n hn
    have : op.lowBits = n := by simp [Opcode.lowBits, hn]
    omega

/-- An instruction on two registers and a 6-bit immediate. -/
def ofImm6 (op : Opcode) (h : op.format = .imm6) (rd rs1 : Register) (imm : BitVec 6) :
    Instruction where
  opcode := op
  word := compose op.code rd (rs1.val * 64 + imm.toNat)
  decodes := by
    have h₁ := rs1.isLt
    have h₂ := imm.isLt
    refine ofWord?_compose op rd (by omega) ?_
    simp [op.subfunction?_eq_none (h ▸ by decide)]

/-- An instruction on one register and an 8-bit immediate. -/
def ofImm8 (op : Opcode) (h : op.format = .imm8) (rd : Register) (imm : BitVec 8) :
    Instruction where
  opcode := op
  word := compose op.code rd imm.toNat
  decodes := by
    have h₁ := imm.isLt
    refine ofWord?_compose op rd (by omega) ?_
    simp [op.subfunction?_eq_none (h ▸ by decide)]

/-! ## Text -/

/-- An instruction as it is written in assembly. -/
def text (i : Instruction) : String :=
  let head := i.opcode.name ++ " " ++ i.rd.name
  match i.opcode with
  | .math .not | .jalr => head ++ ", " ++ i.bitsRs1.name
  | .math _ => head ++ ", " ++ i.bitsRs1.name ++ ", " ++ i.bitsRs2.name
  | .input | .output _ => head
  | .addi | .shf | .lw | .sw => head ++ ", " ++ i.bitsRs1.name ++ ", " ++ Immediate.text i.bitsImm6
  | .lli | .lui | .branch _ => head ++ ", " ++ Immediate.text i.bitsImm8

end Instruction

end AnnaToolchain
