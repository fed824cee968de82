/-! # Machine instructions

    The table of real instructions.  The math and the output instructions
    share one numeric opcode each and are told apart by a sub-function, so
    they carry it.

    | code       | names                             | format |
    |------------|-----------------------------------|--------|
    | `0`        | `add sub and or not mul div mod`  | R      |
    | `1`        | `jalr`                            | R      |
    | `2`        | `in`                              | R      |
    | `3` - `6`  | `addi shf lw sw`                  | Imm6   |
    | `7`, `8`   | `lli lui`                         | Imm8   |
    | `9` - `14` | `beq bne bgt bge blt ble`         | Imm8   |
    | `15`       | `out outs outn`                   | R      | -/

namespace AnnaToolchain

/-! ## Formats and operand counts -/

/-- How the twelve bits below the opcode are laid out:

    ```text
    R         rd 11-9, rs1 8-6, rs2 5-3, sub-function 2-0
    Imm6      rd 11-9, rs1 8-6, immediate 5-0
    Imm8      rd 11-9, immediate 7-0
    ```

    Directives have no machine word and a format of their own. -/
inductive Format where
  | r
  | imm6
  | imm8
  | directive
  deriving DecidableEq, Repr

namespace Format

/-- The name of a format. -/
def name : Format → String
  | .r => "R"
  | .imm6 => "Imm6"
  | .imm8 => "Imm8"
  | .directive => "directive"

/-- The fields an instruction of a format has. -/
def fields : Format → String
  | .r => "rd, rs1, rs2, subfunc"
  | .imm6 => "rd, rs1, imm6"
  | .imm8 => "rd, imm8"
  | .directive => "none"

end Format

/-- How many operands a mnemonic takes. -/
inductive Arity where
  | exactly (n : Nat)
  | atLeastOne
  deriving DecidableEq, Repr

namespace Arity

/-- Whether `n` operands are the right number. -/
def accepts : Arity → Nat → Bool
  | .exactly m, n => n == m
  | .atLeastOne, n => 1 ≤ n

/-- The arity as shown in messages. -/
def text : Arity → String
  | .exactly n => toString n
  | .atLeastOne => "at least 1"

end Arity

/-! ## Operations -/

/-- The arithmetic and logic operations. -/
inductive MathOp where
  | add | sub | and | or | not | mul | div | mod
  deriving DecidableEq, Repr

/-- What an output instruction writes: a number, the text at an address, or a number and a line
    end. -/
inductive OutputKind where
  | number | text | line
  deriving DecidableEq, Repr

/-- The conditions of a branch, each on the sign of one register. -/
inductive Condition where
  | eq | ne | gt | ge | lt | le
  deriving DecidableEq, Repr

/-- Whether a branch is taken for a register holding `n`. -/
def Condition.holds : Condition → Int → Bool
  | .eq, n => n == 0
  | .ne, n => n != 0
  | .gt, n => n > 0
  | .ge, n => n ≥ 0
  | .lt, n => n < 0
  | .le, n => n ≤ 0

/-- A real machine instruction. -/
inductive Opcode where
  | math (op : MathOp)
  | jalr
  | input
  | addi | shf | lw | sw
  | lli | lui
  | branch (cond : Condition)
  | output (kind : OutputKind)
  deriving DecidableEq, Repr

/-! ## The table -/

namespace MathOp

/-- The sub-function bits of a math instruction. -/
def subfunction : MathOp → Nat
  | .add => 0 | .sub => 1 | .and => 2 | .or => 3
  | .not => 4 | .mul => 5 | .div => 6 | .mod => 7

/-- The operation of three sub-function bits. -/
def ofSubfunction (n : Nat) : MathOp :=
  match n % 8 with
  | 0 => .add | 1 => .sub | 2 => .and | 3 => .or
  | 4 => .not | 5 => .mul | 6 => .div | _ => .mod

/-- The mnemonic of a math instruction. -/
def name : MathOp → String
  | .add => "add" | .sub => "sub" | .and => "and" | .or => "or"
  | .not => "not" | .mul => "mul" | .div => "div" | .mod => "mod"

@[simp] theorem ofSubfunction_subfunction (op : MathOp) :
    ofSubfunction op.subfunction = op := by
  cases op <;> rfl

end MathOp

namespace OutputKind

/-- The sub-function bits of an output instruction. -/
def subfunction : OutputKind → Nat
  | .number => 0 | .text => 1 | .line => 2

/-- The output of three sub-function bits; five of the eight have none. -/
def ofSubfunction? (n : Nat) : Option OutputKind :=
  match n % 8 with
  | 0 => some .number | 1 => some .text | 2 => some .line | _ => none

/-- The mnemonic of an output instruction. -/
def name : OutputKind → String
  | .number => "out" | .text => "outs" | .line => "outn"

@[simp] theorem ofSubfunction?_subfunction (kind : OutputKind) :
    ofSubfunction? kind.subfunction = some kind := by
  cases kind <;> rfl

end OutputKind

namespace Condition

/-- The opcode of a branch. -/
def code : Condition → Nat
  | .eq => 9 | .ne => 10 | .gt => 11 | .ge => 12 | .lt => 13 | .le => 14

/-- The mnemonic of a branch. -/
def name : Condition → String
  | .eq => "beq" | .ne => "bne" | .gt => "bgt" | .ge => "bge" | .lt => "blt" | .le => "ble"

end Condition

namespace Opcode

/-- Every real instruction, in the order of the table. -/
def all : List Opcode :=
  [.math .add, .math .sub, .math .and, .math .or, .math .not, .math .mul, .math .div, .math .mod,
   .jalr, .input, .addi, .shf, .lw, .sw, .lli, .lui,
   .branch .eq, .branch .ne, .branch .gt, .branch .ge, .branch .lt, .branch .le,
   .output .number, .output .text, .output .line]

/-- The four opcode bits. -/
def code : Opcode → Nat
  | .math _ => 0
  | .jalr => 1
  | .input => 2
  | .addi => 3
  | .shf => 4
  | .lw => 5
  | .sw => 6
  | .lli => 7
  | .lui => 8
  | .branch cond => cond.code
  | .output _ => 15

/-- The sub-function of the instructions that share an opcode. -/
def subfunction? : Opcode → Option Nat
  | .math op => some op.subfunction
  | .output kind => some kind.subfunction
  | _ => none

/-- The layout of an instruction's word. -/
def format : Opcode → Format
  | .math _ | .jalr | .input | .output _ => .r
  | .addi | .shf | .lw | .sw => .imm6
  | .lli | .lui | .branch _ => .imm8

/-- The number of operands an instruction is written with. -/
def operandCount : Opcode → Nat
  | .math .not => 2
  | .math _ => 3
  | .jalr => 2
  | .input | .output _ => 1
  | .addi | .shf | .lw | .sw => 3
  | .lli | .lui | .branch _ => 2

/-- The mnemonic of an instruction. -/
def name : Opcode → String
  | .math op => op.name
  | .jalr => "jalr"
  | .input => "in"
  | .addi => "addi"
  | .shf => "shf"
  | .lw => "lw"
  | .sw => "sw"
  | .lli => "lli"
  | .lui => "lui"
  | .branch cond => cond.name
  | .output kind => kind.name

/-- The instruction of a mnemonic, in any mix of ASCII case. -/
def ofName? (name : String) : Option Opcode :=
  all.find? fun op => op.name == name.toLower

/-- The instruction of an opcode and the three low bits of its word.  Those bits count only where
    the opcode is shared. -/
def ofCode? (code subfunction : Nat) : Option Opcode :=
  match code % 16 with
  | 0 => some (.math (.ofSubfunction subfunction))
  | 1 => some .jalr
  | 2 => some .input
  | 3 => some .addi
  | 4 => some .shf
  | 5 => some .lw
  | 6 => some .sw
  | 7 => some .lli
  | 8 => some .lui
  | 9 => some (.branch .eq)
  | 10 => some (.branch .ne)
  | 11 => some (.branch .gt)
  | 12 => some (.branch .ge)
  | 13 => some (.branch .lt)
  | 14 => some (.branch .le)
  | _ => (OutputKind.ofSubfunction? subfunction).map .output

theorem code_lt (op : Opcode) : op.code < 16 := by
  cases op with
  | branch cond => cases cond <;> decide
  | _ => simp [code]

/-- An instruction is found again under its code, with any low bits unless it shares the code. -/
theorem ofCode?_code (op : Opcode) (low : Nat) (h : ∀ n, op.subfunction? = some n → low % 8 = n) :
    ofCode? op.code low = some op := by
  cases op with
  | math f =>
    have hl := h _ rfl
    have : MathOp.ofSubfunction low = f := by
      cases f <;> simp_all [MathOp.ofSubfunction, MathOp.subfunction]
    simp [ofCode?, code, this]
  | output k =>
    have hl := h _ rfl
    have : OutputKind.ofSubfunction? low = some k := by
      cases k <;> simp_all [OutputKind.ofSubfunction?, OutputKind.subfunction]
    simp [ofCode?, code, this]
  | branch cond => cases cond <;> rfl
  | _ => rfl

end Opcode

end AnnaToolchain
