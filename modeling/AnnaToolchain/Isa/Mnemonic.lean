import AnnaToolchain.Isa.Opcode

/-! # Mnemonics

    A statement starts with a real instruction, a pseudo-instruction that
    stands for one or two real ones, or a directive to the assembler.

    | pseudo-instruction | stands for                              |
    |--------------------|-----------------------------------------|
    | `mov rd, rs`       | `add rd, rs, r0`                        |
    | `halt`             | `out r0`                                |
    | `jmp rs`           | `jalr rs, r0`                           |
    | `br target`        | `beq r0, target`                        |
    | `push sp, rv`      | `sw rv, sp, 0`, `addi sp, sp, -1`       |
    | `pop sp, rv`       | `addi sp, sp, 1`, `lw rv, sp, 0`        |
    | `lwi rd, value`    | `lli rd, low byte`, `lui rd, high byte` | -/

namespace AnnaToolchain

/-- A pseudo-instruction. -/
inductive Pseudo where
  | mov | halt | jmp | br | push | pop | lwi
  deriving DecidableEq, Repr

namespace Pseudo

/-- Every pseudo-instruction. -/
def all : List Pseudo :=
  [.mov, .halt, .jmp, .br, .push, .pop, .lwi]

/-- The mnemonic of a pseudo-instruction. -/
def name : Pseudo → String
  | .mov => "mov"
  | .halt => "halt"
  | .jmp => "jmp"
  | .br => "br"
  | .push => "push"
  | .pop => "pop"
  | .lwi => "lwi"

/-- The number of operands a pseudo-instruction is written with. -/
def operandCount : Pseudo → Nat
  | .halt => 0
  | .jmp | .br => 1
  | .mov | .push | .pop | .lwi => 2

/-- The number of words a pseudo-instruction becomes. -/
def wordCount : Pseudo → Nat
  | .push | .pop | .lwi => 2
  | .mov | .halt | .jmp | .br => 1

end Pseudo

/-- A directive to the assembler: move the location counter, name a value, write words, write text,
    or name a register. -/
inductive Directive where
  | org | define | fill | cstr | ralias
  deriving DecidableEq, Repr

namespace Directive

/-- Every directive. -/
def all : List Directive :=
  [.org, .define, .fill, .cstr, .ralias]

/-- The mnemonic of a directive, with its dot. -/
def name : Directive → String
  | .org => ".org"
  | .define => ".def"
  | .fill => ".fill"
  | .cstr => ".cstr"
  | .ralias => ".ralias"

/-- The number of operands a directive takes. -/
def arity : Directive → Arity
  | .org | .define => .exactly 1
  | .fill | .cstr => .atLeastOne
  | .ralias => .exactly 2

end Directive

/-- What a statement can start with. -/
inductive Mnemonic where
  | real (op : Opcode)
  | pseudo (op : Pseudo)
  | directive (kind : Directive)
  deriving DecidableEq, Repr

namespace Mnemonic

/-- The mnemonic of a name, in any mix of ASCII case.  Directives are written with their dot, and
    `.halt` is another spelling of `halt`. -/
def ofName? (name : String) : Option Mnemonic :=
  let lower := name.toLower
  if lower == ".halt" then some (.pseudo .halt)
  else if lower.startsWith "." then
    (Directive.all.find? fun d => d.name == lower).map .directive
  else
    (Opcode.ofName? name).map Mnemonic.real <|>
      (Pseudo.all.find? fun p => p.name == lower).map .pseudo

/-- The one spelling a mnemonic is printed with. -/
def name : Mnemonic → String
  | .real op => op.name
  | .pseudo op => op.name
  | .directive kind => kind.name

/-- The number of operands of a mnemonic. -/
def arity : Mnemonic → Arity
  | .real op => .exactly op.operandCount
  | .pseudo op => .exactly op.operandCount
  | .directive kind => kind.arity

/-- The format of a mnemonic; pseudo-instructions have none. -/
def format? : Mnemonic → Option Format
  | .real op => some op.format
  | .pseudo _ => none
  | .directive _ => some .directive

end Mnemonic

end AnnaToolchain
