import AnnaToolchain.Token.Lexer

/-! # Operands

    An operand is one token: a number, a register, a label that is referred
    to, or a quoted text.  Which of these it is depends on its text alone. -/

namespace AnnaToolchain

/-- An operand of a statement. -/
inductive Operand where
  | signed (value : Word)
  | unsigned (value : Word)
  | register (reg : Register)
  | label (name : String)
  | text (contents : String)
  deriving DecidableEq, Repr

namespace Operand

/-- What kind of operand this is, for messages. -/
def kind : Operand → String
  | .signed _ => "signed integer"
  | .unsigned _ => "unsigned integer"
  | .register _ => "register"
  | .label _ => "label"
  | .text _ => "string"

/-- An operand as it is written: numbers in decimal, text with escapes. -/
def source : Operand → String
  | .signed value => value.signedText
  | .unsigned value => toString value.toNat
  | .register reg => reg.name
  | .label name => "&" ++ name
  | .text contents => Quotation.quote contents

end Operand

/-! ## Errors -/

/-- Why a text is no operand, or not of the kind that is needed. -/
inductive OperandError where
  /-- The text, without white space around it, starts with a bad token. -/
  | badToken (text : String) (error : LexError)
  /-- There is nothing in the text. -/
  | missing
  /-- The text, without white space around it, is not one token that can be an operand. -/
  | notAnOperand (text : String)
  /-- An operand of the kind `expected` was needed. -/
  | mismatch (expected : String) (found : Operand)
  deriving DecidableEq, Repr

namespace OperandError

/-- The brief message. -/
def message : OperandError → String
  | .badToken text error => "invalid operand `" ++ text ++ "`: " ++ error.message
  | .missing => "missing operand"
  | .notAnOperand text => "`" ++ text ++ "` is not an operand"
  | .mismatch expected found =>
      "expected " ++ expected ++ " operand, found `" ++ found.source ++ "`"

/-- Advice, where there is any. -/
def help? : OperandError → Option String
  | .badToken _ error => some error.help
  | .missing => none
  | .notAnOperand _ => some "label references start with '&' and registers are r0-r7"
  | .mismatch expected found =>
      some ("this operand is a " ++ found.kind ++ ", but a " ++ expected ++ " is needed here")

/-- The error as shown to a user. -/
def diagnostic (e : OperandError) : Diagnostic :=
  { message := e.message, help := e.help? }

end OperandError

namespace Operand

/-! ## Reading -/

/-- The operand a token is, if it can be one. -/
def ofToken? : Token → Option Operand
  | .unsigned value => some (.unsigned value)
  | .signed value => some (.signed value)
  | .register reg => some (.register reg)
  | .label name => some (.label name)
  | .text contents => some (.text contents)
  | _ => none

/-- The operand of a text.  Only the first token is checked; that something follows it is reason
    enough to refuse the text. -/
def parse (text : String) : Except OperandError Operand :=
  match Token.lex text with
  | ⟨[], none⟩ => .error .missing
  | ⟨[], some failure⟩ => .error (.badToken (Text.trim text) failure.error)
  | ⟨[lexeme], none⟩ =>
    match ofToken? lexeme.token with
    | some operand => .ok operand
    | none => .error (.notAnOperand (Text.trim text))
  | _ => .error (.notAnOperand (Text.trim text))

/-! ## Views

    Each view reads one kind of operand, and none reads another kind. -/

/-- The register of a register operand. -/
def asRegister : Operand → Except OperandError Register
  | .register reg => .ok reg
  | found => .error (.mismatch "register" found)

/-- The value of a number with a minus sign. -/
def asSigned : Operand → Except OperandError Int
  | .signed value => .ok value.toInt
  | found => .error (.mismatch "signed integer" found)

/-- The value of a number without sign. -/
def asUnsigned : Operand → Except OperandError Nat
  | .unsigned value => .ok value.toNat
  | found => .error (.mismatch "unsigned integer" found)

/-- The value of either kind of number, from `-32768` to `65535`. -/
def asInt : Operand → Except OperandError Int
  | .signed value => .ok value.toInt
  | .unsigned value => .ok value.toNat
  | found => .error (.mismatch "integer" found)

/-- The name of a label operand. -/
def asLabel : Operand → Except OperandError String
  | .label name => .ok name
  | found => .error (.mismatch "label" found)

/-- The contents of a text operand. -/
def asText : Operand → Except OperandError String
  | .text contents => .ok contents
  | found => .error (.mismatch "string" found)

/-- The word of a text that is a number; negative numbers wrap. -/
def parseWord (text : String) : Except OperandError Word := do
  let operand ← parse text
  return Word.ofInt (← operand.asInt)

end Operand

end AnnaToolchain
