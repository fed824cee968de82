import AnnaToolchain.Register
import AnnaToolchain.Word

/-! # Tokens

    The units of assembly text, and what can be wrong with one. -/

namespace AnnaToolchain

/-- A unit of assembly text. -/
inductive Token where
  /-- A number without sign: `9`, `0x7F`, `0b101`. -/
  | unsigned (value : Word)
  /-- A number behind a minus sign. -/
  | signed (value : Word)
  /-- A register, `r0` to `r7`. -/
  | register (reg : Register)
  /-- A label that is referred to: `&loop`. -/
  | label (name : String)
  /-- A name: a label being defined, a mnemonic, or another name of a register. -/
  | name (name : String)
  /-- A directive, without its dot. -/
  | directive (name : String)
  /-- A text between double quotes, with its escapes resolved. -/
  | text (contents : String)
  | colon
  | comma
  /-- A comment, without its `#` and the white space around it. -/
  | comment (contents : String)
  deriving DecidableEq, Repr

/-- What is wrong with a token. -/
inductive LexError where
  /-- A number without sign above `65535`. -/
  | unsignedTooBig
  /-- A number behind a minus sign above `32768`. -/
  | signedTooBig
  | badHexDigit
  | badBinaryDigit
  | badDecimalDigit
  /-- Nothing follows `0x` or `0b`. -/
  | noDigitsAfterBase
  /-- Nothing follows the minus sign. -/
  | noDigits
  /-- The line ends before the closing quote. -/
  | unclosedText
  /-- A text of more than `65534` characters. -/
  | textTooLong
  /-- A register number above seven. -/
  | badRegister
  /-- A character no token starts with. -/
  | unknownSymbol
  deriving DecidableEq, Repr

namespace LexError

/-- The brief message. -/
def message : LexError → String
  | .unsignedTooBig => "numeric token does not fit 16-bit unsigned integer"
  | .signedTooBig => "numeric token does not fit 16-bit signed integer"
  | .badHexDigit => "invalid hex literal"
  | .badBinaryDigit => "invalid binary literal"
  | .badDecimalDigit => "invalid decimal literal"
  | .noDigitsAfterBase => "missing digits after radix prefix"
  | .noDigits => "invalid decimal literal"
  | .unclosedText => "unclosed string literal"
  | .textTooLong => "string literal is too large"
  | .badRegister => "invalid register"
  | .unknownSymbol => "unrecognized symbol"

/-- What a correct token looks like. -/
def help : LexError → String
  | .unsignedTooBig => "the range for a 16-bit unsigned integer is [0, 65535]"
  | .signedTooBig => "the range for a 16-bit signed integer is [-32768, 32767]"
  | .badHexDigit => "a hex literal starts with '0x' and consists of 0-9, A-F"
  | .badBinaryDigit => "a binary literal starts with '0b' and consists of 0 and 1"
  | .badDecimalDigit => "a decimal literal only consists of digits 0-9"
  | .noDigitsAfterBase => "there should be digits after the radix prefix"
  | .noDigits => "there should be digits (0-9) here"
  | .unclosedText => "add a quote to the end of the string literal"
  | .textTooLong => "string literals are limited to at most 65534 characters"
  | .badRegister => "this must be r0-r7"
  | .unknownSymbol => "this char does not occur in any token in ANNA assembly"

/-- The error as shown to a user. -/
def diagnostic (e : LexError) : Diagnostic :=
  { message := e.message, help := some e.help }

end LexError

end AnnaToolchain
