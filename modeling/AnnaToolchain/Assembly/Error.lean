import AnnaToolchain.Immediate
import AnnaToolchain.Operand
import AnnaToolchain.Program.Statement
import AnnaToolchain.Text.Quoted

/-! # Errors of assembly

    What can be wrong with a statement, and which statement it was. -/

namespace AnnaToolchain

/-- Why a statement cannot be assembled. -/
inductive AssemblyCause where
  /-- The mnemonic takes another number of operands. -/
  | operandCount (op : Mnemonic) (found : Nat)
  | operand (error : OperandError)
  | range (error : RangeError)
  /-- A text holds a character above U+FFFF. -/
  | charOutOfRange (c : Char)
  | duplicateLabel (label : String)
  /-- A label stands on `.org`. -/
  | labelOnOrg
  /-- No label stands on `.def`. -/
  | defineWithoutLabel
  /-- A text is no register, or no name for one. -/
  | badAlias (text : String)
  /-- Two statements write one address. -/
  | overlap (address : Word)
  /-- A word or an origin lies past the end of memory. -/
  | outOfMemory (address : Nat)
  /-- A label is referred to and not defined. -/
  | unresolvedLabel (label : String)
  /-- A branch does not reach its target. -/
  | branchTooFar (label : String) (offset : Int)
  /-- A label stands where no address can be put. -/
  | labelNotAllowed (label : String)
  deriving DecidableEq, Repr

namespace AssemblyCause

/-- The brief message. -/
def message : AssemblyCause → String
  | .operandCount op found =>
      op.name ++ " expects " ++ op.arity.text ++ " operand(s), found " ++ toString found
  | .operand error => error.message
  | .range error => error.message
  | .charOutOfRange c => "character " ++ Text.quoteAstral c ++ " does not fit in 16 bits"
  | .duplicateLabel label => "label `" ++ label ++ "` was defined multiple times"
  | .labelOnOrg => "labels cannot be placed on .org"
  | .defineWithoutLabel => ".def requires a label"
  | .badAlias text => "invalid register alias `" ++ text ++ "`"
  | .overlap address => "address " ++ address.text ++ " was written more than once"
  | .outOfMemory address => "address 0x" ++ Text.paddedHex 4 address ++ " is outside of memory"
  | .unresolvedLabel label => "label `" ++ label ++ "` could not be found"
  | .branchTooFar label offset =>
      "branch to `" ++ label ++ "` is too far (" ++ toString offset ++ " words)"
  | .labelNotAllowed label => "label `" ++ label ++ "` cannot be used here"

/-- Advice, where there is any. -/
def help? : AssemblyCause → Option String
  | .operandCount _ _ => none
  | .operand error => error.help?
  | .range error => some error.help
  | .charOutOfRange _ => some "strings can only hold characters from U+0000 to U+FFFF"
  | .duplicateLabel _ =>
      some "labels must be unique within a program, try renaming one of the labels"
  | .labelOnOrg => some "try moving this label to the statement after the .org"
  | .defineWithoutLabel => some "try adding a label before .def (e.g., `size: .def 10`)"
  | .badAlias _ =>
      some "the form is `.ralias rN alias`, where the alias is a name other than r0-r7"
  | .overlap _ => some "try moving the .org of one of these regions"
  | .outOfMemory _ => some "the program does not fit in memory"
  | .unresolvedLabel _ => some "try adding this label before an instruction or directive"
  | .branchTooFar _ _ =>
      some ("branches can reach 128 words back and 127 words forward; "
        ++ "try a jalr through a register loaded with lwi")
  | .labelNotAllowed _ => some "labels can only be used in branches, lli, lui, and lwi"

end AssemblyCause

/-- Why a program cannot be assembled. -/
structure AssemblyError where
  /-- The source line of the statement at fault; zero if it came from no source. -/
  line : Nat
  /-- The text of the statement at fault. -/
  text : String
  cause : AssemblyCause
  deriving DecidableEq, Repr

namespace AssemblyError

/-- An error of the given statement. -/
def on (s : Statement) (cause : AssemblyCause) : AssemblyError :=
  ⟨s.line, s.text, cause⟩

/-- The error as shown to a user: by its line, or without one by the text of the statement. -/
def diagnostic (e : AssemblyError) : Diagnostic :=
  if e.line = 0 then
    { message := e.cause.message ++ " (in `" ++ e.text ++ "`)", help := e.cause.help? }
  else
    { message := "line " ++ toString e.line ++ ": " ++ e.cause.message
      help := e.cause.help?
      line := some e.line }

end AssemblyError

end AnnaToolchain
