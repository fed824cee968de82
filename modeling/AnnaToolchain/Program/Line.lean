import AnnaToolchain.Program.Statement
import AnnaToolchain.Token.Lexer

/-! # Lines of a program

    Each line is blank, or holds only a comment, or only labels, or a
    statement:

    ```text
    {label ":"} [mnemonic {operand [","]} ] ["#" comment]
    ```

    Operands are separated by white space, by a comma or by both; there is
    no comma before the first operand, after the last one, or next to
    another comma. -/

namespace AnnaToolchain

/-! ## Errors -/

/-- A token that has no place after a mnemonic. -/
inductive Misplaced where
  | comma | colon | directive | trailingComma
  deriving DecidableEq, Repr

/-- The name of a misplaced token in messages. -/
def Misplaced.name : Misplaced → String
  | .comma => "comma"
  | .colon => "colon"
  | .directive => "directive"
  | .trailingComma => "trailing comma"

/-- Why a line cannot be read. -/
inductive ParseCause where
  /-- A token is bad. -/
  | badToken (error : LexError)
  /-- The statement's name is no mnemonic. -/
  | unknownMnemonic (name : String)
  /-- The line starts with a token that starts no statement. -/
  | expectedMnemonic
  /-- A token stands where it may not. -/
  | unexpected (token : Misplaced)
  deriving DecidableEq, Repr

namespace ParseCause

/-- The brief message. -/
def message : ParseCause → String
  | .badToken error => error.message
  | .unknownMnemonic name => "unknown mnemonic `" ++ name ++ "`"
  | .expectedMnemonic => "expected a label or mnemonic"
  | .unexpected token => "unexpected " ++ token.name

/-- Advice, where there is any. -/
def help? : ParseCause → Option String
  | .badToken error => some error.help
  | .unknownMnemonic _ => some "directives start with '.' (e.g., .fill)"
  | .expectedMnemonic =>
      some "a statement is an optional `label:` followed by a mnemonic and its operands"
  | .unexpected _ => none

end ParseCause

/-- What is wrong with a line, and where in it. -/
structure LineFault where
  cause : ParseCause
  span : Span
  deriving DecidableEq, Repr

/-- What is wrong with a program: the first faulty line. -/
structure ParseError extends LineFault where
  /-- The line, counted from one. -/
  line : Nat
  /-- The text of the line. -/
  text : String
  deriving DecidableEq, Repr

/-- The error as shown to a user. -/
def ParseError.diagnostic (e : ParseError) : Diagnostic :=
  { message := "line " ++ toString e.line ++ ": " ++ e.cause.message
    help := e.cause.help?
    line := some e.line
    span := some e.span }

/-! ## Reading a line -/

/-- What a line holds. -/
inductive SourceLine where
  | blank
  | comment (contents : String)
  | labels (names : List String) (comment : Option String)
  | statement (s : Statement)
  deriving DecidableEq, Repr

namespace SourceLine

/-- The labels a line starts with, and the tokens after them. -/
def takeLabels : List Lexeme → List String × List Lexeme
  | ⟨.name name, _, _⟩ :: ⟨.colon, _, _⟩ :: rest =>
    let taken := takeLabels rest
    (name :: taken.1, taken.2)
  | rest => ([], rest)

/-- The mnemonic a token stands for, spelled `name`. -/
def mnemonic (name : String) (lexeme : Lexeme) : Except LineFault Mnemonic :=
  match Mnemonic.ofName? name with
  | some op => .ok op
  | none => .error ⟨.unknownMnemonic name, lexeme.span⟩

/-- The operands of a statement, as far as they have been read. -/
structure Tail where
  /-- The source texts of the operands, last first. -/
  operands : List String := []
  comment : Option String := none
  /-- Whether a comma has been read and the operand after it has not. -/
  afterComma : Bool := false

/-- Reads one more token after the mnemonic. -/
def Tail.add (tail : Tail) (lexeme : Lexeme) : Except LineFault Tail :=
  match lexeme.token with
  | .comma =>
    if tail.operands = [] ∨ tail.afterComma then .error ⟨.unexpected .comma, lexeme.span⟩
    else .ok { tail with afterComma := true }
  | .colon => .error ⟨.unexpected .colon, lexeme.span⟩
  | .directive _ => .error ⟨.unexpected .directive, lexeme.span⟩
  | .comment contents => .ok { tail with comment := some contents }
  | _ => .ok { tail with operands := lexeme.text :: tail.operands, afterComma := false }

/-- Reads a statement whose mnemonic is known.  `stop` is the byte after the line's last character
    that is no white space. -/
def readStatement (labels : List String) (op : Mnemonic) (rest : List Lexeme) (stop : Nat) :
    Except LineFault SourceLine := do
  let tail ← rest.foldlM Tail.add {}
  if tail.afterComma then
    throw ⟨.unexpected .trailingComma, ⟨stop, stop⟩⟩
  return .statement
    { labels := labels, op := some op, operands := tail.operands.reverse, comment := tail.comment }

/-- Reads the tokens of a line. -/
def ofLexemes (lexemes : List Lexeme) (stop : Nat) : Except LineFault SourceLine :=
  let taken := takeLabels lexemes
  let labels := taken.1
  match taken.2 with
  | [] => .ok (if labels = [] then .blank else .labels labels none)
  | [⟨.comment contents, _, _⟩] =>
    .ok (if labels = [] then .comment contents else .labels labels (some contents))
  | lexeme :: rest =>
    match lexeme.token with
    | .name name => do readStatement labels (← mnemonic name lexeme) rest stop
    | .directive name => do readStatement labels (← mnemonic ("." ++ name) lexeme) rest stop
    | _ => .error ⟨.expectedMnemonic, lexeme.span⟩

/-- Reads a line.  A bad token counts before anything else that is wrong. -/
def read (text : String) : Except LineFault SourceLine :=
  let lexed := Token.lex text
  match lexed.failure with
  | some failure => .error ⟨.badToken failure.error, failure.span⟩
  | none => ofLexemes lexed.lexemes (Text.trimEnd text).utf8ByteSize

end SourceLine

end AnnaToolchain
