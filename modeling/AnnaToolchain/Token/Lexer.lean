import AnnaToolchain.Text.Line
import AnnaToolchain.Text.WordChar
import AnnaToolchain.Token.Number
import AnnaToolchain.Token.Quotation

/-! # Lexemes

    A line is read from left to right.  Spaces, tabs and carriage returns
    separate tokens and are skipped; at any other character the longest
    token that starts there is taken.  A number or name takes in all the
    word characters that follow, even ones that make it invalid, so that
    `23rst` is one bad number and not a number and a name. -/

namespace AnnaToolchain

/-- A token with its source text and its place. -/
structure Lexeme where
  token : Token
  /-- The source text of the token. -/
  text : String
  /-- The byte the token starts at. -/
  start : Nat
  deriving DecidableEq, Repr

namespace Lexeme

/-- The byte after the token. -/
def stop (l : Lexeme) : Nat :=
  l.start + l.text.utf8ByteSize

/-- The bytes of the token. -/
def span (l : Lexeme) : Span :=
  ⟨l.start, l.stop⟩

end Lexeme

/-- The first bad token of a text. -/
structure LexFailure where
  error : LexError
  span : Span
  deriving DecidableEq, Repr

/-- What a text was read as: its tokens, up to the first bad one if there is one. -/
structure Lexed where
  lexemes : List Lexeme
  failure : Option LexFailure
  deriving DecidableEq, Repr

namespace Token

/-- The characters that separate tokens. -/
def isGap (c : Char) : Bool :=
  c == ' ' || c == '\t' || c == '\r'

/-- The word characters at the front of a text. -/
def wordRun (cs : List Char) : List Char :=
  cs.takeWhile Text.isWordChar

/-- A name behind a sign, such as `&loop` or `.fill`. -/
def scanSigned (rest : List Char) (token : String → Token) : Nat × Except LexError Token :=
  match rest with
  | c :: _ =>
    if Text.isNameStart c then
      let name := wordRun rest
      (name.length, .ok (token (String.ofList name)))
    else (0, .error .unknownSymbol)
  | [] => (0, .error .unknownSymbol)

/-- A word: a register if it is `r` and digits, and a name otherwise. -/
def scanWord (c : Char) (rest : List Char) : Nat × Except LexError Token :=
  let run := wordRun rest
  if (c = 'r' ∨ c = 'R') ∧ run ≠ [] ∧ run.all Text.isDigit then
    (run.length, (readRegister run).map .register)
  else
    (run.length, .ok (.name (String.ofList (c :: run))))

/-- A quoted text, after its opening quote.  An unclosed one reaches to the end of its line. -/
def scanQuotation (rest : List Char) : Nat × Except LexError Token :=
  match Quotation.closing? false 0 rest with
  | some n => (n + 1, (Quotation.read (rest.take n)).map .text)
  | none => ((Text.restOfLine rest).length, .error .unclosedText)

/-- The token that starts with the character `c`, and how many of the characters after `c` belong
    to it. -/
def scan (c : Char) (rest : List Char) : Nat × Except LexError Token :=
  if c = ':' then (0, .ok .colon)
  else if c = ',' then (0, .ok .comma)
  else if c = '#' then
    let body := rest.takeWhile (· ≠ '\n')
    (body.length, .ok (.comment (String.ofList (Text.trimChars body))))
  else if c = '"' then scanQuotation rest
  else if c = '&' then scanSigned rest .label
  else if c = '.' then scanSigned rest .directive
  else if c = '-' then
    let run := wordRun rest
    (run.length, (readSigned run).map .signed)
  else if Text.isDigit c then
    let run := wordRun rest
    (run.length, (readUnsigned (c :: run)).map .unsigned)
  else if Text.isNameStart c then scanWord c rest
  else (0, .error .unknownSymbol)

/-- Reads on from the byte `start`, with the tokens so far, last first. -/
def lexFrom (start : Nat) (acc : List Lexeme) : List Char → Lexed
  | [] => ⟨acc.reverse, none⟩
  | c :: rest =>
    if isGap c then lexFrom (start + c.utf8Size) acc rest
    else
      let scanned := scan c rest
      let text := String.ofList (c :: rest.take scanned.1)
      match scanned.2 with
      | .ok token =>
        lexFrom (start + text.utf8ByteSize) (⟨token, text, start⟩ :: acc) (rest.drop scanned.1)
      | .error e => ⟨acc.reverse, some ⟨e, ⟨start, start + text.utf8ByteSize⟩⟩⟩
termination_by cs => cs.length
decreasing_by
  · simp only [List.length_cons]; omega
  · simp only [List.length_cons, List.length_drop]; omega

/-- The tokens of a text. -/
def lex (s : String) : Lexed :=
  lexFrom 0 [] s.toList

end Token

end AnnaToolchain
