import AnnaToolchain.Token.Basic

/-! # Quoted text

    A text stands between double quotes within one line.  A backslash starts
    an escape: `\n \r \t \\ \0 \"`; before any other character it stands for
    itself.  The closing quote is the first one that an even number of
    backslashes precedes. -/

namespace AnnaToolchain.Quotation

/-- The most characters a quoted text may have, so that it fits memory with its terminator. -/
def maxLength : Nat := 65534

/-- The index of the closing quote, looking no further than the line.  `escaped` says whether a
    backslash that is not itself escaped comes just before. -/
def closing? (escaped : Bool) (index : Nat) : List Char → Option Nat
  | [] => none
  | c :: cs =>
    if c = '\n' then none
    else if c = '"' ∧ escaped = false then some index
    else closing? (c == '\\' && !escaped) (index + 1) cs

/-! ## Escapes -/

/-- The characters an escape stands for: a backslash and the character `c`. -/
def resolve (c : Char) : List Char :=
  match c with
  | 'n' => ['\n']
  | 'r' => ['\r']
  | 't' => ['\t']
  | '\\' => ['\\']
  | '0' => ['\x00']
  | '"' => ['"']
  | c => ['\\', c]

/-- Takes one more character of quoted text: the resolved characters so far, last first, and
    whether a backslash is waiting for its character. -/
def resolveStep (state : List Char × Bool) (c : Char) : List Char × Bool :=
  if state.2 then ((resolve c).reverse ++ state.1, false)
  else if c = '\\' then (state.1, true)
  else (c :: state.1, false)

/-- Quoted text with its escapes resolved. -/
def unescape (cs : List Char) : List Char :=
  let state := cs.foldl resolveStep ([], false)
  (if state.2 then '\\' :: state.1 else state.1).reverse

/-- How a character is written within quotes. -/
def escapeChar (c : Char) : List Char :=
  match c with
  | '\n' => ['\\', 'n']
  | '\r' => ['\\', 'r']
  | '\t' => ['\\', 't']
  | '\\' => ['\\', '\\']
  | '\x00' => ['\\', '0']
  | '"' => ['\\', '"']
  | c => [c]

/-- Text as it is written within quotes. -/
def escape (cs : List Char) : List Char :=
  cs.flatMap escapeChar

/-- Text with quotes around it. -/
def quote (s : String) : String :=
  String.ofList ('"' :: escape s.toList ++ ['"'])

/-- The text of the characters between two quotes. -/
def read (cs : List Char) : Except LexError String :=
  let contents := unescape cs
  if contents.length ≤ maxLength then .ok (String.ofList contents) else .error .textTooLong

end AnnaToolchain.Quotation
