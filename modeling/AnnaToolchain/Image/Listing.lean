import AnnaToolchain.Image.Basic
import AnnaToolchain.Text.Line

/-! # Listings

    The text form of an image.  An origin line, a colon and an address, says
    where the words after it go; all numbers are hexadecimal.  Blank lines,
    and comments from `#` to the end of a line, mean nothing.  Words before
    any origin go to address `0`.

    A listing keeps the words of an image and nothing else. -/

namespace AnnaToolchain.Image

/-! ## Writing -/

/-- The lines of a block: its origin, and its words, eight on a line. -/
def blockLines (block : Word × List Word) : List String :=
  (":" ++ block.1.hex) ::
    (chunks 7 block.2).map fun line => String.intercalate " " (line.map Word.hex)

/-- The listing of an image. -/
def listing (image : Image) : String :=
  String.join ((image.blocks.flatMap blockLines).map (· ++ "\n"))

/-! ## Reading -/

/-- The word of one to four hexadecimal digits. -/
def hexWord? (cs : List Char) : Option Word :=
  if 1 ≤ cs.length ∧ cs.length ≤ 4 then (Text.valueOf? 16 cs).map (BitVec.ofNat 16) else none

/-- An image as far as its listing has been read, and the address the next word goes to.  That may
    be one past the last address. -/
structure ListingState where
  image : Image
  cursor : Nat

/-- Reads one word. -/
def readWord (line : Nat) (state : ListingState) (token : List Char) :
    Except ImageError ListingState :=
  match hexWord? token with
  | none => .error (.badWord line (String.ofList token))
  | some word =>
    if state.cursor < maxMemory then
      match state.image.write (BitVec.ofNat 16 state.cursor) word with
      | .ok image => .ok ⟨image, state.cursor + 1⟩
      | .error e => .error e
    else .error (.tooLarge line)

/-- What counts of a line: no comment, and no white space at either end. -/
def lineContent (line : List Char) : List Char :=
  Text.trimChars (line.takeWhile (· ≠ '#'))

/-- Reads the line of the given number. -/
def readLine (state : ListingState) (line : List Char × Nat) : Except ImageError ListingState :=
  match lineContent line.1 with
  | [] => .ok state
  | ':' :: origin =>
    match hexWord? (Text.trimChars origin) with
    | some address => .ok { state with cursor := address.toNat }
    | none => .error (.badOrigin line.2 (String.ofList (':' :: origin)))
  | content => (Text.fields content).foldlM (readWord line.2) state

/-- The image of a listing. -/
def ofListing (text : String) : Except ImageError Image := do
  let state ← ((Text.lineChars text.toList).zipIdx 1).foldlM readLine ⟨empty maxMemory, 0⟩
  return state.image

end AnnaToolchain.Image
