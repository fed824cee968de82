import AnnaToolchain.Diagnostic
import AnnaToolchain.SymbolTable

/-! # Memory images

    An image holds the words a program wrote, by address; an address the
    program did not write is not in it.  It also holds the length of the
    memory it was made for and the symbol table. -/

namespace AnnaToolchain

/-- An assembled program. -/
structure Image where
  /-- The words that were written. -/
  words : Std.ExtTreeMap Word Word
  /-- The number of words of the memory the image was made for. -/
  memLen : Nat
  symbols : SymbolTable
  memLen_pos : 0 < memLen
  memLen_le : memLen ≤ maxMemory
  deriving DecidableEq

namespace Image

/-- An image without words, for a memory of `len` words or the nearest length there can be. -/
def empty (len : Nat) : Image where
  words := ∅
  memLen := clampMemory len
  symbols := ∅
  memLen_pos := clampMemory_pos len
  memLen_le := clampMemory_le len

/-- The word written at an address. -/
def get? (image : Image) (address : Word) : Option Word :=
  image.words[address]?

/-- Writes a word in place of what was there. -/
def set (image : Image) (address word : Word) : Image :=
  { image with words := image.words.insert address word }

/-- Writes a word where there was none. -/
def write? (image : Image) (address word : Word) : Option Image :=
  match image.get? address with
  | none => some (image.set address word)
  | some _ => none

/-- The addresses written and their words, in address order. -/
def toList (image : Image) : List (Word × Word) :=
  image.words.toList

/-- The number of words written. -/
def wordCount (image : Image) : Nat :=
  image.words.size

/-- Whether no word was written. -/
def isEmpty (image : Image) : Bool :=
  image.words.isEmpty

@[simp] theorem get?_empty (len : Nat) (address : Word) : (empty len).get? address = none := by
  simp [empty, get?]

theorem get?_set (image : Image) (address word a : Word) :
    (image.set address word).get? a = if address = a then some word else image.get? a := by
  simp [set, get?, Std.ExtTreeMap.getElem?_insert]

@[simp] theorem get?_set_self (image : Image) (address word : Word) :
    (image.set address word).get? address = some word := by
  simp [get?_set]

@[simp] theorem get?_set_ne (image : Image) {address a : Word} (word : Word) (h : address ≠ a) :
    (image.set address word).get? a = image.get? a := by
  simp [get?_set, h]

theorem write?_eq_some_iff {image image' : Image} {address word : Word} :
    image.write? address word = some image' ↔
      image.get? address = none ∧ image' = image.set address word := by
  unfold write?
  split
  · next h => simp [h, eq_comm]
  · next h => simp [h]

/-! ## Blocks -/

/-- Puts a word in front of the blocks after it: into the first one if that starts at the next
    address. -/
def addToBlocks (entry : Word × Word) (blocks : List (Word × List Word)) :
    List (Word × List Word) :=
  match blocks with
  | (start, block) :: rest =>
    if start.toNat = entry.1.toNat + 1 then (entry.1, entry.2 :: block) :: rest
    else (entry.1, [entry.2]) :: (start, block) :: rest
  | [] => [(entry.1, [entry.2])]

/-- The longest runs of words at consecutive addresses, each with the address it starts at. -/
def blocks (image : Image) : List (Word × List Word) :=
  image.toList.foldr addToBlocks []

/-- A list cut into parts of `n + 1` elements, the last one perhaps shorter. -/
def chunks {α : Type} (n : Nat) (xs : List α) : List (List α) :=
  if xs = [] then [] else xs.take (n + 1) :: chunks n (xs.drop (n + 1))
termination_by xs.length
decreasing_by
  cases xs with
  | nil => contradiction
  | cons x xs => simp only [List.length_drop, List.length_cons]; omega

end Image

/-! ## Errors of the stored forms -/

/-- Why a stored image cannot be read. -/
inductive ImageError where
  /-- A word is not one to four hexadecimal digits. -/
  | badWord (line : Nat) (text : String)
  /-- An origin is not a colon and one to four hexadecimal digits. -/
  | badOrigin (line : Nat) (text : String)
  /-- A word comes after the last address. -/
  | tooLarge (line : Nat)
  /-- An address has two words. -/
  | overlap (address : Word)
  /-- The file does not start as an image does, or a label in it is no text or not new. -/
  | badHeader
  /-- The file ends within a block. -/
  | truncated
  /-- A block is of no known kind. -/
  | unknownBlock (kind : UInt8)
  deriving DecidableEq, Repr

namespace ImageError

/-- The brief message. -/
def message : ImageError → String
  | .badWord line text => "line " ++ toString line ++ ": invalid word `" ++ text ++ "`"
  | .badOrigin line text => "line " ++ toString line ++ ": invalid origin `" ++ text ++ "`"
  | .tooLarge line => "line " ++ toString line ++ ": words continue past the end of memory"
  | .overlap address => "address " ++ address.text ++ " was written more than once"
  | .badHeader => "missing or unsupported image header"
  | .truncated => "image ended unexpectedly"
  | .unknownBlock kind =>
      "unknown block kind 0x" ++ String.ofList (Text.fixedHex 2 kind.toNat)

/-- Advice, where there is any. -/
def help? : ImageError → Option String
  | .badWord _ _ => some "words are written as hex without a prefix (e.g., F000)"
  | .badOrigin _ _ =>
      some "origins are written as `:` followed by a hex address (e.g., :0100)"
  | .tooLarge _ => some "the last address of memory is FFFF"
  | .overlap _ => none
  | .badHeader => some "this file may not be a binary memory image"
  | .truncated => some "this file may have been cut off"
  | .unknownBlock _ => none

/-- The line at fault, in the text form. -/
def line? : ImageError → Option Nat
  | .badWord line _ => some line
  | .badOrigin line _ => some line
  | .tooLarge line => some line
  | _ => none

/-- The error as shown to a user. -/
def diagnostic (e : ImageError) : Diagnostic :=
  { message := e.message, help := e.help?, line := e.line? }

end ImageError

/-- Writes a word into an image, or says that its address has one. -/
def Image.write (image : Image) (address word : Word) : Except ImageError Image :=
  match image.write? address word with
  | some image => .ok image
  | none => .error (.overlap address)

end AnnaToolchain
