import AnnaToolchain.Text.CharRange

/-! # White space

    White space is the Unicode property White_Space.  Text is trimmed of it
    at either end, and cut into the fields between it. -/

namespace AnnaToolchain.Text

/-- The white space characters. -/
def blankRanges : List (Nat × Nat) :=
  [(0x9, 0xD), (0x20, 0x20), (0x85, 0x85), (0xA0, 0xA0), (0x1680, 0x1680), (0x2000, 0x200A),
   (0x2028, 0x2029), (0x202F, 0x202F), (0x205F, 0x205F), (0x3000, 0x3000)]

/-- A white space character. -/
def isBlank (c : Char) : Bool :=
  inRanges blankRanges c

/-! ## Trimming -/

/-- Characters without the white space they end in. -/
def trimEndChars (cs : List Char) : List Char :=
  (cs.reverse.dropWhile isBlank).reverse

/-- Characters without the white space at either end. -/
def trimChars (cs : List Char) : List Char :=
  trimEndChars (cs.dropWhile isBlank)

/-- Text without the white space it ends in. -/
def trimEnd (s : String) : String :=
  String.ofList (trimEndChars s.toList)

/-- Text without the white space at either end. -/
def trim (s : String) : String :=
  String.ofList (trimChars s.toList)

/-! ## Cutting -/

/-- The pieces between the characters that satisfy `p`: the first piece, and one more for each such
    character. -/
def piecesAt (p : Char → Bool) (cs : List Char) : List Char × List (List Char) :=
  cs.foldr (fun c pieces =>
    if p c then ([], pieces.1 :: pieces.2) else (c :: pieces.1, pieces.2)) ([], [])

@[simp] theorem piecesAt_nil (p : Char → Bool) : piecesAt p [] = ([], []) := rfl

theorem piecesAt_cons (p : Char → Bool) (c : Char) (cs : List Char) :
    piecesAt p (c :: cs) =
      if p c then ([], (piecesAt p cs).1 :: (piecesAt p cs).2)
      else (c :: (piecesAt p cs).1, (piecesAt p cs).2) := rfl

/-- The fields of a line: the longest runs of characters that are no white space. -/
def fields (cs : List Char) : List (List Char) :=
  let pieces := piecesAt isBlank cs
  (pieces.1 :: pieces.2).filter (· ≠ [])

end AnnaToolchain.Text
