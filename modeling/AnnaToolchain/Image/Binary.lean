import AnnaToolchain.Image.Basic

/-! # Binary images

    The binary form of an image keeps everything.  After a header come
    blocks of two kinds; all numbers are little-endian.

    ```text
    header    "anna" 21 10, version 00 01, memory length (4 bytes)
    words     00, first address (2), number of words (2), the words (2 each)
    label     01, address (2), number of bytes (8), the name in UTF-8
    ```

    A run of all 65536 words is one more than a block can count, so longer
    runs are cut. -/

namespace AnnaToolchain.Image

/-! ## Writing -/

/-- The `width` lowest bytes of a number, lowest first. -/
def littleEndian : (width : Nat) → Nat → List UInt8
  | 0, _ => []
  | width + 1, n => UInt8.ofNat n :: littleEndian width (n / 256)

/-- What a binary image starts with: the letters `anna`, two more bytes, and the version. -/
def signature : List UInt8 :=
  [0x61, 0x6E, 0x6E, 0x61, 0x21, 0x10, 0x00, 0x01]

/-- The most words in one block, less one. -/
def lastInBlock : Nat := 65534

/-- A block of words. -/
def encodeWords (start : Word) (words : List Word) : List UInt8 :=
  0x00 :: (littleEndian 2 start.toNat ++ littleEndian 2 words.length
    ++ words.flatMap fun w => littleEndian 2 w.toNat)

/-- The blocks of a run of words. -/
def encodeRun (run : Word × List Word) : List UInt8 :=
  (chunks lastInBlock run.2).zipIdx.flatMap fun part =>
    encodeWords (run.1 + BitVec.ofNat 16 (part.2 * (lastInBlock + 1))) part.1

/-- The block of a label. -/
def encodeLabel (entry : String × Word) : List UInt8 :=
  let name := entry.1.toUTF8.toList
  0x01 :: (littleEndian 2 entry.2.toNat ++ littleEndian 8 name.length ++ name)

/-- An image in its binary form. -/
def encode (image : Image) : List UInt8 :=
  signature ++ littleEndian 4 image.memLen ++ image.blocks.flatMap encodeRun
    ++ image.symbols.toList.flatMap encodeLabel

/-! ## Reading -/

/-- The number of bytes that are lowest first. -/
def ofLittleEndian (bytes : List UInt8) : Nat :=
  bytes.foldr (fun b n => b.toNat + 256 * n) 0

/-- The next `n` bytes, and those after them. -/
def takeBytes (n : Nat) (bytes : List UInt8) : Except ImageError (List UInt8 × List UInt8) :=
  let taken := bytes.take n
  if taken.length = n then .ok (taken, bytes.drop n) else .error .truncated

/-- The next number of `width` bytes. -/
def takeNumber (width : Nat) (bytes : List UInt8) : Except ImageError (Nat × List UInt8) := do
  let taken ← takeBytes width bytes
  return (ofLittleEndian taken.1, taken.2)

/-- Writes the words of a block; addresses wrap. -/
def writeWords (image : Image) (address : Word) : List UInt8 → Except ImageError Image
  | low :: high :: rest =>
    match image.write address (BitVec.ofNat 16 (ofLittleEndian [low, high])) with
    | .ok image => writeWords image (address + 1) rest
    | .error e => .error e
  | _ => .ok image

/-- Reads a block of words after its kind. -/
def readWords (image : Image) (bytes : List UInt8) : Except ImageError (Image × List UInt8) := do
  let (start, bytes) ← takeNumber 2 bytes
  let (count, bytes) ← takeNumber 2 bytes
  let (data, bytes) ← takeBytes (2 * count) bytes
  return (← writeWords image (BitVec.ofNat 16 start) data, bytes)

/-- Reads the block of a label after its kind. -/
def readLabel (image : Image) (bytes : List UInt8) : Except ImageError (Image × List UInt8) := do
  let (address, bytes) ← takeNumber 2 bytes
  let (length, bytes) ← takeNumber 8 bytes
  let (name, bytes) ← takeBytes length bytes
  match String.fromUTF8? ⟨name.toArray⟩ with
  | none => throw .badHeader
  | some label =>
    match image.symbols.define? label (BitVec.ofNat 16 address) with
    | none => throw .badHeader
    | some symbols => return ({ image with symbols := symbols }, bytes)

/-- Reads one block. -/
def readBlock (image : Image) (kind : UInt8) (bytes : List UInt8) :
    Except ImageError (Image × List UInt8) :=
  if kind = 0x00 then readWords image bytes
  else if kind = 0x01 then readLabel image bytes
  else .error (.unknownBlock kind)

theorem length_takeBytes {n : Nat} {bytes : List UInt8} {taken : List UInt8 × List UInt8}
    (h : takeBytes n bytes = .ok taken) : taken.2.length ≤ bytes.length := by
  simp only [takeBytes] at h
  split at h
  · cases h; simp
  · cases h

theorem length_takeNumber {n : Nat} {bytes : List UInt8} {taken : Nat × List UInt8}
    (h : takeNumber n bytes = .ok taken) : taken.2.length ≤ bytes.length := by
  unfold takeNumber at h
  cases ht : takeBytes n bytes with
  | error e => rw [ht] at h; cases h
  | ok t => rw [ht] at h; cases h; exact length_takeBytes ht

theorem length_readWords {image : Image} {bytes : List UInt8} {r : Image × List UInt8}
    (h : readWords image bytes = .ok r) : r.2.length ≤ bytes.length := by
  unfold readWords at h
  simp only [bind, Except.bind, pure, Except.pure] at h
  split at h
  · cases h
  · next start hstart =>
    split at h
    · cases h
    · next count hcount =>
      split at h
      · cases h
      · next data hdata =>
        split at h
        · cases h
        · cases h
          have h₁ := length_takeNumber hstart
          have h₂ := length_takeNumber hcount
          have h₃ := length_takeBytes hdata
          simp only at *
          omega

theorem length_readLabel {image : Image} {bytes : List UInt8} {r : Image × List UInt8}
    (h : readLabel image bytes = .ok r) : r.2.length ≤ bytes.length := by
  unfold readLabel at h
  simp only [bind, Except.bind, pure, Except.pure] at h
  split at h
  · cases h
  · next address haddress =>
    split at h
    · cases h
    · next length hlength =>
      split at h
      · cases h
      · next name hname =>
        split at h
        · cases h
        · split at h
          · cases h
          · cases h
            have h₁ := length_takeNumber haddress
            have h₂ := length_takeNumber hlength
            have h₃ := length_takeBytes hname
            simp only at *
            omega

theorem length_readBlock {image : Image} {kind : UInt8} {bytes : List UInt8}
    {r : Image × List UInt8} (h : readBlock image kind bytes = .ok r) :
    r.2.length ≤ bytes.length := by
  unfold readBlock at h
  split at h
  · exact length_readWords h
  · split at h
    · exact length_readLabel h
    · cases h

set_option linter.unusedVariables false in
/-- Reads blocks to the end of the bytes. -/
def readBlocks (image : Image) : List UInt8 → Except ImageError Image
  | [] => .ok image
  | kind :: bytes =>
    match h : readBlock image kind bytes with
    | .ok read => readBlocks read.1 read.2
    | .error e => .error e
termination_by bytes => bytes.length
decreasing_by
  exact Nat.lt_succ_of_le (length_readBlock h)

/-- The image of its binary form. -/
def decode (bytes : List UInt8) : Except ImageError Image :=
  if bytes.take signature.length = signature then do
    let (memLen, bytes) ← takeNumber 4 (bytes.drop signature.length)
    readBlocks (empty memLen) bytes
  else .error .badHeader

end AnnaToolchain.Image
