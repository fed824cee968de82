import AnnaToolchain.Text.Digits

/-! # Words

    Everything the machine computes on is a 16-bit word, and so is every
    address.  A word is read either as a number from `0` to `65535`
    (`BitVec.toNat`) or as a two's complement number from `-32768` to
    `32767` (`BitVec.toInt`); arithmetic is modulo `2 ^ 16`. -/

namespace AnnaToolchain

/-- A 16-bit data word or address. -/
abbrev Word : Type := BitVec 16

/-- Words are ordered as unsigned numbers. -/
instance Word.transOrd : Std.TransOrd Word := inferInstance

instance Word.lawfulEqOrd : Std.LawfulEqOrd Word := inferInstance

/-- The largest number of words a memory can have. -/
def maxMemory : Nat := 65536

/-- A memory length brought into `1 .. 65536`. -/
def clampMemory (len : Nat) : Nat :=
  max 1 (min len maxMemory)

theorem clampMemory_pos (len : Nat) : 0 < clampMemory len := by
  unfold clampMemory; omega

theorem clampMemory_le (len : Nat) : clampMemory len ≤ maxMemory := by
  unfold clampMemory maxMemory; omega

theorem clampMemory_of_le {len : Nat} (h₀ : 0 < len) (h : len ≤ maxMemory) :
    clampMemory len = len := by
  unfold clampMemory; omega

namespace Word

/-- The word of a number, modulo `2 ^ 16`; negative numbers wrap to their two's complement. -/
def ofInt (n : Int) : Word :=
  BitVec.ofInt 16 n

/-- The low byte of a word. -/
def lowByte (w : Word) : BitVec 8 :=
  BitVec.ofNat 8 w.toNat

/-- The high byte of a word. -/
def highByte (w : Word) : BitVec 8 :=
  BitVec.ofNat 8 (w.toNat / 256)

/-- A word with another low byte. -/
def withLowByte (w : Word) (b : BitVec 8) : Word :=
  BitVec.ofNat 16 (w.toNat / 256 * 256 + b.toNat)

theorem toNat_withLowByte (w : Word) (b : BitVec 8) :
    (w.withLowByte b).toNat = w.toNat / 256 * 256 + b.toNat := by
  have := w.isLt
  have := b.isLt
  simp only [withLowByte, BitVec.toNat_ofNat]
  omega

theorem ofNat_add_one (n : Nat) : BitVec.ofNat 16 (n + 1) = BitVec.ofNat 16 n + 1 := by
  rw [BitVec.ofNat_add]
  rfl

theorem add_ofNat_zero (w : Word) : w + BitVec.ofNat 16 0 = w :=
  BitVec.add_zero w

theorem add_one_add_ofNat (w : Word) (k : Nat) :
    w + 1 + BitVec.ofNat 16 k = w + BitVec.ofNat 16 (k + 1) := by
  rw [BitVec.ofNat_add, BitVec.add_comm (BitVec.ofNat 16 k), ← BitVec.add_assoc]
  rfl

/-- Four upper-case hexadecimal digits. -/
def hex (w : Word) : String :=
  String.ofList (Text.fixedHex 4 w.toNat)

/-- Four hexadecimal digits behind `0x`. -/
def text (w : Word) : String :=
  "0x" ++ w.hex

/-- The two's complement value in decimal. -/
def signedText (w : Word) : String :=
  toString w.toInt

/-- The bit pattern in base 2, without leading zeros, behind `0b`. -/
def binaryText (w : Word) : String :=
  "0b" ++ Text.natText 2 w.toNat

/-- The bit pattern in lower-case hexadecimal, without leading zeros, behind `0x`. -/
def lowerHexText (w : Word) : String :=
  "0x" ++ Text.natText 16 w.toNat

/-- The bit pattern in upper-case hexadecimal, without leading zeros, behind `0x`. -/
def upperHexText (w : Word) : String :=
  "0x" ++ (Text.natText 16 w.toNat).map Char.toUpper

end Word

end AnnaToolchain
