/-! # Digits

    Numbers as digits: the digit of a value, the value of a digit, and
    numbers written in a base. -/

namespace AnnaToolchain.Text

/-! ## Reading -/

/-- The value of an ASCII digit or letter as a digit (`a` and `A` are ten). -/
def digitValue? (c : Char) : Option Nat :=
  if '0' ≤ c ∧ c ≤ '9' then some (c.toNat - '0'.toNat)
  else if 'a' ≤ c ∧ c ≤ 'f' then some (c.toNat - 'a'.toNat + 10)
  else if 'A' ≤ c ∧ c ≤ 'F' then some (c.toNat - 'A'.toNat + 10)
  else none

/-- The value of a digit of the given base. -/
def digitOf? (base : Nat) (c : Char) : Option Nat :=
  (digitValue? c).filter (· < base)

/-- The value of a list of digits, if each is a digit of the base. -/
def valueOf? (base : Nat) (cs : List Char) : Option Nat :=
  cs.foldl (fun acc c => acc.bind fun n => (digitOf? base c).map (n * base + ·)) (some 0)

/-! ## Writing -/

/-- The upper-case hexadecimal digit of a value below sixteen. -/
def hexDigit (n : Nat) : Char :=
  if n < 10 then Char.ofNat ('0'.toNat + n) else Char.ofNat ('A'.toNat + (n - 10))

/-- The last `width` hexadecimal digits of a number, most significant first. -/
def fixedHex : (width : Nat) → Nat → List Char
  | 0, _ => []
  | width + 1, n => fixedHex width (n / 16) ++ [hexDigit (n % 16)]

/-- A number in a base up to sixteen, in lower case and without leading zeros. -/
def natText (base n : Nat) : String :=
  String.ofList (Nat.toDigits base n)

/-- Upper-case hexadecimal with at least `width` digits. -/
def paddedHex (width n : Nat) : String :=
  let digits := (Nat.toDigits 16 n).map Char.toUpper
  String.ofList (List.replicate (width - digits.length) '0' ++ digits)

end AnnaToolchain.Text
