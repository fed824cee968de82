import AnnaToolchain.Proofs.Assembly.Words
import AnnaToolchain.Proofs.Program.Printing

/-! # Decimal numbers

    A number that is written in decimal is read back
    (`NumberOrLabel.parse_toString`): behind a minus sign as a signed number,
    and as an unsigned one otherwise. -/

namespace AnnaToolchain

namespace Text

theorem digitOf?_digitChar : ∀ d : Fin 10, digitOf? 10 (Nat.digitChar d) = some d.val := by
  decide +kernel

/-- The digits that a number is written with stand for it. -/
theorem isNumeral_toDigits (n : Nat) : IsNumeral 10 (Nat.toDigits 10 n) n := by
  induction n using Nat.strongRecOn with
  | ind n ih =>
    rcases Nat.lt_or_ge n 10 with hlt | hge
    · rw [Nat.toDigits_of_lt_base hlt, ← List.nil_append [_]]
      have hnone : IsNumeral 10 [] 0 := isNumeral_nil.mpr rfl
      exact isNumeral_concat.mpr ⟨0, n, hnone, digitOf?_digitChar ⟨n, hlt⟩, by omega⟩
    · have hlast : n % 10 < 10 := Nat.mod_lt n (by decide)
      have hfront := ih (n / 10) (by omega)
      rw [Nat.toDigits_of_base_le (by decide) hge]
      exact isNumeral_concat.mpr
        ⟨n / 10, n % 10, hfront, digitOf?_digitChar ⟨n % 10, hlast⟩, by omega⟩

end Text

namespace Token

/-! ## Numbers -/

/-- The token a number is written as. -/
def decimal (n : Int) : Token :=
  if n < 0 then .signed (Word.ofInt n) else .unsigned (Word.ofInt n)

/-- A number from `-32768` to `65535` is written as one token. -/
theorem exists_scan_toString {n : Int} (hge : -32768 ≤ n) (hlt : n < 65536) :
    ∃ c rest, (toString n).toList = c :: rest ∧ isGap c = false ∧
      scan c rest = (rest.length, .ok (decimal n)) := by
  have hwrites (m : Nat) := NumberBase.writes_of_isNumeral (Text.isNumeral_toDigits m)
  cases n with
  | ofNat m =>
    have hpos : ¬ Int.ofNat m < 0 := Int.not_lt.mpr (Int.natCast_nonneg m)
    have hfits : m < UInt16.size := Int.ofNat_lt.mp hlt
    have hread := readAs_unsigned_of_isNumeral (hwrites m) Nat.toDigits_ne_nil
      (Text.isNumeral_toDigits m)
    have htext : (toString (Int.ofNat m)).toList = Nat.toDigits 10 m := Nat.toList_repr
    rw [if_pos hfits, ← htext] at hread
    rw [decimal, if_neg hpos]
    exact hread.exists_scan
  | negSucc m =>
    have hneg : -((m + 1 : Nat) : Int) = Int.negSucc m := rfl
    have hfits : m + 1 ≤ 32768 := by omega
    have hread := readAs_signed_of_isNumeral (hwrites (m + 1)) Nat.toDigits_ne_nil
      (Text.isNumeral_toDigits (m + 1))
    have htext : (toString (Int.negSucc m)).toList = '-' :: Nat.toDigits 10 (m + 1) := by
      show ("-" ++ (m + 1).repr).toList = _
      rw [String.toList_append, Nat.toList_repr]
      rfl
    rw [if_pos hfits, ← htext, hneg] at hread
    rw [decimal, if_pos (Int.negSucc_lt_zero m)]
    exact hread.exists_scan

end Token

/-- A text that its first token takes up is an operand, if the token is one. -/
theorem isOperandText_of_scan {s : String} {c : Char} {rest : List Char} {token : Token}
    (hs : s.toList = c :: rest) (hgap : Token.isGap c = false)
    (h : Token.scan c rest = (rest.length, .ok token)) (htoken : token.isOperand = true) :
    IsOperandText s := by
  have hspells := Token.spells_of_scan hgap h fun contents hcontents => by
    rw [hcontents] at htoken
    cases htoken
  rw [List.take_length, ← hs, String.ofList_toList] at hspells
  exact ⟨token, hspells, htoken⟩

/-- **Decimal numbers** are operands, and are read back. -/
theorem isOperandText_toString {n : Int} (hge : -32768 ≤ n) (hlt : n < 65536) :
    IsOperandText (toString n) := by
  obtain ⟨c, rest, hs, hgap, hscan⟩ := Token.exists_scan_toString hge hlt
  refine isOperandText_of_scan hs hgap hscan ?_
  unfold Token.decimal
  split
  · rfl
  · rfl

theorem Operand.parse_toString {n : Int} (hge : -32768 ≤ n) (hlt : n < 65536) :
    parse (toString n)
      = .ok (if n < 0 then .signed (Word.ofInt n) else .unsigned (Word.ofInt n)) := by
  obtain ⟨c, rest, hs, hgap, hscan⟩ := Token.exists_scan_toString hge hlt
  refine parse_of_scan hs hgap hscan ?_
  unfold Token.decimal
  split
  · rfl
  · rfl

theorem NumberOrLabel.parse_toString {n : Int} (hge : -32768 ≤ n) (hlt : n < 65536) :
    NumberOrLabel.parse (toString n) = .ok (.number n) := by
  have hparse := Operand.parse_toString hge hlt
  split at hparse
  · have hvalue : (Word.ofInt n).toInt = n := by
      rw [Word.ofInt, BitVec.toInt_ofInt, Int.bmod_def]
      omega
    rw [parse_signed hparse, hvalue]
  · have hvalue : ((Word.ofInt n).toNat : Int) = n := by
      rw [Word.ofInt, BitVec.toNat_ofInt]
      omega
    rw [parse_unsigned hparse, hvalue]

end AnnaToolchain
