import AnnaToolchain.Proofs.Token.Decimal
import AnnaToolchain.Proofs.Token.Quotation

/-! # Printed operands

    An operand is printed in one of the ways it could have been written, so
    it is read back (`Operand.parse_source`).  Only a zero behind a minus
    sign loses the sign: what it is printed as is no signed number any more. -/

namespace AnnaToolchain

namespace Token

/-- What stands behind a minus sign is not above zero. -/
theorem bounds_of_readSigned {cs : List Char} {value : Word} (h : readSigned cs = .ok value) :
    -32768 ≤ value.toInt ∧ value.toInt ≤ 0 := by
  obtain ⟨n, -, h⟩ := bind_eq_ok h
  split at h
  · obtain rfl := Except.ok.inj h
    rw [Word.ofInt, BitVec.toInt_ofInt, Int.bmod_def]
    omega
  · cases h

/-- A reference that has been found is spelled by `&` and its name. -/
theorem spells_label {rest : List Char} {d : Char} (hhead : rest.head? = some d)
    (hd : Text.isNameStart d = true) :
    Spells (.label (String.ofList (wordRun rest))) ("&" ++ String.ofList (wordRun rest)) := by
  have hspells := spells_of_scan (by decide) (Scanned.label hhead hd).scan_eq nofun
  rw [take_length_wordRun] at hspells
  have htext : String.ofList ('&' :: wordRun rest) = "&" ++ String.ofList (wordRun rest) := by
    rw [String.ofList_cons]
    rfl
  rwa [htext] at hspells

end Token

namespace Operand

theorem parse_signedText {value : Word} (h : -32768 ≤ value.toInt ∧ value.toInt ≤ 0) :
    parse value.signedText
      = .ok (if signed value = signed 0 then .unsigned 0 else .signed value) := by
  unfold Word.signedText
  rw [parse_toString h.1 (by omega), Word.ofInt, BitVec.ofInt_toInt]
  -- a number below zero is printed with its sign, and zero without
  by_cases hzero : value = 0
  · rw [hzero]
    rfl
  · have hneg : value.toInt < 0 := by
      refine Int.lt_iff_le_and_ne.mpr ⟨h.2, fun heq => hzero ?_⟩
      rw [← BitVec.ofInt_toInt (x := value), heq]
      rfl
    rw [if_pos hneg, if_neg fun heq => hzero (signed.inj heq)]

theorem parse_unsignedText (value : Word) :
    parse (toString value.toNat) = .ok (.unsigned value) := by
  have hlt := value.isLt
  have hparse := parse_toString (n := value.toNat) (by omega) (by omega)
  rw [if_neg (by omega)] at hparse
  have hvalue : Word.ofInt (value.toNat : Int) = value := by
    rw [Word.ofInt, BitVec.ofInt_natCast, BitVec.ofNat_toNat, BitVec.setWidth_eq]
  rwa [hvalue] at hparse

theorem parse_name (r : Register) : parse r.name = .ok (.register r) := by
  have hall : ∀ r : Register, parse r.name = .ok (.register r) := by decide +kernel
  exact hall r

/-- The printed form of a token that has been found. -/
theorem parse_source_of_scanned {rest : List Char} {c : Char} {n : Nat} {token : Token}
    {operand : Operand} (h : Token.Scanned rest c n token) (ho : ofToken? token = some operand) :
    parse operand.source = .ok (if operand = .signed 0 then .unsigned 0 else operand) := by
  cases h with
  | colon | comma | comment | directive | name => cases ho
  | text _ hread =>
    obtain rfl := Option.some.inj ho
    rw [if_neg nofun]
    refine parse_quote ?_
    -- the text was short enough to be read
    unfold Quotation.read at hread
    simp only at hread
    split at hread
    · next hlength =>
      rwa [← Except.ok.inj hread, String.length_ofList]
    · cases hread
  | label hhead hd =>
    obtain rfl := Option.some.inj ho
    rw [if_neg nofun]
    exact parse_of_spells (Token.spells_label hhead hd) rfl
  | signed hread =>
    obtain rfl := Option.some.inj ho
    exact parse_signedText (Token.bounds_of_readSigned hread)
  | unsigned =>
    obtain rfl := Option.some.inj ho
    rw [if_neg nofun]
    exact parse_unsignedText _
  | register =>
    obtain rfl := Option.some.inj ho
    rw [if_neg nofun]
    exact parse_name _

/-- **Printed operands.**  An operand that is read is printed as a text that is read as the same
    operand, except for a zero behind a minus sign, which is read as a zero without.  And every
    text that is not too long is printed as a quotation that is read as this text, whatever
    characters it has. -/
theorem parse_source :
    (∀ text operand, parse text = .ok operand →
      parse operand.source = .ok (if operand = .signed 0 then .unsigned 0 else operand)) ∧
    ∀ s : String, s.length ≤ Quotation.maxLength →
      parse (Operand.text s).source = .ok (.text s) := by
  refine ⟨fun text operand h => ?_, fun s => parse_quote⟩
  obtain ⟨l, hlex, htoken⟩ := lexeme_of_parse h
  obtain ⟨_, _, _, _, -, -, hscan, -⟩ := Token.exists_scan_of_lexFrom hlex
  exact parse_source_of_scanned (Token.scanned_of_scan hscan) htoken

/-- A zero behind a minus sign, and a text that ends in backslashes and a quote. -/
theorem parse_source_minusZero :
    parse "-0x0" = .ok (.signed 0) ∧ parse (signed 0).source = .ok (.unsigned 0) ∧
      parse (Operand.text "é\n\x00\\\\\"").source = .ok (.text "é\n\x00\\\\\"") := by
  have hread : parse "-0x0" = .ok (.signed 0) := by decide +kernel
  exact ⟨hread, parse_source.1 _ _ hread, parse_source.2 _ (by decide)⟩

end Operand

end AnnaToolchain
