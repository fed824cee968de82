import AnnaToolchain.Peephole
import AnnaToolchain.Proofs.Token.Single

/-! # References to labels

    The assembler reads a reference to a label as a token, the optimizer by
    what is left of its text without white space around it.  Where the
    assembler finds a label, both find the same one
    (`targetLabel?_of_parse`): in a text of one token there is nothing
    around it but gaps, and no word character is white space. -/

namespace AnnaToolchain

namespace Text

/-- Whether no range of the one list meets a range of the other. -/
def areApart (ranges ranges' : List (Nat × Nat)) : Bool :=
  ranges.all fun r => ranges'.all fun r' => Nat.blt r.2 r'.1 || Nat.blt r'.2 r.1

theorem inRanges_eq_false {ranges ranges' : List (Nat × Nat)} {c : Char}
    (hapart : areApart ranges ranges' = true) (h : inRanges ranges c = true) :
    inRanges ranges' c = false := by
  obtain ⟨r, hr, hlo, hhi⟩ := inRanges_iff.mp h
  rw [Bool.eq_false_iff]
  intro h'
  obtain ⟨r', hr', hlo', hhi'⟩ := inRanges_iff.mp h'
  have hmeet := List.all_eq_true.mp (List.all_eq_true.mp hapart r hr) r' hr'
  rw [Bool.or_eq_true, Nat.blt_eq, Nat.blt_eq] at hmeet
  omega

/-- The ASCII characters of words. -/
def asciiWordRanges : List (Nat × Nat) :=
  [(0x30, 0x39), (0x41, 0x5A), (0x5F, 0x5F), (0x61, 0x7A)]

theorem inRanges_of_isNameStart {c : Char} (h : isNameStart c = true) :
    inRanges asciiWordRanges c = true := by
  unfold isNameStart at h
  simp only [Bool.or_eq_true, Bool.and_eq_true, decide_eq_true_eq, beq_iff_eq] at h
  rw [inRanges_iff]
  rcases h with (⟨hlo, hhi⟩ | ⟨hlo, hhi⟩) | rfl
  · exact ⟨(0x61, 0x7A), by decide, hlo, hhi⟩
  · exact ⟨(0x41, 0x5A), by decide, hlo, hhi⟩
  · exact ⟨(0x5F, 0x5F), by decide, by decide, by decide⟩

theorem inRanges_of_isAsciiDigit {c : Char} (h : isAsciiDigit c = true) :
    inRanges asciiWordRanges c = true := by
  obtain ⟨hlo, hhi⟩ := Bool.and_eq_true_iff.mp h
  rw [inRanges_iff]
  exact ⟨(0x30, 0x39), by decide, of_decide_eq_true hlo, of_decide_eq_true hhi⟩

/-- No white space is part of a word. -/
theorem isWordChar_of_isBlank {c : Char} (h : isBlank c = true) : isWordChar c = false := by
  have hascii : inRanges asciiWordRanges c = false := inRanges_eq_false (by decide +kernel) h
  have hdigit : inRanges digitRanges c = false := inRanges_eq_false (by decide +kernel) h
  have hword : inRanges wordRanges c = false := inRanges_eq_false (by decide +kernel) h
  have hstart : isNameStart c = false := by
    rw [Bool.eq_false_iff]
    intro hstart
    rw [inRanges_of_isNameStart hstart] at hascii
    cases hascii
  have hasciiDigit : isAsciiDigit c = false := by
    rw [Bool.eq_false_iff]
    intro hasciiDigit
    rw [inRanges_of_isAsciiDigit hasciiDigit] at hascii
    cases hascii
  unfold isWordChar isDigit
  rw [hstart, hasciiDigit, hdigit, hword, Bool.and_false]
  rfl

theorem isBlank_of_isWordChar {c : Char} (h : isWordChar c = true) : isBlank c = false := by
  rw [Bool.eq_false_iff]
  intro hblank
  rw [isWordChar_of_isBlank hblank] at h
  cases h

/-- Trimming takes off the white space around a word. -/
theorem trimChars_of_between {before after word : List Char} (hne : word ≠ [])
    (hbefore : ∀ x ∈ before, isBlank x = true) (hafter : ∀ x ∈ after, isBlank x = true)
    (hword : ∀ x ∈ word, isBlank x = false) : trimChars (before ++ (word ++ after)) = word := by
  have hfront : (word ++ after).dropWhile isBlank = word ++ after := by
    obtain ⟨c, rest, rfl⟩ := List.exists_cons_of_ne_nil hne
    exact List.dropWhile_cons_of_neg (by rw [hword c List.mem_cons_self]; nofun)
  have hback : (after.reverse ++ word.reverse).dropWhile isBlank = word.reverse := by
    rw [List.dropWhile_append_of_pos fun x hx => hafter x (List.mem_reverse.mp hx)]
    obtain ⟨c, rest, hreverse⟩ := List.exists_cons_of_ne_nil (List.reverse_ne_nil_iff.mpr hne)
    have hc : c ∈ word := List.mem_reverse.mp (by rw [hreverse]; exact List.mem_cons_self)
    rw [hreverse]
    exact List.dropWhile_cons_of_neg (by rw [hword c hc]; nofun)
  unfold trimChars trimEndChars
  rw [List.dropWhile_append_of_pos hbefore, hfront, List.reverse_append, hback,
    List.reverse_reverse]

end Text

namespace Token

/-- A gap is white space. -/
theorem isBlank_of_isGap {c : Char} (h : isGap c = true) : Text.isBlank c = true := by
  unfold isGap at h
  simp only [Bool.or_eq_true, beq_iff_eq] at h
  rcases h with (rfl | rfl) | rfl <;> decide

/-- A reference is `&` and the word behind it. -/
theorem scan_label {c : Char} {rest : List Char} {n : Nat} {name : String}
    (h : scan c rest = (n, .ok (.label name))) :
    c = '&' ∧ n = (wordRun rest).length ∧ name = String.ofList (wordRun rest) := by
  cases scanned_of_scan h with
  | label _ _ => exact ⟨rfl, rfl, rfl⟩

end Token

namespace Peephole

/-- **References.**  A label that the assembler reads is the one that the optimizer reads. -/
theorem targetLabel?_of_parse {target label : String}
    (h : Operand.parse target = .ok (.label label)) : targetLabel? target = some label := by
  obtain ⟨l, hlex, htoken⟩ := Operand.lexeme_of_parse h
  have hl : l.token = .label label := by
    unfold Operand.ofToken? at htoken
    split at htoken <;> cases htoken
    assumption
  obtain ⟨before, c, rest, n, htarget, hbefore, hscan, hafter⟩ := Token.exists_scan_of_lexFrom hlex
  rw [hl] at hscan
  obtain ⟨rfl, rfl, rfl⟩ := Token.scan_label hscan
  -- behind the word there is nothing but gaps, and neither is part of the other
  have htake := Token.take_length_wordRun rest
  have hrest : Token.wordRun rest ++ rest.drop (Token.wordRun rest).length = rest := by
    conv => enter [1, 1]; rw [← htake]
    exact List.take_append_drop _ _
  have htrim : Text.trimChars target.toList = '&' :: Token.wordRun rest := by
    have hsplit : target.toList = before ++
        ('&' :: Token.wordRun rest ++ rest.drop (Token.wordRun rest).length) := by
      rw [htarget, List.cons_append, hrest]
    rw [hsplit]
    refine Text.trimChars_of_between (List.cons_ne_nil _ _)
      (fun x hx => Token.isBlank_of_isGap (hbefore x hx))
      (fun x hx => Token.isBlank_of_isGap (hafter x hx)) (List.forall_mem_cons.mpr ⟨by decide, ?_⟩)
    intro x hx
    have hword : Text.isWordChar x = true := List.mem_takeWhile_imp hx
    cases hblank : Text.isBlank x with
    | false => rfl
    | true =>
      rw [Text.isWordChar_of_isBlank hblank] at hword
      cases hword
  unfold targetLabel?
  rw [htrim]
  rfl

end Peephole

end AnnaToolchain
