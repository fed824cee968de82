import AnnaToolchain.Operand
import AnnaToolchain.Proofs.Token.Scan

/-! # Texts of one token

    A text that its first token takes up is that token, so that numbers the
    assembler writes itself are read back (`parse_of_scan`).  The other way
    round, a text of one token is that token with gaps around it
    (`exists_scan_of_lexFrom`), and every token has been found in the text
    (`mem_lex`); so no name is spelled as a register is, for such a word is
    scanned as a register (`toLower_ne_of_scan`). -/

namespace AnnaToolchain

/-! ## Letter case -/

namespace Text

theorem toList_toLower (s : String) : s.toLower.toList = s.toList.map Char.toLower :=
  String.toList_map

theorem toNat_toLower (c : Char) :
    c.toLower.toNat = if 65 ≤ c.toNat ∧ c.toNat ≤ 90 then c.toNat + 32 else c.toNat := by
  have hiff : (c.val ≥ 'A'.val ∧ c.val ≤ 'Z'.val) ↔ (65 ≤ c.toNat ∧ c.toNat ≤ 90) := by
    simp only [ge_iff_le, UInt32.le_iff_toNat_le]
    exact Iff.rfl
  unfold Char.toLower
  by_cases h : 65 ≤ c.toNat ∧ c.toNat ≤ 90
  · rw [dif_pos (hiff.mpr h), if_pos h]
    show (c.val + ('a'.val - 'A'.val)).toNat = c.val.toNat + 32
    have h32 : ('a'.val - 'A'.val).toNat = 32 := rfl
    have h90 : c.val.toNat ≤ 90 := h.2
    rw [UInt32.toNat_add]
    omega
  · rw [dif_neg (mt hiff.mp h), if_neg h]

theorem eq_of_toLower_r {c : Char} (h : c.toLower = 'r') : c = 'r' ∨ c = 'R' := by
  have hn := toNat_toLower c
  have hr : ('r' : Char).toNat = 114 := rfl
  rw [h, hr] at hn
  by_cases hc : 65 ≤ c.toNat ∧ c.toNat ≤ 90
  · rw [if_pos hc] at hn
    refine .inr (Char.toNat_inj.mp ?_)
    show c.toNat = 82
    omega
  · rw [if_neg hc] at hn
    exact .inl (Char.toNat_inj.mp hn.symm)

theorem eq_of_toLower_digit {c d : Char} (hd : isAsciiDigit d = true) (h : c.toLower = d) :
    c = d := by
  have hn := toNat_toLower c
  rw [h] at hn
  have hle : d.toNat ≤ 57 := by
    have := (Bool.and_eq_true_iff.mp hd).2
    exact of_decide_eq_true this
  apply Char.toNat_inj.mp
  split at hn
  · omega
  · exact hn.symm

end Text

/-- A register is called `r` and a digit. -/
theorem Register.toList_name (r : Register) :
    ∃ d, Text.isAsciiDigit d = true ∧ r.name.toList = ['r', d] := by
  match r with
  | 0 => exact ⟨'0', by decide, rfl⟩
  | 1 => exact ⟨'1', by decide, rfl⟩
  | 2 => exact ⟨'2', by decide, rfl⟩
  | 3 => exact ⟨'3', by decide, rfl⟩
  | 4 => exact ⟨'4', by decide, rfl⟩
  | 5 => exact ⟨'5', by decide, rfl⟩
  | 6 => exact ⟨'6', by decide, rfl⟩
  | 7 => exact ⟨'7', by decide, rfl⟩

namespace Token

/-! ## One token -/

theorem wordRun_eq {cs : List Char} (h : ∀ c ∈ cs, Text.isWordChar c = true) : wordRun cs = cs :=
  List.takeWhile_eq_self_iff.mpr h

theorem lex_of_scan {s : String} {c : Char} {rest : List Char} {token : Token}
    (hs : s.toList = c :: rest) (hg : isGap c = false)
    (h : scan c rest = (rest.length, .ok token)) : lex s = ⟨[⟨token, s, 0⟩], none⟩ := by
  have htext : String.ofList (c :: rest) = s := by
    rw [← hs]
    exact String.ofList_toList
  unfold lex
  rw [hs, lexFrom]
  simp only [hg, h, Bool.false_eq_true, if_false, List.take_length, List.drop_length, htext]
  rw [lexFrom]
  rfl

/-- A text that spells a token is that token. -/
theorem lex_of_spells {s : String} {token : Token} (h : Spells token s) :
    lex s = ⟨[⟨token, s, 0⟩], none⟩ := by
  obtain ⟨c, run, hs, hgap, hscan⟩ := h
  have hfound := hscan [] stops_nil
  rw [List.append_nil] at hfound
  exact lex_of_scan hs hgap hfound

theorem scan_digit {c : Char} {rest : List Char} {value : Word} (hc : Text.isAsciiDigit c = true)
    (hw : ∀ d ∈ rest, Text.isWordChar d = true) (hv : readUnsigned (c :: rest) = .ok value) :
    scan c rest = (rest.length, .ok (.unsigned value)) := by
  rw [scan_of_isDigit (Text.isDigit_of_isAsciiDigit hc), wordRun_eq hw, hv]
  rfl

theorem scan_minus {rest : List Char} {value : Word}
    (hw : ∀ d ∈ rest, Text.isWordChar d = true) (hv : readSigned rest = .ok value) :
    scan '-' rest = (rest.length, .ok (.signed value)) := by
  have h : scan '-' rest
      = ((wordRun rest).length, (readSigned (wordRun rest)).map .signed) := rfl
  rw [h, wordRun_eq hw, hv]
  rfl

/-! ## Where tokens come from -/

/-- The lexeme is a token found in the text, with its own text. -/
def TakenFrom (cs : List Char) (l : Lexeme) : Prop :=
  ∃ c rest n, c :: rest <:+ cs ∧ isGap c = false ∧ scan c rest = (n, .ok l.token) ∧
    l.text = String.ofList (c :: rest.take n)

theorem TakenFrom.suffix {cs cs' : List Char} {l : Lexeme} (h : TakenFrom cs l)
    (hs : cs <:+ cs') : TakenFrom cs' l := by
  obtain ⟨c, rest, n, hrest, hfound⟩ := h
  exact ⟨c, rest, n, hrest.trans hs, hfound⟩

theorem mem_lexFrom {start : Nat} {acc : List Lexeme} {cs : List Char} {l : Lexeme}
    (h : l ∈ (lexFrom start acc cs).lexemes) : l ∈ acc ∨ TakenFrom cs l := by
  induction start, acc, cs using lexFrom.induct with
  | case1 start acc =>
    rw [lexFrom] at h
    exact .inl (List.mem_reverse.mp h)
  | case2 start acc c rest hgap ih =>
    -- a gap is no token
    rw [lexFrom, if_pos hgap] at h
    exact (ih h).imp_right fun htaken => htaken.suffix (List.suffix_cons c rest)
  | case3 start acc c rest hgap scanned text token htoken ih =>
    have htoken' : (scan c rest).2 = .ok token := htoken
    rw [lexFrom, if_neg hgap] at h
    simp only [htoken'] at h
    rcases ih h with hmem | htaken
    · -- the token scanned here, or one from before
      rcases List.mem_cons.mp hmem with rfl | hmem
      · exact .inr ⟨c, rest, scanned.1, List.suffix_refl _, Bool.eq_false_iff.mpr hgap,
          Prod.ext rfl htoken, rfl⟩
      · exact .inl hmem
    · exact .inr (htaken.suffix ((List.drop_suffix _ _).trans (List.suffix_cons c rest)))
  | case4 start acc c rest hgap scanned e herror =>
    have herror' : (scan c rest).2 = .error e := herror
    rw [lexFrom, if_neg hgap] at h
    simp only [herror'] at h
    exact .inl (List.mem_reverse.mp h)

/-- **Every token** is found in the text. -/
theorem mem_lex {s : String} {l : Lexeme} (h : l ∈ (lex s).lexemes) : TakenFrom s.toList l := by
  rcases mem_lexFrom h with hmem | htaken
  · cases hmem
  · exact htaken

/-- A name is a word that is not `r` and digits. -/
theorem scan_name {c : Char} {rest : List Char} {n : Nat} {name : String}
    (h : scan c rest = (n, .ok (.name name))) :
    name = String.ofList (c :: wordRun rest) ∧
      ¬ ((c = 'r' ∨ c = 'R') ∧ wordRun rest ≠ [] ∧ (wordRun rest).all Text.isDigit = true) := by
  cases scanned_of_scan h with
  | name _ hnot => exact ⟨rfl, hnot⟩

/-- A name is not spelled as a letter `r` and a digit, in either case. -/
theorem toLower_ne_of_scan {c : Char} {rest : List Char} {n : Nat} {name : String}
    (h : scan c rest = (n, .ok (.name name))) (r : Register) : name.toLower ≠ r.name := by
  obtain ⟨rfl, hnot⟩ := scan_name h
  intro heq
  obtain ⟨d, hd, hr⟩ := r.toList_name
  have hlist : (c :: wordRun rest).map Char.toLower = ['r', d] := by
    rw [← hr, ← heq]
    simp [Text.toList_toLower]
  -- so the word is `r` or `R` and the digit, which is scanned as a register
  cases hrun : wordRun rest with
  | nil => simp [hrun] at hlist
  | cons c' run =>
    rw [hrun] at hlist
    simp only [List.map_cons, List.cons.injEq, List.map_eq_nil_iff] at hlist
    obtain ⟨hc, hc', rfl⟩ := hlist
    have hdigit : Text.isDigit c' = true := by
      rw [Text.eq_of_toLower_digit hd hc']
      exact Text.isDigit_of_isAsciiDigit hd
    refine hnot ⟨Text.eq_of_toLower_r hc, ?_, ?_⟩
    · rw [hrun]
      exact List.cons_ne_nil _ _
    · rw [hrun]
      simp [hdigit]

/-! ## Texts of one token -/

theorem length_le_lexFrom (start : Nat) (acc : List Lexeme) (cs : List Char) :
    acc.length ≤ (lexFrom start acc cs).lexemes.length := by
  induction start, acc, cs using lexFrom.induct with
  | case1 start acc => rw [lexFrom, List.length_reverse]
  | case2 start acc c rest hgap ih =>
    rw [lexFrom, if_pos hgap]
    exact ih
  | case3 start acc c rest hgap scanned text token htoken ih =>
    have htoken' : (scan c rest).2 = .ok token := htoken
    rw [lexFrom, if_neg hgap]
    simp only [htoken']
    exact Nat.le_trans (Nat.le_succ _) ih
  | case4 start acc c rest hgap scanned e herror =>
    have herror' : (scan c rest).2 = .error e := herror
    rw [lexFrom, if_neg hgap]
    simp only [herror', List.length_reverse, Nat.le_refl]

/-- Where no more tokens come and nothing is wrong, there are only gaps. -/
theorem isGap_of_lexFrom {start : Nat} {acc lexemes : List Lexeme} {cs : List Char}
    (h : lexFrom start acc cs = ⟨lexemes, none⟩) (hlength : lexemes.length ≤ acc.length) :
    lexemes = acc.reverse ∧ ∀ c ∈ cs, isGap c = true := by
  induction start, acc, cs using lexFrom.induct with
  | case1 start acc =>
    rw [lexFrom] at h
    cases h
    exact ⟨rfl, List.forall_mem_nil _⟩
  | case2 start acc c rest hgap ih =>
    rw [lexFrom, if_pos hgap] at h
    obtain ⟨hlexemes, hrest⟩ := ih h hlength
    exact ⟨hlexemes, List.forall_mem_cons.mpr ⟨hgap, hrest⟩⟩
  | case3 start acc c rest hgap scanned text token htoken ih =>
    -- that would be one more token
    have htoken' : (scan c rest).2 = .ok token := htoken
    rw [lexFrom, if_neg hgap] at h
    simp only [htoken'] at h
    have hle := length_le_lexFrom (start + text.utf8ByteSize) (⟨token, text, start⟩ :: acc)
      (rest.drop scanned.1)
    rw [h, List.length_cons] at hle
    exact absurd (Nat.le_trans hle hlength) (Nat.not_succ_le_self _)
  | case4 start acc c rest hgap scanned e herror =>
    have herror' : (scan c rest).2 = .error e := herror
    rw [lexFrom, if_neg hgap] at h
    simp only [herror'] at h
    cases h

/-- A text of one token is that token with gaps around it. -/
theorem exists_scan_of_lexFrom {start : Nat} {cs : List Char} {l : Lexeme}
    (h : lexFrom start [] cs = ⟨[l], none⟩) :
    ∃ before c rest n, cs = before ++ c :: rest ∧ (∀ x ∈ before, isGap x = true) ∧
      scan c rest = (n, .ok l.token) ∧ ∀ x ∈ rest.drop n, isGap x = true := by
  induction cs generalizing start with
  | nil =>
    rw [lexFrom] at h
    cases h
  | cons c rest ih =>
    by_cases hgap : isGap c = true
    · rw [lexFrom, if_pos hgap] at h
      obtain ⟨before, c', rest', n, rfl, hbefore, hscan, hafter⟩ := ih h
      exact ⟨c :: before, c', rest', n, rfl, List.forall_mem_cons.mpr ⟨hgap, hbefore⟩, hscan,
        hafter⟩
    · rw [lexFrom, if_neg hgap] at h
      rcases hscan : scan c rest with ⟨n, e | token⟩
      · simp only [hscan] at h
        cases h
      · simp only [hscan] at h
        -- the token scanned here is the only one
        obtain ⟨hlexemes, hafter⟩ := isGap_of_lexFrom h (Nat.le_refl _)
        cases hlexemes
        exact ⟨[], c, rest, n, rfl, List.forall_mem_nil _, hscan, hafter⟩

end Token

namespace Operand

/-- A text that its first token takes up is read as that token. -/
theorem parse_of_scan {s : String} {c : Char} {rest : List Char} {token : Token}
    {operand : Operand} (hs : s.toList = c :: rest) (hg : Token.isGap c = false)
    (h : Token.scan c rest = (rest.length, .ok token)) (ho : ofToken? token = some operand) :
    parse s = .ok operand := by
  unfold parse
  rw [Token.lex_of_scan hs hg h]
  simp only [ho]

/-- A text that spells a token is read as that token. -/
theorem parse_of_spells {s : String} {token : Token} {operand : Operand}
    (h : Token.Spells token s) (ho : ofToken? token = some operand) : parse s = .ok operand := by
  unfold parse
  rw [Token.lex_of_spells h]
  simp only [ho]

/-- An operand that is read has one token. -/
theorem lexeme_of_parse {text : String} {operand : Operand} (h : parse text = .ok operand) :
    ∃ l, Token.lex text = ⟨[l], none⟩ ∧ ofToken? l.token = some operand := by
  unfold parse at h
  split at h
  · cases h
  · cases h
  · next l hlex =>
    split at h
    · next operand' htoken =>
      cases h
      exact ⟨l, hlex, htoken⟩
    · cases h
  · cases h

theorem parse_zero : parse "0" = .ok (.unsigned 0) :=
  parse_of_scan rfl (by decide)
    (Token.scan_digit (by decide) (List.forall_mem_nil _) rfl) rfl

theorem parse_one : parse "1" = .ok (.unsigned 1) :=
  parse_of_scan rfl (by decide)
    (Token.scan_digit (by decide) (List.forall_mem_nil _) rfl) rfl

theorem parse_minusOne : parse "-1" = .ok (.signed (-1)) :=
  parse_of_scan rfl (by decide)
    (Token.scan_minus (List.forall_mem_singleton.mpr (by decide)) rfl) rfl

end Operand

end AnnaToolchain
