import AnnaToolchain.Proofs.Program.Parsed
import AnnaToolchain.Proofs.Token.Lexing
import AnnaToolchain.Proofs.Token.Reference

/-! # Tokens by themselves

    The characters of a token say which token it is, wherever they stand: a
    token of a line is lexed again from its own text alone (`lex_alone`).
    So the texts of operands, which a program keeps as they were written, are
    operands when they are read later, unless they are bare names
    (`Operand.parse_cases`). -/

namespace AnnaToolchain

namespace Token

variable {line : String} {ls : List Lexeme}

/-! ## Tokens of a line -/

/-- A token is found where it starts, and what is before it has been lexed. -/
theorem Lexing.reaches {start stop : Nat} {cs rest : List Char} (h : Lexing start cs ls stop rest)
    {l : Lexeme} (hl : l ∈ ls) :
    ∃ ls' c cs' n, Lexing start cs ls' l.start (c :: cs') ∧ isGap c = false ∧
      scan c cs' = (n, .ok l.token) ∧ l.text = String.ofList (c :: cs'.take n) := by
  induction h with
  | done => cases hl
  | gap hgap _ ih =>
    obtain ⟨ls', c, cs', n, hbefore, hfound⟩ := ih hl
    exact ⟨ls', c, cs', n, .gap hgap hbefore, hfound⟩
  | @token start _ n c cs _ _ token hgap hscan _ ih =>
    rcases List.mem_cons.mp hl with rfl | hl
    · exact ⟨[], c, cs, n, .done, hgap, hscan, rfl⟩
    · obtain ⟨ls', c', cs', n', hbefore, hfound⟩ := ih hl
      exact ⟨_, c', cs', n', .token hgap hscan hbefore, hfound⟩

/-- A token stands in the text where it has been found. -/
theorem Lexing.found {text : String} {stop : Nat} {rest : List Char}
    (h : Lexing 0 text.toList ls stop rest) {l : Lexeme} (hl : l ∈ ls) :
    ∃ c cs n, Text.IsRest text l.start (c :: cs) ∧ isGap c = false ∧
      scan c cs = (n, .ok l.token) ∧ l.text = String.ofList (c :: cs.take n) := by
  obtain ⟨ls', c, cs, n, hbefore, hfound⟩ := h.reaches hl
  exact ⟨c, cs, n, (hbefore.within (Text.isRest_toList text)).2, hfound⟩

theorem isLexed_of_lex (h : lex line = ⟨ls, none⟩) : IsLexed line ls := by
  rcases lex_total line with ⟨ls', hls⟩ | ⟨failure, hbad⟩
  · rw [hls.lex_eq] at h
    cases h
    exact hls
  · have hfailure := hbad.failure_lex
    rw [h] at hfailure
    cases hfailure

/-- The text of a token that has been found is that token. -/
theorem lex_of_found {c : Char} {rest : List Char} {n : Nat} {token : Token}
    (hgap : isGap c = false) (h : scan c rest = (n, .ok token)) :
    lex (String.ofList (c :: rest.take n))
      = ⟨[⟨token, String.ofList (c :: rest.take n), 0⟩], none⟩ := by
  by_cases hcomment : ∃ contents, token = .comment contents
  · -- a comment does not end in itself, but here nothing comes after it
    obtain ⟨contents, rfl⟩ := hcomment
    cases scanned_of_scan h with
    | comment =>
      have hbody : '\n' ∉ rest.takeWhile (· ≠ '\n') := fun hmem =>
        absurd (List.mem_takeWhile_imp hmem) (by decide)
      have htake : rest.take (rest.takeWhile (· ≠ '\n')).length = rest.takeWhile (· ≠ '\n') :=
        (List.prefix_iff_eq_take.mp (List.takeWhile_prefix _)).symm
      rw [htake]
      exact lex_of_scan String.toList_ofList hgap (scan_comment hbody)
  · -- every other token is found in front of whatever stops it, also of nothing
    exact lex_of_spells (spells_of_scan hgap h fun contents heq => hcomment ⟨contents, heq⟩)

/-- **A token alone** is the token that it is in its line, where its text stands from its first
    byte on. -/
theorem lex_alone (h : lex line = ⟨ls, none⟩) {l : Lexeme} (hl : l ∈ ls) :
    (∃ after, Text.IsRest line l.start (l.text.toList ++ after)) ∧
      lex l.text = ⟨[⟨l.token, l.text, 0⟩], none⟩ := by
  obtain ⟨stop, hlexing⟩ := isLexed_of_lex h
  obtain ⟨c, cs, n, hrest, hgap, hscan, htext⟩ := hlexing.found hl
  rw [htext]
  refine ⟨⟨cs.drop n, ?_⟩, lex_of_found hgap hscan⟩
  rw [String.toList_ofList]
  exact hrest.cut n

/-! ## Names -/

/-- What is found as a name is a name from its first character to its last. -/
theorem isNameWord_of_spells {name text : String} (h : Spells (.name name) text) :
    isNameWord text.toList = true := by
  obtain ⟨c, run, htext, -, hscan⟩ := h
  have hfound := hscan [] stops_nil
  rw [List.append_nil] at hfound
  generalize hn : run.length = n at hfound
  cases scanned_of_scan hfound with
  | name hc hnot =>
    have hrun : wordRun run = run := (List.takeWhile_prefix _).eq_of_length hn.symm
    have hword : run.all Text.isWordChar = true := by
      rw [← hrun, List.all_eq_true]
      exact fun d => isWordChar_of_mem_wordRun
    rw [hrun] at hnot
    rw [htext, isNameWord, hc, hword, Bool.true_and, Bool.true_and, Bool.not_eq_true',
      Bool.eq_false_iff]
    intro hregister
    simp only [Bool.and_eq_true, Bool.or_eq_true, beq_iff_eq, Bool.not_eq_true',
      List.isEmpty_eq_false_iff] at hregister
    exact hnot ⟨hregister.1.1, hregister.1.2, hregister.2⟩

/-- There is no white space around a name. -/
theorem trim_of_isNameWord {text : String} (h : isNameWord text.toList = true) :
    Text.trim text = text := by
  have hword : ∀ c ∈ text.toList, Text.isWordChar c = true := by
    unfold isNameWord at h
    split at h
    · cases h
    · next c run htext =>
      simp only [Bool.and_eq_true, List.all_eq_true] at h
      rw [htext]
      exact List.forall_mem_cons.mpr ⟨Text.isWordChar_of_isNameStart h.1.1, h.1.2⟩
  have hne : text.toList ≠ [] := by
    intro hnil
    rw [hnil] at h
    cases h
  have hvisible : ∀ c ∈ text.toList, Text.isBlank c = false := fun c hc =>
    Text.isBlank_of_isWordChar (hword c hc)
  have htrim := Text.trimChars_of_between hne (List.forall_mem_nil _) (List.forall_mem_nil _)
    hvisible
  rw [List.nil_append, List.append_nil] at htrim
  unfold Text.trim
  rw [htrim, String.ofList_toList]

end Token

/-! ## Operands -/

/-- **The text of an operand** is read as an operand, or it is a bare name. -/
theorem Operand.parse_cases {text : String} (h : IsOperandText text) :
    (∃ operand, parse text = .ok operand) ∨
      (Token.isNameWord text.toList = true ∧ parse text = .error (.notAnOperand text)) := by
  obtain ⟨token, hspells, htoken⟩ := h
  cases token with
  | unsigned | signed | register | label | text => exact .inl ⟨_, parse_of_spells hspells rfl⟩
  | name =>
    have hname := Token.isNameWord_of_spells hspells
    refine .inr ⟨hname, ?_⟩
    unfold parse
    rw [Token.lex_of_spells hspells, Token.trim_of_isNameWord hname]
    rfl
  | directive | colon | comma | comment => cases htoken

end AnnaToolchain
