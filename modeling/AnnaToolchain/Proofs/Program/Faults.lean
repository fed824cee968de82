import AnnaToolchain.Program.Reader
import AnnaToolchain.Proofs.Program.Grammar

/-! # Faulty lines

    A line of good tokens is read just if its tokens say something, and a
    line with a bad token fails with the first one.  Whatever is wrong, the
    fault is shown within the line and between characters
    (`SourceLine.within_of_read`).  A program fails with its first faulty
    line (`Program.ofLines_eq_error_iff`). -/

namespace AnnaToolchain

namespace SourceLine

/-! ## Where a fault is shown -/

/-- The fault is that of a token that is good by itself, and no comment. -/
structure Blames (fault : LineFault) (l : Lexeme) : Prop where
  span : fault.span = l.span
  cause : ∀ e, fault.cause ≠ .badToken e
  token : ∀ contents, l.token ≠ .comment contents

section

variable {ls : List Lexeme} {fault : LineFault} {stop : Nat}

theorem Tail.blames_of_add {tail : Tail} {l : Lexeme} (h : tail.add l = .error fault) :
    Blames fault l := by
  unfold add at h
  split at h
  · next htoken =>
    split at h
    · rw [← Except.error.inj h]
      exact ⟨rfl, nofun, fun _ => by rw [htoken]; nofun⟩
    · cases h
  · next htoken =>
    rw [← Except.error.inj h]
    exact ⟨rfl, nofun, fun _ => by rw [htoken]; nofun⟩
  · next htoken =>
    rw [← Except.error.inj h]
    exact ⟨rfl, nofun, fun _ => by rw [htoken]; nofun⟩
  · cases h
  · cases h

theorem Tail.blames_of_foldlM {tail : Tail} (h : ls.foldlM Tail.add tail = .error fault) :
    ∃ l ∈ ls, Blames fault l := by
  induction ls generalizing tail with
  | nil => cases h
  | cons l ls ih =>
    rw [List.foldlM_cons] at h
    rcases bind_eq_error h with hadd | ⟨tail', -, h⟩
    · exact ⟨l, List.mem_cons_self, blames_of_add hadd⟩
    · obtain ⟨l', hl', hblames⟩ := ih h
      exact ⟨l', List.mem_cons_of_mem _ hl', hblames⟩

theorem blames_of_mnemonic {name : String} {l : Lexeme}
    (hcomment : ∀ contents, l.token ≠ .comment contents) (h : mnemonic name l = .error fault) :
    Blames fault l := by
  unfold mnemonic at h
  split at h
  · cases h
  · rw [← Except.error.inj h]
    exact ⟨rfl, nofun, hcomment⟩

/-- A fault in a statement is that of a token, or of a comma at the end of the line. -/
theorem blames_of_statement {names : List String} {name : String} {l : Lexeme}
    (hcomment : ∀ contents, l.token ≠ .comment contents)
    (h : (do readStatement names (← mnemonic name l) ls stop) = .error fault) :
    (∃ l' ∈ l :: ls, Blames fault l') ∨ fault = ⟨.unexpected .trailingComma, ⟨stop, stop⟩⟩ := by
  rcases bind_eq_error h with hname | ⟨op, -, h⟩
  · exact .inl ⟨l, List.mem_cons_self, blames_of_mnemonic hcomment hname⟩
  rcases bind_eq_error h with hfold | ⟨tail, -, h⟩
  · obtain ⟨l', hl', hblames⟩ := Tail.blames_of_foldlM hfold
    exact .inl ⟨l', List.mem_cons_of_mem _ hl', hblames⟩
  · split at h
    · exact .inr (Except.error.inj h).symm
    · cases h

theorem blames_of_ofLexemes (hlast : Token.CommentLast ls) (h : ofLexemes ls stop = .error fault) :
    (∃ l ∈ ls, Blames fault l) ∨ fault = ⟨.unexpected .trailingComma, ⟨stop, stop⟩⟩ := by
  obtain ⟨ls', hls, -⟩ := exists_labels ls
  rw [hls] at hlast
  have hrest : Token.CommentLast (takeLabels ls).2 := (List.pairwise_append.mp hlast).2.1
  have hsubset := takeLabels_subset ls
  simp only [ofLexemes] at h
  split at h
  · cases h
  · cases h
  · next l rest hnot heq =>
    rw [heq] at hsubset hrest
    have hcomment : ∀ contents, l.token ≠ .comment contents := by
      intro contents htoken
      -- a comment is the last token, but then there is no fault
      have hnil : rest = [] := List.eq_nil_iff_forall_not_mem.mpr fun l' hl' =>
        (List.pairwise_cons.mp hrest).1 l' hl' contents htoken
      obtain ⟨token, text, start⟩ := l
      obtain rfl : token = .comment contents := htoken
      exact hnot contents text start rfl hnil
    have hnamed : (∃ l' ∈ l :: rest, Blames fault l') ∨
        fault = ⟨.unexpected .trailingComma, ⟨stop, stop⟩⟩ := by
      split at h
      · exact blames_of_statement hcomment h
      · exact blames_of_statement hcomment h
      · rw [← Except.error.inj h]
        refine .inl ⟨l, List.mem_cons_self, rfl, fun e heq => ?_, hcomment⟩
        cases heq
    rcases hnamed with ⟨l', hl', hblames⟩ | hcomma
    · exact .inl ⟨l', hsubset hl', hblames⟩
    · exact .inr hcomma

end

/-! ## Lines -/

section

variable {text : String} {ls : List Lexeme}

theorem read_of_isLexed (h : Token.IsLexed text ls) :
    read text = ofLexemes ls (Text.trimEnd text).utf8ByteSize := by
  simp only [read, h.lex_eq]

theorem read_of_firstBad {failure : LexFailure} (h : Token.FirstBad text failure) :
    read text = .error ⟨.badToken failure.error, failure.span⟩ := by
  simp only [read, h.failure_lex]

theorem read_eq_ok_iff {content : SourceLine} (h : Token.IsLexed text ls) :
    read text = .ok content ↔ Says (ls.map Lexeme.symbol) content := by
  rw [read_of_isLexed h]
  exact ofLexemes_eq_ok_iff h.commentLast

/-- The end of a line, without the white space there, is between characters. -/
theorem within_trimEnd (text : String) :
    Span.Within text ⟨(Text.trimEnd text).utf8ByteSize, (Text.trimEnd text).utf8ByteSize⟩ := by
  obtain ⟨rest, hrest⟩ := Text.isPrefix_trimEndChars text.toList
  have hstart := Text.isRest_toList text
  rw [← hrest] at hstart
  have hvalid := hstart.append.isValid
  rw [Nat.zero_add] at hvalid
  exact ⟨Nat.le_refl _, hvalid, hvalid⟩

/-- **Faults** are shown within the line and between characters. -/
theorem within_of_read {fault : LineFault} (h : read text = .error fault) :
    fault.span.Within text := by
  rcases Token.lex_total text with ⟨ls, hls⟩ | ⟨failure, hbad⟩
  · rw [read_of_isLexed hls] at h
    rcases blames_of_ofLexemes hls.commentLast h with ⟨l, hl, hblames⟩ | hcomma
    · rw [hblames.span]
      exact hls.within l hl
    · rw [hcomma]
      exact within_trimEnd text
  · rw [read_of_firstBad hbad] at h
    rw [← Except.error.inj h]
    exact hbad.within

/-- A line is read by the grammar. -/
structure ByGrammar (text : String) : Prop where
  /-- Either all the tokens are good, or there is a first bad one. -/
  tokens : (∃ ls, Token.IsLexed text ls) ∨ ∃ failure, Token.FirstBad text failure
  /-- Good tokens are read as what they say. -/
  reads : ∀ ls, Token.IsLexed text ls →
    ∀ content, read text = .ok content ↔ Says (ls.map Lexeme.symbol) content
  /-- Tokens that say nothing are refused. -/
  refuses : ∀ ls, Token.IsLexed text ls →
    (¬ ∃ content, Says (ls.map Lexeme.symbol) content) → ∃ fault, read text = .error fault
  /-- A bad token counts before anything else that is wrong. -/
  firstBad : ∀ failure, Token.FirstBad text failure →
    read text = .error ⟨.badToken failure.error, failure.span⟩
  /-- Lines that differ only in commas, and in the gaps between tokens, say the same. -/
  commas : ∀ text' ls ls' content content', Token.IsLexed text ls → Token.IsLexed text' ls' →
    withoutCommas (ls.map Lexeme.symbol) = withoutCommas (ls'.map Lexeme.symbol) →
    read text = .ok content → read text' = .ok content' → content = content'
  within : ∀ fault, read text = .error fault → fault.span.Within text

theorem byGrammar (text : String) : ByGrammar text where
  tokens := Token.lex_total text
  reads _ hls _ := read_eq_ok_iff hls
  refuses ls hls hnone := by
    cases hread : read text with
    | error fault => exact ⟨fault, rfl⟩
    | ok content => exact absurd ⟨content, (read_eq_ok_iff hls).mp hread⟩ hnone
  firstBad _ := read_of_firstBad
  commas _ _ _ _ _ hls hls' hsame hread hread' :=
    Says.eq_of_withoutCommas ((read_eq_ok_iff hls).mp hread) ((read_eq_ok_iff hls').mp hread') hsame
  within _ := within_of_read

end

end SourceLine

/-! ## Programs -/

namespace Program

/-- The error is that of the first faulty line, counted from `number`. -/
def FirstFault (lines : List String) (number : Nat) (e : ParseError) : Prop :=
  ∃ before after, lines = before ++ e.text :: after ∧
    (∀ line ∈ before, ∃ content, SourceLine.read line = .ok content) ∧
    SourceLine.read e.text = .error e.toLineFault ∧ e.line = number + before.length

section

variable {line : String} {lines : List String} {number : Nat} {e : ParseError}

theorem not_firstFault_nil : ¬ FirstFault [] number e := by
  rintro ⟨before, after, hlines, -⟩
  cases before <;> cases hlines

theorem firstFault_cons_of_error {fault : LineFault} (h : SourceLine.read line = .error fault) :
    FirstFault (line :: lines) number e ↔ e = ⟨fault, number, line⟩ := by
  obtain ⟨fault', number', text⟩ := e
  constructor
  · rintro ⟨before, after, hlines, hbefore, hfault, hnumber⟩
    cases before with
    | nil =>
      cases hlines
      cases h.symm.trans hfault
      cases hnumber
      rfl
    | cons _ before =>
      -- the line before has been read, but it is this one
      cases hlines
      obtain ⟨content, hcontent⟩ := hbefore line List.mem_cons_self
      cases h.symm.trans hcontent
  · intro he
    cases he
    exact ⟨[], lines, rfl, List.forall_mem_nil _, h, rfl⟩

theorem firstFault_cons_of_ok {content : SourceLine} (h : SourceLine.read line = .ok content) :
    FirstFault (line :: lines) number e ↔ FirstFault lines (number + 1) e := by
  constructor
  · rintro ⟨before, after, hlines, hbefore, hfault, hnumber⟩
    cases before with
    | nil =>
      obtain rfl := (List.cons.inj hlines).1
      cases h.symm.trans hfault
    | cons line' before =>
      refine ⟨before, after, (List.cons.inj hlines).2, (List.forall_mem_cons.mp hbefore).2,
        hfault, ?_⟩
      rw [hnumber, List.length_cons]
      omega
  · rintro ⟨before, after, rfl, hbefore, hfault, hnumber⟩
    refine ⟨line :: before, after, rfl, List.forall_mem_cons.mpr ⟨⟨content, h⟩, hbefore⟩,
      hfault, ?_⟩
    rw [hnumber, List.length_cons]
    omega

theorem foldlM_addLine_eq_error_iff {d : Draft} :
    (lines.zipIdx number).foldlM addLine d = .error e ↔ FirstFault lines number e := by
  induction lines generalizing number d with
  | nil => exact ⟨nofun, fun h => absurd h not_firstFault_nil⟩
  | cons line lines ih =>
    rw [List.zipIdx_cons, List.foldlM_cons, addLine]
    cases hread : SourceLine.read line with
    | error fault =>
      rw [firstFault_cons_of_error hread]
      exact ⟨fun h => (Except.error.inj h).symm, fun h => congrArg Except.error h.symm⟩
    | ok content =>
      rw [firstFault_cons_of_ok hread, ← ih]
      exact Iff.rfl

/-- **A program** fails with its first faulty line. -/
theorem ofLines_eq_error_iff : ofLines lines = .error e ↔ FirstFault lines 1 e := by
  rw [← foldlM_addLine_eq_error_iff]
  constructor
  · intro h
    rcases bind_eq_error h with h | ⟨d, -, h⟩
    · exact h
    · cases h
  · intro h
    unfold ofLines
    rw [h]
    rfl

end

/-- **Reading by the grammar.**  Every line is read by the grammar.  A program fails just if a line
    does, with the error of the first, and shows it within that line. -/
theorem ofLines_byGrammar (lines : List String) :
    (∀ line, SourceLine.ByGrammar line) ∧
    (∀ e, ofLines lines = .error e ↔ FirstFault lines 1 e) ∧
    ∀ e, ofLines lines = .error e → e.span.Within e.text := by
  refine ⟨SourceLine.byGrammar, fun e => ofLines_eq_error_iff, fun e h => ?_⟩
  obtain ⟨_, _, -, -, hfault, -⟩ := ofLines_eq_error_iff.mp h
  exact SourceLine.within_of_read hfault

/-- A line with all that a line may hold, and one with a comma too many. -/
def trailing : List String :=
  ["loop: add r1, r2 r3 # sum", "beq r1, &loop,"]

/-- The error in `trailing`. -/
def trailingError : ParseError where
  cause := .unexpected .trailingComma
  span := ⟨14, 14⟩
  line := 2
  text := "beq r1, &loop,"

theorem ofLines_byGrammar_trailing :
    ofLines trailing = .error trailingError ∧ FirstFault trailing 1 trailingError ∧
    trailingError.span.Within trailingError.text ∧
    ∃ ls, Token.IsLexed "loop: add r1, r2 r3 # sum" ls ∧
      SourceLine.Says (ls.map Lexeme.symbol) (.statement
        { labels := ["loop"], op := some (.real (.math .add)), operands := ["r1", "r2", "r3"],
          comment := some "sum" }) := by
  obtain ⟨hlines, herrors, hwithin⟩ := ofLines_byGrammar trailing
  have herror : ofLines trailing = .error trailingError := by decide +kernel
  refine ⟨herror, (herrors _).mp herror, hwithin _ herror, ?_⟩
  have hread : SourceLine.read "loop: add r1, r2 r3 # sum" = .ok (.statement
      { labels := ["loop"], op := some (.real (.math .add)), operands := ["r1", "r2", "r3"],
        comment := some "sum" }) := by decide +kernel
  have hline := hlines "loop: add r1, r2 r3 # sum"
  rcases hline.tokens with ⟨ls, hls⟩ | ⟨failure, hbad⟩
  · exact ⟨ls, hls, (hline.reads ls hls _).mp hread⟩
  · cases (hline.firstBad failure hbad).symm.trans hread

end Program

end AnnaToolchain
