import AnnaToolchain.Proofs.Program.Faults
import AnnaToolchain.Proofs.Token.Alone
import AnnaToolchain.Proofs.Token.Bad

/-! # Characters at fault

    What is wrong with a line is shown at characters of it: those of a
    token, or none at all behind the last character for a comma too many
    (`SourceLine.exists_shown`).  The line goes on behind them, or ends
    there in something else than a carriage return, except that a text
    which is not closed takes in all that is left. -/

namespace AnnaToolchain

/-! ## Faults -/

/-- How the characters at fault end, and what is left of the line. -/
inductive ParseCause.Ends (left marked right : List Char) : ParseCause → Prop
  /-- A text that is not closed takes in all that is left. -/
  | unclosed {run : List Char} (hmarked : marked = '"' :: run) (hright : right = []) :
      Ends left marked right (.badToken .unclosedText)
  /-- Any other token at fault ends in no carriage return. -/
  | token {cause : ParseCause} (hcause : cause ≠ .badToken .unclosedText) (hmarked : marked ≠ [])
      (hlast : marked.getLast? ≠ some '\r') : Ends left marked right cause
  /-- A comma too many is shown behind the last character that is no white space. -/
  | comma (hmarked : marked = []) (hlast : ∀ c, left.getLast? = some c → Text.isBlank c = false) :
      Ends left marked right (.unexpected .trailingComma)

/-- The fault is shown at the characters `marked` of a line, between `left` and `right`. -/
structure LineFault.Shown (fault : LineFault) (line left marked right : List Char) : Prop where
  line : line = left ++ (marked ++ right)
  start : fault.span.start = (String.ofList left).utf8ByteSize
  stop : fault.span.stop = (String.ofList (left ++ marked)).utf8ByteSize
  ends : fault.cause.Ends left marked right

namespace SourceLine

variable {text : String} {fault : LineFault}

/-- A fault is shown where the token stands that it is about. -/
theorem shown_of_isRest {start : Nat} {marked right : List Char}
    (hrest : Text.IsRest text start (marked ++ right))
    (hspan : fault.span = ⟨start, start + (String.ofList marked).utf8ByteSize⟩)
    (hends : ∀ left, fault.cause.Ends left marked right) :
    ∃ left marked right, fault.Shown text.toList left marked right := by
  obtain ⟨left, htext, rfl⟩ := hrest
  refine ⟨left, marked, right, htext, by rw [hspan], ?_, hends left⟩
  rw [hspan, String.ofList_append, String.utf8ByteSize_append]

theorem shown_of_firstBad {failure : LexFailure} (htext : '\n' ∉ text.toList)
    (h : Token.FirstBad text failure) :
    ∃ left marked right, LineFault.Shown ⟨.badToken failure.error, failure.span⟩ text.toList
      left marked right := by
  cases h with
  | @intro ls start n c rest e h hgap hscan =>
    have hstart := (h.within (Text.isRest_toList text)).2
    have hrest : '\n' ∉ rest := by
      obtain ⟨before, hbefore, -⟩ := hstart
      rw [hbefore] at htext
      exact fun hmem => htext (List.mem_append_right _ (List.mem_cons_of_mem _ hmem))
    refine shown_of_isRest (hstart.cut n) rfl fun left => ?_
    cases Token.badEnd_of_scan hgap hscan with
    | unclosed =>
      rw [Text.restOfLine_of_not_mem hrest]
      exact .unclosed rfl List.drop_length
    | closed he hlast =>
      exact .token (fun heq => he (ParseCause.badToken.inj heq)) (List.cons_ne_nil _ _) hlast

theorem shown_of_blames {ls : List Lexeme} {l : Lexeme} (hls : Token.IsLexed text ls) (hl : l ∈ ls)
    (h : Blames fault l) : ∃ left marked right, fault.Shown text.toList left marked right := by
  obtain ⟨stop, hlexing⟩ := hls
  obtain ⟨c, rest, n, hstart, hgap, hscan, htext⟩ := hlexing.found hl
  have hlast := ((Token.spells_of_scan hgap hscan h.token).isLine h.token).2
  rw [String.toList_ofList] at hlast
  refine shown_of_isRest (hstart.cut n) ?_ fun left => ?_
  · rw [h.span, Lexeme.span, Lexeme.stop, htext]
  · exact .token (h.cause _) (List.cons_ne_nil _ _) hlast

theorem shown_trailingComma (text : String) :
    ∃ left marked right, LineFault.Shown ⟨.unexpected .trailingComma,
      ⟨(Text.trimEnd text).utf8ByteSize, (Text.trimEnd text).utf8ByteSize⟩⟩ text.toList
      left marked right := by
  obtain ⟨rest, hrest⟩ := Text.isPrefix_trimEndChars text.toList
  refine ⟨Text.trimEndChars text.toList, [], rest, hrest.symm, rfl, ?_, ?_⟩
  · rw [List.append_nil]
    rfl
  · exact .comma rfl fun c => Text.getLast?_trimEndChars

/-- **A fault** in a line is shown at characters of the line. -/
theorem exists_shown (htext : '\n' ∉ text.toList) (h : read text = .error fault) :
    ∃ left marked right, fault.Shown text.toList left marked right := by
  rcases Token.lex_total text with ⟨ls, hls⟩ | ⟨failure, hbad⟩
  · rw [read_of_isLexed hls] at h
    rcases blames_of_ofLexemes hls.commentLast h with ⟨l, hl, hblames⟩ | rfl
    · exact shown_of_blames hls hl hblames
    · exact shown_trailingComma text
  · rw [read_of_firstBad hbad] at h
    obtain rfl := Except.error.inj h
    exact shown_of_firstBad htext hbad

end SourceLine

end AnnaToolchain
