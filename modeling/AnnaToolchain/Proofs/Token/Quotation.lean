import AnnaToolchain.Proofs.Program.Printing

/-! # Quoted operands

    Every text can be written between quotes, and is read back
    (`Operand.parse_quote`): what is escaped is resolved to what it was, and
    no quote but the last is taken for the closing one.  The other way round,
    an operand is read as a text only if it is a quotation of it
    (`Operand.quotes_of_parse`). -/

namespace AnnaToolchain

namespace Quotation

/-! ## Escapes -/

/-- A character is written as itself, or as a backslash and a character that stands for it. -/
theorem escapeChar_cases (c : Char) :
    (escapeChar c = [c] ∧ c ≠ '\\' ∧ c ≠ '"' ∧ c ≠ '\n') ∨
      ∃ e, escapeChar c = ['\\', e] ∧ e ≠ '\n' ∧ resolve e = [c] := by
  unfold escapeChar
  split
  · exact .inr ⟨'n', rfl, by decide, rfl⟩
  · exact .inr ⟨'r', rfl, by decide, rfl⟩
  · exact .inr ⟨'t', rfl, by decide, rfl⟩
  · exact .inr ⟨'\\', rfl, by decide, rfl⟩
  · exact .inr ⟨'0', rfl, by decide, rfl⟩
  · exact .inr ⟨'"', rfl, by decide, rfl⟩
  · next hline _ _ hbackslash _ hquote => exact .inl ⟨rfl, hbackslash, hquote, hline⟩

theorem escape_cons (c : Char) (cs : List Char) : escape (c :: cs) = escapeChar c ++ escape cs :=
  List.flatMap_cons

theorem foldl_escape (cs acc : List Char) :
    (escape cs).foldl resolveStep (acc, false) = (cs.reverse ++ acc, false) := by
  induction cs generalizing acc with
  | nil => rfl
  | cons c cs ih =>
    have hchar : (escapeChar c).foldl resolveStep (acc, false) = (c :: acc, false) := by
      rcases escapeChar_cases c with ⟨hself, hbackslash, -, -⟩ | ⟨e, hescape, -, hresolve⟩
      · rw [hself]
        simp [resolveStep, hbackslash]
      · rw [hescape]
        simp [resolveStep, hresolve]
    rw [escape_cons, List.foldl_append, hchar, ih, List.reverse_cons, List.append_assoc]
    rfl

/-- What is escaped is resolved to what it was. -/
theorem unescape_escape (cs : List Char) : unescape (escape cs) = cs := by
  unfold unescape
  rw [foldl_escape]
  simp

/-- The quote that closes an escaped text is found behind it. -/
theorem closing?_escape (cs rest : List Char) (index : Nat) :
    closing? false index (escape cs ++ '"' :: rest) = some (index + (escape cs).length) := by
  induction cs generalizing index with
  | nil => rfl
  | cons c cs ih =>
    rw [escape_cons]
    rcases escapeChar_cases c with ⟨hself, hbackslash, hquote, hline⟩ | ⟨e, hescape, hline, -⟩
    · rw [hself, List.singleton_append, List.cons_append, closing?, if_neg hline,
        if_neg fun h => hquote h.1]
      have hnext : (c == '\\' && !false) = false := by simpa using hbackslash
      rw [hnext, ih, List.length_cons]
      congr 1
      omega
    · -- the character behind the backslash closes nothing, not even as a quote
      have hnext : (e == '\\' && !true) = false := by simp
      rw [hescape]
      show closing? true (index + 1) (e :: (escape cs ++ '"' :: rest))
        = some (index + ((escape cs).length + 1 + 1))
      rw [closing?, if_neg hline, if_neg (by simp), hnext, ih]
      congr 1
      omega

theorem read_escape {s : String} (h : s.length ≤ maxLength) : read (escape s.toList) = .ok s := by
  have hlength : s.toList.length ≤ maxLength := by rwa [String.length_toList]
  unfold read
  simp only [unescape_escape, if_pos hlength, String.ofList_toList]

/-! ## Operands -/

theorem toList_quote (s : String) : (quote s).toList = '"' :: (escape s.toList ++ ['"']) :=
  String.toList_ofList

/-- A quoted text is its token, whatever follows. -/
theorem spells_quote {s : String} (h : s.length ≤ maxLength) :
    Token.Spells (.text s) (quote s) := by
  refine ⟨'"', escape s.toList ++ ['"'], toList_quote s, by decide, fun rest _ => ?_⟩
  have hclosing := closing?_escape s.toList rest 0
  rw [Nat.zero_add] at hclosing
  have hread : read ((escape s.toList ++ '"' :: rest).take (escape s.toList).length) = .ok s := by
    rw [List.take_left]
    exact read_escape h
  have hscan := (Token.Scanned.text hclosing hread).scan_eq
  rw [List.append_assoc, List.singleton_append, hscan, List.length_append, List.length_singleton]

theorem isOperandText_quote {s : String} (h : s.length ≤ maxLength) : IsOperandText (quote s) :=
  ⟨.text s, spells_quote h, rfl⟩

end Quotation

/-! ## Operands -/

/-- The operand is read as the text, for it is a quotation of it: between its quotes, of which the
    second is the first that closes, stands the text with escapes.  There may be gaps around it. -/
structure Quotes (operand text : String) : Prop where
  parse : Operand.parse operand = .ok (.text text)
  quotation : ∃ before body after, operand.toList = before ++ '"' :: (body ++ '"' :: after) ∧
    (∀ c ∈ before ++ after, Token.isGap c = true) ∧
    Quotation.closing? false 0 (body ++ '"' :: after) = some body.length ∧
    text.toList = Quotation.unescape body

namespace Operand

/-- **Every text** can be quoted. -/
theorem parse_quote {s : String} (h : s.length ≤ Quotation.maxLength) :
    parse (Quotation.quote s) = .ok (.text s) :=
  parse_of_spells (Quotation.spells_quote h) rfl

theorem eq_text_of_ofToken? {token : Token} {contents : String}
    (h : ofToken? token = some (.text contents)) : token = .text contents := by
  unfold ofToken? at h
  split at h <;> cases h
  rfl

/-- **Every operand** that is read as a text is a quotation. -/
theorem quotes_of_parse {operand text : String} (h : parse operand = .ok (.text text)) :
    Quotes operand text := by
  obtain ⟨l, hlex, htoken⟩ := lexeme_of_parse h
  obtain ⟨before, c, rest, n, htext, hbefore, hscan, hafter⟩ := Token.exists_scan_of_lexFrom hlex
  rw [eq_text_of_ofToken? htoken] at hscan
  cases Token.scanned_of_scan hscan with
  | @text m _ hclosing hread =>
    obtain ⟨body, after, rfl, hm, -⟩ := Token.exists_of_closing? hclosing
    obtain rfl : m = body.length := by omega
    have hrest : (body ++ '"' :: after).drop (body.length + 1) = after := by
      rw [List.drop_append, List.drop_of_length_le (Nat.le_succ _), Nat.add_sub_cancel_left]
      rfl
    rw [hrest] at hafter
    refine ⟨h, before, body, after, htext, ?_, hclosing, ?_⟩
    · intro c hc
      exact (List.mem_append.mp hc).elim (hbefore c) (hafter c)
    · rw [List.take_left] at hread
      unfold Quotation.read at hread
      simp only at hread
      split at hread
      · rw [← Except.ok.inj hread, String.toList_ofList]
      · cases hread

theorem quotes_quote {s : String} (h : s.length ≤ Quotation.maxLength) :
    Quotes (Quotation.quote s) s :=
  quotes_of_parse (parse_quote h)

end Operand

end AnnaToolchain
