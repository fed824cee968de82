import AnnaToolchain.Proofs.Token.Scan

/-! # Lexing step by step

    A text is lexed by skipping a gap or taking a token, again and again
    (`Lexing`).  Either that gets to the end, or it gets to a bad token:
    then that is the first one and the error that counts (`lex_total`).
    Every step goes on at a boundary between characters, so every token
    spans whole characters of the text (`Lexing.within`), and a comment is
    the last token, for it goes on to the end (`Lexing.commentLast`). -/

namespace AnnaToolchain

/-! ## Boundaries between characters -/

/-- The characters `cs` are those of the text from byte `start` on. -/
def Text.IsRest (text : String) (start : Nat) (cs : List Char) : Prop :=
  ∃ before, text.toList = before ++ cs ∧ (String.ofList before).utf8ByteSize = start

/-- The span lies within the text, and it starts and stops between characters. -/
structure Span.Within (text : String) (span : Span) : Prop where
  start_le : span.start ≤ span.stop
  start : String.Pos.Raw.IsValid text ⟨span.start⟩
  stop : String.Pos.Raw.IsValid text ⟨span.stop⟩

namespace Text

variable {text : String} {start : Nat} {cs cs' : List Char}

theorem isRest_toList (text : String) : IsRest text 0 text.toList :=
  ⟨[], rfl, rfl⟩

theorem IsRest.append (h : IsRest text start (cs ++ cs')) :
    IsRest text (start + (String.ofList cs).utf8ByteSize) cs' := by
  obtain ⟨before, htext, hsize⟩ := h
  refine ⟨before ++ cs, by rw [htext, List.append_assoc], ?_⟩
  rw [String.ofList_append, String.utf8ByteSize_append, hsize]

/-- The rest, with the first character and `n` more set apart. -/
theorem IsRest.cut {c : Char} (h : IsRest text start (c :: cs)) (n : Nat) :
    IsRest text start ((c :: cs.take n) ++ cs.drop n) := by
  rwa [List.cons_append, List.take_append_drop]

theorem IsRest.isValid (h : IsRest text start cs) : String.Pos.Raw.IsValid text ⟨start⟩ := by
  obtain ⟨before, htext, rfl⟩ := h
  refine String.Pos.Raw.isValid_iff_exists_append.mpr
    ⟨String.ofList before, String.ofList cs, ?_, rfl⟩
  rw [← String.ofList_append, ← htext, String.ofList_toList]

/-- What stands at the front of the rest spans whole characters. -/
theorem IsRest.within (h : IsRest text start (cs ++ cs')) :
    Span.Within text ⟨start, start + (String.ofList cs).utf8ByteSize⟩ :=
  ⟨Nat.le_add_right _ _, h.isValid, h.append.isValid⟩

end Text

namespace Token

/-! ## Steps -/

/-- From byte `start` on, the characters `cs` are read as the tokens `ls`; that gets to byte `stop`,
    where the characters `rest` are left. -/
inductive Lexing : Nat → List Char → List Lexeme → Nat → List Char → Prop
  | done {start : Nat} {cs : List Char} : Lexing start cs [] start cs
  | gap {start stop : Nat} {c : Char} {cs rest : List Char} {ls : List Lexeme}
      (hgap : isGap c = true) (h : Lexing (start + c.utf8Size) cs ls stop rest) :
      Lexing start (c :: cs) ls stop rest
  | token {start stop n : Nat} {c : Char} {cs rest : List Char} {ls : List Lexeme} {token : Token}
      (hgap : isGap c = false) (hscan : scan c cs = (n, .ok token))
      (h : Lexing (start + (String.ofList (c :: cs.take n)).utf8ByteSize) (cs.drop n) ls
        stop rest) :
      Lexing start (c :: cs) (⟨token, String.ofList (c :: cs.take n), start⟩ :: ls) stop rest

/-- The text is read as the tokens `ls`, and all of them are good. -/
def IsLexed (text : String) (ls : List Lexeme) : Prop :=
  ∃ stop, Lexing 0 text.toList ls stop []

/-- The first bad token of a text: all the tokens before it are good. -/
inductive FirstBad (text : String) : LexFailure → Prop
  | intro {ls : List Lexeme} {start n : Nat} {c : Char} {rest : List Char} {e : LexError}
      (h : Lexing 0 text.toList ls start (c :: rest)) (hgap : isGap c = false)
      (hscan : scan c rest = (n, .error e)) :
      FirstBad text ⟨e, ⟨start, start + (String.ofList (c :: rest.take n)).utf8ByteSize⟩⟩

section

variable {text : String} {start stop : Nat} {cs rest : List Char} {ls : List Lexeme}

/-- The steps are those that the lexer takes. -/
theorem Lexing.lexFrom_eq (h : Lexing start cs ls stop rest) (acc : List Lexeme) :
    lexFrom start acc cs = lexFrom stop (ls.reverse ++ acc) rest := by
  induction h generalizing acc with
  | done => rfl
  | gap hgap _ ih =>
    rw [lexFrom, if_pos hgap]
    exact ih acc
  | token hgap hscan _ ih =>
    rw [lexFrom, if_neg (Bool.eq_false_iff.mp hgap)]
    simp only [hscan]
    rw [ih, List.reverse_cons, List.append_assoc]
    rfl

theorem IsLexed.lex_eq (h : IsLexed text ls) : lex text = ⟨ls, none⟩ := by
  obtain ⟨stop, h⟩ := h
  rw [lex, h.lexFrom_eq, lexFrom, List.append_nil, List.reverse_reverse]

/-- A bad token is the end of it. -/
theorem Lexing.lex_eq_of_error {n : Nat} {c : Char} {e : LexError}
    (h : Lexing 0 text.toList ls start (c :: rest)) (hgap : isGap c = false)
    (hscan : scan c rest = (n, .error e)) :
    lex text
      = ⟨ls, some ⟨e, ⟨start, start + (String.ofList (c :: rest.take n)).utf8ByteSize⟩⟩⟩ := by
  rw [lex, h.lexFrom_eq, lexFrom, if_neg (Bool.eq_false_iff.mp hgap)]
  simp only [hscan, List.append_nil, List.reverse_reverse]

theorem FirstBad.failure_lex {failure : LexFailure} (h : FirstBad text failure) :
    (lex text).failure = some failure := by
  cases h with
  | intro h hgap hscan => rw [h.lex_eq_of_error hgap hscan]

/-- There is a way to go on until the end or a bad token. -/
theorem exists_lexing (start : Nat) (cs : List Char) :
    (∃ ls stop, Lexing start cs ls stop []) ∨
    ∃ ls stop c rest n e, Lexing start cs ls stop (c :: rest) ∧ isGap c = false ∧
      scan c rest = (n, .error e) := by
  induction hlength : cs.length using Nat.strong_induction_on generalizing start cs with
  | _ length ih =>
    cases cs with
    | nil => exact .inl ⟨[], start, .done⟩
    | cons c cs =>
      rw [List.length_cons] at hlength
      cases hgap : isGap c with
      | true =>
        rcases ih cs.length (by omega) (start + c.utf8Size) cs rfl with
          ⟨ls, stop, h⟩ | ⟨ls, stop, c', rest, n, e, h, hbad⟩
        · exact .inl ⟨ls, stop, .gap hgap h⟩
        · exact .inr ⟨ls, stop, c', rest, n, e, .gap hgap h, hbad⟩
      | false =>
        rcases hscan : scan c cs with ⟨n, e | token⟩
        · exact .inr ⟨[], start, c, cs, n, e, .done, hgap, hscan⟩
        · -- a token takes up its first character at least
          have hdrop : (cs.drop n).length < length := by
            rw [List.length_drop]
            omega
          rcases ih _ hdrop (start + (String.ofList (c :: cs.take n)).utf8ByteSize) _ rfl with
            ⟨ls, stop, h⟩ | ⟨ls, stop, c', rest, n', e, h, hbad⟩
          · exact .inl ⟨_, stop, .token hgap hscan h⟩
          · exact .inr ⟨_, stop, c', rest, n', e, .token hgap hscan h, hbad⟩

/-- **Lexing** gets to the end of a text or to its first bad token. -/
theorem lex_total (text : String) :
    (∃ ls, IsLexed text ls) ∨ ∃ failure, FirstBad text failure := by
  rcases exists_lexing 0 text.toList with
    ⟨ls, stop, h⟩ | ⟨ls, stop, c, rest, n, e, h, hgap, hscan⟩
  · exact .inl ⟨ls, stop, h⟩
  · exact .inr ⟨_, .intro h hgap hscan⟩

/-! ## Spans -/

theorem Lexing.within (h : Lexing start cs ls stop rest) (hrest : Text.IsRest text start cs) :
    (∀ l ∈ ls, l.span.Within text) ∧ Text.IsRest text stop rest := by
  induction h with
  | done => exact ⟨List.forall_mem_nil _, hrest⟩
  | @gap start _ c cs _ _ _ _ ih =>
    have hnext : Text.IsRest text (start + (String.ofList [c]).utf8ByteSize) cs :=
      Text.IsRest.append hrest
    rw [String.ofList_cons, String.ofList_nil, String.append_empty,
      String.utf8ByteSize_singleton] at hnext
    exact ih hnext
  | @token _ _ n _ _ _ _ _ _ _ _ ih =>
    obtain ⟨hls, hstop⟩ := ih (hrest.cut n).append
    exact ⟨List.forall_mem_cons.mpr ⟨(hrest.cut n).within, hls⟩, hstop⟩

theorem IsLexed.within (h : IsLexed text ls) : ∀ l ∈ ls, l.span.Within text := by
  obtain ⟨stop, h⟩ := h
  exact (h.within (Text.isRest_toList text)).1

theorem FirstBad.within {failure : LexFailure} (h : FirstBad text failure) :
    failure.span.Within text := by
  cases h with
  | @intro _ _ n _ _ _ h _ _ =>
    have hrest := (h.within (Text.isRest_toList text)).2
    exact (hrest.cut n).within

/-! ## Comments -/

/-- No token follows a comment. -/
def CommentLast (ls : List Lexeme) : Prop :=
  ls.Pairwise fun l _ => ∀ contents, l.token ≠ .comment contents

/-- A line feed is no part of any line: it is neither a gap nor a token. -/
theorem Lexing.ne_lineFeed (h : Lexing start cs ls stop []) : cs.head? ≠ some '\n' := by
  cases h with
  | done => nofun
  | gap hgap _ =>
    intro hhead
    obtain rfl := Option.some.inj hhead
    exact absurd hgap (by decide)
  | token _ hscan _ =>
    intro hhead
    obtain rfl := Option.some.inj hhead
    cases hscan

/-- Behind a comment nothing is left but what starts with a line feed. -/
theorem drop_comment (cs : List Char) :
    let left := cs.drop (cs.takeWhile (· ≠ '\n')).length
    left = [] ∨ left.head? = some '\n' := by
  have hsplit := List.takeWhile_append_dropWhile (p := (· ≠ '\n')) (l := cs)
  have hleft : cs.drop (cs.takeWhile (· ≠ '\n')).length = cs.dropWhile (· ≠ '\n') :=
    calc cs.drop (cs.takeWhile (· ≠ '\n')).length
        = (cs.takeWhile (· ≠ '\n') ++ cs.dropWhile (· ≠ '\n')).drop
            (cs.takeWhile (· ≠ '\n')).length := by rw [hsplit]
      _ = cs.dropWhile (· ≠ '\n') := List.drop_left
  have hhead := List.head?_dropWhile_not (· ≠ '\n') cs
  simp only [hleft]
  cases hdrop : cs.dropWhile (· ≠ '\n') with
  | nil => exact .inl rfl
  | cons d rest =>
    rw [hdrop] at hhead
    exact .inr (congrArg some (by simpa using hhead))

/-- **A comment** goes on to the end, so it is the last token. -/
theorem Lexing.commentLast (h : Lexing start cs ls stop []) : CommentLast ls := by
  generalize hend : ([] : List Char) = rest at h
  induction h with
  | done => exact List.Pairwise.nil
  | gap _ _ ih => exact ih hend
  | @token _ _ n c cs rest ls token _ hscan h ih =>
    subst hend
    refine List.pairwise_cons.mpr ⟨fun l hl contents htoken => ?_, ih rfl⟩
    obtain rfl : token = .comment contents := htoken
    cases scanned_of_scan hscan with
    | comment =>
      rcases drop_comment cs with hnil | hline
      · rw [hnil] at h
        cases h
        cases hl
      · exact h.ne_lineFeed hline

theorem IsLexed.commentLast (h : IsLexed text ls) : CommentLast ls := by
  obtain ⟨stop, h⟩ := h
  exact h.commentLast

end

end Token

end AnnaToolchain
