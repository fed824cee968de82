import AnnaToolchain.Program.Reader
import AnnaToolchain.Proofs.Text.ReadBack
import AnnaToolchain.Proofs.Token.Spelling

/-! # Printed lines

    Every line that a statement is printed as is read again: a comment as a
    comment, a label as a label, and code as a statement with the same
    mnemonic and operands (`Statement.read_sourceLines`).  Only white space
    around comments is lost. -/

namespace AnnaToolchain

/-- Whether a token can be an operand. -/
def Token.isOperand : Token → Bool
  | .unsigned _ | .signed _ | .register _ | .label _ | .name _ | .text _ => true
  | .directive _ | .colon | .comma | .comment _ => false

theorem Token.ne_of_isOperand {token token' : Token} (h : token.isOperand = true)
    (h' : token'.isOperand = false) : token ≠ token' := by
  rintro rfl
  rw [h] at h'
  cases h'

/-- The text of one operand. -/
def IsOperandText (text : String) : Prop :=
  ∃ token, Token.Spells token text ∧ token.isOperand = true

/-- The name of a label. -/
def IsLabelName (name : String) : Prop :=
  Token.Spells (.name name) name

/-- A comment that stays within its line. -/
def IsCommentText (contents : String) : Prop :=
  Text.IsLine contents.toList

/-- A statement that can be printed and read again.  Its comments satisfy `isComment`. -/
structure Statement.Written (isComment : String → Prop) (s : Statement) : Prop where
  labels : ∀ name ∈ s.labels, IsLabelName name
  operands : ∀ text ∈ s.operands, IsOperandText text
  comment : ∀ contents, s.comment = some contents → isComment contents
  leading : ∀ contents, .comment contents ∈ s.leading → isComment contents
  trailing : ∀ contents, .comment contents ∈ s.trailing → isComment contents

/-! ## Tokens of printed lines -/

theorem Text.trimChars_cons_blank {c : Char} (h : isBlank c = true) (cs : List Char) :
    trimChars (c :: cs) = trimChars cs := by
  unfold trimChars
  rw [List.dropWhile_cons_of_pos h]

theorem toList_commentText (contents : String) :
    (commentText contents).toList =
      '#' :: if contents = "" then [] else ' ' :: contents.toList := by
  unfold commentText
  split
  · rfl
  · rw [String.toList_append]
    rfl

theorem IsCommentText.commentText {contents : String} (h : IsCommentText contents) :
    Text.IsLine (commentText contents).toList := by
  rw [toList_commentText]
  split
  · exact ⟨by decide, by decide⟩
  · have hsign : Text.IsLine ['#', ' '] := ⟨by decide, by decide⟩
    exact hsign.append h

theorem IsOperandText.isLine {text : String} (h : IsOperandText text) :
    Text.IsLine text.toList := by
  obtain ⟨token, hspells, hoperand⟩ := h
  exact hspells.isLine fun contents => Token.ne_of_isOperand hoperand rfl

namespace Token

/-- The token of a comment. -/
def ofComment (contents : String) : Token × String :=
  (.comment (Text.trim contents), commentText contents)

theorem reads_commentText {contents : String} (h : '\n' ∉ contents.toList) :
    Reads (commentText contents).toList [ofComment contents] := by
  unfold ofComment
  have htext := toList_commentText contents
  split at htext
  · next hempty =>
    have hread : Reads ['#'] _ := reads_comment List.not_mem_nil
    rw [← htext, String.ofList_toList] at hread
    rw [hempty]
    rwa [hempty] at hread
  · have hbody : '\n' ∉ ' ' :: contents.toList := by
      rw [List.mem_cons, not_or]
      exact ⟨by decide, h⟩
    have hread := reads_comment hbody
    rw [Text.trimChars_cons_blank (by decide), ← htext, String.ofList_toList] at hread
    exact hread

theorem reads_label {name : String} (h : IsLabelName name) :
    Reads (name ++ ":").toList [(.name name, name), (.colon, ":")] := by
  rw [String.toList_append]
  exact (reads_nil.token spells_colon stops_nil).token h (stops_cons (by decide) _)

theorem Reads.indented {text : String} {contents : List (Token × String)}
    (h : Reads text.toList contents) : Reads ("    " ++ text).toList contents := by
  have hgap : isGap ' ' = true := by decide
  rw [String.toList_append]
  exact (((h.gap hgap).gap hgap).gap hgap).gap hgap

/-- The comma between two operands. -/
def separator : Token × String :=
  (.comma, ",")

/-- Operands with commas between them. -/
theorem Reads.operands {cs : List Char} {contents : List (Token × String)} (hstops : Stops cs)
    (h : Reads cs contents) {x : Token × String} {xs : List (Token × String)}
    (hspells : ∀ y ∈ x :: xs, Spells y.1 y.2) :
    Reads ((String.intercalate ", " ((x :: xs).map (·.2))).toList ++ cs)
      ((x :: xs).intersperse separator ++ contents) := by
  rw [String.toList_intercalate]
  induction xs generalizing x with
  | nil =>
    have hx := hspells x List.mem_cons_self
    rw [List.map_singleton, List.map_singleton, List.intercalate_singleton]
    exact h.token hx hstops
  | cons y ys ih =>
    have hx := hspells x List.mem_cons_self
    have hrest := ih fun z hz => hspells z (List.mem_cons_of_mem _ hz)
    have hcomma := (hrest.gap (c := ' ') (by decide)).token spells_comma (stops_cons (by decide) _)
    have hall := hcomma.token hx (stops_cons (by decide) _)
    rw [List.map_cons, List.map_cons, List.map_cons, List.map_cons, List.intercalate_cons_cons,
      List.append_assoc, List.append_assoc]
    rw [List.map_cons, List.map_cons] at hall
    exact hall

end Token

theorem exists_tokens {texts : List String} (h : ∀ text ∈ texts, IsOperandText text) :
    ∃ xs : List (Token × String), xs.map (·.2) = texts ∧
      ∀ x ∈ xs, Token.Spells x.1 x.2 ∧ x.1.isOperand = true := by
  induction texts with
  | nil => exact ⟨[], rfl, nofun⟩
  | cons text texts ih =>
    obtain ⟨xs, hxs, hall⟩ := ih fun t ht => h t (List.mem_cons_of_mem _ ht)
    obtain ⟨token, htoken⟩ := h text List.mem_cons_self
    exact ⟨(token, text) :: xs, by rw [List.map_cons, hxs], List.forall_mem_cons.mpr ⟨htoken, hall⟩⟩

namespace Statement

variable {s : Statement} {op : Mnemonic} {xs : List (Token × String)}

theorem reads_codeText {cs : List Char} {contents : List (Token × String)} (hop : s.op = some op)
    (hxs : xs.map (·.2) = s.operands) (hspells : ∀ x ∈ xs, Token.Spells x.1 x.2)
    (hstops : Token.Stops cs) (h : Token.Reads cs contents) :
    Token.Reads (s.codeText.toList ++ cs)
      ((op.token, op.name) :: (xs.intersperse Token.separator ++ contents)) := by
  unfold codeText
  simp only [hop]
  cases xs with
  | nil =>
    rw [List.map_nil] at hxs
    rw [← hxs]
    exact h.token op.spells_token hstops
  | cons x xs =>
    have hoperands := (Token.Reads.operands hstops h hspells).gap (c := ' ') (by decide)
    have hall := hoperands.token op.spells_token (Token.stops_cons (by decide) _)
    rw [hxs] at hall
    rw [List.map_cons] at hxs
    rw [← hxs] at hall ⊢
    rw [String.toList_append, String.toList_append, List.append_assoc, List.append_assoc]
    exact hall

theorem codeText_ne_empty (hop : s.op = some op) : s.codeText ≠ "" := by
  obtain ⟨c, run, hname, -⟩ := op.spells_token
  intro hempty
  have hlist := congrArg String.toList hempty
  unfold codeText at hlist
  simp only [hop] at hlist
  split at hlist
  · rw [hname] at hlist
    cases hlist
  · rw [String.toList_append, String.toList_append, hname] at hlist
    cases hlist

/-- A statement is printed as its mnemonic, its operands and its comment. -/
theorem reads_text (hop : s.op = some op) (hxs : xs.map (·.2) = s.operands)
    (hspells : ∀ x ∈ xs, Token.Spells x.1 x.2)
    (hcomment : ∀ c, s.comment = some c → '\n' ∉ c.toList) :
    Token.Reads s.text.toList
      ((op.token, op.name) ::
        (xs.intersperse Token.separator ++ s.comment.toList.map Token.ofComment)) := by
  unfold text
  cases hc : s.comment with
  | none =>
    have hcode := reads_codeText hop hxs hspells Token.stops_nil Token.reads_nil
    rwa [List.append_nil] at hcode
  | some c =>
    have hgap := (Token.reads_commentText (hcomment c hc)).gap (c := ' ') (by decide)
    have hall := reads_codeText hop hxs hspells (Token.stops_cons (by decide) _) hgap
    simp only [if_neg (codeText_ne_empty hop)]
    rw [String.toList_append, String.toList_append, List.append_assoc]
    exact hall

end Statement

/-! ## Lines -/

namespace SourceLine

theorem Tail.add_operand {tail : Tail} {l : Lexeme} (h : l.token.isOperand = true) :
    tail.add l = .ok { tail with operands := l.text :: tail.operands, afterComma := false } := by
  unfold Tail.add
  split <;> simp_all [Token.isOperand]

theorem Tail.add_comma {tail : Tail} {l : Lexeme} (h : l.token = .comma)
    (hoperands : tail.operands ≠ []) (hcomma : tail.afterComma = false) :
    tail.add l = .ok { tail with afterComma := true } := by
  unfold Tail.add
  rw [h]
  simp [hoperands, hcomma]

theorem Tail.add_comment {tail : Tail} {l : Lexeme} {contents : String}
    (h : l.token = .comment contents) :
    tail.add l = .ok { tail with comment := some contents } := by
  unfold Tail.add
  rw [h]

/-- What a token that is read may be. -/
theorem Tail.add_cases {tail tail' : Tail} {l : Lexeme} (h : tail.add l = .ok tail') :
    (l.token = .comma ∧ tail.operands ≠ [] ∧ tail.afterComma = false ∧
      tail' = { tail with afterComma := true }) ∨
    (∃ contents, l.token = .comment contents ∧ tail' = { tail with comment := some contents }) ∨
    (l.token.isOperand = true ∧
      tail' = { tail with operands := l.text :: tail.operands, afterComma := false }) := by
  cases htoken : l.token with
  | comma =>
    unfold Tail.add at h
    rw [htoken] at h
    simp only at h
    split at h
    · cases h
    · next hcomma =>
      rw [not_or, Bool.not_eq_true] at hcomma
      exact .inl ⟨rfl, hcomma.1, hcomma.2, (Except.ok.inj h).symm⟩
  | colon | directive =>
    unfold Tail.add at h
    rw [htoken] at h
    cases h
  | comment contents =>
    rw [Tail.add_comment htoken] at h
    exact .inr (.inl ⟨contents, rfl, (Except.ok.inj h).symm⟩)
  | unsigned | signed | register | label | name | text =>
    rw [Tail.add_operand (by rw [htoken]; rfl)] at h
    exact .inr (.inr ⟨rfl, (Except.ok.inj h).symm⟩)

variable {xs : List (Token × String)}

theorem foldlM_operands {ls : List Lexeme} {x : Token × String} {tail : Tail}
    (hls : ls.map Lexeme.content = (x :: xs).intersperse Token.separator)
    (hoperands : ∀ y ∈ x :: xs, y.1.isOperand = true) :
    ls.foldlM Tail.add tail
      = .ok { tail with
          operands := ((x :: xs).map (·.2)).reverse ++ tail.operands, afterComma := false } := by
  induction xs generalizing ls x tail with
  | nil =>
    obtain ⟨l, ls', rfl, rfl, hls'⟩ := List.map_eq_cons_iff.mp hls
    obtain rfl := List.map_eq_nil_iff.mp hls'
    rw [List.foldlM_cons, Tail.add_operand (hoperands l.content List.mem_cons_self)]
    rfl
  | cons y ys ih =>
    rw [List.intersperse_cons_cons] at hls
    obtain ⟨l, ls₁, rfl, rfl, hls₁⟩ := List.map_eq_cons_iff.mp hls
    obtain ⟨comma, ls₂, rfl, hcomma, hls₂⟩ := List.map_eq_cons_iff.mp hls₁
    have hoperands' : ∀ z ∈ y :: ys, z.1.isOperand = true := fun z hz =>
      hoperands z (List.mem_cons_of_mem _ hz)
    rw [List.foldlM_cons, Tail.add_operand (hoperands l.content List.mem_cons_self)]
    show (comma :: ls₂).foldlM Tail.add _ = _
    rw [List.foldlM_cons, Tail.add_comma (congrArg Prod.fst hcomma) (List.cons_ne_nil _ _) rfl]
    show ls₂.foldlM Tail.add _ = _
    rw [ih hls₂ hoperands', List.map_cons (l := y :: ys), List.reverse_cons, List.append_assoc]
    rfl

/-- What a statement's operands and comment are read as. -/
theorem foldlM_tail {ls : List Lexeme} {comment : Option String}
    (hls : ls.map Lexeme.content
      = xs.intersperse Token.separator ++ comment.toList.map Token.ofComment)
    (hoperands : ∀ y ∈ xs, y.1.isOperand = true) :
    ls.foldlM Tail.add {}
      = .ok { operands := (xs.map (·.2)).reverse, comment := comment.map Text.trim } := by
  obtain ⟨ls₁, ls₂, rfl, hls₁, hls₂⟩ := List.map_eq_append_iff.mp hls
  have hfirst : ls₁.foldlM Tail.add {}
      = .ok { operands := (xs.map (·.2)).reverse } := by
    cases xs with
    | nil =>
      obtain rfl := List.map_eq_nil_iff.mp hls₁
      rfl
    | cons x xs =>
      rw [foldlM_operands hls₁ hoperands, List.append_nil]
  rw [List.foldlM_append, hfirst]
  cases comment with
  | none =>
    obtain rfl := List.map_eq_nil_iff.mp hls₂
    rfl
  | some contents =>
    obtain ⟨l, ls', rfl, hl, hls'⟩ := List.map_eq_cons_iff.mp hls₂
    obtain rfl := List.map_eq_nil_iff.mp hls'
    show [l].foldlM Tail.add _ = _
    rw [List.foldlM_cons, Tail.add_comment (congrArg Prod.fst hl)]
    rfl

/-! ## Lines -/

/-- What a line of trivia is read as. -/
def ofTrivia : Trivia → SourceLine
  | .blank => .blank
  | .comment contents => .comment (Text.trim contents)

theorem read_of_reads {text : String} {contents : List (Token × String)}
    (h : Token.Reads text.toList contents) :
    ∃ ls, ls.map Lexeme.content = contents ∧
      read text = ofLexemes ls (Text.trimEnd text).utf8ByteSize := by
  obtain ⟨ls, hlex, hls⟩ := h.lex_eq
  refine ⟨ls, hls, ?_⟩
  unfold read
  rw [hlex]

theorem read_trivia {t : Trivia} (h : ∀ c, t = .comment c → '\n' ∉ c.toList) :
    read t.text = .ok (ofTrivia t) := by
  cases t with
  | blank =>
    have hempty : Token.Reads "".toList [] := Token.reads_nil
    obtain ⟨ls, hls, hread⟩ := read_of_reads hempty
    obtain rfl := List.map_eq_nil_iff.mp hls
    exact hread
  | comment contents =>
    obtain ⟨ls, hls, hread⟩ := read_of_reads (Token.reads_commentText (h contents rfl))
    obtain ⟨l, ls', rfl, hl, hls'⟩ := List.map_eq_cons_iff.mp hls
    obtain rfl := List.map_eq_nil_iff.mp hls'
    obtain ⟨token, text, start⟩ := l
    cases hl
    exact hread

theorem read_label {name : String} (h : IsLabelName name) :
    read (name ++ ":") = .ok (.labels [name] none) := by
  obtain ⟨ls, hls, hread⟩ := read_of_reads (Token.reads_label h)
  obtain ⟨l, ls₁, rfl, hl, hls₁⟩ := List.map_eq_cons_iff.mp hls
  obtain ⟨colon, ls₂, rfl, hcolon, hls₂⟩ := List.map_eq_cons_iff.mp hls₁
  obtain rfl := List.map_eq_nil_iff.mp hls₂
  obtain ⟨token, text, start⟩ := l
  obtain ⟨token', text', start'⟩ := colon
  obtain rfl : token = .name name := congrArg Prod.fst hl
  obtain rfl : token' = .colon := congrArg Prod.fst hcolon
  exact hread

/-- No label is taken from a line whose second token is no colon. -/
theorem takeLabels_of_ne_colon {l : Lexeme} {ls : List Lexeme}
    (h : ∀ l', ls.head? = some l' → l'.token ≠ .colon) : takeLabels (l :: ls) = ([], l :: ls) := by
  unfold takeLabels
  split
  · next heq =>
    cases heq
    exact absurd rfl (h _ rfl)
  · next heq => rfl

theorem takeLabels_subset (ls : List Lexeme) : (takeLabels ls).2 ⊆ ls := by
  induction ls using takeLabels.induct with
  | case1 name _ _ _ _ rest ih =>
    exact fun l hl => List.mem_cons_of_mem _ (List.mem_cons_of_mem _ (ih hl))
  | case2 rest hrest =>
    rw [takeLabels.eq_2 _ hrest]
    exact List.Subset.refl _

/-- A line is read as a statement if a mnemonic follows the labels. -/
theorem ofLexemes_of_mnemonic {names : List String} {l : Lexeme} {ls rest : List Lexeme}
    {op : Mnemonic} {stop : Nat} (hlabels : takeLabels ls = (names, l :: rest))
    (hop : (∃ name, l.token = .name name ∧ Mnemonic.ofName? name = some op) ∨
      ∃ name, l.token = .directive name ∧ Mnemonic.ofName? ("." ++ name) = some op) :
    ofLexemes ls stop = readStatement names op rest stop := by
  obtain ⟨token, text, start⟩ := l
  unfold ofLexemes
  rw [hlabels]
  rcases hop with ⟨name, rfl, hname⟩ | ⟨name, rfl, hname⟩
  · show (do readStatement names (← mnemonic name _) rest stop) = _
    unfold mnemonic
    rw [hname]
    rfl
  · show (do readStatement names (← mnemonic ("." ++ name) _) rest stop) = _
    unfold mnemonic
    rw [hname]
    rfl

/-- A line that starts with a mnemonic is read as a statement. -/
theorem ofLexemes_of_token {l : Lexeme} {ls : List Lexeme} {op : Mnemonic} {stop : Nat}
    (htoken : l.token = op.token) (h : ∀ l', ls.head? = some l' → l'.token ≠ .colon) :
    ofLexemes (l :: ls) stop = readStatement [] op ls stop := by
  refine ofLexemes_of_mnemonic (takeLabels_of_ne_colon h) ?_
  rw [htoken]
  refine op.token_eq.imp (fun hname => ⟨op.name, hname, op.ofName?_name⟩) ?_
  rintro ⟨name, hname, hdot⟩
  exact ⟨name, hname, by rw [hdot, op.ofName?_name]⟩

/-- A mnemonic and operands, with or without a comment, are read as a statement. -/
theorem read_of_reads_code {text : String} {op : Mnemonic} {comment : Option String}
    (hreads : Token.Reads text.toList ((op.token, op.name) ::
      (xs.intersperse Token.separator ++ comment.toList.map Token.ofComment)))
    (hoperands : ∀ x ∈ xs, x.1.isOperand = true) :
    read text = .ok (.statement { op := some op, operands := xs.map (·.2),
                                  comment := comment.map Text.trim }) := by
  obtain ⟨ls, hls, hread⟩ := read_of_reads hreads
  obtain ⟨l, ls', rfl, hl, hls'⟩ := List.map_eq_cons_iff.mp hls
  have htail := foldlM_tail hls' hoperands
  have hcolon : ∀ l', ls'.head? = some l' → l'.token ≠ .colon := by
    intro l' hhead hcolon
    cases ls' with
    | nil => cases hhead
    | cons l'' ls'' =>
      obtain rfl := Option.some.inj hhead
      rw [List.foldlM_cons, Tail.add, hcolon] at htail
      cases htail
  rw [hread, ofLexemes_of_token (congrArg Prod.fst hl) hcolon, readStatement, htail]
  show Except.ok _ = _
  rw [List.reverse_reverse]

/-- The line of a statement is read as that statement, its comment trimmed. -/
theorem read_text {s : Statement} {op : Mnemonic} (hop : s.op = some op)
    (hoperands : ∀ text ∈ s.operands, IsOperandText text)
    (hcomment : ∀ c, s.comment = some c → '\n' ∉ c.toList) :
    read ("    " ++ s.text)
      = .ok (.statement { op := some op, operands := s.operands,
                          comment := s.comment.map Text.trim }) := by
  obtain ⟨xs, hxs, hall⟩ := exists_tokens hoperands
  have hreads := Statement.reads_text hop hxs (fun x hx => (hall x hx).1) hcomment
  rw [read_of_reads_code hreads.indented fun x hx => (hall x hx).2, hxs]

/-- Code without indentation is read as well. -/
theorem read_codeText {s : Statement} {op : Mnemonic} (hop : s.op = some op)
    (hoperands : ∀ text ∈ s.operands, IsOperandText text) :
    read s.codeText = .ok (.statement { op := some op, operands := s.operands }) := by
  obtain ⟨xs, hxs, hall⟩ := exists_tokens hoperands
  have hreads := Statement.reads_codeText hop hxs (fun x hx => (hall x hx).1) Token.stops_nil
    Token.reads_nil
  rw [List.append_nil] at hreads
  have hread := @read_of_reads_code xs s.codeText op none hreads fun x hx => (hall x hx).2
  rwa [hxs] at hread

end SourceLine

namespace Statement

/-- What the line of the statement itself is read as. -/
def ownContents (s : Statement) : List SourceLine :=
  match s.op, s.comment with
  | some op, comment =>
    [.statement { op := some op, operands := s.operands, comment := comment.map Text.trim }]
  | none, some contents => [.comment (Text.trim contents)]
  | none, none => []

/-- What the lines of a statement are read as. -/
def contents (s : Statement) : List SourceLine :=
  s.leading.map .ofTrivia ++ s.labels.map (.labels [·] none) ++ s.ownContents
    ++ s.trailing.map .ofTrivia

section

variable {s : Statement} (h : s.Written IsCommentText)

include h

theorem read_ownLines : s.ownLines.map SourceLine.read = s.ownContents.map .ok := by
  have hcomment : ∀ c, s.comment = some c → '\n' ∉ c.toList := fun c hc => (h.comment c hc).1
  unfold ownLines ownContents
  cases hop : s.op with
  | some op => exact congrArg (fun x => [x]) (SourceLine.read_text hop h.operands hcomment)
  | none =>
    cases hc : s.comment with
    | none => rfl
    | some c =>
      have hread := SourceLine.read_trivia (t := .comment c) fun c' heq => by
        rw [← Trivia.comment.inj heq]
        exact hcomment c hc
      exact congrArg (fun x => [x]) hread

theorem read_sourceLines : s.sourceLines.map SourceLine.read = s.contents.map .ok := by
  have htrivia : ∀ ts : List Trivia, (∀ c, .comment c ∈ ts → IsCommentText c) →
      (ts.map Trivia.text).map SourceLine.read = (ts.map SourceLine.ofTrivia).map .ok := by
    intro ts hts
    rw [List.map_map, List.map_map]
    apply List.map_congr_left
    intro t ht
    refine SourceLine.read_trivia fun c hc => ?_
    rw [hc] at ht
    exact (hts c ht).1
  have hlabels : (s.labels.map (· ++ ":")).map SourceLine.read
      = (s.labels.map (SourceLine.labels [·] none)).map .ok := by
    rw [List.map_map, List.map_map]
    apply List.map_congr_left
    intro name hname
    exact SourceLine.read_label (h.labels name hname)
  unfold sourceLines contents
  simp only [List.map_append]
  rw [htrivia _ h.leading, hlabels, read_ownLines h, htrivia _ h.trailing]

/-! ## No line is cut -/

theorem isLine_codeText : Text.IsLine s.codeText.toList := by
  unfold codeText
  split
  · exact Text.IsLine.nil
  · next op _ =>
    have hname := op.spells_token.isLine op.token_ne_comment
    split
    · exact hname
    · have hoperands : Text.IsLine (String.intercalate ", " s.operands).toList := by
        rw [String.toList_intercalate]
        refine Text.IsLine.intercalate ⟨by decide, by decide⟩ fun cs hcs => ?_
        obtain ⟨text, htext, rfl⟩ := List.mem_map.mp hcs
        exact (h.operands text htext).isLine
      rw [String.toList_append, String.toList_append]
      exact (hname.append ⟨by decide, by decide⟩).append hoperands

theorem isLine_text : Text.IsLine s.text.toList := by
  have hcode := isLine_codeText h
  unfold text
  split
  · exact hcode
  · next c hc =>
    have hcomment := (h.comment c hc).commentText
    split
    · exact hcomment
    · rw [String.toList_append, String.toList_append]
      exact (hcode.append ⟨by decide, by decide⟩).append hcomment

theorem isLine_sourceLines : ∀ line ∈ s.sourceLines, Text.IsLine line.toList := by
  have htrivia : ∀ ts : List Trivia, (∀ c, .comment c ∈ ts → IsCommentText c) →
      ∀ t ∈ ts, Text.IsLine t.text.toList := by
    intro ts hts t ht
    cases t with
    | blank => exact Text.IsLine.nil
    | comment c => exact (hts c ht).commentText
  intro line hline
  simp only [sourceLines, List.mem_append, List.mem_map] at hline
  rcases hline with ((⟨t, ht, rfl⟩ | ⟨name, hname, rfl⟩) | hown) | ⟨t, ht, rfl⟩
  · exact htrivia _ h.leading t ht
  · rw [String.toList_append]
    exact ((h.labels name hname).isLine nofun).append ⟨by decide, by decide⟩
  · unfold ownLines at hown
    split at hown
    · rw [List.mem_singleton.mp hown, String.toList_append]
      exact Text.IsLine.append ⟨by decide, by decide⟩ (isLine_text h)
    · next c _ hc =>
      rw [List.mem_singleton.mp hown]
      exact (h.comment c hc).commentText
    · cases hown
  · exact htrivia _ h.trailing t ht

end

end Statement

end AnnaToolchain
