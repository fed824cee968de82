import AnnaToolchain.Proofs.Program.Printing
import AnnaToolchain.Proofs.Token.Lexing

/-! # The grammar of lines

    A line holds labels with their colons, then nothing or a mnemonic with
    its operands, then maybe a comment; between two operands there may be
    one comma (`SourceLine.Says`).  The tokens of a line are read as what
    the grammar says they are, and as nothing if it says nothing
    (`SourceLine.ofLexemes_eq_ok_iff`).  Commas could as well be left out
    (`SourceLine.Says.withoutCommas`). -/

namespace AnnaToolchain

/-- What the grammar sees of a token: an operand's source text counts, another token's does not. -/
def Lexeme.symbol (l : Lexeme) : Token × String :=
  (l.token, if l.token.isOperand then l.text else "")

theorem Lexeme.symbol_of_isOperand {l : Lexeme} (h : l.token.isOperand = true) :
    l.symbol = (l.token, l.text) := by
  unfold symbol
  rw [if_pos h]

theorem Lexeme.eq_of_symbol {l : Lexeme} {token : Token} {text : String}
    (h : l.symbol = (token, text)) (hoperand : token.isOperand = true) :
    l.token.isOperand = true ∧ l.text = text := by
  obtain rfl : l.token = token := congrArg Prod.fst h
  rw [symbol_of_isOperand hoperand] at h
  exact ⟨hoperand, congrArg Prod.snd h⟩

namespace SourceLine

/-! ## The grammar -/

/-- Labels, each with its colon. -/
inductive Labels : List (Token × String) → List String → Prop
  | nil : Labels [] []
  | cons {name text text' : String} {ws : List (Token × String)} {names : List String}
      (h : Labels ws names) : Labels ((.name name, text) :: (.colon, text') :: ws) (name :: names)

/-- The token names the mnemonic; the name of a directive starts with its dot. -/
inductive Names (op : Mnemonic) : Token → Prop
  | name {name : String} (h : Mnemonic.ofName? name = some op) : Names op (.name name)
  | directive {name : String} (h : Mnemonic.ofName? ("." ++ name) = some op) :
      Names op (.directive name)

/-- Operands, and maybe a comma between two of them. -/
inductive Operands : List (Token × String) → List String → Prop
  | nil : Operands [] []
  | operand {ws : List (Token × String)} {texts : List String} {token : Token} {text : String}
      (h : Operands ws texts) (hoperand : token.isOperand = true) :
      Operands (ws ++ [(token, text)]) (texts ++ [text])
  | comma {ws : List (Token × String)} {texts : List String} {token : Token} {text text' : String}
      (h : Operands ws texts) (hne : texts ≠ []) (hoperand : token.isOperand = true) :
      Operands (ws ++ [(.comma, text'), (token, text)]) (texts ++ [text])

/-- A comment or nothing. -/
inductive Remark : List (Token × String) → Option String → Prop
  | nothing : Remark [] none
  | comment {contents text : String} : Remark [(.comment contents, text)] (some contents)

/-- A line without a statement. -/
def unstated : List String → Option String → SourceLine
  | [], none => .blank
  | [], some contents => .comment contents
  | names, note => .labels names note

theorem unstated_none (names : List String) :
    unstated names none = if names = [] then .blank else .labels names none := by
  cases names <;> rfl

theorem unstated_some (names : List String) (contents : String) :
    unstated names (some contents)
      = if names = [] then .comment contents else .labels names (some contents) := by
  cases names <;> rfl

/-- What the tokens of a line say. -/
inductive Says : List (Token × String) → SourceLine → Prop
  | unstated {ws cs : List (Token × String)} {names : List String} {comment : Option String}
      (hlabels : Labels ws names) (hremark : Remark cs comment) :
      Says (ws ++ cs) (unstated names comment)
  | statement {ws os cs : List (Token × String)} {names operands : List String} {token : Token}
      {text : String} {op : Mnemonic} {comment : Option String} (hlabels : Labels ws names)
      (hop : Names op token) (hoperands : Operands os operands) (hremark : Remark cs comment) :
      Says (ws ++ (token, text) :: (os ++ cs))
        (.statement { labels := names, op := some op, operands := operands, comment := comment })

/-! ## What is read is said -/

variable {ls : List Lexeme} {ws : List (Token × String)}

theorem ofName?_of_mnemonic {name : String} {l : Lexeme} {op : Mnemonic}
    (h : mnemonic name l = .ok op) : Mnemonic.ofName? name = some op := by
  unfold mnemonic at h
  split at h
  · next op' hop =>
    obtain rfl := Except.ok.inj h
    exact hop
  · cases h

theorem exists_labels (ls : List Lexeme) :
    ∃ ls', ls = ls' ++ (takeLabels ls).2 ∧ Labels (ls'.map Lexeme.symbol) (takeLabels ls).1 := by
  induction ls using takeLabels.induct with
  | case1 name text start text' start' rest ih =>
    obtain ⟨ls', hls', hlabels⟩ := ih
    refine ⟨⟨.name name, text, start⟩ :: ⟨.colon, text', start'⟩ :: ls', ?_, .cons hlabels⟩
    rw [takeLabels, List.cons_append, List.cons_append, ← hls']
  | case2 rest hrest =>
    rw [takeLabels.eq_2 _ hrest]
    exact ⟨[], rfl, .nil⟩

/-- The operands read so far, and maybe a comma behind them. -/
inductive Tail.HasRead : List (Token × String) → Tail → Prop
  | operands {ws : List (Token × String)} {texts : List String} (h : Operands ws texts) :
      HasRead ws { operands := texts.reverse }
  | comma {ws : List (Token × String)} {texts : List String} {text : String}
      (h : Operands ws texts) (hne : texts ≠ []) :
      HasRead (ws ++ [(.comma, text)]) { operands := texts.reverse, afterComma := true }

/-- One more token goes on with the operands, unless it is a comment. -/
theorem Tail.HasRead.add {tail tail' : Tail} {l : Lexeme} (h : HasRead ws tail)
    (hcomment : ∀ contents, l.token ≠ .comment contents) (hadd : tail.add l = .ok tail') :
    HasRead (ws ++ [l.symbol]) tail' := by
  rcases Tail.add_cases hadd with
    ⟨htoken, hne, hcomma, rfl⟩ | ⟨contents, htoken, -⟩ | ⟨hoperand, rfl⟩
  · have hsymbol : l.symbol = (.comma, l.symbol.2) := by rw [← htoken]; rfl
    rw [hsymbol]
    cases h with
    | operands h => exact .comma h (mt List.reverse_eq_nil_iff.mpr hne)
    -- one comma has been read already
    | comma h _ => cases hcomma
  · exact absurd htoken (hcomment contents)
  · rw [Lexeme.symbol_of_isOperand hoperand]
    cases h with
    | @operands _ texts h =>
      have hnext : Operands (ws ++ [(l.token, l.text)]) (texts ++ [l.text]) := h.operand hoperand
      have hread := HasRead.operands hnext
      rwa [List.reverse_concat] at hread
    | @comma ws texts text h hne =>
      have hnext : Operands (ws ++ [(.comma, text), (l.token, l.text)]) (texts ++ [l.text]) :=
        h.comma hne hoperand
      have hread := HasRead.operands hnext
      rw [List.reverse_concat] at hread
      rwa [List.append_assoc]

/-- Behind the operands there is a comment or nothing. -/
theorem Tail.HasRead.foldlM {tail tail' : Tail} (h : HasRead ws tail)
    (hlast : Token.CommentLast ls) (hfold : ls.foldlM Tail.add tail = .ok tail') :
    ∃ os cs tail₀ comment, ws ++ ls.map Lexeme.symbol = os ++ cs ∧ HasRead os tail₀ ∧
      Remark cs comment ∧ tail' = { tail₀ with comment := comment } := by
  induction ls generalizing ws tail with
  | nil =>
    obtain rfl := Except.ok.inj hfold
    refine ⟨ws, [], tail, none, rfl, h, .nothing, ?_⟩
    cases h <;> rfl
  | cons l ls ih =>
    obtain ⟨hl, hls⟩ := List.pairwise_cons.mp hlast
    rw [List.foldlM_cons] at hfold
    obtain ⟨tail₁, hadd, hfold⟩ := bind_eq_ok hfold
    by_cases hcomment : ∃ contents, l.token = .comment contents
    · obtain ⟨contents, htoken⟩ := hcomment
      -- no token follows
      obtain rfl : ls = [] := List.eq_nil_iff_forall_not_mem.mpr fun l' hl' => hl l' hl' _ htoken
      rw [Tail.add_comment htoken] at hadd
      obtain rfl := Except.ok.inj hadd
      obtain rfl := Except.ok.inj hfold
      have hsymbol : l.symbol = (.comment contents, l.symbol.2) := by rw [← htoken]; rfl
      refine ⟨ws, [l.symbol], tail, some contents, rfl, h, ?_, rfl⟩
      rw [hsymbol]
      exact .comment
    · obtain ⟨os, cs, tail₀, comment, hsplit, hread⟩ :=
        ih (h.add (not_exists.mp hcomment) hadd) hls hfold
      rw [List.append_assoc] at hsplit
      exact ⟨os, cs, tail₀, comment, hsplit, hread⟩

theorem says_of_statement {names : List String} {name : String} {l : Lexeme} {stop : Nat}
    {content : SourceLine} (hlabels : Labels ws names)
    (hnames : ∀ op, Mnemonic.ofName? name = some op → Names op l.token)
    (hlast : Token.CommentLast ls)
    (h : (do readStatement names (← mnemonic name l) ls stop) = .ok content) :
    Says (ws ++ (l :: ls).map Lexeme.symbol) content := by
  obtain ⟨op, hop, h⟩ := bind_eq_ok h
  obtain ⟨tail, hfold, h⟩ := bind_eq_ok h
  obtain ⟨os, cs, tail₀, comment, hsplit, hread, hremark, rfl⟩ :=
    Tail.HasRead.foldlM (.operands .nil) hlast hfold
  rw [List.nil_append] at hsplit
  rw [List.map_cons, hsplit]
  cases hread with
  -- a comma at the end has been refused
  | comma _ _ => cases h
  | operands hoperands =>
    obtain rfl := Except.ok.inj h
    rw [List.reverse_reverse]
    exact .statement hlabels (hnames op (ofName?_of_mnemonic hop)) hoperands hremark

/-- **Soundness.**  What the tokens of a line are read as is what they say. -/
theorem says_of_ofLexemes {stop : Nat} {content : SourceLine} (hlast : Token.CommentLast ls)
    (h : ofLexemes ls stop = .ok content) : Says (ls.map Lexeme.symbol) content := by
  obtain ⟨ls', hls, hlabels⟩ := exists_labels ls
  have hrest : Token.CommentLast (takeLabels ls).2 := by
    rw [hls] at hlast
    exact (List.pairwise_append.mp hlast).2.1
  have hsymbols : ls.map Lexeme.symbol
      = ls'.map Lexeme.symbol ++ (takeLabels ls).2.map Lexeme.symbol := by
    rw [← List.map_append, ← hls]
  rw [hsymbols]
  simp only [ofLexemes] at h
  split at h
  · next heq =>
    obtain rfl := Except.ok.inj h
    rw [heq, ← unstated_none]
    exact .unstated hlabels .nothing
  · next contents _ _ heq =>
    obtain rfl := Except.ok.inj h
    rw [heq, ← unstated_some]
    exact .unstated hlabels .comment
  · next l rest _ heq =>
    rw [heq] at hrest ⊢
    have hlast' := (List.pairwise_cons.mp hrest).2
    split at h
    · next name htoken =>
      refine says_of_statement hlabels (fun op hop => ?_) hlast' h
      rw [htoken]
      exact .name hop
    · next name htoken =>
      refine says_of_statement hlabels (fun op hop => ?_) hlast' h
      rw [htoken]
      exact .directive hop
    · cases h

/-! ## What is said is read -/

theorem Labels.takeLabels_append {rest : List Lexeme} {names : List String}
    (h : Labels (ls.map Lexeme.symbol) names) (hrest : takeLabels rest = ([], rest)) :
    takeLabels (ls ++ rest) = (names, rest) := by
  generalize hws : ls.map Lexeme.symbol = ws at h
  induction h generalizing ls with
  | nil =>
    obtain rfl := List.map_eq_nil_iff.mp hws
    exact hrest
  | @cons name _ _ _ names _ ih =>
    obtain ⟨⟨token, text, start⟩, ls₁, rfl, hname, hls₁⟩ := List.map_eq_cons_iff.mp hws
    obtain ⟨⟨token', text', start'⟩, ls₂, rfl, hcolon, hls₂⟩ := List.map_eq_cons_iff.mp hls₁
    obtain rfl : token = .name name := congrArg Prod.fst hname
    obtain rfl : token' = .colon := congrArg Prod.fst hcolon
    rw [List.cons_append, List.cons_append, takeLabels, ih hls₂]

theorem Remark.takeLabels_eq {comment : Option String}
    (h : Remark (ls.map Lexeme.symbol) comment) : takeLabels ls = ([], ls) := by
  cases ls with
  | nil => rfl
  | cons l ls =>
    have hls : ls = [] := by
      generalize hws : (l :: ls).map Lexeme.symbol = ws at h
      cases h with
      | nothing => cases hws
      | comment => exact List.map_eq_nil_iff.mp (List.cons.inj hws).2
    rw [hls]
    exact takeLabels_of_ne_colon nofun

theorem Operands.foldlM_eq {texts : List String} (h : Operands (ls.map Lexeme.symbol) texts) :
    ls.foldlM Tail.add {} = .ok { operands := texts.reverse } := by
  generalize hws : ls.map Lexeme.symbol = ws at h
  induction h generalizing ls with
  | nil =>
    obtain rfl := List.map_eq_nil_iff.mp hws
    rfl
  | operand _ hoperand ih =>
    obtain ⟨ls₁, ls₂, rfl, hls₁, hls₂⟩ := List.map_eq_append_iff.mp hws
    obtain ⟨l, rfl, hl⟩ := List.map_eq_singleton_iff.mp hls₂
    obtain ⟨hoperand, rfl⟩ := Lexeme.eq_of_symbol hl hoperand
    rw [List.foldlM_append, ih hls₁, ok_bind, List.foldlM_cons, Tail.add_operand hoperand,
      List.reverse_concat]
    rfl
  | comma _ hne hoperand ih =>
    obtain ⟨ls₁, ls₂, rfl, hls₁, hls₂⟩ := List.map_eq_append_iff.mp hws
    obtain ⟨comma, ls₃, rfl, hcomma, hls₃⟩ := List.map_eq_cons_iff.mp hls₂
    obtain ⟨l, rfl, hl⟩ := List.map_eq_singleton_iff.mp hls₃
    obtain ⟨hoperand, rfl⟩ := Lexeme.eq_of_symbol hl hoperand
    have hne' := mt List.reverse_eq_nil_iff.mp hne
    rw [List.foldlM_append, ih hls₁, ok_bind, List.foldlM_cons,
      Tail.add_comma (congrArg Prod.fst hcomma) hne' rfl, ok_bind, List.foldlM_cons,
      Tail.add_operand hoperand, List.reverse_concat]
    rfl

theorem Remark.foldlM_eq {comment : Option String} (h : Remark (ls.map Lexeme.symbol) comment)
    {tail : Tail} (htail : tail.comment = none) :
    ls.foldlM Tail.add tail = .ok { tail with comment := comment } := by
  generalize hws : ls.map Lexeme.symbol = ws at h
  cases h with
  | nothing =>
    obtain rfl := List.map_eq_nil_iff.mp hws
    rw [← htail]
    rfl
  | comment =>
    obtain ⟨l, rfl, hl⟩ := List.map_eq_singleton_iff.mp hws
    rw [List.foldlM_cons, Tail.add_comment (congrArg Prod.fst hl)]
    rfl

theorem Operands.ne_colon {texts : List String} (h : Operands ws texts) :
    ∀ w ∈ ws, w.1 ≠ .colon := by
  induction h with
  | nil => exact List.forall_mem_nil _
  | operand _ hoperand ih =>
    have hlast := Token.ne_of_isOperand hoperand (rfl : Token.colon.isOperand = false)
    exact List.forall_mem_append.mpr ⟨ih, List.forall_mem_singleton.mpr hlast⟩
  | comma _ _ hoperand ih =>
    have hlast := Token.ne_of_isOperand hoperand (rfl : Token.colon.isOperand = false)
    exact List.forall_mem_append.mpr
      ⟨ih, List.forall_mem_cons.mpr ⟨nofun, List.forall_mem_singleton.mpr hlast⟩⟩

theorem Remark.ne_colon {comment : Option String} (h : Remark ws comment) :
    ∀ w ∈ ws, w.1 ≠ .colon := by
  cases h with
  | nothing => exact List.forall_mem_nil _
  | comment => exact List.forall_mem_singleton.mpr nofun

theorem Names.exists_name {op : Mnemonic} {token : Token} (h : Names op token) :
    (∃ name, token = .name name ∧ Mnemonic.ofName? name = some op) ∨
      ∃ name, token = .directive name ∧ Mnemonic.ofName? ("." ++ name) = some op := by
  cases h with
  | @name name h => exact .inl ⟨name, rfl, h⟩
  | @directive name h => exact .inr ⟨name, rfl, h⟩

/-- **Completeness.**  What the tokens of a line say is what they are read as. -/
theorem Says.ofLexemes_eq {content : SourceLine} (h : Says (ls.map Lexeme.symbol) content)
    (stop : Nat) : ofLexemes ls stop = .ok content := by
  generalize hws : ls.map Lexeme.symbol = ws at h
  cases h with
  | unstated hlabels hremark =>
    obtain ⟨ls₁, ls₂, rfl, rfl, rfl⟩ := List.map_eq_append_iff.mp hws
    have htake := hlabels.takeLabels_append hremark.takeLabels_eq
    unfold ofLexemes
    rw [htake]
    generalize hcs : ls₂.map Lexeme.symbol = cs at hremark
    cases hremark with
    | nothing =>
      obtain rfl := List.map_eq_nil_iff.mp hcs
      rw [unstated_none]
    | comment =>
      obtain ⟨⟨token, text, start⟩, rfl, hl⟩ := List.map_eq_singleton_iff.mp hcs
      obtain rfl : token = .comment _ := congrArg Prod.fst hl
      rw [unstated_some]
  | statement hlabels hop hoperands hremark =>
    obtain ⟨ls₁, ls₂, rfl, rfl, hls₂⟩ := List.map_eq_append_iff.mp hws
    obtain ⟨l, ls₃, rfl, hl, hls₃⟩ := List.map_eq_cons_iff.mp hls₂
    obtain ⟨ls₄, ls₅, rfl, rfl, rfl⟩ := List.map_eq_append_iff.mp hls₃
    obtain rfl := congrArg Prod.fst hl
    -- no colon follows, so that what names the mnemonic is not taken for a label
    have hcolon : ∀ l', (ls₄ ++ ls₅).head? = some l' → l'.token ≠ .colon := by
      intro l' hhead
      have hmem := List.mem_map_of_mem (f := Lexeme.symbol) (List.mem_of_mem_head? hhead)
      rw [List.map_append] at hmem
      rcases List.mem_append.mp hmem with hmem | hmem
      · exact hoperands.ne_colon _ hmem
      · exact hremark.ne_colon _ hmem
    have htake : takeLabels (ls₁ ++ l :: (ls₄ ++ ls₅)) = (_, l :: (ls₄ ++ ls₅)) :=
      hlabels.takeLabels_append (takeLabels_of_ne_colon hcolon)
    rw [ofLexemes_of_mnemonic htake hop.exists_name, readStatement, List.foldlM_append,
      hoperands.foldlM_eq, ok_bind, hremark.foldlM_eq rfl]
    show Except.ok _ = _
    rw [List.reverse_reverse]

/-- **The grammar.**  The tokens of a line are read as what they say. -/
theorem ofLexemes_eq_ok_iff {stop : Nat} {content : SourceLine} (hlast : Token.CommentLast ls) :
    ofLexemes ls stop = .ok content ↔ Says (ls.map Lexeme.symbol) content :=
  ⟨says_of_ofLexemes hlast, fun h => h.ofLexemes_eq stop⟩

/-! ## Commas -/

/-- Tokens without the commas among them. -/
def withoutCommas (ws : List (Token × String)) : List (Token × String) :=
  ws.filter (·.1 ≠ .comma)

theorem withoutCommas_append (ws ws' : List (Token × String)) :
    withoutCommas (ws ++ ws') = withoutCommas ws ++ withoutCommas ws' :=
  List.filter_append ..

theorem withoutCommas_cons {token : Token} (h : token ≠ .comma) (text : String)
    (ws : List (Token × String)) :
    withoutCommas ((token, text) :: ws) = (token, text) :: withoutCommas ws :=
  List.filter_cons_of_pos (decide_eq_true h)

theorem withoutCommas_comma (text : String) (ws : List (Token × String)) :
    withoutCommas ((.comma, text) :: ws) = withoutCommas ws :=
  List.filter_cons_of_neg (by simp)

theorem Labels.withoutCommas_eq {names : List String} (h : Labels ws names) :
    withoutCommas ws = ws := by
  induction h with
  | nil => rfl
  | cons _ ih => rw [withoutCommas_cons (by nofun), withoutCommas_cons (by nofun), ih]

theorem Remark.withoutCommas_eq {comment : Option String} (h : Remark ws comment) :
    withoutCommas ws = ws := by
  cases h with
  | nothing => rfl
  | comment => exact withoutCommas_cons (by nofun) _ _

theorem Operands.withoutCommas {texts : List String} (h : Operands ws texts) :
    Operands (withoutCommas ws) texts := by
  induction h with
  | nil => exact .nil
  | operand _ hoperand ih =>
    rw [withoutCommas_append, withoutCommas_cons (Token.ne_of_isOperand hoperand rfl)]
    exact ih.operand hoperand
  | comma _ _ hoperand ih =>
    rw [withoutCommas_append, withoutCommas_comma,
      withoutCommas_cons (Token.ne_of_isOperand hoperand rfl)]
    exact ih.operand hoperand

/-- Commas could as well be left out. -/
theorem Says.withoutCommas {content : SourceLine} (h : Says ws content) :
    Says (withoutCommas ws) content := by
  cases h with
  | unstated hlabels hremark =>
    rw [withoutCommas_append, hlabels.withoutCommas_eq, hremark.withoutCommas_eq]
    exact .unstated hlabels hremark
  | @statement _ _ _ _ _ token _ _ _ hlabels hop hoperands hremark =>
    have hne : token ≠ .comma := by
      rintro rfl
      cases hop
    rw [withoutCommas_append, hlabels.withoutCommas_eq, withoutCommas_cons hne,
      withoutCommas_append, hremark.withoutCommas_eq]
    exact .statement hlabels hop hoperands.withoutCommas hremark

/-- **Commas.**  Lines with the same tokens, but for commas, say the same. -/
theorem Says.eq_of_withoutCommas {ls' : List Lexeme} {content content' : SourceLine}
    (h : Says (ls.map Lexeme.symbol) content) (h' : Says (ls'.map Lexeme.symbol) content')
    (hsame : SourceLine.withoutCommas (ls.map Lexeme.symbol)
      = SourceLine.withoutCommas (ls'.map Lexeme.symbol)) : content = content' := by
  have hfirst := h.withoutCommas
  have hsecond := h'.withoutCommas
  rw [← hsame] at hsecond
  -- both are what the tokens that are no commas are read as
  unfold SourceLine.withoutCommas at hfirst hsecond
  rw [List.filter_map] at hfirst hsecond
  exact Except.ok.inj ((hfirst.ofLexemes_eq 0).symm.trans (hsecond.ofLexemes_eq 0))

end SourceLine

end AnnaToolchain
