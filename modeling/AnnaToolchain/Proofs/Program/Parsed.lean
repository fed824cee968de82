import AnnaToolchain.Proofs.Program.Rereading

/-! # Programs that have been read

    Whatever has been read can be printed and read again, and its comments
    are already trimmed (`Program.readable_of_parse`).  Read again, a program
    differs at most in the owner of blank lines: those that stand between a
    label and its statement are printed before the label, and so become the
    trailing lines of the statement before (`Program.parse_render_parse`). -/

namespace AnnaToolchain

/-- A comment as it is read: within its line, and without white space around it. -/
def IsReadComment (contents : String) : Prop :=
  IsCommentText contents ∧ Text.trim contents = contents

/-! ## Tokens -/

namespace Token

variable {text : String} {l : Lexeme}

/-- A token that has been read is spelled by its text. -/
theorem spells_of_mem_lex (h : l ∈ (lex text).lexemes)
    (hcomment : ∀ contents, l.token ≠ .comment contents) : Spells l.token l.text := by
  obtain ⟨c, rest, n, -, hgap, hscan, htext⟩ := mem_lex h
  rw [htext]
  exact spells_of_scan hgap hscan hcomment

theorem isReadComment_of_mem_lex {contents : String} (h : l ∈ (lex text).lexemes)
    (htoken : l.token = .comment contents) : IsReadComment contents := by
  obtain ⟨c, rest, n, -, -, hscan, -⟩ := mem_lex h
  rw [htoken] at hscan
  cases scanned_of_scan hscan with
  | comment =>
    have hbody : '\n' ∉ rest.takeWhile (· ≠ '\n') := by
      intro hmem
      exact absurd (List.mem_takeWhile_imp hmem) (by decide)
    refine ⟨?_, ?_⟩
    · unfold IsCommentText
      rw [String.toList_ofList]
      exact Text.isLine_trimChars hbody
    · unfold Text.trim
      rw [String.toList_ofList, Text.trimChars_trimChars]

theorem isLabelName_of_mem_lex {name : String} (h : l ∈ (lex text).lexemes)
    (htoken : l.token = .name name) : IsLabelName name := by
  have hspells := spells_of_mem_lex h fun contents => by rw [htoken]; nofun
  obtain ⟨c, rest, n, -, -, hscan, htext⟩ := mem_lex h
  rw [htoken] at hspells hscan
  -- a name is its own text
  cases scanned_of_scan hscan with
  | name =>
    rw [take_length_wordRun] at htext
    rwa [htext] at hspells

end Token

/-! ## Lines -/

namespace SourceLine

/-- What a line that has been read holds. -/
inductive Readable : SourceLine → Prop
  | blank : Readable .blank
  | comment {contents : String} (h : IsReadComment contents) : Readable (.comment contents)
  | labels {names : List String} {comment : Option String}
      (hnames : ∀ name ∈ names, IsLabelName name)
      (hcomment : ∀ contents, comment = some contents → IsReadComment contents) :
      Readable (.labels names comment)
  | statement {names operands : List String} {op : Mnemonic} {comment : Option String}
      (hnames : ∀ name ∈ names, IsLabelName name)
      (hoperands : ∀ text ∈ operands, IsOperandText text)
      (hcomment : ∀ contents, comment = some contents → IsReadComment contents) :
      Readable (.statement
        { labels := names, op := some op, operands := operands, comment := comment })

variable {text : String} {ls : List Lexeme}

theorem mem_takeLabels {name : String} (h : name ∈ (takeLabels ls).1) :
    ∃ l ∈ ls, l.token = .name name := by
  induction ls using takeLabels.induct with
  | case1 name' _ _ _ _ rest ih =>
    rcases List.mem_cons.mp h with rfl | h
    · exact ⟨_, List.mem_cons_self, rfl⟩
    · obtain ⟨l, hl, htoken⟩ := ih h
      exact ⟨l, List.mem_cons_of_mem _ (List.mem_cons_of_mem _ hl), htoken⟩
  | case2 rest hrest =>
    rw [takeLabels.eq_2 _ hrest] at h
    cases h

/-- What is read behind a mnemonic. -/
structure Tail.Readable (tail : Tail) : Prop where
  operands : ∀ text ∈ tail.operands, IsOperandText text
  comment : ∀ contents, tail.comment = some contents → IsReadComment contents

theorem Tail.readable_add {tail tail' : Tail} {l : Lexeme} (hl : l ∈ (Token.lex text).lexemes)
    (h : tail.Readable) (hadd : tail.add l = .ok tail') : tail'.Readable := by
  rcases Tail.add_cases hadd with ⟨-, -, -, rfl⟩ | ⟨contents, htoken, rfl⟩ | ⟨hoperand, rfl⟩
  · exact ⟨h.operands, h.comment⟩
  · refine ⟨h.operands, fun contents' hcontents => ?_⟩
    rw [← Option.some.inj hcontents]
    exact Token.isReadComment_of_mem_lex hl htoken
  · have hcomment : ∀ contents, l.token ≠ .comment contents := fun contents =>
      Token.ne_of_isOperand hoperand rfl
    exact ⟨List.forall_mem_cons.mpr
      ⟨⟨l.token, Token.spells_of_mem_lex hl hcomment, hoperand⟩, h.operands⟩, h.comment⟩

theorem Tail.readable_foldlM {tail tail' : Tail} (hls : ls ⊆ (Token.lex text).lexemes)
    (h : tail.Readable) (hfold : ls.foldlM Tail.add tail = .ok tail') : tail'.Readable := by
  induction ls generalizing tail with
  | nil =>
    obtain rfl := Except.ok.inj hfold
    exact h
  | cons l ls ih =>
    rw [List.foldlM_cons] at hfold
    obtain ⟨tail₁, hadd, hfold⟩ := bind_eq_ok hfold
    exact ih (fun l' hl' => hls (List.mem_cons_of_mem _ hl'))
      (Tail.readable_add (hls List.mem_cons_self) h hadd) hfold

theorem readable_of_readStatement {names : List String} {op : Mnemonic} {stop : Nat}
    {content : SourceLine} (hnames : ∀ name ∈ names, IsLabelName name)
    (hls : ls ⊆ (Token.lex text).lexemes) (h : readStatement names op ls stop = .ok content) :
    content.Readable := by
  obtain ⟨tail, hfold, h⟩ := bind_eq_ok h
  have hstart : Tail.Readable {} := ⟨List.forall_mem_nil _, fun _ hnone => by cases hnone⟩
  have htail := Tail.readable_foldlM hls hstart hfold
  split at h
  · cases h
  · obtain rfl := Except.ok.inj h
    refine .statement hnames (fun operand hoperand => ?_) htail.comment
    exact htail.operands operand (List.mem_reverse.mp hoperand)

theorem readable_of_ofLexemes {stop : Nat} {content : SourceLine}
    (hls : ls ⊆ (Token.lex text).lexemes) (h : ofLexemes ls stop = .ok content) :
    content.Readable := by
  have hnames : ∀ name ∈ (takeLabels ls).1, IsLabelName name := by
    intro name hname
    obtain ⟨l, hl, htoken⟩ := mem_takeLabels hname
    exact Token.isLabelName_of_mem_lex (hls hl) htoken
  have hrest := List.Subset.trans (takeLabels_subset ls) hls
  simp only [ofLexemes] at h
  split at h
  · -- nothing but labels
    obtain rfl := Except.ok.inj h
    split
    · exact .blank
    · exact .labels hnames nofun
  · next contents _ _ heq =>
    -- a comment behind the labels
    rw [heq] at hrest
    have hcontents := Token.isReadComment_of_mem_lex (hrest List.mem_cons_self) rfl
    obtain rfl := Except.ok.inj h
    split
    · exact .comment hcontents
    · refine .labels hnames fun contents' hsome => ?_
      rw [← Option.some.inj hsome]
      exact hcontents
  · next l rest _ heq =>
    rw [heq] at hrest
    have hoperands := List.Subset.trans (List.subset_cons_self l rest) hrest
    split at h
    · obtain ⟨op, -, h⟩ := bind_eq_ok h
      exact readable_of_readStatement hnames hoperands h
    · obtain ⟨op, -, h⟩ := bind_eq_ok h
      exact readable_of_readStatement hnames hoperands h
    · cases h

/-- **Lines** that have been read can be printed and read again. -/
theorem readable_of_read {content : SourceLine} (h : read text = .ok content) :
    content.Readable := by
  simp only [read] at h
  split at h
  · cases h
  · exact readable_of_ofLexemes (List.Subset.refl _) h

end SourceLine

/-! ## Statements -/

/-- A statement that has been read and not been placed. -/
structure Statement.Readable (s : Statement) : Prop where
  written : s.Written IsReadComment
  address : s.address = none
  words : s.words = []

theorem Statement.Written.mono {isComment isComment' : String → Prop} {s : Statement}
    (h : s.Written isComment) (hsub : ∀ contents, isComment contents → isComment' contents) :
    s.Written isComment' where
  labels := h.labels
  operands := h.operands
  comment c hc := hsub c (h.comment c hc)
  leading c hc := hsub c (h.leading c hc)
  trailing c hc := hsub c (h.trailing c hc)

theorem Statement.Written.allTrivia {isComment : String → Prop} {s : Statement}
    (h : s.Written isComment) (contents : String) (hmem : .comment contents ∈ s.allTrivia) :
    isComment contents := by
  rcases List.mem_append.mp hmem with hmem | hmem
  · rcases List.mem_append.mp hmem with hmem | hmem
    · exact h.leading contents hmem
    · obtain ⟨contents', hcontents, heq⟩ := List.mem_map.mp hmem
      rw [← Trivia.comment.inj heq]
      exact h.comment contents' (Option.mem_toList.mp hcontents)
  · exact h.trailing contents hmem

theorem Statement.written_loose {isComment : String → Prop} {labels : List String}
    {leading : List Trivia} (hlabels : ∀ name ∈ labels, IsLabelName name)
    (hleading : ∀ contents, .comment contents ∈ leading → isComment contents) (line : Nat) :
    (loose labels leading line).Written isComment :=
  ⟨hlabels, List.forall_mem_nil _, nofun, hleading, nofun⟩

/-- Trivia whose comments are trimmed is read as it is. -/
theorem map_trimmed {ts : List Trivia} (h : ∀ c, .comment c ∈ ts → IsReadComment c) :
    ts.map Trivia.trimmed = ts := by
  calc ts.map Trivia.trimmed
      = ts.map id := by
        apply List.map_congr_left
        intro t ht
        cases t with
        | blank => rfl
        | comment contents => exact congrArg Trivia.comment (h contents ht).2
    _ = ts := List.map_id ts

/-- A statement that has been read is read again as it is. -/
theorem Statement.Readable.reread_eq {s : Statement} (h : s.Readable) :
    s.reread = s.unnumbered := by
  obtain ⟨labels, op, operands, comment, leading, trailing, line, address, words⟩ := s
  obtain rfl : address = none := h.address
  obtain rfl : words = [] := h.words
  have hcomment : comment.map Text.trim = comment := by
    cases comment with
    | none => rfl
    | some contents => exact congrArg some (h.written.comment contents rfl).2
  unfold reread unnumbered
  simp only [hcomment, map_trimmed h.written.leading, map_trimmed h.written.trailing]

namespace Draft

/-- What has been read of a program. -/
structure Readable (d : Draft) : Prop where
  statements : ∀ s ∈ d.statements, s.Readable ∧ s.isReal = true ∧
    ∀ t ∈ s.trailing, Trivia.isBlank t = true
  labels : ∀ name ∈ d.labels, IsLabelName name
  trivia : ∀ contents, .comment contents ∈ d.trivia → IsReadComment contents

/-- Each line that is read leaves a draft of statements that can be printed. -/
theorem readable_add {d : Draft} {content : SourceLine} (h : d.Readable)
    (hcontent : content.Readable) (number : Nat) : (d.add number content).Readable := by
  cases hcontent with
  | blank =>
    have hblank : ∀ {ts : List Trivia}, (∀ c, .comment c ∈ ts → IsReadComment c) →
        ∀ c, .comment c ∈ Trivia.blank :: ts → IsReadComment c := by
      intro ts hts c hc
      rcases List.mem_cons.mp hc with heq | hc
      · cases heq
      · exact hts c hc
    obtain ⟨statements, labels, trivia, afterStatement⟩ := d
    cases statements with
    | nil => exact { h with trivia := hblank h.trivia }
    | cons last earlier =>
      cases afterStatement with
      | false => exact { h with trivia := hblank h.trivia }
      | true =>
        obtain ⟨⟨hlast, hreal, htrailing⟩, hearlier⟩ := List.forall_mem_cons.mp h.statements
        have hlast' : Statement.Readable { last with trailing := .blank :: last.trailing } :=
          ⟨{ hlast.written with trailing := hblank hlast.written.trailing }, hlast.address,
            hlast.words⟩
        have htrailing' : ∀ t ∈ .blank :: last.trailing, Trivia.isBlank t = true :=
          List.forall_mem_cons.mpr ⟨rfl, htrailing⟩
        exact { h with
          statements := List.forall_mem_cons.mpr ⟨⟨hlast', hreal, htrailing'⟩, hearlier⟩ }
  | comment hcomment =>
    refine { h with trivia := fun c hc => ?_ }
    rcases List.mem_cons.mp hc with heq | hc
    · rw [Trivia.comment.inj heq]
      exact hcomment
    · exact h.trivia c hc
  | labels hnames hcomment =>
    refine { h with labels := fun name hname => ?_, trivia := fun c hc => ?_ }
    · rcases List.mem_append.mp hname with hname | hname
      · exact hnames name (List.mem_reverse.mp hname)
      · exact h.labels name hname
    · rcases List.mem_append.mp hc with hc | hc
      · obtain ⟨c', hc', heq⟩ := List.mem_map.mp hc
        rw [← Trivia.comment.inj heq]
        exact hcomment c' (Option.mem_toList.mp hc')
      · exact h.trivia c hc
  | statement hnames hoperands hcomment =>
    refine ⟨List.forall_mem_cons.mpr ⟨⟨⟨?_, rfl, rfl⟩, rfl, List.forall_mem_nil _⟩, h.statements⟩,
      List.forall_mem_nil _, fun c hc => by cases hc⟩
    refine ⟨fun name hname => ?_, hoperands, hcomment, fun c hc => ?_, fun c hc => by cases hc⟩
    · rcases List.mem_append.mp hname with hname | hname
      · exact h.labels name (List.mem_reverse.mp hname)
      · exact hnames name hname
    · exact h.trivia c (List.mem_reverse.mp hc)

theorem readable_foldlM {lines : List (String × Nat)} {d d' : Draft} (h : d.Readable)
    (hfold : lines.foldlM Program.addLine d = .ok d') : d'.Readable := by
  induction lines generalizing d with
  | nil =>
    obtain rfl := Except.ok.inj hfold
    exact h
  | cons line lines ih =>
    rw [List.foldlM_cons] at hfold
    obtain ⟨d₁, hadd, hfold⟩ := bind_eq_ok hfold
    obtain ⟨content, hread, rfl⟩ := Program.addLine_eq_ok hadd
    exact ih (readable_add h (SourceLine.readable_of_read hread) line.2) hfold

end Draft

/-! ## Programs -/

namespace Program

/-- A program that has been read. -/
structure Readable (p : Program) : Prop where
  statements : ∀ s ∈ p, s.Readable
  shape : Regular p ∨ ∃ leading line, leading ≠ [] ∧ p = [.loose [] leading line]
  /-- Comments behind a statement belong to the next one. -/
  trailing : ∀ s ∈ p.dropLast, ∀ t ∈ s.trailing, Trivia.isBlank t = true

theorem readable_concat {ss : List Statement} {last : Statement}
    (hss : ∀ s ∈ ss, s.Readable ∧ s.isReal = true ∧ ∀ t ∈ s.trailing, Trivia.isBlank t = true)
    (hlast : last.Readable)
    (hshape : Regular (ss ++ [last]) ∨
      ∃ leading line, leading ≠ [] ∧ ss ++ [last] = [.loose [] leading line]) :
    Readable (ss ++ [last]) where
  statements := List.forall_mem_append.mpr
    ⟨fun s hs => (hss s hs).1, List.forall_mem_singleton.mpr hlast⟩
  shape := hshape
  trailing := by
    rw [List.dropLast_concat]
    exact fun s hs => (hss s hs).2.2

/-- What is left may become a loose statement. -/
theorem readable_finish_loose {d : Draft} (h : d.Readable)
    (hloose : d.labels ≠ [] ∨ d.statements = [] ∧ d.trivia ≠ []) (number : Nat) :
    Readable (d.finish number) := by
  have hstatements := fun s hs => h.statements s (List.mem_reverse.mp hs)
  rw [Draft.finish_of_loose hloose]
  refine readable_concat hstatements ⟨Statement.written_loose ?_ ?_ number, rfl, rfl⟩ ?_
  · exact fun name hname => h.labels name (List.mem_reverse.mp hname)
  · exact fun c hc => h.trivia c (List.mem_reverse.mp hc)
  by_cases hlabels : d.labels = []
  · obtain ⟨hnil, htrivia⟩ := hloose.resolve_left fun hne => hne hlabels
    refine .inr ⟨d.trivia.reverse, number, mt List.reverse_eq_nil_iff.mp htrivia, ?_⟩
    rw [hnil, hlabels]
    rfl
  · exact .inl (.append (fun s hs => (hstatements s hs).2.1)
      (.loose (mt List.reverse_eq_nil_iff.mp hlabels)))

/-- Trivia that is left goes to the last statement. -/
theorem readable_finish_last {last : Statement} {earlier : List Statement} {trivia : List Trivia}
    {afterStatement : Bool} (h : Draft.Readable ⟨last :: earlier, [], trivia, afterStatement⟩)
    (number : Nat) : Readable (Draft.finish ⟨last :: earlier, [], trivia, afterStatement⟩ number) := by
  obtain ⟨⟨hlast, hreal, -⟩, hearlier⟩ := List.forall_mem_cons.mp h.statements
  have hstatements := fun s hs => hearlier s (List.mem_reverse.mp hs)
  have hlast' : Statement.Readable { last with trailing := last.trailing ++ trivia.reverse } := by
    refine ⟨{ hlast.written with trailing := fun c hc => ?_ }, hlast.address, hlast.words⟩
    rcases List.mem_append.mp hc with hc | hc
    · exact hlast.written.trailing c hc
    · exact h.trivia c (List.mem_reverse.mp hc)
  show Readable (List.reverse (_ :: earlier))
  rw [List.reverse_cons]
  exact readable_concat hstatements hlast'
    (.inl (.append (fun s hs => (hstatements s hs).2.1) (.cons hreal .nil)))

theorem readable_finish {d : Draft} (h : d.Readable) (number : Nat) :
    Readable (d.finish number) := by
  by_cases hloose : d.labels ≠ [] ∨ d.statements = [] ∧ d.trivia ≠ []
  · exact readable_finish_loose h hloose number
  · obtain ⟨statements, labels, trivia, afterStatement⟩ := d
    obtain ⟨hlabels, halone⟩ := not_or.mp hloose
    obtain rfl : labels = [] := not_not.mp hlabels
    cases statements with
    | nil =>
      obtain rfl : trivia = [] := not_not.mp fun hne => halone ⟨rfl, hne⟩
      exact ⟨List.forall_mem_nil _, .inl .nil, List.forall_mem_nil _⟩
    | cons last earlier => exact readable_finish_last h number

theorem readable_of_parse {source : String} {p : Program} (h : parse source = .ok p) :
    p.Readable := by
  obtain ⟨d, hfold, hfinish⟩ := bind_eq_ok h
  have hstart : Draft.Readable {} := ⟨List.forall_mem_nil _, List.forall_mem_nil _, nofun⟩
  obtain rfl := Except.ok.inj hfinish
  exact readable_finish (Draft.readable_foldlM hstart hfold) _

theorem Readable.printable {p : Program} (h : p.Readable) : p.Printable where
  written s hs := (h.statements s hs).written.mono fun _ hc => hc.1
  shape := h.shape

/-- **Read, printed and read again**, a program has the same statements, comments and blank lines,
    but the blank lines that a statement begins with belong to the statement before it.  So
    nothing changes just if no statement but the first begins with a blank line. -/
theorem parse_render_parse {source : String} {p : Program} (h : parse source = .ok p) :
    ∃ q, parse p.render = .ok q ∧
      q.map Statement.unnumbered = settle (p.map Statement.unnumbered) ∧
      (q.map Statement.unnumbered = p.map Statement.unnumbered ↔
        ∀ s ∈ p.tail, s.leading.head? ≠ some .blank) := by
  have hreadable := readable_of_parse h
  obtain ⟨q, hparse, hq⟩ := parse_render hreadable.printable
  have hreread : p.map Statement.reread = p.map Statement.unnumbered :=
    List.map_congr_left fun s hs => (hreadable.statements s hs).reread_eq
  rw [hreread] at hq
  refine ⟨q, hparse, hq, ?_⟩
  have htrailing : ∀ s ∈ (p.map Statement.unnumbered).dropLast,
      ∀ t ∈ s.trailing, Trivia.isBlank t = true := by
    intro s hs
    rw [← List.map_dropLast] at hs
    obtain ⟨s', hs', rfl⟩ := List.mem_map.mp hs
    exact hreadable.trailing s' hs'
  rw [hq, settle_eq_iff htrailing, ← List.map_tail, List.forall_mem_map]
  rfl

/-- A blank line between a label and its statement. -/
def gap : Program :=
  [{ op := some (.pseudo .halt), line := 1 },
   { labels := ["a"], op := some (.pseudo .halt), leading := [.blank], line := 4 }]

/-- The blank line is printed before the label, and then belongs to the statement before. -/
theorem parse_render_parse_gap :
    parse "halt\na:\n\nhalt" = .ok gap ∧
      ∃ q, parse gap.render = .ok q ∧
        q.map Statement.unnumbered = settle (gap.map Statement.unnumbered) ∧
        q.map Statement.unnumbered ≠ gap.map Statement.unnumbered := by
  have hparse : parse "halt\na:\n\nhalt" = .ok gap := by decide +kernel
  obtain ⟨q, hq, hsettle, hiff⟩ := parse_render_parse hparse
  refine ⟨hparse, q, hq, hsettle, fun heq => ?_⟩
  exact absurd (hiff.mp heq) (by decide)

end Program

end AnnaToolchain
