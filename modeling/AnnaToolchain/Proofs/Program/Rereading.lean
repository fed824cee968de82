import AnnaToolchain.Proofs.Program.Printing

/-! # Programs that are printed and read again

    A program that is printed and read again has the same statements
    (`Program.parse_render`).  The trivia between two statements is shared out
    anew: the blank lines that come first belong to the statement before, and
    everything from the first comment on to the one after
    (`Program.settle`). -/

namespace AnnaToolchain

/-! ## Reading without line numbers -/

/-- A statement without its line number. -/
def Statement.unnumbered (s : Statement) : Statement :=
  { s with line := 0 }

namespace Draft

/-- A draft without the line numbers of its statements. -/
def unnumbered (d : Draft) : Draft :=
  { d with statements := d.statements.map Statement.unnumbered }

/-- Reads a line whose number does not matter. -/
def take (d : Draft) (content : SourceLine) : Draft :=
  d.add 0 content

theorem unnumbered_add (d : Draft) (number : Nat) (content : SourceLine) :
    (d.add number content).unnumbered = d.unnumbered.take content := by
  obtain ⟨statements, labels, trivia, afterStatement⟩ := d
  cases content with
  | blank => cases statements <;> cases afterStatement <;> rfl
  | comment => rfl
  | labels => rfl
  | statement => rfl

theorem map_unnumbered_finish (d : Draft) (number : Nat) :
    (d.finish number).map Statement.unnumbered = d.unnumbered.finish 0 := by
  obtain ⟨statements, labels, trivia, afterStatement⟩ := d
  have hloose : ∀ statements : List Statement,
      (if labels = [] ∧ trivia = [] then statements.reverse
        else (Statement.loose labels.reverse trivia.reverse number :: statements).reverse).map
          Statement.unnumbered
      = if labels = [] ∧ trivia = [] then (statements.map Statement.unnumbered).reverse
        else (Statement.loose labels.reverse trivia.reverse 0 ::
          statements.map Statement.unnumbered).reverse := by
    intro statements
    split
    · rw [List.map_reverse]
    · rw [List.map_reverse, List.map_cons]
      rfl
  cases statements with
  | nil => exact hloose []
  | cons last earlier =>
    cases labels with
    | nil =>
      show (List.reverse _).map _ = List.reverse _
      rw [List.map_reverse, List.map_cons]
      rfl
    | cons name names => exact hloose (last :: earlier)

end Draft

namespace Program

/-- The program of what lines are read as, without line numbers. -/
def ofContents (contents : List SourceLine) : Program :=
  (contents.foldl Draft.take {}).finish 0

theorem foldlM_addLine {lines : List String} {contents : List SourceLine}
    (h : lines.map SourceLine.read = contents.map .ok) (d : Draft) (start : Nat) :
    ∃ d', (lines.zipIdx start).foldlM addLine d = .ok d' ∧
      d'.unnumbered = contents.foldl Draft.take d.unnumbered := by
  induction lines generalizing contents d start with
  | nil =>
    obtain rfl := List.map_eq_nil_iff.mp h.symm
    exact ⟨d, rfl, rfl⟩
  | cons line lines ih =>
    obtain ⟨content, contents, rfl, hcontent, hcontents⟩ := List.map_eq_cons_iff.mp h.symm
    obtain ⟨d', hd', htake⟩ := ih hcontents.symm (d.add start content) (start + 1)
    have hline : addLine d (line, start) = .ok (d.add start content) := by
      unfold addLine
      rw [← hcontent]
    refine ⟨d', ?_, ?_⟩
    · rw [List.zipIdx_cons, List.foldlM_cons, hline]
      exact hd'
    · rw [htake, Draft.unnumbered_add, List.foldl_cons]

/-- Lines that can be read make up a program. -/
theorem ofLines_of_read {lines : List String} {contents : List SourceLine}
    (h : lines.map SourceLine.read = contents.map .ok) :
    ∃ p, ofLines lines = .ok p ∧ p.map Statement.unnumbered = ofContents contents := by
  obtain ⟨d, hd, htake⟩ := foldlM_addLine h {} 1
  refine ⟨d.finish lines.length, ?_, ?_⟩
  · unfold ofLines
    rw [hd]
    rfl
  · rw [Draft.map_unnumbered_finish, htake]
    rfl

/-- The lines a program is printed as are the lines that are read. -/
theorem lines_render {p : Program} (h : ∀ s ∈ p, s.Written IsCommentText) :
    Text.lines p.render = p.sourceLines := by
  have hlist : p.render.toList = (p.sourceLines.map String.toList).flatMap (· ++ ['\n']) := by
    unfold render
    rw [String.toList_join, List.flatMap_map, List.flatMap_map]
    congr 1
    funext line
    rw [String.toList_append]
    rfl
  have hlines : ∀ line ∈ p.sourceLines.map String.toList, Text.IsLine line := by
    intro line hline
    obtain ⟨text, htext, rfl⟩ := List.mem_map.mp hline
    obtain ⟨s, hs, hmem⟩ := List.mem_flatMap.mp htext
    exact Statement.isLine_sourceLines (h s hs) text hmem
  unfold Text.lines
  rw [hlist, Text.lineChars_join hlines, List.map_map]
  calc p.sourceLines.map (String.ofList ∘ String.toList)
      = p.sourceLines.map id := List.map_congr_left fun line _ => String.ofList_toList
    _ = p.sourceLines := List.map_id _

/-- What a printed program is read as. -/
theorem parse_render_eq {p : Program} (h : ∀ s ∈ p, s.Written IsCommentText) :
    ∃ q, parse p.render = .ok q ∧
      q.map Statement.unnumbered = ofContents (p.flatMap Statement.contents) := by
  apply ofLines_of_read
  rw [lines_render h]
  unfold sourceLines
  rw [List.map_flatMap, List.map_flatMap]
  exact congrArg List.flatten
    (List.map_congr_left fun s hs => Statement.read_sourceLines (h s hs))

end Program

/-! ## Shares of trivia -/

/-- Whether a line of trivia is blank. -/
def Trivia.isBlank : Trivia → Bool
  | .blank => true
  | .comment _ => false

/-- Trivia without white space around comments. -/
def Trivia.trimmed : Trivia → Trivia
  | .blank => .blank
  | .comment contents => .comment (Text.trim contents)

/-- A statement as it is read again: without white space around comments, and not placed. -/
def Statement.reread (s : Statement) : Statement :=
  { labels := s.labels
    op := s.op
    operands := s.operands
    comment := s.comment.map Text.trim
    leading := s.leading.map Trivia.trimmed
    trailing := s.trailing.map Trivia.trimmed }

namespace Program

/-- Shares out trivia among a statement and those after it: blank lines right after a statement
    belong to it, and all other trivia between two statements to the second one. -/
def settleFrom (s : Statement) : List Statement → Program
  | [] => [s]
  | next :: rest =>
    { s with trailing := (s.trailing ++ next.leading).takeWhile Trivia.isBlank } ::
      settleFrom
        { next with leading := (s.trailing ++ next.leading).dropWhile Trivia.isBlank } rest

/-- Shares out the trivia of a program anew. -/
def settle : Program → Program
  | [] => []
  | s :: rest => settleFrom s rest

/-- Statements with a mnemonic, the last of which may be followed by loose labels. -/
inductive Regular : List Statement → Prop
  | nil : Regular []
  | cons {s : Statement} {rest : List Statement} (hs : s.isReal = true) (hrest : Regular rest) :
      Regular (s :: rest)
  | loose {labels : List String} {leading : List Trivia} {line : Nat} (h : labels ≠ []) :
      Regular [.loose labels leading line]

theorem Regular.append {p q : List Statement} (hp : ∀ s ∈ p, s.isReal = true) (hq : Regular q) :
    Regular (p ++ q) := by
  induction p with
  | nil => exact hq
  | cons s p ih =>
    obtain ⟨hs, hp⟩ := List.forall_mem_cons.mp hp
    exact .cons hs (ih hp)

/-- Nothing loose comes before a statement with a mnemonic. -/
theorem Regular.split {before rest : List Statement} {s : Statement} (hs : s.isReal = true)
    (h : Regular (before ++ s :: rest)) : (∀ s ∈ before, s.isReal = true) ∧ Regular rest := by
  induction before with
  | nil =>
    cases h with
    | cons _ hrest => exact ⟨List.forall_mem_nil _, hrest⟩
    | loose => cases hs
  | cons first before ih =>
    rw [List.cons_append] at h
    generalize hafter : before ++ s :: rest = after at h ih
    cases h with
    | cons hfirst hafter =>
      obtain ⟨hbefore, hrest⟩ := ih hafter
      exact ⟨List.forall_mem_cons.mpr ⟨hfirst, hbefore⟩, hrest⟩
    | loose => exact absurd hafter (by simp)

end Program

namespace Draft

variable {s : Statement} {earlier : List Statement} {trivia : List Trivia} {labels : List String}

/-- What has been read when trivia follows a statement. -/
def after (s : Statement) (earlier : List Statement) (trivia : List Trivia) : Draft where
  statements := { s with trailing := trivia.takeWhile Trivia.isBlank } :: earlier
  trivia := (trivia.dropWhile Trivia.isBlank).reverse
  afterStatement := (trivia.dropWhile Trivia.isBlank).isEmpty

theorem after_nil : after s earlier []
    = { statements := { s with trailing := [] } :: earlier, afterStatement := true } := rfl

theorem take_statement (d : Draft) (s : Statement) : d.take (.statement s)
    = { statements := { s with
          labels := d.labels.reverse ++ s.labels
          leading := d.trivia.reverse
          line := 0 } :: d.statements
        afterStatement := true } := rfl

/-- It makes no difference at which end of blank lines one more is put. -/
theorem cons_blank (h : trivia.dropWhile Trivia.isBlank = []) :
    .blank :: trivia = trivia ++ [.blank] := by
  have hall : ∀ t ∈ trivia, t = .blank := by
    intro t ht
    have hblank := List.dropWhile_eq_nil_iff.mp h t ht
    cases t with
    | blank => rfl
    | comment contents => cases hblank
  rw [List.eq_replicate_of_mem hall, ← List.replicate_succ, List.replicate_succ']

theorem take_trivia_after (t : Trivia) :
    (after s earlier trivia).take (.ofTrivia t) = after s earlier (trivia ++ [t.trimmed]) := by
  have hsplit : trivia.takeWhile Trivia.isBlank ++ trivia.dropWhile Trivia.isBlank = trivia :=
    List.takeWhile_append_dropWhile
  unfold after
  rw [List.takeWhile_append, List.dropWhile_append]
  cases hrest : trivia.dropWhile Trivia.isBlank with
  | nil =>
    -- only blank lines so far
    rw [hrest, List.append_nil] at hsplit
    rw [hsplit, if_pos rfl]
    cases t with
    | blank =>
      have hcons := cons_blank hrest
      show Draft.mk ({ s with trailing := .blank :: trivia } :: earlier) [] [] true = _
      rw [hcons]
      rfl
    | comment contents =>
      show Draft.mk ({ s with trailing := trivia } :: earlier) [] _ false
        = Draft.mk ({ s with trailing := trivia ++ [] } :: earlier) [] _ false
      rw [List.append_nil]
      rfl
  | cons u rest =>
    have hlength : ¬ (trivia.takeWhile Trivia.isBlank).length = trivia.length := by
      rw [← congrArg List.length hsplit, List.length_append, hrest, List.length_cons]
      omega
    rw [if_neg hlength]
    cases t with
    | blank =>
      show Draft.mk _ [] (.blank :: (u :: rest).reverse) false
        = Draft.mk _ [] ((u :: rest) ++ [Trivia.blank]).reverse false
      rw [List.reverse_append]
      rfl
    | comment contents =>
      show Draft.mk _ [] (.comment _ :: (u :: rest).reverse) false
        = Draft.mk _ [] ((u :: rest) ++ [Trivia.comment _]).reverse false
      rw [List.reverse_append]
      rfl

theorem foldl_trivia_after (ts : List Trivia) :
    (ts.map SourceLine.ofTrivia).foldl take (after s earlier trivia)
      = after s earlier (trivia ++ ts.map Trivia.trimmed) := by
  induction ts generalizing trivia with
  | nil => rw [List.map_nil, List.map_nil, List.append_nil]; rfl
  | cons t ts ih =>
    rw [List.map_cons, List.map_cons, List.foldl_cons, take_trivia_after, ih, List.append_assoc]
    rfl

/-- What has been read when a program starts with trivia. -/
def before (trivia : List Trivia) : Draft where
  trivia := trivia.reverse

theorem foldl_trivia_before (ts : List Trivia) :
    (ts.map SourceLine.ofTrivia).foldl take (before trivia)
      = before (trivia ++ ts.map Trivia.trimmed) := by
  induction ts generalizing trivia with
  | nil => rw [List.map_nil, List.map_nil, List.append_nil]; rfl
  | cons t ts ih =>
    have hstep : (before trivia).take (.ofTrivia t) = before (trivia ++ [t.trimmed]) := by
      unfold before
      rw [List.reverse_append]
      cases t <;> rfl
    rw [List.map_cons, List.map_cons, List.foldl_cons, hstep, ih, List.append_assoc]
    rfl

theorem foldl_labels (names : List String) (d : Draft) :
    ∃ flag, (names.map (SourceLine.labels [·] none)).foldl take d
      = { d with labels := names.reverse ++ d.labels, afterStatement := flag } := by
  induction names generalizing d with
  | nil => exact ⟨d.afterStatement, rfl⟩
  | cons name names ih =>
    obtain ⟨flag, hflag⟩ := ih (d.take (.labels [name] none))
    refine ⟨flag, ?_⟩
    rw [List.map_cons, List.foldl_cons, hflag, List.reverse_cons, List.append_assoc]
    rfl

/-- Reading a statement and the trivia after it, when there are no labels but its own. -/
theorem foldl_statement {d : Draft} (hlabels : d.labels = []) {op : Mnemonic} (hop : s.op = some op) :
    (s.labels.map (SourceLine.labels [·] none) ++ s.ownContents
        ++ s.trailing.map SourceLine.ofTrivia).foldl take d
      = after { s.reread with leading := d.trivia.reverse, trailing := [] } d.statements
          s.reread.trailing := by
  obtain ⟨flag, hflag⟩ := foldl_labels s.labels d
  have hown : s.ownContents = [.statement
      { op := some op, operands := s.operands, comment := s.comment.map Text.trim }] := by
    unfold Statement.ownContents
    rw [hop]
  have hstatement : take { d with labels := s.labels.reverse ++ d.labels, afterStatement := flag }
        (.statement { op := some op, operands := s.operands, comment := s.comment.map Text.trim })
      = after { s.reread with leading := d.trivia.reverse, trailing := [] } d.statements [] := by
    rw [take_statement, after_nil]
    unfold Statement.reread
    simp only [hop, hlabels, List.append_nil, List.reverse_reverse]
  rw [List.foldl_append, List.foldl_append, hflag, hown, List.foldl_cons, List.foldl_nil,
    hstatement, foldl_trivia_after, List.nil_append]
  rfl

theorem finish_after :
    (after s earlier trivia).finish 0 = earlier.reverse ++ [{ s with trailing := trivia }] := by
  unfold after finish
  simp only [List.reverse_reverse, List.takeWhile_append_dropWhile]
  rw [List.reverse_cons]

theorem finish_of_loose {d : Draft} (h : d.labels ≠ [] ∨ d.statements = [] ∧ d.trivia ≠ [])
    (number : Nat) : d.finish number
      = d.statements.reverse ++ [.loose d.labels.reverse d.trivia.reverse number] := by
  obtain ⟨statements, labels, trivia, afterStatement⟩ := d
  have hloose : ¬ (labels = [] ∧ trivia = []) := by
    rintro ⟨hlabels, htrivia⟩
    exact h.elim (fun hne => hne hlabels) fun hne => hne.2 htrivia
  have hfinish : (if labels = [] ∧ trivia = [] then statements.reverse
        else (Statement.loose labels.reverse trivia.reverse number :: statements).reverse)
      = statements.reverse ++ [Statement.loose labels.reverse trivia.reverse number] := by
    rw [if_neg hloose, List.reverse_cons]
  cases statements with
  | nil => exact hfinish
  | cons last earlier =>
    cases labels with
    | nil => exact absurd h (by simp)
    | cons name names => exact hfinish

/-- A loose statement is read as trivia and labels. -/
theorem foldl_loose (labels : List String) (leading : List Trivia) (line : Nat) (d : Draft) :
    (Statement.loose labels leading line).contents.foldl take d
      = (labels.map (SourceLine.labels [·] none)).foldl take
          ((leading.map SourceLine.ofTrivia).foldl take d) := by
  unfold Statement.contents
  rw [List.foldl_append, List.foldl_append, List.foldl_append]
  rfl

/-- The trivia is shared out as the statements that follow are read. -/
theorem finish_foldl_after {rest : List Statement} (h : Program.Regular rest) :
    ((rest.flatMap Statement.contents).foldl take (after s earlier trivia)).finish 0
      = earlier.reverse ++
          Program.settleFrom { s with trailing := trivia } (rest.map Statement.reread) := by
  induction h generalizing s earlier trivia with
  | nil => exact finish_after
  | @cons next rest hs hrest ih =>
    obtain ⟨op, hop⟩ := Option.isSome_iff_exists.mp hs
    -- the draft is again one after a statement, now the next one
    have hnext : next.contents.foldl take (after s earlier trivia)
        = after { next.reread with
                    leading := (trivia ++ next.reread.leading).dropWhile Trivia.isBlank
                    trailing := [] }
            ({ s with
                trailing := (trivia ++ next.reread.leading).takeWhile Trivia.isBlank } :: earlier)
            next.reread.trailing := by
      unfold Statement.contents
      rw [List.append_assoc, List.append_assoc, ← List.append_assoc (next.labels.map _),
        List.foldl_append, foldl_trivia_after, foldl_statement rfl hop]
      unfold after
      rw [List.reverse_reverse]
      rfl
    rw [List.flatMap_cons, List.foldl_append, hnext, ih, List.reverse_cons, List.append_assoc]
    rfl
  | @loose labels leading line hlabels =>
    obtain ⟨flag, hflag⟩ := foldl_labels labels
      (after s earlier (trivia ++ leading.map Trivia.trimmed))
    have hne : labels.reverse ++ [] ≠ [] := by
      rw [List.append_nil]
      exact mt List.reverse_eq_nil_iff.mp hlabels
    rw [List.flatMap_singleton, foldl_loose, foldl_trivia_after, hflag, finish_of_loose (.inl hne) 0]
    unfold after
    simp only [List.append_nil, List.reverse_reverse, List.reverse_cons, List.append_assoc]
    rfl

/-- A program that starts with a statement. -/
theorem finish_foldl_before {rest : List Statement} (hs : s.isReal = true)
    (h : Program.Regular rest) :
    (((s :: rest).flatMap Statement.contents).foldl take {}).finish 0
      = Program.settle ((s :: rest).map Statement.reread) := by
  obtain ⟨op, hop⟩ := Option.isSome_iff_exists.mp hs
  have hfirst : s.contents.foldl take (before [])
      = after { s.reread with leading := s.reread.leading, trailing := [] } []
          s.reread.trailing := by
    unfold Statement.contents
    rw [List.append_assoc, List.append_assoc, ← List.append_assoc (s.labels.map _),
      List.foldl_append, foldl_trivia_before, foldl_statement rfl hop]
    unfold before
    rw [List.reverse_reverse]
    rfl
  have hbefore : ({} : Draft) = before [] := rfl
  rw [hbefore, List.flatMap_cons, List.foldl_append, hfirst, finish_foldl_after h]
  rfl

/-- A program that is nothing but a loose statement. -/
theorem finish_foldl_alone {labels : List String} {leading : List Trivia} {line : Nat}
    (h : labels ≠ [] ∨ leading ≠ []) :
    (([.loose labels leading line].flatMap Statement.contents).foldl take {}).finish 0
      = [.loose labels (leading.map Trivia.trimmed) 0] := by
  obtain ⟨flag, hflag⟩ := foldl_labels labels (before (leading.map Trivia.trimmed))
  have hbefore : ({} : Draft) = before [] := rfl
  have hne : labels.reverse ++ [] ≠ [] ∨
      ([] : List Statement) = [] ∧ (leading.map Trivia.trimmed).reverse ≠ [] := by
    rw [List.append_nil]
    refine h.imp (mt List.reverse_eq_nil_iff.mp) fun hleading => ⟨rfl, fun hnil => ?_⟩
    rw [List.reverse_eq_nil_iff, List.map_eq_nil_iff] at hnil
    exact hleading hnil
  rw [hbefore, List.flatMap_singleton, foldl_loose, foldl_trivia_before, List.nil_append, hflag]
  unfold before
  rw [finish_of_loose hne 0]
  simp only [List.append_nil, List.reverse_reverse, List.reverse_nil, List.nil_append]

end Draft

namespace Program

/-- A program that can be printed and read again. -/
structure Printable (p : Program) : Prop where
  written : ∀ s ∈ p, s.Written IsCommentText
  /-- A loose statement stands last and holds labels, or else it is all there is. -/
  shape : Regular p ∨ ∃ leading line, leading ≠ [] ∧ p = [.loose [] leading line]

/-- **Printed programs.**  A program that is printed and read again is the same, but for white space
    around comments and for the trivia between statements, which is shared out anew. -/
theorem parse_render {p : Program} (h : p.Printable) :
    ∃ q, parse p.render = .ok q ∧ q.map Statement.unnumbered = settle (p.map Statement.reread) := by
  obtain ⟨q, hparse, hq⟩ := parse_render_eq h.written
  refine ⟨q, hparse, hq.trans ?_⟩
  unfold ofContents
  rcases h.shape with hregular | ⟨leading, line, hleading, rfl⟩
  · cases hregular with
    | nil => rfl
    | cons hs hrest => exact Draft.finish_foldl_before hs hrest
    | loose hlabels => exact Draft.finish_foldl_alone (.inl hlabels)
  · exact Draft.finish_foldl_alone (.inr hleading)

/-! ## What settling keeps and what it changes -/

theorem map_settleFrom {α : Type} {f : Statement → α}
    (hleading : ∀ s leading, f { s with leading := leading } = f s)
    (htrailing : ∀ s trailing, f { s with trailing := trailing } = f s) (s : Statement)
    (rest : List Statement) : (settleFrom s rest).map f = f s :: rest.map f := by
  induction rest generalizing s with
  | nil => rfl
  | cons next rest ih => rw [settleFrom, List.map_cons, ih, htrailing s, hleading next, List.map_cons]

/-- Settling changes only trivia. -/
theorem map_settle {α : Type} {f : Statement → α}
    (hleading : ∀ s leading, f { s with leading := leading } = f s)
    (htrailing : ∀ s trailing, f { s with trailing := trailing } = f s) (p : Program) :
    (settle p).map f = p.map f := by
  cases p with
  | nil => rfl
  | cons s rest => exact map_settleFrom hleading htrailing s rest

theorem takeWhile_isBlank_eq_nil (ts : List Trivia) :
    ts.takeWhile Trivia.isBlank = [] ↔ ts.head? ≠ some .blank := by
  cases ts with
  | nil => simp
  | cons t ts =>
    cases t with
    | blank => simp [Trivia.isBlank]
    | comment contents => simp [Trivia.isBlank]

theorem settleFrom_eq_iff {s : Statement} {rest : List Statement}
    (h : ∀ s' ∈ (s :: rest).dropLast, ∀ t ∈ s'.trailing, Trivia.isBlank t = true) :
    settleFrom s rest = s :: rest ↔ ∀ next ∈ rest, next.leading.head? ≠ some .blank := by
  induction rest generalizing s with
  | nil => exact ⟨fun _ => List.forall_mem_nil _, fun _ => rfl⟩
  | cons next rest ih =>
    have hs := h s List.mem_cons_self
    have hrest : ∀ s' ∈ (next :: rest).dropLast, ∀ t ∈ s'.trailing, Trivia.isBlank t = true :=
      fun s' hs' => h s' (List.mem_cons_of_mem _ hs')
    rw [settleFrom, List.takeWhile_append_of_pos hs, List.dropWhile_append_of_pos hs,
      List.forall_mem_cons]
    by_cases hhead : next.leading.head? ≠ some .blank
    · -- nothing moves here
      have htake := (takeWhile_isBlank_eq_nil _).mpr hhead
      have hdrop : next.leading.dropWhile Trivia.isBlank = next.leading := by
        have hsplit := List.takeWhile_append_dropWhile (p := Trivia.isBlank) (l := next.leading)
        rwa [htake, List.nil_append] at hsplit
      rw [htake, hdrop, List.append_nil, List.cons_inj_right, ih hrest]
      exact ⟨fun hall => ⟨hhead, hall⟩, fun hall => hall.2⟩
    · -- a blank line moves to the statement before
      refine ⟨fun heq => ?_, fun hall => absurd hall.1 hhead⟩
      have htrailing := congrArg Statement.trailing (List.cons.inj heq).1
      have hnil := List.append_right_eq_self.mp htrailing
      exact absurd ((takeWhile_isBlank_eq_nil _).mp hnil) hhead

/-- Settling changes nothing just if no statement but the first has a blank line first. -/
theorem settle_eq_iff {p : Program}
    (h : ∀ s ∈ p.dropLast, ∀ t ∈ s.trailing, Trivia.isBlank t = true) :
    settle p = p ↔ ∀ next ∈ p.tail, next.leading.head? ≠ some .blank := by
  cases p with
  | nil => exact ⟨fun _ => List.forall_mem_nil _, fun _ => rfl⟩
  | cons s rest => exact settleFrom_eq_iff h

end Program

end AnnaToolchain
