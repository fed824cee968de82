import AnnaToolchain.Proofs.Program.Parsed

/-! # Canonical layout

    What a program is printed as depends on its code and on the trivia in the
    gaps between its statements (`Program.sourceLines_eq_weave`).  Reading the
    printed text shares out the trivia of a gap anew, but leaves in each gap
    what was there (`Program.gaps_settle`).  So a text that has been printed
    is printed as it is (`Program.render_stable`). -/

namespace AnnaToolchain

/-- The lines of a statement that are not trivia: its labels and its code. -/
def Statement.codeLines (s : Statement) : List String :=
  s.labels.map (· ++ ":") ++ s.ownLines

namespace Program

/-! ## Gaps -/

/-- The gaps of a program that comes after the trivia `before`. -/
def gapsFrom (before : List Trivia) : Program → List (List Trivia)
  | [] => [before]
  | s :: rest => (before ++ s.leading) :: gapsFrom s.trailing rest

/-- The trivia before the first statement, between each two statements, and after the last one. -/
def gaps (p : Program) : List (List Trivia) :=
  gapsFrom [] p

theorem gapsFrom_map {f : Statement → Statement} (before : List Trivia) {p : Program}
    (hleading : ∀ s ∈ p, (f s).leading = s.leading)
    (htrailing : ∀ s ∈ p, (f s).trailing = s.trailing) :
    gapsFrom before (p.map f) = gapsFrom before p := by
  induction p generalizing before with
  | nil => rfl
  | cons s rest ih =>
    obtain ⟨hfirst, hleading⟩ := List.forall_mem_cons.mp hleading
    obtain ⟨hlast, htrailing⟩ := List.forall_mem_cons.mp htrailing
    rw [List.map_cons, gapsFrom, gapsFrom, hfirst, hlast, ih _ hleading htrailing]

theorem gapsFrom_settleFrom (before : List Trivia) (s : Statement) (rest : List Statement) :
    gapsFrom before (settleFrom s rest) = gapsFrom before (s :: rest) := by
  induction rest generalizing before s with
  | nil => rfl
  | cons next rest ih =>
    rw [settleFrom, gapsFrom, ih, gapsFrom, gapsFrom, gapsFrom]
    -- what is cut in two and handed to both sides makes up the gap
    rw [List.takeWhile_append_dropWhile]

/-- Whoever owns the trivia of a gap, it stays in the gap. -/
theorem gaps_settle (p : Program) : (settle p).gaps = p.gaps := by
  cases p with
  | nil => rfl
  | cons s rest => exact gapsFrom_settleFrom [] s rest

/-! ## Layout -/

/-- The lines of gaps, with code between them. -/
def weave : List (List Trivia) → List (List String) → List String
  | [], _ => []
  | gap :: _, [] => gap.map Trivia.text
  | gap :: gaps, lines :: rest => gap.map Trivia.text ++ lines ++ weave gaps rest

theorem weave_gapsFrom (before : List Trivia) (p : Program) :
    weave (gapsFrom before p) (p.map Statement.codeLines)
      = before.map Trivia.text ++ p.sourceLines := by
  induction p generalizing before with
  | nil => exact (List.append_nil _).symm
  | cons s rest ih =>
    calc weave (gapsFrom before (s :: rest)) ((s :: rest).map Statement.codeLines)
        = (before ++ s.leading).map Trivia.text ++ s.codeLines
            ++ weave (gapsFrom s.trailing rest) (rest.map Statement.codeLines) := rfl
      _ = (before ++ s.leading).map Trivia.text ++ s.codeLines
            ++ (s.trailing.map Trivia.text ++ sourceLines rest) := by rw [ih]
      _ = before.map Trivia.text ++ (s.sourceLines ++ sourceLines rest) := by
        unfold Statement.codeLines Statement.sourceLines
        simp only [List.map_append, List.append_assoc]

/-- A program is printed as its gaps and its code in turn. -/
theorem sourceLines_eq_weave (p : Program) :
    p.sourceLines = weave p.gaps (p.map Statement.codeLines) :=
  (weave_gapsFrom [] p).symm

/-- Programs with the same code and the same gaps are printed alike. -/
theorem render_eq_of_gaps {p q : Program}
    (hcode : q.map Statement.codeLines = p.map Statement.codeLines) (hgaps : q.gaps = p.gaps) :
    q.render = p.render := by
  unfold render
  rw [sourceLines_eq_weave q, hcode, hgaps, ← sourceLines_eq_weave p]

/-! ## Printing what has been printed -/

section

variable {q r : Program} (h : q.map Statement.unnumbered = settle r)

include h

/-- Settling changes the trivia of statements only. -/
theorem map_of_settle {α : Type} {f : Statement → α}
    (hleading : ∀ s leading, f { s with leading := leading } = f s)
    (htrailing : ∀ s trailing, f { s with trailing := trailing } = f s)
    (hline : ∀ s : Statement, f s.unnumbered = f s) : q.map f = r.map f := by
  have hmap := congrArg (List.map f) h
  have hf : f ∘ Statement.unnumbered = f := funext hline
  rwa [map_settle hleading htrailing, List.map_map, hf] at hmap

theorem gaps_of_settle : q.gaps = r.gaps := by
  have hunnumbered : gaps (q.map Statement.unnumbered) = q.gaps :=
    gapsFrom_map [] (fun _ _ => rfl) fun _ _ => rfl
  rw [← hunnumbered, h, gaps_settle]

end

theorem map_eq_of_settle {α : Type} {p q : Program}
    (h : q.map Statement.unnumbered = settle (p.map Statement.unnumbered)) {f : Statement → α}
    (hleading : ∀ s leading, f { s with leading := leading } = f s)
    (htrailing : ∀ s trailing, f { s with trailing := trailing } = f s)
    (hline : ∀ s : Statement, f s.unnumbered = f s) : q.map f = p.map f := by
  rw [map_of_settle h hleading htrailing hline, List.map_map]
  exact List.map_congr_left fun s _ => hline s

theorem gaps_eq_of_settle {p q : Program}
    (h : q.map Statement.unnumbered = settle (p.map Statement.unnumbered)) : q.gaps = p.gaps :=
  (gaps_of_settle h).trans (gapsFrom_map [] (fun _ _ => rfl) fun _ _ => rfl)

theorem sameCode_of_settle {p q : Program}
    (h : q.map Statement.unnumbered = settle (p.map Statement.unnumbered)) :
    List.Forall₂ Statement.SameCode p q := by
  have hcode := (map_eq_of_settle h
    (f := fun s => (s.labels, s.op, s.operands, s.comment)) (fun _ _ => rfl) (fun _ _ => rfl)
    fun _ => rfl).symm
  rw [← List.forall₂_eq_eq_eq, List.forall₂_map_left_iff, List.forall₂_map_right_iff] at hcode
  refine hcode.imp fun s s' heq => ?_
  simp only [Prod.mk.injEq] at heq
  obtain ⟨hlabels, hop, hoperands, hcomment⟩ := heq
  exact ⟨hlabels.symm, hop.symm, hoperands.symm, hcomment.symm⟩

/-- Read again, a program that has been read is the same, with its trivia shared out anew. -/
theorem settle_of_parse {source : String} {p : Program} (h : parse source = .ok p) :
    ∃ q, parse p.render = .ok q ∧
      q.map Statement.unnumbered = settle (p.map Statement.unnumbered) := by
  have hreadable := readable_of_parse h
  obtain ⟨q, hparse, hq⟩ := parse_render hreadable.printable
  have hreread : p.map Statement.reread = p.map Statement.unnumbered :=
    List.map_congr_left fun s hs => (hreadable.statements s hs).reread_eq
  rw [hreread] at hq
  exact ⟨q, hparse, hq⟩

/-- **The canonical layout is stable.**  What a program that has been read is printed as can be
    read, and is printed as it is.  The statements say the same, and before, between and after
    them stand the same blank lines and comments. -/
theorem render_stable {source : String} {p : Program} (h : parse source = .ok p) :
    ∃ q, parse p.render = .ok q ∧ q.render = p.render ∧
      List.Forall₂ Statement.SameCode p q ∧ q.gaps = p.gaps := by
  obtain ⟨q, hparse, hsettle⟩ := settle_of_parse h
  have hgaps := gaps_eq_of_settle hsettle
  have hcode : q.map Statement.codeLines = p.map Statement.codeLines :=
    map_eq_of_settle hsettle (fun _ _ => rfl) (fun _ _ => rfl) fun _ => rfl
  exact ⟨q, hparse, render_eq_of_gaps hcode hgaps, sameCode_of_settle hsettle, hgaps⟩

/-- A comment and blank lines around a label. -/
def spaced : Program :=
  [{ op := some (.pseudo .halt), trailing := [.blank], line := 1 },
   { labels := ["a"], op := some (.pseudo .halt), comment := some "stop"
     leading := [.comment "next", .blank], trailing := [.blank, .comment "end"], line := 5 }]

theorem render_stable_spaced :
    parse "halt\n\na: #next\n\n  HALT #  stop\n\n#end" = .ok spaced ∧
      ∃ q, parse spaced.render = .ok q ∧ q.render = spaced.render ∧
        List.Forall₂ Statement.SameCode spaced q ∧
        q.gaps = [[], [.blank, .comment "next", .blank], [.blank, .comment "end"]] := by
  have hparse : parse "halt\n\na: #next\n\n  HALT #  stop\n\n#end" = .ok spaced := by
    decide +kernel
  exact ⟨hparse, render_stable hparse⟩

end Program

end AnnaToolchain
