import AnnaToolchain.Proofs.Program.Formatting

/-! # Canonical text

    A program that can be printed may hold comments with white space around
    them.  On a statement's own line that white space is lost in printing and
    reading, and then the text is not the same a second time; so the text is
    canonical just if these comments are trimmed
    (`Program.canonical_iff`). -/

namespace AnnaToolchain

/-! ## Lines of code -/

/-- Different comments are written differently. -/
theorem commentText_inj {c c' : String} : commentText c = commentText c' ↔ c = c' := by
  refine ⟨fun h => ?_, fun h => by rw [h]⟩
  unfold commentText at h
  split at h
  · next hc =>
    split at h
    · next hc' => rw [hc, hc']
    · -- nothing is as long as a comment that is not empty
      have hlist := congrArg String.toList h
      rw [String.toList_append] at hlist
      cases hlist
  · split at h
    · have hlist := congrArg String.toList h
      rw [String.toList_append] at hlist
      cases hlist
    · exact (String.append_right_inj _).mp h

namespace Statement

/-- The comment on the own line has no white space around it. -/
def HasTrimmedComment (s : Statement) : Prop :=
  s.comment.map Text.trim = s.comment

theorem hasTrimmedComment_iff {s : Statement} :
    s.HasTrimmedComment ↔ ∀ c, s.comment = some c → Text.trim c = c := by
  unfold HasTrimmedComment
  cases s.comment with
  | none => exact ⟨fun _ => nofun, fun _ => rfl⟩
  | some c => simp only [Option.map_some, Option.some.injEq, forall_eq']

theorem text_reread_eq_iff (s : Statement) : s.reread.text = s.text ↔ s.HasTrimmedComment := by
  have hcode : s.reread.codeText = s.codeText := rfl
  have hcomment : s.reread.comment = s.comment.map Text.trim := rfl
  unfold text HasTrimmedComment
  rw [hcomment, hcode]
  cases s.comment with
  | none => exact ⟨fun _ => rfl, fun _ => rfl⟩
  | some c =>
    simp only [Option.map_some, Option.some.injEq]
    split
    · exact commentText_inj
    · rw [String.append_right_inj, commentText_inj]

/-- A comment keeps its line, trimmed or not. -/
theorem length_codeLines_reread (s : Statement) :
    s.reread.codeLines.length = s.codeLines.length := by
  unfold codeLines ownLines reread
  rw [List.length_append, List.length_append]
  cases s.op <;> cases s.comment <;> rfl

theorem codeLines_reread_eq_iff (s : Statement) :
    s.reread.codeLines = s.codeLines ↔ s.HasTrimmedComment := by
  have hlabels : s.reread.labels = s.labels := rfl
  have hop : s.reread.op = s.op := rfl
  have hcomment : s.reread.comment = s.comment.map Text.trim := rfl
  unfold codeLines
  rw [hlabels, List.append_cancel_left_eq]
  unfold ownLines
  rw [hop]
  cases s.op with
  | some op =>
    simp only [List.cons.injEq, and_true, String.append_right_inj]
    exact s.text_reread_eq_iff
  | none =>
    unfold HasTrimmedComment
    rw [hcomment]
    cases s.comment with
    | none => exact ⟨fun _ => rfl, fun _ => rfl⟩
    | some c => simp only [Option.map_some, List.cons.injEq, and_true, commentText_inj,
        Option.some.injEq]

end Statement

namespace Program

/-! ## Gaps and code -/

theorem length_gapsFrom (before : List Trivia) (p : Program) :
    (gapsFrom before p).length = p.length + 1 := by
  induction p generalizing before with
  | nil => rfl
  | cons s rest ih => rw [gapsFrom, List.length_cons, ih, List.length_cons]

/-- Between known gaps, code of known lengths is found. -/
theorem weave_inj {gaps : List (List Trivia)} {xs ys : List (List String)}
    (hlt : xs.length < gaps.length) (hlengths : xs.map List.length = ys.map List.length)
    (h : weave gaps xs = weave gaps ys) : xs = ys := by
  induction xs generalizing gaps ys with
  | nil => exact (List.map_eq_nil_iff.mp hlengths.symm).symm
  | cons x xs ih =>
    obtain ⟨y, ys, rfl, hlength, hrest⟩ := List.map_eq_cons_iff.mp hlengths.symm
    cases gaps with
    | nil => exact absurd hlt (Nat.not_lt_zero _)
    | cons gap gaps =>
      -- the gaps in front are the same, and then the code is as long on both sides
      rw [weave, weave, List.append_assoc, List.append_assoc, List.append_cancel_left_eq] at h
      obtain ⟨rfl, hothers⟩ := List.append_inj h hlength.symm
      rw [ih (Nat.lt_of_succ_lt_succ hlt) hrest.symm hothers]

/-- If the lines of comment are trimmed, reading them again leaves the gaps as they are. -/
theorem gaps_reread {p : Program}
    (h : ∀ s ∈ p, ∀ c, .comment c ∈ s.leading ++ s.trailing → IsReadComment c) :
    gaps (p.map Statement.reread) = p.gaps :=
  gapsFrom_map [] (fun s hs => map_trimmed fun c hc => h s hs c (List.mem_append_left _ hc))
    fun s hs => map_trimmed fun c hc => h s hs c (List.mem_append_right _ hc)

/-! ## Printing a second time -/

/-- **Canonical text.**  A program whose lines of comment are trimmed is printed and read again; the
    comments on the lines of its statements are then trimmed too.  The text is printed as it is,
    and the comments are the same, just if they were trimmed before. -/
theorem canonical_iff {p : Program} (hp : p.Printable)
    (h : ∀ s ∈ p, ∀ c, .comment c ∈ s.leading ++ s.trailing → IsReadComment c) :
    ∃ q, parse p.render = .ok q ∧
      q.map (·.comment) = p.map (·.comment.map Text.trim) ∧
      (q.render = p.render ↔ ∀ s ∈ p, s.HasTrimmedComment) ∧
      (q.map (·.comment) = p.map (·.comment) ↔ ∀ s ∈ p, s.HasTrimmedComment) := by
  obtain ⟨q, hparse, hq⟩ := parse_render hp
  have hcomments : q.map (·.comment) = p.map (·.comment.map Text.trim) := by
    rw [map_of_settle hq (fun _ _ => rfl) (fun _ _ => rfl) fun _ => rfl, List.map_map]
    rfl
  have hcode : q.map Statement.codeLines = p.map (Statement.codeLines ∘ Statement.reread) := by
    rw [map_of_settle hq (fun _ _ => rfl) (fun _ _ => rfl) fun _ => rfl, List.map_map]
  have hgaps : q.gaps = p.gaps := (gaps_of_settle hq).trans (gaps_reread h)
  have htrimmed : q.map Statement.codeLines = p.map Statement.codeLines ↔
      ∀ s ∈ p, s.HasTrimmedComment := by
    rw [hcode, List.map_inj_left]
    exact forall₂_congr fun s _ => s.codeLines_reread_eq_iff
  refine ⟨q, hparse, hcomments, ⟨fun hrender => ?_, fun hall => ?_⟩, ?_⟩
  · -- the same text has the same lines, and as the gaps are the same, so is the code
    have hlines := congrArg Text.lines hrender
    rw [lines_render (readable_of_parse hparse).printable.written, lines_render hp.written,
      sourceLines_eq_weave, sourceLines_eq_weave, hgaps] at hlines
    refine htrimmed.mp (weave_inj ?_ ?_ hlines)
    · unfold gaps
      rw [hcode, List.length_map, length_gapsFrom]
      exact Nat.lt_succ_self _
    · rw [hcode, List.map_map, List.map_map]
      exact List.map_congr_left fun s _ => s.length_codeLines_reread
  · exact render_eq_of_gaps (htrimmed.mpr hall) hgaps
  · rw [hcomments, List.map_inj_left]
    exact Iff.rfl

end Program

end AnnaToolchain
