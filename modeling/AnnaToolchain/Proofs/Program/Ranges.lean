import AnnaToolchain.Proofs.Program.Shown
import AnnaToolchain.Proofs.Text.Places
import AnnaToolchain.Report
import Mathlib.Data.List.Induction

/-! # Ranges of errors

    An error of a program is told of as a range of characters of the whole
    source.  The line of the error is found there again, but without any of
    the carriage returns it ends in (`ParseError.range?_eq`).  These are
    shown by one error only: a text that is not closed takes in all of its
    line.  So the characters at fault are found for every other error, and
    for this one if its line ends in something else.  If not, the range ends
    where the line starts (`Program.errors_located`). -/

namespace AnnaToolchain

namespace Diagnostic

/-! ## Characters of a line -/

theorem addChars_cons (count bytes : Nat) (c : Char) (cs : List Char) :
    addChars count (c :: cs) (c.utf8Size + bytes) = addChars (count + 1) cs bytes := by
  obtain ⟨size, hsize⟩ := Nat.exists_eq_add_of_lt c.utf8Size_pos
  have hbytes : c.utf8Size + bytes = (size + bytes) + 1 := by omega
  have hrest : size + bytes + 1 - c.utf8Size = bytes := by omega
  rw [hbytes, addChars, if_pos (by omega), hrest]

/-- As many characters are counted as stand in front of the byte. -/
theorem addChars_append (count : Nat) (cs rest : List Char) :
    addChars count (cs ++ rest) (String.ofList cs).utf8ByteSize = count + cs.length := by
  induction cs generalizing count with
  | nil => rw [String.ofList_nil]; unfold addChars; rfl
  | cons c cs ih =>
    rw [String.ofList_cons, String.utf8ByteSize_append, String.utf8ByteSize_singleton,
      List.cons_append, addChars_cons, ih, List.length_cons]
    omega

/-- A byte that is not in the line is no end of a character. -/
theorem addChars_of_lt {count bytes : Nat} {cs : List Char}
    (h : (String.ofList cs).utf8ByteSize < bytes) : addChars count cs bytes = 0 := by
  induction cs generalizing count bytes with
  | nil =>
    obtain ⟨bytes, rfl⟩ := Nat.exists_eq_add_one_of_ne_zero (Nat.ne_of_gt h)
    rfl
  | cons c cs ih =>
    rw [String.ofList_cons, String.utf8ByteSize_append, String.utf8ByteSize_singleton] at h
    have hfirst : c.utf8Size ≤ bytes := by omega
    obtain ⟨bytes, rfl⟩ := Nat.exists_eq_add_of_le hfirst
    rw [addChars_cons, ih (by omega)]

/-! ## Lines without their ends -/

variable {cs line : List Char}

theorem content_append {ending : List Char} (h : ∀ c ∈ ending, c = '\r' ∨ c = '\n')
    (cs : List Char) : content (cs ++ ending) = content cs := by
  unfold content
  rw [List.reverse_append, List.dropWhile_append_of_pos]
  intro c hc
  exact decide_eq_true (h c (List.mem_reverse.mp hc))

theorem content_of_getLast? (h : ∀ c, cs.getLast? = some c → ¬ (c = '\r' ∨ c = '\n')) :
    content cs = cs := by
  unfold content
  rw [Text.dropWhile_of_head, List.reverse_reverse]
  intro c hc
  rw [List.head?_reverse] at hc
  exact decide_eq_false (h c hc)

/-- What ends in another character stays as it is. -/
theorem isPrefix_content (h : cs <+: line)
    (hlast : ∀ c, cs.getLast? = some c → ¬ (c = '\r' ∨ c = '\n')) : cs <+: content line := by
  obtain ⟨rest, rfl⟩ := h
  induction rest using List.reverseRecOn with
  | nil => simpa only [List.append_nil, content_of_getLast? hlast] using List.prefix_rfl
  | append_singleton rest d ih =>
    rw [← List.append_assoc]
    by_cases hd : d = '\r' ∨ d = '\n'
    · rw [content_append (List.forall_mem_singleton.mpr hd)]
      exact ih
    · rw [content_of_getLast?, List.append_assoc]
      · exact List.prefix_append _ _
      · intro c hc
        rw [List.getLast?_concat] at hc
        rwa [← Option.some.inj hc]

theorem content_isPrefix (cs : List Char) : content cs <+: cs := by
  have hsuffix := List.dropWhile_suffix (fun c => decide (c = '\r' ∨ c = '\n')) (l := cs.reverse)
  rw [← List.reverse_prefix, List.reverse_reverse] at hsuffix
  exact hsuffix

/-- A line that ends in a carriage return loses a byte at least. -/
theorem size_content_lt (h : line.getLast? = some '\r') :
    (String.ofList (content line)).utf8ByteSize < (String.ofList line).utf8ByteSize := by
  obtain ⟨kept, rfl⟩ := List.getLast?_eq_some_iff.mp h
  obtain ⟨rest, hrest⟩ := content_isPrefix kept
  rw [content_append (by simp)]
  calc (String.ofList (content kept)).utf8ByteSize
      ≤ (String.ofList kept).utf8ByteSize := by
        rw [← hrest, String.ofList_append, String.utf8ByteSize_append, hrest]
        exact Nat.le_add_right _ _
    _ < (String.ofList (kept ++ ['\r'])).utf8ByteSize := by
        rw [String.ofList_append, String.utf8ByteSize_append]
        exact Nat.lt_add_of_pos_right (by decide)

theorem addChars_content (h : cs <+: content line) :
    addChars 0 (content line) (String.ofList cs).utf8ByteSize = cs.length := by
  obtain ⟨rest, hrest⟩ := h
  rw [← hrest, addChars_append, Nat.zero_add]

end Diagnostic

/-! ## Characters at fault -/

/-- A text that is not closed, in a line that ends in a carriage return. -/
def LineFault.RunsIntoReturn (fault : LineFault) (line : List Char) : Prop :=
  fault.cause = .badToken .unclosedText ∧ line.getLast? = some '\r'

namespace LineFault.Shown

variable {fault : LineFault} {line left marked right : List Char}

theorem eq_of_unclosed (h : fault.Shown line left marked right)
    (hcause : fault.cause = .badToken .unclosedText) :
    (∃ run, marked = '"' :: run) ∧ line = left ++ marked := by
  have hends := h.ends
  have hline := h.line
  rw [hcause] at hends
  cases hends with
  | unclosed hmarked hright =>
    rw [hright, List.append_nil] at hline
    exact ⟨⟨_, hmarked⟩, hline⟩
  | token hcause' => exact absurd rfl hcause'

/-- Unless it runs into them, what is shown ends before the carriage returns at the end. -/
theorem marked_isPrefix (h : fault.Shown line left marked right) (hline : '\n' ∉ line)
    (hreturn : ¬ fault.RunsIntoReturn line) : left ++ marked <+: Diagnostic.content line := by
  have hfront : left ++ marked <+: line := ⟨right, by rw [List.append_assoc, ← h.line]⟩
  refine Diagnostic.isPrefix_content hfront fun c hc => ?_
  rintro (rfl | rfl)
  · -- the last character shown is a carriage return
    by_cases hcause : fault.cause = .badToken .unclosedText
    · rw [← (h.eq_of_unclosed hcause).2] at hc
      exact hreturn ⟨hcause, hc⟩
    · have hends := h.ends
      generalize fault.cause = cause at hcause hends
      cases hends with
      | unclosed => exact hcause rfl
      | token _ hmarked hlast =>
        rw [List.getLast?_append_of_ne_nil _ hmarked] at hc
        exact hlast hc
      | comma hmarked hlast =>
        rw [hmarked, List.append_nil] at hc
        exact absurd (hlast '\r' hc) (by decide)
  · exact hline (hfront.mem (List.mem_of_getLast? hc))

theorem left_isPrefix (h : fault.Shown line left marked right) (hline : '\n' ∉ line) :
    left <+: Diagnostic.content line := by
  by_cases hreturn : fault.RunsIntoReturn line
  · obtain ⟨⟨run, hmarked⟩, htext⟩ := h.eq_of_unclosed hreturn.1
    -- behind the opening quote there may be nothing but carriage returns
    have hquote : left ++ ['"'] <+: line := ⟨run, by rw [htext, hmarked, List.append_assoc]; rfl⟩
    refine (List.prefix_append left ['"']).trans (Diagnostic.isPrefix_content hquote fun c hc => ?_)
    rw [List.getLast?_concat] at hc
    rw [← Option.some.inj hc]
    decide
  · exact (List.prefix_append left marked).trans (h.marked_isPrefix hline hreturn)

/-- The characters at fault are counted right, unless they run into a carriage return. -/
theorem addChars_stop (h : fault.Shown line left marked right) (hline : '\n' ∉ line)
    (hreturn : ¬ fault.RunsIntoReturn line) :
    Diagnostic.addChars 0 (Diagnostic.content line) fault.span.stop
      = left.length + marked.length := by
  rw [h.stop, Diagnostic.addChars_content (h.marked_isPrefix hline hreturn), List.length_append]

/-- Then the line without its carriage returns is too short. -/
theorem addChars_stop_of_runsIntoReturn (h : fault.Shown line left marked right)
    (hreturn : fault.RunsIntoReturn line) :
    Diagnostic.addChars 0 (Diagnostic.content line) fault.span.stop = 0 := by
  have hsize := Diagnostic.size_content_lt hreturn.2
  refine Diagnostic.addChars_of_lt ?_
  rwa [h.stop, ← (h.eq_of_unclosed hreturn.1).2]

theorem addChars_start (h : fault.Shown line left marked right) (hline : '\n' ∉ line) :
    Diagnostic.addChars 0 (Diagnostic.content line) fault.span.start = left.length := by
  rw [h.start, Diagnostic.addChars_content (h.left_isPrefix hline)]

end LineFault.Shown

/-! ## Lines of a source -/

namespace Diagnostic

theorem foldl_length (lines : List (List Char)) (n : Nat) :
    lines.foldl (fun n line => n + line.length) n = n + lines.flatten.length := by
  induction lines generalizing n with
  | nil => rfl
  | cons line lines ih =>
    rw [List.foldl_cons, ih, List.flatten_cons, List.length_append, Nat.add_assoc]

theorem range?_of_lines {d : Diagnostic} {source line : List Char} {before after : List (List Char)}
    (hlines : Text.linesEndedBy (· == '\n') source = before ++ line :: after)
    (hline : d.line = some (before.length + 1)) :
    d.range? source = some ⟨before.flatten.length + (d.rangeInLine line).start,
      before.flatten.length + (d.rangeInLine line).stop⟩ := by
  unfold range?
  simp only [hline, hlines, List.take_left, foldl_length, Nat.zero_add,
    List.getElem?_append_right (Nat.le_refl _), Nat.sub_self, List.getElem?_cons_zero,
    Option.map_some]

end Diagnostic

theorem SourceLine.ne_nil_of_read {text : String} {fault : LineFault}
    (h : SourceLine.read text = .error fault) : text.toList ≠ [] := by
  intro hnil
  have hlexed : Token.IsLexed text [] := ⟨0, by rw [hnil]; exact .done⟩
  rw [read_of_isLexed hlexed] at h
  cases h

/-! ## Errors of a source -/

namespace ParseError

variable {e : ParseError} {source above left marked right below : List Char}

/-- **The line** of an error is found again in the source. -/
theorem range?_eq (h : Text.LineAt source e.line above e.text.toList below)
    (hne : e.text.toList ≠ []) :
    e.diagnostic.range? source = some
      ⟨above.length + Diagnostic.addChars 0 (Diagnostic.content e.text.toList) e.span.start,
        above.length + Diagnostic.addChars 0 (Diagnostic.content e.text.toList) e.span.stop⟩ := by
  obtain ⟨ending, lines, hlines, hending⟩ := h.goesOn.exists_linesEndedBy h.whole hne
  have hsplit := Text.linesEndedBy_append h.ended (e.text.toList ++ below)
  rw [← h.text, hlines] at hsplit
  have hline : e.diagnostic.line
      = some ((Text.linesEndedBy (· == '\n') above).length + 1) := by
    rw [Text.length_linesEndedBy h.ended]
    exact congrArg some h.number
  have hrange := Diagnostic.range?_of_lines hsplit hline
  have hcontent := Diagnostic.content_append hending e.text.toList
  rw [Text.flatten_linesEndedBy] at hrange
  simp only [Diagnostic.rangeInLine, diagnostic, hcontent] at hrange
  exact hrange

/-- **The characters at fault** are found, unless they run into a carriage return. -/
theorem range?_of_not_runsIntoReturn (h : Text.LineAt source e.line above e.text.toList below)
    (hshown : e.toLineFault.Shown e.text.toList left marked right) (hne : e.text.toList ≠ [])
    (hreturn : ¬ e.RunsIntoReturn e.text.toList) :
    e.diagnostic.range? source
      = some ⟨above.length + left.length, above.length + left.length + marked.length⟩ := by
  rw [range?_eq h hne, hshown.addChars_start h.whole, hshown.addChars_stop h.whole hreturn,
    Nat.add_assoc]

/-- Then their end is not found, and the start of the line is taken for it. -/
theorem range?_of_runsIntoReturn (h : Text.LineAt source e.line above e.text.toList below)
    (hshown : e.toLineFault.Shown e.text.toList left marked right) (hne : e.text.toList ≠ [])
    (hreturn : e.RunsIntoReturn e.text.toList) :
    e.diagnostic.range? source = some ⟨above.length + left.length, above.length⟩ := by
  rw [range?_eq h hne, hshown.addChars_start h.whole,
    hshown.addChars_stop_of_runsIntoReturn hreturn, Nat.add_zero]

/-- Where an error of a source stands, and the range that is found for it. -/
structure Located (e : ParseError) (source : String) (above left marked right below : List Char) :
    Prop where
  line : Text.LineAt source.toList e.line above e.text.toList below
  shown : e.toLineFault.Shown e.text.toList left marked right
  inside : above.length + left.length + marked.length ≤ source.length
  /-- The range is that of the characters at fault unless they run into a carriage return. -/
  range : e.diagnostic.range? source.toList
      = some ⟨above.length + left.length, above.length + left.length + marked.length⟩ ↔
    ¬ e.RunsIntoReturn e.text.toList
  /-- Then the range ends where the line starts. -/
  backwards : e.RunsIntoReturn e.text.toList →
    e.diagnostic.range? source.toList = some ⟨above.length + left.length, above.length⟩

theorem located_of_shown {source : String}
    (h : Text.LineAt source.toList e.line above e.text.toList below)
    (hshown : e.toLineFault.Shown e.text.toList left marked right) (hne : e.text.toList ≠ []) :
    e.Located source above left marked right below where
  line := h
  shown := hshown
  inside := by
    rw [← String.length_toList, h.text, hshown.line]
    simp only [List.length_append]
    omega
  range := by
    refine ⟨fun heq hreturn => ?_, range?_of_not_runsIntoReturn h hshown hne⟩
    obtain ⟨⟨run, hmarked⟩, -⟩ := hshown.eq_of_unclosed hreturn.1
    rw [range?_of_runsIntoReturn h hshown hne hreturn] at heq
    have hstop := congrArg Span.stop (Option.some.inj heq)
    -- the opening quote at least is at fault
    rw [hmarked, List.length_cons] at hstop
    simp only at hstop
    omega
  backwards := range?_of_runsIntoReturn h hshown hne

end ParseError

namespace Program

theorem lineAt_of_lines {source line : String} {before after : List String}
    (h : Text.lines source = before ++ line :: after) :
    ∃ above below, Text.LineAt source.toList (before.length + 1) above line.toList below := by
  have hget : (Text.lines source)[before.length]? = some line := by
    rw [h, List.getElem?_append_right (Nat.le_refl _), Nat.sub_self, List.getElem?_cons_zero]
  rw [Text.lines, List.getElem?_map, Option.map_eq_some_iff] at hget
  obtain ⟨cs, hcs, rfl⟩ := hget
  rw [String.toList_ofList]
  exact Text.exists_lineAt hcs

/-- **Errors are located.**  The range of an error is that of the characters at fault, except for a
    text that is not closed in a line that ends in a carriage return. -/
theorem errors_located (source : String) (e : ParseError) (h : parse source = .error e) :
    ∃ above left marked right below, e.Located source above left marked right below := by
  obtain ⟨before, after, hlines, -, hfault, hnumber⟩ := ofLines_eq_error_iff.mp h
  obtain ⟨above, below, hat⟩ := lineAt_of_lines hlines
  rw [Nat.add_comm, ← hnumber] at hat
  obtain ⟨left, marked, right, hshown⟩ := SourceLine.exists_shown hat.whole hfault
  exact ⟨above, left, marked, right, below,
    ParseError.located_of_shown hat hshown (SourceLine.ne_nil_of_read hfault)⟩

/-- A text that is not closed.  The line feed has two carriage returns before it. -/
def overrun : String := ".cstr \"abc\r\r\n"

/-- The error in `overrun`: its line keeps one carriage return, and the text takes it in. -/
def overrunError : ParseError where
  cause := .badToken .unclosedText
  span := ⟨6, 11⟩
  line := 1
  text := ".cstr \"abc\r"

/-- The characters at fault are those from 6 to 11.  The range found for them ends before it
    starts. -/
theorem errors_located_overrun :
    parse overrun = .error overrunError ∧ overrunError.RunsIntoReturn overrunError.text.toList ∧
    ∃ above left marked right below, overrunError.Located overrun above left marked right below ∧
      above.length + left.length = 6 ∧ above.length + left.length + marked.length = 11 ∧
      overrunError.diagnostic.range? overrun.toList = some ⟨6, 0⟩ := by
  have hparse : parse overrun = .error overrunError := by decide +kernel
  have hreturn : overrunError.RunsIntoReturn overrunError.text.toList := ⟨rfl, by decide +kernel⟩
  have hrange : overrunError.diagnostic.range? overrun.toList = some ⟨6, 0⟩ := by decide +kernel
  obtain ⟨above, left, marked, right, below, h⟩ := errors_located overrun overrunError hparse
  obtain ⟨hstart, hstop⟩ :=
    Span.mk.inj (Option.some.inj (hrange.symm.trans (h.backwards hreturn)))
  -- the text that is not closed is all that is left of the line
  have hline := congrArg List.length (h.shown.eq_of_unclosed hreturn.1).2
  have hlength : overrunError.text.toList.length = 11 := by decide +kernel
  rw [hlength, List.length_append] at hline
  exact ⟨hparse, hreturn, above, left, marked, right, below, h, by omega, by omega, hrange⟩

end Program

end AnnaToolchain
