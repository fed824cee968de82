import AnnaToolchain.Proofs.Program.Rereading

/-! # Programs of nothing but code

    A program without labels and comments can be written with one statement
    to a line, and nothing between the lines or around them.  It is read back
    as it was (`Program.parse_code`), up to the numbers of its lines. -/

namespace AnnaToolchain

/-- A mnemonic and operands. -/
def Statement.code (op : Mnemonic) (operands : List String) : Statement :=
  { op := some op, operands := operands }

/-- A statement that is a mnemonic and operands, each of them a text that can be read. -/
def Statement.IsCode (s : Statement) : Prop :=
  ∃ op operands, s = code op operands ∧ ∀ text ∈ operands, IsOperandText text

namespace Statement

variable {s : Statement}

theorem IsCode.written (h : s.IsCode) : s.Written IsCommentText := by
  obtain ⟨op, operands, rfl, hoperands⟩ := h
  exact ⟨nofun, hoperands, nofun, nofun, nofun⟩

theorem IsCode.codeText_ne_nil (h : s.IsCode) : s.codeText.toList ≠ [] := by
  obtain ⟨op, operands, rfl, -⟩ := h
  intro hnil
  exact codeText_ne_empty rfl (String.toList_eq_nil_iff.mp hnil)

theorem IsCode.read_codeText (h : s.IsCode) :
    [SourceLine.read s.codeText] = s.contents.map .ok := by
  obtain ⟨op, operands, rfl, hoperands⟩ := h
  rw [SourceLine.read_codeText rfl hoperands]
  rfl

theorem IsCode.reread_eq (h : s.IsCode) : s.reread = s := by
  obtain ⟨op, operands, rfl, -⟩ := h
  rfl

end Statement

namespace Program

variable {p : Program}

/-- The statements of a program as they are written, a line for each. -/
def codeText (p : Program) : String :=
  String.intercalate "\n" (p.map Statement.codeText)

theorem lines_codeText (h : ∀ s ∈ p, s.IsCode) :
    Text.lines p.codeText = p.map Statement.codeText := by
  have hlines : ∀ line ∈ (p.map Statement.codeText).map String.toList,
      Text.IsLine line ∧ line ≠ [] := by
    intro line hline
    obtain ⟨_, htext, rfl⟩ := List.mem_map.mp hline
    obtain ⟨s, hs, rfl⟩ := List.mem_map.mp htext
    exact ⟨Statement.isLine_codeText (h s hs).written, (h s hs).codeText_ne_nil⟩
  unfold Text.lines codeText
  rw [String.toList_intercalate]
  show (Text.lineChars (['\n'].intercalate _)).map String.ofList = _
  rw [Text.lineChars_intercalate hlines, List.map_map]
  calc (p.map Statement.codeText).map (String.ofList ∘ String.toList)
      = (p.map Statement.codeText).map id :=
        List.map_congr_left fun line _ => String.ofList_toList
    _ = p.map Statement.codeText := List.map_id _

/-- A program that starts with code and holds nothing else needs no settling. -/
theorem ofContents_code (h : ∀ s ∈ p, s.IsCode) : ofContents (p.flatMap Statement.contents) = p := by
  have hreal : ∀ s ∈ p, s.isReal = true := by
    intro s hs
    obtain ⟨op, operands, rfl, -⟩ := h s hs
    rfl
  have hreread : p.map Statement.reread = p := by
    rw [List.map_congr_left fun s hs => (h s hs).reread_eq, List.map_id']
  cases p with
  | nil => rfl
  | cons s rest =>
    obtain ⟨hs, hrest⟩ := List.forall_mem_cons.mp hreal
    have hregular := Regular.append hrest .nil
    rw [List.append_nil] at hregular
    refine (Draft.finish_foldl_before hs hregular).trans ?_
    rw [hreread, settle_eq_iff]
    · -- there is no trivia at all
      intro next hnext
      obtain ⟨op, operands, rfl, -⟩ := h next (List.mem_of_mem_tail hnext)
      nofun
    · intro s' hs'
      obtain ⟨op, operands, rfl, -⟩ := h s' (List.dropLast_subset _ hs')
      exact List.forall_mem_nil _

/-- **Code** is read back. -/
theorem parse_code (h : ∀ s ∈ p, s.IsCode) :
    ∃ q, parse p.codeText = .ok q ∧ q.map Statement.unnumbered = p := by
  have hread : (p.map Statement.codeText).map SourceLine.read
      = (p.flatMap Statement.contents).map .ok := by
    rw [List.map_map, List.map_flatMap, ← List.flatMap_singleton' (p.map _), List.flatMap_map]
    exact congrArg List.flatten (List.map_congr_left fun s hs => (h s hs).read_codeText)
  obtain ⟨q, hparse, hq⟩ := ofLines_of_read hread
  refine ⟨q, ?_, hq.trans (ofContents_code h)⟩
  unfold parse
  rw [lines_codeText h]
  exact hparse

end Program

end AnnaToolchain
