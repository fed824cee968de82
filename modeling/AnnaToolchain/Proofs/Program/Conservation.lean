import AnnaToolchain.Proofs.Program.Parsed

/-! # What reading keeps

    Reading a program sorts what its lines hold: statements, the labels they
    define, and comments and blank lines.  None of this is lost, doubled or
    put in another order (`Program.Conserves`).  While lines are read, what
    no statement has taken yet waits in the draft (`Draft.Keeps`), and each
    line adds what it holds to what has been read (`Draft.keeps_add`). -/

namespace AnnaToolchain

/-! ## What a line holds -/

namespace SourceLine

/-- The statement on a line. -/
def statement? : SourceLine → Option Statement
  | .statement s => some s
  | _ => none

/-- The labels a line defines. -/
def definitions : SourceLine → List String
  | .labels names _ => names
  | .statement s => s.labels
  | .blank => []
  | .comment _ => []

/-- The comment on a line, whatever else is on it, or the white space it is. -/
def trivia : SourceLine → List Trivia
  | .blank => [.blank]
  | .comment contents => [.comment contents]
  | .labels _ note => note.toList.map .comment
  | .statement s => s.comment.toList.map .comment

/-- The statements on lines, each with the number of its line, of which the first is `start`. -/
def statements (start : Nat) (contents : List SourceLine) : List Statement :=
  (contents.zipIdx start).filterMap fun (content, number) =>
    content.statement?.map fun s => { s with labels := [], line := number }

theorem statements_concat (start : Nat) (contents : List SourceLine) (content : SourceLine) :
    statements start (contents ++ [content]) = statements start contents ++
      (content.statement?.map fun s =>
        { s with labels := [], line := start + contents.length }).toList := by
  unfold statements
  rw [List.zipIdx_append, List.filterMap_append, List.zipIdx_singleton]
  cases content <;> rfl

end SourceLine

/-! ## What a program holds -/

/-- A statement without what belongs to it of other lines. -/
def Statement.core (s : Statement) : Statement :=
  { s with labels := [], leading := [], trailing := [] }

namespace Program

/-- The line of the last statement; zero if there is none. -/
def lastLine (p : Program) : Nat :=
  (p.getLast?.map (·.line)).getD 0

@[simp] theorem lastLine_nil : lastLine [] = 0 := rfl

@[simp] theorem lastLine_concat (p : List Statement) (s : Statement) :
    lastLine (p ++ [s]) = s.line := by
  simp [lastLine]

/-- The labels that the lines after number `first`, up to number `last`, define. -/
def definedBetween (contents : List SourceLine) (first last : Nat) : List String :=
  ((contents.take last).drop first).flatMap SourceLine.definitions

/-- The statements of a program, as far as the line `contents.length`, have the labels that are
    defined after the statement before, up to their own line. -/
def Attached (contents : List SourceLine) (p : List Statement) : Prop :=
  ∀ before s after, p = before ++ s :: after →
    s.line ≤ contents.length ∧ s.labels = definedBetween contents (lastLine before) s.line

/-- A program is all that its lines hold, in order. -/
structure Conserves (contents : List SourceLine) (p : Program) : Prop where
  /-- The statements are those of the lines, each with its number. -/
  statements : (p.filter Statement.isReal).map Statement.core = SourceLine.statements 1 contents
  /-- The labels are those that are defined, and each is on the first statement that is not on an
      earlier line. -/
  labels : p.flatMap (·.labels) = contents.flatMap SourceLine.definitions
  attached : Attached contents p
  /-- The comments and the blank lines are those of the lines. -/
  trivia : p.flatMap Statement.allTrivia = contents.flatMap SourceLine.trivia
  /-- A loose statement is the last, and holds labels and trivia alone. -/
  real : ∀ s ∈ p.dropLast, s.isReal = true
  loose : ∀ s ∈ p, s.isReal = false → s = .loose s.labels s.leading contents.length

/-! ### Statements one after another -/

theorem forall_split_concat {α : Type} {r : List α → α → Prop} {xs : List α} {x : α} :
    (∀ before y after, xs ++ [x] = before ++ y :: after → r before y) ↔
      (∀ before y after, xs = before ++ y :: after → r before y) ∧ r xs x := by
  constructor
  · intro h
    refine ⟨fun before y after hxs => h before y (after ++ [x]) ?_, h xs x [] rfl⟩
    rw [hxs, List.append_assoc, List.cons_append]
  · rintro ⟨hxs, hx⟩ before y after heq
    rcases List.eq_nil_or_concat after with rfl | ⟨after, z, rfl⟩
    · obtain ⟨rfl, hy⟩ := List.append_inj' heq rfl
      cases hy
      exact hx
    · rw [List.concat_eq_append, ← List.cons_append, ← List.append_assoc] at heq
      obtain ⟨hxs', -⟩ := List.append_inj' heq rfl
      exact hxs before y after hxs'

theorem attached_concat {contents : List SourceLine} {p : List Statement} {s : Statement} :
    Attached contents (p ++ [s]) ↔ Attached contents p ∧ s.line ≤ contents.length ∧
      s.labels = definedBetween contents (lastLine p) s.line :=
  forall_split_concat (r := fun (before : List Statement) (s : Statement) =>
    s.line ≤ contents.length ∧ s.labels = definedBetween contents (lastLine before) s.line)

/-- Lines that follow define no labels for statements before them. -/
theorem definedBetween_append {contents : List SourceLine} {first last : Nat}
    (h : last ≤ contents.length) (more : List SourceLine) :
    definedBetween (contents ++ more) first last = definedBetween contents first last := by
  unfold definedBetween
  rw [List.take_append_of_le_length h]

theorem Attached.append {contents : List SourceLine} {p : List Statement}
    (h : Attached contents p) (more : List SourceLine) : Attached (contents ++ more) p := by
  intro before s after hp
  obtain ⟨hline, hlabels⟩ := h before s after hp
  rw [definedBetween_append hline, List.length_append]
  exact ⟨Nat.le_add_right_of_le hline, hlabels⟩

theorem Attached.lastLine_le {contents : List SourceLine} {p : List Statement}
    (h : Attached contents p) : lastLine p ≤ contents.length := by
  rcases List.eq_nil_or_concat p with rfl | ⟨p, s, rfl⟩
  · exact Nat.zero_le _
  · rw [List.concat_eq_append] at h ⊢
    rw [lastLine_concat]
    exact (attached_concat.mp h).2.1

end Program

/-! ## Reading line by line -/

namespace Draft

/-- The statements of a draft and what waits for one are what the lines hold. -/
structure Keeps (contents : List SourceLine) (d : Draft) : Prop where
  readable : d.Readable
  statements : d.statements.reverse.map Statement.core = SourceLine.statements 1 contents
  labels : d.statements.reverse.flatMap (·.labels) ++ d.labels.reverse
    = contents.flatMap SourceLine.definitions
  attached : Program.Attached contents d.statements.reverse
  waiting : d.labels.reverse
    = Program.definedBetween contents (Program.lastLine d.statements.reverse) contents.length
  trivia : d.statements.reverse.flatMap Statement.allTrivia ++ d.trivia.reverse
    = contents.flatMap SourceLine.trivia
  /-- Right after a statement no trivia wait. -/
  settled : d.afterStatement = true → d.statements ≠ [] ∧ d.trivia = []

theorem keeps_start : Keeps [] {} where
  readable := ⟨List.forall_mem_nil _, List.forall_mem_nil _, nofun⟩
  statements := rfl
  labels := rfl
  attached := fun before _ _ hnil => absurd hnil (by simp)
  waiting := rfl
  trivia := rfl
  settled := nofun

/-- Blank lines are the same from either end. -/
theorem blank_cons {ts : List Trivia} (h : ∀ t ∈ ts, Trivia.isBlank t = true) :
    .blank :: ts = ts ++ [.blank] := by
  have hblank : ∀ t ∈ ts, t = .blank := by
    intro t ht
    have hisBlank := h t ht
    cases t with
    | blank => rfl
    | comment contents => cases hisBlank
  rw [List.eq_replicate_of_mem hblank, ← List.replicate_succ, List.replicate_succ']

section

variable {contents : List SourceLine} {d : Draft}

/-- The labels that wait, with those of one more line. -/
theorem Keeps.waiting_concat (h : d.Keeps contents) (content : SourceLine) :
    d.labels.reverse ++ content.definitions
      = Program.definedBetween (contents ++ [content]) (Program.lastLine d.statements.reverse)
        (contents ++ [content]).length := by
  rw [h.waiting]
  unfold Program.definedBetween
  rw [List.take_length, List.take_length, List.drop_append_of_le_length h.attached.lastLine_le,
    List.flatMap_append, List.flatMap_singleton]

/-- A line without statement, of which what it holds is put with what waits. -/
theorem Keeps.hold (h : d.Keeps contents) {content : SourceLine} {labels : List String}
    {trivia : List Trivia} {flag : Bool} (hnone : content.statement? = none)
    (hlabels : labels.reverse = d.labels.reverse ++ content.definitions)
    (htrivia : trivia.reverse = d.trivia.reverse ++ content.trivia)
    (hreadable : Draft.Readable ⟨d.statements, labels, trivia, flag⟩)
    (hflag : flag = true → d.statements ≠ [] ∧ trivia = []) :
    Keeps (contents ++ [content]) ⟨d.statements, labels, trivia, flag⟩ where
  readable := hreadable
  statements := by
    rw [SourceLine.statements_concat, hnone, h.statements]
    exact (List.append_nil _).symm
  labels := by
    rw [hlabels, ← List.append_assoc, h.labels, List.flatMap_append, List.flatMap_singleton]
  attached := h.attached.append [content]
  waiting := hlabels.trans (h.waiting_concat content)
  trivia := by
    rw [htrivia, ← List.append_assoc, h.trivia, List.flatMap_append, List.flatMap_singleton]
  settled := hflag

/-- A blank line right after a statement belongs to it. -/
theorem Keeps.trail {last : Statement} {earlier : List Statement} {labels : List String}
    (h : Keeps contents ⟨last :: earlier, labels, [], true⟩)
    (hreadable : Draft.Readable
      ⟨{ last with trailing := .blank :: last.trailing } :: earlier, labels, [], true⟩) :
    Keeps (contents ++ [.blank])
      ⟨{ last with trailing := .blank :: last.trailing } :: earlier, labels, [], true⟩ := by
  obtain ⟨-, -, htrailing⟩ := h.readable.statements last List.mem_cons_self
  have hstatements := h.statements
  have hlabels := h.labels
  have hattached := h.attached
  have hwaiting := h.waiting_concat .blank
  have htrivia := h.trivia
  -- the trailing trivia stands last of all that has been read
  have hlast : Statement.allTrivia { last with trailing := .blank :: last.trailing }
      = last.allTrivia ++ [.blank] := by
    unfold Statement.allTrivia
    rw [blank_cons htrailing, ← List.append_assoc]
  simp only [List.reverse_cons, List.map_append, List.flatMap_append, List.flatMap_singleton,
    List.append_nil, List.reverse_nil] at hstatements hlabels hattached hwaiting htrivia
  refine ⟨hreadable, ?_, ?_, ?_, ?_, ?_, fun _ => ⟨List.cons_ne_nil _ _, rfl⟩⟩
  · rw [SourceLine.statements_concat, ← hstatements]
    simp [Statement.core, SourceLine.statement?]
  · simp only [List.reverse_cons, List.flatMap_append, List.flatMap_singleton]
    rw [hlabels]
    exact (List.append_nil _).symm
  · rw [List.reverse_cons, Program.attached_concat]
    exact (Program.attached_concat (s := last)).mp (hattached.append [.blank])
  · rw [List.reverse_cons, Program.lastLine_concat]
    rw [Program.lastLine_concat] at hwaiting
    exact (List.append_nil _).symm.trans hwaiting
  · simp only [List.reverse_cons, List.flatMap_append, List.flatMap_singleton, List.reverse_nil,
      List.append_nil, hlast]
    rw [← List.append_assoc, htrivia]
    rfl

/-- A statement takes all that waits. -/
theorem Keeps.take (h : d.Keeps contents) {names operands : List String} {op : Mnemonic}
    {note : Option String} (hreadable : Draft.Readable (d.add (contents.length + 1) (.statement
      { labels := names, op := some op, operands := operands, comment := note }))) :
    Keeps (contents ++ [.statement
        { labels := names, op := some op, operands := operands, comment := note }])
      (d.add (contents.length + 1) (.statement
        { labels := names, op := some op, operands := operands, comment := note })) := by
  have hwaiting := h.waiting_concat (.statement
    { labels := names, op := some op, operands := operands, comment := note })
  refine ⟨hreadable, ?_, ?_, ?_, ?_, ?_, fun _ => ⟨List.cons_ne_nil _ _, rfl⟩⟩
  · rw [SourceLine.statements_concat, ← h.statements, Nat.add_comm 1]
    simp [add, Statement.core, SourceLine.statement?]
  · rw [List.flatMap_append, ← h.labels]
    simp [add, SourceLine.definitions]
  · show Program.Attached _ (List.reverse (_ :: d.statements))
    rw [List.reverse_cons, Program.attached_concat]
    refine ⟨h.attached.append _, ?_, ?_⟩
    · rw [List.length_append]
      exact Nat.le_refl _
    · rw [List.length_append] at hwaiting
      exact hwaiting
  · show [] = Program.definedBetween _ (Program.lastLine (List.reverse (_ :: d.statements))) _
    rw [List.reverse_cons, Program.lastLine_concat]
    simp [Program.definedBetween]
  · rw [List.flatMap_append, ← h.trivia]
    simp [add, Statement.allTrivia, SourceLine.trivia]

/-- **One more line** adds what it holds. -/
theorem keeps_add (h : d.Keeps contents) {content : SourceLine} (hcontent : content.Readable) :
    (d.add (contents.length + 1) content).Keeps (contents ++ [content]) := by
  have hreadable := readable_add h.readable hcontent (contents.length + 1)
  cases hcontent with
  | blank =>
    obtain ⟨statements, labels, trivia, afterStatement⟩ := d
    cases afterStatement with
    | false =>
      have hadd : add ⟨statements, labels, trivia, false⟩ (contents.length + 1) .blank
          = ⟨statements, labels, .blank :: trivia, false⟩ := by
        cases statements <;> rfl
      rw [hadd] at hreadable ⊢
      exact h.hold rfl (List.append_nil _).symm List.reverse_cons hreadable nofun
    | true =>
      obtain ⟨hne, htrivia⟩ := h.settled rfl
      obtain ⟨last, earlier, rfl⟩ := List.exists_cons_of_ne_nil hne
      obtain rfl : trivia = [] := htrivia
      exact h.trail hreadable
  | @comment text hcomment =>
    exact h.hold rfl (List.append_nil _).symm List.reverse_cons hreadable nofun
  | @labels names note hnames hcomment =>
    refine h.hold rfl ?_ ?_ hreadable nofun
    · rw [List.reverse_append, List.reverse_reverse]
      rfl
    · rw [List.reverse_append]
      cases note <;> rfl
  | statement _ _ _ => exact h.take hreadable

end

theorem keeps_foldlM {lines : List String} {contents : List SourceLine} {d d' : Draft}
    (h : d.Keeps contents)
    (hfold : (lines.zipIdx (contents.length + 1)).foldlM Program.addLine d = .ok d') :
    ∃ more, lines.map SourceLine.read = more.map .ok ∧ d'.Keeps (contents ++ more) := by
  induction lines generalizing contents d with
  | nil =>
    obtain rfl := Except.ok.inj hfold
    exact ⟨[], rfl, by rwa [List.append_nil]⟩
  | cons line lines ih =>
    rw [List.zipIdx_cons, List.foldlM_cons] at hfold
    obtain ⟨d₁, hadd, hfold⟩ := bind_eq_ok hfold
    obtain ⟨content, hread, rfl⟩ := Program.addLine_eq_ok hadd
    have h₁ := keeps_add h (SourceLine.readable_of_read hread)
    have hlength : contents.length + 1 = (contents ++ [content]).length := by simp
    rw [hlength] at h₁ hfold
    obtain ⟨more, hmore, hkeeps⟩ := ih h₁ hfold
    refine ⟨content :: more, ?_, ?_⟩
    · rw [List.map_cons, List.map_cons, hread, hmore]
    · rwa [List.append_assoc] at hkeeps

/-! ## The end of the program -/

section

variable {contents : List SourceLine} {d : Draft}

theorem Keeps.isReal (h : d.Keeps contents) : ∀ s ∈ d.statements.reverse, s.isReal = true :=
  fun s hs => (h.readable.statements s (List.mem_reverse.mp hs)).2.1

/-- Labels that wait in the end are on a loose statement. -/
theorem Keeps.finish_loose (h : d.Keeps contents)
    (hloose : d.labels ≠ [] ∨ d.statements = [] ∧ d.trivia ≠ []) :
    Program.Conserves contents (d.finish contents.length) := by
  rw [finish_of_loose hloose]
  refine ⟨?_, ?_, ?_, ?_, ?_, ?_⟩
  · rw [List.filter_append, List.filter_eq_self.mpr h.isReal, ← h.statements]
    exact congrArg _ (List.append_nil _)
  · rw [List.flatMap_append, List.flatMap_singleton, ← h.labels]
    rfl
  · exact Program.attached_concat.mpr ⟨h.attached, Nat.le_refl _, h.waiting⟩
  · rw [List.flatMap_append, List.flatMap_singleton, ← h.trivia]
    simp [Statement.allTrivia, Statement.loose]
  · rw [List.dropLast_concat]
    exact h.isReal
  · intro s hs hreal
    rcases List.mem_append.mp hs with hs | hs
    · rw [h.isReal s hs] at hreal
      cases hreal
    · rw [List.mem_singleton.mp hs]
      rfl

/-- Without labels, trivia that wait in the end belong to the last statement. -/
theorem Keeps.finish_last {last : Statement} {earlier : List Statement} {trivia : List Trivia}
    {flag : Bool} (h : Keeps contents ⟨last :: earlier, [], trivia, flag⟩) :
    Program.Conserves contents
      (earlier.reverse ++ [{ last with trailing := last.trailing ++ trivia.reverse }]) := by
  have hreal := h.isReal
  have hstatements := h.statements
  have hlabels := h.labels
  have hattached := h.attached
  have htrivia := h.trivia
  simp only [List.reverse_cons, List.reverse_nil, List.append_nil]
    at hreal hstatements hlabels hattached htrivia
  have hlast : Statement.isReal { last with trailing := last.trailing ++ trivia.reverse } = true :=
    hreal last (List.mem_append_right _ List.mem_cons_self)
  have hall : ∀ s ∈ earlier.reverse ++ [{ last with trailing := last.trailing ++ trivia.reverse }],
      s.isReal = true := by
    intro s hs
    rcases List.mem_append.mp hs with hs | hs
    · exact hreal s (List.mem_append_left _ hs)
    · rw [List.mem_singleton.mp hs]
      exact hlast
  refine ⟨?_, ?_, ?_, ?_, ?_, ?_⟩
  · rw [List.filter_eq_self.mpr hall, ← hstatements, List.map_append, List.map_append]
    rfl
  · rw [← hlabels, List.flatMap_append, List.flatMap_append]
    rfl
  · exact Program.attached_concat.mpr ((Program.attached_concat (s := last)).mp hattached)
  · rw [← htrivia]
    simp [Statement.allTrivia]
  · rw [List.dropLast_concat]
    exact fun s hs => hreal s (List.mem_append_left _ hs)
  · intro s hs hfalse
    rw [hall s hs] at hfalse
    cases hfalse

theorem Keeps.finish (h : d.Keeps contents) :
    Program.Conserves contents (d.finish contents.length) := by
  by_cases hloose : d.labels ≠ [] ∨ d.statements = [] ∧ d.trivia ≠ []
  · exact h.finish_loose hloose
  · obtain ⟨statements, labels, trivia, flag⟩ := d
    obtain rfl : labels = [] := by
      by_contra hne
      exact hloose (.inl hne)
    cases statements with
    | cons last earlier =>
      have hfinish : Draft.finish ⟨last :: earlier, [], trivia, flag⟩ contents.length
          = earlier.reverse ++ [{ last with trailing := last.trailing ++ trivia.reverse }] :=
        List.reverse_cons
      rw [hfinish]
      exact h.finish_last
    | nil =>
      obtain rfl : trivia = [] := by
        by_contra hne
        exact hloose (.inr ⟨rfl, hne⟩)
      exact ⟨h.statements, h.labels, h.attached, h.trivia, List.forall_mem_nil _,
        List.forall_mem_nil _⟩

end

end Draft

/-- **Nothing is lost** when a program is read, nothing doubled, and nothing put in another
    order. -/
theorem Program.ofLines_conserves {lines : List String} {p : Program}
    (h : ofLines lines = .ok p) :
    ∃ contents, lines.map SourceLine.read = contents.map .ok ∧ p.Conserves contents := by
  obtain ⟨d, hfold, hfinish⟩ := bind_eq_ok h
  obtain ⟨contents, hcontents, hkeeps⟩ := Draft.keeps_foldlM Draft.keeps_start hfold
  have hlength : lines.length = contents.length := by
    simpa using congrArg List.length hcontents
  refine ⟨contents, hcontents, ?_⟩
  rw [← Except.ok.inj hfinish, hlength]
  exact hkeeps.finish

/-- Lines of each kind, with something left at the end. -/
def annotated : List String :=
  ["# top", "first: second: # both", "", "third: halt # stop", "", "# tail", "", "end: # over"]

/-- The program of `annotated`. -/
def annotatedProgram : Program :=
  [{ labels := ["first", "second", "third"], op := some (.pseudo .halt), comment := some "stop"
     leading := [.comment "top", .comment "both", .blank], trailing := [.blank], line := 4 },
   .loose ["end"] [.comment "tail", .blank, .comment "over"] 8]

theorem ofLines_conserves_annotated :
    Program.ofLines annotated = .ok annotatedProgram ∧
    ∃ contents, annotated.map SourceLine.read = contents.map .ok ∧
      Program.Conserves contents annotatedProgram := by
  have hread : Program.ofLines annotated = .ok annotatedProgram := by decide +kernel
  exact ⟨hread, Program.ofLines_conserves hread⟩

end AnnaToolchain
