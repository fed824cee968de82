import AnnaToolchain.Proofs.Text.ReadBack
import AnnaToolchain.Text.Position
import Mathlib.Data.List.TakeWhile

/-! # Places in a text

    A line of a text stands between what is above and what is below it
    (`LineAt`); the lines that are read are found so (`exists_lineAt`).  A
    text may be cut behind any character that ends a line
    (`linesEndedBy_append`), and so the lines above keep their number. -/

namespace AnnaToolchain.Text

/-! ## Cutting behind the end of a line -/

/-- The characters end where a line does: there are none, or the last one ends a line. -/
def Ended (ends : Char → Bool) (cs : List Char) : Prop :=
  ∀ c, cs.getLast? = some c → ends c = true

section

variable {ends : Char → Bool} {cs : List Char}

theorem Ended.nil : Ended ends [] := nofun

theorem Ended.concat {c : Char} (h : ends c = true) : Ended ends (cs ++ [c]) := by
  intro d hd
  rw [List.getLast?_concat] at hd
  cases hd
  exact h

theorem Ended.append {cs' : List Char} (h : Ended ends cs) (h' : Ended ends cs') :
    Ended ends (cs ++ cs') := by
  intro c hc
  rw [List.getLast?_append, Option.or_eq_some_iff] at hc
  rcases hc with hc | ⟨-, hc⟩
  · exact h' c hc
  · exact h c hc

theorem Ended.of_cons {c : Char} (h : Ended ends (c :: cs)) : Ended ends cs := by
  intro d hd
  refine h d ?_
  rw [List.getLast?_cons, hd]
  rfl

theorem linesEndedBy_eq_nil_iff : linesEndedBy ends cs = [] ↔ cs = [] := by
  constructor
  · intro h
    rw [← flatten_linesEndedBy ends cs, h]
    rfl
  · rintro rfl
    rfl

/-- **A text** may be cut where a line ends. -/
theorem linesEndedBy_append (h : Ended ends cs) (rest : List Char) :
    linesEndedBy ends (cs ++ rest) = linesEndedBy ends cs ++ linesEndedBy ends rest := by
  induction cs with
  | nil => rfl
  | cons c cs ih =>
    rw [List.cons_append, linesEndedBy_cons, linesEndedBy_cons, ih h.of_cons]
    cases hc : ends c with
    | true => rfl
    | false =>
      -- a character that ends no line is not the last one
      have hne : linesEndedBy ends cs ≠ [] := by
        rw [Ne, linesEndedBy_eq_nil_iff]
        rintro rfl
        rw [h c rfl] at hc
        cases hc
      obtain ⟨line, lines, hlines⟩ := List.exists_cons_of_ne_nil hne
      rw [hlines]
      rfl

theorem length_linesEndedBy (h : Ended ends cs) :
    (linesEndedBy ends cs).length = cs.countP ends := by
  induction cs with
  | nil => rfl
  | cons c cs ih =>
    rw [linesEndedBy_cons, List.countP_cons, ← ih h.of_cons]
    cases hc : ends c with
    | true => rfl
    | false =>
      cases hlines : linesEndedBy ends cs with
      | nil =>
        rw [linesEndedBy_eq_nil_iff] at hlines
        subst hlines
        rw [h c rfl] at hc
        cases hc
      | cons line lines => rfl

/-- Characters that end no line are the front of the first line. -/
theorem linesEndedBy_of_forall_not (h : ∀ c ∈ cs, ends c = false) (hne : cs ≠ []) :
    linesEndedBy ends cs = [cs] := by
  induction cs with
  | nil => exact absurd rfl hne
  | cons c cs ih =>
    obtain ⟨hc, hcs⟩ := List.forall_mem_cons.mp h
    rw [linesEndedBy_cons, hc]
    cases cs with
    | nil => rfl
    | cons d cs => rw [ih hcs (List.cons_ne_nil _ _)]; rfl

theorem linesEndedBy_append_cons (h : ∀ c ∈ cs, ends c = false) {d : Char} (hd : ends d = true)
    (rest : List Char) :
    linesEndedBy ends (cs ++ d :: rest) = (cs ++ [d]) :: linesEndedBy ends rest := by
  induction cs with
  | nil =>
    rw [List.nil_append, linesEndedBy_cons, hd]
    rfl
  | cons c cs ih =>
    obtain ⟨hc, hcs⟩ := List.forall_mem_cons.mp h
    rw [List.cons_append, linesEndedBy_cons, hc, ih hcs]
    rfl

end

/-! ## Lines that are read -/

/-- What may stand below a line: nothing, or the line's end and more lines. -/
inductive Below (line : List Char) : List Char → Prop
  | nothing : Below line []
  | lineFeed {rest : List Char} (h : line.getLast? ≠ some '\r') : Below line ('\n' :: rest)
  | carriageReturn {rest : List Char} : Below line ('\r' :: '\n' :: rest)

/-- Where a line stands in a text. -/
structure LineAt (cs : List Char) (number : Nat) (above line below : List Char) : Prop where
  text : cs = above ++ (line ++ below)
  /-- Lines are counted from one. -/
  number : number = above.count '\n' + 1
  ended : Ended (· == '\n') above
  whole : '\n' ∉ line
  goesOn : Below line below

section

variable {cs line : List Char}

theorem forall_ne_of_not_mem {d : Char} (h : d ∉ cs) : ∀ c ∈ cs, (c == d) = false := by
  intro c hc
  rw [beq_eq_false_iff_ne]
  rintro rfl
  exact h hc

theorem lineChars_of_not_mem (h : '\n' ∉ cs) : lineChars cs = if cs = [] then [] else [cs] := by
  unfold lineChars
  rw [piecesAt_of_forall_not (forall_ne_of_not_mem h)]
  rfl

theorem lineChars_append_cons (h : '\n' ∉ cs) (rest : List Char) :
    lineChars (cs ++ '\n' :: rest) = dropReturn cs :: lineChars rest := by
  unfold lineChars
  rw [piecesAt_append_cons (forall_ne_of_not_mem h) rfl]
  simp only [List.dropLast_cons_cons, List.map_cons, List.cons_append, List.getLast?_cons_cons]

/-- A line without a carriage return at its end, and what stands below it then. -/
theorem below_dropReturn (cs rest : List Char) :
    ∃ below, cs ++ '\n' :: rest = dropReturn cs ++ below ∧ Below (dropReturn cs) below := by
  unfold dropReturn
  split
  · next hreturn =>
    obtain ⟨kept, rfl⟩ := List.getLast?_eq_some_iff.mp hreturn
    rw [List.dropLast_concat]
    exact ⟨'\r' :: '\n' :: rest, by rw [List.append_assoc]; rfl, .carriageReturn⟩
  · next hreturn => exact ⟨'\n' :: rest, rfl, .lineFeed hreturn⟩

theorem not_mem_dropReturn (h : '\n' ∉ cs) : '\n' ∉ dropReturn cs := by
  unfold dropReturn
  split
  · exact fun hmem => h ((List.dropLast_prefix _).mem hmem)
  · exact h

/-- A text without a line feed has one line at most. -/
theorem lineAt_of_not_mem {k : Nat} (hmem : '\n' ∉ cs) (h : (lineChars cs)[k]? = some line) :
    LineAt cs (k + 1) [] line [] := by
  rw [lineChars_of_not_mem hmem] at h
  split at h
  · cases h
  · cases k with
    | zero =>
      obtain rfl := Option.some.inj h
      exact ⟨(List.append_nil _).symm, rfl, .nil, hmem, .nothing⟩
    | succ k => cases h

/-- The lines below the first one. -/
theorem LineAt.below_first {rest above below first : List Char} {number : Nat}
    (h : LineAt rest number above line below) (hfirst : '\n' ∉ first) :
    LineAt (first ++ '\n' :: rest) (number + 1) ((first ++ ['\n']) ++ above) line below where
  text := by
    rw [h.text, List.append_assoc, List.append_assoc]
    rfl
  number := by
    rw [List.count_append, List.count_append, List.count_eq_zero.mpr hfirst,
      List.count_singleton_self, h.number]
    omega
  ended := (Ended.concat rfl).append h.ended
  whole := h.whole
  goesOn := h.goesOn

/-- **Every line** that is read stands in the text. -/
theorem exists_lineAt {k : Nat} (h : (lineChars cs)[k]? = some line) :
    ∃ above below, LineAt cs (k + 1) above line below := by
  induction k generalizing cs with
  | zero =>
    by_cases hmem : '\n' ∈ cs
    · obtain ⟨first, rest, rfl, hfirst⟩ := List.eq_append_cons_of_mem hmem
      rw [lineChars_append_cons hfirst] at h
      obtain rfl := Option.some.inj h
      obtain ⟨below, htext, hbelow⟩ := below_dropReturn first rest
      exact ⟨[], below, htext, rfl, .nil, not_mem_dropReturn hfirst, hbelow⟩
    · exact ⟨[], [], lineAt_of_not_mem hmem h⟩
  | succ k ih =>
    by_cases hmem : '\n' ∈ cs
    · obtain ⟨first, rest, rfl, hfirst⟩ := List.eq_append_cons_of_mem hmem
      rw [lineChars_append_cons hfirst, List.getElem?_cons_succ] at h
      obtain ⟨above, below, hat⟩ := ih h
      exact ⟨_, below, hat.below_first hfirst⟩
    · exact ⟨[], [], lineAt_of_not_mem hmem h⟩

/-- A line as it stands in a text is followed by what ends it. -/
theorem Below.exists_linesEndedBy {below : List Char} (h : Below line below) (hline : '\n' ∉ line)
    (hne : line ≠ []) :
    ∃ ending lines, linesEndedBy (· == '\n') (line ++ below) = (line ++ ending) :: lines ∧
      ∀ c ∈ ending, c = '\r' ∨ c = '\n' := by
  cases h with
  | nothing =>
    refine ⟨[], [], ?_, List.forall_mem_nil _⟩
    rw [List.append_nil, linesEndedBy_of_forall_not (forall_ne_of_not_mem hline) hne]
  | @lineFeed rest hlast =>
    refine ⟨['\n'], _, linesEndedBy_append_cons (forall_ne_of_not_mem hline) rfl rest, ?_⟩
    simp
  | @carriageReturn rest =>
    have hmem : '\n' ∉ line ++ ['\r'] := by
      rw [List.mem_append, not_or]
      exact ⟨hline, by decide⟩
    have hlines := linesEndedBy_append_cons (forall_ne_of_not_mem hmem) (d := '\n') rfl rest
    rw [List.append_assoc, List.append_assoc] at hlines
    exact ⟨['\r', '\n'], _, hlines, by simp⟩

end

end AnnaToolchain.Text
