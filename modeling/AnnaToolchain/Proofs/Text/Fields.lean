import AnnaToolchain.Proofs.Text.ReadBack
import Mathlib.Data.List.Basic
import Mathlib.Data.List.TakeWhile

/-! # White space around and between

    What trimming leaves, and what fields a text has, said without the
    functions that find them: `Trims` is text with white space around it,
    and `IsFields` text with white space between.  There is one way to trim
    a text (`trims_iff`) and one way to cut it (`isFields_iff`). -/

namespace AnnaToolchain.Text

variable {cs content f rest : List Char} {fs : List (List Char)}

/-! ## Around -/

/-- There is nothing but white space around the content, which neither starts nor ends in any. -/
structure Trims (cs content : List Char) : Prop where
  around : ∃ before after, cs = before ++ content ++ after ∧
    (∀ c ∈ before, isBlank c = true) ∧ ∀ c ∈ after, isBlank c = true
  first : ∀ c, content.head? = some c → isBlank c = false
  last : ∀ c, content.getLast? = some c → isBlank c = false

theorem dropWhile_append_of_forall {p : Char → Bool} {before : List Char}
    (h : ∀ c ∈ before, p c = true) (rest : List Char) :
    (before ++ rest).dropWhile p = rest.dropWhile p := by
  rw [List.dropWhile_append, List.dropWhile_eq_nil_iff.mpr h]
  rfl

theorem trimEndChars_append {after : List Char} (h : ∀ c ∈ after, isBlank c = true)
    (cs : List Char) : trimEndChars (cs ++ after) = trimEndChars cs := by
  unfold trimEndChars
  rw [List.reverse_append, dropWhile_append_of_forall]
  intro c hc
  exact h c (List.mem_reverse.mp hc)

theorem Trims.trimChars_eq (h : Trims cs content) : trimChars cs = content := by
  obtain ⟨before, after, rfl, hbefore, hafter⟩ := h.around
  unfold trimChars
  rw [List.append_assoc, dropWhile_append_of_forall hbefore]
  by_cases hcontent : content = []
  · have hall : after.dropWhile isBlank = [] := List.dropWhile_eq_nil_iff.mpr hafter
    rw [hcontent, List.nil_append, hall]
    rfl
  · have hkept : (content ++ after).dropWhile isBlank = content ++ after := by
      apply dropWhile_of_head
      intro c hc
      rw [List.head?_append_of_ne_nil _ hcontent] at hc
      exact h.first c hc
    have hcontent' : trimChars content = content := trimChars_of_ends h.first h.last
    unfold trimChars at hcontent'
    rw [dropWhile_of_head h.first] at hcontent'
    rw [hkept, trimEndChars_append hafter, hcontent']

theorem trims_trimChars (cs : List Char) : Trims cs (trimChars cs) := by
  refine ⟨?_, fun _ => head?_trimChars, fun _ => getLast?_trimChars⟩
  have hfront : cs.takeWhile isBlank ++ cs.dropWhile isBlank = cs := List.takeWhile_append_dropWhile
  have hend : (cs.dropWhile isBlank).reverse.takeWhile isBlank
      ++ (cs.dropWhile isBlank).reverse.dropWhile isBlank = (cs.dropWhile isBlank).reverse :=
    List.takeWhile_append_dropWhile
  refine ⟨cs.takeWhile isBlank, ((cs.dropWhile isBlank).reverse.takeWhile isBlank).reverse, ?_,
    fun c hc => List.mem_takeWhile_imp hc,
    fun c hc => List.mem_takeWhile_imp (List.mem_reverse.mp hc)⟩
  unfold trimChars trimEndChars
  rw [List.append_assoc, ← List.reverse_append, hend, List.reverse_reverse, hfront]

/-- **Trimming** leaves what there is white space around, and nothing else can be left. -/
theorem trims_iff : Trims cs content ↔ trimChars cs = content :=
  ⟨Trims.trimChars_eq, fun h => h ▸ trims_trimChars cs⟩

/-! ## Between -/

/-- The text consists of the fields, with white space between them, and perhaps around them. -/
inductive IsFields : List Char → List (List Char) → Prop
  | blank {bs : List Char} (hbs : ∀ c ∈ bs, isBlank c = true) : IsFields bs []
  | field {bs f rest : List Char} {fs : List (List Char)} (hbs : ∀ c ∈ bs, isBlank c = true)
      (hne : f ≠ []) (hf : ∀ c ∈ f, isBlank c = false)
      (hrest : ∀ c, rest.head? = some c → isBlank c = true) (h : IsFields rest fs) :
      IsFields (bs ++ f ++ rest) (f :: fs)

theorem fields_blank_append {bs : List Char} (h : ∀ c ∈ bs, isBlank c = true) (cs : List Char) :
    fields (bs ++ cs) = fields cs := by
  induction bs with
  | nil => rfl
  | cons b bs ih =>
    obtain ⟨hb, hbs⟩ := List.forall_mem_cons.mp h
    rw [← ih hbs]
    unfold fields
    rw [List.cons_append, piecesAt_cons, if_pos hb]
    rfl

theorem fields_append (hne : f ≠ []) (hf : ∀ c ∈ f, isBlank c = false)
    (hrest : ∀ c, rest.head? = some c → isBlank c = true) :
    fields (f ++ rest) = f :: fields rest := by
  cases rest with
  | nil =>
    unfold fields
    rw [List.append_nil, piecesAt_of_forall_not hf]
    simp [hne]
  | cons d rest =>
    have hd := hrest d rfl
    have hblank : fields (d :: rest) = fields rest :=
      fields_blank_append (List.forall_mem_singleton.mpr hd) rest
    rw [hblank]
    unfold fields
    rw [piecesAt_append_cons hf hd]
    simp [hne]

theorem IsFields.fields_eq (h : IsFields cs fs) : fields cs = fs := by
  induction h with
  | @blank bs hbs =>
    have hbs' := fields_blank_append hbs []
    rwa [List.append_nil] at hbs'
  | field hbs hne hf hrest _ ih =>
    rw [List.append_assoc, fields_blank_append hbs, fields_append hne hf hrest, ih]

/-- One more character at the front starts a field, or makes the first one longer. -/
theorem IsFields.cons (h : IsFields cs fs) (c : Char) : ∃ fs, IsFields (c :: cs) fs := by
  cases hc : isBlank c with
  | true =>
    cases h with
    | blank hbs => exact ⟨[], .blank (List.forall_mem_cons.mpr ⟨hc, hbs⟩)⟩
    | field hbs hne hf hrest h =>
      exact ⟨_, .field (List.forall_mem_cons.mpr ⟨hc, hbs⟩) hne hf hrest h⟩
  | false =>
    have halone (hcs : ∀ d, cs.head? = some d → isBlank d = true) :
        IsFields (c :: cs) ([c] :: fs) :=
      .field (List.forall_mem_nil _) (List.cons_ne_nil c []) (List.forall_mem_singleton.mpr hc) hcs
        h
    cases h with
    | blank hbs => exact ⟨_, halone fun d hd => hbs d (List.mem_of_mem_head? hd)⟩
    | @field bs f rest _ hbs hne hf hrest h =>
      cases bs with
      | nil =>
        exact ⟨_, .field (List.forall_mem_nil _) (List.cons_ne_nil c f)
          (List.forall_mem_cons.mpr ⟨hc, hf⟩) hrest h⟩
      | cons b bs =>
        refine ⟨_, halone fun d hd => ?_⟩
        obtain rfl := Option.some.inj hd
        exact hbs _ List.mem_cons_self

theorem exists_isFields (cs : List Char) : ∃ fs, IsFields cs fs := by
  induction cs with
  | nil => exact ⟨[], .blank (List.forall_mem_nil _)⟩
  | cons c cs ih =>
    obtain ⟨fs, h⟩ := ih
    exact h.cons c

/-- **Cutting** finds the fields that a text consists of, and it consists of no others. -/
theorem isFields_iff : IsFields cs fs ↔ fields cs = fs := by
  refine ⟨IsFields.fields_eq, fun h => ?_⟩
  obtain ⟨fs', h'⟩ := exists_isFields cs
  rwa [← h, h'.fields_eq]

end AnnaToolchain.Text
